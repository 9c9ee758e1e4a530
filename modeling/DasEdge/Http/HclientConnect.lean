import DasEdge.Library.CString
import DasEdge.Library.GuardedRun

/-!
# Connecting to the host of a URL

`hclient_connect_host` of `httpclient.c`, with the host and the address that it remembers between
calls. A host is the bytes of a text. Name resolution, `inet_aton` or else `lwip_gethostbyname`, is
a function of the host. A call does not return when the host does not fit in the session.
-/

namespace DasEdge.Http

open DasEdge.Library

/-- `HCLIENT_HTTP_PRE` -/
def hclientHttpPre : List UInt8 := [0x68, 0x74, 0x74, 0x70, 0x3A, 0x2F, 0x2F]

/-- `HCLIENT_HOST_LENGTH` -/
def hclientHostLength : ℕ := 128

/-- `_s_host_cache` and the address in `_s_peer_cache`. -/
structure HostCache where
  hostCache : List UInt8
  peerCache : UInt32
  deriving DecidableEq

/-- Nothing is remembered at first. -/
def HostCache.init : HostCache where
  hostCache := []
  peerCache := 0

/-- A URL to connect to, and whether the socket is made and connects. -/
structure HttpCall where
  url : List UInt8
  connects : Bool

/-- What is copied to the host of the session. -/
def hclientHost (url : List UInt8) : List UInt8 :=
  if strBeginWith url hclientHttpPre then (url.drop hclientHttpPre.length).takeWhile (· ≠ 0x2F) else url

/-- A host without its port. -/
def hostName (host : List UInt8) : List UInt8 := host.takeWhile (· ≠ 0x3A)

/-- The port of a host, 80 if it has none. -/
def hostPort (host : List UInt8) : UInt16 :=
  match host.dropWhile (· ≠ 0x3A) with
  | [] => 80
  | _ :: ptr => UInt16.ofInt (atoi ptr)

/-- The URL is taken for one of the remembered host. -/
def HostCache.Hits (s : HostCache) (url : List UInt8) : Prop :=
  s.hostCache ≠ [] ∧ strBeginWith url s.hostCache = true

instance decidableHits (s : HostCache) (url : List UInt8) : Decidable (s.Hits url) :=
  inferInstanceAs (Decidable (_ ∧ _))

/-- `hclient_connect_host`: the address and the port of the connection, when it returns
`HCLIENT_ERR_OK`. -/
def hclientConnectHost (resolve : List UInt8 → Option UInt32) (s : HostCache) (call : HttpCall) :
    Option (Option (UInt32 × UInt16) × HostCache) :=
  if s.Hits call.url then some (if call.connects then some (s.peerCache, 80) else none, s)
  else
    let host := hclientHost call.url
    if host.length < hclientHostLength then
      match resolve (hostName host) with
      | none => some (none, s)
      | some addr =>
        some (if call.connects then some (addr, hostPort host) else none,
          { hostCache := hostName host, peerCache := addr })
    else none

/-- The host and port in a URL: what stands between `http://`, which may be left out, and the path. -/
def urlAuthority (url : List UInt8) : List UInt8 :=
  (if strBeginWith url hclientHttpPre then url.drop hclientHttpPre.length else url).takeWhile (· ≠ 0x2F)

/-- The call returns, and a successful one has connected to the host and port of its URL. -/
def ConnectsRight (resolve : List UInt8 → Option UInt32) (s : HostCache) (call : HttpCall) : Prop :=
  ∃ r, hclientConnectHost resolve s call = some r ∧ ∀ peer, r.1 = some peer →
    resolve (hostName (urlAuthority call.url)) = some peer.1 ∧ hostPort (urlAuthority call.url) = peer.2

/-- A URL that is taken for one of the remembered host, and is connected, has port 80 and a host
with the address of that one; the host of another one fits in the session. -/
def HostCache.Meets (resolve : List UInt8 → Option UInt32) (s : HostCache) (call : HttpCall) : Prop :=
  (s.Hits call.url → call.connects = true →
    hostPort (urlAuthority call.url) = 80 ∧ resolve (hostName (urlAuthority call.url)) =
    resolve s.hostCache) ∧
  (¬ s.Hits call.url → (hclientHost call.url).length < hclientHostLength)

instance decidableHostMeets (resolve : List UInt8 → Option UInt32) (s : HostCache) (call : HttpCall) :
    Decidable (s.Meets resolve call) :=
  inferInstanceAs (Decidable ((_ → _ → _ ∧ _) ∧ (_ → _)))

/-- What is remembered is an address of its host. -/
def HostCache.Inv (resolve : List UInt8 → Option UInt32) (s : HostCache) : Prop :=
  s.hostCache ≠ [] → resolve s.hostCache = some s.peerCache

/-- Each call remembers an address of its host. -/
theorem HostCache.Inv.step {resolve : List UInt8 → Option UInt32} {s : HostCache}
    (h : s.Inv resolve) (call : HttpCall)
    {r : Option (UInt32 × UInt16) × HostCache}
    (hstep : hclientConnectHost resolve s call = some r) : r.2.Inv resolve := by
  simp only [hclientConnectHost] at hstep
  split at hstep
  · cases hstep
    exact h
  · split at hstep
    · split at hstep
      · cases hstep
        exact h
      · rename_i addr haddr
        cases hstep
        exact fun _ => haddr
    · cases hstep

/-- A host and its port are read up to the path. -/
theorem hostPort_takeWhile (host : List UInt8) (h : 0x2F ∉ hostName host) :
    hostName (host.takeWhile (· ≠ 0x2F)) = hostName host ∧
      hostPort (host.takeWhile (· ≠ 0x2F)) = hostPort host := by
  have hname : ∀ c ∈ hostName host, decide (c ≠ (0x2F : UInt8)) = true := by
    intro c hc
    rw [decide_eq_true_eq]
    rintro rfl
    exact h hc
  have hcolon : ∀ c ∈ hostName host, decide (c ≠ (0x3A : UInt8)) = true := by
    intro c hc
    have hmem := List.mem_takeWhile_imp hc
    exact hmem
  have hsplit : hostName host ++ host.dropWhile (· ≠ 0x3A) = host := List.takeWhile_append_dropWhile
  cases hrest : host.dropWhile (· ≠ 0x3A) with
  | nil =>
    rw [hrest, List.append_nil] at hsplit
    have hall : host.takeWhile (· ≠ 0x2F) = host := List.takeWhile_eq_self_iff.mpr (hsplit ▸ hname)
    rw [hall]
    exact ⟨rfl, rfl⟩
  | cons c ptr =>
    have hc : c = 0x3A := by
      have hstop := List.head?_dropWhile_not (· ≠ (0x3A : UInt8)) host
      rw [hrest] at hstop
      simpa using hstop
    subst hc
    have hport : hostPort host = UInt16.ofInt (atoi ptr) := by rw [hostPort, hrest]
    rw [hrest] at hsplit
    have htake : host.takeWhile (· ≠ 0x2F) = hostName host ++ 0x3A :: ptr.takeWhile (· ≠ 0x2F) := by
      rw [← hsplit, List.takeWhile_append_of_pos (hsplit ▸ hname),
        List.takeWhile_cons_of_pos (by decide), hsplit]
    have hdrop : (host.takeWhile (· ≠ 0x2F)).dropWhile (· ≠ 0x3A) =
        0x3A :: ptr.takeWhile (· ≠ 0x2F) := by
      rw [htake, List.dropWhile_append_of_pos hcolon, List.dropWhile_cons_of_neg (by decide)]
    constructor
    · rw [htake, hostName, List.takeWhile_append_of_pos hcolon,
        List.takeWhile_cons_of_neg (by decide), List.append_nil]
    · rw [hport, hostPort, hdrop]
      simp only [atoi_takeWhile (c := 0x2F) (by decide) (by decide) (by decide) (by decide)]

/-- Where a URL is not taken for one of the remembered host, its own host is resolved. -/
theorem connectsRight_of_miss {resolve : List UInt8 → Option UInt32}
    (hpath : ∀ host, 0x2F ∈ host → resolve host = none)
    {s : HostCache} {call : HttpCall} (hmiss : ¬ s.Hits call.url) :
    ConnectsRight resolve s call ↔ (hclientHost call.url).length < hclientHostLength := by
  have hstep : hclientConnectHost resolve s call =
      if (hclientHost call.url).length < hclientHostLength then
        match resolve (hostName (hclientHost call.url)) with
        | none => some (none, s)
        | some addr =>
          some (if call.connects then some (addr, hostPort (hclientHost call.url)) else none,
            { hostCache := hostName (hclientHost call.url), peerCache := addr })
      else none := if_neg hmiss
  rw [ConnectsRight, hstep]
  constructor
  · rintro ⟨r, hr, -⟩
    by_contra hlong
    rw [if_neg hlong] at hr
    cases hr
  · intro hshort
    rw [if_pos hshort]
    cases haddr : resolve (hostName (hclientHost call.url)) with
    | none => exact ⟨_, rfl, fun peer hpeer => by cases hpeer⟩
    | some addr =>
      have hown : hostName (urlAuthority call.url) = hostName (hclientHost call.url) ∧
          hostPort (urlAuthority call.url) = hostPort (hclientHost call.url) := by
        by_cases hpre : strBeginWith call.url hclientHttpPre = true
        · rw [urlAuthority, hclientHost, if_pos hpre, if_pos hpre]
          exact ⟨rfl, rfl⟩
        · rw [urlAuthority, hclientHost, if_neg hpre, if_neg hpre]
          rw [hclientHost, if_neg hpre] at haddr
          refine hostPort_takeWhile call.url fun hslash => ?_
          rw [hpath _ hslash] at haddr
          cases haddr
      refine ⟨_, rfl, fun peer hpeer => ?_⟩
      rw [hown.1, hown.2, haddr]
      simp only at hpeer
      split at hpeer
      · cases hpeer
        exact ⟨rfl, rfl⟩
      · cases hpeer

/-- A URL that is taken for one of the remembered host is connected to the address of that one, at
port 80. -/
theorem connectsRight_of_hit {resolve : List UInt8 → Option UInt32} {s : HostCache}
    (hinv : s.Inv resolve) {call : HttpCall}
    (hhit : s.Hits call.url) :
    ConnectsRight resolve s call ↔ (call.connects = true → hostPort (urlAuthority call.url) = 80 ∧
      resolve (hostName (urlAuthority call.url)) = resolve s.hostCache) := by
  have hstep : hclientConnectHost resolve s call =
      some (if call.connects then some (s.peerCache, 80) else none, s) :=
    if_pos hhit
  rw [ConnectsRight, hstep, hinv hhit.1]
  cases call.connects with
  | false =>
    simp only [Bool.false_eq_true, if_false, false_imp_iff, iff_true]
    exact ⟨_, rfl, fun peer hpeer => by cases hpeer⟩
  | true =>
    simp only [if_true, true_imp_iff]
    constructor
    · rintro ⟨r, hr, hright⟩
      cases hr
      obtain ⟨haddr, hport⟩ := hright _ rfl
      exact ⟨hport, haddr⟩
    · rintro ⟨hport, haddr⟩
      refine ⟨_, rfl, fun peer hpeer => ?_⟩
      cases hpeer
      exact ⟨haddr, hport⟩

end DasEdge.Http
