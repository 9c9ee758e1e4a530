import DasEdge.Lora.LoraStd
import DasEdge.Zigbee.ZgbNodes
import Mathlib.Algebra.Order.Ring.Nat

/-!
# When nodes go offline and are removed

A check of the times sets a node offline when four learn steps have passed since it was heard, and
notes a time three learn steps before the check; it removes a node that is offline ten learn steps
after that time. Differences of times are taken in 32 bits. With a clock that is set they do not
wrap around, as long as ten learn steps do not. So a node is removed seven learn steps after it was
set offline. The two files check in the same way, and the argument is made for both at once, over
the fields that have the times.
-/

namespace DasEdge.Wireless

open DasEdge.Library DasEdge.Lora DasEdge.Zigbee

/-- A call on a registry at a time: something heard of a node, or a check of the times. -/
structure TimedCall (α : Type) where
  now : UInt32
  heard : Option α

/-- The clock is set, and does not go back. -/
structure ClockKept {α : Type} (calls : List (TimedCall α)) : Prop where
  set : ∀ c ∈ calls, clockSet ≤ c.now
  mono : calls.Pairwise fun c c' => c.now ≤ c'.now

/-- What has come of a run: the nodes, the time at which each network id was heard last, and the
time of the check that set it offline last. -/
structure Lived (ν δ : Type) where
  entries : List (NodeEntry ν δ)
  heard : ν → Option ℕ
  offline : ν → Option ℕ

variable {ν δ α : Type} [DecidableEq ν]

/-- There is a node with a network id that is online or offline. -/
def hasNode (entries : List (NodeEntry ν δ)) (netid : ν) (online : Bool) : Bool :=
  entries.any fun e => decide (e.netid = netid) && e.online == online

/-- What comes of one call more. -/
def livedStep (op : TimedCall α → NodeOp ν δ) (netid : α → ν) (s : Lived ν δ) (c : TimedCall α) :
    Lived ν δ where
  entries := entriesStep s.entries (op c)
  heard n := if c.heard.map netid = some n then some c.now.toNat else s.heard n
  offline n :=
    if c.heard.isNone && hasNode s.entries n true && hasNode (entriesStep s.entries (op c)) n false then
      some c.now.toNat
    else s.offline n

/-- What comes of a run from the empty registry. -/
def lived (op : TimedCall α → NodeOp ν δ) (netid : α → ν) (calls : List (TimedCall α)) : Lived ν δ :=
  calls.foldl (livedStep op netid) ⟨[], fun _ => none, fun _ => none⟩

/-- A check with the learn step `L` that leaves the nodes `entries'`: it neither sets offline nor
removes a node heard less than `4 * L` ago, it sets offline a node online that was heard longer ago,
and it removes a node offline when it was set offline `7 * L` ago or longer, and only then. Each
node has been heard. -/
structure CheckedRight (L now : ℕ) (s : Lived ν δ) (entries' : List (NodeEntry ν δ)) : Prop where
  heard : ∀ e ∈ s.entries, ∃ t, s.heard e.netid = some t
  kept : ∀ e ∈ s.entries, ∀ t, s.heard e.netid = some t → now < t + 4 * L →
    hasNode entries' e.netid true = true
  expired : ∀ e ∈ s.entries, e.online = true → ∀ t, s.heard e.netid = some t → t + 4 * L ≤ now →
    hasNode entries' e.netid false = true
  removed : ∀ e ∈ s.entries, e.online = false → ∃ t, s.offline e.netid = some t ∧
    (t + 7 * L ≤ now ↔ e.netid ∉ entries'.map NodeEntry.netid)

/-- A call at a time that hears a node: its last time is the time of the call. -/
inductive HearsAt (last : δ → UInt32) (netid : ν) (now : UInt32) : NodeOp ν δ → Prop where
  | insert (fresh : δ) (again : Bool → δ → δ) (info : SnodeInfo) (p q : ℕ) (hfresh : last fresh = now)
      (hagain : ∀ online data, last (again online data) = now) :
      HearsAt last netid now (.insert netid fresh again info p q)
  | online (touch : Bool → δ → δ) (htouch : ∀ online data, last (touch online data) = now) :
      HearsAt last netid now (.online netid touch)

/-- The last time of a node is over at a check. -/
def Over (L now last : UInt32) : Prop := last > now ∨ now - last ≥ L * 4

/-- What a check does with one node, whose last time is after the clock was set. -/
structure ChecksTimes (last off : δ → UInt32) (L now : UInt32)
    (check : Bool → δ → Option (Bool × δ)) : Prop where
  runsOut : ∀ data, clockSet ≤ last data → Over L now (last data) →
    ∃ data', check true data = some (false, data') ∧ off data' = now - L * 3
  stays : ∀ data, clockSet ≤ last data → ¬ Over L now (last data) →
    ∃ data', check true data = some (true, data') ∧ last data' = last data
  offline : ∀ data, check false data = if now - off data ≥ L * 10 then none else some (false, data)

/-- The calls of a registry hear nodes and check the times. -/
structure KeepsTimes (op : TimedCall α → NodeOp ν δ) (netid : α → ν) (last off : δ → UInt32)
    (L : UInt32) : Prop where
  heard : ∀ c a, c.heard = some a → HearsAt last (netid a) c.now (op c)
  check : ∀ c, c.heard = none → ∃ check, op c = .checkOnline check ∧ ChecksTimes last off L c.now check

/-- With a clock that is set and does not go back the last time is over after four learn steps. -/
theorem over_iff {L now last : UInt32} (hfit : 10 * L.toNat < 2 ^ 32) (hle : last ≤ now) :
    Over L now last ↔ last.toNat + 4 * L.toNat ≤ now.toNat := by
  have hle' : last.toNat ≤ now.toNat := hle
  have hlt := now.toNat_lt
  have hmul : (L * 4).toNat = L.toNat * 4 := by
    rw [UInt32.toNat_mul]
    change L.toNat * 4 % 2 ^ 32 = _
    omega
  have hsub : (now - last).toNat = now.toNat - last.toNat := by
    rw [UInt32.toNat_sub]
    omega
  have hnot : ¬ last > now := fun h => absurd (UInt32.lt_iff_toNat_lt.mp h) (Nat.not_lt.mpr hle')
  rw [Over, or_iff_right hnot, ge_iff_le, UInt32.le_iff_toNat_le, hmul, hsub]
  omega

/-- The time that is noted when a node is set offline is ten learn steps ago seven learn steps later. -/
theorem offline_over_iff {L now o : UInt32} (hfit : 10 * L.toNat < 2 ^ 32) (hset : clockSet ≤ o)
    (hle : o ≤ now) :
    now - (o - L * 3) ≥ L * 10 ↔ o.toNat + 7 * L.toNat ≤ now.toNat := by
  have hle' : o.toNat ≤ now.toNat := hle
  have hset' : 1546272000 ≤ o.toNat := hset
  have hlt := now.toNat_lt
  have hthree : (L * 3).toNat = L.toNat * 3 := by
    rw [UInt32.toNat_mul]
    change L.toNat * 3 % 2 ^ 32 = _
    omega
  have hten : (L * 10).toNat = L.toNat * 10 := by
    rw [UInt32.toNat_mul]
    change L.toNat * 10 % 2 ^ 32 = _
    omega
  -- the clock leaves room for three learn steps before the difference wraps around
  have hsub : (now - (o - L * 3)).toNat = now.toNat - o.toNat + L.toNat * 3 := by
    rw [UInt32.toNat_sub, UInt32.toNat_sub, hthree]
    omega
  rw [ge_iff_le, UInt32.le_iff_toNat_le, hten, hsub]
  omega

/-- A node with a network id that occurs once is the one that is found. -/
theorem hasNode_iff {entries : List (NodeEntry ν δ)} (hnodup : (entries.map NodeEntry.netid).Nodup)
    {e : NodeEntry ν δ}
    (he : e ∈ entries) (online : Bool) : hasNode entries e.netid online = true ↔ e.online = online := by
  simp only [hasNode, List.any_eq_true, Bool.and_eq_true, decide_eq_true_eq, beq_iff_eq]
  constructor
  · rintro ⟨x, hx, hnetid, honline⟩
    rwa [List.inj_on_of_nodup_map hnodup hx he hnetid] at honline
  · exact fun h => ⟨e, he, rfl, h⟩

/-- A node that is there is found. -/
theorem hasNode_of_mem {entries : List (NodeEntry ν δ)} {e : NodeEntry ν δ} (he : e ∈ entries) :
    hasNode entries e.netid e.online = true := by
  simp only [hasNode, List.any_eq_true, Bool.and_eq_true, decide_eq_true_eq, beq_iff_eq]
  exact ⟨e, he, rfl, rfl⟩

/-- What the times of a node say at a time `now`: online it was heard at its last time; offline it
was set offline at some time, four learn steps or more after it was heard. -/
def EntryLived (last off : δ → UInt32) (L now : UInt32) (heard offline : Option ℕ)
    (e : NodeEntry ν δ) : Prop :=
  if e.online then heard = some (last e.data).toNat ∧ clockSet ≤ last e.data ∧ last e.data ≤ now
  else ∃ t o, heard = some t ∧ offline = some o.toNat ∧ t + 4 * L.toNat ≤ o.toNat ∧
    clockSet ≤ o ∧ o ≤ now ∧
    off e.data = o - L * 3

/-- The network ids occur once, and the times of all nodes are right. -/
structure Lived.Inv (last off : δ → UInt32) (L now : UInt32) (s : Lived ν δ) : Prop where
  netids : (s.entries.map NodeEntry.netid).Nodup
  entry : ∀ e ∈ s.entries, EntryLived last off L now (s.heard e.netid) (s.offline e.netid) e

section Times

variable {last off : δ → UInt32} {L now : UInt32}

omit [DecidableEq ν] in
/-- The times stay right. -/
theorem EntryLived.mono {now' : UInt32} {heard offline : Option ℕ} {e : NodeEntry ν δ}
    (h : EntryLived last off L now heard offline e) (hle : now ≤ now') :
    EntryLived last off L now' heard offline e := by
  unfold EntryLived at h ⊢
  split
  · next honline =>
    rw [if_pos honline] at h
    exact ⟨h.1, h.2.1, UInt32.le_trans h.2.2 hle⟩
  · next honline =>
    rw [if_neg honline] at h
    obtain ⟨t, o, hheard, hoffline, hexpired, hset, ho, hoff⟩ := h
    exact ⟨t, o, hheard, hoffline, hexpired, hset, UInt32.le_trans ho hle, hoff⟩

/-- The network ids of changed entries are the same. -/
theorem map_netid_changeEntry (entries : List (NodeEntry ν δ)) (netid : ν)
    {f : NodeEntry ν δ → NodeEntry ν δ}
    (hf : ∀ e, (f e).netid = e.netid) :
    (changeEntry entries netid f).map NodeEntry.netid = entries.map NodeEntry.netid := by
  rw [changeEntry, List.map_map]
  refine List.map_congr_left fun e _ => ?_
  simp only [Function.comp_apply]
  split
  · exact hf e
  · rfl

/-- A call that hears a node leaves the network ids once each, and entries that were there or one of
the node, online and with the time of the call. -/
theorem HearsAt.entries {netid : ν} {op : NodeOp ν δ} (h : HearsAt last netid now op)
    {entries : List (NodeEntry ν δ)}
    (hnodup : (entries.map NodeEntry.netid).Nodup) :
    ((entriesStep entries op).map NodeEntry.netid).Nodup ∧
      ∀ e ∈ entriesStep entries op, (e ∈ entries ∧ e.netid ≠ netid) ∨
        (e.netid = netid ∧ e.online = true ∧ last e.data = now) := by
  have hchange : ∀ f : NodeEntry ν δ → NodeEntry ν δ, (∀ e, (f e).netid = e.netid) →
      (∀ e, (f e).online = true ∧ last (f e).data = now) →
      ((changeEntry entries netid f).map NodeEntry.netid).Nodup ∧
        ∀ e ∈ changeEntry entries netid f, (e ∈ entries ∧ e.netid ≠ netid) ∨
          (e.netid = netid ∧ e.online = true ∧ last e.data = now) := by
    intro f hnetid hf
    refine ⟨by rwa [map_netid_changeEntry entries netid hnetid], fun e he => ?_⟩
    obtain ⟨x, hx, rfl⟩ := List.mem_map.mp he
    by_cases heq : x.netid = netid
    · rw [if_pos heq]
      exact .inr ⟨(hnetid x).trans heq, hf x⟩
    · rw [if_neg heq]
      exact .inl ⟨hx, heq⟩
  cases h with
  | insert fresh again info p q hfresh hagain =>
    simp only [entriesStep]
    split
    · exact hchange _ (fun _ => rfl) fun e => ⟨rfl, hagain e.online e.data⟩
    · next hnot =>
      refine ⟨?_, fun e he => ?_⟩
      · rw [List.map_append, List.nodup_append]
        refine ⟨hnodup, List.nodup_singleton _, ?_⟩
        rintro n hn n' hn' rfl
        obtain rfl : n = netid := List.mem_singleton.mp hn'
        exact hnot hn
      · rcases List.mem_append.mp he with he | he
        · exact .inl ⟨he, fun heq => hnot (heq ▸ List.mem_map_of_mem he)⟩
        · obtain rfl := List.mem_singleton.mp he
          exact .inr ⟨rfl, rfl, hfresh⟩
  | online touch htouch => exact hchange _ (fun _ => rfl) fun e => ⟨rfl, htouch e.online e.data⟩

/-- A node that a check keeps was there with its network id. -/
theorem mem_checked {entries : List (NodeEntry ν δ)} {check : Bool → δ → Option (Bool × δ)}
    {e' : NodeEntry ν δ}
    (h : e' ∈ entriesStep entries (.checkOnline check)) :
    ∃ e ∈ entries, e'.netid = e.netid ∧ check e.online e.data = some (e'.online, e'.data) := by
  obtain ⟨e, he, hkept⟩ := List.mem_filterMap.mp h
  obtain ⟨kept, hcheck, rfl⟩ := Option.map_eq_some_iff.mp hkept
  exact ⟨e, he, rfl, hcheck⟩

/-- A node that the check keeps is there behind it. -/
theorem checked_mem {entries : List (NodeEntry ν δ)} {check : Bool → δ → Option (Bool × δ)}
    {e : NodeEntry ν δ}
    (he : e ∈ entries) {online : Bool} {data : δ} (h : check e.online e.data = some (online, data)) :
    { e with online := online, data := data } ∈ entriesStep entries (.checkOnline check) :=
  List.mem_filterMap.mpr ⟨e, he, by rw [NodeEntry.checked, h]; rfl⟩

/-- A check leaves the network ids once each. -/
theorem nodup_checked {entries : List (NodeEntry ν δ)} (hnodup : (entries.map NodeEntry.netid).Nodup)
    (check : Bool → δ → Option (Bool × δ)) :
    ((entriesStep entries (.checkOnline check)).map NodeEntry.netid).Nodup := by
  refine hnodup.sublist ?_
  clear hnodup
  induction entries with
  | nil => exact List.Sublist.refl []
  | cons e entries ih =>
    simp only [entriesStep, List.filterMap_cons, List.map_cons] at ih ⊢
    split
    · exact ih.cons _
    · next kept hkept =>
      obtain ⟨data, -, rfl⟩ := Option.map_eq_some_iff.mp hkept
      exact ih.cons_cons _

omit [DecidableEq ν] in
/-- What a check at a time does with a node whose times are right: online it stays so until four
learn steps have passed since it was heard, and then it is set offline; offline it is kept until
seven learn steps have passed since it was set offline, and then it is removed. -/
theorem ChecksTimes.node {check : Bool → δ → Option (Bool × δ)}
    (hcheck : ChecksTimes last off L now check)
    (hfit : 10 * L.toNat < 2 ^ 32) {heard offline : Option ℕ} {e : NodeEntry ν δ}
    (h : EntryLived last off L now heard offline e) :
    (e.online = true ∧ heard = some (last e.data).toNat ∧
      ((now.toNat < (last e.data).toNat + 4 * L.toNat ∧
          ∃ data, check e.online e.data = some (true, data) ∧ last data = last e.data) ∨
        ((last e.data).toNat + 4 * L.toNat ≤ now.toNat ∧
          ∃ data, check e.online e.data = some (false, data) ∧ off data = now - L * 3))) ∨
    (e.online = false ∧ ∃ t o, heard = some t ∧ offline = some o.toNat ∧
      t + 4 * L.toNat ≤ o.toNat ∧ o ≤ now ∧
      ((now.toNat < o.toNat + 7 * L.toNat ∧ check e.online e.data = some (false, e.data)) ∨
        (o.toNat + 7 * L.toNat ≤ now.toNat ∧ check e.online e.data = none))) := by
  unfold EntryLived at h
  cases honline : e.online with
  | true =>
    rw [if_pos honline] at h
    obtain ⟨hheard, hset, hle⟩ := h
    refine .inl ⟨rfl, hheard, ?_⟩
    have hover := over_iff hfit hle
    by_cases hexpired : Over L now (last e.data)
    · exact .inr ⟨hover.mp hexpired, hcheck.runsOut e.data hset hexpired⟩
    · exact .inl ⟨Nat.not_le.mp (mt hover.mpr hexpired), hcheck.stays e.data hset hexpired⟩
  | false =>
    rw [if_neg (by rw [honline]; decide)] at h
    obtain ⟨t, o, hheard, hoffline, hexpired, hset, hle, hoff⟩ := h
    refine .inr ⟨rfl, t, o, hheard, hoffline, hexpired, hle, ?_⟩
    have hiff := offline_over_iff hfit hset hle
    rw [hcheck.offline, hoff]
    by_cases hgone : o.toNat + 7 * L.toNat ≤ now.toNat
    · exact .inr ⟨hgone, if_pos (hiff.mpr hgone)⟩
    · exact .inl ⟨Nat.not_le.mp hgone, if_neg (mt hiff.mp hgone)⟩

/-- A check keeps the times right. -/
theorem Lived.Inv.check {s : Lived ν δ} {T : UInt32} (h : s.Inv last off L T) (hle : T ≤ now)
    (hset : clockSet ≤ now)
    (hfit : 10 * L.toNat < 2 ^ 32) {op : TimedCall α → NodeOp ν δ} {netid : α → ν}
    {check : Bool → δ → Option (Bool × δ)} (hop : op ⟨now, none⟩ = .checkOnline check)
    (hcheck : ChecksTimes last off L now check) :
    (livedStep op netid s ⟨now, none⟩).Inv last off L now := by
  have hnodup : ((entriesStep s.entries (op ⟨now, none⟩)).map NodeEntry.netid).Nodup := by
    rw [hop]
    exact nodup_checked h.netids check
  refine ⟨hnodup, fun e' he' => ?_⟩
  have he'' : e' ∈ entriesStep s.entries (.checkOnline check) := hop ▸ he'
  obtain ⟨e, he, hnetid, hkept⟩ := mem_checked he''
  have hentry := (h.entry e he).mono hle
  have hheard : (livedStep op netid s ⟨now, none⟩).heard e'.netid = s.heard e.netid := by
    rw [hnetid]; rfl
  have hoffline : (livedStep op netid s ⟨now, none⟩).offline e'.netid =
      if hasNode s.entries e.netid true && hasNode (entriesStep s.entries (op ⟨now, none⟩))
      e'.netid false then
        some now.toNat
      else s.offline e.netid := by rw [hnetid]; rfl
  have hbefore := hasNode_iff h.netids he true
  have hafter := hasNode_iff hnodup he' false
  rw [hheard, hoffline]
  rcases hcheck.node hfit hentry with ⟨honline, hlast, hcase⟩ | ⟨honline, t, o, ht, ho, hexpired,
    hole, hcase⟩
  · rcases hcase with ⟨-, data, hdata, hsame⟩ | ⟨hover, data, hdata, hoff⟩
    · obtain ⟨honline', rfl⟩ := Prod.mk.inj (Option.some.inj (hkept.symm.trans hdata))
      unfold EntryLived at hentry ⊢
      rw [if_pos honline] at hentry
      rw [if_pos honline', hsame]
      exact hentry
    · obtain ⟨honline', rfl⟩ := Prod.mk.inj (Option.some.inj (hkept.symm.trans hdata))
      unfold EntryLived
      rw [if_neg (by rw [honline']; decide), hbefore.mpr honline, hafter.mpr honline']
      exact ⟨_, now, hlast, rfl, hover, hset, UInt32.le_refl now, hoff⟩
  · rcases hcase with ⟨-, hdata⟩ | ⟨-, hdata⟩
    · obtain ⟨honline', hsame⟩ := Prod.mk.inj (Option.some.inj (hkept.symm.trans hdata))
      have hnot : hasNode s.entries e.netid true = false := by
        rw [← Bool.not_eq_true, hbefore, honline]
        decide
      unfold EntryLived at hentry ⊢
      rw [if_neg (by rw [honline]; decide)] at hentry
      rw [if_neg (by rw [honline']; decide), hnot, hsame]
      exact hentry
    · rw [hdata] at hkept
      cases hkept

/-- Hearing a node keeps the times right. -/
theorem Lived.Inv.hear {s : Lived ν δ} {T : UInt32} (h : s.Inv last off L T) (hle : T ≤ now)
    (hset : clockSet ≤ now)
    {op : TimedCall α → NodeOp ν δ} {netid : α → ν} {a : α}
    (hop : HearsAt last (netid a) now (op ⟨now, some a⟩)) :
    (livedStep op netid s ⟨now, some a⟩).Inv last off L now := by
  obtain ⟨hnodup, hentries⟩ := hop.entries h.netids
  refine ⟨hnodup, fun e he => ?_⟩
  have hoffline : (livedStep op netid s ⟨now, some a⟩).offline e.netid = s.offline e.netid := rfl
  have hheard : (livedStep op netid s ⟨now, some a⟩).heard e.netid =
      if netid a = e.netid then some now.toNat else s.heard e.netid := by
    simp only [livedStep, Option.map_some, Option.some.injEq]
  rw [hoffline, hheard]
  rcases hentries e he with ⟨he, hne⟩ | ⟨heq, honline, hlast⟩
  · rw [if_neg (Ne.symm hne)]
    exact (h.entry e he).mono hle
  · rw [if_pos heq.symm]
    unfold EntryLived
    rw [if_pos honline, hlast]
    exact ⟨rfl, hset, UInt32.le_refl now⟩

/-- A check of nodes whose times are right is right. -/
theorem Lived.Inv.checkedRight {s : Lived ν δ} {T : UInt32} (h : s.Inv last off L T) (hle : T ≤ now)
    (hfit : 10 * L.toNat < 2 ^ 32) {check : Bool → δ → Option (Bool × δ)}
    (hcheck : ChecksTimes last off L now check) :
    CheckedRight L.toNat now.toNat s (entriesStep s.entries (.checkOnline check)) := by
  have hnode : ∀ e ∈ s.entries, _ := fun e he => hcheck.node hfit ((h.entry e he).mono hle)
  refine ⟨fun e he => ?_, fun e he t ht hlt => ?_, fun e he honline t ht hexpired => ?_,
    fun e he honline => ?_⟩
  · rcases hnode e he with ⟨-, hlast, -⟩ | ⟨-, t, o, ht, -⟩
    · exact ⟨_, hlast⟩
    · exact ⟨t, ht⟩
  · rcases hnode e he with ⟨-, hlast, hcase⟩ | ⟨-, t', o, ht', -, hgone, hole, -⟩
    · obtain rfl := Option.some.inj (hlast.symm.trans ht)
      rcases hcase with ⟨-, data, hdata, -⟩ | ⟨hover, -⟩
      · exact hasNode_of_mem (checked_mem he hdata)
      · omega
    · obtain rfl := Option.some.inj (ht'.symm.trans ht)
      have hole' : o.toNat ≤ now.toNat := hole
      omega
  · rcases hnode e he with ⟨-, hlast, hcase⟩ | ⟨honline', -⟩
    · obtain rfl := Option.some.inj (hlast.symm.trans ht)
      rcases hcase with ⟨hlt, -⟩ | ⟨-, data, hdata, -⟩
      · omega
      · exact hasNode_of_mem (checked_mem he hdata)
    · rw [honline] at honline'
      cases honline'
  · rcases hnode e he with ⟨honline', -⟩ | ⟨-, t, o, -, ho, -, -, hcase⟩
    · rw [honline] at honline'
      cases honline'
    · refine ⟨o.toNat, ho, ?_⟩
      rcases hcase with ⟨hlt, hdata⟩ | ⟨hover, hdata⟩
      · exact iff_of_false (Nat.not_le.mpr hlt) fun hnot =>
          hnot (List.mem_map.mpr ⟨_, checked_mem he hdata, rfl⟩)
      · refine iff_of_true hover fun hmem => ?_
        obtain ⟨e', he', hnetid⟩ := List.mem_map.mp hmem
        obtain ⟨x, hx, hnetid', hkept⟩ := mem_checked he'
        -- the network id occurs once, so that the node kept would be the one removed
        rw [List.inj_on_of_nodup_map h.netids hx he (hnetid'.symm.trans hnetid), hdata] at hkept
        cases hkept

/-- A run keeps the registry and the times right. -/
theorem livedRun {op : TimedCall α → NodeOp ν δ} {netid : α → ν} (hop : KeepsTimes op netid last off L)
    (hfit : 10 * L.toNat < 2 ^ 32) {fuel n : ℕ} {calls : List (TimedCall α)} {s : Lived ν δ}
    {reg : NodeRegistry ν δ}
    {T : UInt32} (hreg : Registered reg s.entries) (hinv : s.Inv last off L T)
    (hrooms : EntriesFit (n + 1) s.entries)
    (hfuel : n + calls.length < fuel) (hclock : ClockKept calls) (hT : ∀ c ∈ calls, T ≤ c.now)
    (hle : T ≤ now)
    (hnow : ∀ c ∈ calls, c.now ≤ now)
    (hfresh : GuardedRun (nodeStep fuel) NodeFresh reg (calls.map op)) :
    ∃ outs reg', runBlocking (nodeStep fuel) reg (calls.map op) = some (outs, reg') ∧
      Registered reg' (calls.foldl (livedStep op netid) s).entries ∧
      (calls.foldl (livedStep op netid) s).Inv last off L now ∧
      EntriesFit (n + calls.length + 1) (calls.foldl (livedStep op netid) s).entries := by
  induction calls generalizing s reg T n with
  | nil =>
    exact ⟨[], reg, rfl, hreg, ⟨hinv.netids, fun e he => (hinv.entry e he).mono hle⟩, hrooms⟩
  | cons c calls ih =>
    obtain ⟨hset, hmono⟩ := hclock
    rw [List.pairwise_cons] at hmono
    rw [List.length_cons] at hfuel
    obtain ⟨hhead, htail⟩ := hfresh
    have hTc := hT c List.mem_cons_self
    have hcset := hset c List.mem_cons_self
    have hrounds : EntriesFit fuel s.entries := hrooms.mono (by omega)
    obtain ⟨out, reg₁, hstep, hreg₁⟩ := hreg.step hrounds (op c) hhead
    rw [hstep] at htail
    have hinv₁ : (livedStep op netid s c).Inv last off L c.now := by
      obtain ⟨cnow, heard⟩ := c
      cases heard with
      | none =>
        obtain ⟨check, hcheck, htimes⟩ := hop.check ⟨cnow, none⟩ rfl
        exact hinv.check hTc hcset hfit hcheck htimes
      | some a => exact hinv.hear hTc hcset (hop.heard ⟨cnow, some a⟩ a rfl)
    obtain ⟨outs, reg', hrun, hreg', hinv', hrooms'⟩ := ih hreg₁ hinv₁ (hrooms.step (op c)) (by omega)
      ⟨fun x hx => hset x (List.mem_cons_of_mem _ hx), hmono.2⟩ hmono.1 (hnow c List.mem_cons_self)
      (fun x hx => hnow x (List.mem_cons_of_mem _ hx)) htail
    refine ⟨out :: outs, reg', ?_, hreg', hinv', ?_⟩
    · rw [List.map_cons, runBlocking, hstep, Option.bind_some, hrun]
      rfl
    · have hlength : n + (c :: calls).length + 1 = n + 1 + calls.length + 1 := by
        rw [List.length_cons]
        omega
      rw [hlength]
      exact hrooms'

end Times

/-- A run of calls from the empty registry, and a check behind it: both end, and the check is right. -/
def LivenessKept {ι : Type} (step : NodeRegistry ν δ → ι → Option (Option ℕ × NodeRegistry ν δ))
    (call : ι → NodeOp ν δ)
    (op : TimedCall α → ι) (netid : α → ν) (L now : UInt32) (calls : List (TimedCall α)) : Prop :=
  ∃ outs reg out reg' entries', runBlocking step emptyNodeRegistry (calls.map op) = some (outs, reg) ∧
    Registered reg (lived (fun c => call (op c)) netid calls).entries ∧
    step reg (op ⟨now, none⟩) = some (out, reg') ∧ Registered reg' entries' ∧
    CheckedRight L.toNat now.toNat (lived (fun c => call (op c)) netid calls) entries'

/-- Registries whose calls hear nodes and check the times check them right in every run. -/
theorem livenessKept {ι : Type} {step : NodeRegistry ν δ → ι → Option (Option ℕ × NodeRegistry ν δ)}
    {call : ι → NodeOp ν δ} {op : TimedCall α → ι} {netid : α → ν} {last off : δ → UInt32}
    {L now : UInt32} {fuel : ℕ}
    (hstep : ∀ reg op, step reg op = nodeStep fuel reg (call op))
    (hop : KeepsTimes (fun c => call (op c)) netid last off L) (hfit : 10 * L.toNat < 2 ^ 32)
    {calls : List (TimedCall α)} (hfuel : calls.length + 1 < fuel)
    (hclock : ClockKept (calls ++ [⟨now, none⟩]))
    (hfresh : GuardedRun step (fun reg op => NodeFresh reg (call op)) emptyNodeRegistry
      (calls.map op)) :
    LivenessKept step call op netid L now calls := by
  obtain rfl : step = fun reg op => nodeStep fuel reg (call op) := funext fun reg => funext (hstep reg)
  rw [guardedRun_map, List.map_map] at hfresh
  have hempty : Registered (emptyNodeRegistry : NodeRegistry ν δ) [] :=
    registered_nil rfl (fun _ => rfl) fun _ => rfl
  have hset := fun c hc => hclock.set c (List.mem_append_left _ hc)
  obtain ⟨hmono, -, hnow⟩ := List.pairwise_append.mp hclock.mono
  have hinv : Lived.Inv last off L 0 (⟨[], fun _ => none, fun _ => none⟩ : Lived ν δ) :=
    ⟨List.nodup_nil, fun e he => absurd he List.not_mem_nil⟩
  have hzero : ∀ t : UInt32, 0 ≤ t := fun t => UInt32.le_iff_toNat_le.mpr (Nat.zero_le _)
  obtain ⟨outs, reg, hrun, hreg, hinv', hrooms⟩ := livedRun hop hfit (n := 0) hempty hinv
    ⟨Nat.zero_lt_one, fun e he => absurd he List.not_mem_nil⟩ (by omega) ⟨hset, hmono⟩
      (fun c _ => hzero c.now)
    (hzero now) (fun c hc => hnow c hc _ (List.mem_singleton_self _)) hfresh
  obtain ⟨check, hcheck, htimes⟩ := hop.check ⟨now, none⟩ rfl
  have hrounds : EntriesFit fuel (lived (fun c => call (op c)) netid calls).entries :=
    hrooms.mono (by omega)
  obtain ⟨out, reg', hlast, hreg'⟩ :=
    hreg.step hrounds (call (op ⟨now, none⟩)) (by rw [hcheck]; trivial)
  refine ⟨outs, reg, out, reg', _, ?_, hreg, hlast, hreg', ?_⟩
  · rw [runBlocking_map, List.map_map]
    exact hrun
  · rw [hcheck]
    exact hinv'.checkedRight (UInt32.le_refl now) hfit htimes

/-- What is heard of a LoRa node: an announcement, with the addresses that the allocator gives, or
another message. -/
inductive LoraNews where
  | announced (info : LoraStdInfo) (rssi : UInt8) (p q : ℕ)
  | message (netid : UInt32) (rssi : UInt8)

/-- The node that is heard. -/
def LoraNews.netid : LoraNews → UInt32
  | .announced info _ _ _ => info.netid
  | .message netid _ => netid

/-- The call on the registry with the learn step `learnstep`. -/
def loraTimed (learnstep : UInt32) (c : TimedCall LoraNews) : LoraNodeOp :=
  match c.heard with
  | some (.announced info rssi p q) => .insert info rssi c.now p q
  | some (.message netid rssi) => .online netid rssi c.now
  | none => .checkOnline c.now learnstep

/-- An announcement of a Zigbee node, with the addresses that the allocator gives. -/
structure ZgbNews where
  info : ZgbStdScan
  p : ℕ
  q : ℕ

/-- The call on the registry with the learn step `learnStep`. -/
def zgbTimed (learnStep : UInt32) (c : TimedCall ZgbNews) : ZgbNodeOp :=
  match c.heard with
  | some news => .insert news.info c.now news.p news.q
  | none => .checkOnline c.now learnStep

/-- The last time of a LoRa node is the one at which it was heard. -/
theorem lasttime_heard (now : UInt32) (online : Bool) (mnode : LoraMnode) :
    (mnode.heard now online).lasttime = now := by
  simp only [LoraMnode.heard]
  split <;> split <;> rfl

/-- The check of a LoRa node looks at its times. -/
theorem loraCheckNode_checksTimes (L now : UInt32) :
    ChecksTimes LoraMnode.lasttime LoraMnode.offtime L now (loraCheckNode now L) := by
  have hnot : ∀ mnode : LoraMnode, clockSet ≤ mnode.lasttime → ¬ mnode.lasttime < clockSet :=
    fun mnode hset hlt =>
    Nat.not_lt.mpr (UInt32.le_iff_toNat_le.mp hset) (UInt32.lt_iff_toNat_lt.mp hlt)
  -- the time since when a node is up may be replaced, and nothing else is
  have hup : ∀ mnode : LoraMnode, ∃ mnode' : LoraMnode, mnode'.lasttime = mnode.lasttime ∧
      (if mnode.uptime < clockSet then { mnode with uptime := mnode.lasttime } else mnode) =
      mnode' := fun mnode =>
    ⟨_, by split <;> rfl, rfl⟩
  refine ⟨fun mnode hset hover => ?_, fun mnode hset hover => ?_,
    fun mnode => by simp only [loraCheckNode]; rfl⟩
  · obtain ⟨mnode', hlast, heq⟩ := hup mnode
    rw [← hlast] at hover
    refine ⟨{ mnode' with offtime := now - L * 3 }, ?_, rfl⟩
    simp only [loraCheckNode, if_true, if_neg (hnot mnode hset), heq]
    exact if_pos hover
  · obtain ⟨mnode', hlast, heq⟩ := hup mnode
    rw [← hlast] at hover
    refine ⟨mnode', ?_, hlast⟩
    simp only [loraCheckNode, if_true, if_neg (hnot mnode hset), heq]
    exact if_neg hover

/-- The check of a Zigbee node looks at its times. -/
theorem zgbCheckNode_checksTimes (L now : UInt32) :
    ChecksTimes ZgbMnode.lasttime ZgbMnode.offtime L now (zgbCheckNode now L) := by
  refine ⟨fun mnode _ hover => ?_, fun mnode _ hover => ?_, fun mnode => rfl⟩
  · exact ⟨{ mnode with offtime := now - L * 3 }, if_pos hover, rfl⟩
  · exact ⟨mnode, if_neg hover, rfl⟩

/-- The calls of the LoRa registry hear nodes and check the times. -/
theorem lora_keepsTimes (L : UInt32) :
    KeepsTimes (fun c => (loraTimed L c).call) LoraNews.netid LoraMnode.lasttime LoraMnode.offtime L where
  heard := by
    rintro ⟨now, -⟩ a rfl
    cases a with
    | announced info rssi p q => exact .insert _ _ _ _ _ rfl fun online mnode => lasttime_heard now online mnode
    | message netid rssi => exact .online _ fun online mnode => lasttime_heard now online mnode
  check := by
    rintro ⟨now, -⟩ rfl
    exact ⟨loraCheckNode now L, rfl, loraCheckNode_checksTimes L now⟩

/-- The calls of the Zigbee registry hear nodes and check the times. -/
theorem zgb_keepsTimes (L : UInt32) :
    KeepsTimes (fun c => (zgbTimed L c).call) (fun news : ZgbNews => news.info.netid) ZgbMnode.lasttime
      ZgbMnode.offtime L where
  heard := by
    rintro ⟨now, -⟩ a rfl
    refine .insert _ _ _ _ _ rfl fun online mnode => ?_
    simp only [ZgbMnode.heard]
    split <;> rfl
  check := by
    rintro ⟨now, -⟩ rfl
    exact ⟨zgbCheckNode now L, rfl, zgbCheckNode_checksTimes L now⟩

/-- With a clock that is set and does not go back, and a learn step whose tenfold has 32 bits, each
check in each run of announcements and checks is right, for LoRa and for Zigbee. -/
theorem wireless_liveness (fuel : ℕ) (L : UInt32) (hfit : 10 * L.toNat < 2 ^ 32) :
    (∀ (calls : List (TimedCall LoraNews)) (now : UInt32), calls.length + 1 < fuel →
      ClockKept (calls ++ [⟨now, none⟩]) →
      GuardedRun (loraNodeStep fuel) (fun reg op => NodeFresh reg op.call) emptyNodeRegistry
        (calls.map (loraTimed L)) →
      LivenessKept (loraNodeStep fuel) LoraNodeOp.call (loraTimed L) LoraNews.netid L now calls) ∧
    ∀ (calls : List (TimedCall ZgbNews)) (now : UInt32), calls.length + 1 < fuel →
      ClockKept (calls ++ [⟨now, none⟩]) →
      GuardedRun (zgbNodeStep fuel) (fun reg op => NodeFresh reg op.call) emptyNodeRegistry
        (calls.map (zgbTimed L)) →
      LivenessKept (zgbNodeStep fuel) ZgbNodeOp.call (zgbTimed L)
      (fun news => news.info.netid) L now calls :=
  ⟨fun _ _ hfuel hclock hfresh => livenessKept (loraNodeStep_eq fuel)
    (lora_keepsTimes L) hfit hfuel hclock hfresh,
    fun _ _ hfuel hclock hfresh => livenessKept (zgbNodeStep_eq fuel)
      (zgb_keepsTimes L) hfit hfuel hclock hfresh⟩

/-- Two LoRa nodes are announced, the second one is heard again, and the first one is set offline
and removed; a Zigbee node is announced, and set offline. -/
theorem wireless_liveness_few :
    LivenessKept (loraNodeStep 9) LoraNodeOp.call (loraTimed 10) LoraNews.netid 10 1600000120
        [⟨1600000000, some (.announced ⟨⟨0, 1, fun _ => 5⟩, 1, 7, ⟨0, 0, []⟩⟩ 80 1 1)⟩,
          ⟨1600000010, some (.announced ⟨⟨0, 1, fun _ => 6⟩, 1, 8, ⟨0, 0, []⟩⟩ 80 2 2)⟩,
          ⟨1600000020, some (.message 8 90)⟩, ⟨1600000040, none⟩, ⟨1600000100, some (.message 8 90)⟩] ∧
      LivenessKept (zgbNodeStep 4) ZgbNodeOp.call (zgbTimed 10)
      (fun news => news.info.netid) 10 1600000050
        [⟨1600000000, some ⟨⟨⟨0, 1, fun _ => 5⟩, 1, 7, [], 80⟩, 1, 1⟩⟩, ⟨1600000039, none⟩] :=
  ⟨(wireless_liveness 9 10 (by decide)).1 _ 1600000120 (by decide) ⟨by decide, by decide⟩ (by decide),
    (wireless_liveness 4 10 (by decide)).2 _ 1600000050 (by decide) ⟨by decide, by decide⟩ (by decide)⟩

end DasEdge.Wireless
