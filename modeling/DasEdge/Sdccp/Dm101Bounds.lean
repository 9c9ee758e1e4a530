import DasEdge.Sdccp.Dm101RoundTrip

/-!
# What `read_pkg` accepts and writes

`read_pkg` compares the CRC-32 of what lies in `recvbuf` with the one that it reads. It does not
look at the result for the CRC-8 of the head, at how many bytes a call of `getdata` gave, or at the
size of `recvbuf`.
-/

namespace DasEdge.Sdccp

open DasEdge.Library DasEdge.Board

/-- What the calls of `getdata` give for the parts of a packet, if they are made and do not fail. -/
structure Dm101Given where
  head : Option (List UInt8) := none
  payload : Option (List UInt8) := none
  crc : Option (List UInt8) := none

section Given

variable {σ : Type} (crypto : Dm101Crypto) (auth : Vector UInt8 8) (io : Dm101Getdata σ)
  (headBuf recvbuf : ℕ → UInt8)
  (pkg : Dm101Pkg) (s : σ)

/-- The head that is picked with the bytes of one over the stack. -/
def dm101PickedHead (bytes : List UInt8) : Dm101Head := (oatPickHead (copyOver headBuf 0 bytes)).2

/-- What is given to `read_pkg`. -/
def dm101Given : Dm101Given :=
  match io.getdata s 52 with
  | (none, _) => {}
  | (some head, s) =>
    if 0 < (dm101PickedHead headBuf head).payloadLength then
      match io.getdata s (dm101PickedHead headBuf head).payloadLength with
      | (none, _) => { head := head }
      | (some payload, s) => ⟨some head, some payload, (io.getdata s 4).1⟩
    else { head := head }

/-- `recvbuf` with a payload. -/
def dm101Received (payload : List UInt8) : ℕ → UInt8 := copyOver recvbuf 0 payload

/-- The CRC-32 with the bytes of one over what was there before. -/
def dm101ReadCrc (crc : List UInt8) : UInt32 :=
  UInt32.ofNat (readNetwork (copyOver (fun n => (uint32Bytes pkg.dmCrc32).getD n 0) 0 crc) 0 4)

/-- No call fails, and when there is a payload, the two numbers that are compared are equal. -/
def Dm101Given.Accepted (given : Dm101Given) : Prop :=
  ∃ head, given.head = some head ∧ (0 < (dm101PickedHead headBuf head).payloadLength →
    ∃ payload crc, given.payload = some payload ∧ given.crc = some crc ∧
      ulRTCrc32 0 ((List.range (dm101PickedHead headBuf head).payloadLength.toNat).map
      (dm101Received recvbuf payload)) =
        dm101ReadCrc pkg crc)

/-- Where the null character is put for a payload. -/
def dm101Terminator (head payload : List UInt8) : UInt32 :=
  let length := (dm101PickedHead headBuf head).payloadLength
  if (dm101PickedHead headBuf head).mflag &&& fCrypt ≠ 0 then
    (dmAesDecryptCjy crypto (dm101Received recvbuf payload) 0 length
      (makeAecKeyAt crypto auth (copyOver headBuf 0 head))).2
  else length

end Given

/-- The bytes of a head are all there, with the right CRC-8. -/
def Dm101HeadChecks (head : List UInt8) : Prop := head.length = dm101HeadLen ∧
    (oatPickHead fun n => head.getD n 0).1 = 0

/-- The bytes of a payload and a CRC-32 are all there, and the CRC-32 is right. -/
def Dm101PayloadChecks (length : UInt32) (payload crc : List UInt8) : Prop :=
  payload.length = length.toNat ∧ crc.length = 4 ∧
    ulRTCrc32 0 payload = UInt32.ofNat (readNetwork (fun n => crc.getD n 0) 0 4)

/-- What is given is a packet with the right checksums. -/
def Dm101Given.Checks (given : Dm101Given) : Prop :=
  ∃ head, given.head = some head ∧ Dm101HeadChecks head ∧
    (0 < (oatPickHead fun n => head.getD n 0).2.payloadLength →
      ∃ payload crc, given.payload = some payload ∧
      given.crc = some crc ∧
      Dm101PayloadChecks (oatPickHead fun n => head.getD n 0).2.payloadLength payload crc)

/-- Only packets with the right checksums are accepted, and nothing is written outside `recvbuf`. -/
structure Dm101ReadSafe {σ : Type} (given : Dm101Given) (out : Dm101Read σ) : Prop where
  checks : 0 ≤ out.ret → given.Checks
  inside : ∀ w ∈ out.writes, ∀ place, w.1 ≤ place → place < w.1 + w.2 → place < dm101RecvbufSize

section Read

variable {σ : Type} (crypto : Dm101Crypto) (auth : Vector UInt8 8) {io : Dm101Getdata σ}
  (headBuf recvbuf : ℕ → UInt8)
  (pkg : Dm101Pkg) {s : σ}

/-- When the head cannot be read nothing is written. -/
theorem readPkg_head_none {s₁ : σ} (hhead : io.getdata s 52 = (none, s₁)) :
    dm101Given io headBuf s = {} ∧ (readPkg crypto auth io headBuf recvbuf pkg s).ret = -1 ∧
      (readPkg crypto auth io headBuf recvbuf pkg s).writes = [] := by
  simp only [dm101Given, readPkg, hhead, and_self]

/-- A head alone. -/
theorem readPkg_head {head : List UInt8} {s₁ : σ} (hhead : io.getdata s 52 = (some head, s₁))
    (hzero : ¬ 0 < (dm101PickedHead headBuf head).payloadLength) :
    dm101Given io headBuf s = { head := head } ∧
      (readPkg crypto auth io headBuf recvbuf pkg s).ret = 52 ∧
      (readPkg crypto auth io headBuf recvbuf pkg s).writes = [] := by
  have hzero' : ¬ 0 < (oatPickHead (copyOver headBuf 0 head)).2.payloadLength := hzero
  simp only [dm101Given, readPkg, hhead, if_neg hzero, if_neg hzero', and_self]

/-- When the payload cannot be read nothing is written. -/
theorem readPkg_payload_none {head : List UInt8} {s₁ s₂ : σ} (hhead : io.getdata s 52 = (some head, s₁))
    (hpos : 0 < (dm101PickedHead headBuf head).payloadLength)
    (hpayload : io.getdata s₁ (dm101PickedHead headBuf head).payloadLength = (none, s₂)) :
    dm101Given io headBuf s = { head := head } ∧
      (readPkg crypto auth io headBuf recvbuf pkg s).ret = -1 ∧
      (readPkg crypto auth io headBuf recvbuf pkg s).writes = [] := by
  have hpos' : 0 < (oatPickHead (copyOver headBuf 0 head)).2.payloadLength := hpos
  have hpayload' : io.getdata s₁ (oatPickHead (copyOver headBuf 0 head)).2.payloadLength =
    (none, s₂) := hpayload
  simp only [dm101Given, readPkg, hhead, if_pos hpos, if_pos hpos', hpayload, hpayload', and_self]

/-- When the CRC-32 cannot be read, or is not the one of the payload, the payload has been written. -/
theorem readPkg_refused {head payload : List UInt8} {crc : Option (List UInt8)} {s₁ s₂ s₃ : σ}
    (hhead : io.getdata s 52 = (some head, s₁))
    (hpos : 0 < (dm101PickedHead headBuf head).payloadLength)
    (hpayload : io.getdata s₁ (dm101PickedHead headBuf head).payloadLength = (some payload, s₂))
    (hcrc : io.getdata s₂ 4 = (crc, s₃))
    (hrefused : ∀ bytes ∈ crc, ulRTCrc32 0
      ((List.range (dm101PickedHead headBuf head).payloadLength.toNat).map
      (dm101Received recvbuf payload)) ≠ dm101ReadCrc pkg bytes) :
    dm101Given io headBuf s = ⟨some head, some payload, crc⟩ ∧
      (readPkg crypto auth io headBuf recvbuf pkg s).ret = -1 ∧
      (readPkg crypto auth io headBuf recvbuf pkg s).writes = [(0, payload.length)] := by
  have hpos' : 0 < (oatPickHead (copyOver headBuf 0 head)).2.payloadLength := hpos
  have hpayload' : io.getdata s₁ (oatPickHead (copyOver headBuf 0 head)).2.payloadLength =
    (some payload, s₂) := hpayload
  cases crc with
  | none => simp only [dm101Given, readPkg, hhead, if_pos hpos, if_pos hpos', hpayload, hpayload',
    hcrc, and_self]
  | some bytes =>
    have hne := hrefused bytes rfl
    unfold dm101PickedHead dm101Received dm101ReadCrc at hne
    simp only [dm101Given, readPkg, hhead, if_pos hpos, if_pos hpos', hpayload, hpayload', hcrc,
      if_pos hne, and_self]

/-- A packet with a payload that is accepted. -/
theorem readPkg_accepted {head payload crc : List UInt8} {s₁ s₂ s₃ : σ}
    (hhead : io.getdata s 52 = (some head, s₁))
    (hpos : 0 < (dm101PickedHead headBuf head).payloadLength)
    (hpayload : io.getdata s₁ (dm101PickedHead headBuf head).payloadLength = (some payload, s₂))
    (hcrc : io.getdata s₂ 4 = (some crc, s₃))
    (haccepted : ulRTCrc32 0 ((List.range (dm101PickedHead headBuf head).payloadLength.toNat).map
      (dm101Received recvbuf payload)) =
      dm101ReadCrc pkg crc) :
    dm101Given io headBuf s = ⟨some head, some payload, some crc⟩ ∧
      (readPkg crypto auth io headBuf recvbuf pkg s).ret =
      dm101RecvCnt (dm101PickedHead headBuf head).payloadLength ∧
      (readPkg crypto auth io headBuf recvbuf pkg s).writes = [(0, payload.length)] ++
        (if (dm101PickedHead headBuf head).mflag &&& fCrypt ≠ 0 then
          [((dm101PickedHead headBuf head).payloadLength.toNat % 16,
          (dm101PickedHead headBuf head).payloadLength.toNat / 16 * 16)]
        else []) ++ [((dm101Terminator crypto auth headBuf recvbuf head payload).toNat, 1)] := by
  have hpos' : 0 < (oatPickHead (copyOver headBuf 0 head)).2.payloadLength := hpos
  have hpayload' : io.getdata s₁ (oatPickHead (copyOver headBuf 0 head)).2.payloadLength =
    (some payload, s₂) := hpayload
  have heq := haccepted
  unfold dm101PickedHead dm101Received dm101ReadCrc at heq
  refine ⟨by simp only [dm101Given, hhead, if_pos hpos, hpayload, hcrc], ?_⟩
  simp only [readPkg, hhead, if_pos hpos', hpayload', hcrc, heq, ne_eq, not_true_eq_false, if_false]
  unfold dm101Terminator readPkgAccepted dm101PickedHead dm101Received
  dsimp only
  split
  · exact ⟨rfl, rfl⟩
  · exact ⟨rfl, rfl⟩

end Read

/-- What is picked is the first bytes. -/
theorem oatPickHead_congr {buf buf' : ℕ → UInt8} (h : ∀ i < dm101HeadLen, buf i = buf' i) :
    oatPickHead buf = oatPickHead buf' := by
  have hlen : dm101HeadLen = 52 := rfl
  have hread (pos width : ℕ) (hle : pos + width ≤ 52) : readNetwork buf pos width =
      readNetwork buf' pos width :=
    readNetwork_congr fun i hi => h _ (by omega)
  have hmagic : (Vector.ofFn fun i : Fin 4 => buf i) = Vector.ofFn fun i : Fin 4 => buf' i :=
    congrArg Vector.ofFn (funext fun i => h i (by omega))
  have hsummed : (List.range (dm101HeadLen - 1)).map buf = (List.range (dm101HeadLen - 1)).map buf' :=
    List.map_congr_left fun i hi => h i (Nat.lt_of_lt_of_le (List.mem_range.mp hi) (Nat.sub_le _ _))
  simp only [oatPickHead, hmagic, hsummed, hread 6 2 (by decide), hread 8 2 (by decide),
    hread 12 4 (by decide),
    hread offsizeTimeStamp 8 (by decide), hread 24 8 (by decide), hread 32 8 (by decide),
    hread 40 8 (by decide),
    hread 48 2 (by decide), h 4 (by decide), h 5 (by decide), h 10 (by decide),
    h offsizeMflag (by decide), h 50 (by decide),
    h 51 (by decide)]

/-- A head of which all bytes are there is picked from them alone. -/
theorem dm101PickedHead_eq (headBuf : ℕ → UInt8) {head : List UInt8}
    (hlength : head.length = dm101HeadLen) :
    dm101PickedHead headBuf head = (oatPickHead fun n => head.getD n 0).2 := by
  refine congrArg Prod.snd (oatPickHead_congr fun i hi => ?_)
  have hover := showsAt_copyOver headBuf 0 head i (by omega)
  have halone := showsAt_getD head 0 i (by omega)
  rw [Nat.zero_add] at hover halone
  exact hover.trans halone.symm

/-- The reads are complete, and the CRC-8 is right. -/
def Dm101Given.Whole (given : Dm101Given) : Prop :=
  ∃ head, given.head = some head ∧ Dm101HeadChecks head ∧
    (0 < (oatPickHead fun n => head.getD n 0).2.payloadLength →
      ∃ payload crc, given.payload = some payload ∧
      given.crc = some crc ∧ payload.length =
      (oatPickHead fun n => head.getD n 0).2.payloadLength.toNat ∧ crc.length = 4)

/-- The count for a head is not negative. -/
def Dm101Given.Counts (headBuf : ℕ → UInt8) (given : Dm101Given) : Prop :=
  ∀ head ∈ given.head, 0 < (dm101PickedHead headBuf head).payloadLength →
    0 ≤ dm101RecvCnt (dm101PickedHead headBuf head).payloadLength

/-- The payload that is given fits `recvbuf`, and if it is accepted, so do what is decrypted and the
null character. -/
structure Dm101Room (crypto : Dm101Crypto) (auth : Vector UInt8 8) (headBuf recvbuf : ℕ → UInt8)
    (pkg : Dm101Pkg)
    (given : Dm101Given) : Prop where
  payload : ∀ payload ∈ given.payload, payload.length ≤ dm101RecvbufSize
  decrypted : given.Accepted headBuf recvbuf pkg → ∀ head ∈ given.head, ∀ payload ∈ given.payload,
    (dm101PickedHead headBuf head).mflag &&& fCrypt ≠ 0 →
    (dm101PickedHead headBuf head).payloadLength.toNat ≤ dm101RecvbufSize
  terminator : given.Accepted headBuf recvbuf pkg → ∀ head ∈ given.head, ∀ payload ∈ given.payload,
    (dm101Terminator crypto auth headBuf recvbuf head payload).toNat < dm101RecvbufSize

/-- When the reads are complete, what is accepted has the right checksums. -/
theorem Dm101Given.Whole.checks {given : Dm101Given} (hwhole : given.Whole)
    {headBuf recvbuf : ℕ → UInt8} {pkg : Dm101Pkg}
    (haccepted : given.Accepted headBuf recvbuf pkg) : given.Checks := by
  obtain ⟨head, hhead, hchecks, hrest⟩ := hwhole
  obtain ⟨head', hhead', hsums⟩ := haccepted
  obtain rfl := Option.some.inj (hhead.symm.trans hhead')
  rw [dm101PickedHead_eq headBuf hchecks.1] at hsums
  refine ⟨head, hhead, hchecks, fun hpos => ?_⟩
  obtain ⟨payload, crc, hpayload, hcrc, hlength, hfour⟩ := hrest hpos
  obtain ⟨payload', crc', hpayload', hcrc', hsum⟩ := hsums hpos
  obtain rfl := Option.some.inj (hpayload.symm.trans hpayload')
  obtain rfl := Option.some.inj (hcrc.symm.trans hcrc')
  refine ⟨payload, crc, hpayload, hcrc, hlength, hfour, ?_⟩
  have hread := (showsAt_copyOver recvbuf 0 payload).map_range
  simp only [Nat.zero_add] at hread
  have hbytes : readNetwork (copyOver (fun n => (uint32Bytes pkg.dmCrc32).getD n 0) 0 crc) 0 4 =
      readNetwork (fun n => crc.getD n 0) 0 4 := by
    refine readNetwork_congr fun i hi => ?_
    exact (showsAt_copyOver _ 0 crc i (by omega)).trans (showsAt_getD crc 0 i (by omega)).symm
  rw [← hlength, dm101Received, hread, dm101ReadCrc, hbytes] at hsum
  exact hsum

/-- What is written for a payload that is accepted is inside if and only if there is room for it. -/
theorem accepted_inside_iff (payload length terminator : ℕ) (crypts : Prop) [Decidable crypts] :
    (∀ w ∈ [(0, payload)] ++ (if crypts then [(length % 16, length / 16 * 16)] else []) ++
      [(terminator, 1)],
      ∀ place, w.1 ≤ place → place < w.1 + w.2 → place < dm101RecvbufSize) ↔
      payload ≤ dm101RecvbufSize ∧ (crypts → length ≤ dm101RecvbufSize) ∧
      terminator < dm101RecvbufSize := by
  have hsize : dm101RecvbufSize = 4148 := rfl
  simp only [List.forall_mem_append, List.forall_mem_singleton]
  constructor
  · rintro ⟨⟨hpayload, hdecrypted⟩, hterminator⟩
    refine ⟨?_, fun hcrypts => ?_, hterminator terminator (Nat.le_refl _) (Nat.lt_succ_self _)⟩
    · by_contra hmore
      exact absurd (hpayload dm101RecvbufSize (Nat.zero_le _) (by omega)) (Nat.lt_irrefl _)
    · rw [if_pos hcrypts, List.forall_mem_singleton] at hdecrypted
      by_contra hmore
      have hlast := hdecrypted (length - 1)
      dsimp only at hlast
      omega
  · rintro ⟨hpayload, hdecrypted, hterminator⟩
    refine ⟨⟨fun place _ hlt => by omega, ?_⟩, fun place hge hlt => by omega⟩
    split
    · next hcrypts =>
      rw [List.forall_mem_singleton]
      intro place _ hlt
      have hle := hdecrypted hcrypts
      dsimp only at hlt
      omega
    · exact fun w hw => absurd hw List.not_mem_nil

/-- When nothing is accepted, there has to be room for what is given as a payload. -/
theorem readSafe_iff_of_refused {σ : Type} {crypto : Dm101Crypto} {auth : Vector UInt8 8}
    {headBuf recvbuf : ℕ → UInt8}
    {pkg : Dm101Pkg} {given : Dm101Given} {out : Dm101Read σ}
    (hrefused : ¬ given.Accepted headBuf recvbuf pkg)
    (hret : out.ret = -1)
    (hwrites : out.writes = given.payload.toList.map fun payload => (0, payload.length)) :
    Dm101ReadSafe given out ↔
      (given.Accepted headBuf recvbuf pkg → given.Counts headBuf → given.Whole) ∧
      Dm101Room crypto auth headBuf recvbuf pkg given := by
  constructor
  · intro h
    refine ⟨fun haccepted => absurd haccepted hrefused, fun payload hpayload => ?_,
      fun haccepted => absurd haccepted hrefused,
      fun haccepted => absurd haccepted hrefused⟩
    by_contra hmore
    have hinside :=
      h.inside (0, payload.length) (by rw [hwrites, hpayload]; exact List.mem_singleton_self _)
      dm101RecvbufSize
      (Nat.zero_le _) (by dsimp only; omega)
    exact absurd hinside (Nat.lt_irrefl _)
  · rintro ⟨-, hroom⟩
    refine ⟨fun h => ?_, fun w hw place _ hlt => ?_⟩
    · rw [hret] at h
      exact absurd h (by decide)
    · rw [hwrites] at hw
      obtain ⟨payload, hpayload, rfl⟩ := List.mem_map.mp hw
      have hle := hroom.payload payload (Option.mem_toList.mp hpayload)
      dsimp only at hlt
      omega

/-- `read_pkg` accepts only packets with the right checksums and writes only to `recvbuf`, if and
only if for what it accepts the reads are complete and the CRC-8 is right, and there is room for
what it writes. -/
theorem dm101_read_safe_iff {σ : Type} (crypto : Dm101Crypto) (auth : Vector UInt8 8)
    (io : Dm101Getdata σ)
    (headBuf recvbuf : ℕ → UInt8) (pkg : Dm101Pkg) (s : σ) :
    Dm101ReadSafe (dm101Given io headBuf s) (readPkg crypto auth io headBuf recvbuf pkg s) ↔
      ((dm101Given io headBuf s).Accepted headBuf recvbuf pkg →
      (dm101Given io headBuf s).Counts headBuf →
        (dm101Given io headBuf s).Whole) ∧
      Dm101Room crypto auth headBuf recvbuf pkg (dm101Given io headBuf s) := by
  rcases hhead : io.getdata s 52 with ⟨_ | head, s₁⟩
  · obtain ⟨hgiven, hret, hwrites⟩ := readPkg_head_none crypto auth headBuf recvbuf pkg hhead
    rw [hgiven]
    exact readSafe_iff_of_refused (fun ⟨head, hnone, _⟩ => by cases hnone) hret hwrites
  by_cases hpos : 0 < (dm101PickedHead headBuf head).payloadLength
  · rcases hpayload : io.getdata s₁ (dm101PickedHead headBuf head).payloadLength with ⟨_ | payload, s₂⟩
    · obtain ⟨hgiven, hret, hwrites⟩ :=
        readPkg_payload_none crypto auth headBuf recvbuf pkg hhead hpos hpayload
      rw [hgiven]
      refine readSafe_iff_of_refused ?_ hret hwrites
      rintro ⟨head', hsome, hsums⟩
      obtain rfl := Option.some.inj hsome
      obtain ⟨payload, crc, hnone, -⟩ := hsums hpos
      cases hnone
    rcases hcrc : io.getdata s₂ 4 with ⟨crc, s₃⟩
    by_cases hsum : ∃ bytes ∈ crc,
      ulRTCrc32 0 ((List.range (dm101PickedHead headBuf head).payloadLength.toNat).map
        (dm101Received recvbuf payload)) = dm101ReadCrc pkg bytes
    · obtain ⟨bytes, rfl, hsum⟩ := hsum
      obtain ⟨hgiven, hret, hwrites⟩ :=
        readPkg_accepted crypto auth headBuf recvbuf pkg hhead hpos hpayload hcrc hsum
      rw [hgiven]
      have haccepted : Dm101Given.Accepted headBuf recvbuf pkg ⟨some head, some payload, some bytes⟩ :=
        ⟨head, rfl, fun _ => ⟨payload, bytes, rfl, rfl, hsum⟩⟩
      have hcounts : Dm101Given.Counts headBuf ⟨some head, some payload, some bytes⟩ ↔
          0 ≤ (readPkg crypto auth io headBuf recvbuf pkg s).ret := by
        rw [hret]
        refine ⟨fun h => h head rfl hpos, fun h head' hsome _ => ?_⟩
        obtain rfl := Option.some.inj hsome
        exact h
      have hinside :=
        accepted_inside_iff payload.length (dm101PickedHead headBuf head).payloadLength.toNat
        (dm101Terminator crypto auth headBuf recvbuf head payload).toNat
          ((dm101PickedHead headBuf head).mflag &&& fCrypt ≠ 0)
      rw [← hwrites] at hinside
      constructor
      · intro h
        obtain ⟨hfits, hdecrypted, hterminator⟩ := hinside.mp h.inside
        refine ⟨fun _ hcount => ?_, fun payload' hsome => ?_, fun _ head' hsome payload' _ => ?_,
          fun _ head' hsome payload' hsome' => ?_⟩
        · obtain ⟨head', hsome, hchecks, hrest⟩ := h.checks (hcounts.mp hcount)
          refine ⟨head', hsome, hchecks, fun hpos' => ?_⟩
          obtain ⟨payload', crc', hpayload', hcrc', hlength, hfour, -⟩ := hrest hpos'
          exact ⟨payload', crc', hpayload', hcrc', hlength, hfour⟩
        · obtain rfl := Option.some.inj hsome
          exact hfits
        · obtain rfl := Option.some.inj hsome
          exact hdecrypted
        · obtain rfl := Option.some.inj hsome
          obtain rfl := Option.some.inj hsome'
          exact hterminator
      · rintro ⟨hwhole, hroom⟩
        refine ⟨fun h => (hwhole haccepted (hcounts.mpr h)).checks haccepted,
          hinside.mpr ⟨hroom.payload payload rfl, ?_, ?_⟩⟩
        · exact hroom.decrypted haccepted head rfl payload rfl
        · exact hroom.terminator haccepted head rfl payload rfl
    · obtain ⟨hgiven, hret, hwrites⟩ :=
        readPkg_refused crypto auth headBuf recvbuf pkg hhead hpos hpayload hcrc
        fun bytes hbytes hsum' => hsum ⟨bytes, hbytes, hsum'⟩
      rw [hgiven]
      refine readSafe_iff_of_refused ?_ hret hwrites
      rintro ⟨head', hsome, hsums⟩
      obtain rfl := Option.some.inj hsome
      obtain ⟨payload', bytes, hsome', hbytes, hsum'⟩ := hsums hpos
      obtain rfl := Option.some.inj hsome'
      exact hsum ⟨bytes, hbytes, hsum'⟩
  · obtain ⟨hgiven, hret, hwrites⟩ := readPkg_head crypto auth headBuf recvbuf pkg hhead hpos
    rw [hgiven]
    have haccepted : Dm101Given.Accepted headBuf recvbuf pkg { head := head } :=
      ⟨head, rfl, fun h => absurd h hpos⟩
    constructor
    · intro h
      refine ⟨fun _ _ => ?_, fun _ hnone => ?_, fun _ _ _ _ hnone => ?_, fun _ _ _ _ hnone => ?_⟩
      · obtain ⟨head', hsome, hchecks, hrest⟩ := h.checks (by rw [hret]; decide)
        refine ⟨head', hsome, hchecks, fun hpos' => ?_⟩
        obtain ⟨payload, crc, hnone, -⟩ := hrest hpos'
        cases hnone
      all_goals cases hnone
    · rintro ⟨hwhole, -⟩
      refine ⟨fun _ => (hwhole haccepted fun head' hsome hpos' => ?_).checks haccepted, fun w hw => ?_⟩
      · obtain rfl := Option.some.inj hsome
        exact absurd hpos' hpos
      · rw [hwrites] at hw
        exact absurd hw List.not_mem_nil

/-- A head of zeroes with a CRC-8 of one is accepted. -/
theorem dm101_read_not_safe :
    ¬ ∀ (crypto : Dm101Crypto) (auth : Vector UInt8 8) (headBuf recvbuf : ℕ → UInt8)
      (pkg : Dm101Pkg) (bytes : List UInt8),
      Dm101ReadSafe (dm101Given dm101Stream headBuf bytes)
      (readPkg crypto auth dm101Stream headBuf recvbuf pkg bytes) := by
  intro hall
  have hsafe := hall abcCrypto abcAuth (fun _ => 0) (fun _ => 0) (abcPkg 0) (List.replicate 51 0 ++ [1])
  obtain ⟨head, hhead, ⟨-, hcrc⟩, -⟩ := hsafe.checks (by decide +kernel)
  have hgiven : (dm101Given dm101Stream (fun _ => 0) (List.replicate 51 0 ++ [1])).head =
      some (List.replicate 51 0 ++ [1]) := by
    decide +kernel
  obtain rfl := Option.some.inj (hgiven.symm.trans hhead)
  revert hcrc
  decide +kernel

end DasEdge.Sdccp
