import DasEdge.Test.ServerCom

/-!
# Which bytes a package may touch

A head announces any length. One that is longer than the buffer is refused, but one that is shorter
than the head itself makes the rest to be received wrap around, so that the stream is written behind
the end of the buffer when it goes on long enough. From the length of a head on every access is
inside, and what is accepted ends with the checksum of all that was received before it.
-/

namespace DasEdge.Test

open DasEdge.Library

/-- The bytes end with the checksum of those before it. -/
def CrcCovers (received : List UInt8) : Prop :=
  ∃ covered, received = covered ++ networkBytes 4 (ulMDCrc32 0 covered).toNat

/-- The bytes that a package of this head consists of. -/
def receivedBytes (head : SPackageHead) (arriving : List UInt8) : List UInt8 :=
  head.bytes ++ arriving.take (head.length - 8)

/-- The package is processed inside of the buffer, and it is accepted only when its checksum covers
what was received. -/
def PackageSafe (mem : ComServerBuf) (head : SPackageHead) (arriving : List UInt8) : Prop :=
  ∃ done, processPackage mem head arriving = some done ∧
    (done.msg ≠ none → CrcCovers (receivedBytes head arriving))

/-- The next byte of a place inside of the buffer. -/
theorem toNat_add_one {index : UInt32} (h : index.toNat < 1024) :
    (index + 1).toNat = index.toNat + 1 := by
  rw [UInt32.toNat_add, show (1 : UInt32).toNat = 1 from rfl]
  omega

/-- What arrives is written one behind the other as long as it stays inside of the buffer. -/
theorem recvBlock_inside (mem : ComServerBuf) (index : UInt32) (len : ℕ) (arriving : List UInt8)
    (h : index.toNat + min len arriving.length ≤ 1024) :
    recvBlock mem index len arriving =
      some (if len ≤ arriving.length then sdccpOk else sdccpTimeout,
        copyOver mem index.toNat (arriving.take len), arriving.drop len) := by
  induction arriving generalizing mem index len with
  | nil => cases len <;> simp [recvBlock]
  | cons b arriving ih =>
    cases len with
    | zero => simp [recvBlock]
    | succ len =>
      rw [List.length_cons, Nat.add_min_add_right] at h
      have hindex : index.toNat < 1024 := by omega
      have hnext := toNat_add_one hindex
      rw [recvBlock, writeAt, if_pos (show index.toNat < serverBufSizeCom from hindex)]
      simp only [Option.bind_eq_bind, Option.bind_some]
      rw [ih _ _ _ (by rw [hnext]; omega), hnext, copyOver_update, List.take_succ_cons,
        List.drop_succ_cons]
      simp only [List.length_cons, Nat.add_le_add_iff_right]

/-- Else the first byte behind the end of the buffer is written. -/
theorem recvBlock_outside (mem : ComServerBuf) (index : UInt32) (len : ℕ) (arriving : List UInt8)
    (hindex : index.toNat ≤ 1024) (h : 1024 < index.toNat + min len arriving.length) :
    recvBlock mem index len arriving = none := by
  induction arriving generalizing mem index len with
  | nil =>
    rw [List.length_nil, Nat.min_zero] at h
    omega
  | cons b arriving ih =>
    cases len with
    | zero =>
      rw [Nat.zero_min] at h
      omega
    | succ len =>
      rw [List.length_cons, Nat.add_min_add_right] at h
      rw [recvBlock, writeAt]
      split
      · rename_i hlt
        have hlt : index.toNat < 1024 := hlt
        have hnext := toNat_add_one hlt
        exact ih _ _ _ (by omega) (by omega)
      · rfl

/-- A byte inside of the buffer is read. -/
theorem readAt_inside (mem : ComServerBuf) {index : UInt32} (h : index.toNat < 1024) :
    readAt mem index = some (mem index.toNat) := if_pos h

/-- A number inside of the buffer is read in network order. -/
theorem bbGetIntAt_inside (mem : ComServerBuf) (index : UInt32) (h : index.toNat + 4 ≤ 1024) :
    ∃ n, bbGetIntAt mem index = some n ∧ n.toNat = readNetwork mem index.toNat 4 := by
  have hplace : ∀ k : UInt32, k.toNat ≤ 3 → (index + k).toNat = index.toNat + k.toNat := by
    intro k hk
    rw [UInt32.toNat_add]
    omega
  have hread : ∀ k : UInt32, k.toNat ≤ 3 →
      readAt mem (index + k) = some (mem (index.toNat + k.toNat)) := by
    intro k hk
    rw [readAt_inside mem (by rw [hplace k hk]; omega), hplace k hk]
  refine ⟨(mem index.toNat).toUInt32 <<< 24 ||| (mem (index.toNat + 1)).toUInt32 <<< 16 |||
    (mem (index.toNat + 2)).toUInt32 <<< 8 ||| (mem (index.toNat + 3)).toUInt32, ?_, ?_⟩
  · rw [bbGetIntAt, readAt_inside mem (by omega), hread 1 (by decide), hread 2 (by decide),
      hread 3 (by decide)]
    rfl
  · rw [uint32_ofNetwork_toNat]
    simp only [readNetwork, Nat.pow_zero, Nat.mul_one, Nat.pow_one, Nat.add_zero, Nat.add_assoc]

/-- The number of bytes that a head leaves to be received wraps around when it announces less than a
head. -/
theorem remain_toNat {length : ℕ} (h : length ≤ 1024) :
    (bbRemain (bbSkip (bbNewFromBuf (UInt32.ofNat length)) 8)).toNat =
      if 8 ≤ length then length - 8 else 2 ^ 32 - 8 + length := by
  have hlength : (UInt32.ofNat length).toNat = length :=
    UInt32.toNat_ofNat_of_lt' (show length < 2 ^ 32 by omega)
  have hpos : ((0 : UInt32) + 8).toNat = 8 := rfl
  simp only [bbRemain, bbSkip, bbNewFromBuf]
  rw [UInt32.toNat_sub, hlength, hpos]
  split <;> omega

/-- The head is put at the start of the buffer. -/
theorem putHead (mem : ComServerBuf) (head : SPackageHead) (len : UInt32) :
    bbPutBytes mem (bbNewFromBuf len) head.bytes =
      some (copyOver mem 0 head.bytes, bbSkip (bbNewFromBuf len) 8) := by
  have hfits : head.bytes = [] ∨ (bbNewFromBuf len).pos.toNat + head.bytes.length ≤ serverBufSizeCom :=
    Or.inr (show 0 + 8 ≤ 1024 by decide)
  rw [bbPutBytes, copyAt, if_pos hfits]
  rfl

/-- Behind the head the rest of the package is received. -/
theorem processPackage_receive (mem : ComServerBuf) {head : SPackageHead} (arriving : List UInt8)
    (h : head.length ≤ 1024) :
    processPackage mem head arriving =
      (recvBlock (copyOver mem 0 head.bytes) 8 (if 8 ≤ head.length then head.length - 8
      else 2 ^ 32 - 8 + head.length)
        arriving).bind fun received =>
          if received.1 ≠ sdccpOk then some ⟨received.1, received.2.1, received.2.2, none⟩
          else checkPackage received.2.1 (bbSkip (bbNewFromBuf (UInt32.ofNat head.length)) 8)
            received.2.2 := by
  have hpos : bbGetPos (bbSkip (bbNewFromBuf (UInt32.ofNat head.length)) 8) = 8 := rfl
  have hlimit : ¬ head.length > serverBufSizeCom := Nat.not_lt.mpr h
  rw [processPackage, if_neg hlimit, putHead]
  simp only [Option.bind_eq_bind, Option.bind_some, remain_toNat h, hpos]
  rfl

/-- A head that announces less than itself leads out of the buffer when the stream goes on behind
its end, and else the rest never comes. -/
theorem processPackage_short (mem : ComServerBuf) {head : SPackageHead} {arriving : List UInt8}
    (h : head.length < 8) :
    processPackage mem head arriving =
      if arriving.length ≤ 1016 then some ⟨sdccpTimeout, copyOver mem 0 (head.bytes ++ arriving),
      [], none⟩ else none := by
  have hpos : (8 : UInt32).toNat = 8 := rfl
  rw [processPackage_receive mem arriving (by omega), if_neg (by omega)]
  split
  · rename_i hle
    rw [recvBlock_inside _ _ _ _ (by rw [hpos]; omega), if_neg (by omega), hpos,
      List.take_of_length_le (by omega),
      List.drop_eq_nil_of_le (by omega)]
    rw [show copyOver (copyOver mem 0 head.bytes) 8 arriving =
      copyOver mem 0 (head.bytes ++ arriving) from
      copyOver_append mem 0 head.bytes arriving]
    rfl
  · rename_i hgt
    rw [recvBlock_outside _ _ _ _ (by rw [hpos]; omega) (by rw [hpos]; omega)]
    rfl

/-- The bytes of a memory that begins with others. -/
theorem readRun_inside {mem : ComServerBuf} {received : List UInt8}
    (hshows : ShowsAt mem 0 received) (len : UInt32)
    (hlen : len.toNat ≤ received.length) (hmax : received.length ≤ 1024) :
    readRun mem len = some (received.take len.toNat) := by
  have hlimit : len.toNat ≤ serverBufSizeCom := hlen.trans hmax
  have htake : ShowsAt mem 0 (received.take len.toNat) := by
    rw [hshows.prefix_iff (List.length_take_le' _ _)]
    exact List.take_prefix _ _
  have hread := htake.map_range
  rw [List.length_take, Nat.min_eq_left hlen] at hread
  simp only [Nat.zero_add] at hread
  rw [readRun, if_pos hlimit]
  exact congrArg some hread

/-- The number in the last four bytes is the checksum of the others exactly when it covers them. -/
theorem crcCovers_iff {mem : ComServerBuf} {received : List UInt8} (hshows : ShowsAt mem 0 received)
    (hmin : 4 ≤ received.length) :
    CrcCovers received ↔
      (ulMDCrc32 0 (received.take (received.length - 4))).toNat =
      readNetwork mem (received.length - 4) 4 := by
  have htail := hshows.drop (n := received.length - 4) (Nat.sub_le _ _)
  rw [Nat.zero_add] at htail
  constructor
  · rintro ⟨covered, hreceived⟩
    have hlength : received.length - 4 = covered.length := by
      rw [hreceived, List.length_append, networkBytes_length, Nat.add_sub_cancel]
    rw [hlength] at htail ⊢
    rw [hreceived, List.drop_left] at htail
    rw [readNetwork_of_lt htail (UInt32.toNat_lt _), hreceived, List.take_left]
  · intro hcrc
    refine ⟨received.take (received.length - 4), ?_⟩
    have hread := showsAt_readNetwork mem (received.length - 4) 4
    have hlast : (received.drop (received.length - 4)).length = 4 := by
      rw [List.length_drop]
      omega
    rw [htail.prefix_iff (by rw [networkBytes_length, hlast])] at hread
    rw [hcrc, hread.eq_of_length (by rw [networkBytes_length, hlast]), List.take_append_drop]

/-- The check of a package in the buffer reads inside of it, and it accepts exactly the packages
whose checksum covers their bytes. -/
theorem checkPackage_inside {mem : ComServerBuf} {received : List UInt8}
    (hshows : ShowsAt mem 0 received)
    (hmin : 4 ≤ received.length) (hmax : received.length ≤ 1024) (rest : List UInt8) :
    (CrcCovers received →
      checkPackage mem (bbSkip (bbNewFromBuf (UInt32.ofNat received.length)) 8) rest =
      some ⟨sdccpOk, mem, rest, some ⟨mem 8, (mem 9).toUInt16 <<< 8 ||| (mem 10).toUInt16, 11⟩⟩) ∧
    (¬ CrcCovers received →
    checkPackage mem (bbSkip (bbNewFromBuf (UInt32.ofNat received.length)) 8) rest =
      some ⟨sdccpErr, mem, rest, none⟩) := by
  have hlimit : (UInt32.ofNat received.length - 4).toNat = received.length - 4 := by
    have hlength : (UInt32.ofNat received.length).toNat = received.length :=
      UInt32.toNat_ofNat_of_lt' (show received.length < 2 ^ 32 by omega)
    rw [UInt32.toNat_sub, hlength, show (4 : UInt32).toNat = 4 from rfl]
    omega
  obtain ⟨crc, hcrc, hcrcNat⟩ := bbGetIntAt_inside mem (UInt32.ofNat received.length - 4) (by omega)
  have hrun := readRun_inside hshows (UInt32.ofNat received.length - 4) (by omega) hmax
  rw [hlimit] at hcrcNat hrun
  rw [crcCovers_iff hshows hmin, ← hcrcNat, UInt32.toNat_inj]
  have hget : ∀ (pos : UInt32) (len : UInt32), pos.toNat < 1024 →
      bbGet mem ⟨pos, len⟩ = some (mem pos.toNat, ⟨pos + 1, len⟩) := by
    intro pos len hpos
    rw [bbGet, readAt_inside mem hpos]
    rfl
  have hskip : ∀ len : UInt32, bbSkip (bbNewFromBuf len) 8 = ⟨8, len⟩ := fun _ => rfl
  have hcheck : checkPackage mem (bbSkip (bbNewFromBuf (UInt32.ofNat received.length)) 8) rest =
      if ulMDCrc32 0 (received.take (received.length - 4)) ≠ crc then some ⟨sdccpErr, mem, rest, none⟩
      else some ⟨sdccpOk, mem, rest,
        some ⟨mem 8, (mem 9).toUInt16 <<< 8 ||| (mem 10).toUInt16, 11⟩⟩ := by
    simp only [hskip, checkPackage, bbLimit, hcrc, hrun, bbGetShort, hget 8 _ (by decide),
      hget (8 + 1) _ (by decide),
      hget (8 + 1 + 1) _ (by decide), Option.bind_eq_bind, Option.bind_some]
    rfl
  rw [hcheck]
  exact ⟨fun h => if_neg (not_not_intro h), fun h => if_pos h⟩

/-- A package that is at least as long as a head and fits into the buffer is received as far as it
arrives, and it is accepted exactly when it arrives whole and its checksum covers its bytes. -/
theorem processPackage_whole (mem : ComServerBuf) {head : SPackageHead} (arriving : List UInt8)
    (hmin : 8 ≤ head.length)
    (hmax : head.length ≤ 1024) :
    let done := copyOver mem 0 (receivedBytes head arriving)
    (arriving.length < head.length - 8 →
      processPackage mem head arriving = some ⟨sdccpTimeout, done, [], none⟩) ∧
    (head.length - 8 ≤ arriving.length → CrcCovers (receivedBytes head arriving) →
      processPackage mem head arriving = some ⟨sdccpOk, done, arriving.drop (head.length - 8),
        some ⟨done 8, (done 9).toUInt16 <<< 8 ||| (done 10).toUInt16, 11⟩⟩) ∧
    (head.length - 8 ≤ arriving.length → ¬ CrcCovers (receivedBytes head arriving) →
      processPackage mem head arriving = some ⟨sdccpErr, done, arriving.drop (head.length - 8),
      none⟩) := by
  intro done
  have hpos : (8 : UInt32).toNat = 8 := rfl
  have hdone : copyOver (copyOver mem 0 head.bytes) 8 (arriving.take (head.length - 8)) = done :=
    copyOver_append mem 0 head.bytes _
  rw [processPackage_receive mem arriving hmax, if_pos hmin,
    recvBlock_inside _ _ _ _ (by rw [hpos]; omega), hpos, hdone,
    Option.bind_some]
  simp only
  refine ⟨fun hshort => ?_, ?_⟩
  · rw [if_neg (show ¬ head.length - 8 ≤ arriving.length by omega), List.drop_eq_nil_of_le (by omega)]
    rfl
  · have hlength : head.length - 8 ≤ arriving.length →
        (receivedBytes head arriving).length = head.length := by
      intro hall
      rw [receivedBytes, List.length_append, List.length_take, Nat.min_eq_left hall,
        show head.bytes.length = 8 from rfl]
      omega
    have hshows : ShowsAt done 0 (receivedBytes head arriving) := showsAt_copyOver _ _ _
    constructor
    · intro hall hcovers
      have hcheck :=
        (checkPackage_inside hshows (by rw [hlength hall]; omega) (by rw [hlength hall]; exact hmax)
        (arriving.drop (head.length - 8))).1 hcovers
      rw [hlength hall] at hcheck
      rw [if_pos hall]
      exact hcheck
    · intro hall hcovers
      have hcheck :=
        (checkPackage_inside hshows (by rw [hlength hall]; omega) (by rw [hlength hall]; exact hmax)
        (arriving.drop (head.length - 8))).2 hcovers
      rw [hlength hall] at hcheck
      rw [if_pos hall]
      exact hcheck

/-- Every package of which the length is refused, or at least that of a head, or whose stream ends
before the end of the buffer, is processed inside of the buffer, and no other one is. -/
theorem packageSafe_iff (mem : ComServerBuf) (head : SPackageHead) (arriving : List UInt8) :
    PackageSafe mem head arriving ↔ 1024 < head.length ∨ 8 ≤ head.length ∨ arriving.length ≤ 1016 := by
  rcases Nat.lt_or_ge 1024 head.length with hlong | hmax
  · have hlimit : head.length > serverBufSizeCom := hlong
    refine iff_of_true ⟨_, by rw [processPackage, if_pos hlimit]; rfl, fun hmsg => absurd rfl hmsg⟩
      (Or.inl hlong)
  rcases Nat.lt_or_ge head.length 8 with hshort | hmin
  · rw [or_iff_right (by omega), or_iff_right (by omega), PackageSafe, processPackage_short mem hshort]
    constructor
    · rintro ⟨done, hdone, -⟩
      by_contra hgt
      rw [if_neg hgt] at hdone
      cases hdone
    · intro hle
      exact ⟨_, if_pos hle, fun hmsg => absurd rfl hmsg⟩
  · obtain ⟨htimeout, haccepted, hrefused⟩ := processPackage_whole mem arriving hmin hmax
    refine iff_of_true ?_ (Or.inr (Or.inl hmin))
    rcases Nat.lt_or_ge arriving.length (head.length - 8) with hpart | hall
    · exact ⟨_, htimeout hpart, fun hmsg => absurd rfl hmsg⟩
    · by_cases hcovers : CrcCovers (receivedBytes head arriving)
      · exact ⟨_, haccepted hall hcovers, fun _ => hcovers⟩
      · exact ⟨_, hrefused hall hcovers, fun hmsg => absurd rfl hmsg⟩

/-- A request of seven bytes. -/
def shortHead : SPackageHead := creatHeader 7 2 0

/-- Behind a valid head that announces seven bytes the stream is written over the end of the buffer. -/
theorem not_packageSafe_shortHead :
    ¬ ∀ mem (head : SPackageHead) arriving, head.crcOk = true → PackageSafe mem head arriving := by
  intro h
  obtain ⟨done, hdone, -⟩ := h (fun _ => 0) shortHead (List.replicate 1017 0) (by decide)
  rw [processPackage_short _ (by decide), if_neg (by rw [List.length_replicate]; decide)] at hdone
  cases hdone

end DasEdge.Test
