import DasEdge.Board.Update
import Mathlib.Algebra.Order.Ring.Nat

/-!
# What an update package does

The records of a package are its format: a head, and as many bytes of content as it states.
`__update_check` and `__update_do` walk over them one after the other. A record of 2 GB or more
counts as one without bytes when it is read, and a loop that is left early is not told from one that
has come to the end. `__file_crc` does not tell a file that is missing from an empty one.
-/

namespace DasEdge.Board

open DasEdge.Library

/-- A record of a package. -/
structure UpdateRecord where
  img : SImgPack
  content : List UInt8
  deriving DecidableEq

/-- The records in bytes, when some of the bytes behind each head are taken. -/
def updateRecords (taken : SImgPack → ℕ) : ℕ → List UInt8 → List UpdateRecord
  | 0, _ => []
  | rounds + 1, left =>
    if sImgPackSize ≤ left.length then
      let img := sImgPackOf (left.take sImgPackSize)
      let left := left.drop sImgPackSize
      ⟨img, left.take (taken img)⟩ :: updateRecords taken rounds (left.drop (taken img))
    else []

/-- The records of a package. -/
def packageRecords (bytes : List UInt8) : List UpdateRecord :=
  updateRecords (fun img => img.ulLength.toNat) bytes.length (bytes.drop 12)

/-- The bytes of a record that are read by `__update_check`, or moved over. -/
def SImgPack.checked (img : SImgPack) : ℕ := if img.IsFirmware then img.ulLength.toNat else img.remain

/-- The records as `__update_check` takes them. -/
def checkedRecords (bytes : List UInt8) : List UpdateRecord :=
  updateRecords SImgPack.checked bytes.length (bytes.drop 12)

/-- All bytes of a record are there, and they have its CRC-32. -/
def UpdateRecord.Matches (r : UpdateRecord) : Prop :=
  r.content.length = r.img.ulLength.toNat ∧ ulRTCrc32 0 r.content = r.img.ulCRC32

/-- The magic numbers are right, and every record that is not for the firmware has its CRC-32. -/
def UpdateVerified (bytes : List UInt8) : Prop :=
  ImgMagics (bytes.take 12) ∧ ∀ r ∈ packageRecords bytes, ¬ r.img.IsFirmware → r.Matches

/-- Every record that is not for the firmware lies in its file. -/
def UpdateApplied (records : List UpdateRecord) (files : BoardFiles) : Prop :=
  ∀ r ∈ records, ¬ r.img.IsFirmware → files r.img.szPath = some r.content

instance decidableUpdateVerified (bytes : List UInt8) : Decidable (UpdateVerified bytes) := by
  unfold UpdateVerified UpdateRecord.Matches; infer_instance

instance decidableUpdateApplied (records : List UpdateRecord) (files : BoardFiles) :
    Decidable (UpdateApplied records files) :=
  inferInstanceAs (Decidable (∀ r ∈ records, _ → _))

/-- A package that passes the check is right, it has been applied when it is removed, and its files
are there when `__update_do` returns true. -/
structure UpdateSafe (memory : ℕ → Bool) (turns : ℕ → UpdateTurn) (files : BoardFiles)
    (path bytes : List UInt8) : Prop where
  verified : (updateCheck memory files path).1 = true → UpdateVerified bytes
  kept : (updateCheck memory files path).1 = true →
    UpdateApplied (packageRecords bytes)
    (updateDo turns (updateCheck memory files path).2 path).removing
  applied : (updateCheck memory files path).1 = true →
    (updateDo turns (updateCheck memory files path).2 path).bRet = true →
    UpdateApplied (packageRecords bytes)
    ((updateDo turns (updateCheck memory files path).2 path).files path)

/-- A record is met, before memory runs out, whose bytes do not have its CRC-32. -/
def UpdateMismatch (memory : ℕ → Bool) : ℕ → List UpdateRecord → Prop
  | _, [] => False
  | turn, r :: rest =>
    if r.img.IsFirmware then UpdateMismatch memory (turn + 1) rest
    else memory turn = true ∧
      (ulRTCrc32 0 r.content ≠ r.img.ulCRC32 ∨ UpdateMismatch memory (turn + 1) rest)

/-- The package is too short, or it has the magic numbers and a record is met that does not have its
CRC-32. -/
def UpdateRefused (memory : ℕ → Bool) (bytes : List UInt8) : Prop :=
  bytes.length ≤ 12 + sImgPackSize ∨ ImgMagics (bytes.take 12) ∧
    UpdateMismatch memory 0 (checkedRecords bytes)

/-- What the system takes of a content that is written in blocks. -/
def takenBlocks (writes : ℕ → ℕ) : ℕ → ℕ → List UInt8 → List UInt8
  | 0, _, _ => []
  | rounds + 1, n, content =>
    (content.take 512).take (writes n) ++ takenBlocks writes rounds (n + 1) (content.drop 512)

/-- What the system takes of the content of a record. -/
def UpdateTurn.taken (turn : UpdateTurn) (content : List UInt8) : List UInt8 :=
  takenBlocks turn.writes content.length 0 content

/-- No later record has the same path. -/
def UpdateRecord.LastOf (r : UpdateRecord) (rest : List UpdateRecord) : Prop :=
  ∀ r' ∈ rest, r'.img.szPath ≠ r.img.szPath

instance decidableLastOf (r : UpdateRecord) (rest : List UpdateRecord) : Decidable (r.LastOf rest) :=
  inferInstanceAs (Decidable (∀ r' ∈ rest, _))

/-- Each record in turn comes to its file. When the file seems to have the CRC-32 already, it has
the bytes; else, when there is memory and the file can be created, all bytes are taken; and else
they are all there, those of the later records too. What a later record writes to the same path does
not count. -/
def UpdateTurns (turns : ℕ → UpdateTurn) : ℕ → BoardFiles → List UpdateRecord → Prop
  | _, _, [] => True
  | turn, files, r :: rest =>
    if r.img.IsFirmware then UpdateTurns turns (turn + 1) files rest
    else if fileCrc (turns turn).crcMemory files r.img.szPath = r.img.ulCRC32 then
      (r.LastOf rest → files r.img.szPath = some r.content) ∧ UpdateTurns turns (turn + 1) files rest
    else if (turns turn).memory ∧ (turns turn).creates then
      r.img.ulLength.toNat < 2 ^ 31 ∧ (r.LastOf rest → (turns turn).taken r.content = r.content) ∧
        UpdateTurns turns (turn + 1) (files.write r.img.szPath ((turns turn).taken r.content)) rest
    else UpdateApplied (r :: rest) files

instance decidableUpdateTurns (turns : ℕ → UpdateTurn) :
    (turn : ℕ) → (files : BoardFiles) → (records : List UpdateRecord) →
      Decidable (UpdateTurns turns turn files records)
  | _, _, [] => isTrue trivial
  | turn, files, r :: rest =>
    have := decidableUpdateTurns turns (turn + 1) files rest
    have := decidableUpdateTurns turns (turn + 1)
      (files.write r.img.szPath ((turns turn).taken r.content)) rest
    inferInstanceAs (Decidable (ite _ _ _))

/-- The package is right, no record is for the package itself, records for one path have one
content, and each record in turn comes to its file. -/
structure UpdateApplicable (turns : ℕ → UpdateTurn) (files : BoardFiles)
    (path bytes : List UInt8) : Prop where
  verified : UpdateVerified bytes
  others : ∀ r ∈ packageRecords bytes, ¬ r.img.IsFirmware → r.img.szPath ≠ path
  agree : ∀ r ∈ packageRecords bytes, ∀ r' ∈ packageRecords bytes, ¬ r.img.IsFirmware →
    r.img.szPath = r'.img.szPath →
    r.content = r'.content
  turns : UpdateTurns turns 0 files (packageRecords bytes)

/-- What is behind the part of a list that has been taken is behind all that was asked for. -/
theorem drop_length_take {α : Type*} (list : List α) (n : ℕ) :
    list.drop (list.take n).length = list.drop n := by
  rw [List.length_take]
  rcases Nat.le_total n list.length with hle | hge
  · rw [Nat.min_eq_left hle]
  · rw [Nat.min_eq_right hge, List.drop_length, List.drop_eq_nil_of_le hge]

/-- A length below 2 GB counts. -/
theorem SImgPack.remain_eq {img : SImgPack} (h : img.ulLength.toNat < 2 ^ 31) :
    img.remain = img.ulLength.toNat := by
  have hint : img.ulLength.toInt32.toInt = img.ulLength.toBitVec.toInt := rfl
  have hnat : img.ulLength.toBitVec.toNat = img.ulLength.toNat := rfl
  rw [SImgPack.remain, hint, BitVec.toInt_eq_toNat_of_lt (by omega), hnat, Int.toNat_natCast]

/-- From 2 GB on a length does not count. -/
theorem SImgPack.remain_of_ge {img : SImgPack} (h : 2 ^ 31 ≤ img.ulLength.toNat) : img.remain = 0 := by
  have hint : img.ulLength.toInt32.toInt = img.ulLength.toBitVec.toInt := rfl
  have hnat : img.ulLength.toBitVec.toNat = img.ulLength.toNat := rfl
  have hlt := img.ulLength.toNat_lt
  rw [SImgPack.remain, hint, BitVec.toInt_eq_toNat_cond, if_neg (by omega), hnat]
  omega

/-- What counts is below 2 GB. -/
theorem SImgPack.remain_lt (img : SImgPack) : img.remain < 2 ^ 31 := by
  rcases Nat.lt_or_ge img.ulLength.toNat (2 ^ 31) with hlt | hge
  · rw [SImgPack.remain_eq hlt]
    exact hlt
  · rw [SImgPack.remain_of_ge hge]
    decide

/-- The blocks of a record give the CRC-32 of the bytes that are there. -/
theorem updateCheckBlocks_eq (files : BoardFiles) (path : List UInt8) {rounds remain : ℕ}
    (hrounds : remain ≤ rounds) (pos : ℕ)
    (crc : UInt32) :
    updateCheckBlocks files path rounds remain pos crc =
      (ulRTCrc32 crc (files.read path pos remain), pos + (files.read path pos remain).length) := by
  have hnil (pos : ℕ) : files.read path pos 0 = [] := List.take_zero
  induction rounds generalizing remain pos crc with
  | zero =>
    obtain rfl := Nat.le_zero.mp hrounds
    rw [updateCheckBlocks, hnil, ulRTCrc32_nil]
    rfl
  | succ rounds ih =>
    rw [updateCheckBlocks]
    split
    · next hpos =>
      dsimp only
      split
      · next hblock =>
        have hsplit := files.read_block path pos (Nat.min_le_left remain 4096)
        rw [ih (by omega), hsplit, ulRTCrc32_append, List.length_append, Nat.add_assoc]
      · next hempty =>
        rw [FileStore.read_eq_nil_of_block (by omega : 0 < min remain 4096)
          (Nat.eq_zero_of_not_pos hempty) remain, ulRTCrc32_nil]
        rfl
    · next hzero =>
      obtain rfl := Nat.eq_zero_of_not_pos hzero
      rw [hnil, ulRTCrc32_nil]
      rfl

/-- The blocks of a file give the CRC-32 of the rest of it. -/
theorem fileCrcBlocks_eq (content : List UInt8) {rounds pos : ℕ}
    (hrounds : content.length < pos + rounds) (crc : UInt32) :
    fileCrcBlocks content rounds pos crc = ulRTCrc32 crc (content.drop pos) := by
  induction rounds generalizing pos crc with
  | zero => rw [fileCrcBlocks, List.drop_eq_nil_of_le (by omega), ulRTCrc32_nil]
  | succ rounds ih =>
    rw [fileCrcBlocks]
    split
    · next hblock =>
      rw [ih (by omega), ← ulRTCrc32_append, ← List.drop_drop, drop_length_take, List.take_append_drop]
    · next hempty =>
      rw [List.length_take, List.length_drop] at hempty
      rw [List.drop_eq_nil_of_le (by omega), ulRTCrc32_nil]

/-- What `__file_crc` gives is the CRC-32 of a file, or zero. -/
theorem fileCrc_eq (memory : Bool) (files : BoardFiles) (path : List UInt8) :
    fileCrc memory files path = if memory then ulRTCrc32 0 ((files path).getD []) else 0 := by
  unfold fileCrc
  cases files path with
  | none => simp only [Option.getD_none, ulRTCrc32_nil, ite_self]
  | some content =>
    dsimp only
    rw [fileCrcBlocks_eq content (by omega), List.drop_zero, Option.getD_some]

/-- The blocks of a record that are all there come to the file as the system takes them. -/
theorem updateDoBlocks_eq {writes : ℕ → ℕ} {path szPath bytes : List UInt8} (hne : szPath ≠ path)
    {files : BoardFiles}
    (hfile : files path = some bytes) {rounds remain : ℕ} (hrounds : remain ≤ rounds) {pos : ℕ} (n : ℕ)
    (hthere : pos + remain ≤ bytes.length) (content : List UInt8) :
    updateDoBlocks writes path szPath rounds remain n pos (files.write szPath content) =
      (files.write szPath (content ++ takenBlocks writes rounds n ((bytes.drop pos).take remain)),
      pos + remain) := by
  induction rounds generalizing remain pos n content with
  | zero =>
    obtain rfl := Nat.le_zero.mp hrounds
    rw [updateDoBlocks, takenBlocks, List.append_nil]
    rfl
  | succ rounds ih =>
    have hread : (files.write szPath content).read path pos (min remain 512) =
        (bytes.drop pos).take (min remain 512) :=
      FileStore.read_eq (by rw [FileStore.write_of_ne hne.symm, hfile]) pos _
    have hlength : ((bytes.drop pos).take (min remain 512)).length = min remain 512 := by
      rw [List.length_take, List.length_drop]
      omega
    have htaken : takenBlocks writes (rounds + 1) n ((bytes.drop pos).take remain) =
        ((bytes.drop pos).take (min remain 512)).take (writes n) ++
          takenBlocks writes rounds (n + 1) ((bytes.drop (pos + 512)).take (remain - 512)) := by
      have hblock : ((bytes.drop pos).take remain).take 512 =
          (bytes.drop pos).take (min remain 512) := by
        rw [List.take_take, Nat.min_comm]
      rw [takenBlocks, hblock, List.drop_take, List.drop_drop]
    rw [updateDoBlocks, hread, htaken]
    dsimp only
    rw [hlength]
    split
    · next hpos =>
      rw [if_pos (by omega), FileStore.append_write, ih (by omega) (n + 1) (by omega),
        List.append_assoc]
      rcases Nat.le_total remain 512 with hle | hge
      · rw [Nat.min_eq_left hle, Nat.sub_self, Nat.sub_eq_zero_of_le hle, List.take_zero,
          List.take_zero]
        rfl
      · rw [Nat.min_eq_right hge, Nat.add_assoc, Nat.add_sub_of_le hge]
    · next hzero =>
      obtain rfl := Nat.eq_zero_of_not_pos hzero
      have hnone (rounds n : ℕ) : takenBlocks writes rounds n [] = [] := by
        induction rounds generalizing n with
        | zero => rfl
        | succ rounds ih =>
          rw [takenBlocks, List.take_nil, List.take_nil, List.drop_nil, ih, List.nil_append]
      rw [Nat.zero_min, List.take_zero, List.take_nil, Nat.zero_sub, List.take_zero, hnone,
        List.append_nil, List.append_nil]
      rfl

/-- The blocks of a record change one file, by at most as many bytes as count. -/
theorem updateDoBlocks_le (writes : ℕ → ℕ) (path szPath : List UInt8) (rounds remain n pos : ℕ)
    (files : BoardFiles) :
    (∀ p, p ≠ szPath → (updateDoBlocks writes path szPath rounds remain n pos files).1 p = files p) ∧
      ∀ content, files szPath = some content → ∃ content',
        (updateDoBlocks writes path szPath rounds remain n pos files).1 szPath = some content' ∧
          content'.length ≤ content.length + remain := by
  induction rounds generalizing remain n pos files with
  | zero => exact ⟨fun p _ => rfl, fun content h => ⟨content, h, Nat.le_add_right _ _⟩⟩
  | succ rounds ih =>
    rw [updateDoBlocks]
    split
    · dsimp only
      split
      · obtain ⟨hothers, hthis⟩ := ih (remain - (files.read path pos (min remain 512)).length) (n + 1)
          (pos + (files.read path pos (min remain 512)).length)
          (files.append szPath ((files.read path pos (min remain 512)).take (writes n)))
        refine ⟨fun p hp => (hothers p hp).trans (FileStore.append_of_ne hp _), fun content h => ?_⟩
        obtain ⟨content', hcontent', hlength⟩ :=
          hthis (content ++ (files.read path pos (min remain 512)).take (writes n)) (by
          rw [FileStore.append, FileStore.write_self, h, Option.getD_some])
        refine ⟨content', hcontent', ?_⟩
        have hblock : (files.read path pos (min remain 512)).length ≤ min remain 512 :=
          List.length_take_le _ _
        have htaken : ((files.read path pos (min remain 512)).take (writes n)).length ≤
            (files.read path pos (min remain 512)).length := List.length_take_le' _ _
        rw [List.length_append] at hlength
        omega
      · exact ⟨fun p _ => rfl, fun content h => ⟨content, h, Nat.le_add_right _ _⟩⟩
    · exact ⟨fun p _ => rfl, fun content h => ⟨content, h, Nat.le_add_right _ _⟩⟩

/-- What the loop writes to a file is below 2 GB. -/
theorem updateDoLoop_lt (turns : ℕ → UpdateTurn) (path : List UInt8) (rounds turn pos : ℕ)
    (files : BoardFiles) (p : List UInt8) :
    updateDoLoop turns path rounds turn pos files p = files p ∨
      ∃ content, updateDoLoop turns path rounds turn pos files p = some content ∧
        content.length < 2 ^ 31 := by
  induction rounds generalizing turn pos files with
  | zero => exact .inl rfl
  | succ rounds ih =>
    rw [updateDoLoop]
    dsimp only
    generalize sImgPackOf (files.read path pos sImgPackSize) = img
    split
    · split
      · split
        · exact ih _ _ _
        · split
          · split
            · obtain ⟨hothers, hthis⟩ :=
                updateDoBlocks_le (turns turn).writes path img.szPath img.remain img.remain 0
                (pos + sImgPackSize) (files.write img.szPath [])
              obtain ⟨content, hcontent, hlength⟩ := hthis [] (FileStore.write_self _ _ _)
              rcases ih (turn + 1) (updateDoBlocks (turns turn).writes path img.szPath img.remain
                img.remain 0
                (pos + sImgPackSize) (files.write img.szPath [])).2 (updateDoBlocks
                (turns turn).writes path img.szPath img.remain
                img.remain 0 (pos + sImgPackSize) (files.write img.szPath [])).1 with hsame | hlater
              · by_cases hp : p = img.szPath
                · subst hp
                  refine .inr ⟨content, hsame.trans hcontent, ?_⟩
                  have hlt := img.remain_lt
                  rw [List.length_nil, Nat.zero_add] at hlength
                  omega
                · exact .inl (hsame.trans ((hothers p hp).trans (FileStore.write_of_ne hp _)))
              · exact .inr hlater
            · exact .inl rfl
          · exact .inl rfl
      · exact ih _ _ _
    · exact .inl rfl

section Records

variable {files : BoardFiles} {path bytes : List UInt8}

/-- The head that is read, when all of it is there. -/
theorem read_sImgPack (hfile : files path = some bytes) (pos : ℕ) :
    files.read path pos sImgPackSize = (bytes.drop pos).take sImgPackSize ∧
      (sImgPackSize ≤ (files.read path pos sImgPackSize).length ↔
      sImgPackSize ≤ (bytes.drop pos).length) := by
  have hread := FileStore.read_eq hfile pos sImgPackSize
  refine ⟨hread, ?_⟩
  rw [hread, List.length_take]
  omega

/-- The check is passed unless a mismatch is met. -/
theorem updateCheckLoop_iff (memory : ℕ → Bool) (hfile : files path = some bytes)
    (rounds turn pos : ℕ) :
    updateCheckLoop memory files path rounds turn pos = true ↔
      ¬ UpdateMismatch memory turn (updateRecords SImgPack.checked rounds (bytes.drop pos)) := by
  induction rounds generalizing turn pos with
  | zero => exact iff_of_true rfl id
  | succ rounds ih =>
    obtain ⟨hread, hthere⟩ := read_sImgPack hfile pos
    rw [updateCheckLoop, updateRecords]
    dsimp only
    rw [hread] at hthere ⊢
    by_cases hlength : sImgPackSize ≤ (bytes.drop pos).length
    · rw [if_pos (hthere.mpr hlength), if_pos hlength, UpdateMismatch]
      dsimp only
      generalize sImgPackOf ((bytes.drop pos).take sImgPackSize) = img
      rw [List.drop_drop]
      by_cases hfirmware : img.IsFirmware
      · rw [if_neg (not_not.mpr hfirmware), if_pos hfirmware, ih, SImgPack.checked,
          if_pos hfirmware, List.drop_drop]
      · rw [if_pos hfirmware, if_neg hfirmware, SImgPack.checked, if_neg hfirmware,
          updateCheckBlocks_eq files path (Nat.le_refl _),
          FileStore.read_eq hfile]
        dsimp only
        have hnext : bytes.drop (pos + sImgPackSize +
          ((bytes.drop (pos + sImgPackSize)).take img.remain).length) =
            (bytes.drop (pos + sImgPackSize)).drop img.remain := by
          rw [← List.drop_drop, drop_length_take]
        cases memory turn with
        | false => simp
        | true =>
          by_cases hcrc : ulRTCrc32 0 ((bytes.drop (pos + sImgPackSize)).take img.remain) = img.ulCRC32
          · rw [if_pos rfl, if_neg (not_not.mpr hcrc), ih, hnext]
            simp [hcrc]
          · rw [if_pos rfl, if_pos hcrc]
            simp [hcrc]
    · rw [if_neg (hthere.not.mpr hlength), if_neg hlength]
      exact iff_of_true rfl id

/-- Without a head the loop ends. -/
theorem updateDoLoop_end (turns : ℕ → UpdateTurn) (hfile : files path = some bytes)
    (rounds turn : ℕ) {pos : ℕ}
    (hend : ¬ sImgPackSize ≤ (bytes.drop pos).length) :
    updateDoLoop turns path rounds turn pos files = files := by
  cases rounds with
  | zero => rfl
  | succ rounds =>
    obtain ⟨-, hthere⟩ := read_sImgPack hfile pos
    rw [updateDoLoop]
    dsimp only
    rw [if_neg (hthere.not.mpr hend)]

/-- A round of `__update_do` at the head of a record. -/
theorem updateDoLoop_succ (turns : ℕ → UpdateTurn) (hfile : files path = some bytes)
    (rounds turn pos : ℕ) {img : SImgPack}
    (hhead : sImgPackSize ≤ (bytes.drop pos).length)
    (himg : sImgPackOf ((bytes.drop pos).take sImgPackSize) = img) :
    updateDoLoop turns path (rounds + 1) turn pos files =
      if img.IsFirmware ∨ fileCrc (turns turn).crcMemory files img.szPath = img.ulCRC32 then
        updateDoLoop turns path rounds (turn + 1) (pos + sImgPackSize + img.ulLength.toNat) files
      else if (turns turn).memory ∧ (turns turn).creates then
        let blocks := updateDoBlocks (turns turn).writes path img.szPath img.remain img.remain 0
          (pos + sImgPackSize)
          (files.write img.szPath [])
        updateDoLoop turns path rounds (turn + 1) blocks.2 blocks.1
      else files := by
  obtain ⟨hread, hthere⟩ := read_sImgPack hfile pos
  rw [updateDoLoop]
  dsimp only
  rw [if_pos (hthere.mpr hhead), hread, himg]
  by_cases hfirmware : img.IsFirmware
  · rw [if_neg (not_not.mpr hfirmware), if_pos (.inl hfirmware)]
  · rw [if_pos hfirmware]
    by_cases hcrc : fileCrc (turns turn).crcMemory files img.szPath = img.ulCRC32
    · rw [if_pos hcrc, if_pos (.inr hcrc)]
    · rw [if_neg hcrc, if_neg (not_or.mpr ⟨hfirmware, hcrc⟩)]
      cases (turns turn).memory with
      | false => simp
      | true =>
        cases (turns turn).creates with
        | false => simp
        | true => simp

/-- The first of some records lies in its file when the last one for its path does. -/
theorem updateApplied_cons_iff {r : UpdateRecord} {rest : List UpdateRecord}
    {next final : BoardFiles} {comes : Prop}
    (hfirmware : ¬ r.img.IsFirmware)
    (hagree : ∀ r' ∈ rest, r.img.szPath = r'.img.szPath → r.content = r'.content)
    (hrest : UpdateApplied rest final ↔ comes)
    (hframe : comes → r.LastOf rest → final r.img.szPath = next r.img.szPath) :
    UpdateApplied (r :: rest) final ↔ (r.LastOf rest → next r.img.szPath = some r.content) ∧ comes := by
  rw [UpdateApplied, List.forall_mem_cons]
  constructor
  · rintro ⟨hthis, hothers⟩
    have hcomes := hrest.mp hothers
    exact ⟨fun hlast => (hframe hcomes hlast).symm.trans (hthis hfirmware), hcomes⟩
  · rintro ⟨hthis, hcomes⟩
    have hothers := hrest.mpr hcomes
    refine ⟨fun _ => ?_, hothers⟩
    by_cases hlast : r.LastOf rest
    · exact (hframe hcomes hlast).trans (hthis hlast)
    · -- a later record for the same path has the same content
      obtain ⟨r', hmem, hpath⟩ : ∃ r' ∈ rest, r'.img.szPath = r.img.szPath := by
        by_contra hnone
        exact hlast fun r' hmem hpath => hnone ⟨r', hmem, hpath⟩
      have hfirmware' : ¬ r'.img.IsFirmware := fun h => hfirmware (h.trans hpath)
      rw [hagree r' hmem hpath.symm, ← hpath]
      exact hothers r' hmem hfirmware'

/-- The records lie in their files when the loop is done, if and only if each of them comes to its
file in turn. Then no other file is changed. -/
theorem updateDoLoop_applied (turns : ℕ → UpdateTurn) (hfile : files path = some bytes)
    (rounds turn pos : ℕ)
    (hmatches : ∀ r ∈ updateRecords (fun img => img.ulLength.toNat) rounds (bytes.drop pos),
      ¬ r.img.IsFirmware → r.Matches)
    (hothers : ∀ r ∈ updateRecords (fun img => img.ulLength.toNat) rounds (bytes.drop pos),
      ¬ r.img.IsFirmware →
      r.img.szPath ≠ path)
    (hagree : ∀ r ∈ updateRecords (fun img => img.ulLength.toNat) rounds (bytes.drop pos),
      ∀ r' ∈ updateRecords (fun img => img.ulLength.toNat) rounds (bytes.drop pos), ¬ r.img.IsFirmware →
      r.img.szPath = r'.img.szPath → r.content = r'.content) :
    (UpdateApplied (updateRecords (fun img => img.ulLength.toNat) rounds (bytes.drop pos))
        (updateDoLoop turns path rounds turn pos files) ↔
      UpdateTurns turns turn files (updateRecords (fun img => img.ulLength.toNat) rounds
        (bytes.drop pos))) ∧
    (UpdateTurns turns turn files
    (updateRecords (fun img => img.ulLength.toNat) rounds (bytes.drop pos)) → ∀ p,
      (∀ r ∈ updateRecords (fun img => img.ulLength.toNat) rounds (bytes.drop pos), r.img.szPath ≠ p) →
      updateDoLoop turns path rounds turn pos files p = files p) := by
  induction rounds generalizing files turn pos with
  | zero => exact ⟨iff_of_true (fun r hr => absurd hr List.not_mem_nil) trivial, fun _ _ _ => rfl⟩
  | succ rounds ih =>
    by_cases hhead : sImgPackSize ≤ (bytes.drop pos).length
    swap
    · rw [updateDoLoop_end turns hfile (rounds + 1) turn hhead, updateRecords, if_neg hhead]
      exact ⟨iff_of_true (fun r hr => absurd hr List.not_mem_nil) trivial, fun _ _ _ => rfl⟩
    generalize himg : sImgPackOf ((bytes.drop pos).take sImgPackSize) = img
    have hloop := updateDoLoop_succ turns hfile rounds turn pos hhead himg
    have hrecords : updateRecords (fun img => img.ulLength.toNat) (rounds + 1) (bytes.drop pos) =
        ⟨img, (bytes.drop (pos + sImgPackSize)).take img.ulLength.toNat⟩ ::
          updateRecords (fun img => img.ulLength.toNat) rounds
            (bytes.drop (pos + sImgPackSize + img.ulLength.toNat)) := by
      rw [updateRecords, if_pos hhead]
      dsimp only
      rw [himg, List.drop_drop, List.drop_drop]
    rw [hrecords] at hmatches hothers hagree ⊢
    generalize hcontent : (bytes.drop (pos + sImgPackSize)).take img.ulLength.toNat = content
      at hmatches hothers hagree ⊢
    rw [List.forall_mem_cons] at hmatches hothers
    have hnext (next : BoardFiles) (hnextFile : next path = some bytes) :=
      ih hnextFile (turn + 1) (pos + sImgPackSize + img.ulLength.toNat) hmatches.2 hothers.2
        fun r hr r' hr' => hagree r (List.mem_cons_of_mem _ hr) r' (List.mem_cons_of_mem _ hr')
    generalize updateRecords (fun img => img.ulLength.toNat) rounds
      (bytes.drop (pos + sImgPackSize + img.ulLength.toNat)) = rest
      at hmatches hothers hagree hnext ⊢
    have htail {p : List UInt8} (h : ∀ r ∈ (⟨img, content⟩ : UpdateRecord) :: rest, r.img.szPath ≠ p) :
        ∀ r ∈ rest, r.img.szPath ≠ p := fun r hr => h r (List.mem_cons_of_mem _ hr)
    rw [hloop, UpdateTurns]
    dsimp only
    by_cases hfirmware : img.IsFirmware
    · obtain ⟨hiff, hframe⟩ := hnext files hfile
      rw [if_pos (.inl hfirmware), if_pos hfirmware, ← hiff, UpdateApplied, List.forall_mem_cons]
      refine ⟨and_iff_right fun h => absurd hfirmware h, fun happlied p hp => ?_⟩
      exact hframe (hiff.mp happlied) p (htail hp)
    rw [if_neg hfirmware]
    have hsame : ∀ r' ∈ rest, img.szPath = r'.img.szPath → content = r'.content := fun r' hr' hpath =>
      hagree ⟨img, content⟩ List.mem_cons_self r' (List.mem_cons_of_mem _ hr') hfirmware hpath
    by_cases hcrc : fileCrc (turns turn).crcMemory files img.szPath = img.ulCRC32
    · obtain ⟨hiff, hframe⟩ := hnext files hfile
      rw [if_pos (.inr hcrc), if_pos hcrc]
      refine ⟨updateApplied_cons_iff hfirmware hsame hiff fun hcomes hlast => hframe hcomes _ hlast,
        fun hcomes p hp => ?_⟩
      exact hframe hcomes.2 p (htail hp)
    rw [if_neg (not_or.mpr ⟨hfirmware, hcrc⟩), if_neg hcrc]
    by_cases hwrites : (turns turn).memory ∧ (turns turn).creates
    swap
    · rw [if_neg hwrites, if_neg hwrites]
      exact ⟨Iff.rfl, fun _ _ _ => rfl⟩
    rw [if_pos hwrites, if_pos hwrites]
    have hlength : content.length = img.ulLength.toNat := (hmatches.1 hfirmware).1
    have hne : img.szPath ≠ path := hothers.1 hfirmware
    rcases Nat.lt_or_ge img.ulLength.toNat (2 ^ 31) with hlt | hge
    · have hthere : pos + sImgPackSize + img.ulLength.toNat ≤ bytes.length := by
        rw [← hcontent, List.length_take, List.length_drop] at hlength
        rw [List.length_drop] at hhead
        have hsize : 0 < sImgPackSize := by decide
        omega
      have hblocks :=
        @updateDoBlocks_eq (turns turn).writes _ _ _ hne _ hfile
        _ _ (Nat.le_refl img.ulLength.toNat) _ 0 hthere []
      rw [List.nil_append, hcontent, ← hlength] at hblocks
      obtain ⟨hiff, hframe⟩ := hnext (files.write img.szPath ((turns turn).taken content)) (by
        rw [FileStore.write_of_ne hne.symm, hfile])
      have hlt' : content.length < 2 ^ 31 := by
        rw [hlength]
        exact hlt
      rw [← hlength] at hiff hframe
      rw [SImgPack.remain_eq hlt, ← hlength, hblocks, and_iff_right hlt']
      refine ⟨?_, fun hcomes p hp => ?_⟩
      · have hall :=
          @updateApplied_cons_iff ⟨img, content⟩ rest _ _ _ hfirmware hsame hiff fun hcomes hlast =>
          hframe hcomes _ hlast
        rw [FileStore.write_self, Option.some_inj] at hall
        exact hall
      · refine (hframe hcomes.2 p (htail hp)).trans (FileStore.write_of_ne ?_ _)
        exact (hp ⟨img, content⟩ List.mem_cons_self).symm
    · -- nothing of the content is written, so that the file stays below 2 GB
      refine ⟨iff_of_false (fun happlied => ?_) fun h => absurd h.1 (Nat.not_lt.mpr hge),
        fun h => absurd h.1 (Nat.not_lt.mpr hge)⟩
      have hthis := happlied ⟨img, content⟩ List.mem_cons_self hfirmware
      rw [SImgPack.remain_of_ge hge] at hthis
      rcases updateDoLoop_lt turns path rounds (turn + 1) (pos + sImgPackSize)
        (files.write img.szPath []) img.szPath with
        hempty | ⟨content', hcontent', hless⟩
      · rw [FileStore.write_self] at hempty
        obtain rfl := Option.some.inj (hthis.symm.trans hempty)
        rw [← hlength] at hge
        exact absurd hge (by decide)
      · obtain rfl := Option.some.inj (hthis.symm.trans hcontent')
        rw [← hlength] at hge
        exact absurd hless (Nat.not_lt.mpr hge)

/-- The check is passed by every package that is not refused, and leaves the files as they were. -/
theorem updateCheck_iff (memory : ℕ → Bool) (hfile : files path = some bytes) :
    (updateCheck memory files path).1 = true ↔ ¬ UpdateRefused memory bytes := by
  have hread : files.read path 0 12 = bytes.take 12 := by rw [FileStore.read_eq hfile, List.drop_zero]
  have hloop := updateCheckLoop_iff memory hfile bytes.length 0 12
  simp only [updateCheck, hfile, hread, UpdateRefused, not_or, not_le, not_and]
  split
  · next hlength =>
    rw [and_iff_right hlength]
    split
    · next hmagics => rw [hloop, checkedRecords, forall_prop_of_true hmagics]
    · next hmagics => exact iff_of_true rfl fun h => absurd h hmagics
  · next hlength => exact iff_of_false Bool.false_ne_true fun h => hlength h.1

end Records

section Rounds

variable {files : BoardFiles} {path bytes : List UInt8}

/-- More rounds than bytes find no more records. -/
theorem updateRecords_rounds (taken : SImgPack → ℕ) {rounds : ℕ} {left : List UInt8}
    (h : left.length ≤ rounds) :
    updateRecords taken (rounds + 1) left = updateRecords taken rounds left := by
  induction rounds generalizing left with
  | zero =>
    obtain rfl := List.eq_nil_of_length_eq_zero (Nat.le_zero.mp h)
    rfl
  | succ rounds ih =>
    rw [updateRecords, updateRecords]
    have hsize : 0 < sImgPackSize := by decide
    split
    · dsimp only
      rw [ih (by rw [List.length_drop, List.length_drop]; omega)]
    · rfl

/-- `__update_check` ends: with more rounds it comes to the same result. -/
theorem updateCheckLoop_rounds (memory : ℕ → Bool) (hfile : files path = some bytes) {rounds : ℕ}
    (turn : ℕ) {pos : ℕ}
    (h : bytes.length ≤ pos + rounds) :
    updateCheckLoop memory files path (rounds + 1) turn pos =
      updateCheckLoop memory files path rounds turn pos := by
  rw [Bool.eq_iff_iff, updateCheckLoop_iff memory hfile, updateCheckLoop_iff memory hfile,
    updateRecords_rounds _ (by rw [List.length_drop]; omega)]

/-- The loop over the blocks does not go back. -/
theorem le_updateDoBlocks (writes : ℕ → ℕ) (path szPath : List UInt8) (rounds remain n pos : ℕ)
    (files : BoardFiles) :
    pos ≤ (updateDoBlocks writes path szPath rounds remain n pos files).2 := by
  induction rounds generalizing remain n pos files with
  | zero => exact Nat.le_refl _
  | succ rounds ih =>
    rw [updateDoBlocks]
    split
    · dsimp only
      split
      · exact Nat.le_trans (Nat.le_add_right _ _) (ih _ _ _ _)
      · exact Nat.le_refl _
    · exact Nat.le_refl _

/-- A record for the package itself leaves nothing of it, and the others leave it alone. -/
theorem updateDoBlocks_path (writes : ℕ → ℕ) (hfile : files path = some bytes) (szPath : List UInt8)
    (rounds remain n pos : ℕ) :
    ∃ bytes', (updateDoBlocks writes path szPath rounds remain n pos (files.write szPath [])).1
      path = some bytes' ∧
      bytes'.length ≤ bytes.length := by
  by_cases hpath : path = szPath
  · subst hpath
    have hnone (pos n : ℕ) : (files.write path []).read path pos n = [] := by
      rw [FileStore.read_eq (files.write_self path []), List.drop_nil, List.take_nil]
    refine ⟨[], ?_, Nat.zero_le _⟩
    cases rounds with
    | zero => exact files.write_self path []
    | succ rounds =>
      rw [updateDoBlocks, hnone]
      simp only [List.length_nil, Nat.lt_irrefl, if_false, ite_self]
      exact files.write_self path []
  · refine ⟨bytes, ?_, Nat.le_refl _⟩
    rw [(updateDoBlocks_le writes path szPath rounds remain n pos _).1 path hpath,
      FileStore.write_of_ne hpath, hfile]

/-- `__update_do` ends: with more rounds it leaves the same files. -/
theorem updateDoLoop_rounds (turns : ℕ → UpdateTurn) (hfile : files path = some bytes) {rounds : ℕ}
    (turn : ℕ) {pos : ℕ}
    (h : bytes.length ≤ pos + rounds) :
    updateDoLoop turns path (rounds + 1) turn pos files =
      updateDoLoop turns path rounds turn pos files := by
  have hsize : 0 < sImgPackSize := by decide
  induction rounds generalizing files bytes turn pos with
  | zero =>
    rw [updateDoLoop_end turns hfile 1 turn (by rw [List.length_drop]; omega)]
    rfl
  | succ rounds ih =>
    by_cases hhead : sImgPackSize ≤ (bytes.drop pos).length
    · rw [updateDoLoop_succ turns hfile (rounds + 1) turn pos hhead rfl,
        updateDoLoop_succ turns hfile rounds turn pos hhead rfl]
      dsimp only
      obtain ⟨bytes', hfile', hless⟩ := updateDoBlocks_path (turns turn).writes hfile
        (sImgPackOf ((bytes.drop pos).take sImgPackSize)).szPath
          (sImgPackOf ((bytes.drop pos).take sImgPackSize)).remain
        (sImgPackOf ((bytes.drop pos).take sImgPackSize)).remain 0 (pos + sImgPackSize)
      have hon := le_updateDoBlocks (turns turn).writes path
        (sImgPackOf ((bytes.drop pos).take sImgPackSize)).szPath
          (sImgPackOf ((bytes.drop pos).take sImgPackSize)).remain
        (sImgPackOf ((bytes.drop pos).take sImgPackSize)).remain 0 (pos + sImgPackSize)
        (files.write (sImgPackOf ((bytes.drop pos).take sImgPackSize)).szPath [])
      rw [ih hfile (turn + 1) (by omega), ih hfile' (turn + 1) (by omega)]
    · rw [updateDoLoop_end turns hfile (rounds + 2) turn hhead,
        updateDoLoop_end turns hfile (rounds + 1) turn hhead]

end Rounds

/-- No file for a record has the CRC-32 of the record without having its bytes. -/
def UpdateCollisionFree (files : BoardFiles) (bytes : List UInt8) : Prop :=
  ∀ r ∈ packageRecords bytes, ∀ content, files r.img.szPath = some content →
    ulRTCrc32 0 content = ulRTCrc32 0 r.content → content = r.content

/-- When no file has a CRC-32 by chance, a record whose CRC-32 its file seems to have is in the file
if there is one. -/
theorem file_eq_iff_of_fileCrc {files : BoardFiles} {bytes : List UInt8}
    (hfree : UpdateCollisionFree files bytes) {r : UpdateRecord}
    (hr : r ∈ packageRecords bytes) (hmatches : r.Matches)
    (hcrc : fileCrc true files r.img.szPath = r.img.ulCRC32) :
    files r.img.szPath = some r.content ↔ (files r.img.szPath).isSome := by
  refine ⟨fun h => by rw [h]; rfl, fun h => ?_⟩
  obtain ⟨content, hcontent⟩ := Option.isSome_iff_exists.mp h
  rw [fileCrc_eq, if_pos rfl, hcontent, Option.getD_some, ← hmatches.2] at hcrc
  rw [hcontent, hfree r hr content hcontent hcrc]

/-- A record for a path, with the CRC-32 of its content. -/
def recordBytes (szPath content : List UInt8) : List UInt8 :=
  szPath ++ List.replicate (384 - szPath.length) 0 ++ uint32Bytes content.length.toUInt32 ++
    uint32Bytes (ulRTCrc32 0 content) ++ content

/-- A package with the record `b` for `/b`, behind other records. -/
def bPackage (before : List UInt8) : List UInt8 :=
  uint32Bytes 0x526F2678 ++ uint32Bytes 0x1B5C4DEE ++ uint32Bytes 0x67FAB5CD ++ before ++
    recordBytes [0x2F, 0x62] [0x62]

/-- There is only the package, at `/u`. -/
def onlyPackage (bytes : List UInt8) : BoardFiles :=
  fun path => if path = [0x2F, 0x75] then some bytes else none

/-- There is memory, files can be created, and every write is taken. -/
def goodTurn : UpdateTurn := ⟨true, true, true, fun _ => 512⟩

end DasEdge.Board
