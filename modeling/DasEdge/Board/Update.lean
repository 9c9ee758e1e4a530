import DasEdge.Board.RtCrc32
import DasEdge.Library.FileStore
import DasEdge.Library.WordBytes

/-!
# The update package

`__update_check` and `__update_do` of `update.c`. A package is three magic numbers and records, each
a `S_IMG_PACK` with its content. A read of a file gives what there is up to what is asked for. What
the system does otherwise is given for each turn of a loop: whether there is memory, whether a file
can be created once `create_dir` has been called, and how much of each write it takes. Offsets have
room for every 32-bit length.
-/

namespace DasEdge.Board

open DasEdge.Library

/-- The bytes of the files. A path is the bytes of a string. -/
abbrev BoardFiles := FileStore (List UInt8) UInt8

/-- `IMG_FIRMWARE_PATH` -/
def imgFirmwarePath : List UInt8 :=
  [0x23, 0x2D, 0x66, 0x69, 0x72, 0x6D, 0x2D, 0x23, 0x2D, 0x77, 0x61, 0x72, 0x65, 0x2D, 0x23]

/-- The fields of `S_IMG_PACK` that are used, the path as the string that starts there. -/
structure SImgPack where
  szPath : List UInt8
  ulLength : UInt32
  ulCRC32 : UInt32
  deriving DecidableEq

/-- `sizeof(S_IMG_PACK)` -/
def sImgPackSize : ℕ := 128 + 256 + 4 + 4

/-- The `S_IMG_PACK` that bytes are. -/
def sImgPackOf (bytes : List UInt8) : SImgPack where
  szPath := bytes.takeWhile (· ≠ 0)
  ulLength := readUInt32 (fun n => bytes.getD n 0) 384
  ulCRC32 := readUInt32 (fun n => bytes.getD n 0) 388

/-- A record is for the firmware. -/
def SImgPack.IsFirmware (img : SImgPack) : Prop := imgFirmwarePath = img.szPath

instance decidableIsFirmware (img : SImgPack) : Decidable img.IsFirmware :=
  inferInstanceAs (Decidable (_ = _))

/-- The length as an `int`, as far as it counts: from `2 ^ 31` on it is negative. -/
def SImgPack.remain (img : SImgPack) : ℕ := img.ulLength.toInt32.toInt.toNat

/-- `IMG_MAGIC_NUM1`, `IMG_MAGIC_NUM2` and `IMG_MAGIC_NUM3` are what has been read to `ulMagics`. -/
def ImgMagics (bytes : List UInt8) : Prop :=
  let ulMagics (i : ℕ) := readUInt32 (fun n => bytes.getD n 0) (4 * i)
  ulMagics 0 = 0x526F2678 ∧ ulMagics 1 = 0x1B5C4DEE ∧ ulMagics 2 = 0x67FAB5CD

instance decidableImgMagics (bytes : List UInt8) : Decidable (ImgMagics bytes) :=
  inferInstanceAs (Decidable (_ ∧ _ ∧ _))

/-- The loop in `__update_check` over the blocks of a record: the CRC-32, and where it stops. There
are as many rounds as bytes at most. -/
def updateCheckBlocks (files : BoardFiles) (path : List UInt8) : ℕ → ℕ → ℕ → UInt32 → UInt32 × ℕ
  | 0, _, pos, crc => (crc, pos)
  | rounds + 1, remain, pos, crc =>
    if 0 < remain then
      let block := files.read path pos (min remain 4096)
      if 0 < block.length then
        updateCheckBlocks files path rounds (remain - block.length) (pos + block.length)
          (ulRTCrc32 crc block)
      else (crc, pos)
    else (crc, pos)

/-- The loop in `__update_check` over the records: whether it is left with `break`. -/
def updateCheckLoop (memory : ℕ → Bool) (files : BoardFiles) (path : List UInt8) : ℕ → ℕ → ℕ → Bool
  | 0, _, _ => true
  | rounds + 1, turn, pos =>
    let bytes := files.read path pos sImgPackSize
    if sImgPackSize ≤ bytes.length then
      let xUpdateImg := sImgPackOf bytes
      let pos := pos + sImgPackSize
      if ¬ xUpdateImg.IsFirmware then
        if memory turn then
          let blocks := updateCheckBlocks files path xUpdateImg.remain xUpdateImg.remain pos 0
          if blocks.1 ≠ xUpdateImg.ulCRC32 then false
            else updateCheckLoop memory files path rounds (turn + 1) blocks.2
        else true
      else updateCheckLoop memory files path rounds (turn + 1) (pos + xUpdateImg.ulLength.toNat)
    else true

/-- `__update_check`: the result, and the files. -/
def updateCheck (memory : ℕ → Bool) (files : BoardFiles) (path : List UInt8) : Bool × BoardFiles :=
  let bRet :=
    match files path with
    | none => false
    | some bytes =>
      if 12 + sImgPackSize < bytes.length then
        if ImgMagics (files.read path 0 12) then updateCheckLoop memory files path bytes.length 0 12
        -- wrong magic numbers are not an error
        else true
      else false
  (bRet, bif bRet then files else files.unlink path)

/-- What the system does in a turn of the loop in `__update_do`: there is memory in `__file_crc` and
in the loop, a file can be created, and up to so many bytes of each write are taken. -/
structure UpdateTurn where
  crcMemory : Bool
  memory : Bool
  creates : Bool
  writes : ℕ → ℕ

/-- The loop in `__file_crc`, over a file from a position on. -/
def fileCrcBlocks (content : List UInt8) : ℕ → ℕ → UInt32 → UInt32
  | 0, _, crc => crc
  | rounds + 1, pos, crc =>
    let block := (content.drop pos).take 4096
    if 0 < block.length then fileCrcBlocks content rounds (pos + block.length)
      (ulRTCrc32 crc block) else crc

/-- `__file_crc`. That there is no memory is not looked at; reading to a null pointer fails. -/
def fileCrc (memory : Bool) (files : BoardFiles) (path : List UInt8) : UInt32 :=
  match files path with
  | none => 0
  | some content => if memory then fileCrcBlocks content (content.length + 1) 0 0 else 0

/-- The loop in `__update_do` over the blocks of a record: the files, and where it stops. -/
def updateDoBlocks (writes : ℕ → ℕ) (path szPath : List UInt8) : ℕ → ℕ → ℕ → ℕ → BoardFiles →
    BoardFiles × ℕ
  | 0, _, _, pos, files => (files, pos)
  | rounds + 1, remain, n, pos, files =>
    if 0 < remain then
      let block := files.read path pos (min remain 512)
      if 0 < block.length then
        -- what a write does not take is not written again
        updateDoBlocks writes path szPath rounds (remain - block.length) (n + 1) (pos + block.length)
          (files.append szPath (block.take (writes n)))
      else (files, pos)
    else (files, pos)

/-- The loop in `__update_do` over the records: the files that it leaves. -/
def updateDoLoop (turns : ℕ → UpdateTurn) (path : List UInt8) : ℕ → ℕ → ℕ → BoardFiles → BoardFiles
  | 0, _, _, files => files
  | rounds + 1, turn, pos, files =>
    let bytes := files.read path pos sImgPackSize
    if sImgPackSize ≤ bytes.length then
      let xUpdateImg := sImgPackOf bytes
      let pos := pos + sImgPackSize
      if ¬ xUpdateImg.IsFirmware then
        if fileCrc (turns turn).crcMemory files xUpdateImg.szPath = xUpdateImg.ulCRC32 then
          updateDoLoop turns path rounds (turn + 1) (pos + xUpdateImg.ulLength.toNat) files
        else if (turns turn).memory then
          if (turns turn).creates then
            let blocks :=
              updateDoBlocks (turns turn).writes path xUpdateImg.szPath xUpdateImg.remain
              xUpdateImg.remain 0 pos
              (files.write xUpdateImg.szPath [])
            updateDoLoop turns path rounds (turn + 1) blocks.2 blocks.1
          else files
        else files
      else updateDoLoop turns path rounds (turn + 1) (pos + xUpdateImg.ulLength.toNat) files
    else files

/-- What `__update_do` returns, and the files when it removes the package. -/
structure UpdateOut where
  bRet : Bool
  removing : BoardFiles

/-- `__update_do` -/
def updateDo (turns : ℕ → UpdateTurn) (files : BoardFiles) (path : List UInt8) : UpdateOut :=
  match files path with
  | none => ⟨false, files⟩
  | some bytes =>
    if 12 + sImgPackSize < bytes.length then
      if ImgMagics (files.read path 0 12)
        then ⟨true, updateDoLoop turns path bytes.length 0 12 files⟩ else ⟨true, files⟩
    else ⟨false, files⟩

/-- The files that `__update_do` leaves: the package is removed. -/
def UpdateOut.files (out : UpdateOut) (path : List UInt8) : BoardFiles := out.removing.unlink path

end DasEdge.Board
