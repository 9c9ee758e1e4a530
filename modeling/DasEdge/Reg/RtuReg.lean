import DasEdge.Board.RtCrc32
import DasEdge.Library.WordBytes
import DasEdge.Reg.RtuMd5
import DasEdge.Reg.RtuSha

/-!
# The identity of a device and its key

`reg_regetid` makes the identity that is shown out of what the chip says and a code, and `reg_check`
makes out of the identity the one key that it takes.
-/

namespace DasEdge.Reg

open DasEdge.Board DasEdge.Library DasEdge.Sdccp

/-- A digit of `%X`. -/
def regHexDigit (digit : ℕ) : UInt8 := UInt8.ofNat (if digit < 10 then 48 + digit else 55 + digit)

/-- `%02X` -/
def regHexByte (byte : UInt8) : List UInt8 :=
  [regHexDigit (byte.toNat / 16), regHexDigit (byte.toNat % 16)]

/-- `%X` of a byte. -/
def regHexShort (byte : UInt8) : List UInt8 :=
  if byte.toNat < 16 then [regHexDigit byte.toNat] else regHexByte byte

/-- `%08X` -/
def regHexWord (word : UInt32) : List UInt8 := (shaBytes word).flatMap regHexByte

/-- `__sys_get_uuid`: the words of the number of the chip, which are left zero when it is not read. -/
def sysGetUuid (id : Option UInt64) : Vector UInt32 4 :=
  Vector.ofFn fun i => id.elim 0 fun id =>
    let id := id + UInt64.ofNat (i.val * (i.val + 1) / 2)
    ulRTCrc32 0 (List.ofFn fun k : Fin 8 => (id >>> UInt64.ofNat (8 * k.val)).toUInt8)

section Identity

/-- `buf` in `reg_regetid`. -/
def regIdText (uuid : Vector UInt32 4) (code : UInt32) : List UInt8 :=
  regHexByte (wordByte code 0) ++ (regHexWord (~~~ uuid[0]) ++ (regHexByte (wordByte code 8) ++
    (regHexWord (~~~ uuid[1]) ++ (regHexByte (wordByte code 16) ++ (regHexWord (~~~ uuid[2]) ++
      (regHexByte (wordByte code 24) ++ regHexWord (~~~ uuid[3])))))))

/-- `key1`, `key2` and `key3` in `reg_regetid`. -/
def regIdKey1 : Vector UInt8 8 := #v[0x5F, 0x2D, 0x25, 0x34, 0xAD, 0x58, 0xEB, 0xA0]
def regIdKey2 : Vector UInt8 8 := #v[0x3F, 0x57, 0x35, 0xCC, 0x08, 0x58, 0x1B, 0x99]
def regIdKey3 : Vector UInt8 8 := #v[0x5F, 0x6B, 0x29, 0x2D, 0x25, 0x6C, 0x26, 0x68]

/-- `reg_regetid` -/
def regRegetid (uuid : Vector UInt32 4) (code : UInt32) : Option (List UInt8) :=
  let buf := regIdText uuid code
  (rtuDesEncrypt buf buf.length regIdKey1).bind fun des =>
    (rtuDesDecrypt des.1 buf.length regIdKey2).bind fun des =>
      (rtuDesEncrypt des.1 buf.length regIdKey3).map Prod.fst

end Identity

section Check

/-- `REG_ID_LEN` -/
def regIdLen : ℕ := 40

/-- `deskey` for a byte of the identity. -/
def regDesKey (byte : UInt8) : Vector UInt8 8 :=
  #v[byte + ~~~ 0x5F, ~~~ byte + 0x2D, ~~~ byte + 0x25, byte + ~~~ 0x34, byte - ~~~ 0xAD, byte - 0x58,
    ~~~ byte + ~~~ 0xEB, ~~~ byte - ~~~ 0xA0]

/-- Bytes of a digest in another order, some of them complemented. -/
def regDigestText (digest : List UInt8) (order : List (ℕ × Bool)) : List UInt8 :=
  order.flatMap fun place =>
    regHexByte (if place.2 then ~~~ digest.getD place.1 0 else digest.getD place.1 0)

/-- What is printed of `md5.digest`. -/
def regMd5Order : List (ℕ × Bool) :=
  [(0, false), (1, true), (8, true), (9, false), (2, false), (3, true), (10, false), (11, false),
    (4, false),
    (5, true), (12, false), (13, false), (6, false), (7, false), (14, false), (15, false), (8, false),
    (3, false), (5, false), (1, false)]

/-- What is printed of `sha.buf`. -/
def regShaOrder : List (ℕ × Bool) :=
  [(0, false), (10, true), (4, false), (15, false), (3, false), (7, false), (8, true),
    (16, false), (6, true),
    (5, false), (11, false), (17, true), (9, false), (2, false), (13, true), (18, false), (19, false),
    (1, true), (14, false), (12, false)]

/-- What is not told by the identity: the two checksums, and what lies on the stack where a turn has its
contexts. -/
structure RegStack where
  rtuCrc32 : UInt32 → List UInt8 → ℤ → UInt32
  rtuNcrc32 : UInt32 → List UInt8 → ℤ → UInt32
  md5 : ℕ → CcMd5Ctx
  sha : ℕ → RtuSha1Context

variable (stack : RegStack)

/-- A turn of `reg_check`. -/
def regCheckTurn (mykey : List UInt8) (turn : UInt8 × ℕ) : Option (List UInt8) :=
  if turn.2 < 39 ∧ turn.1 < 0x3F then (rtuDesEncrypt mykey regIdLen (regDesKey turn.1)).map Prod.fst
  else if turn.2 < 39 ∧ turn.1 < 0x7F then
    (rtuMd5Pieces stack.rtuCrc32 stack.rtuNcrc32 (stack.md5 turn.2) [mykey]).map fun digest =>
      regDigestText digest regMd5Order
  else some (regDigestText (rtuSha1Pieces (stack.sha turn.2) [mykey]) regShaOrder)

/-- `deskey` behind the turns. -/
def regLastKey : Vector UInt8 8 := #v[0x73, 0x3B, 0x2A, 0x3A, 0x2E, 0x7E, 0x3C, 0x31]

/-- `mykey1` in `reg_check`. -/
def regKeyText (regid : List UInt8) : Option (List UInt8) :=
  (regid.zipIdx.foldlM (regCheckTurn stack) regid).bind fun mykey =>
    (rtuDesEncrypt mykey regIdLen regLastKey).map fun out => out.1.flatMap regHexShort

/-- `reg_check` -/
def regCheck (regid key : List UInt8) : Option Bool :=
  if key = [] then some false else (regKeyText stack regid).map fun mykey1 => decide (mykey1 = key)

end Check


section Texts

/-- Digits are told apart. -/
theorem regHexDigit_inj : ∀ m < 16, ∀ n < 16, regHexDigit m = regHexDigit n → m = n := by decide +kernel

/-- No digit ends a text. -/
theorem regHexDigit_ne_zero : ∀ n < 16, regHexDigit n ≠ 0 := by decide +kernel

/-- Two digits tell a byte. -/
theorem regHexByte_inj {byte byte' : UInt8} (h : regHexByte byte = regHexByte byte') :
    byte = byte' := by
  have hlt := byte.toNat_lt
  have hlt' := byte'.toNat_lt
  obtain ⟨hhigh, hrest⟩ := List.cons_eq_cons.mp h
  obtain ⟨hlow, -⟩ := List.cons_eq_cons.mp hrest
  have hdiv := regHexDigit_inj _ (by omega) _ (by omega) hhigh
  have hmod := regHexDigit_inj _ (by omega) _ (by omega) hlow
  exact UInt8.toNat_inj.mp (by omega)

/-- No byte ends a text. -/
theorem zero_notMem_regHexByte (byte : UInt8) : (0 : UInt8) ∉ regHexByte byte := by
  have hlt := byte.toNat_lt
  intro h
  rcases List.mem_cons.mp h with h | h
  · exact regHexDigit_ne_zero _ (by omega) h.symm
  · exact regHexDigit_ne_zero _ (by omega) (List.mem_singleton.mp h).symm

/-- Eight digits tell a word. -/
theorem regHexWord_inj {word word' : UInt32} (h : regHexWord word = regHexWord word') :
    word = word' := by
  simp only [regHexWord, shaBytes, List.flatMap_cons, List.flatMap_nil, List.append_nil] at h
  obtain ⟨h3, h⟩ := List.append_inj h rfl
  obtain ⟨h2, h⟩ := List.append_inj h rfl
  obtain ⟨h1, h0⟩ := List.append_inj h rfl
  have hlt := uint32Bytes_toNat word
  have hlt' := uint32Bytes_toNat word'
  rw [regHexByte_inj h0, regHexByte_inj h1, regHexByte_inj h2, regHexByte_inj h3, ← hlt'] at hlt
  exact UInt32.toNat_inj.mp hlt

/-- The text has forty bytes. -/
theorem length_regIdText (uuid : Vector UInt32 4) (code : UInt32) :
    (regIdText uuid code).length = 40 := rfl

/-- The text tells the device and the code. -/
theorem regIdText_inj {uuid uuid' : Vector UInt32 4} {code code' : UInt32}
    (h : regIdText uuid code = regIdText uuid' code') : uuid = uuid' ∧ code = code' := by
  obtain ⟨c0, h⟩ := List.append_inj h rfl
  obtain ⟨u0, h⟩ := List.append_inj h rfl
  obtain ⟨c1, h⟩ := List.append_inj h rfl
  obtain ⟨u1, h⟩ := List.append_inj h rfl
  obtain ⟨c2, h⟩ := List.append_inj h rfl
  obtain ⟨u2, h⟩ := List.append_inj h rfl
  obtain ⟨c3, u3⟩ := List.append_inj h rfl
  have hword : ∀ {x y : UInt32}, regHexWord (~~~ x) = regHexWord (~~~ y) → x = y := fun h =>
    UInt32.not_inj.mp (regHexWord_inj h)
  refine ⟨Vector.ext fun i hi => ?_, ?_⟩
  · match i, hi with
    | 0, _ => exact hword u0
    | 1, _ => exact hword u1
    | 2, _ => exact hword u2
    | 3, _ => exact hword u3
  · have hcode := uint32Bytes_toNat code
    have hcode' := uint32Bytes_toNat code'
    have hzero : ∀ x : UInt32, wordByte x 0 = x.toUInt8 := fun x => by
      rw [wordByte, UInt32.shiftRight_zero]
    have hb0 := regHexByte_inj c0
    rw [hzero, hzero] at hb0
    rw [hb0, show (code >>> 8).toUInt8 = _ from regHexByte_inj c1,
      show (code >>> 16).toUInt8 = _ from regHexByte_inj c2,
      show (code >>> 24).toUInt8 = _ from regHexByte_inj c3] at hcode
    exact UInt32.toNat_inj.mp (hcode.trans hcode'.symm)

end Texts

section Forty

/-- Forty bytes go through the encryption and back. -/
theorem rtuDesEncrypt_forty (key : Vector UInt8 8) {data : List UInt8} (h : data.length = 40) :
    ∃ out, rtuDesEncrypt data 40 key = some (out, 0) ∧ out.length = 40 ∧
      rtuDesDecrypt out 40 key = some (data, 0) :=
  desLoop_inverts (desCrypt_reverse (desRounds_desDsk _)) 5 h

/-- Forty bytes go through the decryption and back. -/
theorem rtuDesDecrypt_forty (key : Vector UInt8 8) {data : List UInt8} (h : data.length = 40) :
    ∃ out, rtuDesDecrypt data 40 key = some (out, 0) ∧ out.length = 40 ∧
      rtuDesEncrypt out 40 key = some (data, 0) :=
  desLoop_inverts (desCrypt_reverse (desRounds_reverse_desDsk _)) 5 h

/-- The three stages of the identity, each of which is taken back. -/
theorem regRegetid_stages (uuid : Vector UInt32 4) (code : UInt32) : ∃ first second id,
    regRegetid uuid code = some id ∧ id.length = 40 ∧
      rtuDesDecrypt id 40 regIdKey3 = some (second, 0) ∧
      rtuDesEncrypt second 40 regIdKey2 = some (first, 0) ∧
      rtuDesDecrypt first 40 regIdKey1 = some (regIdText uuid code, 0) := by
  obtain ⟨first, h1, l1, b1⟩ := rtuDesEncrypt_forty regIdKey1 (length_regIdText uuid code)
  obtain ⟨second, h2, l2, b2⟩ := rtuDesDecrypt_forty regIdKey2 l1
  obtain ⟨id, h3, l3, b3⟩ := rtuDesEncrypt_forty regIdKey3 l2
  refine ⟨first, second, id, ?_, l3, b3, b2, b1⟩
  have hforty : ((regIdText uuid code).length : ℤ) = 40 := rfl
  simp only [regRegetid, hforty, h1, h2, h3, Option.bind_some, Option.map_some]

/-- A device always has an identity of forty bytes, and no other device and no other code has it. -/
theorem regRegetid_eq_iff (uuid uuid' : Vector UInt32 4) (code code' : UInt32) :
    (∃ id, regRegetid uuid code = some id ∧ id.length = 40) ∧
      (regRegetid uuid code = regRegetid uuid' code' ↔ uuid = uuid' ∧ code = code') := by
  obtain ⟨first, second, id, hid, hlength, b3, b2, b1⟩ := regRegetid_stages uuid code
  obtain ⟨first', second', id', hid', -, b3', b2', b1'⟩ := regRegetid_stages uuid' code'
  refine ⟨⟨id, hid, hlength⟩, fun h => ?_, fun h => by rw [h.1, h.2]⟩
  rw [hid, hid'] at h
  obtain rfl := Option.some.inj h
  obtain rfl : second = second' := congrArg Prod.fst (Option.some.inj (b3.symm.trans b3'))
  obtain rfl : first = first' := congrArg Prod.fst (Option.some.inj (b2.symm.trans b2'))
  exact regIdText_inj (congrArg Prod.fst (Option.some.inj (b1.symm.trans b1')))

end Forty


section Key

/-- A turn on forty bytes leaves forty bytes, which the stack does not change. -/
theorem regCheckTurn_eq {mykey : List UInt8} (h : mykey.length = 40) (turn : UInt8 × ℕ) :
    ∃ next, next.length = 40 ∧ ∀ stack, regCheckTurn stack mykey turn = some next := by
  by_cases hdes : turn.2 < 39 ∧ turn.1 < 0x3F
  · obtain ⟨out, hout, hlength, -⟩ := rtuDesEncrypt_forty (regDesKey turn.1) h
    have hforty : rtuDesEncrypt mykey regIdLen (regDesKey turn.1) = some (out, 0) := hout
    refine ⟨out, hlength, fun stack => ?_⟩
    rw [regCheckTurn, if_pos hdes, hforty, Option.map_some]
  by_cases hmd5 : turn.2 < 39 ∧ turn.1 < 0x7F
  · refine ⟨regDigestText (md5 mykey) regMd5Order, rfl, fun stack => ?_⟩
    have hpieces : ∀ piece ∈ [mykey], piece.length < 2 ^ 32 := by
      intro piece hpiece
      rw [List.mem_singleton.mp hpiece, h]
      decide
    have hdigest :=
      ccMd5PiecesWith_eq (rtuMd5Transform_eq stack.rtuCrc32 stack.rtuNcrc32) (stack.md5 turn.2)
      hpieces
    rw [List.flatten_singleton] at hdigest
    rw [regCheckTurn, if_neg hdes, if_pos hmd5, rtuMd5Pieces, hdigest, Option.map_some]
  · refine ⟨regDigestText (rtuSha1 mykey) regShaOrder, rfl, fun stack => ?_⟩
    have hholds := @rtuSha1Writes_hold [mykey] [] _ (ShaHolds.nil (stack.sha turn.2))
    rw [List.nil_append, List.flatten_singleton] at hholds
    rw [regCheckTurn, if_neg hdes, if_neg hmd5, rtuSha1Pieces,
      rtuSha1Final_holds hholds (by rw [h]; decide)]

/-- So do all turns. -/
theorem regCheckTurns_eq (turns : List (UInt8 × ℕ)) {mykey : List UInt8} (h : mykey.length = 40) :
    ∃ last, last.length = 40 ∧ ∀ stack, turns.foldlM (regCheckTurn stack) mykey = some last := by
  induction turns generalizing mykey with
  | nil => exact ⟨mykey, h, fun _ => rfl⟩
  | cons turn turns ih =>
    obtain ⟨next, hnext, hturn⟩ := regCheckTurn_eq h turn
    obtain ⟨last, hlast, hrest⟩ := ih hnext
    refine ⟨last, hlast, fun stack => ?_⟩
    rw [List.foldlM_cons, hturn stack]
    exact hrest stack

/-- A byte has one digit or two, none of which ends a text. -/
theorem regHexShort_spec (byte : UInt8) :
    1 ≤ (regHexShort byte).length ∧ (regHexShort byte).length ≤ 2 ∧ (0 : UInt8) ∉ regHexShort byte := by
  rw [regHexShort]
  split
  · next hlt =>
    exact ⟨le_rfl, Nat.le_succ 1, fun h => regHexDigit_ne_zero _ hlt (List.mem_singleton.mp h).symm⟩
  · exact ⟨Nat.le_succ 1, le_rfl, zero_notMem_regHexByte byte⟩

/-- The text of bytes. -/
theorem regHexShorts_spec (bytes : List UInt8) : bytes.length ≤ (bytes.flatMap regHexShort).length ∧
    (bytes.flatMap regHexShort).length ≤ 2 * bytes.length ∧
    (0 : UInt8) ∉ bytes.flatMap regHexShort := by
  induction bytes with
  | nil => exact ⟨le_rfl, le_rfl, List.not_mem_nil⟩
  | cons byte bytes ih =>
    obtain ⟨hone, htwo, hzero⟩ := regHexShort_spec byte
    rw [List.flatMap_cons, List.length_append, List.length_cons]
    refine ⟨by omega, by omega, fun h => ?_⟩
    rcases List.mem_append.mp h with h | h
    · exact hzero h
    · exact ih.2.2 h

/-- The text of the key is a text of forty to eighty digits, which the stack does not change. -/
theorem regKeyText_eq {regid : List UInt8} (h : regid.length = 40) :
    ∃ text, (40 ≤ text.length ∧ text.length ≤ 80) ∧ (0 : UInt8) ∉ text ∧
      ∀ stack, regKeyText stack regid = some text := by
  obtain ⟨mykey, hlength, hturns⟩ := regCheckTurns_eq regid.zipIdx h
  obtain ⟨out, hout, hforty, -⟩ := rtuDesEncrypt_forty regLastKey hlength
  have hencrypt : rtuDesEncrypt mykey regIdLen regLastKey = some (out, 0) := hout
  obtain ⟨hlow, hhigh, hzero⟩ := regHexShorts_spec out
  refine ⟨out.flatMap regHexShort, ⟨by omega, by omega⟩, hzero, fun stack => ?_⟩
  rw [regKeyText, hturns stack, Option.bind_some, hencrypt, Option.map_some]

/-- What is taken for a key when its text is known. -/
theorem regCheck_of_keyText {stack : RegStack} {regid text : List UInt8}
    (htext : regKeyText stack regid = some text) (hlength : 40 ≤ text.length) (key : List UInt8) :
    regCheck stack regid key = some (decide (key = text)) := by
  rw [regCheck]
  split
  · next hnil =>
    have hne : key ≠ text := by
      rintro rfl
      rw [hnil, List.length_nil] at hlength
      omega
    rw [decide_eq_false hne]
  · rw [htext, Option.map_some]
    congr 1
    rw [decide_eq_decide]
    exact eq_comm

/-- There is one key for an identity: a text of forty to eighty characters, whatever lies on the
stack. -/
theorem regCheck_eq {regid : List UInt8} (h : regid.length = 40) :
    ∃ text, (40 ≤ text.length ∧ text.length ≤ 80) ∧ (0 : UInt8) ∉ text ∧
      ∀ stack key, regCheck stack regid key = some (decide (key = text)) := by
  obtain ⟨text, hlength, hzero, htext⟩ := regKeyText_eq h
  exact ⟨text, hlength, hzero, fun stack key => regCheck_of_keyText (htext stack) hlength.1 key⟩

/-- An identity of one letter. -/
theorem regCheck_eq_letter :
    (List.replicate 40 (0x41 : UInt8)).length = 40 ∧
      ∃ text, (40 ≤ text.length ∧ text.length ≤ 80) ∧ (0 : UInt8) ∉ text ∧
        ∀ stack key, regCheck stack (List.replicate 40 0x41) key = some (decide (key = text)) :=
  ⟨List.length_replicate, regCheck_eq List.length_replicate⟩

end Key

end DasEdge.Reg
