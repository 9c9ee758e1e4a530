import DasEdge.Sdccp.Hjt212
import Mathlib.Data.Nat.Find

/-!
# The HJ/T 212 packet parser

`__HJT212_ParsePack` finds the fields of a packet with `strstr` and reads them with `sscanf`. It is
called with a pointer into the receive buffer, so the text that it works on goes on up to the first
null character behind the data segment, wherever that is. A text is the list of its characters; for
the places that are read and written, the memory behind the pointer is a function. What the parser
sends as a reply and posts to the session is left out.
-/

namespace DasEdge.Sdccp

/-- `strstr`: the text from the first occurrence of the key on. -/
def strstr (key : List UInt8) : List UInt8 → Option (List UInt8)
  | [] => if key = [] then some [] else none
  | c :: rest => if key <+: c :: rest then some (c :: rest) else strstr key rest

/-- `sscanf` with a width and a scan set that one character ends. -/
def sscanf (width : ℕ) (stop : UInt8) (text : List UInt8) : List UInt8 :=
  (text.takeWhile (· ≠ stop)).take width

/-- A field that is looked for: its key, and the width of its value. -/
structure Hjt212Key where
  key : List UInt8
  width : ℕ

/-- `QN=` -/
def keyQN : Hjt212Key := ⟨ascii ['Q', 'N', '='], 20⟩

/-- `CN=` -/
def keyCN : Hjt212Key := ⟨ascii ['C', 'N', '='], 7⟩

/-- `ST=` -/
def keyST : Hjt212Key := ⟨ascii ['S', 'T', '='], 5⟩

/-- `PW=` -/
def keyPW : Hjt212Key := ⟨ascii ['P', 'W', '='], 9⟩

/-- `MN=` -/
def keyMN : Hjt212Key := ⟨ascii ['M', 'N', '='], 27⟩

/-- `Flag=` -/
def keyFlag : Hjt212Key := ⟨ascii ['F', 'l', 'a', 'g', '='], 8⟩

/-- `CP=&&` -/
def keyCP : Hjt212Key := ⟨ascii ['C', 'P', '=', '&', '&'], 1024⟩

/-- The fields whose values end at a semicolon. -/
def hjt212Keys : List Hjt212Key := [keyQN, keyCN, keyST, keyPW, keyMN, keyFlag]

/-- The value of a field that ends at a semicolon. -/
def Hjt212Key.value (k : Hjt212Key) (text : List UInt8) : List UInt8 :=
  match strstr k.key text with
  | none => []
  | some p => sscanf k.width 59 (p.drop k.key.length)

/-- `HJT212_Data_t` as the parser fills it in; `cp` is `none` as long as it is null. -/
structure Hjt212Data where
  QN : List UInt8
  CN : List UInt8
  ST : List UInt8
  PW : List UInt8
  MN : List UInt8
  Flag : List UInt8
  cp : Option (List UInt8)
  deriving DecidableEq

/-- The data string. The test on its length subtracts numbers without sign, so it only fails for one
length. -/
def hjt212Cp (text : List UInt8) : Option (List UInt8) :=
  match strstr keyCP.key text with
  | none => none
  | some p => if p.length = 13 then none else some (sscanf keyCP.width 38 (p.drop keyCP.key.length))

/-- The fields that `__HJT212_ParsePack` extracts. -/
def hjt212ParsePack (text : List UInt8) : Hjt212Data where
  QN := keyQN.value text
  CN := keyCN.value text
  ST := keyST.value text
  PW := keyPW.value text
  MN := keyMN.value text
  Flag := keyFlag.value text
  cp := hjt212Cp text

/-- A text in an array of `size` characters that was filled with null characters. -/
def padded (size : ℕ) (text : List UInt8) : List UInt8 := text ++ List.replicate (size - text.length) 0

/-- The password is accepted. -/
def Hjt212Data.passwordAccepted (szPW : List UInt8) (xData : Hjt212Data) : Bool :=
  strncmpEqual (padded 10 szPW) (padded 10 xData.PW)

/-! ### What the parser reads and writes -/

/-- The key stands at a place. -/
def KeyAt (s : ℕ → UInt8) (key : List UInt8) (p : ℕ) : Prop :=
  ∀ j (h : j < key.length), s (p + j) = key[j]

/-- `strstr` finds the key at a place. -/
def StrstrAt (s : ℕ → UInt8) (key : List UInt8) (p : ℕ) : Prop :=
  KeyAt s key p ∧ (∀ j < p + key.length, s j ≠ 0) ∧ ∀ q < p, ¬ KeyAt s key q

/-- `strstr` reads a place: no null character and no whole key come before it. -/
def StrstrReads (s : ℕ → UInt8) (key : List UInt8) (i : ℕ) : Prop :=
  (∀ j < i, s j ≠ 0) ∧ ∀ p < i + 1, KeyAt s key p → i < p + key.length

/-- `strlen` reads a place. -/
def StrlenReads (s : ℕ → UInt8) (i : ℕ) : Prop := ∀ j < i, s j ≠ 0

/-- `sscanf` takes the characters before a place. -/
def SscanfTakes (s : ℕ → UInt8) (width : ℕ) (stop : UInt8) (i : ℕ) : Prop :=
  i ≤ width ∧ ∀ j < i, s j ≠ 0 ∧ s j ≠ stop

/-- `sscanf` reads a place. -/
def SscanfReads (s : ℕ → UInt8) (width : ℕ) (stop : UInt8) (i : ℕ) : Prop :=
  SscanfTakes s width stop i ∧ i < width

/-- `sscanf` writes a place of the array: the characters that it takes, and a null character behind
them. -/
def SscanfWrites (s : ℕ → UInt8) (width : ℕ) (stop : UInt8) (i : ℕ) : Prop :=
  SscanfTakes s width stop i ∧ SscanfTakes s width stop 1

/-- The memory from a place on. -/
def memFrom (s : ℕ → UInt8) (p : ℕ) : ℕ → UInt8 := fun i => s (p + i)

/-- The length of the text at a place is the one that the test on the data string excludes. -/
def StrlenThirteen (s : ℕ → UInt8) : Prop := s 13 = 0 ∧ StrlenReads s 13

/-- `__HJT212_ParsePack` reads a place behind its pointer. -/
def ParsePackReads (pData : ℕ → UInt8) (i : ℕ) : Prop :=
  (∃ k ∈ hjt212Keys, StrstrReads pData k.key i ∨
    ∃ p ≤ i, StrstrAt pData k.key p ∧ ∃ j ≤ i, i = p + k.key.length + j ∧
      SscanfReads (memFrom pData (p + k.key.length)) k.width 59 j) ∨
  StrstrReads pData keyCP.key i ∨
  ∃ p ≤ i, StrstrAt pData keyCP.key p ∧
    (StrlenReads (memFrom pData p) (i - p) ∨ ¬ StrlenThirteen (memFrom pData p) ∧
    ∃ j ≤ i, i = p + keyCP.key.length + j ∧
      SscanfReads (memFrom pData (p + keyCP.key.length)) keyCP.width 38 j)

/-- `__HJT212_ParsePack` writes a place of an array of the given size: the array of a field, or the
copy of the data string, which has the size of the text from the key on. -/
def ParsePackWrites (pData : ℕ → UInt8) (size i : ℕ) : Prop :=
  (∃ k ∈ hjt212Keys, size = k.width + 1 ∧ ∃ p, StrstrAt pData k.key p ∧
    SscanfWrites (memFrom pData (p + k.key.length)) k.width 59 i) ∨
  ∃ p, StrstrAt pData keyCP.key p ∧ ¬ StrlenThirteen (memFrom pData p) ∧
    (memFrom pData p size = 0 ∧ StrlenReads (memFrom pData p) size) ∧
    SscanfWrites (memFrom pData (p + keyCP.key.length)) keyCP.width 38 i

/-- No null character comes before a place that `sscanf` gets to behind a key. -/
theorem noNull_behind {s : ℕ → UInt8} {key : List UInt8} {p width j : ℕ} {stop : UInt8}
    (hat : StrstrAt s key p)
    (htakes : SscanfTakes (memFrom s (p + key.length)) width stop j) :
    ∀ q < p + key.length + j, s q ≠ 0 := by
  intro q hq
  rcases Nat.lt_or_ge q (p + key.length) with hlt | hge
  · exact hat.2.1 q hlt
  · have htake := (htakes.2 (q - (p + key.length)) (by omega)).1
    rwa [memFrom, Nat.add_sub_cancel' hge] at htake

/-- What the parser reads, taken together, goes up to the first null character: the search for the data
string or the length of the text from it on reads everything up to there. -/
theorem parsePackReads_iff (pData : ℕ → UInt8) (i : ℕ) : ParsePackReads pData i ↔
    ∀ j < i, pData j ≠ 0 := by
  constructor
  · rintro (⟨k, -, hstrstr | ⟨p, -, hat, j, -, rfl, hreads⟩⟩ | hstrstr | ⟨p, hp, hat,
      hreads | ⟨-, j, -, rfl, hreads⟩⟩)
    · exact hstrstr.1
    · exact noNull_behind hat hreads.1
    · exact hstrstr.1
    · intro j hj
      rcases Nat.lt_or_ge j p with hlt | hge
      · exact hat.2.1 j (by omega)
      · have hread := hreads (j - p) (by omega)
        rwa [memFrom, Nat.add_sub_cancel' hge] at hread
    · exact noNull_behind hat hreads.1
  · intro hnull
    right
    by_cases hfound : ∃ p, p + keyCP.key.length ≤ i ∧ KeyAt pData keyCP.key p
    · right
      classical
      have hleast := Nat.find_spec hfound
      refine ⟨Nat.find hfound, by omega,
        ⟨hleast.2, fun j hj => hnull j (by omega), fun q hq hkey => ?_⟩, .inl ?_⟩
      · exact Nat.find_min hfound hq ⟨by omega, hkey⟩
      · intro j hj
        exact hnull _ (by omega)
    · left
      refine ⟨hnull, fun p _ hkey => ?_⟩
      by_contra hle
      exact hfound ⟨p, by omega, hkey⟩

end DasEdge.Sdccp
