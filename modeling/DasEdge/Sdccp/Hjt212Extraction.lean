import DasEdge.Sdccp.Hjt212Parse
import Mathlib.Data.List.TakeWhile

/-!
# The fields of an encoded HJ/T 212 packet

What `__HJT212_ParsePack` extracts from the data segment that `Hjt212Encode` built, with whatever text
lies behind it in the receive buffer. A field that was encoded is found at its own place, because no
value in front of it has an equals sign. A field that was not encoded is looked for in the data string,
too, and behind the segment.
-/

namespace DasEdge.Sdccp

section Search

variable {key : List UInt8}

/-- A text that starts with the key. -/
theorem strstr_self (hne : key ≠ []) (rest : List UInt8) :
    strstr key (key ++ rest) = some (key ++ rest) := by
  cases key with
  | nil => exact absurd rfl hne
  | cons c key => rw [List.cons_append, strstr, if_pos ⟨rest, rfl⟩]

/-- A part of a text in which no occurrence of the key starts. -/
theorem strstr_skip {part rest : List UInt8}
    (h : ∀ i < part.length, ¬ key <+: part.drop i ++ rest) :
    strstr key (part ++ rest) = strstr key rest := by
  induction part with
  | nil => rfl
  | cons c part ih =>
    have hstart : ¬ key <+: c :: (part ++ rest) := h 0 (Nat.succ_pos _)
    rw [List.cons_append, strstr, if_neg hstart]
    exact ih fun i hi => h (i + 1) (Nat.succ_lt_succ hi)

/-- The key is kept apart from a name: from no place of the name on does one of them start with the
other. -/
def KeptApart (key name : List UInt8) : Prop :=
  ∀ i < name.length, ¬ name.drop i <+: key ∧ ¬ key <+: name.drop i

instance decidableKeptApart (key name : List UInt8) : Decidable (KeptApart key name) :=
  inferInstanceAs (Decidable (∀ i < name.length, ¬ name.drop i <+: key ∧ ¬ key <+: name.drop i))

/-- No occurrence of the key starts in a name that it is kept apart from. -/
theorem strstr_name {name : List UInt8} (h : KeptApart key name) (rest : List UInt8) :
    strstr key (name ++ rest) = strstr key rest := by
  refine strstr_skip fun i hi hstart => ?_
  obtain ⟨hshort, hlong⟩ := h i hi
  rcases List.prefix_or_prefix_of_prefix hstart (List.prefix_append (name.drop i) rest) with
    hkey | hname
  · exact hlong hkey
  · exact hshort hname

/-- No occurrence of the key starts in a value without one, or in the semicolon behind it. -/
theorem strstr_value {value : List UInt8} (hsemicolon : 59 ∉ key) (h : ∀ i, ¬ key <+: value.drop i)
    (rest : List UInt8) : strstr key (value ++ ([59] ++ rest)) = strstr key rest := by
  rw [← List.append_assoc]
  refine strstr_skip fun i hi hstart => ?_
  rw [List.length_append, List.length_singleton] at hi
  rw [List.drop_append_of_le_length (by omega)] at hstart
  rcases List.prefix_or_prefix_of_prefix hstart (List.prefix_append _ rest) with hkey | hkey
  · rcases List.prefix_concat_iff.mp hkey with heq | hvalue
    · exact hsemicolon (heq ▸ List.mem_append_right _ (List.mem_singleton_self 59))
    · exact h i hvalue
  · exact hsemicolon (hkey.subset (List.mem_append_right _ (List.mem_singleton_self 59)))

end Search

section Values

/-- A value of a header field: it is not empty, fits the field, and has none of the characters that the
segment is made of. -/
structure HeaderValue (width : ℕ) where
  text : List UInt8
  ne_nil : text ≠ []
  length_le : text.length ≤ width
  plain : ∀ c ∈ text, c ≠ 0 ∧ c ≠ 59 ∧ c ≠ 38 ∧ c ≠ 61

/-- A data string. -/
structure CpText where
  text : List UInt8
  ne_nil : text ≠ []
  length_le : text.length ≤ keyCP.width
  plain : ∀ c ∈ text, c ≠ 0 ∧ c ≠ 38

/-- What is encoded: optional header fields, an optional flag of one character, and an optional data
string. -/
structure Hjt212Message where
  QN : Option (HeaderValue keyQN.width) := none
  ST : Option (HeaderValue keyST.width) := none
  CN : Option (HeaderValue keyCN.width) := none
  PW : Option (HeaderValue keyPW.width) := none
  MN : Option (HeaderValue keyMN.width) := none
  Flag : Option {c : UInt8 // c ≠ 0} := none
  CP : Option CpText := none

/-- The arguments of the encoder. -/
def Hjt212Message.fields (m : Hjt212Message) : Hjt212Fields where
  QN := m.QN.map (·.text)
  ST := m.ST.map (·.text)
  CN := m.CN.map (·.text)
  PW := m.PW.map (·.text)
  MN := m.MN.map (·.text)
  Flag := m.Flag.map fun c => [c.1]
  CP := m.CP.map (·.text)

/-- The same fields as the parser fills them in, empty where nothing was encoded. -/
def Hjt212Message.data (m : Hjt212Message) : Hjt212Data where
  QN := (m.QN.map (·.text)).getD []
  CN := (m.CN.map (·.text)).getD []
  ST := (m.ST.map (·.text)).getD []
  PW := (m.PW.map (·.text)).getD []
  MN := (m.MN.map (·.text)).getD []
  Flag := (m.Flag.map fun c => [c.1]).getD []
  cp := m.CP.map (·.text)

/-- The data string with what is around it. -/
def Hjt212Message.cpGroup (m : Hjt212Message) : List UInt8 :=
  encodeGroup keyCP.key id (ascii ['&', '&']) (m.CP.map (·.text))

/-- The text gives no value for a key: where the key stands first, if it does, its value is empty. -/
def Hjt212Key.Unread (k : Hjt212Key) (text : List UInt8) : Prop :=
  ∀ p, strstr k.key text = some p → (p.drop k.key.length).head? = none ∨
    (p.drop k.key.length).head? = some 59

/-- Nothing comes between an encoded message and the parser. -/
structure Hjt212Message.Extracts (m : Hjt212Message) (behind : List UInt8) : Prop where
  QN : m.QN = none → keyQN.Unread (m.cpGroup ++ behind)
  ST : m.ST = none → keyST.Unread (m.cpGroup ++ behind)
  CN : m.CN = none → keyCN.Unread (m.cpGroup ++ behind)
  PW : m.PW = none → keyPW.Unread (m.cpGroup ++ behind)
  MN : m.MN = none → keyMN.Unread (m.cpGroup ++ behind)
  Flag : m.Flag = none → keyFlag.Unread (m.cpGroup ++ behind)
  semicolon : ∀ c ∈ m.Flag, c.1 ≠ 59
  CP : m.CP = none → ∀ p, strstr keyCP.key behind = some p → p.length = 13
  length : ∀ cp ∈ m.CP, cp.text.length + behind.length ≠ 6

/-- The group of a header field. -/
def headerGroup (k : Hjt212Key) (value : Option (HeaderValue k.width)) : List UInt8 :=
  encodeGroup k.key id (ascii [';']) (value.map (·.text))

/-- The group of the flag. -/
def flagGroup (flag : Option {c : UInt8 // c ≠ 0}) : List UInt8 :=
  encodeGroup keyFlag.key id (ascii [';']) (flag.map fun c => [c.1])

/-- A text without a null character is a whole string. -/
theorem cString_eq {text : List UInt8} (h : ∀ c ∈ text, c ≠ 0) : cString text = text :=
  List.takeWhile_eq_self_iff.mpr fun c hc => decide_eq_true (h c hc)

/-- A value is encoded whole. -/
theorem encodeGroup_header (k : Hjt212Key) (value : Option (HeaderValue k.width)) :
    encodeGroup k.key (fun s => (cString s).take k.width) (ascii [';']) (value.map (·.text)) =
      headerGroup k value := by
  cases value with
  | none => rfl
  | some v =>
    have htext : (cString v.text).take k.width = v.text := by
      rw [cString_eq fun c hc => (v.plain c hc).1, List.take_of_length_le v.length_le]
    exact congrArg (fun text => k.key ++ text ++ ascii [';']) htext

/-- The data segment of a message. -/
theorem hjt212DataSegment_eq (m : Hjt212Message) :
    hjt212DataSegment m.fields = headerGroup keyQN m.QN ++ (headerGroup keyST m.ST ++
      (headerGroup keyCN m.CN ++ (headerGroup keyPW m.PW ++ (headerGroup keyMN m.MN ++
        (flagGroup m.Flag ++ m.cpGroup))))) := by
  have hflag : encodeGroup keyFlag.key (fun s => [s.headD 0]) (ascii [';']) m.fields.Flag =
      flagGroup m.Flag := by
    rw [Hjt212Message.fields, flagGroup]
    cases m.Flag with
    | none => rfl
    | some c => rfl
  have hcp : encodeGroup keyCP.key cString (ascii ['&', '&']) m.fields.CP = m.cpGroup := by
    rw [Hjt212Message.fields, Hjt212Message.cpGroup]
    cases m.CP with
    | none => rfl
    | some cp =>
      exact congrArg (fun text => keyCP.key ++ text ++ ascii ['&', '&'])
        (cString_eq fun c hc => (cp.plain c hc).1)
  rw [← encodeGroup_header, ← encodeGroup_header, ← encodeGroup_header, ← encodeGroup_header,
    ← encodeGroup_header, ← hflag, ← hcp]
  rfl

/-- A key that is no part of a value. -/
structure Searched (key : List UInt8) : Prop where
  equals : 61 ∈ key
  semicolon : 59 ∉ key
  long : 2 ≤ key.length

variable {key : List UInt8} {k : Hjt212Key}

/-- The group of another field is passed over. -/
theorem strstr_headerGroup (hkey : Searched key) (hapart : KeptApart key k.key)
    (value : Option (HeaderValue k.width)) (rest : List UInt8) :
    strstr key (headerGroup k value ++ rest) = strstr key rest := by
  cases value with
  | none => rfl
  | some v =>
    have hfree : ∀ i, ¬ key <+: v.text.drop i := fun i hstart =>
      (v.plain 61 (List.mem_of_mem_drop (hstart.subset hkey.equals))).2.2.2 rfl
    calc
      strstr key (headerGroup k (some v) ++ rest) =
        strstr key (k.key ++ (v.text ++ ([59] ++ rest))) := by
        simp only [headerGroup, encodeGroup, Option.map_some, id, List.append_assoc]
        rfl
      _ = strstr key rest := by rw [strstr_name hapart, strstr_value hkey.semicolon hfree]

/-- The flag is passed over. -/
theorem strstr_flagGroup (hkey : Searched key) (hapart : KeptApart key keyFlag.key)
    (flag : Option {c : UInt8 // c ≠ 0}) (rest : List UInt8) :
    strstr key (flagGroup flag ++ rest) = strstr key rest := by
  cases flag with
  | none => rfl
  | some c =>
    have hfree : ∀ i, ¬ key <+: [c.1].drop i := by
      intro i hstart
      have hlength := hstart.length_le
      have hlong := hkey.long
      rw [List.length_drop, List.length_singleton] at hlength
      omega
    calc
      strstr key (flagGroup (some c) ++ rest) =
        strstr key (keyFlag.key ++ ([c.1] ++ ([59] ++ rest))) := by
        simp only [flagGroup, encodeGroup, Option.map_some, id, List.append_assoc]
        rfl
      _ = strstr key rest := by rw [strstr_name hapart, strstr_value hkey.semicolon hfree]

/-- What is read behind the key. -/
theorem value_self (k : Hjt212Key) (hne : k.key ≠ []) (text : List UInt8) :
    k.value (k.key ++ text) = sscanf k.width 59 text := by
  rw [Hjt212Key.value, strstr_self hne]
  simp only [List.drop_left]

/-- A value is read up to the semicolon. -/
theorem sscanf_value {width : ℕ} {value : List UInt8} (hlength : value.length ≤ width)
    {stop : UInt8} (hplain : ∀ c ∈ value, c ≠ stop) (rest : List UInt8) :
    sscanf width stop (value ++ stop :: rest) = value := by
  rw [sscanf, List.takeWhile_append_of_pos fun c hc => decide_eq_true (hplain c hc),
    List.takeWhile_cons_of_neg (by simp), List.append_nil, List.take_of_length_le hlength]

/-- Nothing is read exactly where the key gives no value. -/
theorem value_eq_nil_iff (hwidth : 0 < k.width) (text : List UInt8) :
    k.value text = [] ↔ k.Unread text := by
  rw [Hjt212Key.value, Hjt212Key.Unread]
  cases hsearch : strstr k.key text with
  | none => exact ⟨fun _ p hp => absurd hp (Option.some_ne_none p).symm, fun _ => rfl⟩
  | some p =>
    simp only [Option.some.injEq, forall_eq', sscanf, List.take_eq_nil_iff,
      Nat.ne_of_gt hwidth, false_or]
    cases p.drop k.key.length with
    | nil => simp
    | cons c rest => simp [List.takeWhile_cons]

/-- Texts in which a key is found alike give the same value. -/
theorem value_congr {text rest : List UInt8} (h : strstr k.key text = strstr k.key rest) :
    k.value text = k.value rest := by
  rw [Hjt212Key.value, h, Hjt212Key.value]

/-- What is read of a header field from its own group on. -/
theorem value_headerGroup_iff (hne : k.key ≠ []) (hwidth : 0 < k.width)
    (value : Option (HeaderValue k.width)) {text rest : List UInt8}
    (hrest : strstr k.key text = strstr k.key rest) :
    k.value (headerGroup k value ++ text) = (value.map (·.text)).getD [] ↔
      (value = none → k.Unread rest) := by
  cases value with
  | none =>
    rw [headerGroup, Option.map_none, encodeGroup, List.nil_append, Option.getD_none, value_congr hrest,
      value_eq_nil_iff hwidth]
    exact ⟨fun h _ => h, fun h => h rfl⟩
  | some v =>
    refine ⟨fun _ h => absurd h (Option.some_ne_none v), fun _ => ?_⟩
    have hgroup : headerGroup k (some v) ++ text = k.key ++ (v.text ++ 59 :: text) := by
      simp only [headerGroup, encodeGroup, Option.map_some, id, List.append_assoc]
      rfl
    rw [hgroup, value_self k hne, sscanf_value v.length_le fun c hc => (v.plain c hc).2.1]
    rfl

/-- What is read of the flag from its own group on. -/
theorem value_flagGroup_iff (flag : Option {c : UInt8 // c ≠ 0}) (text : List UInt8) :
    keyFlag.value (flagGroup flag ++ text) = (flag.map fun c => [c.1]).getD [] ↔
      (flag = none → keyFlag.Unread text) ∧ ∀ c ∈ flag, c.1 ≠ 59 := by
  cases flag with
  | none =>
    rw [flagGroup, Option.map_none, encodeGroup, List.nil_append, Option.getD_none,
      value_eq_nil_iff (by decide)]
    exact ⟨fun h => ⟨fun _ => h, fun c hc => absurd hc (Option.not_mem_none c)⟩, fun h => h.1 rfl⟩
  | some c =>
    have hgroup : flagGroup (some c) ++ text = keyFlag.key ++ ([c.1] ++ 59 :: text) := by
      simp only [flagGroup, encodeGroup, Option.map_some, id, List.append_assoc]
      rfl
    rw [hgroup, value_self keyFlag (by decide), Option.map_some, Option.getD_some]
    refine ⟨fun h => ⟨fun hnone => absurd hnone (Option.some_ne_none c), ?_⟩, fun h => ?_⟩
    · rintro _ ⟨⟩ hc
      rw [hc] at h
      simp [sscanf] at h
    · refine sscanf_value (Nat.succ_le_succ (Nat.zero_le 7)) (fun d hd => ?_) text
      rw [List.mem_singleton.mp hd]
      exact h.2 c rfl

/-- What is read of the data string. -/
theorem hjt212Cp_iff (m : Hjt212Message) (behind : List UInt8) :
    hjt212Cp (m.cpGroup ++ behind) = m.CP.map (·.text) ↔
      (m.CP = none → ∀ p, strstr keyCP.key behind = some p → p.length = 13) ∧
        ∀ cp ∈ m.CP, cp.text.length + behind.length ≠ 6 := by
  rw [hjt212Cp, Hjt212Message.cpGroup]
  cases m.CP with
  | none =>
    rw [Option.map_none, encodeGroup, List.nil_append]
    cases strstr keyCP.key behind with
    | none => simp
    | some p => simp
  | some cp =>
    have hgroup : encodeGroup keyCP.key id (ascii ['&', '&']) (some cp.text) ++ behind =
        keyCP.key ++ (cp.text ++ 38 :: (38 :: behind)) := by
      simp only [encodeGroup, id, List.append_assoc]
      rfl
    have hlength : (keyCP.key ++ (cp.text ++ 38 :: (38 :: behind))).length =
        7 + cp.text.length + behind.length := by
      simp only [List.length_append, List.length_cons, show keyCP.key.length = 5 from rfl]
      omega
    rw [Option.map_some, hgroup, strstr_self (by decide)]
    simp only [hlength, List.drop_left, sscanf_value cp.length_le fun c hc => (cp.plain c hc).2]
    by_cases hsix : cp.text.length + behind.length = 6
    · rw [if_pos (by omega)]
      simp [hsix]
    · rw [if_neg (by omega)]
      simp [hsix]

end Values

section RoundTrip

/-- The keys can be searched for. -/
theorem searched_of_mem {k : Hjt212Key} (hk : k ∈ keyCP :: hjt212Keys) : Searched k.key := by
  simp only [hjt212Keys, List.mem_cons, List.not_mem_nil, or_false] at hk
  rcases hk with rfl | rfl | rfl | rfl | rfl | rfl | rfl <;> exact ⟨by decide, by decide, by decide⟩

/-- Every key is kept apart from those of other fields. -/
theorem keptApart_of_ne : ∀ k ∈ keyCP :: hjt212Keys, ∀ k' ∈ hjt212Keys, k.key ≠ k'.key →
    KeptApart k.key k'.key := by
  decide

/-- A key is not found in the group of another header field. -/
theorem strstr_otherGroup {k k' : Hjt212Key} (hk : k ∈ keyCP :: hjt212Keys) (hk' : k' ∈ hjt212Keys)
    (hne : k.key ≠ k'.key) (value : Option (HeaderValue k'.width)) (rest : List UInt8) :
    strstr k.key (headerGroup k' value ++ rest) = strstr k.key rest :=
  strstr_headerGroup (searched_of_mem hk) (keptApart_of_ne k hk k' hk' hne) value rest

/-- The header groups of a segment. -/
abbrev HeaderGroups : Type := List ((k : Hjt212Key) × Option (HeaderValue k.width))

/-- The text of header groups. -/
def groupsText (groups : HeaderGroups) : List UInt8 :=
  (groups.map fun g => headerGroup g.1 g.2).flatten

/-- A text begins with its first group. -/
theorem groupsText_cons (g : (k : Hjt212Key) × Option (HeaderValue k.width)) (groups : HeaderGroups)
    (rest : List UInt8) :
    groupsText (g :: groups) ++ rest = headerGroup g.1 g.2 ++ (groupsText groups ++ rest) := by
  rw [groupsText, List.map_cons, List.flatten_cons, List.append_assoc, groupsText]

/-- A key is not found in the groups of other header fields. -/
theorem strstr_groups {k : Hjt212Key} (hk : k ∈ keyCP :: hjt212Keys) {groups : HeaderGroups}
    (hother : ∀ g ∈ groups, g.1 ∈ hjt212Keys ∧ k.key ≠ g.1.key) (rest : List UInt8) :
    strstr k.key (groupsText groups ++ rest) = strstr k.key rest := by
  induction groups with
  | nil => rfl
  | cons g groups ih =>
    obtain ⟨hmem, hne⟩ := hother g List.mem_cons_self
    rw [groupsText_cons, strstr_otherGroup hk hmem hne,
      ih fun g' hg' => hother g' (List.mem_cons_of_mem g hg')]

/-- What is read of a header field that has its group among those of other fields. -/
theorem value_groups_iff {k : Hjt212Key} {value : Option (HeaderValue k.width)} {groups : HeaderGroups}
    (hkeys : ∀ g ∈ groups, g.1 ∈ hjt212Keys) (hnodup : (groups.map (·.1.key)).Nodup)
    (hmem : ⟨k, value⟩ ∈ groups) {text rest : List UInt8}
    (hrest : strstr k.key text = strstr k.key rest) :
    k.value (groupsText groups ++ text) = (value.map (·.text)).getD [] ↔
      (value = none → k.Unread rest) := by
  have hk : k ∈ hjt212Keys := hkeys _ hmem
  have hwide : k.key ≠ [] ∧ 0 < k.width := by
    simp only [hjt212Keys, List.mem_cons, List.not_mem_nil, or_false] at hk
    rcases hk with rfl | rfl | rfl | rfl | rfl | rfl <;> exact ⟨by decide, by decide⟩
  induction groups with
  | nil => cases hmem
  | cons g groups ih =>
    rw [List.map_cons, List.nodup_cons] at hnodup
    have hapart : ∀ g' ∈ groups, g.1.key ≠ g'.1.key := fun g' hg' heq =>
      hnodup.1 (List.mem_map.mpr ⟨g', hg', heq.symm⟩)
    have hkeys' : ∀ g' ∈ groups, g'.1 ∈ hjt212Keys := fun g' hg' =>
      hkeys g' (List.mem_cons_of_mem g hg')
    rw [groupsText_cons]
    rcases List.mem_cons.mp hmem with rfl | hbehind
    · refine value_headerGroup_iff hwide.1 hwide.2 value ?_
      have hothers : ∀ g' ∈ groups, g'.1 ∈ hjt212Keys ∧ k.key ≠ g'.1.key := fun g' hg' =>
        ⟨hkeys' g' hg', hapart g' hg'⟩
      rw [strstr_groups (List.mem_cons_of_mem _ hk) hothers, hrest]
    · have hfirst : g.1 ∈ hjt212Keys := hkeys g List.mem_cons_self
      rw [value_congr (strstr_otherGroup (List.mem_cons_of_mem _ hk) hfirst
        (hapart ⟨k, value⟩ hbehind).symm g.2 _)]
      exact ih hkeys' hnodup.2 hbehind

/-- The header groups of a message. -/
def Hjt212Message.groups (m : Hjt212Message) : HeaderGroups :=
  [⟨keyQN, m.QN⟩, ⟨keyST, m.ST⟩, ⟨keyCN, m.CN⟩, ⟨keyPW, m.PW⟩, ⟨keyMN, m.MN⟩]

/-- The keys of the header groups are those of the header fields, each once, and none is that of the
flag or of the data string. -/
theorem groups_keys (m : Hjt212Message) :
    (∀ g ∈ m.groups, g.1 ∈ hjt212Keys ∧ keyFlag.key ≠ g.1.key ∧ keyCP.key ≠ g.1.key) ∧
      (m.groups.map (·.1.key)).Nodup := by
  have hmap : m.groups.map (·.1.key) = [keyQN.key, keyST.key, keyCN.key, keyPW.key, keyMN.key] := rfl
  refine ⟨fun g hg => ?_, hmap ▸ by decide⟩
  simp only [Hjt212Message.groups, List.mem_cons, List.not_mem_nil, or_false] at hg
  rcases hg with rfl | rfl | rfl | rfl | rfl <;>
    exact ⟨by simp [hjt212Keys], by simp only; decide, by simp only; decide⟩

/-- The parser gives back what was encoded exactly when nothing in the data string or behind the segment
is taken for a field that was not encoded, the flag is no semicolon, and the text from the data string
on is not of the one length that the parser rejects. -/
theorem hjt212_extraction_iff (m : Hjt212Message) (behind : List UInt8) :
    hjt212ParsePack (hjt212DataSegment m.fields ++ behind) = m.data ↔ m.Extracts behind := by
  obtain ⟨hkeys, hnodup⟩ := groups_keys m
  have htext : hjt212DataSegment m.fields ++ behind =
      groupsText m.groups ++ (flagGroup m.Flag ++ (m.cpGroup ++ behind)) := by
    rw [hjt212DataSegment_eq]
    simp only [groupsText, Hjt212Message.groups, List.map_cons, List.map_nil, List.flatten_cons,
      List.flatten_nil, List.append_assoc, List.nil_append]
  have hflag : keyFlag ∈ hjt212Keys := by simp [hjt212Keys]
  have hskip {k : Hjt212Key} (hk : k ∈ keyCP :: hjt212Keys) (hne : k.key ≠ keyFlag.key) :
      strstr k.key (flagGroup m.Flag ++ (m.cpGroup ++ behind)) =
        strstr k.key (m.cpGroup ++ behind) :=
    strstr_flagGroup (searched_of_mem hk) (keptApart_of_ne k hk keyFlag hflag hne) m.Flag _
  have hheader {k : Hjt212Key} {value : Option (HeaderValue k.width)}
      (hmem : ⟨k, value⟩ ∈ m.groups) :
      k.value (hjt212DataSegment m.fields ++ behind) = (value.map (·.text)).getD [] ↔
        (value = none → k.Unread (m.cpGroup ++ behind)) := by
    obtain ⟨hk, hne, -⟩ := hkeys _ hmem
    rw [htext]
    exact value_groups_iff (fun g hg => (hkeys g hg).1) hnodup hmem
      (hskip (List.mem_cons_of_mem _ hk) hne.symm)
  have hf : keyFlag.value (hjt212DataSegment m.fields ++ behind) =
      (m.Flag.map fun c => [c.1]).getD [] ↔
      (m.Flag = none → keyFlag.Unread (m.cpGroup ++ behind)) ∧ ∀ c ∈ m.Flag, c.1 ≠ 59 := by
    rw [htext, value_congr (strstr_groups (List.mem_cons_of_mem _ hflag)
      (fun g hg => ⟨(hkeys g hg).1, (hkeys g hg).2.1⟩) _)]
    exact value_flagGroup_iff m.Flag (m.cpGroup ++ behind)
  have hcp : hjt212Cp (hjt212DataSegment m.fields ++ behind) = hjt212Cp (m.cpGroup ++ behind) := by
    have hothers : ∀ g ∈ m.groups, g.1 ∈ hjt212Keys ∧ keyCP.key ≠ g.1.key := fun g hg =>
      ⟨(hkeys g hg).1, (hkeys g hg).2.2⟩
    rw [hjt212Cp, htext, strstr_groups List.mem_cons_self hothers,
      hskip List.mem_cons_self (by decide), hjt212Cp]
  have hQN := @hheader keyQN m.QN (by simp [Hjt212Message.groups])
  have hST := @hheader keyST m.ST (by simp [Hjt212Message.groups])
  have hCN := @hheader keyCN m.CN (by simp [Hjt212Message.groups])
  have hPW := @hheader keyPW m.PW (by simp [Hjt212Message.groups])
  have hMN := @hheader keyMN m.MN (by simp [Hjt212Message.groups])
  rw [hjt212ParsePack, Hjt212Message.data, Hjt212Data.mk.injEq, hQN, hCN, hST, hPW, hMN, hf, hcp,
    hjt212Cp_iff]
  constructor
  · rintro ⟨hQN, hCN, hST, hPW, hMN, ⟨hFlag, hsemicolon⟩, hCP, hlength⟩
    exact ⟨hQN, hST, hCN, hPW, hMN, hFlag, hsemicolon, hCP, hlength⟩
  · rintro ⟨hQN, hST, hCN, hPW, hMN, hFlag, hsemicolon, hCP, hlength⟩
    exact ⟨hQN, hCN, hST, hPW, hMN, ⟨hFlag, hsemicolon⟩, hCP, hlength⟩

/-- The data string `BOST=5`. -/
def boostText : CpText := ⟨[66, 79, 83, 84, 61, 53], by simp, by decide, by simp⟩

/-- A name in the data string that ends with the name of a field is taken for the field. -/
theorem hjt212_extraction_changes :
    ¬ ∀ m : Hjt212Message, hjt212ParsePack (hjt212DataSegment m.fields ++
      ascii ['0', '0', '0', '0', '\r', '\n']) = m.data := by
  intro h
  have hcp := h { CP := some boostText }
  exact absurd (congrArg Hjt212Data.ST hcp) (by decide)

end RoundTrip

end DasEdge.Sdccp
