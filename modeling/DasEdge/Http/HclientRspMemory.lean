import DasEdge.Http.HclientRsp
import DasEdge.Library.BoundedReads

/-!
# Parsing a response in place

`hclient_rsp_parse` of `httpclient.c`, read by read and write by write, in the bytes of the first read
of `hclient_download_data` and their null character. A read or a write elsewhere, or one through a null
pointer, does not return. It does in memory what the parser of texts says, and so it fails exactly
when a text has a space behind the version and none behind the code.
-/

namespace DasEdge.Http

open DasEdge.Library

/-- `strncasecmp(p, t, strlen(t)) == 0` -/
def strBeginWithAt (mem : List UInt8) : List UInt8 → ℕ → Option Bool
  | [], _ => some true
  | c :: t, p => mem[p]?.bind fun d =>
    if toLower d = toLower c then strBeginWithAt mem t (p + 1) else some false

/-- `strchr(p, c)` -/
def strchrAt (mem : List UInt8) (c : UInt8) (p : ℕ) : Option (Option ℕ) :=
  (scanWhile 0 mem (· ≠ c) mem.length p).bind fun q =>
    mem[q]?.map fun d => if d = c then some q else none

/-- `strstr(p, "\r\n")` -/
def strstrCrlfAt (mem : List UInt8) : ℕ → ℕ → Option (Option ℕ)
  | 0, _ => none
  | fuel + 1, p => mem[p]?.bind fun c =>
    if c = 0 then some none
    else if c = 13 then
      mem[p + 1]?.bind fun d => if d = 10 then some (some p) else strstrCrlfAt mem fuel (p + 1)
    else strstrCrlfAt mem fuel (p + 1)

/-- `*ch++ = '\0'` -/
def cutAt (mem : List UInt8) : Option ℕ → Option (List UInt8 × ℕ)
  | none => none
  | some ch => if ch < mem.length then some (mem.set ch 0, ch + 1) else none

/-- `atoi(p)` -/
def atoiAt (mem : List UInt8) (p : ℕ) : Option ℤ :=
  (scanWhile 0 mem (fun _ => true) mem.length p).map fun q => atoi ((mem.drop p).take (q - p))

/-- The name of a header field: where the length is and where the end of the line is looked for. -/
def fieldAt (mem : List UInt8) (rspLength : Option ℕ) (p : ℕ) : Option (Option ℕ × ℕ) :=
  (strBeginWithAt mem contentLengthPre p).bind fun isLength =>
    if isLength then
      (scanWhile 0 mem (· = 32) mem.length (p + contentLengthPre.length)).map fun q => (some q, q)
    else
      (strBeginWithAt mem contentTypePre p).bind fun isType =>
        if isType then
          (scanWhile 0 mem (· = 32) mem.length (p + contentTypePre.length)).map fun q => (rspLength, q)
        else some (rspLength, p)

/-- The end of a line is cut off with two null characters. -/
def cutCrlfAt (mem : List UInt8) (ch : ℕ) : Option (List UInt8 × ℕ) :=
  (cutAt mem (some ch)).bind fun first => cutAt first.1 (some first.2)

/-- The response behind an empty line. -/
def emptyLineAt (rsp : HclientRsp) (mem : List UInt8) (p : ℕ) : Option ℕ → Option HclientRsp
  | none => some rsp
  | some q => (atoiAt mem q).map fun length => { rsp with length := length, data := some (p + 2) }

/-- The loop of `hclient_rsp_parse` over the header fields. -/
def hclientRspFieldsAt (rsp : HclientRsp) : ℕ → List UInt8 → Option ℕ → ℕ → Option HclientRsp
  | 0, _, _, _ => none
  | fuel + 1, mem, rspLength, p => (strBeginWithAt mem crlf p).bind fun isEmpty =>
    if isEmpty then emptyLineAt rsp mem p rspLength
    else mem[p]?.bind fun c =>
      if c = 0 then some rsp
      else (fieldAt mem rspLength p).bind fun field =>
        (strstrCrlfAt mem mem.length field.2).bind fun ch =>
          ch.elim (some { rsp with code := 400 }) fun q =>
            (cutCrlfAt mem q).bind fun cut => hclientRspFieldsAt rsp fuel cut.1 field.1 cut.2

/-- `hclient_rsp_parse` behind the code. -/
def hclientRspReasonAt (rsp : HclientRsp) (mem : List UInt8) (p : ℕ) : Option HclientRsp :=
  (strstrCrlfAt mem mem.length p).bind fun ch =>
    ch.elim (some { rsp with code := 400 }) fun q =>
      (cutCrlfAt mem q).bind fun cut => hclientRspFieldsAt rsp mem.length cut.1 none cut.2

/-- `hclient_rsp_parse` of a buffer. -/
def hclientRspParseAt (rsp : HclientRsp) (mem : List UInt8) : Option HclientRsp :=
  (strBeginWithAt mem httpPre 0).bind fun isHttp =>
    if isHttp then
      (strchrAt mem 32 0).bind fun ch =>
        ch.elim (some { rsp with code := 400 }) fun version =>
          (cutAt mem (some version)).bind fun first =>
          (strchrAt first.1 32 first.2).bind fun ch => (cutAt first.1 ch).bind fun second =>
          (atoiAt second.1 first.2).bind fun code =>
            if code = 200 then hclientRspReasonAt { rsp with code := code } second.1 second.2
            else some { rsp with code := code }
    else some { rsp with code := 400 }

section Memory

variable {mem text : List UInt8} {p : ℕ}

/-- A comparison with a text that has no null character. -/
theorem strBeginWithAt_eq {t : List UInt8} (ht : (0 : UInt8) ∉ t.map toLower)
    (h : MarkedAt 0 mem p text) :
    strBeginWithAt mem t p = some (strBeginWith text t) := by
  induction t generalizing text p with
  | nil => simp [strBeginWithAt, strBeginWith]
  | cons c t ih =>
    rw [List.map_cons, List.mem_cons, not_or] at ht
    cases text with
    | nil =>
      rw [strBeginWithAt, h.read_nil, Option.bind_some, if_neg (show toLower 0 ≠ _ from ht.1)]
      simp [strBeginWith]
    | cons d text =>
      obtain ⟨hread, -, hnext⟩ := h.read_cons
      rw [strBeginWithAt, hread, Option.bind_some, ih ht.2 hnext]
      by_cases heq : toLower d = toLower c
      · rw [if_pos heq]
        simp [strBeginWith, heq]
      · rw [if_neg heq]
        simp [strBeginWith, heq]

/-- A character that is looked for and is not there. -/
theorem strchrAt_none {c : UInt8} (hc : c ≠ 0) (h : MarkedAt 0 mem p text)
    (hrest : text.dropWhile (· ≠ c) = []) : strchrAt mem c p = some none := by
  have hlt := h.lt_length
  have hsplit := List.takeWhile_append_dropWhile (p := (· ≠ c)) (l := text)
  rw [hrest] at hsplit
  have hend : MarkedAt 0 mem (p + (text.takeWhile (· ≠ c)).length) [] := by
    refine MarkedAt.behind ?_
    rw [hsplit]
    exact h
  rw [strchrAt, h.scanWhile_eq (· ≠ c) (by omega), Option.bind_some, hend.read_nil, Option.map_some,
    if_neg (Ne.symm hc)]

/-- A character that is looked for and found. -/
theorem strchrAt_some {c d : UInt8} {rest : List UInt8} (h : MarkedAt 0 mem p text)
    (hrest : text.dropWhile (· ≠ c) = d :: rest) :
    strchrAt mem c p = some (some (p + (text.takeWhile (· ≠ c)).length)) ∧
      text = text.takeWhile (· ≠ c) ++ c :: rest := by
  have hlt := h.lt_length
  have hsplit := List.takeWhile_append_dropWhile (p := (· ≠ c)) (l := text)
  have hd : d = c := by
    have hhead := List.head?_dropWhile_not (· ≠ c) text
    rw [hrest] at hhead
    simpa using hhead
  rw [hrest, hd] at hsplit
  have hend : MarkedAt 0 mem (p + (text.takeWhile (· ≠ c)).length) (c :: rest) := by
    refine MarkedAt.behind ?_
    rw [hsplit]
    exact h
  refine ⟨?_, hsplit.symm⟩
  rw [strchrAt, h.scanWhile_eq (· ≠ c) (by omega), Option.bind_some, hend.read_cons.1, Option.map_some,
    if_pos rfl]

/-- The end of a line that is looked for. -/
theorem strstrCrlfAt_eq (h : MarkedAt 0 mem p text) {fuel : ℕ} (hfuel : text.length < fuel) :
    strstrCrlfAt mem fuel p = some ((crlfSplit text).map fun parts => p + parts.1.length) := by
  induction fuel generalizing text p with
  | zero => omega
  | succ fuel ih =>
    cases text with
    | nil =>
      rw [strstrCrlfAt, h.read_nil, Option.bind_some, if_pos rfl]
      rfl
    | cons c text =>
      obtain ⟨hread, hne, hnext⟩ := h.read_cons
      have hstep := ih hnext (Nat.lt_of_succ_lt_succ hfuel)
      have hmore : ((crlfSplit text).map fun parts => (c :: parts.1, parts.2)).map
          (fun parts => p + parts.1.length) =
          (crlfSplit text).map fun parts => p + 1 + parts.1.length := by
        rw [Option.map_map]
        congr 1
        funext parts
        simp only [Function.comp, List.length_cons]
        omega
      rw [strstrCrlfAt, hread, Option.bind_some, if_neg hne, hstep, crlfSplit]
      by_cases hc : c = 13
      · rw [if_pos hc]
        cases text with
        | nil =>
          rw [hnext.read_nil, Option.bind_some, if_neg (by decide), if_neg (by simp [crlf]), hmore]
        | cons d text =>
          rw [hnext.read_cons.1, Option.bind_some]
          by_cases hd : d = 10
          · rw [if_pos hd, if_pos (by rw [hc, hd]; rfl)]
            rfl
          · rw [if_neg hd, if_neg (by simp [crlf, hd]), hmore]
      · rw [if_neg hc, if_neg (by simp [crlf, hc]), hmore]

/-- A number that is read. -/
theorem atoiAt_eq (h : MarkedAt 0 mem p text) : atoiAt mem p = some (atoi text) := by
  have hlt := h.lt_length
  have hall : text.takeWhile (fun _ => true) = text := by simp
  obtain ⟨rest, hmem⟩ := h.stored
  rw [atoiAt, h.scanWhile_eq (fun _ => true) (by omega), Option.map_some, hall, Nat.add_sub_cancel_left,
    hmem, List.take_left]

/-- The end of a line that is cut off. -/
theorem cutAt_crlf {line rest : List UInt8} (h : MarkedAt 0 mem p (line ++ crlf ++ rest)) :
    ∃ mem', cutCrlfAt mem (p + line.length) = some (mem', p + line.length + 2) ∧
      mem'.length = mem.length ∧
      MarkedAt 0 mem' p line ∧ MarkedAt 0 mem' (p + line.length + 2) rest ∧
      ∀ q text, MarkedAt 0 mem q text → q + text.length < p → MarkedAt 0 mem' q text := by
  have hlt := h.lt_length
  have htext : line ++ crlf ++ rest = line ++ 13 :: (10 :: rest) := List.append_assoc _ _ _
  rw [htext] at h
  simp only [List.length_append, crlf, List.length_cons, List.length_nil] at hlt
  obtain ⟨hline, hrest⟩ := h.cut
  obtain ⟨-, hrest'⟩ := MarkedAt.cut (c := 10) (show MarkedAt 0 _ _ ([] ++ 10 :: rest) from hrest)
  refine ⟨(mem.set (p + line.length) 0).set (p + line.length + 1) 0, ?_,
    by rw [List.length_set, List.length_set], hline.set_other (.inr (Nat.lt_succ_self _)), hrest',
    fun q text hq hlt' => ?_⟩
  · rw [cutCrlfAt, cutAt, if_pos (by omega), Option.bind_some, cutAt,
      if_pos (by rw [List.length_set]; omega)]
  · exact (hq.set_other (.inr (by omega))).set_other (.inr (by omega))

/-- What is left behind a name and the spaces there. -/
theorem MarkedAt.skip_name {name : List UInt8} (h : MarkedAt 0 mem p text)
    (hname : strBeginWith text name = true) :
    ∃ q, scanWhile 0 mem (· = 32) mem.length (p + name.length) = some q ∧
      MarkedAt 0 mem q ((text.drop name.length).dropWhile (· = 32)) ∧
      q + ((text.drop name.length).dropWhile (· = 32)).length = p + text.length := by
  have hlength : name.length ≤ text.length := by
    have heq := congrArg List.length (of_decide_eq_true hname)
    rw [List.length_map, List.length_map, List.length_take] at heq
    omega
  have htaken : (text.take name.length).length = name.length := by
    rw [List.length_take, Nat.min_eq_left hlength]
  have hrest : MarkedAt 0 mem (p + name.length) (text.drop name.length) := by
    rw [← htaken]
    refine MarkedAt.behind ?_
    rw [List.length_take, Nat.min_eq_left hlength, List.take_append_drop]
    exact h
  have hlt := hrest.lt_length
  have hsplit := congrArg List.length
    (List.takeWhile_append_dropWhile (p := (· = 32)) (l := text.drop name.length))
  rw [List.length_append, List.length_drop] at hsplit
  refine ⟨_, hrest.scanWhile_eq (· = 32) (by omega), MarkedAt.behind ?_, by omega⟩
  rw [List.takeWhile_append_dropWhile]
  exact hrest

/-- The name of a header field is passed over. -/
theorem fieldAt_eq (rspLength : Option ℕ) (h : MarkedAt 0 mem p text) :
    ∃ q, fieldAt mem rspLength p =
        some (if strBeginWith text contentLengthPre then some q else rspLength, q) ∧
      MarkedAt 0 mem q (fieldText text) ∧ q + (fieldText text).length = p + text.length := by
  rw [fieldAt, strBeginWithAt_eq (by decide) h, strBeginWithAt_eq (by decide) h, Option.bind_some,
    Option.bind_some, fieldText]
  by_cases hlength : strBeginWith text contentLengthPre = true
  · obtain ⟨q, hscan, hq, hend⟩ := MarkedAt.skip_name h hlength
    rw [if_pos hlength, if_pos hlength, hscan]
    exact ⟨q, by rw [if_pos hlength]; rfl, hq, hend⟩
  · rw [if_neg hlength, if_neg hlength]
    by_cases htype : strBeginWith text contentTypePre = true
    · obtain ⟨q, hscan, hq, hend⟩ := MarkedAt.skip_name h htype
      rw [if_pos htype, if_pos htype, hscan]
      exact ⟨q, by rw [if_neg hlength]; rfl, hq, hend⟩
    · rw [if_neg htype, if_neg htype]
      exact ⟨p, by rw [if_neg hlength], h, rfl⟩

/-- The pointer to the length, when there is one, points to its text in front of a place. -/
def LengthAt (mem : List UInt8) (p : ℕ) : Option ℕ → Option (List UInt8) → Prop
  | none, none => True
  | some q, some value => MarkedAt 0 mem q value ∧ q + value.length < p
  | _, _ => False

/-- It is kept when what lies in front of the place is. -/
theorem LengthAt.keep {mem' : List UInt8} {p' : ℕ} {rspLength : Option ℕ}
    {value : Option (List UInt8)} (h : LengthAt mem p rspLength value) (hle : p ≤ p')
    (hkeep : ∀ q text, MarkedAt 0 mem q text → q + text.length < p → MarkedAt 0 mem' q text) :
    LengthAt mem' p' rspLength value := by
  cases rspLength with
  | none =>
    cases value with
    | none => trivial
    | some value => exact h.elim
  | some q =>
    cases value with
    | none => exact h.elim
    | some value => exact ⟨hkeep q value h.1 h.2, Nat.lt_of_lt_of_le h.2 hle⟩

/-- The header fields are parsed in memory as in the text. -/
theorem hclientRspFieldsAt_eq (rsp : HclientRsp) {total fuel : ℕ} {rspLength : Option ℕ}
    {value : Option (List UInt8)} (h : MarkedAt 0 mem p text) (hvalue : LengthAt mem p rspLength value)
    (hfuel : text.length < fuel) (htotal : total = p + text.length) :
    hclientRspFieldsAt rsp fuel mem rspLength p = some (hclientRspFields rsp total value text) := by
  induction fuel generalizing mem p text rspLength value with
  | zero => omega
  | succ fuel ih =>
    rw [hclientRspFieldsAt, strBeginWithAt_eq (by decide) h, Option.bind_some]
    by_cases hempty : strBeginWith text crlf = true
    · have hlength : crlf.length ≤ text.length := by
        have heq := congrArg List.length (of_decide_eq_true hempty)
        rw [List.length_map, List.length_map, List.length_take] at heq
        omega
      rw [if_pos hempty, hclientRspFields.eq_def, if_pos hempty]
      cases rspLength with
      | none =>
        cases value with
        | none => rfl
        | some value => exact hvalue.elim
      | some q =>
        cases value with
        | none => exact hvalue.elim
        | some value =>
          have hplace : total - (text.length - crlf.length) = p + 2 := by
            have htwo : crlf.length = 2 := rfl
            omega
          rw [emptyLineAt, atoiAt_eq hvalue.1, hplace]
          rfl
    rw [if_neg hempty]
    rw [Bool.not_eq_true] at hempty
    cases htext : text with
    | nil =>
      rw [htext] at h
      rw [h.read_nil, Option.bind_some, if_pos rfl, hclientRspFields_nil]
    | cons c rest =>
      have hread := (htext ▸ h : MarkedAt 0 mem p (c :: rest)).read_cons
      have hne : text ≠ [] := by rw [htext]; exact List.cons_ne_nil c rest
      rw [hread.1, Option.bind_some, if_neg hread.2.1, ← htext]
      obtain ⟨q, hfield, hq, hend⟩ := fieldAt_eq rspLength h
      have hle := (fieldText_suffix text).length_le
      have hlt := hq.lt_length
      rw [hfield, Option.bind_some, strstrCrlfAt_eq hq (by omega), Option.bind_some]
      cases hsplit : crlfSplit (fieldText text) with
      | none => rw [hclientRspFields_none rsp total value hempty hne hsplit]; rfl
      | some parts =>
        obtain ⟨line, next⟩ := parts
        obtain ⟨hjoin, -⟩ := eq_of_crlfSplit hsplit
        rw [hjoin] at hq hend hle
        simp only [List.length_append, show crlf.length = 2 from rfl] at hend hle
        obtain ⟨mem', hcut, -, hline, hnext, hkeep⟩ := cutAt_crlf hq
        rw [Option.map_some, Option.elim_some, hcut, Option.bind_some,
          hclientRspFields_some rsp total value hempty hne hsplit]
        refine ih hnext ?_ (by omega) (by omega)
        by_cases hlength : strBeginWith text contentLengthPre = true
        · rw [if_pos hlength, if_pos hlength]
          exact ⟨hline, by omega⟩
        · rw [if_neg hlength, if_neg hlength]
          exact hvalue.keep (by omega) fun r value hr hlt => hkeep r value hr (by omega)

/-- What is behind the code is parsed in memory as in the text. -/
theorem hclientRspReasonAt_eq (rsp : HclientRsp) {total : ℕ} (h : MarkedAt 0 mem p text)
    (htotal : total = p + text.length) :
    hclientRspReasonAt rsp mem p =
      match crlfSplit text with
      | none => some { rsp with code := 400 }
      | some (_, fields) => some (hclientRspFields rsp total none fields) := by
  have hlt := h.lt_length
  rw [hclientRspReasonAt, strstrCrlfAt_eq h (by omega), Option.bind_some]
  cases hsplit : crlfSplit text with
  | none => rfl
  | some parts =>
    obtain ⟨line, fields⟩ := parts
    obtain ⟨rfl, -⟩ := eq_of_crlfSplit hsplit
    obtain ⟨mem', hcut, hlength, -, hfields, -⟩ := cutAt_crlf h
    have hlt' := hfields.lt_length
    simp only [List.length_append, show crlf.length = 2 from rfl] at htotal
    rw [Option.map_some, Option.elim_some, hcut, Option.bind_some]
    exact hclientRspFieldsAt_eq rsp hfields trivial (by omega) (by omega)

/-- A character that is found is cut off. -/
theorem cutAt_eq {line rest : List UInt8} {c : UInt8} (h : MarkedAt 0 mem p (line ++ c :: rest)) :
    ∃ mem', cutAt mem (some (p + line.length)) = some (mem', p + line.length + 1) ∧
      MarkedAt 0 mem' p line ∧ MarkedAt 0 mem' (p + line.length + 1) rest := by
  have hlt := h.lt_length
  rw [List.length_append, List.length_cons] at hlt
  exact ⟨_, by rw [cutAt, if_pos (by omega)], h.cut⟩

/-- A response is parsed in memory as in the text. -/
theorem hclientRspParseAt_eq (rsp : HclientRsp) (h : MarkedAt 0 mem 0 text) :
    hclientRspParseAt rsp mem = hclientRspParse rsp text := by
  rw [hclientRspParseAt, strBeginWithAt_eq (by decide) h, Option.bind_some, hclientRspParse]
  split
  swap
  · rfl
  cases hversion : text.dropWhile (· ≠ 32) with
  | nil =>
    rw [strchrAt_none (by decide) h hversion]
    rfl
  | cons d rspCode =>
    obtain ⟨hfind, htext⟩ := strchrAt_some h hversion
    obtain ⟨first, hcut, -, hcode⟩ := cutAt_eq (htext ▸ h)
    have htotal := congrArg List.length htext
    rw [List.length_append, List.length_cons] at htotal
    rw [hfind, Option.bind_some, Option.elim_some, hcut, Option.bind_some]
    simp only
    cases hreason : rspCode.dropWhile (· ≠ 32) with
    | nil =>
      rw [strchrAt_none (by decide) hcode hreason]
      rfl
    | cons e reason =>
      obtain ⟨hfind', hrspCode⟩ := strchrAt_some hcode hreason
      obtain ⟨second, hcut', hnumber, hrest⟩ := cutAt_eq (hrspCode ▸ hcode)
      have htotal' := congrArg List.length hrspCode
      rw [List.length_append, List.length_cons] at htotal'
      rw [hfind', Option.bind_some, hcut', Option.bind_some, atoiAt_eq hnumber, Option.bind_some]
      simp only
      split
      · exact hclientRspReasonAt_eq _ hrest (by omega)
      · rfl

end Memory

section Header

/-- A text with a header in which the parser finds the length: two spaces, the code 200 between them,
fields without empty lines and an empty line behind them. -/
structure RspHeader where
  version : List UInt8
  code : List UInt8
  reason : List UInt8
  fields : List (List UInt8)
  value : List UInt8
  rest : List UInt8
  version_word : (32 : UInt8) ∉ version
  code_word : (32 : UInt8) ∉ code
  code_ok : atoi code = 200
  reason_line : ¬ crlf <:+: reason
  field_lines : ∀ field ∈ fields, field ≠ [] ∧ ¬ crlf <:+: field
  last_length : lastLength none fields = some value

/-- What is in front of the second space. -/
def RspHeader.status (header : RspHeader) : List UInt8 := header.version ++ 32 :: header.code

/-- The lines of the header. -/
def RspHeader.block (header : RspHeader) : List UInt8 :=
  header.status ++ 32 :: (header.reason ++ crlf ++ textLines header.fields)

/-- The whole text. -/
def RspHeader.text (header : RspHeader) : List UInt8 := header.block ++ crlf ++ header.rest

/-- The text in front of a space and behind it. -/
theorem dropWhile_word {word : List UInt8} (hword : (32 : UInt8) ∉ word) (rest : List UInt8) :
    (word ++ 32 :: rest).dropWhile (· ≠ 32) = 32 :: rest ∧
      (word ++ 32 :: rest).takeWhile (· ≠ 32) = word := by
  have hpass : ∀ c ∈ word, decide (c ≠ 32) = true := by
    intro c hc
    exact decide_eq_true fun heq => hword (heq ▸ hc)
  rw [List.dropWhile_append_of_pos hpass, List.takeWhile_append_of_pos hpass,
    List.dropWhile_cons_of_neg (by simp), List.takeWhile_cons_of_neg (by simp), List.append_nil]
  exact ⟨rfl, rfl⟩

/-- In a text without spaces there is nothing behind one. -/
theorem dropWhile_wordless {text : List UInt8} (h : (32 : UInt8) ∉ text) :
    text.dropWhile (· ≠ 32) = [] := by
  rw [List.dropWhile_eq_nil_iff]
  exact fun c hc => decide_eq_true fun heq => h (heq ▸ hc)

/-- The parser between two spaces. -/
theorem hclientRspParse_words (rsp : HclientRsp) {version code : List UInt8} (rest : List UInt8)
    (hversion : (32 : UInt8) ∉ version) (hcode : (32 : UInt8) ∉ code)
    (hhttp : strBeginWith (version ++ 32 :: (code ++ 32 :: rest)) httpPre = true) :
    hclientRspParse rsp (version ++ 32 :: (code ++ 32 :: rest)) =
      if atoi code = 200 then
        match crlfSplit rest with
        | none => some { rsp with code := 400 }
        | some (_, fields) => some (hclientRspFields { rsp with code := atoi code }
          (version ++ 32 :: (code ++ 32 :: rest)).length none fields)
      else some { rsp with code := atoi code } := by
  have hfirst := dropWhile_word hversion (code ++ 32 :: rest)
  have hsecond := dropWhile_word hcode rest
  rw [hclientRspParse, if_pos hhttp]
  cases hsplit : crlfSplit rest with
  | none => simp only [hfirst.1, hsecond.1, hsecond.2, hsplit]
  | some parts => simp only [hfirst.1, hsecond.1, hsecond.2, hsplit]

/-- A text that begins with the end of a line. -/
theorem eq_of_strBeginWith_crlf {text : List UInt8} (h : strBeginWith text crlf = true) :
    text = crlf ++ text.drop crlf.length := by
  have heq := of_decide_eq_true h
  match text, heq with
  | [], heq => cases heq
  | [_], heq => exact absurd (congrArg List.length heq) (by simp [crlf])
  | c :: d :: rest, heq =>
    have hc : c = 13 := eq_of_toLower (by decide) (List.cons.inj heq).1
    have hd : d = 10 := eq_of_toLower (by decide) (List.cons.inj (List.cons.inj heq).2).1
    rw [hc, hd]
    rfl

/-- When the body is found the fields end with an empty line, and one of them gives the length. -/
theorem exists_of_hclientRspFields {rsp : HclientRsp} (hrsp : rsp.data = none) {total : ℕ}
    {rspLength : Option (List UInt8)} {text : List UInt8} {data : ℕ}
    (h : (hclientRspFields rsp total rspLength text).data = some data) :
    ∃ fields value rest, text = textLines fields ++ crlf ++ rest ∧
      (∀ field ∈ fields, field ≠ [] ∧ ¬ crlf <:+: field) ∧
        lastLength rspLength fields = some value := by
  fun_induction hclientRspFields rsp total rspLength text with
  | case1 text hempty => rw [hrsp] at h; cases h
  | case2 text hempty value =>
    refine ⟨[], value, text.drop crlf.length, ?_, by simp, rfl⟩
    rw [eq_of_strBeginWith_crlf hempty]
    rfl
  | case3 => rw [hrsp] at h; cases h
  | case4 rspLength text hempty htext hsplit => rw [hrsp] at h; cases h
  | case5 rspLength text hempty htext line next hsplit ih =>
    obtain ⟨fields, value, rest, hnext, hfields, hvalue⟩ := ih h
    cases hline : crlfSplit text with
    | none =>
      have hinside : crlf <:+: fieldText text := by
        rw [(eq_of_crlfSplit hsplit).1]
        exact ⟨line, next, rfl⟩
      exact absurd (hinside.trans (fieldText_suffix text).isInfix) (not_infix_of_crlfSplit hline)
    | some parts =>
      obtain ⟨field, next'⟩ := parts
      obtain ⟨rfl, hnone⟩ := eq_of_crlfSplit hline
      rw [fieldText_line, crlfSplit_of_absent (fieldText_absent hnone)] at hsplit
      obtain ⟨rfl, rfl⟩ := Prod.mk.inj (Option.some.inj hsplit)
      have hne : field ≠ [] := by
        rintro rfl
        exact hempty rfl
      refine ⟨field :: fields, value, rest, ?_, ?_, ?_⟩
      · rw [textLines_cons, hnext]
        simp only [List.append_assoc]
      · exact List.forall_mem_cons.mpr ⟨⟨hne, hnone⟩, hfields⟩
      · rw [strBeginWith_line (by decide)] at hvalue
        exact hvalue

/-- The length and the place of the body in such a text. -/
theorem RspHeader.parse (header : RspHeader) (hhttp : strBeginWith header.text httpPre = true) :
    hclientRspParse .init header.text =
      some { length := atoi header.value, code := 200, data := some (header.block.length + 2) } := by
  have htext : header.text = header.version ++ 32 :: (header.code ++ 32 ::
      (header.reason ++ crlf ++ (textLines header.fields ++ (crlf ++ header.rest)))) := by
    simp only [text, block, status, List.append_assoc, List.cons_append]
  have htotal : header.text.length - header.rest.length = header.block.length + 2 := by
    rw [text, List.length_append, Nat.add_sub_cancel, List.length_append]
    rfl
  rw [htext] at hhttp ⊢
  rw [hclientRspParse_words .init _ header.version_word header.code_word hhttp, if_pos header.code_ok,
    crlfSplit_of_absent header.reason_line]
  simp only
  rw [← htext, hclientRspFields_lines _ _ _ header.field_lines, header.last_length,
    hclientRspFields_crlf, htotal, header.code_ok]

/-- When the parser finds a body there is such a header. -/
theorem exists_header {text : List UInt8} {rsp : HclientRsp}
    (h : hclientRspParse .init text = some rsp) {data : ℕ} (hdata : rsp.data = some data) :
    strBeginWith text httpPre = true ∧ ∃ header : RspHeader, header.text = text := by
  by_cases hhttp : strBeginWith text httpPre = true
  swap
  · rw [hclientRspParse, if_neg hhttp] at h
    rw [← Option.some.inj h] at hdata
    cases hdata
  refine ⟨hhttp, ?_⟩
  by_cases hspace : (32 : UInt8) ∈ text
  swap
  · rw [hclientRspParse, if_pos hhttp, dropWhile_wordless hspace] at h
    rw [← Option.some.inj h] at hdata
    cases hdata
  obtain ⟨version, rspCode, rfl, hversion⟩ := List.eq_append_cons_of_mem hspace
  by_cases hspace' : (32 : UInt8) ∈ rspCode
  swap
  · rw [hclientRspParse, if_pos hhttp] at h
    simp only [(dropWhile_word hversion rspCode).1] at h
    rw [dropWhile_wordless hspace'] at h
    cases h
  obtain ⟨code, rest, rfl, hcode'⟩ := List.eq_append_cons_of_mem hspace'
  rw [hclientRspParse_words .init rest hversion hcode' hhttp] at h
  split at h
  swap
  · rw [← Option.some.inj h] at hdata
    cases hdata
  next hok =>
  cases hsplit : crlfSplit rest with
  | none =>
    rw [hsplit] at h
    rw [← Option.some.inj h] at hdata
    cases hdata
  | some parts =>
    obtain ⟨reason, lines⟩ := parts
    obtain ⟨rfl, hreason⟩ := eq_of_crlfSplit hsplit
    rw [hsplit] at h
    rw [← Option.some.inj h] at hdata
    obtain ⟨fields, value, rest, rfl, hfields, hvalue⟩ := exists_of_hclientRspFields rfl hdata
    refine ⟨⟨version, code, reason, fields, value, rest, hversion, hcode', hok, hreason,
      hfields, hvalue⟩,
      ?_⟩
    simp only [RspHeader.text, RspHeader.block, RspHeader.status, List.append_assoc, List.cons_append]

/-- The parser does not return exactly when there is one space behind the version and no other. -/
theorem hclientRspParse_eq_none_iff (rsp : HclientRsp) (text : List UInt8) :
    hclientRspParse rsp text = none ↔ strBeginWith text httpPre = true ∧ text.count 32 = 1 := by
  by_cases hhttp : strBeginWith text httpPre = true
  swap
  · rw [hclientRspParse, if_neg hhttp]
    simp [hhttp]
  rw [and_iff_right hhttp]
  by_cases hspace : (32 : UInt8) ∈ text
  swap
  · rw [hclientRspParse, if_pos hhttp, dropWhile_wordless hspace, List.count_eq_zero_of_not_mem hspace]
    simp
  obtain ⟨version, rspCode, rfl, hversion⟩ := List.eq_append_cons_of_mem hspace
  rw [List.count_append, List.count_eq_zero_of_not_mem hversion, List.count_cons_self, Nat.zero_add]
  by_cases hspace' : (32 : UInt8) ∈ rspCode
  swap
  · rw [hclientRspParse, if_pos hhttp, List.count_eq_zero_of_not_mem hspace']
    simp only [(dropWhile_word hversion rspCode).1]
    rw [dropWhile_wordless hspace']
    simp
  · have hcount := List.count_pos_iff.mpr hspace'
    obtain ⟨code, rest, rfl, hcode⟩ := List.eq_append_cons_of_mem hspace'
    rw [hclientRspParse_words rsp rest hversion hcode hhttp]
    constructor
    · intro hnone
      split at hnone
      · cases hsplit : crlfSplit rest with
        | none => rw [hsplit] at hnone; cases hnone
        | some parts => rw [hsplit] at hnone; cases hnone
      · cases hnone
    · intro hone
      omega

/-- A place is just behind the first empty line. -/
def FirstEmptyLine (bytes : List UInt8) (data : ℕ) : Prop :=
  ∃ head, head ++ (crlf ++ crlf) <+: bytes ∧ data = head.length + 4 ∧
    ∀ other, other ++ (crlf ++ crlf) <+: bytes → head.length ≤ other.length

/-- A line of a header that is not its first one. -/
def HeaderField (block field : List UInt8) : Prop :=
  ∃ before after, block = before ++ crlf ++ field ++ crlf ++ after ∧ ¬ crlf <:+: field

/-- A header field gives a length. -/
def GivesLength (block : List UInt8) (length : ℕ) : Prop :=
  ∃ field, HeaderField block field ∧ IsContentLength length field

/-- An empty line is not in front of the end of a line. -/
theorem exists_of_empty_line {line rest before : List UInt8} (hline : ¬ crlf <:+: line)
    (h : before ++ (crlf ++ crlf) <+: line ++ (crlf ++ rest)) :
    ∃ tail, before = line ++ tail ∧ tail ++ (crlf ++ crlf) <+: crlf ++ rest := by
  have hfirst : line.length ≤ before.length := by
    refine crlfSplit_first (crlfSplit_of_absent hline rest) ?_
    rw [List.append_assoc line]
    exact (List.prefix_append_right_inj before |>.mpr (List.prefix_append crlf crlf)).trans h
  obtain ⟨tail, rfl⟩ : line <+: before :=
    List.prefix_of_prefix_length_le (List.prefix_append _ _) ((List.prefix_append _ _).trans h) hfirst
  rw [List.append_assoc, List.prefix_append_right_inj] at h
  exact ⟨tail, rfl, h⟩

/-- In lines that are not empty the first empty line is the one behind them. -/
theorem le_of_empty_line {rest : List UInt8} {fields : List (List UInt8)}
    (hfields : ∀ field ∈ fields, field ≠ [] ∧ ¬ crlf <:+: field) {tail : List UInt8}
    (h : tail ++ (crlf ++ crlf) <+: crlf ++ (textLines fields ++ (crlf ++ rest))) :
    (textLines fields).length ≤ tail.length := by
  induction fields generalizing tail with
  | nil => exact Nat.zero_le _
  | cons field fields ih =>
    obtain ⟨hfield, hfields⟩ := List.forall_mem_cons.mp hfields
    rw [textLines_cons, List.append_assoc (field ++ crlf)] at h
    match tail, h with
    | [], h =>
      rw [List.nil_append, List.prefix_append_right_inj] at h
      have hstart : strBeginWith (field ++ crlf ++ (textLines fields ++ (crlf ++ rest)))
          crlf = true := by
        rw [strBeginWith, ← List.prefix_iff_eq_take.mp h, decide_eq_true_eq]
      rw [strBeginWith_field hfield] at hstart
      cases hstart
    | [c], h => exact absurd (List.cons_prefix_cons.mp (List.cons_prefix_cons.mp h).2).1 (by decide)
    | c :: d :: tail, h =>
      have hnext := (List.cons_prefix_cons.mp (List.cons_prefix_cons.mp h).2).2
      change tail ++ (crlf ++ crlf) <+: field ++ crlf ++ (textLines fields ++ (crlf ++ rest)) at hnext
      rw [List.append_assoc field] at hnext
      obtain ⟨tail, rfl, htail⟩ := exists_of_empty_line hfield.2 hnext
      have hle := ih hfields htail
      simp only [textLines_cons, List.length_append, List.length_cons, show crlf.length = 2 from rfl]
      omega

/-- Lines end with the end of a line. -/
theorem exists_crlf_end (fields : List (List UInt8)) (before : List UInt8) :
    ∃ head, before ++ crlf ++ textLines fields = head ++ crlf := by
  induction fields generalizing before with
  | nil => exact ⟨before, List.append_nil _⟩
  | cons field fields ih =>
    obtain ⟨head, hhead⟩ := ih (before ++ crlf ++ field)
    exact ⟨head, by rw [← hhead, textLines_cons]; simp only [List.append_assoc]⟩

/-- An empty line that is not in a text without one is behind the space behind the text. -/
theorem empty_line_behind {status rest other : List UInt8} (hnone : ¬ crlf ++ crlf <:+: status)
    (h : other ++ (crlf ++ crlf) <+: status ++ 32 :: rest) : status ++ [32] <+: other := by
  have hword : status ++ [32] <+: status ++ 32 :: rest := ⟨rest, by simp⟩
  rcases Nat.lt_or_ge status.length other.length with hlt | hge
  · exact List.prefix_of_prefix_length_le hword ((List.prefix_append _ _).trans h)
      (by rw [List.length_append]; exact hlt)
  exfalso
  rcases Nat.lt_or_ge status.length (other.length + 4) with hlt | hge'
  · obtain ⟨after, hafter⟩ := h
    have hread : (other ++ (crlf ++ crlf) ++ after)[status.length]? = some 32 := by
      rw [hafter, List.getElem?_append_right (Nat.le_refl _), Nat.sub_self]
      rfl
    have hlength : status.length < (other ++ (crlf ++ crlf)).length := by
      rw [List.length_append]
      exact hlt
    rw [List.getElem?_append_left hlength, List.getElem?_append_right hge] at hread
    exact absurd (List.mem_of_getElem? hread) (by decide)
  · have hlength : (other ++ (crlf ++ crlf)).length ≤ status.length := by
      rw [List.length_append]
      exact hge'
    have hpre := List.prefix_of_prefix_length_le h (List.prefix_append status _) hlength
    exact hnone ((List.suffix_append other _).isInfix.trans hpre.isInfix)

/-- The body is just behind the first empty line exactly when there is none in front of the second
space. -/
theorem RspHeader.firstEmptyLine_iff (header : RspHeader) :
    FirstEmptyLine header.text (header.block.length + 2) ↔
      ¬ crlf ++ crlf <:+: header.status := by
  have htext : header.text = header.status ++ 32 ::
      (header.reason ++ (crlf ++ (textLines header.fields ++ (crlf ++ header.rest)))) := by
    simp only [text, block, List.append_assoc, List.cons_append]
  have hlength : header.block.length =
      header.status.length + 1 + header.reason.length + 2 + (textLines header.fields).length := by
    simp only [block, List.length_append, List.length_cons, show crlf.length = 2 from rfl]
    omega
  constructor
  · rintro ⟨head, -, hhead, hfirst⟩ ⟨before, after, hstatus⟩
    have hle := hfirst before ⟨after ++ 32 ::
      (header.reason ++ (crlf ++ (textLines header.fields ++ (crlf ++ header.rest)))), by
        rw [htext, ← hstatus]
        simp only [List.append_assoc]⟩
    have hshort := congrArg List.length hstatus
    simp only [List.length_append, show crlf.length = 2 from rfl] at hshort
    omega
  · intro hnone
    obtain ⟨head, hhead⟩ := exists_crlf_end header.fields (header.status ++ 32 :: header.reason)
    have hblock : header.block = head ++ crlf := by
      rw [← hhead, block, List.append_assoc, List.append_assoc, List.append_assoc, List.cons_append]
    refine ⟨head, ?_, by rw [hblock, List.length_append]; rfl, fun other hother => ?_⟩
    · rw [text, hblock, List.append_assoc, List.append_assoc, List.prefix_append_right_inj,
        List.prefix_append_right_inj]
      exact List.prefix_append _ _
    · have hlength' := congrArg List.length hblock
      rw [List.length_append, show crlf.length = 2 from rfl] at hlength'
      rw [htext] at hother
      obtain ⟨tail, rfl⟩ : header.status ++ [32] <+: other := empty_line_behind hnone hother
      rw [List.append_cons header.status 32 (header.reason ++ _),
        List.append_assoc (header.status ++ [32]), List.prefix_append_right_inj] at hother
      obtain ⟨tail, rfl, htail⟩ := exists_of_empty_line header.reason_line hother
      have hle := le_of_empty_line header.field_lines htail
      simp only [List.length_append, List.length_singleton]
      omega

/-- The condition under which a text is parsed: there is no text with one space only that begins as a
response, and in a text whose body is found there is no empty line in front of the second space, and the
number that is read is the one that a field gives. -/
structure RspSound (text : List UInt8) : Prop where
  spaces : strBeginWith text httpPre = true → text.count 32 ≠ 1
  header : ∀ header : RspHeader, header.text = text → strBeginWith text httpPre = true →
    ¬ crlf ++ crlf <:+: header.status ∧
      ∃ length, GivesLength header.block length ∧ atoi header.value = length

/-- What is right about a response whose body is found: the place of the body, and its length. -/
def RspRight (bytes : List UInt8) (rsp : HclientRsp) : Prop :=
  rsp.code = 200 → ∀ data, rsp.data = some data →
    FirstEmptyLine bytes data ∧ ∃ length : ℕ, GivesLength (bytes.take (data - 2)) length ∧
      rsp.length = length

/-- The empty line is found in the bytes as in their text. -/
theorem firstEmptyLine_takeWhile {bytes : List UInt8} {data : ℕ}
    (hdata : data ≤ (bytes.takeWhile (· ≠ 0)).length) :
    FirstEmptyLine bytes data ↔ FirstEmptyLine (bytes.takeWhile (· ≠ 0)) data := by
  have htext : bytes.takeWhile (· ≠ 0) <+: bytes := List.takeWhile_prefix _
  constructor
  · rintro ⟨head, hhead, rfl, hfirst⟩
    refine ⟨head, List.prefix_of_prefix_length_le hhead htext (by rw [List.length_append]; exact hdata),
      rfl, fun other hother => hfirst other (hother.trans htext)⟩
  · rintro ⟨head, hhead, rfl, hfirst⟩
    refine ⟨head, hhead.trans htext, rfl, fun other hother => ?_⟩
    rcases Nat.lt_or_ge (bytes.takeWhile (· ≠ 0)).length (other.length + 4) with hlt | hge
    · omega
    · exact hfirst other (List.prefix_of_prefix_length_le hother htext
        (by rw [List.length_append]; exact hge))

/-- A response that is parsed is right exactly when the text is sound. -/
theorem rspRight_iff {bytes : List UInt8} :
    (∃ rsp, hclientRspParse .init (bytes.takeWhile (· ≠ 0)) = some rsp ∧ RspRight bytes rsp) ↔
      RspSound (bytes.takeWhile (· ≠ 0)) := by
  obtain ⟨text, htextEq⟩ : ∃ text, text = bytes.takeWhile (· ≠ 0) := ⟨_, rfl⟩
  have htext : text <+: bytes := htextEq ▸ List.takeWhile_prefix _
  have hblock (header : RspHeader) (heq : header.text = text) :
      header.block.length + 2 ≤ text.length ∧
        bytes.take (header.block.length + 2 - 2) = header.block := by
    have hstart : header.block ++ crlf <+: text := ⟨header.rest, heq⟩
    refine ⟨?_, ?_⟩
    · have hle := hstart.length_le
      rw [List.length_append] at hle
      exact hle
    · exact (List.prefix_iff_eq_take.mp (((List.prefix_append _ _).trans hstart).trans htext)).symm
  rw [← htextEq]
  constructor
  · rintro ⟨rsp, hparse, hright⟩
    refine ⟨fun hhttp hcount => ?_, fun header heq hhttp => ?_⟩
    · rw [(hclientRspParse_eq_none_iff .init text).mpr ⟨hhttp, hcount⟩] at hparse
      cases hparse
    · obtain ⟨hplace, hfields⟩ := hblock header heq
      rw [← heq] at hparse hhttp
      rw [header.parse hhttp] at hparse
      obtain rfl := Option.some.inj hparse
      obtain ⟨hempty, length, hlength, hvalue⟩ := hright rfl _ rfl
      rw [firstEmptyLine_takeWhile (htextEq ▸ hplace), ← htextEq, ← heq,
        header.firstEmptyLine_iff] at hempty
      rw [hfields] at hlength
      exact ⟨hempty, length, hlength, hvalue⟩
  · intro hsound
    cases hparse : hclientRspParse .init text with
    | none =>
      obtain ⟨hhttp, hcount⟩ := (hclientRspParse_eq_none_iff .init text).mp hparse
      exact absurd hcount (hsound.spaces hhttp)
    | some rsp =>
      refine ⟨rsp, rfl, fun _ data hdata => ?_⟩
      obtain ⟨hhttp, header, heq⟩ := exists_header hparse hdata
      obtain ⟨hstatus, length, hlength, hvalue⟩ := hsound.header header heq hhttp
      obtain ⟨hplace, hfields⟩ := hblock header heq
      have hfound := header.parse (heq ▸ hhttp)
      rw [heq, hparse] at hfound
      obtain rfl := Option.some.inj hfound
      obtain rfl := Option.some.inj hdata
      rw [firstEmptyLine_takeWhile (htextEq ▸ hplace), ← htextEq, ← heq, header.firstEmptyLine_iff,
        hfields]
      exact ⟨hstatus, length, hlength, hvalue⟩

end Header

section Session

/-- `hclient_session_t`: the buffer has a place behind its length, for a null character. -/
structure HclientSession where
  bufferLength : ℕ
  buffer : List UInt8
  size : bufferLength < buffer.length

/-- `hclient_create`, with the length in 16 bits. -/
def hclientCreate (bufferLength : ℕ) : HclientSession where
  bufferLength := bufferLength % 65536
  buffer := List.replicate (bufferLength + 1) 0
  size := by
    rw [List.length_replicate]
    exact Nat.lt_succ_of_le (Nat.mod_le _ _)

/-- The first read of `hclient_download_data`, with the null character behind it. -/
def hclientFirstRead (buffer bytes : List UInt8) : Option (List UInt8) :=
  if bytes.length < buffer.length then some (bytes ++ 0 :: buffer.drop (bytes.length + 1)) else none

/-- The first response of a session: only the bytes that have been read, and their null character,
can be read and written. -/
def hclientFirstRsp (session : HclientSession) (bytes : List UInt8) : Option HclientRsp :=
  (hclientFirstRead session.buffer bytes).bind fun buffer =>
    hclientRspParseAt .init (buffer.take (bytes.length + 1))

/-- The text of bytes with a null character behind them. -/
theorem markedAt_bytes (bytes : List UInt8) :
    MarkedAt 0 (bytes ++ [0]) 0 (bytes.takeWhile (· ≠ 0)) := by
  refine ⟨fun hnul => ?_, ?_⟩
  · have hall := List.all_eq_true.mp List.all_takeWhile 0 hnul
    simp at hall
  · have hsplit := List.takeWhile_append_dropWhile (p := (· ≠ 0)) (l := bytes)
    cases hrest : bytes.dropWhile (· ≠ 0) with
    | nil =>
      rw [hrest, List.append_nil] at hsplit
      exact ⟨[], by rw [hsplit]; rfl⟩
    | cons c rest =>
      have hc : c = 0 := by
        have hhead := List.head?_dropWhile_not (· ≠ 0) bytes
        rw [hrest] at hhead
        simpa using hhead
      rw [hrest, hc] at hsplit
      refine ⟨rest ++ [0], ?_⟩
      rw [List.drop_zero, ← List.cons_append, ← List.append_assoc, hsplit]

/-- The first response is that of the text in the bytes. -/
theorem hclientFirstRsp_eq (session : HclientSession) {bytes : List UInt8}
    (hfits : bytes.length ≤ session.bufferLength) :
    hclientFirstRsp session bytes = hclientRspParse .init (bytes.takeWhile (· ≠ 0)) := by
  have htaken (rest : List UInt8) : (bytes ++ 0 :: rest).take (bytes.length + 1) = bytes ++ [0] := by
    rw [List.append_cons]
    exact List.take_left' (by rw [List.length_append]; rfl)
  rw [hclientFirstRsp, hclientFirstRead, if_pos (Nat.lt_of_le_of_lt hfits session.size),
    Option.bind_some,
    htaken]
  exact hclientRspParseAt_eq .init (markedAt_bytes bytes)

/-- The first read of a response is parsed without a read or a write outside of the bytes and their null
character, and what it leaves is right, exactly when its text is sound. -/
theorem first_rsp_right_iff (session : HclientSession) {bytes : List UInt8}
    (hfits : bytes.length ≤ session.bufferLength) :
    (∃ rsp, hclientFirstRsp session bytes = some rsp ∧ RspRight bytes rsp) ↔
      RspSound (bytes.takeWhile (· ≠ 0)) := by
  rw [hclientFirstRsp_eq session hfits]
  exact rspRight_iff

end Session

/-- A response of two bytes. -/
def twoByteRsp : RspHeader where
  version := [0x48, 0x54, 0x54, 0x50, 0x2F, 0x31, 0x2E, 0x31]
  code := [0x32, 0x30, 0x30]
  reason := [0x4F, 0x4B]
  fields := [contentLengthPre ++ [0x20, 0x32]]
  value := [0x32]
  rest := [0x6F, 0x6B]
  version_word := by decide
  code_word := by decide
  code_ok := by decide
  reason_line := by decide
  field_lines := by decide
  last_length := by decide

/-- It is parsed right. -/
theorem first_rsp_right_example :
    (∃ rsp, hclientFirstRsp (hclientCreate 512) twoByteRsp.text = some rsp ∧
      RspRight twoByteRsp.text rsp) ∧ RspSound (twoByteRsp.text.takeWhile (· ≠ 0)) := by
  have hfits : twoByteRsp.text.length ≤ (hclientCreate 512).bufferLength := by decide
  have htext : twoByteRsp.text.takeWhile (· ≠ 0) = twoByteRsp.text := by decide
  have hparse := twoByteRsp.parse (by decide)
  have hright : ∃ rsp, hclientFirstRsp (hclientCreate 512) twoByteRsp.text = some rsp ∧
      RspRight twoByteRsp.text rsp := by
    refine ⟨_, by rw [hclientFirstRsp_eq _ hfits, htext, hparse], fun _ data hdata => ?_⟩
    obtain rfl := Option.some.inj hdata
    refine ⟨twoByteRsp.firstEmptyLine_iff.mpr (by decide), 2, ?_, by decide⟩
    refine ⟨contentLengthPre ++ [0x20, 0x32],
      ⟨twoByteRsp.status ++ [0x20, 0x4F, 0x4B], [], by decide, by decide⟩, ?_⟩
    refine ⟨contentLengthPre, [0x20], [0x32], [], rfl, rfl, by simp, by simp, by simp, ?_, by decide⟩
    intro c hc
    rw [List.mem_singleton.mp hc]
    rfl
  exact ⟨hright, (first_rsp_right_iff (hclientCreate 512) hfits).mp hright⟩

/-- A response that ends behind its code: the parser writes through a null pointer. -/
theorem first_rsp_null :
    ¬ ∀ (session : HclientSession) (bytes : List UInt8), bytes.length ≤ session.bufferLength →
      ∃ rsp, hclientFirstRsp session bytes = some rsp ∧ RspRight bytes rsp := by
  intro h
  obtain ⟨rsp, hrsp, -⟩ := h (hclientCreate 512) (httpPre ++ [0x20, 0x32, 0x30, 0x30]) (by decide)
  have hnone : hclientFirstRsp (hclientCreate 512) (httpPre ++ [0x20, 0x32, 0x30, 0x30]) = none := by
    rw [hclientFirstRsp_eq _ (by decide), hclientRspParse_eq_none_iff]
    decide
  rw [hnone] at hrsp
  cases hrsp

end DasEdge.Http
