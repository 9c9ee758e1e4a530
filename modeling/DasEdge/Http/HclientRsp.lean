import DasEdge.Library.TextLines
import Mathlib.Algebra.Order.Ring.Int

/-!
# The header of a response

`hclient_rsp_parse` of `httpclient.c`, and what it finds in the header of a response with code 200
and the length of its content, or in a part of that. The null characters that the parser writes end
the texts that it looks at, and are not in what it passes over.
-/

namespace DasEdge.Http

open DasEdge.Library

/-- `HTTP/1` -/
def httpPre : List UInt8 := [0x48, 0x54, 0x54, 0x50, 0x2F, 0x31]

/-- `Content-Length:` -/
def contentLengthPre : List UInt8 :=
  [0x43, 0x6F, 0x6E, 0x74, 0x65, 0x6E, 0x74, 0x2D, 0x4C, 0x65, 0x6E, 0x67, 0x74, 0x68, 0x3A]

/-- `Content-Type:` -/
def contentTypePre : List UInt8 :=
  [0x43, 0x6F, 0x6E, 0x74, 0x65, 0x6E, 0x74, 0x2D, 0x54, 0x79, 0x70, 0x65, 0x3A]

/-- `hclient_rsp_t`, with `data` as the place in the buffer that it points to. -/
structure HclientRsp where
  length : ℤ
  code : ℤ
  data : Option ℕ
  deriving DecidableEq

/-- The response of a new session, which `rt_calloc` has cleared. -/
def HclientRsp.init : HclientRsp where
  length := 0
  code := 0
  data := none

/-- The text of a header field where its end is looked for: behind the name and the spaces of a
field that the parser knows. -/
def fieldText (text : List UInt8) : List UInt8 :=
  if strBeginWith text contentLengthPre then (text.drop contentLengthPre.length).dropWhile (· = 32)
  else if strBeginWith text contentTypePre then (text.drop contentTypePre.length).dropWhile (· = 32)
  else text

/-- The text of a header field is not longer than what is left of the header. -/
theorem fieldText_suffix (text : List UInt8) : fieldText text <:+ text := by
  rw [fieldText]
  split
  · exact (List.dropWhile_suffix _).trans (List.drop_suffix _ _)
  · split
    · exact (List.dropWhile_suffix _).trans (List.drop_suffix _ _)
    · exact List.suffix_refl _

/-- The header fields of `hclient_rsp_parse`, in a buffer with a text of `total` bytes. -/
def hclientRspFields (rsp : HclientRsp) (total : ℕ) (rspLength : Option (List UInt8))
    (text : List UInt8) : HclientRsp :=
  if strBeginWith text crlf then
    match rspLength with
    | none => rsp
    | some value =>
      { rsp with length := atoi value, data := some (total - (text.length - crlf.length)) }
  else if text = [] then rsp
  else
    match h : crlfSplit (fieldText text) with
    | none => { rsp with code := 400 }
    | some (line, next) =>
      hclientRspFields rsp total (if strBeginWith text contentLengthPre then some line
        else rspLength) next
termination_by text.length
decreasing_by exact Nat.lt_of_lt_of_le (crlfSplit_length h) (fieldText_suffix text).length_le

/-- `hclient_rsp_parse` of a text; without a space behind the code it writes to a null pointer, and
does not return. -/
def hclientRspParse (rsp : HclientRsp) (text : List UInt8) : Option HclientRsp :=
  if strBeginWith text httpPre then
    match text.dropWhile (· ≠ 32) with
    | [] => some { rsp with code := 400 }
    | _ :: rspCode =>
      match rspCode.dropWhile (· ≠ 32) with
      | [] => none
      | _ :: reason =>
        let code := atoi (rspCode.takeWhile (· ≠ 32))
        if code = 200 then
          match crlfSplit reason with
          | none => some { rsp with code := 400 }
          | some (_, fields) =>
            some (hclientRspFields { rsp with code := code } text.length none fields)
        else some { rsp with code := code }
  else some { rsp with code := 400 }

/-- `HTTP/1.1 200 ` -/
def httpStatus : List UInt8 :=
  [0x48, 0x54, 0x54, 0x50, 0x2F, 0x31, 0x2E, 0x31, 0x20, 0x32, 0x30, 0x30, 0x20]

/-- A header field that gives the length of the body: its name in small or capital letters, and
digits with blanks around them. -/
def IsContentLength (length : ℕ) (field : List UInt8) : Prop :=
  ∃ name before digits after, field = name ++ (before ++ digits ++ after) ∧
    name.map toLower = contentLengthPre.map toLower ∧ (∀ c ∈ before, c = 32 ∨ c = 9) ∧
      (∀ c ∈ after, c = 32 ∨ c = 9) ∧
    digits ≠ [] ∧ (∀ c ∈ digits, isDigitByte c = true) ∧ digitsValue digits = length

/-- A response with code 200 and the length of the content, and a body of any length. -/
structure HttpResponse where
  reason : List UInt8
  fields : List (List UInt8)
  length : ℕ
  body : List UInt8
  reason_line : IsLine reason
  field_lines : ∀ field ∈ fields, field ≠ [] ∧ IsLine field
  declared : ∃ field ∈ fields, IsContentLength length field
  agreed : ∀ field ∈ fields, strBeginWith field contentLengthPre = true → IsContentLength length field

/-- The first line of a response, with its end. -/
def HttpResponse.statusLine (response : HttpResponse) : List UInt8 :=
  httpStatus ++ (response.reason ++ crlf)

/-- The bytes of a response before its body. -/
def HttpResponse.header (response : HttpResponse) : List UInt8 :=
  response.statusLine ++ (textLines response.fields ++ crlf)

/-- No field of a response has an end of a line in it. -/
theorem HttpResponse.fields_no_crlf (response : HttpResponse) :
    ∀ field ∈ response.fields, field ≠ [] ∧ ¬ crlf <:+: field := fun field hfield =>
  ⟨(response.field_lines field hfield).1, (response.field_lines field hfield).2.unbroken⟩

/-- A field that gives the length begins with its name. -/
theorem strBeginWith_contentLength {length : ℕ} {field : List UInt8}
    (h : IsContentLength length field) :
    strBeginWith field contentLengthPre = true := by
  obtain ⟨name, before, digits, after, rfl, hname, -⟩ := h
  have hlength : contentLengthPre.length = name.length := by
    rw [← List.length_map toLower, ← hname, List.length_map]
  rw [strBeginWith, hlength, List.take_left, hname, decide_eq_true_eq]

/-- The number that is read from a field that gives the length. -/
theorem atoi_contentLength {length : ℕ} {field : List UInt8} (h : IsContentLength length field) :
    atoi (fieldText field) = min (2 ^ 31 - 1) (length : ℤ) := by
  have hpre := strBeginWith_contentLength h
  obtain ⟨name, before, digits, after, rfl, hname, hbefore, hafter, hdigits, hall, rfl⟩ := h
  have hlength : contentLengthPre.length = name.length := by
    rw [← List.length_map toLower, ← hname, List.length_map]
  have hblank (c : UInt8) (hc : c = 32 ∨ c = 9) : isSpaceByte c = true := by
    rcases hc with rfl | rfl
    · rfl
    · rfl
  rw [fieldText, if_pos hpre, atoi_dropWhile, hlength, List.drop_left,
    atoi_digits (fun c hc => hblank c (hbefore c hc)) hdigits hall fun c hc => hblank c (hafter c hc)]

/-- The text of a field is inside its line. -/
theorem fieldText_line (line rest : List UInt8) :
    fieldText (line ++ crlf ++ rest) = fieldText line ++ crlf ++ rest := by
  have hlength := @strBeginWith_line line contentLengthPre (by decide) rest
  have htype := @strBeginWith_line line contentTypePre (by decide) rest
  rw [fieldText, fieldText, hlength, htype]
  split
  · next hpre => rw [drop_line hpre, dropWhile_line]
  · split
    · next hpre => rw [drop_line hpre, dropWhile_line]
    · rfl

/-- The text of a field has no end of a line in it. -/
theorem fieldText_absent {field : List UInt8} (hfield : ¬ crlf <:+: field) :
    ¬ crlf <:+: fieldText field :=
  fun hinside => hfield (hinside.trans (fieldText_suffix field).isInfix)

/-- What the parser takes for the length, after some fields. -/
def lastLength (rspLength : Option (List UInt8)) (fields : List (List UInt8)) : Option (List UInt8) :=
  fields.foldl (fun rspLength field => if strBeginWith field contentLengthPre
    then some (fieldText field) else rspLength) rspLength

/-- A field does not begin with the end of a line. -/
theorem strBeginWith_field {field : List UInt8} (hfield : field ≠ [] ∧ ¬ crlf <:+: field)
    (rest : List UInt8) : strBeginWith (field ++ crlf ++ rest) crlf = false := by
  obtain ⟨c, field, rfl⟩ := List.exists_cons_of_ne_nil hfield.1
  rw [strBeginWith, decide_eq_false_iff_not]
  intro heq
  have hc : c = 13 := eq_of_toLower (by decide) (List.cons.inj heq).1
  cases field with
  | nil => exact absurd (List.cons.inj (List.cons.inj heq).2).1 (by decide)
  | cons d field =>
    have hd : d = 10 := eq_of_toLower (by decide) (List.cons.inj (List.cons.inj heq).2).1
    exact hfield.2 ⟨[], field, by rw [hc, hd]; rfl⟩

/-- A header field without the end of its line. -/
theorem hclientRspFields_none (rsp : HclientRsp) (total : ℕ) (rspLength : Option (List UInt8))
    {text : List UInt8} (hstart : strBeginWith text crlf = false) (htext : text ≠ [])
    (hsplit : crlfSplit (fieldText text) = none) :
    hclientRspFields rsp total rspLength text = { rsp with code := 400 } := by
  rw [hclientRspFields.eq_def, hstart, if_neg Bool.false_ne_true, if_neg htext]
  split
  · rfl
  · next hsome =>
    rw [hsplit] at hsome
    cases hsome

/-- A header field with the end of its line. -/
theorem hclientRspFields_some (rsp : HclientRsp) (total : ℕ) (rspLength : Option (List UInt8))
    {text line rest : List UInt8} (hstart : strBeginWith text crlf = false) (htext : text ≠ [])
    (hsplit : crlfSplit (fieldText text) = some (line, rest)) :
    hclientRspFields rsp total rspLength text =
      hclientRspFields rsp total (if strBeginWith text contentLengthPre then some line else rspLength)
        rest := by
  rw [hclientRspFields.eq_def, hstart, if_neg Bool.false_ne_true, if_neg htext]
  split
  · next hnone =>
    rw [hsplit] at hnone
    cases hnone
  · next hsome =>
    rw [hsplit] at hsome
    obtain ⟨rfl, rfl⟩ := Prod.mk.inj (Option.some.inj hsome)
    rfl

/-- A field is passed over. -/
theorem hclientRspFields_line (rsp : HclientRsp) (total : ℕ) (rspLength : Option (List UInt8))
    {field : List UInt8}
    (hfield : field ≠ [] ∧ ¬ crlf <:+: field) (rest : List UInt8) :
    hclientRspFields rsp total rspLength (field ++ crlf ++ rest) =
      hclientRspFields rsp total (if strBeginWith field contentLengthPre then some (fieldText field)
      else rspLength) rest := by
  have hsplit := crlfSplit_of_absent (fieldText_absent hfield.2) rest
  rw [← fieldText_line] at hsplit
  rw [hclientRspFields_some rsp total rspLength (strBeginWith_field hfield rest) (by simp [hfield.1])
    hsplit, strBeginWith_line (by decide)]

/-- Some fields are passed over. -/
theorem hclientRspFields_lines (rsp : HclientRsp) (total : ℕ) (rspLength : Option (List UInt8))
    {fields : List (List UInt8)}
    (hfields : ∀ field ∈ fields, field ≠ [] ∧ ¬ crlf <:+: field) (rest : List UInt8) :
    hclientRspFields rsp total rspLength (textLines fields ++ rest) =
      hclientRspFields rsp total (lastLength rspLength fields) rest := by
  induction fields generalizing rspLength with
  | nil => rfl
  | cons field fields ih =>
    rw [textLines_cons, List.append_assoc,
      hclientRspFields_line rsp total rspLength (hfields field List.mem_cons_self),
      ih _ fun f hf => hfields f (List.mem_cons_of_mem field hf)]
    rfl

/-- The parser ends in front of an empty text without looking at what it has found. -/
theorem hclientRspFields_nil (rsp : HclientRsp) (total : ℕ) (rspLength : Option (List UInt8)) :
    hclientRspFields rsp total rspLength [] = rsp := by
  rw [hclientRspFields.eq_def, if_neg (by decide), if_pos rfl]

/-- The parser ends behind the header. -/
theorem hclientRspFields_crlf (rsp : HclientRsp) (total : ℕ) (value rest : List UInt8) :
    hclientRspFields rsp total (some value) (crlf ++ rest) =
      { rsp with length := atoi value, data := some (total - rest.length) } := by
  have hlength : (crlf ++ rest).length - crlf.length = rest.length := by
    rw [List.length_append]
    omega
  rw [hclientRspFields.eq_def, if_pos (by rfl), hlength]

/-- A text that is not empty and has no end of a line is a bad response. -/
theorem hclientRspFields_bad (rsp : HclientRsp) (total : ℕ) (rspLength : Option (List UInt8))
    {text : List UInt8}
    (htext : text ≠ []) (hmem : (10 : UInt8) ∉ text) :
    (hclientRspFields rsp total rspLength text).code = 400 := by
  have hstart : strBeginWith text crlf = false := by
    rw [strBeginWith, decide_eq_false_iff_not]
    intro heq
    have hlower : (10 : UInt8) ∈ (text.take crlf.length).map toLower := by rw [heq]; decide
    obtain ⟨c, hc, hc10⟩ := List.mem_map.mp hlower
    rw [eq_of_toLower (by decide) hc10] at hc
    exact hmem (List.mem_of_mem_take hc)
  have hnone : crlfSplit (fieldText text) = none :=
    crlfSplit_none fun h => hmem ((fieldText_suffix text).subset h)
  rw [hclientRspFields_none rsp total rspLength hstart htext hnone]

/-- A piece of the fields that does not have the end of the header is a bad response, or it ends
between two lines. -/
theorem hclientRspFields_piece (rsp : HclientRsp) (total : ℕ) (rspLength : Option (List UInt8))
    {fields : List (List UInt8)}
    (hfields : ∀ field ∈ fields, field ≠ [] ∧ IsLine field) {piece : List UInt8}
    (h : piece <+: textLines fields ++ crlf)
    (hne : piece ≠ textLines fields ++ crlf) :
    (hclientRspFields rsp total rspLength piece).code = 400 ∨
      ∃ k, piece = textLines (fields.take k) := by
  by_cases hempty : piece = []
  · exact .inr ⟨0, hempty⟩
  induction fields generalizing rspLength piece with
  | nil =>
    have hmem : (10 : UInt8) ∉ piece := by
      have hpiece : piece <+: [13] ++ [10] := h
      rcases List.prefix_concat_iff.mp hpiece with heq | hshort
      · exact absurd heq hne
      · exact fun hmem => absurd (hshort.subset hmem) (by decide)
    exact .inl (hclientRspFields_bad rsp total rspLength hempty hmem)
  | cons field fields ih =>
    rw [textLines_cons, List.append_assoc] at h hne
    have hfield := hfields field List.mem_cons_self
    rcases prefix_line hfield.2 h with hmem | ⟨piece', rfl, hpiece'⟩
    · exact .inl (hclientRspFields_bad rsp total rspLength hempty hmem)
    · have hne' : piece' ≠ textLines fields ++ crlf := fun heq => hne (by rw [heq])
      rw [hclientRspFields_line rsp total rspLength ⟨hfield.1, hfield.2.unbroken⟩]
      by_cases hempty' : piece' = []
      · exact .inr ⟨1, by rw [hempty']; simp [textLines]⟩
      · rcases ih _ (fun f hf => hfields f (List.mem_cons_of_mem field hf)) hpiece' hne' hempty'
          with hbad | ⟨k, hk⟩
        · exact .inl hbad
        · exact .inr ⟨k + 1, by rw [hk, List.take_succ_cons, textLines_cons]⟩

/-- Some length is found when a field gives it, and each one that gives a length gives the same. -/
theorem exists_lastLength {length : ℕ} {fields : List (List UInt8)} {rspLength : Option (List UInt8)}
    (hagreed : ∀ field ∈ fields, strBeginWith field contentLengthPre = true →
      IsContentLength length field)
    (h : (∃ field ∈ fields, IsContentLength length field) ∨
      ∃ value, rspLength = some value ∧ atoi value = min (2 ^ 31 - 1) (length : ℤ)) :
    ∃ value, lastLength rspLength fields = some value ∧ atoi value = min (2 ^ 31 - 1) (length : ℤ) := by
  induction fields generalizing rspLength with
  | nil =>
    rcases h with ⟨field, hfield, -⟩ | h
    · cases hfield
    · exact h
  | cons field fields ih =>
    rw [List.forall_mem_cons] at hagreed
    rw [lastLength, List.foldl_cons]
    apply ih hagreed.2
    by_cases hpre : strBeginWith field contentLengthPre = true
    · exact .inr ⟨_, if_pos hpre, atoi_contentLength (hagreed.1 hpre)⟩
    · rcases h with ⟨f, hf, hlength⟩ | ⟨value, hvalue, hatoi⟩
      · rcases List.mem_cons.mp hf with rfl | hf
        · exact absurd (strBeginWith_contentLength hlength) hpre
        · exact .inl ⟨f, hf, hlength⟩
      · exact .inr ⟨value, by rw [if_neg hpre, hvalue], hatoi⟩

/-- The parser goes on behind the code. -/
theorem hclientRspParse_status (rsp : HclientRsp) (text : List UInt8) :
    hclientRspParse rsp (httpStatus ++ text) =
      match crlfSplit text with
      | none => some { rsp with code := 400 }
      | some (_, fields) =>
        some (hclientRspFields { rsp with code := 200 } (httpStatus ++ text).length none
          fields) := by
  have hcode : (httpStatus ++ text).dropWhile (· ≠ 32) = 32 :: 50 :: 48 :: 48 :: 32 :: text := rfl
  have hreason : (50 :: 48 :: 48 :: 32 :: text).dropWhile (· ≠ 32) = 32 :: text := rfl
  have hdigits : (50 :: 48 :: 48 :: 32 :: text).takeWhile (· ≠ 32) = [50, 48, 48] := rfl
  have hnumber : atoi [50, 48, 48] = 200 := by decide
  rw [hclientRspParse, if_pos (by rfl)]
  simp only [hcode, hreason, hdigits, hnumber, if_true]

/-- A piece of the text before the reason is no good response. -/
theorem hclientRspParse_short (k : ℕ) (hk : k < httpStatus.length) :
    ∀ rsp, hclientRspParse .init (httpStatus.take k) = some rsp → rsp.code ≠ 200 := by
  have hall : ∀ k < httpStatus.length, (hclientRspParse .init (httpStatus.take k)).all fun rsp =>
    rsp.code ≠ 200 := by decide
  intro rsp hrsp
  have hk := hall k hk
  rw [hrsp] at hk
  exact of_decide_eq_true hk

/-- The parser passes over the first line. -/
theorem hclientRspParse_statusLine (rsp : HclientRsp) (response : HttpResponse) (text : List UInt8) :
    hclientRspParse rsp (response.statusLine ++ text) =
      some (hclientRspFields { rsp with code := 200 } (response.statusLine ++ text).length none
      text) := by
  have hsplit := crlfSplit_line response.reason_line text
  rw [HttpResponse.statusLine, List.append_assoc, hclientRspParse_status, hsplit]

/-- The length and the place of the body are found in a whole header. -/
theorem hclientRspParse_header (response : HttpResponse) (rest : List UInt8) :
    hclientRspParse .init (response.header ++ rest) =
      some { length := min (2 ^ 31 - 1) (response.length : ℤ), code := 200,
             data := some response.header.length } := by
  obtain ⟨value, hvalue, hatoi⟩ :=
    @exists_lastLength response.length response.fields none response.agreed (.inl response.declared)
  have htotal : (response.header ++ rest).length - rest.length = response.header.length := by
    rw [List.length_append]
    omega
  rw [HttpResponse.header, List.append_assoc, hclientRspParse_statusLine, List.append_assoc,
    hclientRspFields_lines _ _ _ response.fields_no_crlf, hvalue, hclientRspFields_crlf, hatoi,
    ← List.append_assoc,
    ← List.append_assoc, ← List.append_assoc, List.append_assoc response.statusLine,
    ← HttpResponse.header, htotal]

/-- A header that ends between two lines is taken for a response without a length. -/
theorem hclientRspParse_between (response : HttpResponse) (k : ℕ) :
    hclientRspParse .init (response.statusLine ++ textLines (response.fields.take k)) =
      some { length := 0, code := 200, data := none } := by
  have hfields : ∀ field ∈ response.fields.take k, field ≠ [] ∧ ¬ crlf <:+: field :=
    fun field hfield => response.fields_no_crlf field (List.mem_of_mem_take hfield)
  have hrest := hclientRspFields_lines { HclientRsp.init with code := 200 }
    (response.statusLine ++ textLines (response.fields.take k)).length none hfields []
  rw [List.append_nil, hclientRspFields_nil] at hrest
  rw [hclientRspParse_statusLine, hrest]
  rfl

/-- A piece of the header that is taken for a response with code 200 ends between two lines. -/
theorem hclientRspParse_piece (response : HttpResponse) {piece : List UInt8}
    (h : piece <+: response.header)
    (hne : piece ≠ response.header) {rsp : HclientRsp}
    (hrsp : hclientRspParse .init piece = some rsp) (hcode : rsp.code = 200) :
    ∃ k, piece = response.statusLine ++ textLines (response.fields.take k) := by
  rw [HttpResponse.header, HttpResponse.statusLine, List.append_assoc] at h hne
  rcases List.prefix_or_prefix_of_prefix h (List.prefix_append httpStatus _) with hshort | ⟨text, rfl⟩
  · rw [List.prefix_iff_eq_take] at hshort
    rcases Nat.lt_or_ge piece.length httpStatus.length with hlt | hge
    · rw [hshort] at hrsp
      exact absurd hcode (hclientRspParse_short _ hlt rsp hrsp)
    · rw [List.take_of_length_le hge] at hshort
      have hbad : hclientRspParse .init httpStatus = some { HclientRsp.init with code := 400 } :=
        hclientRspParse_status .init []
      rw [hshort, hbad] at hrsp
      rw [← Option.some.inj hrsp] at hcode
      cases hcode
  · rw [List.prefix_append_right_inj] at h
    rw [hclientRspParse_status] at hrsp
    rcases prefix_line response.reason_line h with hmem | ⟨text, rfl, htext⟩
    · rw [crlfSplit_none hmem] at hrsp
      rw [← Option.some.inj hrsp] at hcode
      cases hcode
    · rw [crlfSplit_line response.reason_line] at hrsp
      have hbad := hclientRspFields_piece { HclientRsp.init with code := 200 }
        (httpStatus ++ (response.reason ++ crlf ++ text)).length none response.field_lines htext
          fun heq => hne (by rw [heq])
      rcases hbad with hbad | ⟨k, hk⟩
      · rw [← Option.some.inj hrsp, hbad] at hcode
        cases hcode
      · exact ⟨k, by rw [hk, HttpResponse.statusLine, List.append_assoc httpStatus]⟩

/-- The first line of a response is no empty text. -/
theorem HttpResponse.statusLine_append_ne_nil (response : HttpResponse) (text : List UInt8) :
    response.statusLine ++ text ≠ [] := by
  intro hnil
  rw [statusLine, List.append_assoc] at hnil
  cases (List.append_eq_nil_iff.mp hnil).1

/-- There is no null character in the first lines of a response. -/
theorem HttpResponse.statusLine_text (response : HttpResponse) {fields : List (List UInt8)}
    (hfields : ∀ field ∈ fields, IsLine field) :
    ∀ c ∈ response.statusLine ++ textLines fields, decide (c ≠ 0) = true := by
  have hcrlf : ∀ c ∈ crlf, decide (c ≠ 0) = true := by decide +kernel
  have hline (line : List UInt8) (h : IsLine line) : ∀ c ∈ line, decide (c ≠ 0) = true :=
    fun c hc => decide_eq_true (h c hc).1
  simp only [statusLine, textLines, List.forall_mem_append, List.mem_flatMap]
  refine ⟨⟨by decide +kernel, hline _ response.reason_line, hcrlf⟩, ?_⟩
  rintro c ⟨field, hfield, hc⟩
  rcases List.mem_append.mp hc with hc | hc
  · exact hline field (hfields field hfield) c hc
  · exact hcrlf c hc

/-- There is no null character in a header. -/
theorem HttpResponse.header_text (response : HttpResponse) :
    ∀ c ∈ response.header, decide (c ≠ 0) = true := by
  have hlines := response.statusLine_text fun field hfield => (response.field_lines field hfield).2
  rw [header, ← List.append_assoc, List.forall_mem_append]
  exact ⟨hlines, by decide +kernel⟩

end DasEdge.Http
