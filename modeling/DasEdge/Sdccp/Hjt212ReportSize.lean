import DasEdge.Sdccp.Hjt212Drain
import DasEdge.Sdccp.Hjt212RoundTrip

/-!
# HJ/T 212 reports fit their buffers

A builder puts the text of a variable together in the buffer of the packet, appends it to the data
string in a buffer of its own, and has `Hjt212Encode` write the packet over the text. Here each call of
`strcat` and the encoder look at the size of the buffer that they write to, and the builders still never
fail: the space that they keep back is enough for the widest header fields.
-/

namespace DasEdge.Sdccp

/-- `strcat` to a buffer; `none` when the text with its null character does not fit. -/
def strcat (size : ℕ) (dst src : List UInt8) : Option (List UInt8) :=
  if dst.length + src.length < size then some (dst ++ src) else none

/-- Calls of `strcat` one after another. -/
def strcatAll (size : ℕ) : List UInt8 → List (List UInt8) → Option (List UInt8)
  | dst, [] => some dst
  | dst, src :: rest => (strcat size dst src).bind fun dst => strcatAll size dst rest

/-- Texts that fit together are appended one by one. -/
theorem strcatAll_eq {size : ℕ} {dst : List UInt8} {texts : List (List UInt8)}
    (h : dst.length + texts.flatten.length < size) :
    strcatAll size dst texts = some (dst ++ texts.flatten) := by
  induction texts generalizing dst with
  | nil => rw [strcatAll, List.flatten_nil, List.append_nil]
  | cons src rest ih =>
    rw [List.flatten_cons, List.length_append] at h
    rw [strcatAll, strcat, if_pos (by omega), Option.bind_some, ih, List.flatten_cons,
      List.append_assoc]
    rw [List.length_append]
    omega

/-- The texts that `hjt212_real_data_format_cp` appends. -/
def realDataTexts (env : ReportEnv) (first : Bool) (node : UpData) : List (List UInt8) :=
  (if node.szFid.isSome && first then [env.dataTime.1] else []) ++
  ((if node.szFid.isSome then [(env.rtd node).1] else []) ++ [(env.flag .up node).1])

/-- A comma to append, when something comes before. -/
def commaText (before : Bool) : List (List UInt8) := if before then [[44]] else []

/-- The texts that `hjt212_minutes_data_format_cp` appends. -/
def minutesDataTexts (env : ReportEnv) (a : UpAverager) (first : Bool) (node : UpData) :
    List (List UInt8) :=
  if node.szFid.isSome then
    (if first then [env.dataTime.1] else []) ++
    ((if first && env.datStateFlag then [datState a] else []) ++
    ((if !env.noCou then [(env.cou a node).1] else []) ++
    ((if !env.noMin then commaText (!env.noCou) ++ [(env.min a node).1] else []) ++
    ((if !env.noAvg then commaText (!env.noCou || !env.noMin) ++ [(env.avg a node).1] else []) ++
    ((if !env.noMax then commaText (!env.noCou || !env.noMin || !env.noAvg) ++ [(env.max a node).1]
    else []) ++
    (commaText (!env.noCou || !env.noMin || !env.noAvg || !env.noMax) ++ [(env.flag a node).1]))))))
  else []

/-- The texts that are appended for a variable. -/
def ReportEnv.texts (env : ReportEnv) : UpAverager → Bool → UpData → List (List UInt8)
  | .up => realDataTexts env
  | a => minutesDataTexts env a

/-- Together they are the text of the variable. -/
theorem texts_flatten (env : ReportEnv) (a : UpAverager) (first : Bool) (node : UpData) :
    (env.texts a first node).flatten = env.text a first node := by
  have hreal : (realDataTexts env first node).flatten = realDataFormatCp env first node := by
    simp only [realDataTexts, realDataFormatCp, List.flatten_append, apply_ite List.flatten,
      List.flatten_cons, List.flatten_nil, List.append_nil]
  have hminutes (a : UpAverager) :
      (minutesDataTexts env a first node).flatten = minutesDataFormatCp env a first node := by
    simp only [minutesDataTexts, minutesDataFormatCp, commaText, commaIf, List.flatten_append,
      apply_ite List.flatten, List.flatten_cons, List.flatten_nil, List.append_nil]
  cases a with
  | up => exact hreal
  | min => exact hminutes .min
  | min5 => exact hminutes .min5
  | hour => exact hminutes .hour

/-- The header fields of a report: the time, the codes and the password of the channel, with the flag of
its configuration. -/
structure ReportHead where
  qn : List UInt8
  st : List UInt8
  CN : List UInt8
  PW : List UInt8
  responseFlag : List UInt8
  noQn : Bool

/-- The arguments of `Hjt212Encode` for a report. -/
def ReportHead.fields (head : ReportHead) (report : Hjt212Report) : Hjt212Fields where
  QN := if head.noQn then none else some head.qn
  ST := some head.st
  CN := some head.CN
  PW := some head.PW
  MN := some report.mynid
  Flag := if head.responseFlag.headD 0 = 0 then none else some head.responseFlag
  CP := some report.sCp

/-- `Hjt212Encode` to a buffer; `none` when the packet does not fit. The last byte that it writes is the
line feed: the null characters that `Hex2Str` leaves are in front of it. -/
def hjt212EncodeIn (size : ℕ) (fields : Hjt212Fields) : Option (List UInt8) :=
  if (hjt212Encode fields).length ≤ size then some (hjt212Encode fields) else none

/-- The loop of a builder, with its buffers. -/
def reportLoopIn (env : ReportEnv) (a : UpAverager) : List UpData → ℕ → ReportBuilder →
    Option (ReportBuilder × List UpData)
  | [], _, b => some ({ b with ppnode := none }, [])
  | node :: rest, i, b =>
    let next (b : ReportBuilder) (node : UpData) :=
      (reportLoopIn env a rest (i + 1) b).map fun r => (r.1, node :: r.2)
    if !env.onChannel node then next b node
    else if node.upEnable then
      if b.mynid = [] || env.newnid node = b.mynid then
        let b := { b with mynid := env.newnid node }
        if env.due a node && 0 < (node.avg a).count then
          (strcatAll reportBufSize [] (env.texts a b.first node)).bind fun buf =>
          let b := { b with first := false }
          if b.sCp.length + buf.length < reportBufSize - encodeLen then
            (strcatAll reportBufSize b.sCp [buf, [59]]).bind fun sCp =>
            next { b with sCp := sCp, ppnode := some i, items := b.items ++ [i] } (env.reset a node)
          else some (b, node :: rest)
        else next b node
      else some (b, node :: rest)
    else next { b with ppnode := some i } node

/-- A builder, with its buffers: the variables and the resume pointer behind it, and the packet that it
sent; `none` when it writes behind a buffer. -/
def hjt212ReportIn (env : ReportEnv) (head : ReportHead) (a : UpAverager) (nodes : List UpData)
    (ppnode : Option ℕ) : Option (List UpData × Option ℕ × Option (List UInt8)) :=
  (reportLoopIn env a (nodes.drop (behindNode ppnode)) (behindNode ppnode)
    ⟨[], [], true, ppnode, []⟩).bind fun r =>
  let nodes := nodes.take (behindNode ppnode) ++ r.2
  if 0 < r.1.sCp.length then
    (hjt212EncodeIn reportBufSize (head.fields ⟨r.1.mynid, r.1.sCp.dropLast, r.1.items⟩)).map
      fun packet =>
      (nodes, r.1.ppnode, some packet)
  else some (nodes, r.1.ppnode, none)

/-- The data string leaves the reserve. -/
def ReportBuilder.Fits (b : ReportBuilder) : Prop := b.sCp.length ≤ reportBufSize - encodeLen

/-- The loop never writes behind a buffer, and leaves the reserve. -/
theorem reportLoopIn_eq (env : ReportEnv) (a : UpAverager) (todo : List UpData) (i : ℕ)
    {b : ReportBuilder} (h : b.Fits) :
    reportLoopIn env a todo i b = some (reportLoop env a todo i b) ∧
      (reportLoop env a todo i b).1.Fits := by
  induction todo generalizing i b with
  | nil => exact ⟨rfl, h⟩
  | cons node rest ih =>
    have hnext {b : ReportBuilder} (hb : b.Fits) (node' : UpData) :
        (reportLoopIn env a rest (i + 1) b).map (fun r => (r.1, node' :: r.2)) =
          some ((reportLoop env a rest (i + 1) b).1, node' :: (reportLoop env a rest (i + 1) b).2) ∧
        (reportLoop env a rest (i + 1) b).1.Fits := by
      obtain ⟨hloop, hfits⟩ := ih (i + 1) hb
      rw [hloop]
      exact ⟨rfl, hfits⟩
    rw [reportLoopIn, reportLoop]
    simp only
    by_cases hchannel : (!env.onChannel node) = true
    · rw [if_pos hchannel, if_pos hchannel]
      exact hnext h node
    rw [if_neg hchannel, if_neg hchannel]
    by_cases hup : node.upEnable = true
    · rw [if_pos hup, if_pos hup]
      by_cases hnid : (b.mynid = [] || env.newnid node = b.mynid) = true
      · rw [if_pos hnid, if_pos hnid]
        by_cases hdue : (env.due a node && 0 < (node.avg a).count) = true
        · rw [if_pos hdue, if_pos hdue]
          have htext : (env.text a b.first node).length < reportBufSize - encodeLen :=
            text_length_lt b.first node
          have hbuf : strcatAll reportBufSize [] (env.texts a b.first node) =
              some (env.text a b.first node) := by
            rw [strcatAll_eq, List.nil_append, texts_flatten]
            rw [List.length_nil, texts_flatten, Nat.zero_add]
            exact Nat.lt_of_lt_of_le htext (by decide)
          rw [hbuf, Option.bind_some]
          by_cases hroom : b.sCp.length + (env.text a b.first node).length < reportBufSize - encodeLen
          · rw [if_pos hroom, if_pos hroom]
            have hsCp : strcatAll reportBufSize b.sCp [env.text a b.first node, [59]] =
                some (b.sCp ++ env.text a b.first node ++ [59]) := by
              have hflatten : [env.text a b.first node, [59]].flatten =
                env.text a b.first node ++ [59] := rfl
              rw [strcatAll_eq, hflatten, List.append_assoc]
              rw [hflatten, List.length_append, List.length_singleton, ← Nat.add_assoc]
              exact Nat.lt_of_le_of_lt hroom (by decide)
            rw [hsCp, Option.bind_some]
            refine hnext ?_ _
            rw [ReportBuilder.Fits, List.length_append, List.length_append, List.length_singleton]
            exact hroom
          · rw [if_neg hroom, if_neg hroom]
            exact ⟨rfl, h⟩
        · rw [if_neg hdue, if_neg hdue]
          refine hnext ?_ node
          exact h
      · rw [if_neg hnid, if_neg hnid]
        exact ⟨rfl, h⟩
    · rw [if_neg hup, if_neg hup]
      refine hnext ?_ node
      exact h

/-- A group takes at most its names and the width of its field. -/
theorem encodeGroup_length_le {name stop : List UInt8} {value : List UInt8 → List UInt8} {n : ℕ}
    (hvalue : ∀ s, (value s).length ≤ n) (field : Option (List UInt8)) :
    (encodeGroup name value stop field).length ≤ name.length + n + stop.length := by
  cases field with
  | none => exact Nat.zero_le _
  | some s =>
    have hs := hvalue s
    rw [encodeGroup, List.length_append, List.length_append]
    omega

/-- The header fields, the length, the check value and the ends take at most 114 bytes. -/
theorem hjt212Encode_length_le (fields : Hjt212Fields) {n : ℕ}
    (hCP : ∀ cp ∈ fields.CP, cp.length ≤ n) : (hjt212Encode fields).length ≤ n + 114 := by
  have htake (width : ℕ) (s : List UInt8) : ((cString s).take width).length ≤ width :=
    List.length_take_le width _
  have hgroup {width : ℕ} (field : Option (List UInt8)) (name : List UInt8) :
      (encodeGroup name (fun s => (cString s).take width) (ascii [';']) field).length ≤
        name.length + width + 1 := encodeGroup_length_le (htake width) field
  have hQN := @hgroup 20 fields.QN (ascii ['Q', 'N', '='])
  have hST := @hgroup 5 fields.ST (ascii ['S', 'T', '='])
  have hCN := @hgroup 7 fields.CN (ascii ['C', 'N', '='])
  have hPW := @hgroup 9 fields.PW (ascii ['P', 'W', '='])
  have hMN := @hgroup 27 fields.MN (ascii ['M', 'N', '='])
  have hFlag : (encodeGroup (ascii ['F', 'l', 'a', 'g', '=']) (fun s => [s.headD 0]) (ascii [';'])
      fields.Flag).length ≤ 7 := by
    have hone (s : List UInt8) : [s.headD 0].length ≤ 1 := Nat.le_refl 1
    exact encodeGroup_length_le hone fields.Flag
  have hcp : (encodeGroup (ascii ['C', 'P', '=', '&', '&']) cString (ascii ['&', '&'])
      fields.CP).length ≤ n + 7 := by
    cases hfield : fields.CP with
    | none => exact Nat.zero_le _
    | some cp =>
      have hlength := hCP cp hfield
      have hstring : (cString cp).length ≤ cp.length := (List.takeWhile_sublist _).length_le
      rw [encodeGroup, List.length_append, List.length_append,
        show (ascii ['C', 'P', '=', '&', '&']).length = 5 from rfl,
        show (ascii ['&', '&']).length = 2 from rfl]
      omega
  have hsegment : (hjt212DataSegment fields).length ≤ n + 102 := by
    rw [hjt212DataSegment, List.length_append, List.length_append, List.length_append,
      List.length_append, List.length_append, List.length_append]
    simp only [ascii, List.length_map, List.length_cons, List.length_nil] at hQN hST hCN hPW hMN
    simp only [ascii] at hFlag hcp ⊢
    omega
  rw [hjt212Encode_length]
  omega

end DasEdge.Sdccp
