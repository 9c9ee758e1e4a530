import DasEdge.Library.MemoryText
import DasEdge.Sdccp.Hjt212Bounds
import DasEdge.Sdccp.Hjt212Scan
import Mathlib.Data.List.TakeWhile

/-!
# What earlier frames leave for the HJ/T 212 parser

The parser works on the text from the data segment on up to the first null character. The check
value and CR LF behind the segment belong to that text, and so does what earlier and longer frames
left in the buffer. The fields of a frame are its own only when each of them is found in the frame
and ends there, or when the frame has a null character.
-/

namespace DasEdge.Sdccp

open DasEdge.Library

/-! ### Searching a text that goes on -/

/-- What `strstr` finds is the rest of the text, and starts with the key. -/
theorem strstr_found {key text p : List UInt8} (h : strstr key text = some p) :
    key <+: p ∧ p <:+ text := by
  induction text with
  | nil =>
    unfold strstr at h
    split at h
    · next hkey =>
      cases h
      exact ⟨hkey ▸ List.prefix_refl _, List.suffix_refl _⟩
    · cases h
  | cons c rest ih =>
    unfold strstr at h
    split at h
    · next hkey =>
      cases h
      exact ⟨hkey, List.suffix_refl _⟩
    · exact ⟨(ih h).1, (ih h).2.trans (List.suffix_cons c rest)⟩

/-- A key that is found in a text is found at the same place when the text goes on. -/
theorem strstr_append {key text p : List UInt8} (hkey : key ≠ []) (h : strstr key text = some p)
    (rest : List UInt8) :
    strstr key (text ++ rest) = some (p ++ rest) := by
  induction text with
  | nil =>
    unfold strstr at h
    rw [if_neg hkey] at h
    cases h
  | cons c text ih =>
    unfold strstr at h
    rw [List.cons_append]
    unfold strstr
    split at h
    · next hstands =>
      cases h
      exact if_pos (hstands.trans (List.prefix_append (c :: text) rest))
    · next hnot =>
      have hfound := strstr_found h
      have hlength : key.length ≤ (c :: text).length :=
        hfound.1.length_le.trans (hfound.2.length_le.trans (Nat.le_succ _))
      refine (if_neg fun hstands => hnot ?_).trans (ih h)
      exact List.prefix_of_prefix_length_le hstands (List.prefix_append (c :: text) rest) hlength

/-- A key that a text does not have, and that its last character does not belong to, is looked for
behind it. -/
theorem strstr_behind {key text : List UInt8} {last : UInt8} (hlast : last ∉ key)
    (h : strstr key (text ++ [last]) = none)
    (rest : List UInt8) : strstr key (text ++ [last] ++ rest) = strstr key rest := by
  induction text with
  | nil =>
    rw [List.nil_append, List.singleton_append]
    conv_lhs => unfold strstr
    refine if_neg fun hstands => ?_
    cases key with
    | nil => exact absurd h (by simp [strstr])
    | cons k key =>
      obtain rfl := (List.cons_prefix_cons.mp hstands).1
      exact hlast List.mem_cons_self
  | cons c text ih =>
    rw [List.cons_append] at h
    unfold strstr at h
    split at h
    · cases h
    · next hnot =>
      rw [List.cons_append, List.cons_append]
      conv_lhs => unfold strstr
      rw [if_neg, ih h]
      intro hstands
      have hmem : key.length ≤ (c :: (text ++ [last])).length := by
        by_contra hlong
        have hstart : c :: (text ++ [last]) <+: key :=
          List.prefix_of_prefix_length_le (List.prefix_append (c :: (text ++ [last])) rest)
            hstands (by omega)
        exact hlast (hstart.subset (by simp))
      exact hnot (List.prefix_of_prefix_length_le hstands
        (List.prefix_append (c :: (text ++ [last])) rest) hmem)

/-- The characters that `sscanf` takes end in the text. -/
def SscanfEnds (width : ℕ) (stop : UInt8) (text : List UInt8) : Prop :=
  stop ∈ text ∨ width ≤ text.length

instance (width : ℕ) (stop : UInt8) (text : List UInt8) : Decidable (SscanfEnds width stop text) := by
  unfold SscanfEnds; infer_instance

/-- Without the stop the whole text is taken. -/
theorem takeWhile_ne_eq_self {stop : UInt8} {text : List UInt8} (h : stop ∉ text) :
    text.takeWhile (· ≠ stop) = text := by
  refine List.takeWhile_eq_self_iff.mpr fun c hc => decide_eq_true ?_
  rintro rfl
  exact h hc

/-- Behind the place where they end, the text does not matter. -/
theorem SscanfEnds.append {width : ℕ} {stop : UInt8} {text : List UInt8}
    (h : SscanfEnds width stop text)
    (rest : List UInt8) : sscanf width stop (text ++ rest) = sscanf width stop text := by
  unfold sscanf
  rw [List.takeWhile_append]
  split
  · next hall =>
    have hself : text.takeWhile (· ≠ stop) = text := (List.takeWhile_prefix _).eq_of_length hall
    have hlong : width ≤ text.length := by
      refine h.resolve_left fun hmem => ?_
      have hne := List.takeWhile_eq_self_iff.mp hself stop hmem
      exact of_decide_eq_true hne rfl
    rw [hself, List.take_append_of_le_length hlong]
  · rfl

/-- Where they do not end, one more character is taken. -/
theorem sscanf_goes_on {width : ℕ} {stop c : UInt8} {text : List UInt8}
    (h : ¬ SscanfEnds width stop text)
    (hc : c ≠ stop) : sscanf width stop (text ++ [c]) ≠ sscanf width stop text := by
  obtain ⟨hmem, hshort⟩ := not_or.mp h
  have hmore : stop ∉ text ++ [c] := by
    rw [List.mem_append, List.mem_singleton]
    exact not_or.mpr ⟨hmem, hc.symm⟩
  unfold sscanf
  rw [takeWhile_ne_eq_self hmore, takeWhile_ne_eq_self hmem]
  intro heq
  have hlength := congrArg List.length heq
  rw [List.length_take, List.length_take, List.length_append, List.length_singleton] at hlength
  omega

/-! ### Fields that a text settles -/

/-- A field is found in a text and ends there. -/
def Hjt212Key.Settled (k : Hjt212Key) (text : List UInt8) : Prop :=
  ∃ p, strstr k.key text = some p ∧ SscanfEnds k.width 59 (p.drop k.key.length)

/-- The data string is found in a text and ends there, and it is too long for the test on its length
to fail. -/
def CpSettled (text : List UInt8) : Prop :=
  ∃ p, strstr keyCP.key text = some p ∧ 13 < p.length ∧
    SscanfEnds keyCP.width 38 (p.drop keyCP.key.length)

/-- A frame whose text behind the length settles every field, or ends in it. -/
def SelfContained (frame : List UInt8) : Prop :=
  0 ∈ frame.drop 6 ∨ (∀ k ∈ hjt212Keys, k.Settled (frame.drop 6)) ∧ CpSettled (frame.drop 6)

/-- Characters that can stand in a buffer behind a frame without ending the text or a frame. -/
def Harmless (text : List UInt8) : Prop := ∀ c ∈ text, c ≠ 0 ∧ c ≠ 10

/-- A part of harmless characters, and one more. -/
theorem Harmless.concat {text : List UInt8} (h : Harmless text) {c : UInt8} (hc : c ≠ 0 ∧ c ≠ 10) :
    Harmless (text ++ [c]) := by
  intro b hb
  rcases List.mem_append.mp hb with hb | hb
  · exact h b hb
  · rwa [List.mem_singleton.mp hb]

/-- Some letters. -/
theorem harmless_x (n : ℕ) : Harmless (List.replicate n 120) := by
  intro c hc
  rw [List.eq_of_mem_replicate hc]
  decide

/-- The keys are not empty and harmless. -/
theorem hjt212Keys_harmless : ∀ k ∈ keyCP :: hjt212Keys, k.key ≠ [] ∧ Harmless k.key ∧ 0 < k.width := by
  unfold Harmless
  decide +kernel

/-- A field that a text settles has the same value when the text goes on. -/
theorem Hjt212Key.Settled.value {k : Hjt212Key} {text : List UInt8} (h : k.Settled text)
    (hkey : k.key ≠ [])
    (rest : List UInt8) : k.value (text ++ rest) = k.value text := by
  obtain ⟨p, hfound, hends⟩ := h
  have hlength := (strstr_found hfound).1.length_le
  unfold Hjt212Key.value
  rw [strstr_append hkey hfound, hfound]
  change sscanf k.width 59 ((p ++ rest).drop k.key.length) = sscanf k.width 59 (p.drop k.key.length)
  rw [List.drop_append_of_le_length hlength, hends.append]

/-- A data string that a text settles is the same when the text goes on. -/
theorem CpSettled.hjt212Cp {text : List UInt8} (h : CpSettled text) (rest : List UInt8) :
    hjt212Cp (text ++ rest) = hjt212Cp text := by
  obtain ⟨p, hfound, hlong, hends⟩ := h
  have hlength := (strstr_found hfound).1.length_le
  unfold DasEdge.Sdccp.hjt212Cp
  rw [strstr_append (by decide) hfound, hfound]
  change (if (p ++ rest).length = 13 then _ else _) = if p.length = 13 then _ else _
  rw [if_neg (by rw [List.length_append]; omega), if_neg (by omega),
    List.drop_append_of_le_length hlength, hends.append]

/-- A text that settles every field is parsed alike whatever follows it. -/
theorem hjt212ParsePack_append {text : List UInt8} (hkeys : ∀ k ∈ hjt212Keys, k.Settled text)
    (hcp : CpSettled text)
    (rest : List UInt8) : hjt212ParsePack (text ++ rest) = hjt212ParsePack text := by
  have hvalue : ∀ k ∈ hjt212Keys, k.value (text ++ rest) = k.value text := fun k hk =>
    (hkeys k hk).value (hjt212Keys_harmless k (List.mem_cons_of_mem _ hk)).1 rest
  unfold hjt212ParsePack
  rw [hcp.hjt212Cp, hvalue keyQN (by simp [hjt212Keys]), hvalue keyCN (by simp [hjt212Keys]),
    hvalue keyST (by simp [hjt212Keys]), hvalue keyPW (by simp [hjt212Keys]),
    hvalue keyMN (by simp [hjt212Keys]),
    hvalue keyFlag (by simp [hjt212Keys])]

/-- A field that a text does not settle has another value when the right characters follow. -/
theorem Hjt212Key.value_changes {k : Hjt212Key} (hk : k ∈ hjt212Keys) {text : List UInt8}
    (h : ¬ k.Settled (text ++ [10])) :
    ∃ rest, Harmless rest ∧ k.value (text ++ [10] ++ rest) ≠ k.value (text ++ [10]) := by
  obtain ⟨hkey, hharmless, hwidth⟩ := hjt212Keys_harmless k (List.mem_cons_of_mem _ hk)
  unfold Hjt212Key.value
  cases hfound : strstr k.key (text ++ [10]) with
  | none =>
    have hbehind := strstr_behind (fun hmem => (hharmless 10 hmem).2 rfl) hfound (k.key ++ [120])
    have hstands : strstr k.key (k.key ++ [120]) = some (k.key ++ [120]) := by
      obtain ⟨c, key, hcons⟩ := List.exists_cons_of_ne_nil hkey
      rw [hcons]
      exact if_pos (List.prefix_append _ _)
    refine ⟨k.key ++ [120], hharmless.concat (by decide), ?_⟩
    have hgoes : ¬ SscanfEnds k.width 59 [] := by
      rintro (hmem | hshort)
      · cases hmem
      · exact Nat.not_le.mpr hwidth hshort
    have htaken := sscanf_goes_on hgoes (show (120 : UInt8) ≠ 59 by decide)
    rw [hbehind, hstands]
    change sscanf k.width 59 ((k.key ++ [120]).drop k.key.length) ≠ []
    rw [List.drop_left]
    simpa [sscanf] using htaken
  | some p =>
    have hlength := (strstr_found hfound).1.length_le
    have hgoes : ¬ SscanfEnds k.width 59 (p.drop k.key.length) := fun hends => h ⟨p, hfound, hends⟩
    refine ⟨[120], harmless_x 1, ?_⟩
    rw [strstr_append hkey hfound]
    change sscanf k.width 59 ((p ++ [120]).drop k.key.length) ≠ _
    rw [List.drop_append_of_le_length hlength]
    exact sscanf_goes_on hgoes (by decide)

/-- A data string that a text does not settle is another one when the right characters follow. -/
theorem hjt212Cp_changes {text : List UInt8} (h : ¬ CpSettled (text ++ [10])) :
    ∃ rest, Harmless rest ∧ hjt212Cp (text ++ [10] ++ rest) ≠ hjt212Cp (text ++ [10]) := by
  obtain ⟨hkey, hharmless, -⟩ := hjt212Keys_harmless keyCP List.mem_cons_self
  unfold hjt212Cp
  cases hfound : strstr keyCP.key (text ++ [10]) with
  | none =>
    have hbehind := strstr_behind (fun hmem => (hharmless 10 hmem).2 rfl) hfound (keyCP.key ++ [120])
    refine ⟨keyCP.key ++ [120], hharmless.concat (by decide), ?_⟩
    rw [hbehind]
    decide
  | some p =>
    have hlength := (strstr_found hfound).1.length_le
    rcases Nat.lt_trichotomy p.length 13 with hshort | heq | hlong
    · refine ⟨List.replicate (13 - p.length) 120, harmless_x _, ?_⟩
      rw [strstr_append hkey hfound]
      change (if (p ++ _).length = 13 then _ else _) ≠ if p.length = 13 then _ else _
      rw [if_pos (by rw [List.length_append, List.length_replicate]; omega), if_neg (by omega)]
      simp
    · refine ⟨[120], harmless_x 1, ?_⟩
      rw [strstr_append hkey hfound]
      change (if (p ++ _).length = 13 then _ else _) ≠ if p.length = 13 then _ else _
      rw [if_neg (by rw [List.length_append, List.length_singleton]; omega), if_pos heq]
      simp
    · have hgoes : ¬ SscanfEnds keyCP.width 38 (p.drop keyCP.key.length) :=
        fun hends => h ⟨p, hfound, hlong, hends⟩
      refine ⟨[120], harmless_x 1, ?_⟩
      rw [strstr_append hkey hfound]
      change (if (p ++ _).length = 13 then _ else _) ≠ if p.length = 13 then _ else _
      rw [if_neg (by rw [List.length_append]; omega), if_neg (by omega),
        List.drop_append_of_le_length hlength]
      exact fun heq => sscanf_goes_on hgoes (by decide) (Option.some.inj heq)

/-- A frame's text that does not settle every field is parsed otherwise when the right characters
follow. -/
theorem hjt212ParsePack_changes {text : List UInt8}
    (h : ¬ ((∀ k ∈ hjt212Keys, k.Settled (text ++ [10])) ∧ CpSettled (text ++ [10]))) :
    ∃ rest, Harmless rest ∧ hjt212ParsePack (text ++ [10] ++ rest) ≠
      hjt212ParsePack (text ++ [10]) := by
  by_cases hcp : CpSettled (text ++ [10])
  · obtain ⟨k, hk, hnot⟩ : ∃ k ∈ hjt212Keys, ¬ k.Settled (text ++ [10]) := by
      by_contra hall
      exact h ⟨fun k hk => by_contra fun hnot => hall ⟨k, hk, hnot⟩, hcp⟩
    obtain ⟨rest, hharmless, hne⟩ := k.value_changes hk hnot
    refine ⟨rest, hharmless, fun heq => hne ?_⟩
    have hdata := Hjt212Data.mk.inj heq
    simp only [hjt212Keys, List.mem_cons, List.not_mem_nil, or_false] at hk
    rcases hk with rfl | rfl | rfl | rfl | rfl | rfl
    · exact hdata.1
    · exact hdata.2.1
    · exact hdata.2.2.1
    · exact hdata.2.2.2.1
    · exact hdata.2.2.2.2.1
    · exact hdata.2.2.2.2.2.1
  · obtain ⟨rest, hharmless, hne⟩ := hjt212Cp_changes hcp
    exact ⟨rest, hharmless, fun heq => hne (Hjt212Data.mk.inj heq).2.2.2.2.2.2⟩

/-! ### Histories of the receiver -/

/-- A receiver as it is opened: its buffer is cleared, and other memory lies behind it. -/
def hjt212Opened (behind : ℕ → UInt8) : Hjt212Receiver :=
  ⟨fun i => if i < hjt212BufSize then 0 else behind (i - hjt212BufSize), 0, .head, []⟩

/-- A frame that passes the receiver's test: its first CR LF is its last one, it has the least
length of a frame and it fits the buffer. -/
structure Hjt212ValidFrame (frame : List UInt8) : Prop where
  shape : ∃ bytes, frame = 35 :: 35 :: (bytes ++ [0x0d, 0x0a]) ∧ NoCrLf (35 :: 35 :: (bytes ++ [0x0d]))
  least : 18 ≤ frame.length
  fits : frame.length < hjt212BufSize
  accepted : (hjt212Package (fun i => frame.getD i 0) frame.length).accepted frame.length = true

/-- What the parser extracts from a frame that comes behind a history, and whether it accepts the
password. -/
def ParsedBehind (behind : ℕ → UInt8) (szPW history frame : List UInt8) (xData : Hjt212Data)
    (accepted : Bool) : Prop :=
  ∃ xPack text, (hjt212PutBytes (hjt212PutBytes (hjt212Opened behind) history) frame).parsed =
      (hjt212PutBytes (hjt212Opened behind) history).parsed ++ [xPack] ∧
    TextAt xPack.pData text ∧ xData = hjt212ParsePack text ∧ accepted = xData.passwordAccepted szPW

/-- The receiver stores the next frame at the start of its buffer; behind other histories it does
not see it. -/
def AtStartBehind (behind : ℕ → UInt8) (history : List UInt8) : Prop :=
  (hjt212PutBytes (hjt212Opened behind) history).nPos = 0

/-- The parser does the same with a frame behind any two histories. -/
def HistoryFree (frame : List UInt8) : Prop :=
  ∀ behind szPW history history', AtStartBehind behind history → AtStartBehind behind history' →
    ∀ xData xData' accepted accepted', ParsedBehind behind szPW history frame xData accepted →
      ParsedBehind behind szPW history' frame xData' accepted' → xData = xData' ∧ accepted = accepted'

/-- The test of a package depends on the bytes of the frame only. -/
theorem accepted_congr {pBuffer pBuffer' : ℕ → UInt8} {nPos : ℕ}
    (h : ∀ i < nPos, pBuffer i = pBuffer' i)
    (hlower : 18 ≤ nPos) (hupper : nPos < hjt212BufSize) :
    (hjt212Package pBuffer nPos).accepted nPos = (hjt212Package pBuffer' nPos).accepted nPos := by
  rw [hjt212BufSize] at hupper
  have hlen : (hjt212Package pBuffer nPos).btLen = (hjt212Package pBuffer' nPos).btLen :=
    funext fun i => h (2 + i) (by omega)
  have hulLen : (hjt212Package pBuffer nPos).ulLen = (hjt212Package pBuffer' nPos).ulLen := by
    unfold Hjt212Package.ulLen
    rw [hlen]
  have hcheck : (hjt212Package pBuffer nPos).btCheck = (hjt212Package pBuffer' nPos).btCheck :=
    funext fun i => h (nPos - 6 + i) (by omega)
  unfold Hjt212Package.accepted
  rw [hulLen, hcheck]
  by_cases hlength : (hjt212Package pBuffer' nPos).ulLen + 12 = nPos.toUInt32
  · have hcount : (hjt212Package pBuffer' nPos).ulLen.toNat ≤ nPos - 12 := by
      have heq : (hjt212Package pBuffer' nPos).ulLen = nPos.toUInt32 - 12 := by
        rw [← hlength, UInt32.add_sub_cancel]
      have hplace : nPos.toUInt32.toNat = nPos := Nat.mod_eq_of_lt (by omega)
      rw [heq, UInt32.toNat_sub_of_le _ _ (by rw [UInt32.le_iff_toNat_le, hplace]; exact (by omega : 12 ≤ nPos)), hplace]
      exact Nat.le_refl _
    have hcrc : hjt212GetCrc16 (hjt212Package pBuffer nPos).pData (hjt212Package pBuffer' nPos).ulLen =
        hjt212GetCrc16 (hjt212Package pBuffer' nPos).pData (hjt212Package pBuffer' nPos).ulLen :=
      hjt212GetCrc16_congr fun i hi => h (6 + i) (by omega)
    rw [hcrc]
  · rw [decide_eq_false hlength, Bool.false_and, Bool.false_and]

/-- An encoded packet is a valid frame. -/
theorem hjt212ValidFrame_encode {fields : Hjt212Fields} (hnone : fields.NoCrLf)
    (hlower : 18 ≤ (hjt212Encode fields).length)
    (hupper : (hjt212Encode fields).length < hjt212BufSize) :
    Hjt212ValidFrame (hjt212Encode fields) := by
  have haccepted := (hjt212Encode_accepted (fun _ => 0) fields hupper).2
  rw [← hjt212Encode_length] at haccepted
  exact ⟨hjt212Encode_clean hnone, hlower, hupper, haccepted⟩

/-- A valid frame that is stored at the start of the buffer is handed to the parser, over what was
in the buffer. -/
theorem Hjt212ValidFrame.put {frame : List UInt8} (h : Hjt212ValidFrame frame) {r : Hjt212Receiver}
    (hstart : r.nPos = 0) :
    hjt212PutBytes r frame = ⟨collected r.pBuffer frame, 0, .head,
      r.parsed ++ [hjt212Package (collected r.pBuffer frame) frame.length]⟩ := by
  obtain ⟨bytes, hframe, hnone⟩ := h.shape
  have hlength : bytes.length + 4 = frame.length := by
    rw [hframe]
    simp
  have haccepted : (hjt212Package (collected r.pBuffer frame) frame.length).accepted
      frame.length = true := by
    rw [← h.accepted]
    refine accepted_congr (fun i hi => ?_) h.least h.fits
    unfold collected
    rw [List.getD_eq_getElem _ _ hi, List.getD_eq_getElem _ _ hi]
  have hput := hjt212PutBytes_frame hstart bytes hnone (hlength ▸ h.least) (hlength ▸ h.fits)
  rwa [← hframe, hlength, if_pos haccepted] at hput

/-- The bytes behind the length of a frame, as the parser's pointer leads to them. -/
theorem pData_frame (pBuffer : ℕ → UInt8) (frame : List UInt8) (i : ℕ)
    (hi : i < (frame.drop 6).length) :
    (hjt212Package (collected pBuffer frame) frame.length).pData i = (frame.drop 6)[i] := by
  rw [List.length_drop] at hi
  change frame.getD (6 + i) _ = _
  rw [List.getD_eq_getElem _ _ (by omega), List.getElem_drop]

/-- Behind a frame lies what was in the buffer. -/
theorem pData_behind (pBuffer : ℕ → UInt8) {frame : List UInt8} (hlength : 6 ≤ frame.length) :
    memFrom (hjt212Package (collected pBuffer frame) frame.length).pData (frame.drop 6).length =
      memFrom pBuffer frame.length := by
  funext i
  rw [List.length_drop]
  change frame.getD (6 + (frame.length - 6 + i)) (pBuffer (6 + (frame.length - 6 + i))) =
    pBuffer (frame.length + i)
  rw [List.getD_eq_default _ _ (by omega), ← Nat.add_assoc, Nat.add_sub_cancel' hlength]

/-- What the parser makes of a valid frame behind a history: it works on a text in the memory that
the frame was stored in. -/
theorem Hjt212ValidFrame.parsedBehind_iff {frame : List UInt8} (h : Hjt212ValidFrame frame)
    {behind : ℕ → UInt8}
    {history : List UInt8} (hstart : AtStartBehind behind history) (szPW : List UInt8)
    (xData : Hjt212Data) (accepted : Bool) :
    ParsedBehind behind szPW history frame xData accepted ↔
      ∃ text, TextAt (hjt212Package
        (collected (hjt212PutBytes (hjt212Opened behind) history).pBuffer frame)
        frame.length).pData text ∧ xData = hjt212ParsePack text ∧
        accepted = xData.passwordAccepted szPW := by
  unfold ParsedBehind
  rw [h.put hstart]
  constructor
  · rintro ⟨xPack, text, hparsed, htext⟩
    obtain rfl := List.singleton_inj.mp (List.append_cancel_left hparsed)
    exact ⟨text, htext⟩
  · rintro ⟨text, htext⟩
    exact ⟨_, text, rfl, htext⟩

/-- What lies behind a frame without null characters is parsed with it. -/
theorem Hjt212ValidFrame.parsedBehind {frame : List UInt8} (h : Hjt212ValidFrame frame)
    (hnone : 0 ∉ frame.drop 6)
    {behind : ℕ → UInt8} {history rest : List UInt8} (hstart : AtStartBehind behind history)
    (hrest : TextAt (memFrom (hjt212PutBytes (hjt212Opened behind) history).pBuffer frame.length) rest)
    (szPW : List UInt8) :
    ParsedBehind behind szPW history frame (hjt212ParsePack (frame.drop 6 ++ rest))
      ((hjt212ParsePack (frame.drop 6 ++ rest)).passwordAccepted szPW) := by
  have hlower : 6 ≤ frame.length := by
    have := h.least
    omega
  rw [← pData_behind _ hlower] at hrest
  exact (h.parsedBehind_iff hstart szPW _ _).mpr ⟨_, hrest.append (pData_frame _ _) hnone, rfl, rfl⟩

/-- No text lies in the buffer of a receiver that was opened. -/
theorem textAt_opened (behind : ℕ → UInt8) {length : ℕ} (h : length < hjt212BufSize) :
    TextAt (memFrom (hjt212Opened behind).pBuffer length) [] :=
  ⟨fun i hi => absurd hi (Nat.not_lt_zero i), if_pos h, List.not_mem_nil⟩

/-- A self-contained frame is parsed alike behind all histories. -/
theorem SelfContained.historyFree {frame : List UInt8} (h : SelfContained frame)
    (hvalid : Hjt212ValidFrame frame) :
    HistoryFree frame := by
  intro behind szPW history history' hstart hstart' xData xData' accepted accepted' hparsed hparsed'
  obtain ⟨text, htext, rfl, rfl⟩ := (hvalid.parsedBehind_iff hstart szPW xData accepted).mp hparsed
  obtain ⟨text', htext', rfl, rfl⟩ :=
    (hvalid.parsedBehind_iff hstart' szPW xData' accepted').mp hparsed'
  have hbytes := pData_frame (hjt212PutBytes (hjt212Opened behind) history).pBuffer frame
  have hbytes' := pData_frame (hjt212PutBytes (hjt212Opened behind) history').pBuffer frame
  have hsame : hjt212ParsePack text = hjt212ParsePack text' := by
    by_cases hnull : 0 ∈ frame.drop 6
    · obtain ⟨i, hi, hzero⟩ := List.getElem_of_mem hnull
      have hends := htext.length_le ((hbytes i hi).trans hzero)
      have hagree := htext.of_agree fun j hj => (hbytes j (by omega)).trans (hbytes' j (by omega)).symm
      rw [hagree.unique htext']
    · obtain ⟨rest, rfl⟩ := htext.goes_on hbytes hnull
      obtain ⟨rest', rfl⟩ := htext'.goes_on hbytes' hnull
      obtain ⟨hkeys, hcp⟩ := h.resolve_left hnull
      rw [hjt212ParsePack_append hkeys hcp, hjt212ParsePack_append hkeys hcp]
  rw [hsame]
  exact ⟨rfl, rfl⟩

/-! ### A history that fills the buffer -/

/-- A byte is stored at the receiver's place. -/
theorem hjt212PutByte_pBuffer (r : Hjt212Receiver) (byte : UInt8) :
    (hjt212PutByte r byte).pBuffer = Function.update r.pBuffer r.nPos byte := by
  cases hstate : r.eRcvState with
  | head =>
    rw [hjt212PutByte_head hstate]
    split
    · split
      · rfl
      · rfl
    · rfl
  | eom =>
    rw [hjt212PutByte_eom hstate]
    split
    · rfl
    · rfl

/-- The receiver's place lies in the buffer. -/
theorem Hjt212Receiver.Follows.nPos_lt {r : Hjt212Receiver} {s : Scan UInt8} (h : r.Follows s) :
    r.nPos < hjt212BufSize := by
  rw [h.1]
  cases s with
  | head seen =>
    have hseen : seen.length < 2 := h.2.1
    exact hseen.trans (by decide)
  | body frame => exact Nat.mod_lt _ (by decide)

/-- Bytes leave the memory behind the buffer alone. -/
theorem Hjt212Receiver.Follows.run_behind {r : Hjt212Receiver} {s : Scan UInt8} (h : r.Follows s)
    (bytes : List UInt8)
    {i : ℕ} (hi : hjt212BufSize ≤ i) : (hjt212PutBytes r bytes).pBuffer i = r.pBuffer i := by
  induction bytes generalizing r s with
  | nil => rfl
  | cons byte rest ih =>
    have hne : i ≠ r.nPos := (Nat.lt_of_lt_of_le h.nPos_lt hi).ne'
    change (hjt212PutBytes (hjt212PutByte r byte) rest).pBuffer i = _
    rw [ih (h.step byte).1, hjt212PutByte_pBuffer, Function.update_of_ne hne]

/-- A frame that fills the buffer with given bytes, starts over and is about to end. -/
def fillingFrame (stored : List UInt8) : List UInt8 :=
  35 :: 35 :: (stored ++ (List.replicate 15 120 ++ [120, 13]))

/-- Its length. -/
theorem fillingFrame_length {stored : List UInt8} (hlength : stored.length + 2 = hjt212BufSize) :
    (fillingFrame stored).length = hjt212BufSize + 17 := by
  rw [← hlength]
  simp [fillingFrame]

/-- Its bytes do not end it. -/
theorem fillingFrame_runs {stored : List UInt8} (hnone : 10 ∉ stored) :
    (hjt212Format.scan (.head []) (fillingFrame stored)).1 = .body (fillingFrame stored) := by
  obtain ⟨rest, hrest⟩ : ∃ rest, rest = stored ++ (List.replicate 15 120 ++ [120, 13]) := ⟨_, rfl⟩
  have hnone : 10 ∉ rest := by
    rw [hrest]
    simp [hnone]
  have hruns : hjt212Format.Runs [35, 35] rest := by
    rintro part hpart - ⟨-, hmarker⟩
    have hmem : 10 ∈ [35, 35] ++ part := hmarker.subset (by decide)
    rcases List.mem_append.mp hmem with hmem | hmem
    · exact absurd hmem (by decide)
    · exact hnone (hpart.subset hmem)
  have hlock := @FrameFormat.scan_lock _ _ hjt212Format [] (fun _ h => absurd h List.not_mem_nil) rest
  have hframe : fillingFrame stored = [35, 35] ++ rest := by
    rw [hrest]
    rfl
  rw [hframe]
  exact (congrArg Prod.fst hlock).trans (congrArg Prod.fst (FrameFormat.scan_runs hruns))

/-- With its end it leaves the given bytes in the buffer and the receiver idle. -/
theorem fillingFrame_run {stored : List UInt8} (hlength : stored.length + 2 = hjt212BufSize)
    (hnone : 10 ∉ stored)
    (behind : ℕ → UInt8) :
    AtStartBehind behind (fillingFrame stored ++ [10]) ∧
      ∀ i (hi : i < stored.length), 16 ≤ i →
        (hjt212PutBytes (hjt212Opened behind) (fillingFrame stored ++ [10])).pBuffer (i + 2) =
        stored[i] := by
  have hidle : (hjt212Opened behind).Follows (.head []) := Hjt212Receiver.Idle.follows ⟨rfl, rfl⟩
  have hframe := fillingFrame_length hlength
  have hbody := (hidle.run (fillingFrame stored)).1
  rw [fillingFrame_runs hnone] at hbody
  have hplace : (hjt212PutBytes (hjt212Opened behind) (fillingFrame stored)).nPos = 17 := by
    rw [hbody.1]
    change (fillingFrame stored).length % hjt212BufSize = 17
    rw [hframe]
    rfl
  have hend : hjt212Format.IsEnd (fillingFrame stored ++ [10]) := by
    refine ⟨?_, ⟨35 :: 35 :: (stored ++ (List.replicate 15 120 ++ [120])), by
      simp [fillingFrame, hjt212Format]⟩⟩
    rw [List.length_append, hframe]
    decide
  have hstep := (hbody.step 10).1
  rw [FrameFormat.scanStep_end hend] at hstep
  have hlast : hjt212PutBytes (hjt212Opened behind) (fillingFrame stored ++ [10]) =
      hjt212PutByte (hjt212PutBytes (hjt212Opened behind) (fillingFrame stored)) 10 := List.foldl_append
  refine ⟨?_, fun i hi hlower => ?_⟩
  · unfold AtStartBehind
    rw [hlast]
    exact hstep.1
  · have hheld := hbody.2.2.2 (i + 2) (by omega) (by omega)
    rw [Nat.mod_eq_of_lt (by omega)] at hheld
    rw [hlast, hjt212PutByte_pBuffer, hplace, Function.update_of_ne (by omega), hheld]
    exact List.getElem_append_left hi

/-- What lies behind a frame: a text and its null character, in the buffer and in the memory behind
it. -/
theorem exists_behind {rest : List UInt8} (hharmless : Harmless rest) {length : ℕ}
    (hlower : 18 ≤ length) :
    ∃ behind history, AtStartBehind behind history ∧
      TextAt (memFrom (hjt212PutBytes (hjt212Opened behind) history).pBuffer length) rest := by
  obtain ⟨memory, hmemory⟩ : ∃ memory : ℕ →
    UInt8, memory = fun i => rest.getD (i - length) 0 := ⟨_, rfl⟩
  have hten : ∀ i, memory i ≠ 10 := by
    intro i
    rw [hmemory]
    change rest.getD (i - length) 0 ≠ 10
    rcases Nat.lt_or_ge (i - length) rest.length with hlt | hge
    · rw [List.getD_eq_getElem _ _ hlt]
      exact (hharmless _ (List.getElem_mem _)).2
    · rw [List.getD_eq_default _ _ hge]
      decide
  obtain ⟨stored, hstored⟩ : ∃ stored, stored = (List.range (hjt212BufSize - 2)).map fun i =>
    memory (i + 2) := ⟨_, rfl⟩
  have hlength : stored.length + 2 = hjt212BufSize := by
    rw [hstored, List.length_map, List.length_range]
    rfl
  have hnone : 10 ∉ stored := by
    rw [hstored, List.mem_map]
    rintro ⟨i, -, hi⟩
    exact hten _ hi
  obtain ⟨behind, hbehind⟩ : ∃ behind : ℕ →
    UInt8, behind = fun i => memory (i + hjt212BufSize) := ⟨_, rfl⟩
  obtain ⟨hstart, hbuffer⟩ := fillingFrame_run hlength hnone behind
  have hidle : (hjt212Opened behind).Follows (.head []) := Hjt212Receiver.Idle.follows ⟨rfl, rfl⟩
  have hread : ∀ i, (hjt212PutBytes (hjt212Opened behind) (fillingFrame stored ++ [10])).pBuffer
    (length + i) =
      rest.getD i 0 := by
    intro i
    have hmem : memory (length + i) = rest.getD i 0 := by
      rw [hmemory]
      change rest.getD (length + i - length) 0 = _
      rw [Nat.add_sub_cancel_left]
    rcases Nat.lt_or_ge (length + i) hjt212BufSize with hinside | houtside
    · obtain ⟨j, hj⟩ := Nat.exists_eq_add_of_le' (show 2 ≤ length + i by omega)
      rw [← hmem, hj, hbuffer j (by omega) (by omega)]
      simp only [hstored, List.getElem_map, List.getElem_range]
    · rw [hidle.run_behind _ houtside, ← hmem]
      change (if length + i < hjt212BufSize then 0 else behind (length + i - hjt212BufSize)) = _
      rw [if_neg (by omega), hbehind]
      change memory (length + i - hjt212BufSize + hjt212BufSize) = _
      rw [Nat.sub_add_cancel houtside]
  refine ⟨behind, fillingFrame stored ++ [10], hstart, fun i hi => ?_, ?_,
    fun hzero => (hharmless 0 hzero).1 rfl⟩
  · rw [memFrom, hread, List.getD_eq_getElem _ _ hi]
  · rw [memFrom, hread, List.getD_eq_default _ _ (Nat.le_refl _)]

/-- A frame that is not self-contained is parsed in two ways behind two histories. -/
theorem not_historyFree {frame : List UInt8} (h : ¬ SelfContained frame)
    (hvalid : Hjt212ValidFrame frame) :
    ¬ HistoryFree frame := by
  obtain ⟨hnone, hnot⟩ := not_or.mp h
  obtain ⟨text, htext⟩ : ∃ text, frame.drop 6 = text ++ [10] := by
    obtain ⟨bytes, hframe, -⟩ := hvalid.shape
    have hleast := hvalid.least
    refine ⟨(35 :: 35 :: (bytes ++ [0x0d])).drop 6, ?_⟩
    rw [hframe, List.length_cons, List.length_cons, List.length_append] at hleast
    have hsplit : frame = 35 :: 35 :: (bytes ++ [0x0d]) ++ [10] := by
      rw [hframe]
      simp
    rw [hsplit, List.drop_append_of_le_length]
    simp only [List.length_cons, List.length_append, List.length_nil] at hleast ⊢
    omega
  rw [htext] at hnot
  obtain ⟨rest, hharmless, hchanges⟩ := hjt212ParsePack_changes hnot
  rw [← htext] at hchanges
  obtain ⟨behind, history, hstart, hrest⟩ := exists_behind hharmless hvalid.least
  have hopened : AtStartBehind behind [] := rfl
  have hempty : TextAt (memFrom (hjt212Opened behind).pBuffer frame.length) [] :=
    textAt_opened behind hvalid.fits
  have hparsed := hvalid.parsedBehind hnone hstart hrest []
  have hparsed' := hvalid.parsedBehind hnone hopened hempty []
  intro hfree
  have hsame := (hfree behind [] history [] hstart hopened _ _ _ _ hparsed hparsed').1
  rw [List.append_nil] at hsame
  exact hchanges hsame

/-- What the parser does with a valid frame depends on the frame only exactly when the frame is
self-contained. -/
theorem historyFree_iff {frame : List UInt8} (hvalid : Hjt212ValidFrame frame) :
    HistoryFree frame ↔ SelfContained frame :=
  ⟨fun hfree => by_contra fun hnot => not_historyFree hnot hvalid hfree,
    fun hself => hself.historyFree hvalid⟩

/-- A request without a password. -/
def plainFields : Hjt212Fields :=
  ⟨none, none, some (ascii ['1', '0', '1', '3']), none, none, none, none⟩

/-- A longer request with its password. -/
def passwordFields : Hjt212Fields :=
  ⟨some (ascii ['2', '0', '2', '0', '0', '1', '0', '1', '0', '0', '0', '0', '0', '0', '0', '0', '0']),
    some (ascii ['9', '1']), some (ascii ['1', '0', '1', '2']),
    some (ascii ['1', '2', '3', '4', '5', '6']), none, none,
    some []⟩

/-- Both are valid frames. -/
theorem plainFields_valid : Hjt212ValidFrame (hjt212Encode plainFields) :=
  hjt212ValidFrame_encode (Hjt212Fields.noCrLf_of_forall (by decide)) (by decide) (by decide)

theorem passwordFields_valid : Hjt212ValidFrame (hjt212Encode passwordFields) :=
  hjt212ValidFrame_encode (Hjt212Fields.noCrLf_of_forall (by decide)) (by decide) (by decide)

/-- The request without a password. -/
theorem historyFree_iff_plain : HistoryFree (hjt212Encode plainFields) ↔
    SelfContained (hjt212Encode plainFields) :=
  historyFree_iff plainFields_valid

/-- The password of an earlier request lets a request without one in. -/
theorem historyFree_fails :
    strstr keyPW.key (hjt212Encode plainFields) = none ∧
      (∃ xData, ParsedBehind (fun _ => 0) (ascii ['1', '2', '3', '4', '5', '6'])
        (hjt212Encode passwordFields)
        (hjt212Encode plainFields) xData true) ∧
      (∃ xData, ParsedBehind (fun _ => 0) (ascii ['1', '2', '3', '4', '5', '6']) []
        (hjt212Encode plainFields) xData false) ∧
      ¬ ∀ frame, Hjt212ValidFrame frame → HistoryFree frame := by
  have hput := passwordFields_valid.put (r := hjt212Opened fun _ => 0) rfl
  have hstart : AtStartBehind (fun _ => 0) (hjt212Encode passwordFields) := by
    unfold AtStartBehind
    rw [hput]
  have hrest : TextAt (memFrom (hjt212PutBytes (hjt212Opened fun _ => 0)
    (hjt212Encode passwordFields)).pBuffer
      (hjt212Encode plainFields).length) ((hjt212Encode passwordFields).drop 20) := by
    rw [hput]
    unfold TextAt
    decide +kernel
  have hparsed :=
    plainFields_valid.parsedBehind (by decide +kernel) hstart hrest
    (ascii ['1', '2', '3', '4', '5', '6'])
  have hopened : AtStartBehind (fun _ => 0) [] := rfl
  have hempty : TextAt (memFrom (hjt212PutBytes (hjt212Opened fun _ => 0) []).pBuffer
      (hjt212Encode plainFields).length) [] :=
    textAt_opened (fun _ => 0) plainFields_valid.fits
  have hparsed' :=
    plainFields_valid.parsedBehind (by decide +kernel) hopened hempty
    (ascii ['1', '2', '3', '4', '5', '6'])
  have haccepted : (hjt212ParsePack ((hjt212Encode plainFields).drop 6 ++
      (hjt212Encode passwordFields).drop 20)).passwordAccepted (ascii ['1', '2', '3', '4', '5',
      '6']) = true := by
    decide +kernel
  have hrejected : (hjt212ParsePack ((hjt212Encode plainFields).drop 6 ++ [])).passwordAccepted
      (ascii ['1', '2', '3', '4', '5', '6']) = false := by
    decide +kernel
  rw [haccepted] at hparsed
  rw [hrejected] at hparsed'
  refine ⟨by decide +kernel, ⟨_, hparsed⟩, ⟨_, hparsed'⟩, fun hall => ?_⟩
  have hsame := hall _ plainFields_valid _ _ _ _ hstart hopened _ _ _ _ hparsed hparsed'
  exact Bool.noConfusion hsame.2

end DasEdge.Sdccp
