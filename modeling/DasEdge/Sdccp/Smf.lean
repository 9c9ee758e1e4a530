import DasEdge.Library.ScanFormat
import DasEdge.Library.Segments
import DasEdge.Library.TextLines

/-!
# Lines of an SMF instrument

`smf_put_bytes` collects the bytes of a connection in a buffer, and with the end of a line it has
the buffer scanned for the readings of the instrument. The scan takes the buffer for a text and does
not know where the line ends in it: it stops at the first byte that differs from its format, and may
go on in what an earlier line has left. A line that does not fit into the buffer is not left out but
cut, and its last part is scanned for a line.
-/

namespace DasEdge.Sdccp

open DasEdge.Library

/-- `SDCCP_SMF_BUF_SIZE` -/
def sdccpSmfBufSize : ℕ := 1024

/-- The readings of `s_instrumentData_t`. -/
inductive SmfReading
  | sensor0 | sensor1 | sensor2 | sensor3 | sensor4 | sensor5 | sensor6
  | interTemp | press | rh | sensorTemp | pm1 | pm2_5 | pm10
  deriving DecidableEq

/-- Where `sscanf` stores what it takes of a line. -/
inductive SmfField
  | year | mon | day | hour | min | sec
  | name (reading : SmfReading)
  | fval (reading : SmfReading)
  | unitId | status
  deriving DecidableEq

/-- The date and the time at the front of the format. -/
def smfTimeFormat : List (Directive SmfField) :=
  [.int (some 4) .year, .char 45, .int (some 2) .mon, .char 45, .int (some 2) .day, .space,
    .int (some 2) .hour, .char 58, .int (some 2) .min, .char 58, .int (some 2) .sec, .char 44]

/-- `%[^,],%f,` -/
def smfReadingFormat (reading : SmfReading) : List (Directive SmfField) :=
  [.upTo 44 (.name reading), .char 44, .float (.fval reading), .char 44]

/-- The readings in the order of the format. -/
def smfReadings : List SmfReading :=
  [.sensor0, .sensor1, .sensor2, .sensor3, .sensor4, .sensor5, .sensor6,
    .interTemp, .press, .rh, .sensorTemp, .pm1, .pm2_5, .pm10]

/-- The format of a line. The spaces that stand last in it are left out, which store nothing. -/
def smfFormat : List (Directive SmfField) :=
  smfTimeFormat ++ smfReadings.flatMap smfReadingFormat ++ [.upTo 44 .unitId, .char 44,
    .int none .status]

/-- `s_data_t` -/
structure SData (F : Type*) where
  name : List UInt8
  fval : F

/-- `s_instrumentData_t` -/
structure InstrumentData (F : Type*) where
  time : List UInt8
  data : SmfReading → SData F
  unitId : List UInt8
  status : ℤ

/-- Whether a text and its null character fit into what they are stored in. -/
def SmfField.Fits : SmfField → List UInt8 → Prop
  | .name _, text => text.length < 16
  | .unitId, text => text.length < 32
  | _, _ => True

instance decidableFits : (field : SmfField) → (text : List UInt8) → Decidable (field.Fits text)
  | .name _, text => inferInstanceAs (Decidable (text.length < 16))
  | .unitId, text => inferInstanceAs (Decidable (text.length < 32))
  | .year, _ | .mon, _ | .day, _ | .hour, _ | .min, _ | .sec, _ | .fval _, _ | .status, _ =>
    isTrue trivial

/-- What is taken of a line fits. -/
def SmfStoredFits (stored : List (SmfField × List UInt8)) : Prop := ∀ part ∈ stored, part.1.Fits part.2

instance decidableSmfStoredFits (stored : List (SmfField × List UInt8)) :
    Decidable (SmfStoredFits stored) :=
  inferInstanceAs (Decidable (∀ part ∈ stored, part.1.Fits part.2))

/-- `%0*d` -/
def zeroPadded (width : ℕ) (value : ℤ) : List UInt8 :=
  (if value < 0 then [45] else []) ++
    List.replicate (width - (if value < 0 then 1 else 0) - (Nat.toDigits 10 value.natAbs).length) 48 ++
    (Nat.toDigits 10 value.natAbs).map fun c => c.toNat.toUInt8

/-- The number that is stored in a field, which is 0 before. -/
def smfInt (stored : List (SmfField × List UInt8)) (field : SmfField) : ℤ :=
  (stored.lookup field).elim 0 atoi

section Line

variable {F : Type*} [Zero F] (toFloat : List UInt8 → F)

/-- The record that `__smf_parse_data` makes of what is stored. -/
def smfRecord (stored : List (SmfField × List UInt8)) : InstrumentData F where
  time := zeroPadded 4 (smfInt stored .year) ++ 45 :: zeroPadded 2 (smfInt stored .mon) ++ 45 ::
    zeroPadded 2 (smfInt stored .day) ++ 32 :: zeroPadded 2 (smfInt stored .hour) ++ 58 ::
    zeroPadded 2 (smfInt stored .min) ++ 58 :: zeroPadded 2 (smfInt stored .sec)
  data reading :=
    { name := (stored.lookup (.name reading)).getD []
      fval := (stored.lookup (.fval reading)).elim 0 toFloat }
  unitId := (stored.lookup .unitId).getD []
  status := smfInt stored .status

/-- `__smf_parse_data`: what it sends to the queue of the port, where it has one. It has no result
if it reads behind the buffer, which it does if the buffer has no null character, or stores more of
a name than fits. -/
def smfParseData (queue : Bool) (buf : List UInt8) : List (Option (InstrumentData F)) :=
  if queue then
    [if 0 ∈ buf then
      (scan smfFormat buf).bind fun stored => if SmfStoredFits stored
        then some (smfRecord toFloat stored) else none
    else none]
  else []

end Line

/-- The buffer of a connection, `s_pCCBuffer`, and the place of its next byte, `s_CCBufferPos`,
which is always in the buffer. -/
structure SmfClient where
  buffer : List UInt8
  pos : ℕ
  buffer_length : buffer.length = sdccpSmfBufSize
  pos_lt : pos < sdccpSmfBufSize

/-- `smf_new_cli` -/
def smfNewCli : SmfClient where
  buffer := List.replicate sdccpSmfBufSize 0
  pos := 0
  buffer_length := List.length_replicate
  pos_lt := by decide

/-- One byte more in the buffer, which is begun again when it is full. -/
def SmfClient.put (client : SmfClient) (byte : UInt8) : SmfClient where
  buffer := client.buffer.set client.pos byte
  pos := if client.pos + 1 < sdccpSmfBufSize then client.pos + 1 else 0
  buffer_length := by rw [List.length_set, client.buffer_length]
  pos_lt := by
    split
    · assumption
    · decide

/-- The buffer is begun again. -/
def SmfClient.restart (client : SmfClient) : SmfClient where
  buffer := client.buffer
  pos := 0
  buffer_length := client.buffer_length
  pos_lt := by decide

/-- The last two bytes are `SMF_EOM1` and `SMF_EOM2`. -/
def SmfClient.AtEnd (client : SmfClient) : Prop :=
  2 ≤ client.pos ∧ client.buffer[client.pos - 2]? = some 13 ∧ client.buffer[client.pos - 1]? = some 10

instance decidableAtEnd (client : SmfClient) : Decidable client.AtEnd :=
  inferInstanceAs (Decidable (2 ≤ client.pos ∧ client.buffer[client.pos - 2]? = some 13 ∧
    client.buffer[client.pos - 1]? = some 10))

section Stream

variable {F : Type*} [Zero F] (queue : Bool) (toFloat : List UInt8 → F)

/-- One turn of the loop of `smf_put_bytes`. -/
def smfPutByte (client : SmfClient) (byte : UInt8) : List (Option (InstrumentData F)) × SmfClient :=
  if (client.put byte).AtEnd then (smfParseData toFloat queue (client.put byte).buffer,
    (client.put byte).restart)
  else ([], client.put byte)

/-- `smf_put_bytes` -/
def smfPutBytes (client : SmfClient) (data : List UInt8) :
    List (Option (InstrumentData F)) × SmfClient :=
  ((runTotal (smfPutByte queue toFloat) client data).1.flatten,
    (runTotal (smfPutByte queue toFloat) client data).2)

/-- What is sent for the chunks that a connection receives. -/
def smfSent (chunks : List (List UInt8)) : List (Option (InstrumentData F)) :=
  (runTotal (smfPutBytes queue toFloat) smfNewCli chunks).1.flatten

/-- A line ends with CR LF. -/
def endsCrlf (line : List UInt8) : Bool := decide (crlf <:+ line)

/-- The record of a line with nothing behind it. -/
def smfLineRecord (line : List UInt8) : InstrumentData F :=
  smfRecord toFloat ((scan smfFormat (line ++ [0])).getD [])

/-- The records of the lines that fit into the buffer, in order. -/
def smfLineRecords (lines : List (List UInt8)) : List (Option (InstrumentData F)) :=
  (lines.filter fun line => decide (line.length ≤ sdccpSmfBufSize)).map fun line =>
    some (smfLineRecord toFloat line)

/-- The lines of the stream that fit into the buffer are sent, each once, in order, and as it is
alone. -/
def SmfExact (chunks : List (List UInt8)) : Prop :=
  ∃ lines rest, CutInto endsCrlf chunks.flatten lines rest ∧
    smfSent queue toFloat chunks = smfLineRecords toFloat lines

/-- The line of which a byte is the last so far. -/
def SmfClient.line (client : SmfClient) (byte : UInt8) : List UInt8 :=
  client.buffer.take client.pos ++ [byte]

/-- The scan of a line does not come to what an earlier line has left: it ends in the line, or there
is a null character behind the line. What is stored of the line fits. -/
def SmfLineOk (line : List UInt8) (behind : Option UInt8) : Prop :=
  ((scan smfFormat line).isSome ∨ behind = some 0) ∧
    SmfStoredFits ((scan smfFormat (line ++ [0])).getD [])

/-- The port has its queue, the byte does not fill the buffer, and a line that it ends is scanned
alone. -/
def SmfByteOk (client : SmfClient) (byte : UInt8) : Prop :=
  queue = true ∧ client.pos + 1 < sdccpSmfBufSize ∧
    (endsCrlf (client.line byte) = true → SmfLineOk (client.line byte) client.buffer[client.pos + 1]?)

instance decidableSmfByteOk (client : SmfClient) (byte : UInt8) :
    Decidable (SmfByteOk queue client byte) :=
  inferInstanceAs (Decidable (queue = true ∧ client.pos + 1 < sdccpSmfBufSize ∧
    (endsCrlf (client.line byte) = true →
    ((scan smfFormat (client.line byte)).isSome ∨ client.buffer[client.pos + 1]? = some 0) ∧
      SmfStoredFits ((scan smfFormat (client.line byte ++ [0])).getD []))))

end Stream

/-- The last two bytes of the front of a buffer. -/
theorem crlf_suffix_take_iff {buffer : List UInt8} {n : ℕ} (hn : n ≤ buffer.length) :
    crlf <:+ buffer.take n ↔ 2 ≤ n ∧ buffer[n - 2]? = some 13 ∧ buffer[n - 1]? = some 10 := by
  have hlength : (buffer.take n).length = n := by rw [List.length_take, Nat.min_eq_left hn]
  rw [List.suffix_iff_eq_drop, hlength]
  constructor
  · intro heq
    have htwo : 2 ≤ n := by
      have hsame := congrArg List.length heq
      rw [List.length_drop, hlength] at hsame
      have : crlf.length = 2 := rfl
      omega
    have hat (i : ℕ) (hi : i < 2) : buffer[n - 2 + i]? = crlf[i]? := by
      rw [heq, List.getElem?_drop, List.getElem?_take,
        if_pos (by rw [show crlf.length = 2 from rfl]; omega)]
      rfl
    refine ⟨htwo, hat 0 (by decide), ?_⟩
    rw [show n - 1 = n - 2 + 1 by omega]
    exact hat 1 (by decide)
  · rintro ⟨htwo, hcr, hlf⟩
    refine List.ext_getElem? fun i => ?_
    rw [List.getElem?_drop, List.getElem?_take, show crlf.length = 2 from rfl]
    match i with
    | 0 => rw [if_pos (by omega), Nat.add_zero, hcr]; rfl
    | 1 => rw [if_pos (by omega), show n - 2 + 1 = n - 1 by omega, hlf]; rfl
    | i + 2 => rw [if_neg (by omega)]; rfl

section Run

variable {F : Type*} [Zero F] {queue : Bool} {toFloat : List UInt8 → F}

/-- The buffer begins with the bytes of the line that has begun, and ends with a null character. -/
structure SmfCollects (client : SmfClient) (begun : List UInt8) : Prop where
  pos : client.pos = begun.length
  take : client.buffer.take client.pos = begun
  last : client.buffer[sdccpSmfBufSize - 1]? = some 0

/-- A new connection has no bytes. -/
theorem smfCollects_new : SmfCollects smfNewCli [] where
  pos := rfl
  take := rfl
  last := by rw [smfNewCli, List.getElem?_replicate, if_pos (by decide)]

/-- A byte that does not fill the buffer is collected. -/
theorem SmfCollects.put {client : SmfClient} {begun : List UInt8} (h : SmfCollects client begun)
    (byte : UInt8)
    (hpos : client.pos + 1 < sdccpSmfBufSize) :
    (client.put byte).pos = client.pos + 1 ∧ SmfCollects (client.put byte) (client.line byte) := by
  have hlt : client.pos < client.buffer.length := client.buffer_length ▸ client.pos_lt
  have hnext : (client.put byte).pos = client.pos + 1 := if_pos hpos
  have htake : (client.put byte).buffer.take (client.pos + 1) = client.line byte := by
    rw [SmfClient.put, List.take_add_one, List.take_set_of_le (Nat.le_refl _),
      List.getElem?_set_self hlt]
    rfl
  refine ⟨hnext, ?_, by rw [hnext, htake], ?_⟩
  · rw [hnext, SmfClient.line, h.take, h.pos, List.length_append, List.length_singleton]
  · rw [SmfClient.put, List.getElem?_set_ne (by omega), h.last]

/-- The line of a byte is the line that has begun, with the byte. -/
theorem SmfCollects.line {client : SmfClient} {begun : List UInt8} (h : SmfCollects client begun)
    (byte : UInt8) :
    client.line byte = begun ++ [byte] := by
  rw [SmfClient.line, h.take]

/-- The buffer is at the end of a line when the line ends. -/
theorem SmfCollects.atEnd_iff {client : SmfClient} {begun : List UInt8} (h : SmfCollects client begun) :
    client.AtEnd ↔ endsCrlf begun = true := by
  have hle : client.pos ≤ client.buffer.length := client.buffer_length ▸ client.pos_lt.le
  rw [endsCrlf, decide_eq_true_iff, ← h.take, crlf_suffix_take_iff hle, SmfClient.AtEnd]

/-- A line that is scanned alone is sent as it is alone. -/
theorem SmfCollects.parse {client : SmfClient} {line : List UInt8} (h : SmfCollects client line)
    (hok : SmfLineOk line client.buffer[client.pos]?) :
    smfParseData toFloat true client.buffer = [some (smfLineRecord toFloat line)] := by
  have hsplit : line ++ client.buffer.drop client.pos = client.buffer := by
    conv_rhs => rw [← List.take_append_drop client.pos client.buffer]
    rw [h.take]
  have hnull : 0 ∈ client.buffer := List.mem_of_getElem? h.last
  have hscan : scan smfFormat client.buffer = scan smfFormat (line ++ [0]) := by
    rcases hok.1 with hends | hbehind
    · obtain ⟨stored, hstored⟩ := Option.isSome_iff_exists.mp hends
      rw [← hsplit, scan_append hstored, scan_append hstored]
    · obtain ⟨hlt, hzero⟩ := List.getElem?_eq_some_iff.mp hbehind
      rw [← hsplit, List.drop_eq_getElem_cons hlt, hzero]
      exact scan_null smfFormat line _
  obtain ⟨stored, hstored⟩ := scan_terminated smfFormat hnull
  have hfits : SmfStoredFits stored := by
    have hline := hok.2
    rwa [← hscan, hstored] at hline
  rw [smfParseData, if_pos rfl, if_pos hnull, hstored, Option.bind_some, if_pos hfits,
    smfLineRecord, ← hscan, hstored]
  rfl

/-- The records of a line that fits. -/
theorem smfLineRecords_singleton {line : List UInt8} (hfits : line.length ≤ sdccpSmfBufSize) :
    smfLineRecords toFloat [line] = [some (smfLineRecord toFloat line)] := by
  rw [smfLineRecords,
    List.filter_eq_self.mpr fun l hl => decide_eq_true (List.mem_singleton.mp hl ▸ hfits)]
  rfl

/-- A byte that meets the condition sends the line that it ends, if any, and is collected else. -/
theorem smfPutByte_collects {client : SmfClient} {begun : List UInt8} {byte : UInt8}
    (h : SmfCollects client begun)
    (hok : SmfByteOk queue client byte) :
    (smfPutByte queue toFloat client byte).1 =
      smfLineRecords toFloat (segmentStep endsCrlf begun byte).1 ∧
      SmfCollects (smfPutByte queue toFloat client byte).2 (segmentStep endsCrlf begun byte).2 := by
  obtain ⟨hqueue, hpos, hline⟩ := hok
  obtain ⟨hnext, hput⟩ := h.put byte hpos
  rw [h.line byte] at hput hline
  cases hends : endsCrlf (begun ++ [byte]) with
  | true =>
    have hat : (client.put byte).AtEnd := hput.atEnd_iff.mpr hends
    have hbehind : (client.put byte).buffer[(client.put byte).pos]? =
        client.buffer[client.pos + 1]? := by
      rw [hnext, SmfClient.put, List.getElem?_set_ne (by omega)]
    have hfits : (begun ++ [byte]).length ≤ sdccpSmfBufSize := by
      rw [← hput.pos]
      exact (client.put byte).pos_lt.le
    have hsent : smfParseData toFloat true (client.put byte).buffer = _ :=
      hput.parse (hbehind ▸ hline hends)
    rw [smfPutByte, if_pos hat, segmentStep, if_pos hends, smfLineRecords_singleton hfits, hqueue]
    exact ⟨hsent, ⟨rfl, List.take_zero, hput.last⟩⟩
  | false =>
    have hat : ¬ (client.put byte).AtEnd :=
      fun hat => Bool.false_ne_true (hends.symm.trans (hput.atEnd_iff.mp hat))
    rw [smfPutByte, if_neg hat, segmentStep, if_neg (Bool.not_eq_true _ ▸ hends)]
    exact ⟨rfl, hput⟩

end Run

end DasEdge.Sdccp
