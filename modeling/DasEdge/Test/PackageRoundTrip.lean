import DasEdge.Test.HeadMatch
import DasEdge.Test.PackageBounds

/-!
# A package that is sent is received

A sender puts a message into the buffer behind the place of the head and sends it with its head and
its checksum. When no head begins in the bytes that come before, the receiver finds the head of the
package, reads exactly the bytes of the package and hands on the message.
-/

namespace DasEdge.Test

open DasEdge.Library

/-- One `bb_put`, `bb_put_short`, `bb_put_int` or `bb_put_bytes` of the content of a message. -/
inductive BbPut where
  | byte (value : UInt8)
  | short (value : UInt16)
  | int (value : UInt32)
  | bytes (arr : List UInt8)

namespace BbPut

/-- The bytes that are put. -/
def data : BbPut → List UInt8
  | byte value => [value]
  | short value => networkBytes 2 value.toNat
  | int value => networkBytes 4 value.toNat
  | bytes arr => arr

/-- They are put into the buffer. -/
def put (mem : ComServerBuf) (bb : ByteBuffer) : BbPut → Option (ComServerBuf × ByteBuffer)
  | byte value => bbPut mem bb value
  | short value => bbPutShort mem bb value
  | int value => bbPutInt mem bb value
  | bytes arr => bbPutBytes mem bb arr

end BbPut

/-- The content of a message is put into the buffer. -/
def putAll : ComServerBuf → ByteBuffer → List BbPut → Option (ComServerBuf × ByteBuffer)
  | mem, bb, [] => some (mem, bb)
  | mem, bb, p :: puts => do
    let (mem, bb) ← p.put mem bb
    putAll mem bb puts

/-- A message is put into the buffer and sent, as `send_base_response` does it: the bytes that are
sent. -/
def sendPackage (mem : ComServerBuf) (package : SPackage) (puts : List BbPut) :
    Option (ComServerBuf × List UInt8) := do
  let (mem, bb) ← creatPackageBuffer mem package
  let (mem, bb) ← putAll mem bb puts
  sendPackageBuffer mem bb package

/-- The content of a message. -/
def contentOf (puts : List BbPut) : List UInt8 := (puts.map BbPut.data).flatten

/-- The head of a package. -/
def packageHead (package : SPackage) (content : List UInt8) : SPackageHead :=
  creatHeader (UInt32.ofNat (15 + content.length)) package.headType 0

/-- The bytes of a package in front of its checksum. -/
def packageCovered (package : SPackage) (content : List UInt8) : List UInt8 :=
  (packageHead package content).bytes ++
    (package.type :: networkBytes 2 package.senquence.toNat ++ content)

/-- The bytes of a package. -/
def packageFrame (package : SPackage) (content : List UInt8) : List UInt8 :=
  packageCovered package content ++ networkBytes 4 (ulMDCrc32 0 (packageCovered package content)).toNat

/-- An operation puts bytes at the position of the buffer, as long as they fit. -/
def Appends (op : ComServerBuf → ByteBuffer → Option (ComServerBuf × ByteBuffer))
    (data : List UInt8) : Prop :=
  ∀ mem bb, bb.pos.toNat + data.length ≤ 1024 →
    ∃ pos, op mem bb = some (copyOver mem bb.pos.toNat data, ⟨pos, bb.len⟩) ∧
      pos.toNat = bb.pos.toNat + data.length

/-- Operations after each other put their bytes behind each other. -/
theorem Appends.comp {op op' : ComServerBuf → ByteBuffer → Option (ComServerBuf × ByteBuffer)}
    {data data' : List UInt8}
    (h : Appends op data) (h' : Appends op' data') :
    Appends (fun mem bb => (op mem bb).bind fun s => op' s.1 s.2) (data ++ data') := by
  intro mem bb hfits
  rw [List.length_append, ← Nat.add_assoc] at hfits
  obtain ⟨pos, hop, hpos⟩ := h mem bb ((Nat.le_add_right _ _).trans hfits)
  obtain ⟨pos', hop', hpos'⟩ := h' (copyOver mem bb.pos.toNat data) ⟨pos, bb.len⟩ (by rwa [hpos])
  refine ⟨pos', ?_, by rw [hpos', hpos, List.length_append, Nat.add_assoc]⟩
  simp only [hop, Option.bind_some, hop', hpos, copyOver_append]

/-- A byte is put. -/
theorem appends_bbPut (value : UInt8) : Appends (fun mem bb => bbPut mem bb value) [value] := by
  intro mem bb hfits
  have hpos : bb.pos.toNat < serverBufSizeCom := hfits
  refine ⟨bb.pos + 1, ?_, toNat_add_one hpos⟩
  simp only [bbPut, writeAt, if_pos hpos, ← copyOver_update, copyOver_nil]
  rfl

/-- The bytes of a number of 32 bits in network order. -/
theorem networkBytes_uint32 (value : UInt32) :
    networkBytes 4 value.toNat =
      [(value >>> 24).toUInt8, (value >>> 16).toUInt8, (value >>> 8).toUInt8, value.toUInt8] := by
  simp only [networkBytes, List.cons.injEq, and_true]
  refine ⟨?_, ?_, ?_, ?_⟩
  all_goals
    refine UInt8.toNat.inj ?_
    simp [Nat.shiftRight_eq_div_pow]

/-- The bytes of a number of 16 bits in network order. -/
theorem networkBytes_uint16 (value : UInt16) :
    networkBytes 2 value.toNat = [(value >>> 8).toUInt8, value.toUInt8] := by
  simp only [networkBytes, List.cons.injEq, and_true]
  refine ⟨?_, ?_⟩
  all_goals
    refine UInt8.toNat.inj ?_
    simp [Nat.shiftRight_eq_div_pow]

/-- Two bytes in network order are put together again. -/
theorem ofNetwork_uint16 (value : UInt16) :
    (value >>> 8).toUInt8.toUInt16 <<< 8 ||| value.toUInt8.toUInt16 = value := by
  refine UInt16.toNat.inj ?_
  have hlt := value.toNat_lt
  rw [uint16_ofNetwork_toNat]
  simp [Nat.shiftRight_eq_div_pow]
  omega

/-- Two bytes are put. -/
theorem appends_bbPutShort (value : UInt16) :
    Appends (fun mem bb => bbPutShort mem bb value) (networkBytes 2 value.toNat) := by
  rw [networkBytes_uint16]
  exact (appends_bbPut _).comp (appends_bbPut _)

/-- Four bytes are put. -/
theorem appends_bbPutInt (value : UInt32) :
    Appends (fun mem bb => bbPutInt mem bb value) (networkBytes 4 value.toNat) := by
  rw [networkBytes_uint32]
  exact (appends_bbPut _).comp ((appends_bbPut _).comp ((appends_bbPut _).comp (appends_bbPut _)))

/-- Any number of bytes is put. -/
theorem appends_bbPutBytes (arr : List UInt8) : Appends (fun mem bb => bbPutBytes mem bb arr) arr := by
  intro mem bb hfits
  have hlength : (UInt32.ofNat arr.length).toNat = arr.length :=
    UInt32.toNat_ofNat_of_lt' (show arr.length < 2 ^ 32 by omega)
  refine ⟨bb.pos + UInt32.ofNat arr.length, ?_, ?_⟩
  · simp only [bbPutBytes, copyAt,
      if_pos (show arr = [] ∨ bb.pos.toNat + arr.length ≤ serverBufSizeCom from Or.inr hfits)]
    rfl
  · rw [UInt32.toNat_add, hlength, Nat.mod_eq_of_lt (by omega)]

/-- The content of a message is put. -/
theorem appends_putAll (puts : List BbPut) :
    Appends (fun mem bb => putAll mem bb puts) (contentOf puts) := by
  induction puts with
  | nil =>
    intro mem bb _
    exact ⟨bb.pos, by simp [putAll, contentOf], by simp [contentOf]⟩
  | cons p puts ih =>
    have hput : Appends (fun mem bb => p.put mem bb) p.data := by
      cases p with
      | byte value => exact appends_bbPut value
      | short value => exact appends_bbPutShort value
      | int value => exact appends_bbPutInt value
      | bytes arr => exact appends_bbPutBytes arr
    exact hput.comp ih

/-- The body of a package is put behind the place of its head. -/
theorem appends_body (package : SPackage) (puts : List BbPut) :
    Appends (fun mem bb => (bbPut mem bb package.type).bind fun s =>
      (bbPutShort s.1 s.2 package.senquence).bind
      fun s => putAll s.1 s.2 puts) (package.type :: networkBytes 2 package.senquence.toNat ++
        contentOf puts) := by
  have h := (appends_bbPut package.type).comp
    ((appends_bbPutShort package.senquence).comp (appends_putAll puts))
  rwa [← List.append_assoc] at h

/-- The head that is created announces the length of the package, and it is one that the receiver
takes. -/
theorem packageHead_spec (package : SPackage) {content : List UInt8}
    (hfits : 15 + content.length ≤ 1024) :
    (packageHead package content).length = 15 + content.length ∧
      ValidHead (packageHead package content).bytes := by
  refine ⟨?_, _, rfl, rfl, rfl, rfl, decide_eq_true rfl⟩
  have hlength : (UInt32.ofNat (15 + content.length)).toUInt16.toNat = 15 + content.length := by
    rw [UInt32.toNat_toUInt16, UInt32.toNat_ofNat_of_lt' (show 15 + content.length < 2 ^ 32 by omega)]
    omega
  have hbytes : ∀ n : UInt16, (n >>> 8).toUInt8.toNat * 256 + n.toUInt8.toNat = n.toNat := by
    intro n
    rw [← uint16_ofNetwork_toNat, ofNetwork_uint16]
  exact (hbytes _).trans hlength

/-- Bytes behind bytes in a memory. -/
theorem showsAt_copyOver_behind {mem : ComServerBuf} {left : List UInt8} (h : ShowsAt mem 0 left)
    (right : List UInt8) :
    ShowsAt (copyOver mem left.length right) 0 (left ++ right) := by
  rw [showsAt_append, Nat.zero_add]
  refine ⟨fun i hi => ?_, showsAt_copyOver _ _ _⟩
  rw [copyOver_outside _ (Or.inl (by omega))]
  exact h i hi

/-- Bytes in front of bytes in a memory. -/
theorem showsAt_copyOver_front {mem : ComServerBuf} {left right : List UInt8}
    (h : ShowsAt mem left.length right) :
    ShowsAt (copyOver mem 0 left) 0 (left ++ right) := by
  rw [showsAt_append, Nat.zero_add]
  refine ⟨showsAt_copyOver _ _ _, fun i hi => ?_⟩
  rw [copyOver_outside _ (Or.inr (by omega))]
  exact h i hi

/-- The bytes in front of the checksum. -/
theorem packageCovered_length (package : SPackage) (content : List UInt8) :
    (packageCovered package content).length = 11 + content.length := by
  rw [packageCovered, List.length_append, show (packageHead package content).bytes.length = 8 from
    rfl, List.length_append,
    List.length_cons, networkBytes_length]
  omega

/-- A message in the buffer is sent with its head and its checksum. -/
theorem sendPackageBuffer_eq {mem : ComServerBuf} (package : SPackage) {content : List UInt8}
    (pos len : UInt32)
    (hfits : 15 + content.length ≤ 1024) (hpos : pos.toNat = 11 + content.length)
    (hbody : ShowsAt mem 8 (package.type :: networkBytes 2 package.senquence.toNat ++ content)) :
    ∃ mem', sendPackageBuffer mem ⟨pos, len⟩ package = some (mem', packageFrame package content) := by
  have hhead : creatHeader (pos + 4) package.headType 0 = packageHead package content := by
    have hlength : pos + 4 = UInt32.ofNat (15 + content.length) := by
      refine UInt32.toNat.inj ?_
      rw [UInt32.toNat_add, hpos, show (4 : UInt32).toNat = 4 from rfl,
        UInt32.toNat_ofNat_of_lt' (show 15 + content.length < 2 ^ 32 by omega)]
      omega
    rw [hlength, packageHead]
  have hcopy : copyAt mem 0 (packageHead package content).bytes =
      some (copyOver mem 0 (packageHead package content).bytes) :=
    if_pos (Or.inr (show 0 + 8 ≤ 1024 by decide))
  have hcovered : ShowsAt (copyOver mem 0 (packageHead package content).bytes) 0
      (packageCovered package content) :=
    showsAt_copyOver_front hbody
  have hlength := packageCovered_length package content
  have hread := readRun_inside hcovered pos (by omega) (by omega)
  rw [List.take_of_length_le (by omega)] at hread
  obtain ⟨pos', hput, hpos'⟩ := appends_bbPutInt (ulMDCrc32 0 (packageCovered package content))
    (copyOver mem 0 (packageHead package content).bytes) ⟨pos, len⟩
    (show pos.toNat + _ ≤ 1024 by rw [networkBytes_length]; omega)
  simp only at hput hpos'
  have hframe := showsAt_copyOver_behind hcovered
    (networkBytes 4 (ulMDCrc32 0 (packageCovered package content)).toNat)
  rw [networkBytes_length] at hpos'
  rw [hlength, ← hpos, ← packageFrame] at hframe
  have hframeLength : (packageFrame package content).length = pos'.toNat := by
    rw [packageFrame, List.length_append, networkBytes_length, hlength, hpos', hpos]
  have hsent := readRun_inside hframe pos' (by omega) (by omega)
  rw [List.take_of_length_le (by omega)] at hsent
  refine ⟨copyOver (copyOver mem 0 (packageHead package content).bytes) pos.toNat
    (networkBytes 4 (ulMDCrc32 0 (packageCovered package content)).toNat), ?_⟩
  simp only [sendPackageBuffer, bbGetPos, hhead, bbPutBytesAt, hcopy, hread, hput, hsent,
    Option.bind_eq_bind,
    Option.bind_some]
  rfl

/-- What is sent is the package. -/
theorem sendPackage_eq (mem : ComServerBuf) (package : SPackage) (puts : List BbPut)
    (hfits : 15 + (contentOf puts).length ≤ 1024) :
    ∃ mem', sendPackage mem package puts = some (mem', packageFrame package (contentOf puts)) := by
  have hlength : (package.type :: networkBytes 2 package.senquence.toNat ++ contentOf puts).length =
      3 + (contentOf puts).length := by
    rw [List.length_append, List.length_cons, networkBytes_length]
  obtain ⟨pos, hbody, hpos⟩ := appends_body package puts mem ⟨8, 1024⟩ (by
    rw [hlength, show (8 : UInt32).toNat = 8 from rfl]
    omega)
  simp only at hbody
  rw [hlength, show (8 : UInt32).toNat = 8 from rfl] at hpos
  obtain ⟨mem', hsent⟩ := sendPackageBuffer_eq package pos 1024 hfits (by omega)
    (showsAt_copyOver mem 8 (package.type :: networkBytes 2 package.senquence.toNat ++ contentOf puts))
  refine ⟨mem', ?_⟩
  have hsend : sendPackage mem package puts = ((bbPut mem ⟨8, 1024⟩ package.type).bind fun s =>
      (bbPutShort s.1 s.2 package.senquence).bind fun s => putAll s.1 s.2 puts).bind
        fun s => sendPackageBuffer s.1 s.2 package := by
    simp only [sendPackage, creatPackageBuffer, Option.bind_eq_bind, Option.bind_assoc]
    rfl
  rw [hsend, hbody, Option.bind_some]
  exact hsent

/-- The stream is one package with this message, and then the other bytes: its head is found and no
other one before, and what is read behind it is the rest of the package. -/
def Recognised (mem : ComServerBuf) (q : QueueHead) (stream : List UInt8) (package : SPackage)
    (content tail : List UInt8) : Prop :=
  ∃ head q' rest done msg, feedHead q stream = some (head, q', rest) ∧ q'.items = [] ∧
    head.type = package.headType ∧
    head.length = 15 + content.length ∧ processPackage mem head rest = some done ∧ done.ret = sdccpOk ∧
    done.rest = tail ∧ done.msg = some msg ∧ msg.type = package.type ∧
    msg.senquence = package.senquence ∧
    ShowsAt done.mem msg.content.toNat content

/-- A package is recognised behind bytes in which no head begins. -/
theorem packageFrame_recognised (mem : ComServerBuf) {q : QueueHead} (hq : q.items = [])
    (package : SPackage)
    {noise content : List UInt8} (tail : List UInt8) (hfits : 15 + content.length ≤ 1024)
    (hnoise : ∀ i < noise.length, ¬ ValidHead (((noise ++ packageFrame package content).drop i).take 8)) :
    Recognised mem q (noise ++ packageFrame package content ++ tail) package content tail := by
  obtain ⟨hlength, hvalid⟩ := packageHead_spec package hfits
  have hheadLength : (packageHead package content).bytes.length = 8 := rfl
  have hcoveredLength := packageCovered_length package content
  have hframeLength : (packageFrame package content).length = 15 + content.length := by
    rw [packageFrame, List.length_append, networkBytes_length, hcoveredLength]
    omega
  obtain ⟨rest, hrest⟩ : ∃ rest, packageFrame package content =
      (packageHead package content).bytes ++ rest := by
    rw [packageFrame, packageCovered, List.append_assoc]
    exact ⟨_, rfl⟩
  have hrestLength : rest.length = (packageHead package content).length - 8 := by
    rw [hrest, List.length_append, hheadLength] at hframeLength
    omega
  obtain ⟨q', hfeed, hempty⟩ :=
    @feedHead_package q (noise ++ packageFrame package content ++ tail) noise (rest ++ tail)
    (packageHead package content) (by rw [hq]; decide) (by rw [hq, hrest]; simp) hvalid (fun i hi => by
      have hwindow := hnoise i hi
      rw [hrest, ← List.append_assoc, List.drop_append_of_le_length (by rw [List.length_append]; omega),
        List.take_append_of_le_length (by rw [List.length_drop, List.length_append, hheadLength]; omega)] at hwindow
      exact hwindow)
  have hreceived : receivedBytes (packageHead package content) (rest ++ tail) =
      packageFrame package content := by
    rw [receivedBytes, List.take_left' hrestLength, hrest]
  have haccepted :=
    (@processPackage_whole mem (packageHead package content) (rest ++ tail) (by omega)
    (by omega)).2.1
    (by rw [List.length_append]; omega) (by rw [hreceived]; exact ⟨_, rfl⟩)
  rw [hreceived, List.drop_left' hrestLength] at haccepted
  -- the message is read where it was put
  have hshows := showsAt_copyOver mem 0 (packageFrame package content)
  generalize copyOver mem 0 (packageFrame package content) = done at hshows haccepted
  rw [packageFrame, packageCovered, networkBytes_uint16, showsAt_append, showsAt_append,
    hheadLength, List.cons_append,
    List.cons_append, List.cons_append, showsAt_cons, showsAt_cons, showsAt_cons] at hshows
  obtain ⟨⟨-, htype, hhi, hlo, hcontent⟩, -⟩ := hshows
  refine ⟨_, q', _, _, _, hfeed, hempty, rfl, hlength, haccepted, rfl, rfl, rfl, htype, ?_, hcontent⟩
  exact (congrArg₂ (fun b0 b1 : UInt8 => b0.toUInt16 <<< 8 ||| b1.toUInt16) hhi hlo).trans
    (ofNetwork_uint16 package.senquence)

/-- Every message whose package fits into the buffer is sent as a package that the receiver
recognises, in front of any bytes and behind any in which no head begins. -/
theorem package_roundTrip (senderMem mem : ComServerBuf) (q : QueueHead) (hq : q.items = [])
    (package : SPackage)
    (puts : List BbPut) (hfits : 15 + (contentOf puts).length ≤ serverBufSizeCom) :
    ∃ mem' frame, sendPackage senderMem package puts = some (mem', frame) ∧ ∀ noise tail,
      (∀ i < noise.length, ¬ ValidHead (((noise ++ frame).drop i).take 8)) →
        Recognised mem q (noise ++ frame ++ tail) package (contentOf puts) tail := by
  obtain ⟨mem', hsend⟩ := sendPackage_eq senderMem package puts hfits
  exact ⟨mem', _, hsend,
    fun noise tail hnoise => packageFrame_recognised mem hq package tail hfits hnoise⟩

/-- The queue as `vQueueClear` leaves it. -/
def emptyHead : QueueHead := ⟨0, 0, fun _ => 0, by decide, by decide⟩

/-- A request with a content of one byte. -/
theorem package_roundTrip_byte :
    ∃ mem' frame, sendPackage (fun _ => 0) ⟨2, 0xD1, 7⟩ [.byte 1] = some (mem', frame) ∧ ∀ noise tail,
      (∀ i < noise.length, ¬ ValidHead (((noise ++ frame).drop i).take 8)) →
        Recognised (fun _ => 0) emptyHead (noise ++ frame ++ tail) ⟨2, 0xD1, 7⟩ [1] tail :=
  package_roundTrip (fun _ => 0) (fun _ => 0) emptyHead rfl ⟨2, 0xD1, 7⟩ [.byte 1] (by decide)

/-- Seven bytes that become a head with the first byte of the next one. -/
def almostHead : List UInt8 := [0x12, 0xEF, 0xFF, 0xFF, 0, 2, 210]

/-- Behind seven bytes, which are no head themselves, a head is found that the package does not have. -/
theorem not_roundTrip_almostHead :
    ¬ ∀ senderMem mem q, RingQueue.items q = [] → ∀ (package : SPackage) (puts : List BbPut),
      15 + (contentOf puts).length ≤ serverBufSizeCom → ∃ mem' frame,
        sendPackage senderMem package puts = some (mem', frame) ∧ ∀ noise tail,
          (∀ i, i + 8 ≤ noise.length → ¬ ValidHead ((noise.drop i).take 8)) →
            Recognised mem q (noise ++ frame ++ tail) package (contentOf puts) tail := by
  intro h
  obtain ⟨mem', frame, hsend, hall⟩ :=
    h (fun _ => 0) (fun _ => 0) emptyHead rfl ⟨2, 0xD1, 7⟩ [] (by decide)
  obtain ⟨mem'', hsend'⟩ := sendPackage_eq (fun _ => 0) ⟨2, 0xD1, 7⟩ [] (by decide)
  obtain rfl : packageFrame ⟨2, 0xD1, 7⟩ [] = frame :=
    (Prod.mk.inj (Option.some.inj (hsend'.symm.trans hsend))).2
  obtain ⟨head, q', rest, done, msg, hfeed, -, -, hlength, -⟩ :=
    hall almostHead [] fun i hi => absurd hi (by
    rw [show almostHead.length = 7 from rfl]
    omega)
  obtain ⟨rest', hrest⟩ : ∃ rest', packageFrame ⟨2, 0xD1, 7⟩ [] = 0x12 :: rest' := ⟨_, rfl⟩
  -- the first byte of the package completes the seven bytes
  obtain ⟨q'', hfeed', -⟩ := @feedHead_package emptyHead (almostHead ++ 0x12 :: rest' ++ []) [] rest'
    ⟨0x12, 0xEF, 0xFF, 0xFF, 0, 2, 210, 0x12⟩ (by decide) (by rw [List.append_nil]; rfl)
    ⟨_, rfl, rfl, rfl, rfl, by decide⟩ fun i hi => absurd hi (Nat.not_lt_zero i)
  rw [hrest, hfeed'] at hfeed
  obtain rfl := (Prod.mk.inj (Option.some.inj hfeed)).1
  exact absurd hlength (by decide)

end DasEdge.Test
