import DasEdge.Board.SerialBurst
import DasEdge.Lora.LoraStd
import DasEdge.Zigbee.ZgbStdBounds
import Mathlib.Data.List.SplitLengths

/-!
# The receive buffers of the radios

The receive threads collect a burst in 4096 bytes. `__lora_recv_buffer` copies it to a static buffer
of 1024 bytes, and when a request waits in AT mode writes a terminator behind it;
`__zgb_recv_buffer` copies it to one of 2048 bytes. From there it goes to the queue for requests,
which has room for one item, and the request copies the item to a buffer of the same size as the
static one. Nothing compares the sizes. A buffer is the memory from its first byte on. What is not
for a request, and what begins a request but for its state, is left out.
-/

namespace DasEdge.Wireless

open DasEdge.Board DasEdge.Library DasEdge.Lora DasEdge.Zigbee

/-- Bytes of a buffer that are copied, from it or to it, or terminated: the first place, how many,
and how many the buffer has. -/
structure BufferUse where
  place : ℕ
  count : ℕ
  size : ℕ

/-- All the bytes are in the buffer. -/
def BufferUse.Inside (u : BufferUse) : Prop := u.place + u.count ≤ u.size

/-- The size of the buffer of a receive thread. -/
def recvThreadSize : ℕ := 4096

/-- The frames that a receive thread hands on, one after another. -/
def handOver {σ : Type} (recv : σ → List UInt8 → List BufferUse × σ) :
    σ → List (List UInt8) → List BufferUse × σ
  | s, [] => ([], s)
  | s, frame :: rest =>
    ((recv s frame).1 ++ (handOver recv (recv s frame).2 rest).1,
      (handOver recv (recv s frame).2 rest).2)

/-- The receive thread, `s_lora_rcv_queue.buf`, whether a request waits in AT mode, the work mode,
the queue for requests, and the buffer of `_cmdqueue`. -/
structure LoraReceiver where
  worker : SerialWorker
  rcvBuf : ℕ → UInt8
  inAt : Bool
  central : Bool
  cmdQueue : Option LoraBufQueue
  cmdBuf : ℕ → UInt8

/-- `__lora_recv_buffer`, with the bytes that it copies and terminates. An item for a queue that is
full is dropped. -/
def LoraReceiver.recvBuffer (s : LoraReceiver) (buffer : List UInt8) : List BufferUse × LoraReceiver :=
  let len := buffer.length
  let sent := loraRecvBuffer s.inAt s.central s.rcvBuf buffer
  let cmdQueue :=
    match sent.1, s.cmdQueue with
    | .cmd item, none => some item
    | _, cmdQueue => cmdQueue
  ([⟨0, len, recvThreadSize⟩, ⟨0, len, loraStdFaSize⟩] ++
    (if s.inAt then [⟨len, 1, loraStdFaSize⟩] else []) ++
      if !s.inAt && s.central && loraCmdHeadSize ≤
      len then [⟨0, loraCmdHeadSize, loraStdFaSize⟩] else [],
    { s with rcvBuf := sent.2, cmdQueue := cmdQueue })

/-- `__lora_recv_thread` through a burst. -/
def LoraReceiver.burst (s : LoraReceiver) (chunks : List (List UInt8)) :
    List BufferUse × LoraReceiver :=
  let worker := (runTotal loraRecvThread s.worker (burstTurns chunks)).2
  handOver LoraReceiver.recvBuffer { s with worker := worker }
    (worker.handed.drop s.worker.handed.length)

/-- `__lora_wait_at_result` when there is an item or the time is over: the bytes that it terminates,
and the text. The item has as many bytes as the buffers. -/
def LoraReceiver.waitAtResult (s : LoraReceiver) : List BufferUse × Option (ℕ → UInt8) :=
  match s.cmdQueue with
  | none => ([], none)
  | some item =>
    ([⟨item.len, 1, loraStdFaSize⟩],
      some (Function.update (fun n => if n < loraStdFaSize then item.buf n else s.cmdBuf n) item.len 0))

/-- `_cmdqueue` in `zigbee.c` -/
structure ZgbCmdQueue where
  len : ℕ
  pos : ℕ
  buf : ℕ → UInt8

/-- The receive thread, `s_zgb_rcv_queue.buf`, whether a request waits, the queue for requests, and
the buffer of `_cmdqueue`. -/
structure ZgbReceiver where
  worker : SerialWorker
  rcvBuf : ℕ → UInt8
  inCmd : Bool
  cmdQueue : Option ZgbBufQueue
  cmdBuf : ℕ → UInt8

/-- `__zgb_recv_buffer`, with the bytes that it copies. -/
def ZgbReceiver.recvBuffer (s : ZgbReceiver) (buffer : List UInt8) : List BufferUse × ZgbReceiver :=
  let len := buffer.length
  let sent := zgbRecvBuffer s.inCmd s.rcvBuf buffer
  let cmdQueue :=
    match sent, s.cmdQueue with
    | .cmd item, none => some item
    | _, cmdQueue => cmdQueue
  let head : List BufferUse :=
    match sent with
    | .cmd _ => []
    -- `__is_std_head` copies two numbers before it looks at the length
    | _ => [⟨0, 4, zgbStdFaSize⟩, ⟨4, 4, zgbStdFaSize⟩]
  ([⟨0, len, recvThreadSize⟩, ⟨0, len, zgbStdFaSize⟩] ++ head,
    { s with rcvBuf := fun n => buffer.getD n (s.rcvBuf n), cmdQueue := cmdQueue })

/-- `_zgbworker_thread` through a burst. -/
def ZgbReceiver.burst (s : ZgbReceiver) (chunks : List (List UInt8)) : List BufferUse × ZgbReceiver :=
  let worker := (runTotal zgbworkerThread s.worker (burstTurns chunks)).2
  handOver ZgbReceiver.recvBuffer { s with worker := worker }
    (worker.handed.drop s.worker.handed.length)

/-- `prvRecvTempHeadWithTime`, or `zigbeeRecvHead`: the item when it has the head and the code of
the command; else the wait goes on until the time is over. -/
def ZgbReceiver.recvHead (s : ZgbReceiver) (temp : Bool) (cmdcode : UInt8) : Option ZgbCmdQueue :=
  match s.cmdQueue with
  | none => none
  | some item =>
    let buf n := if n < zgbStdFaSize then item.buf n else s.cmdBuf n
    if (if temp then zgbIsTempcmdHead buf item.len else zgbIsCmdHead buf item.len) && buf 3 =
      cmdcode then
      some ⟨item.len, 4, buf⟩
    else none

/-- `zigbeeRecvData` for the fields of an answer, whose sizes are given: the bytes that are copied,
and the fields when all of them are there. -/
def ZgbCmdQueue.recvData (cmd : ZgbCmdQueue) : List ℕ → List BufferUse × Option (List (List UInt8))
  | [] => ([], some [])
  | len :: rest =>
    if cmd.pos + len ≤ cmd.len then
      let tail := ({ cmd with pos := cmd.pos + len } : ZgbCmdQueue).recvData rest
      (⟨cmd.pos, len, zgbStdFaSize⟩ :: tail.1,
        tail.2.map ((List.range len).map (fun n => cmd.buf (cmd.pos + n)) :: ·))
    else ([], none)

/-- A request that waits for an answer with fields of some sizes. -/
def ZgbReceiver.request (s : ZgbReceiver) (temp : Bool) (cmdcode : UInt8) (fields : List ℕ) :
    List BufferUse × Option (List (List UInt8)) :=
  match s.recvHead temp cmdcode with
  | none => ([], none)
  | some cmd => cmd.recvData fields

/-- A burst that `__lora_recv_buffer` takes for an answer. -/
def LoraAnswer (bytes : List UInt8) : Prop := bytes.drop (bytes.length - 2) = [0x0D, 0x0A] ∧
    4 < bytes.length

/-- The position of the thread stays inside its buffer, all copies and terminators are inside the
buffers, and a request that waits gets the bytes of an answer with a terminator, and nothing else.
-/
structure LoraBurstOk (s : LoraReceiver) (chunks : List (List UInt8)) : Prop where
  worker : ∀ k, (runTotal loraRecvThread s.worker ((burstTurns chunks).take k)).2.Ok recvThreadSize
  inside : ∀ u ∈ (s.burst chunks).1, u.Inside
  wait : s.inAt = true → s.cmdQueue = none → ∀ u ∈ (s.burst chunks).2.waitAtResult.1, u.Inside
  answer : s.inAt = true → s.cmdQueue = none → LoraAnswer chunks.flatten →
    ∃ text, (s.burst chunks).2.waitAtResult.2 = some text ∧ ShowsAt text 0 (chunks.flatten ++ [0])
  nothing : s.inAt = true → s.cmdQueue = none → ¬ LoraAnswer chunks.flatten →
    (s.burst chunks).2.waitAtResult.2 = none

/-- The head of an answer to a request. -/
def zgbAnswerHead (temp : Bool) (cmdcode : UInt8) : List UInt8 :=
  (if temp then [0xDE, 0xDF, 0xEF] else [0xAB, 0xBC, 0xCD]) ++ [cmdcode]

/-- The position of the thread stays inside its buffer, all copies are inside the buffers, and a
request that waits gets the fields of an answer to it, and nothing else. -/
structure ZgbBurstOk (s : ZgbReceiver) (chunks : List (List UInt8)) : Prop where
  worker : ∀ k, (runTotal zgbworkerThread s.worker ((burstTurns chunks).take k)).2.Ok recvThreadSize
  inside : ∀ u ∈ (s.burst chunks).1, u.Inside
  wait : s.inCmd = true → s.cmdQueue = none → ∀ temp cmdcode fields,
    ∀ u ∈ ((s.burst chunks).2.request temp cmdcode fields).1, u.Inside
  answer : s.inCmd = true → s.cmdQueue = none → ∀ temp cmdcode fields,
    ((s.burst chunks).2.request temp cmdcode fields).2 =
      if chunks.flatten.take 4 = zgbAnswerHead temp cmdcode ∧
      4 + fields.sum ≤ chunks.flatten.length then
        some (fields.splitLengths (chunks.flatten.drop 4))
      else none

/-- A buffer shows the bytes copied to it, and behind them what was there. -/
theorem showsAt_copied (bytes : List UInt8) (buf : ℕ → UInt8) :
    ShowsAt (fun n => bytes.getD n (buf n)) 0 bytes := by
  intro i hi
  simp only [Nat.zero_add, List.getD_eq_getElem?_getD, List.getElem?_eq_getElem hi, Option.getD_some]

/-- A buffer of some size takes over the bytes that fit in it. -/
theorem showsAt_carried {memory : ℕ → UInt8} {bytes : List UInt8}
    (h : ShowsAt memory 0 bytes) {size : ℕ}
    (hfits : bytes.length ≤ size) (rest : ℕ → UInt8) :
    ShowsAt (fun n => if n < size then memory n else rest n) 0 bytes := by
  intro i hi
  simp only [Nat.zero_add, if_pos (Nat.lt_of_lt_of_le hi hfits)]
  rw [← h i hi, Nat.zero_add]

/-- A terminator behind bytes ends them. -/
theorem showsAt_terminated {memory : ℕ → UInt8} {bytes : List UInt8} (h : ShowsAt memory 0 bytes) :
    ShowsAt (Function.update memory bytes.length 0) 0 (bytes ++ [0]) := by
  refine showsAt_append.mpr ⟨fun i hi => ?_, fun i hi => ?_⟩
  · rw [Nat.zero_add, Function.update_of_ne (Nat.ne_of_lt hi), ← h i hi, Nat.zero_add]
  · obtain rfl : i = 0 := Nat.lt_one_iff.mp hi
    rw [Nat.zero_add, Nat.add_zero, Function.update_self]
    rfl

/-- One frame is handed on. -/
theorem handOver_singleton {σ : Type} (recv : σ → List UInt8 → List BufferUse × σ) (s : σ)
    (frame : List UInt8) :
    handOver recv s [frame] = recv s frame := by
  simp only [handOver, List.append_nil]

/-- The test for the end of an answer is right for the bytes that the buffer shows. -/
theorem loraIsAtEnd_iff {memory : ℕ → UInt8} {bytes : List UInt8} (h : ShowsAt memory 0 bytes) :
    (loraIsAtEnd memory bytes.length && decide (4 < bytes.length)) = true ↔ LoraAnswer bytes := by
  rw [Bool.and_eq_true, decide_eq_true_eq, LoraAnswer]
  refine and_congr_left fun hlength => ?_
  have hlast := h.drop (n := bytes.length - 2) (Nat.sub_le _ _)
  obtain ⟨last', last, htwo⟩ :=
    List.length_eq_two.mp (show (bytes.drop (bytes.length - 2)).length = 2 by
    rw [List.length_drop]
    omega)
  have hplace : bytes.length - 1 = bytes.length - 2 + 1 := by omega
  rw [htwo, showsAt_cons, showsAt_cons, Nat.zero_add] at hlast
  rw [htwo, loraIsAtEnd, hplace, hlast.1, hlast.2.1]
  simp

section Lora

variable {s : LoraReceiver} {chunks : List (List UInt8)}

/-- A burst comes to `__lora_recv_buffer` as one frame. -/
theorem LoraReceiver.burst_eq (h : s.worker.Inv recvThreadSize) (houter : s.worker.inner = false)
    (hburst : IsBurst recvThreadSize chunks) :
    s.burst chunks =
      ({ s with worker := (runTotal loraRecvThread s.worker (burstTurns chunks)).2 } :
      LoraReceiver).recvBuffer
        chunks.flatten := by
  have hhanded : (runTotal loraRecvThread s.worker (burstTurns chunks)).2.handed =
      s.worker.handed ++ [chunks.flatten] :=
    h.handed_burst houter hburst
  simp only [LoraReceiver.burst, hhanded, List.drop_left, handOver_singleton]

/-- What `__lora_recv_buffer` copies and terminates is inside the buffers, if and only if the bytes
fit, with a terminator in AT mode. -/
theorem LoraReceiver.recvBuffer_inside_iff (s : LoraReceiver) {bytes : List UInt8}
    (h : bytes.length ≤ recvThreadSize) :
    (∀ u ∈ (s.recvBuffer bytes).1, u.Inside) ↔ bytes.length + (if s.inAt then 1 else 0) ≤
      loraStdFaSize := by
  have hhead : BufferUse.Inside ⟨0, loraCmdHeadSize, loraStdFaSize⟩ := by
    unfold BufferUse.Inside
    decide
  have hsource : BufferUse.Inside ⟨0, bytes.length, recvThreadSize⟩ := by
    rw [BufferUse.Inside, Nat.zero_add]
    exact h
  constructor
  · intro hinside
    have hcopy := hinside ⟨0, bytes.length, loraStdFaSize⟩ (by simp [LoraReceiver.recvBuffer])
    split
    · next hat => exact hinside ⟨bytes.length, 1, loraStdFaSize⟩
                    (by simp [LoraReceiver.recvBuffer, hat])
    · rw [BufferUse.Inside, Nat.zero_add] at hcopy
      exact hcopy
  · intro hfits u hu
    simp only [LoraReceiver.recvBuffer, List.mem_append, List.mem_cons, List.not_mem_nil,
      or_false] at hu
    rcases hu with ((rfl | rfl) | hu) | hu
    · exact hsource
    · rw [BufferUse.Inside, Nat.zero_add]
      exact Nat.le_trans (Nat.le_add_right _ _) hfits
    · split at hu
      · next hat =>
        rw [if_pos hat] at hfits
        rw [List.mem_singleton.mp hu]
        exact hfits
      · exact absurd hu List.not_mem_nil
    · split at hu
      · rw [List.mem_singleton.mp hu]
        exact hhead
      · exact absurd hu List.not_mem_nil

/-- In AT mode an answer goes to an empty queue, with its terminator, and nothing else does. -/
theorem LoraReceiver.recvBuffer_cmdQueue (hat : s.inAt = true) (hempty : s.cmdQueue = none)
    (bytes : List UInt8) :
    (LoraAnswer bytes → ∃ buf, ShowsAt buf 0 bytes ∧
      (s.recvBuffer bytes).2.cmdQueue = some ⟨bytes.length, buf⟩) ∧
      (¬ LoraAnswer bytes → (s.recvBuffer bytes).2.cmdQueue = none) := by
  have hshows := (showsAt_append.mp (showsAt_terminated (showsAt_copied bytes s.rcvBuf))).1
  have hiff := loraIsAtEnd_iff hshows
  constructor
  · intro hanswer
    refine ⟨_, hshows, ?_⟩
    simp only [LoraReceiver.recvBuffer, loraRecvBuffer, hat, if_true, hiff.mpr hanswer, hempty]
  · intro hanswer
    have hno := mt hiff.mp hanswer
    simp only [LoraReceiver.recvBuffer, loraRecvBuffer, hat, if_true, hno, hempty]
    rfl

/-- The LoRa buffers are kept to, and a request that waits gets its answer, if and only if a burst
fits the static buffer, with a terminator in AT mode. -/
theorem loraBurstOk_iff (h : s.worker.Inv recvThreadSize) (houter : s.worker.inner = false)
    (hburst : IsBurst recvThreadSize chunks) :
    LoraBurstOk s chunks ↔ chunks.flatten.length + (if s.inAt then 1 else 0) ≤ loraStdFaSize := by
  have hrecv := LoraReceiver.burst_eq h houter hburst
  generalize hs' : ({ s with worker := (runTotal loraRecvThread s.worker (burstTurns chunks)).2 } :
    LoraReceiver) = s' at hrecv
  have hinAt : s'.inAt = s.inAt := by rw [← hs']
  have hqueue : s'.cmdQueue = s.cmdQueue := by rw [← hs']
  have hinside := s'.recvBuffer_inside_iff hburst.fits
  rw [hinAt] at hinside
  constructor
  · intro hok
    have hall := hok.inside
    rw [hrecv] at hall
    exact hinside.mp hall
  · intro hfits
    have hcmd : s.inAt = true → s.cmdQueue = none → _ := fun hat hempty =>
      LoraReceiver.recvBuffer_cmdQueue (hinAt.trans hat) (hqueue.trans hempty) chunks.flatten
    refine ⟨fun k => (h.burst chunks k).ok, hrecv ▸ hinside.mpr hfits, fun hat hempty u hu => ?_,
      fun hat hempty hanswer => ?_, fun hat hempty hanswer => ?_⟩
    · rw [hrecv] at hu
      rw [if_pos hat] at hfits
      by_cases hanswer : LoraAnswer chunks.flatten
      · obtain ⟨buf, -, hitem⟩ := (hcmd hat hempty).1 hanswer
        simp only [LoraReceiver.waitAtResult, hitem] at hu
        rw [List.mem_singleton.mp hu]
        exact hfits
      · simp only [LoraReceiver.waitAtResult, (hcmd hat hempty).2 hanswer] at hu
        exact absurd hu List.not_mem_nil
    · rw [if_pos hat] at hfits
      obtain ⟨buf, hshows, hitem⟩ := (hcmd hat hempty).1 hanswer
      rw [hrecv]
      simp only [LoraReceiver.waitAtResult, hitem]
      exact ⟨_, rfl, showsAt_terminated (showsAt_carried hshows (Nat.le_of_succ_le hfits) _)⟩
    · rw [hrecv]
      simp only [LoraReceiver.waitAtResult, (hcmd hat hempty).2 hanswer]

end Lora

section Zgb

variable {s : ZgbReceiver} {chunks : List (List UInt8)}

/-- A burst comes to `__zgb_recv_buffer` as one frame. -/
theorem ZgbReceiver.burst_eq (h : s.worker.Inv recvThreadSize) (houter : s.worker.inner = false)
    (hburst : IsBurst recvThreadSize chunks) :
    s.burst chunks =
      ({ s with worker := (runTotal zgbworkerThread s.worker (burstTurns chunks)).2 } :
      ZgbReceiver).recvBuffer
        chunks.flatten := by
  have hhanded : (runTotal zgbworkerThread s.worker (burstTurns chunks)).2.handed =
      s.worker.handed ++ [chunks.flatten] :=
    h.handed_burst houter hburst
  simp only [ZgbReceiver.burst, hhanded, List.drop_left, handOver_singleton]

/-- What `__zgb_recv_buffer` copies is inside the buffers, if and only if the bytes fit. -/
theorem ZgbReceiver.recvBuffer_inside_iff (s : ZgbReceiver) {bytes : List UInt8}
    (h : bytes.length ≤ recvThreadSize) :
    (∀ u ∈ (s.recvBuffer bytes).1, u.Inside) ↔ bytes.length ≤ zgbStdFaSize := by
  have hhead : ∀ place ≤ 4, BufferUse.Inside ⟨place, 4, zgbStdFaSize⟩ := fun place hplace =>
    Nat.le_trans (Nat.add_le_add_right hplace 4) (show 4 + 4 ≤ zgbStdFaSize by decide)
  constructor
  · intro hinside
    have hcopy := hinside ⟨0, bytes.length, zgbStdFaSize⟩ (by simp [ZgbReceiver.recvBuffer])
    rw [BufferUse.Inside, Nat.zero_add] at hcopy
    exact hcopy
  · intro hfits u hu
    simp only [ZgbReceiver.recvBuffer, List.mem_append, List.mem_cons, List.not_mem_nil, or_false] at hu
    rcases hu with (rfl | rfl) | hu
    · rw [BufferUse.Inside, Nat.zero_add]
      exact h
    · rw [BufferUse.Inside, Nat.zero_add]
      exact hfits
    · split at hu
      · exact absurd hu List.not_mem_nil
      · simp only [List.mem_cons, List.not_mem_nil, or_false] at hu
        rcases hu with rfl | rfl
        · exact hhead 0 (Nat.zero_le _)
        · exact hhead 4 (Nat.le_refl _)

/-- The test of a head is right for the bytes that the buffer shows. -/
theorem zgbHead_iff {memory : ℕ → UInt8} {bytes : List UInt8} (h : ShowsAt memory 0 bytes) (temp : Bool)
    (cmdcode : UInt8) :
    ((if temp then zgbIsTempcmdHead memory bytes.length else zgbIsCmdHead memory bytes.length) &&
        decide (memory 3 = cmdcode)) = true ↔ bytes.take 4 = zgbAnswerHead temp cmdcode := by
  have hsize : (zgbAnswerHead temp cmdcode).length = 4 := by cases temp <;> rfl
  by_cases hlength : 4 ≤ bytes.length
  · have hprefix : ShowsAt memory 0 (zgbAnswerHead temp cmdcode) ↔ _ := h.prefix_iff (by omega)
    rw [List.prefix_iff_eq_take, hsize] at hprefix
    rw [eq_comm (a := bytes.take 4), ← hprefix]
    have hnil : ∀ place, ShowsAt memory place [] := fun place i hi => absurd hi (Nat.not_lt_zero i)
    cases temp <;>
      simp [zgbIsTempcmdHead, zgbIsCmdHead, zgbAnswerHead, showsAt_cons, hlength, and_assoc, hnil]
  · refine iff_of_false ?_ fun heq => ?_
    · cases temp <;> simp [zgbIsTempcmdHead, zgbIsCmdHead, hlength]
    · have := congrArg List.length heq
      rw [List.length_take, hsize] at this
      omega

/-- The fields of an answer are copied from inside the item, and are its bytes. -/
theorem ZgbCmdQueue.recvData_spec {buf : ℕ → UInt8} {bytes : List UInt8} (hshows : ShowsAt buf 0 bytes)
    (hfits : bytes.length ≤ zgbStdFaSize) {pos : ℕ} (hpos : pos ≤ bytes.length) (fields : List ℕ) :
    (∀ u ∈ ((⟨bytes.length, pos, buf⟩ : ZgbCmdQueue).recvData fields).1, u.Inside) ∧
      ((⟨bytes.length, pos, buf⟩ : ZgbCmdQueue).recvData fields).2 =
        if pos + fields.sum ≤ bytes.length then some (fields.splitLengths (bytes.drop pos))
        else none := by
  induction fields generalizing pos with
  | nil =>
    refine ⟨fun u hu => absurd hu List.not_mem_nil, ?_⟩
    rw [List.sum_nil, Nat.add_zero, if_pos hpos]
    rfl
  | cons len rest ih =>
    rw [ZgbCmdQueue.recvData, List.sum_cons]
    split
    · next hthere =>
      obtain ⟨hinside, hresult⟩ := ih hthere
      refine ⟨fun u hu => ?_, ?_⟩
      · rcases List.mem_cons.mp hu with rfl | hu
        · exact Nat.le_trans hthere hfits
        · exact hinside u hu
      · have hbytes : (List.range len).map (fun n => buf (pos + n)) = (bytes.drop pos).take len := by
          have htail := hshows.drop hpos
          rw [Nat.zero_add, ← List.take_append_drop len (bytes.drop pos), showsAt_append] at htail
          have hmap := htail.1.map_range
          rwa [List.length_take, List.length_drop,
            Nat.min_eq_left (Nat.le_sub_of_add_le' hthere)] at hmap
        simp only [hresult, hbytes, List.splitLengths_cons, List.drop_drop, Nat.add_assoc]
        split <;> rfl
    · next hshort =>
      refine ⟨fun u hu => absurd hu List.not_mem_nil, ?_⟩
      have hshort : ¬ pos + len ≤ bytes.length := hshort
      rw [if_neg (by omega)]

/-- With a command waiting an item in an empty queue is one that begins like an answer, and each
answer is there. -/
theorem ZgbReceiver.recvHead_burst (s : ZgbReceiver) (hin : s.inCmd = true) (hempty : s.cmdQueue = none)
    {bytes : List UInt8} (hfits : bytes.length ≤ zgbStdFaSize) (temp : Bool) (cmdcode : UInt8) :
    (bytes.take 4 = zgbAnswerHead temp cmdcode → ∃ buf, ShowsAt buf 0 bytes ∧
        (s.recvBuffer bytes).2.recvHead temp cmdcode = some ⟨bytes.length, 4, buf⟩) ∧
      (bytes.take 4 ≠ zgbAnswerHead temp cmdcode → (s.recvBuffer bytes).2.recvHead temp cmdcode =
      none) := by
  have hcopied := showsAt_copied bytes s.rcvBuf
  have hcarried := showsAt_carried hcopied hfits s.cmdBuf
  have hhead := zgbHead_iff hcarried temp cmdcode
  have hsent := zgbHead_iff hcopied temp cmdcode
  constructor
  · intro hanswer
    refine ⟨_, hcarried, ?_⟩
    -- the worker finds the head, so that the item is for the command
    have hcmd : (zgbIsTempcmdHead (fun n => bytes.getD n (s.rcvBuf n)) bytes.length ||
        zgbIsCmdHead (fun n => bytes.getD n (s.rcvBuf n)) bytes.length) = true := by
      have htest := (Bool.and_eq_true_iff.mp (hsent.mpr hanswer)).1
      cases temp with
      | true => exact Bool.or_eq_true_iff.mpr (.inl htest)
      | false => exact Bool.or_eq_true_iff.mpr (.inr htest)
    have hitem : (s.recvBuffer bytes).2.cmdQueue =
        some ⟨bytes.length, fun n => bytes.getD n (s.rcvBuf n)⟩ := by
      simp only [ZgbReceiver.recvBuffer, zgbRecvBuffer, hin, Bool.true_and, hcmd, if_true, hempty]
    unfold ZgbReceiver.recvHead
    rw [hitem]
    exact if_pos (hhead.mpr hanswer)
  · intro hanswer
    unfold ZgbReceiver.recvHead
    split
    · rfl
    · next item hitem =>
      have hitem' : item = ⟨bytes.length, fun n => bytes.getD n (s.rcvBuf n)⟩ := by
        simp only [ZgbReceiver.recvBuffer, zgbRecvBuffer, hin, Bool.true_and, hempty] at hitem
        by_cases hcmd : (zgbIsTempcmdHead (fun n => bytes.getD n (s.rcvBuf n)) bytes.length ||
            zgbIsCmdHead (fun n => bytes.getD n (s.rcvBuf n)) bytes.length) = true
        · rw [if_pos hcmd] at hitem
          exact (Option.some.inj hitem).symm
        · rw [if_neg hcmd] at hitem
          split at hitem
          · next hother _ => split at hother <;> cases hother
          · cases hitem
      subst hitem'
      exact if_neg (mt hhead.mp hanswer)

/-- The Zigbee buffers are kept to, and a request that waits gets its answer, if and only if a burst
fits the static buffer. -/
theorem zgbBurstOk_iff (h : s.worker.Inv recvThreadSize) (houter : s.worker.inner = false)
    (hburst : IsBurst recvThreadSize chunks) :
    ZgbBurstOk s chunks ↔ chunks.flatten.length ≤ zgbStdFaSize := by
  have hrecv := ZgbReceiver.burst_eq h houter hburst
  generalize hs' : ({ s with worker := (runTotal zgbworkerThread s.worker (burstTurns chunks)).2 } :
    ZgbReceiver) = s' at hrecv
  have hin' : s'.inCmd = s.inCmd := by rw [← hs']
  have hqueue : s'.cmdQueue = s.cmdQueue := by rw [← hs']
  have hinside := s'.recvBuffer_inside_iff hburst.fits
  constructor
  · intro hok
    have hall := hok.inside
    rw [hrecv] at hall
    exact hinside.mp hall
  · intro hfits
    have hrequest : s.inCmd = true → s.cmdQueue = none → ∀ temp cmdcode fields,
        (∀ u ∈ ((s.burst chunks).2.request temp cmdcode fields).1, u.Inside) ∧
          ((s.burst chunks).2.request temp cmdcode fields).2 =
            if chunks.flatten.take 4 = zgbAnswerHead temp cmdcode ∧
            4 + fields.sum ≤ chunks.flatten.length then
              some (fields.splitLengths (chunks.flatten.drop 4))
            else none := by
      intro hin hempty temp cmdcode fields
      obtain ⟨hanswer, hother⟩ :=
        s'.recvHead_burst (hin'.trans hin) (hqueue.trans hempty) hfits temp cmdcode
      rw [hrecv]
      unfold ZgbReceiver.request
      by_cases hhead : chunks.flatten.take 4 = zgbAnswerHead temp cmdcode
      · obtain ⟨buf, hshows, hsome⟩ := hanswer hhead
        have hfour : 4 ≤ chunks.flatten.length := by
          have hlength := congrArg List.length hhead
          rw [List.length_take] at hlength
          have hsize : (zgbAnswerHead temp cmdcode).length = 4 := by cases temp <;> rfl
          omega
        have hspec := ZgbCmdQueue.recvData_spec hshows hfits hfour fields
        rw [hsome]
        simp only [hhead, true_and]
        exact hspec
      · rw [hother hhead, if_neg fun hboth => hhead hboth.1]
        exact ⟨fun u hu => absurd hu List.not_mem_nil, rfl⟩
    refine ⟨fun k => (h.burst chunks k).ok, hrecv ▸ hinside.mpr hfits,
      fun hin hempty temp cmdcode fields => ?_,
      fun hin hempty temp cmdcode fields => ?_⟩
    · exact (hrequest hin hempty temp cmdcode fields).1
    · exact (hrequest hin hempty temp cmdcode fields).2

end Zgb

/-- For every state of a receive thread at rest and of a receiver, and every burst that the thread
has room for: the LoRa buffers are kept to and a request that waits gets its answer, if and only if
the burst fits the static buffer of 1024 bytes, with a terminator in AT mode; and so it is for
Zigbee, if and only if the burst fits in 2048 bytes. -/
theorem receive_buffers_iff {chunks : List (List UInt8)} (hburst : IsBurst recvThreadSize chunks) :
    (∀ s : LoraReceiver, s.worker.Inv recvThreadSize → s.worker.inner = false →
      (LoraBurstOk s chunks ↔ chunks.flatten.length + (if s.inAt then 1 else 0) ≤ loraStdFaSize)) ∧
    ∀ s : ZgbReceiver, s.worker.Inv recvThreadSize → s.worker.inner = false →
      (ZgbBurstOk s chunks ↔ chunks.flatten.length ≤ zgbStdFaSize) :=
  ⟨fun _ h houter => loraBurstOk_iff h houter hburst, fun _ h houter => zgbBurstOk_iff h houter hburst⟩

/-- Nothing has been received, and a LoRa request waits. -/
def loraWaits : LoraReceiver := ⟨.start recvThreadSize, fun _ => 0, true, true, none, fun _ => 0⟩

/-- Nothing has been received, and a Zigbee request waits. -/
def zgbWaits : ZgbReceiver := ⟨.start recvThreadSize, fun _ => 0, true, none, fun _ => 0⟩

/-- The LoRa module answers `+OK`, in two chunks, and the Zigbee module the request for the channel. -/
theorem receive_buffers_iff_two :
    (LoraBurstOk loraWaits [[0x2B, 0x4F], [0x4B, 0x0D, 0x0A]] ↔
      [[0x2B, 0x4F], [0x4B, 0x0D, (0x0A : UInt8)]].flatten.length +
      (if loraWaits.inAt then 1 else 0) ≤ loraStdFaSize) ∧
    (ZgbBurstOk zgbWaits [[0xDE, 0xDF, 0xEF, 0xD1, 0]] ↔
      [[0xDE, 0xDF, 0xEF, 0xD1, (0 : UInt8)]].flatten.length ≤ zgbStdFaSize) :=
  ⟨(receive_buffers_iff (by decide)).1 loraWaits (SerialWorker.inv_start _) rfl,
    (receive_buffers_iff (by decide)).2 zgbWaits (SerialWorker.inv_start _) rfl⟩

/-- In AT mode 1024 bytes come in. The terminator is written behind the buffer. -/
theorem receive_buffers_not_exact :
    ¬ ∀ (s : LoraReceiver) (chunks : List (List UInt8)), s.worker.Inv recvThreadSize →
      s.worker.inner = false →
      IsBurst recvThreadSize chunks → LoraBurstOk s chunks := by
  intro hall
  have hlength : ([List.replicate 1024 0x41] : List (List UInt8)).flatten.length = 1024 := by
    rw [List.flatten_singleton, List.length_replicate]
  have hburst : IsBurst recvThreadSize [List.replicate 1024 0x41] :=
    ⟨List.cons_ne_nil _ _, fun chunk hchunk => by
      rw [List.mem_singleton.mp hchunk]
      exact List.ne_nil_of_length_pos (by rw [List.length_replicate]; decide),
      by rw [hlength]; decide⟩
  have hok := hall loraWaits _ (SerialWorker.inv_start _) rfl hburst
  have hfits := (loraBurstOk_iff (SerialWorker.inv_start _) rfl hburst).mp hok
  rw [hlength] at hfits
  exact absurd hfits (by decide)

end DasEdge.Wireless
