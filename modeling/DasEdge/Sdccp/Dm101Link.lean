import DasEdge.Sdccp.BfifoRefinement
import DasEdge.Sdccp.Dm101Pkg

/-!
# The receive path of DM101

The network thread hands each receive event to `dm101_put_bytes`, which pushes its bytes to the fifo
of the link. The worker looks at the fifo until a head may lie in it, and lets `read_pkg` pull head,
payload and CRC-32. Each call on the fifo is one step, under its mutex. The network thread takes as
many steps as it likes before each call of the worker, also while `bfifo_pull` waits for a first
byte.
-/

namespace DasEdge.Sdccp

open DasEdge.Library

/-- `DM101_FIFO_SIZE` -/
def dm101FifoSize : UInt32 := 4096

/-- `MAGIC_LEN` -/
def dm101MagicLen : UInt32 := 4

/-- The bytes of a receive event. Their number is passed as an `rt_uint16_t`. -/
abbrev Dm101Segment := { bytes : List UInt8 // bytes.length < 2 ^ 16 }

/-- The fifo, what the running call of `dm101_put_bytes` has still to push, and the receive events
to come. -/
structure Dm101Link where
  fifo : Bfifo
  buffer : Dm101Segment
  segments : List Dm101Segment

/-- What a call of `dm101_put_bytes` has still to push after some bytes. -/
def Dm101Segment.drop (buffer : Dm101Segment) (num : ℕ) : Dm101Segment :=
  ⟨buffer.1.drop num, Nat.lt_of_le_of_lt (by rw [List.length_drop]; exact Nat.sub_le _ _) buffer.2⟩

/-- A step of the network thread: it calls `dm101_put_bytes` for the next event, or the loop there
pushes once. With no timeout a push waits while the fifo is full. -/
def Dm101Link.put (link : Dm101Link) : Dm101Link :=
  if 0 < link.buffer.1.length then
    match bfifoPush link.fifo link.buffer.1 link.buffer.1.length.toUInt32 with
    | none => link
    | some (num, fifo) => { link with fifo := fifo, buffer := link.buffer.drop num.toNat }
  else
    match link.segments with
    | [] => link
    | segment :: segments => { link with buffer := segment, segments := segments }

/-- Some steps of the network thread. -/
def Dm101Link.puts (link : Dm101Link) : ℕ → Dm101Link
  | 0 => link
  | turns + 1 => link.put.puts turns

/-- The number of bytes in the fifo. -/
def Dm101Link.queued (link : Dm101Link) : ℕ := (link.fifo.inPos - link.fifo.outPos).toNat

/-- The bytes that have not been pushed. -/
def Dm101Link.rest (link : Dm101Link) : List UInt8 :=
  link.buffer.1 ++ (link.segments.map Subtype.val).flatten

/-- The bytes that the worker has not pulled. -/
def Dm101Link.unread (link : Dm101Link) : List UInt8 := bfifoContents link.fifo ++ link.rest

/-- The link as `read_pkg` sees it, and how many steps the network thread takes before each call of
`getdata`. -/
structure Dm101Reader where
  link : Dm101Link
  turns : List ℕ

/-- The link when `getdata` is called next. -/
def Dm101Reader.next (reader : Dm101Reader) : Dm101Link := reader.link.puts (reader.turns.headD 0)

/-- What a pull gives is at most what was asked for. -/
theorem bfifoPull_length {f f' : Bfifo} {len : UInt32} {bytes : List UInt8}
    (h : bfifoPull f len = some (bytes, f')) :
    bytes.length ≤ len.toNat := by
  have hcopy (len' : UInt32) : (bfifoCopyOut f len').length ≤ len'.toNat := by
    have hmin := fifoMin_toNat len' (f.size - f.outPos % f.size)
    have hrest : (len' - fifoMin len' (f.size - f.outPos % f.size)).toNat =
        len'.toNat - (fifoMin len' (f.size - f.outPos % f.size)).toNat :=
      UInt32.toNat_sub_of_le _ _ (by rw [UInt32.le_iff_toNat_le]; omega)
    simp only [bfifoCopyOut, List.length_append, List.length_take, hrest]
    omega
  have hmin := fifoMin_toNat len (f.inPos - f.outPos)
  unfold bfifoPull at h
  split at h
  · cases h
  · split at h
    · cases h
      exact Nat.zero_le _
    · cases h
      exact Nat.le_trans (hcopy _) (by omega)

/-- `dm101_work_read`. The fifo is not held here: `read_pkg` is called when a peek has given four
bytes. -/
def dm101WorkRead : Dm101Getdata Dm101Reader where
  getdata reader count :=
    match bfifoPull reader.next.fifo count with
    | none => (none, ⟨reader.next, reader.turns.tail⟩)
    | some (bytes, fifo) => (some bytes, ⟨{ reader.next with fifo := fifo }, reader.turns.tail⟩)
  getdata_length reader count bytes h := by
    split at h
    · cases h
    · next hpull =>
      cases h
      exact bfifoPull_length hpull

/-- The packet that is cleared for `read_pkg`. -/
def dm101ClearedPkg : Dm101Pkg := ⟨⟨#v[0, 0, 0, 0], 0, 0, 0, 0, 0, 0, 0, 0, 0, 0, 0, 0, 0, 0⟩, none, 0⟩

/-- A packet as it is handled: its head, and the bytes of its payload. -/
abbrev Dm101Message := Dm101Head × List UInt8

/-- What `client_handle` handles, if `read_pkg` does not fail. -/
def Dm101Read.message {σ : Type} (out : Dm101Read σ) : Option Dm101Message :=
  if out.ret < 0 then none
  else some (out.pkg.head, (List.range out.pkg.head.payloadLength.toNat).map out.recvbuf)

/-- What the worker keeps from one pass of its loop to the next. -/
structure Dm101Session where
  link : Dm101Link
  recvbuf : ℕ → UInt8

/-- A pass of the loop in `dm101_work_task`: the steps of the network thread before `bfifo_count`,
before `bfifo_peek` and before each pull, and what is on the stack. -/
structure Dm101Pass where
  beforeCount : ℕ
  beforePeek : ℕ
  beforeReads : List ℕ
  stack : ℕ → UInt8

/-- One pass of the loop in `dm101_work_task`, with what it handles. It does not return when the
fifo is held. -/
def dm101Pass (crypto : Dm101Crypto) (auth : Vector UInt8 8) (s : Dm101Session) (pass : Dm101Pass) :
    Option (Option Dm101Message × Dm101Session) :=
  let link := s.link.puts pass.beforeCount
  match bfifoCount link.fifo with
  | none => none
  | some (count, fifo) =>
    if (52 : Int32) ≤ count.toInt32 then
      let link := { link with fifo := fifo }.puts pass.beforePeek
      match bfifoPeek link.fifo dm101MagicLen with
      | none => none
      | some (magic, fifo) =>
        let reader : Dm101Reader := ⟨{ link with fifo := fifo }, pass.beforeReads⟩
        if magic.length = dm101MagicLen.toNat then
          if magic = dm101Magic.toList then
            let out := readPkg crypto auth dm101WorkRead pass.stack s.recvbuf dm101ClearedPkg reader
            some (out.message, ⟨out.state.link, out.recvbuf⟩)
          else
            -- one byte is left out
            match bfifoPull reader.next.fifo 1 with
            | none => none
            | some (_, fifo) => some (none, ⟨{ reader.next with fifo := fifo }, s.recvbuf⟩)
        else some (none, ⟨reader.link, s.recvbuf⟩)
    else some (none, ⟨{ link with fifo := fifo }, s.recvbuf⟩)

/-- The link is open, and nothing has been received. -/
def dm101Opened (mem : List UInt8) (segments : List Dm101Segment) (recvbuf : ℕ → UInt8) :
    Dm101Session :=
  ⟨⟨bfifoCreate dm101FifoSize mem, ⟨[], by decide⟩, segments⟩, recvbuf⟩

end DasEdge.Sdccp
