import DasEdge.Sdccp.Dm101Link
import DasEdge.Sdccp.Dm101RoundTrip
import Mathlib.Data.List.ReduceOption

/-!
# What the receive path of DM101 delivers

The fifo and what is still to be pushed are the bytes of the packets that have not been delivered. A
pass that finds a head in the fifo delivers a packet when the bytes of its payload and its CRC-32
are in the fifo as they are pulled. They need not be: only the head is waited for, and a pull gives
what there is.
-/

namespace DasEdge.Sdccp

open DasEdge.Library DasEdge.Board

/-- The link carries a stream: its first bytes are in the fifo. -/
structure Dm101Carries (link : Dm101Link) (stream : List UInt8) : Prop where
  holds : BfifoHolds dm101FifoSize link.fifo (stream.take link.queued)
  rest_eq : link.rest = stream.drop link.queued

/-- The counters wrap at a multiple of the size. -/
theorem dm101FifoSize_dvd : dm101FifoSize.toNat ∣ 2 ^ 32 := by decide

section Link

variable {link : Dm101Link} {stream : List UInt8}

/-- What is in the fifo is part of the stream. -/
theorem Dm101Carries.queued_le (h : Dm101Carries link stream) : link.queued ≤ stream.length := by
  have hcount : link.queued = (stream.take link.queued).length := h.holds.count
  rw [List.length_take] at hcount
  omega

/-- The fifo has a size. -/
theorem Dm101Carries.queued_le_size (h : Dm101Carries link stream) : link.queued ≤ 4096 := by
  have hbound := h.holds.bound
  have hqueued := h.queued_le
  have hsize : dm101FifoSize.toNat = 4096 := rfl
  rw [h.holds.size_eq, List.length_take, hsize] at hbound
  omega

/-- What has not been read is the stream. -/
theorem Dm101Carries.unread_eq (h : Dm101Carries link stream) : link.unread = stream := by
  have hwindow := h.holds.window
  rw [← h.holds.count] at hwindow
  rw [Dm101Link.unread, bfifoContents, hwindow, h.rest_eq, List.take_append_drop]

/-- A fifo with a queue, and the bytes behind it. -/
theorem dm101Carries_of_holds {queue : List UInt8} (hholds : BfifoHolds dm101FifoSize link.fifo queue)
    (hstream : queue ++ link.rest = stream) : Dm101Carries link stream := by
  have hqueued : link.queued = queue.length := hholds.count
  subst hstream
  refine ⟨?_, ?_⟩
  · rw [hqueued, List.take_left']
    · exact hholds
    · rfl
  · rw [hqueued, List.drop_left']
    rfl

/-- A step of the network thread keeps the stream, and takes nothing out of the fifo. -/
theorem Dm101Carries.put (h : Dm101Carries link stream) : Dm101Carries link.put stream ∧
    link.queued ≤ link.put.queued := by
  have hstream : stream.take link.queued ++ link.rest = stream := by
    rw [h.rest_eq, List.take_append_drop]
  unfold Dm101Link.put
  split
  · obtain ⟨num, fifo, hpush, hnum, hholds⟩ := bfifoPush_holds dm101FifoSize_dvd h.holds
      ⟨link.buffer.1, Nat.lt_trans link.buffer.2 (by decide)⟩
    simp only [hpush]
    have hcarries : Dm101Carries { link with fifo := fifo, buffer := link.buffer.drop num.toNat }
        stream := by
      refine dm101Carries_of_holds hholds ?_
      rw [List.append_assoc, Dm101Link.rest, ← List.append_assoc (link.buffer.1.take num.toNat)]
      exact (congrArg (stream.take link.queued ++ ·)
        (congrArg (· ++ _) (List.take_append_drop num.toNat link.buffer.1))).trans hstream
    refine ⟨hcarries, ?_⟩
    have hmore := hholds.count
    have hcount : link.queued = (stream.take link.queued).length := h.holds.count
    rw [List.length_append, ← hcount] at hmore
    exact Nat.le_trans (Nat.le_add_right _ _) (Nat.le_of_eq hmore.symm)
  · next hempty =>
    have hnil : link.buffer.1 = [] := List.length_eq_zero_iff.mp (Nat.eq_zero_of_not_pos hempty)
    split
    · exact ⟨h, Nat.le_refl _⟩
    · next segment segments hsegments =>
      refine ⟨dm101Carries_of_holds h.holds ?_, Nat.le_refl _⟩
      rw [Dm101Link.rest, hnil, hsegments] at hstream
      exact hstream

/-- So do some of them. -/
theorem Dm101Carries.puts (h : Dm101Carries link stream) (turns : ℕ) :
    Dm101Carries (link.puts turns) stream ∧ link.queued ≤ (link.puts turns).queued := by
  induction turns generalizing link with
  | zero => exact ⟨h, Nat.le_refl _⟩
  | succ turns ih =>
    obtain ⟨hput, hmore⟩ := h.put
    obtain ⟨hputs, hmore'⟩ := ih hput
    exact ⟨hputs, Nat.le_trans hmore hmore'⟩

/-- A pull of bytes that are there takes them from the stream. -/
theorem Dm101Carries.pull (h : Dm101Carries link stream) {len : UInt32}
    (hlen : len.toNat ≤ link.queued) :
    ∃ fifo, bfifoPull link.fifo len = some (stream.take len.toNat, fifo) ∧
      Dm101Carries { link with fifo := fifo } (stream.drop len.toNat) := by
  obtain ⟨fifo, hpull, hholds⟩ := bfifoPull_holds dm101FifoSize_dvd h.holds len
  rw [List.take_take, Nat.min_eq_left hlen] at hpull
  refine ⟨fifo, hpull, dm101Carries_of_holds hholds ?_⟩
  have hrest : ({ link with fifo := fifo } : Dm101Link).rest = stream.drop link.queued := h.rest_eq
  rw [hrest, List.drop_take, ← Nat.add_sub_of_le hlen, ← List.drop_drop]
  simp only [Nat.add_sub_cancel_left, List.take_append_drop]

/-- A call of `getdata` for bytes that are there. -/
theorem Dm101Carries.getdata {reader : Dm101Reader} (h : Dm101Carries reader.link stream) {len : UInt32}
    (hlen : len.toNat ≤ reader.next.queued) :
    ∃ fifo, dm101WorkRead.getdata reader len =
        (some (stream.take len.toNat), ⟨{ reader.next with fifo := fifo }, reader.turns.tail⟩) ∧
      Dm101Carries { reader.next with fifo := fifo } (stream.drop len.toNat) := by
  have hnext : Dm101Carries reader.next stream := (h.puts _).1
  obtain ⟨fifo, hpull, hcarries⟩ := hnext.pull hlen
  refine ⟨fifo, ?_, hcarries⟩
  simp only [dm101WorkRead, hpull]

end Link

/-- When a pass finds a head in the fifo, the bytes of its payload and of the CRC-32 are there when
they are pulled. -/
def Dm101PassWhole (s : Dm101Session) (pass : Dm101Pass) : Prop :=
  let counted := s.link.puts pass.beforeCount
  52 ≤ counted.queued →
    let (head, reader) := dm101WorkRead.getdata ⟨counted.puts pass.beforePeek, pass.beforeReads⟩ 52
    let length := (oatPickHead fun n => (head.getD []).getD n 0).2.payloadLength
    0 < length → length.toNat ≤ reader.next.queued ∧
      4 ≤ (dm101WorkRead.getdata reader length).2.next.queued

instance decidableDm101PassWhole (s : Dm101Session) (pass : Dm101Pass) :
    Decidable (Dm101PassWhole s pass) := by
  unfold Dm101PassWhole; infer_instance

section Pass

variable {crypto : Dm101Crypto} {auth : Vector UInt8 8} {s : Dm101Session} {pass : Dm101Pass}

/-- The count of the fifo as an `int`. -/
theorem Dm101Carries.count {link : Dm101Link} {stream : List UInt8} (h : Dm101Carries link stream) :
    ((52 : Int32) ≤ (link.fifo.inPos - link.fifo.outPos).toInt32) ↔ 52 ≤ link.queued := by
  have hsize := h.queued_le_size
  rw [Dm101Link.queued] at hsize ⊢
  generalize link.fifo.inPos - link.fifo.outPos = count at hsize
  rw [Int32.le_iff_toInt_le]
  have hint : count.toInt32.toInt = count.toBitVec.toInt := rfl
  have hfifty : (52 : Int32).toInt = 52 := rfl
  rw [hint, hfifty, BitVec.toInt_eq_toNat_of_lt]
  · have hnat : count.toBitVec.toNat = count.toNat := rfl
    omega
  · have hnat : count.toBitVec.toNat = count.toNat := rfl
    omega

/-- A pass that finds no head leaves the stream. -/
theorem dm101Pass_waits {stream : List UInt8} (h : Dm101Carries s.link stream)
    (hwaits : ¬ 52 ≤ (s.link.puts pass.beforeCount).queued) :
    ∃ s', dm101Pass crypto auth s pass = some (none, s') ∧ Dm101Carries s'.link stream := by
  have hcounted := (h.puts pass.beforeCount).1
  have hcount : bfifoCount (s.link.puts pass.beforeCount).fifo =
      some ((s.link.puts pass.beforeCount).fifo.inPos - (s.link.puts pass.beforeCount).fifo.outPos,
        (s.link.puts pass.beforeCount).fifo) := by
    rw [bfifoCount, hcounted.holds.unlocked, if_neg Bool.false_ne_true]
  refine ⟨⟨s.link.puts pass.beforeCount, s.recvbuf⟩, ?_, hcounted⟩
  simp only [dm101Pass, hcount, if_neg (hcounted.count.not.mpr hwaits)]

/-- A packet starts with its head. -/
theorem Dm101Wire.take_head (wire : Dm101Wire) (stream : List UInt8) :
    (wire.bytes ++ stream).take 52 = wire.head.bytes := by
  rw [Dm101Wire.bytes, List.append_assoc]
  exact List.take_left' wire.head.bytes_length

/-- Behind the head there is the rest. -/
theorem Dm101Wire.drop_head (wire : Dm101Wire) (stream : List UInt8) :
    (wire.bytes ++ stream).drop 52 = (if wire.payload = [] then [] else wire.payload ++ wire.crc) ++
      stream := by
  rw [Dm101Wire.bytes, List.append_assoc]
  exact List.drop_left' wire.head.bytes_length

/-- A packet starts with its magic. -/
theorem Dm101Wire.take_magic (wire : Dm101Wire) (stream : List UInt8) :
    (wire.bytes ++ stream).take 4 = wire.head.magic.toList := by
  rw [Dm101Wire.bytes, Dm101Head.bytes, Dm101Head.front]
  simp only [List.append_assoc]
  exact List.take_left' wire.head.magic.length_toList

/-- The calls of `getdata` give a packet that is all there. -/
theorem dm101WorkRead_gives {reader : Dm101Reader} {wire : Dm101Wire} {stream : List UInt8}
    (h : Dm101Carries reader.link (wire.bytes ++ stream)) (hhead : 52 ≤ reader.next.queued)
    (hwhole : 0 < wire.head.payloadLength →
      let reader := (dm101WorkRead.getdata reader 52).2
      wire.head.payloadLength.toNat ≤ reader.next.queued ∧
        4 ≤ (dm101WorkRead.getdata reader wire.head.payloadLength).2.next.queued) :
    ∃ reader', Dm101Gives dm101WorkRead reader wire reader' ∧ Dm101Carries reader'.link stream ∧
      wire.payload.length ≤ 4096 := by
  obtain ⟨fifo₁, hread₁, hcarries₁⟩ :=
    h.getdata (show (52 : UInt32).toNat ≤ reader.next.queued from hhead)
  have hbytes : (wire.bytes ++ stream).take (52 : UInt32).toNat = wire.head.bytes :=
    wire.take_head stream
  have hrest : (wire.bytes ++ stream).drop (52 : UInt32).toNat =
      (if wire.payload = [] then [] else wire.payload ++ wire.crc) ++ stream := wire.drop_head stream
  rw [hbytes] at hread₁
  rw [hrest] at hcarries₁
  by_cases hempty : wire.payload = []
  · rw [if_pos hempty, List.nil_append] at hcarries₁
    exact ⟨_, ⟨_, hread₁, by rw [if_pos hempty]⟩, hcarries₁, by rw [hempty]; exact Nat.zero_le _⟩
  · have hpos : 0 < wire.head.payloadLength := by
      rw [UInt32.lt_iff_toNat_lt, wire.states]
      exact List.length_pos_of_ne_nil hempty
    obtain ⟨hpayload, hcrc⟩ := hwhole hpos
    rw [hread₁] at hpayload hcrc
    rw [if_neg hempty, List.append_assoc] at hcarries₁
    have hsize : wire.payload.length ≤ 4096 := by
      rw [← wire.states]
      exact Nat.le_trans hpayload (hcarries₁.puts _).1.queued_le_size
    obtain ⟨fifo₂, hread₂, hcarries₂⟩ :=
      @Dm101Carries.getdata _ ⟨{ reader.next with fifo := fifo₁ },
        reader.turns.tail⟩ hcarries₁ _ hpayload
    rw [hread₂] at hcrc
    rw [List.take_left' wire.states.symm] at hread₂
    rw [List.drop_left' wire.states.symm] at hcarries₂
    obtain ⟨fifo₃, hread₃, hcarries₃⟩ :=
      @Dm101Carries.getdata _ ⟨_, reader.turns.tail.tail⟩ hcarries₂ 4 hcrc
    have hfour : wire.crc.length = (4 : UInt32).toNat := networkBytes_length _ _
    rw [List.take_left' hfour] at hread₃
    rw [List.drop_left' hfour] at hcarries₃
    exact ⟨_, ⟨_, hread₁, by rw [if_neg hempty]; exact ⟨_, hread₂, hread₃⟩⟩, hcarries₃, hsize⟩

/-- A pass that finds a head reads a packet that is all there. -/
theorem dm101Pass_reads {wire : Dm101Wire} {stream : List UInt8}
    (h : Dm101Carries s.link (wire.bytes ++ stream))
    (hmagic : wire.head.magic = dm101Magic) (hwhole : Dm101PassWhole s pass)
    (hfinds : 52 ≤ (s.link.puts pass.beforeCount).queued) :
    ∃ reader reader', Dm101Gives dm101WorkRead reader wire reader' ∧ Dm101Carries reader'.link stream ∧
      wire.payload.length ≤ 4096 ∧
      dm101Pass crypto auth s pass =
        let out := readPkg crypto auth dm101WorkRead pass.stack s.recvbuf dm101ClearedPkg reader
        some (out.message, ⟨out.state.link, out.recvbuf⟩) := by
  have hcounted := (h.puts pass.beforeCount).1
  obtain ⟨hpeeked, hmore⟩ := hcounted.puts pass.beforePeek
  have hcount : bfifoCount (s.link.puts pass.beforeCount).fifo =
      some ((s.link.puts pass.beforeCount).fifo.inPos - (s.link.puts pass.beforeCount).fifo.outPos,
        (s.link.puts pass.beforeCount).fifo) := by
    rw [bfifoCount, hcounted.holds.unlocked, if_neg Bool.false_ne_true]
  let link := (s.link.puts pass.beforeCount).puts pass.beforePeek
  have hqueued : 52 ≤ link.queued := Nat.le_trans hfinds hmore
  have hne : (wire.bytes ++ stream).take link.queued ≠ [] := by
    refine List.ne_nil_of_length_pos ?_
    have hcount : link.queued = ((wire.bytes ++ stream).take link.queued).length := hpeeked.holds.count
    omega
  have hpeek : bfifoPeek link.fifo dm101MagicLen = some (dm101Magic.toList, link.fifo) := by
    have hfour : min dm101MagicLen.toNat link.queued = 4 :=
      Nat.min_eq_left (Nat.le_trans (by decide) hqueued)
    rw [bfifoPeek_holds hpeeked.holds hne, List.take_take, hfour, wire.take_magic, hmagic]
  have hnext := (hpeeked.puts (pass.beforeReads.headD 0)).2
  have hgives :=
    @dm101WorkRead_gives ⟨link, pass.beforeReads⟩ wire stream hpeeked (Nat.le_trans hqueued hnext)
  have hpick : (oatPickHead fun n =>
    (((dm101WorkRead.getdata ⟨link, pass.beforeReads⟩ 52).1.getD []).getD n 0)).2 =
      wire.head := by
    obtain ⟨fifo, hread, -⟩ :=
      @Dm101Carries.getdata _ ⟨link, pass.beforeReads⟩ hpeeked 52 (Nat.le_trans hqueued hnext)
    have hbytes : (wire.bytes ++ stream).take (52 : UInt32).toNat = wire.head.bytes :=
      wire.take_head stream
    rw [hread, hbytes]
    exact oatPickHead_eq (showsAt_getD _ _)
  have hall := hwhole hfinds
  dsimp only at hall
  rw [hpick] at hall
  obtain ⟨reader', hgives, hcarries, hsize⟩ := hgives hall
  refine ⟨⟨link, pass.beforeReads⟩, reader', hgives, hcarries, hsize, ?_⟩
  have hlength : dm101Magic.toList.length = dm101MagicLen.toNat := rfl
  simp only [dm101Pass, hcount, if_pos (hcounted.count.mpr hfinds)]
  rw [hpeek]
  simp only [hlength, if_true]
  rfl

end Pass

/-- A packet that `send_pkg` posts, from the buffer that its payload lies in. -/
structure Dm101Post (auth : Vector UInt8 8) where
  crypt : UInt8
  srdid : UInt64
  utc : UInt64
  sendbuf : ℕ → UInt8
  pkg : Dm101Pkg
  place : pkg.ploadBuf = some dm101HeadLen
  fits : Dm101Fits ⟨crypt, auth, srdid⟩ pkg

section Post

variable {auth : Vector UInt8 8} (crypto : Dm101Crypto) (post : Dm101Post auth)

/-- The bytes that are posted. -/
def Dm101Post.bytes : List UInt8 :=
  (sendPkg crypto ⟨post.crypt, auth, post.srdid⟩ post.utc (fun posted => posted.length) post.sendbuf
    post.pkg).posted

/-- What is to be delivered for it. -/
def Dm101Post.message : Dm101Message :=
  (dm101ReceivedHead crypto ⟨post.crypt, auth, post.srdid⟩ post.utc post.pkg,
    dm101Payload post.sendbuf post.pkg)

end Post

/-- A payload of which the bytes on the wire have been in the fifo fits `recvbuf`. -/
theorem dm101FitsRecv_of_wire {crypto : Dm101Crypto} {cfg : Dm101Cfg} {utc : UInt64}
    {pkg : Dm101Pkg} {wire : Dm101Wire}
    (hplace : pkg.ploadBuf = some dm101HeadLen) (hfits : Dm101Fits cfg pkg)
    (hhead : wire.head = dm101SentHead crypto cfg utc pkg)
    (hsize : wire.payload.length ≤ 4096) : Dm101FitsRecv cfg pkg := by
  have hrecvSize : dm101RecvbufSize = 4148 := rfl
  have hsendSize : dm101SendbufSize = 8244 := rfl
  have hlength : (sendPkgHead cfg pkg).payloadLength.toNat = wire.payload.length := by
    rw [← wire.states, hhead]
    rfl
  unfold Dm101FitsRecv
  split
  · next hcrypts =>
    have hroom := hfits hcrypts.2
    have htotal : (sendPkgHead cfg pkg).payloadLength =
        pkcs7EnPaddingTotalsize pkg.head.payloadLength := by
      refine if_pos ⟨UInt32.lt_iff_toNat_lt.mpr hcrypts.2, ?_, of_decide_eq_true hcrypts.1⟩
      rw [hplace]
      rfl
    rw [dm101WireLength, if_pos hcrypts.1] at hroom ⊢
    rw [htotal, pkcs7EnPaddingTotalsize_toNat (by omega)] at hlength
    omega
  · next hplain =>
    have hsame : (sendPkgHead cfg pkg).payloadLength = pkg.head.payloadLength :=
      if_neg fun h => hplain ⟨decide_eq_true h.2.2, by have hpos := UInt32.lt_iff_toNat_lt.mp h.1; exact hpos⟩
    rw [hsame] at hlength
    omega

/-- What is posted is a packet with the magic, and when it is all there and has been in the fifo, it
is handled. -/
theorem Dm101Post.received {crypto : Dm101Crypto} (hcrypto : crypto.Inverts) {auth : Vector UInt8 8}
    (post : Dm101Post auth) :
    ∃ wire : Dm101Wire, post.bytes crypto = wire.bytes ∧ wire.head.magic = dm101Magic ∧
      ∀ (σ : Type) (io : Dm101Getdata σ) (s s' : σ) (headBuf recvbuf : ℕ → UInt8) (pkg' : Dm101Pkg),
      Dm101Gives io s wire s' →
        wire.payload.length ≤ 4096 → (readPkg crypto auth io headBuf recvbuf pkg' s).state = s' ∧
          (readPkg crypto auth io headBuf recvbuf pkg' s).message = some (post.message crypto) := by
  obtain ⟨wire, hposted, hhead, hreceived⟩ :=
    sendPkg_received_iff hcrypto post.place post.fits post.utc
      (fun posted => posted.length) post.sendbuf
  refine ⟨wire, hposted, by rw [hhead]; rfl, fun σ io s s' headBuf recvbuf pkg' hgives hsize => ?_⟩
  obtain ⟨hstate, hiff⟩ := hreceived σ io s s' headBuf recvbuf pkg' hgives
  refine ⟨hstate, ?_⟩
  have hreceives := hiff.mpr (dm101FitsRecv_of_wire post.place post.fits hhead hsize)
  rw [Dm101Read.message, if_neg (Int.not_lt.mpr hreceives.ret), hreceives.payload_eq, hreceives.head_eq]
  rfl

/-- What has been delivered are the first of the packets that are posted, and the bytes of the
others are still to be read. When less than a head is left everything has been delivered, and else
the next pass that finds a head delivers a packet. -/
structure Dm101InStep (crypto : Dm101Crypto) {auth : Vector UInt8 8} (posts : List (Dm101Post auth))
    (outs : List (Option Dm101Message)) (s : Dm101Session) : Prop where
  in_step : ∃ done todo, posts = done ++ todo ∧
    outs.reduceOption = done.map (Dm101Post.message crypto) ∧
    s.link.unread = (todo.map (Dm101Post.bytes crypto)).flatten
  all : s.link.unread.length < 52 → outs.reduceOption = posts.map (Dm101Post.message crypto)
  next : ∀ pass, Dm101PassWhole s pass → 52 ≤ (s.link.puts pass.beforeCount).queued →
    ∃ message s', dm101Pass crypto auth s pass = some (some message, s')

/-- What a run keeps. -/
def Dm101Keeps (crypto : Dm101Crypto) {auth : Vector UInt8 8} (posts : List (Dm101Post auth))
    (outs : List (Option Dm101Message)) (s : Dm101Session) : Prop :=
  ∃ done todo, posts = done ++ todo ∧ outs.reduceOption = done.map (Dm101Post.message crypto) ∧
    Dm101Carries s.link (todo.map (Dm101Post.bytes crypto)).flatten

section Run

variable {crypto : Dm101Crypto} (hcrypto : crypto.Inverts) {auth : Vector UInt8 8}
  {posts : List (Dm101Post auth)}
  {outs : List (Option Dm101Message)} {s : Dm101Session} {pass : Dm101Pass}

/-- Posted bytes are a head at least. -/
theorem Dm101Post.head_le_length (hcrypto : crypto.Inverts) (post : Dm101Post auth) :
    52 ≤ (post.bytes crypto).length := by
  obtain ⟨wire, hbytes, -⟩ := post.received hcrypto
  have hhead : wire.head.bytes.length = 52 := wire.head.bytes_length
  rw [hbytes, Dm101Wire.bytes, List.length_append, hhead]
  exact Nat.le_add_right _ _

/-- A pass that finds a head delivers the next packet. -/
theorem dm101Pass_delivers (hcrypto : crypto.Inverts) {post : Dm101Post auth} {stream : List UInt8}
    (h : Dm101Carries s.link (post.bytes crypto ++ stream)) (hwhole : Dm101PassWhole s pass)
    (hfinds : 52 ≤ (s.link.puts pass.beforeCount).queued) :
    ∃ s', dm101Pass crypto auth s pass = some (some (post.message crypto), s') ∧
      Dm101Carries s'.link stream := by
  obtain ⟨wire, hbytes, hmagic, hreceived⟩ := post.received hcrypto
  rw [hbytes] at h
  obtain ⟨reader, reader', hgives, hcarries, hsize, hpass⟩ :=
    @dm101Pass_reads crypto auth s pass wire stream h hmagic hwhole hfinds
  obtain ⟨hstate, hmessage⟩ :=
    hreceived _ dm101WorkRead reader reader' pass.stack s.recvbuf dm101ClearedPkg hgives hsize
  refine ⟨_, hpass.trans (congrArg some (congrArg (·, _) hmessage)), ?_⟩
  dsimp only
  rw [hstate]
  exact hcarries

/-- One pass keeps the stream in step with what is delivered. -/
theorem Dm101Keeps.step (hcrypto : crypto.Inverts) (h : Dm101Keeps crypto posts outs s)
    (hwhole : Dm101PassWhole s pass) :
    ∃ out s', dm101Pass crypto auth s pass = some (out, s') ∧
      Dm101Keeps crypto posts (outs ++ [out]) s' ∧
      (52 ≤ (s.link.puts pass.beforeCount).queued → out.isSome) := by
  obtain ⟨done, todo, rfl, houts, hcarries⟩ := h
  by_cases hfinds : 52 ≤ (s.link.puts pass.beforeCount).queued
  · cases todo with
    | nil =>
      have hqueued := (hcarries.puts pass.beforeCount).1.queued_le
      rw [List.map_nil, List.flatten_nil, List.length_nil] at hqueued
      omega
    | cons post todo =>
      rw [List.map_cons, List.flatten_cons] at hcarries
      obtain ⟨s', hpass, hcarries'⟩ := dm101Pass_delivers hcrypto hcarries hwhole hfinds
      refine ⟨_, s', hpass,
        ⟨done ++ [post], todo, (List.append_cons done post todo), ?_, hcarries'⟩, fun _ => rfl⟩
      rw [List.reduceOption_append, houts, List.map_append]
      rfl
  · obtain ⟨s', hpass, hcarries'⟩ := @dm101Pass_waits crypto auth s pass _ hcarries hfinds
    refine ⟨_, s', hpass, ⟨done, todo, rfl, ?_, hcarries'⟩, fun h => absurd h hfinds⟩
    rw [List.reduceOption_append, houts]
    exact List.append_nil _

/-- What a run keeps says that it is in step. -/
theorem Dm101Keeps.inStep (hcrypto : crypto.Inverts) (h : Dm101Keeps crypto posts outs s) :
    Dm101InStep crypto posts outs s := by
  refine ⟨?_, fun hless => ?_, fun pass hwhole hfinds => ?_⟩
  · obtain ⟨done, todo, hposts, houts, hcarries⟩ := h
    exact ⟨done, todo, hposts, houts, hcarries.unread_eq⟩
  · obtain ⟨done, todo, rfl, houts, hcarries⟩ := h
    rw [hcarries.unread_eq] at hless
    cases todo with
    | nil => rw [houts, List.append_nil]
    | cons post todo =>
      have hhead := post.head_le_length hcrypto
      rw [List.map_cons, List.flatten_cons, List.length_append] at hless
      omega
  · obtain ⟨out, s', hpass, -, hsome⟩ := h.step hcrypto hwhole
    obtain ⟨message, rfl⟩ := Option.isSome_iff_exists.mp (hsome hfinds)
    exact ⟨message, s', hpass⟩

/-- Packets that have been cut into receive events in any way are all delivered, one after the other
and nothing else, in every run in which the bytes of each payload and CRC-32 are in the fifo when
they are pulled. -/
theorem dm101_link_delivers (crypto : Dm101Crypto) (hcrypto : crypto.Inverts) (auth : Vector UInt8 8)
    (posts : List (Dm101Post auth)) (segments : List Dm101Segment)
    (hsegments : (segments.map Subtype.val).flatten = (posts.map (Dm101Post.bytes crypto)).flatten)
    (mem : List UInt8)
    (hmem : mem.length = dm101FifoSize.toNat) (recvbuf : ℕ → UInt8) (passes : List Dm101Pass)
    (hwhole : GuardedRun (dm101Pass crypto auth) Dm101PassWhole
      (dm101Opened mem segments recvbuf) passes) :
    ∃ outs s, runBlocking (dm101Pass crypto auth) (dm101Opened mem segments recvbuf) passes =
      some (outs, s) ∧
      Dm101InStep crypto posts outs s := by
  have hholds := bfifoCreate_holds dm101FifoSize mem (by decide) hmem
  have hstart : Dm101Keeps crypto posts [] (dm101Opened mem segments recvbuf) :=
    ⟨[], posts, rfl, rfl, dm101Carries_of_holds hholds hsegments⟩
  obtain ⟨outs, s, hrun, hkeeps⟩ :=
    runBlocking_returns (dm101Pass crypto auth) Dm101PassWhole (Dm101Keeps crypto posts)
    (fun outs s pass h hpass => by
      obtain ⟨out, s', hstep, hnext, -⟩ := h.step hcrypto hpass
      exact ⟨out, s', hstep, hnext⟩) hstart hwhole
  exact ⟨outs, s, hrun, hkeeps.inStep hcrypto⟩

end Run

/-- A plain packet with a payload of zeroes. -/
def zeroPost (payloadLength : UInt32) (hfits : Dm101Fits ⟨0, abcAuth, 1⟩ (abcPkg payloadLength)) :
    Dm101Post abcAuth where
  crypt := 0
  srdid := 1
  utc := 1600000000
  sendbuf := fun _ => 0
  pkg := abcPkg payloadLength
  place := rfl
  fits := hfits

/-- The bytes of two packets. -/
def zeroStream : List UInt8 :=
  (zeroPost 0 fun _ => by decide).bytes abcCrypto ++ (zeroPost 1 fun _ => by decide).bytes abcCrypto

/-- Two packets come as the first twenty bytes, and the others. -/
theorem dm101_link_delivers_two :
    ∃ outs s, runBlocking (dm101Pass abcCrypto abcAuth)
        (dm101Opened (List.replicate 4096 0)
          [⟨zeroStream.take 20, by decide +kernel⟩, ⟨zeroStream.drop 20, by decide +kernel⟩] fun _ => 0)
        [⟨2, 0, [], fun _ => 0⟩, ⟨1, 1, [], fun _ => 0⟩, ⟨0, 0, [], fun _ => 0⟩] = some (outs, s) ∧
      Dm101InStep abcCrypto [zeroPost 0 fun _ => by decide, zeroPost 1 fun _ => by decide] outs s :=
  dm101_link_delivers abcCrypto abcCrypto_inverts abcAuth _ _ (by decide +kernel)
    _ List.length_replicate _ _
    (by decide +kernel)

/-- A head that comes alone is read at once, and without its payload it is lost. -/
theorem dm101_link_not_delivers :
    ¬ ∀ (crypto : Dm101Crypto), crypto.Inverts →
      ∀ (auth : Vector UInt8 8) (posts : List (Dm101Post auth))
      (segments : List Dm101Segment),
      (segments.map Subtype.val).flatten = (posts.map (Dm101Post.bytes crypto)).flatten →
      ∀ (mem : List UInt8),
      mem.length = dm101FifoSize.toNat → ∀ (recvbuf : ℕ → UInt8) (passes : List Dm101Pass),
      ∃ outs s, runBlocking (dm101Pass crypto auth) (dm101Opened mem segments recvbuf) passes =
        some (outs, s) ∧
        Dm101InStep crypto posts outs s := by
  intro hall
  obtain ⟨outs, s, hrun, hstep⟩ :=
    hall abcCrypto abcCrypto_inverts abcAuth [zeroPost 1 fun _ => by decide]
    [⟨((zeroPost 1 fun _ => by decide).bytes abcCrypto).take 52, by decide +kernel⟩,
      ⟨((zeroPost 1 fun _ => by decide).bytes abcCrypto).drop 52, by decide +kernel⟩]
    (by decide +kernel) (List.replicate 4096 0) List.length_replicate (fun _ => 0)
    [⟨2, 0, [], fun _ => 0⟩, ⟨2, 0, [], fun _ => 0⟩]
  have hend : ∀ r ∈ runBlocking (dm101Pass abcCrypto abcAuth)
      (dm101Opened (List.replicate 4096 0)
        [⟨((zeroPost 1 fun _ => by decide).bytes abcCrypto).take 52, by decide +kernel⟩,
          ⟨((zeroPost 1 fun _ => by decide).bytes abcCrypto).drop 52, by decide +kernel⟩] fun _ => 0)
      [⟨2, 0, [], fun _ => 0⟩, ⟨2, 0, [], fun _ => 0⟩], r.1 = [none, none] ∧
        r.2.link.unread.length = 5 := by
    decide +kernel
  obtain ⟨houts, hunread⟩ := hend _ hrun
  have hdelivered := hstep.all (by rw [hunread]; decide)
  obtain rfl : outs = [none, none] := houts
  cases hdelivered

end DasEdge.Sdccp
