import DasEdge.Lora.LoraStd

/-!
# Packets behind other bytes

When a place holds no packet, the parse loop of `lora.c` goes on behind the command head that it has
read there, and one byte more. So it tries only the places that it comes to in such strides, and a
packet behind bytes in which there is none is handed on when they are a whole number of strides.
-/

namespace DasEdge.Lora

open DasEdge.Library

/-- A packet that itself checks starts at a place, with `remain` bytes from the place on. -/
def LoraChecksAt (buf : ℕ → UInt8) (pos remain : ℕ) : Prop :=
  LoraRecvAt buf pos remain ∧
    checkBuffer (readStdHead buf (pos + loraCmdHeadSize))
    (fun n => buf (pos + loraCmdHeadSize + n)) = true

instance decidableLoraChecksAt (buf : ℕ → UInt8) (pos remain : ℕ) :
    Decidable (LoraChecksAt buf pos remain) := by
  unfold LoraChecksAt; infer_instance

/-- The place at which a round reads a command head. -/
def LoraRound.place (round : LoraRound) : Option ℕ := round.reads.head?

/-- The packet at a place is handed on. -/
def LoraHandsOn (rounds : List LoraRound) (place : ℕ) (packet : LoraPacket) : Prop :=
  ∃ round ∈ rounds, round.place = some place ∧ ∃ handed ∈ round.handed, handed.Carries packet

/-- A round reads the command head where the cursor is. -/
theorem loraParseRound_place (buf : ℕ → UInt8) (s : LoraCursor) :
    (loraParseRound buf s).1.place = some s.pos := by
  have hfirst : (((List.range loraCmdHeadSize).map (s.pos + ·)).head?) = some s.pos := rfl
  unfold LoraRound.place
  simp only [loraParseRound]
  split
  · split
    all_goals exact hfirst
  · exact hfirst

/-- The cursor moves forward. -/
theorem loraParseRound_forward (buf : ℕ → UInt8) (s : LoraCursor) :
    s.pos < (loraParseRound buf s).2.pos := by
  obtain ⟨taken, htaken, hnext⟩ := loraParseRound_moves buf s
  rw [hnext]
  exact Nat.lt_add_of_pos_right htaken

/-- A place that the cursor has passed is not read again. -/
theorem not_loraHandsOn_of_lt {buf : ℕ → UInt8} {fuel place : ℕ} {s : LoraCursor}
    {rounds : List LoraRound} {packet : LoraPacket}
    (hpast : place < s.pos)
    (hrun : whileRun LoraCursor.more (loraParseRound buf) fuel s = some rounds) :
    ¬ LoraHandsOn rounds place packet := by
  induction rounds generalizing fuel s with
  | nil => rintro ⟨round, hround, -⟩; cases hround
  | cons round rounds ih =>
    have htest : s.more = true := by
      rw [← Bool.not_eq_false]
      intro htest
      cases whileRun_of_false htest hrun
    obtain ⟨fuel', tail, htail, hcons⟩ := whileRun_of_true htest hrun
    obtain ⟨rfl, rfl⟩ := List.cons.inj hcons
    have hforward := loraParseRound_forward buf s
    rintro ⟨round, hround, hplace, hhanded⟩
    rcases List.mem_cons.mp hround with rfl | hlater
    · rw [loraParseRound_place] at hplace
      exact Nat.ne_of_gt hpast (Option.some.inj hplace)
    · exact ih (Nat.lt_trans hpast hforward) htail ⟨round, hlater, hplace, hhanded⟩

/-- Where no packet checks the cursor moves over a command head and one byte, with nothing handed on. -/
theorem loraParseRound_skip {buf : ℕ → UInt8} {s : LoraCursor} {len remain : ℕ} (hat : s.At len)
    (hremain : s.remain = remain)
    (hwhole : loraCmdHeadSize ≤ remain) (hnone : ¬ LoraChecksAt buf s.pos remain) :
    (loraParseRound buf s).1.handed = none ∧
      (loraParseRound buf s).2.pos = s.pos + (loraCmdHeadSize + 1) := by
  obtain ⟨hhanded, hnext⟩ := @loraParseRound_eq buf s len remain hat hremain hwhole
  unfold LoraChecksAt at hnone
  rw [if_neg hnone] at hhanded
  rw [loraStride, if_neg hnone] at hnext
  exact ⟨hhanded, by rw [hnext]⟩

/-- From a cursor in front of a packet, with none that checks in between, the packet is handed on if
and only if it is a whole number of strides away. -/
theorem loraRounds_handsOn_iff {buf : ℕ → UInt8} {len place fuel : ℕ} {s : LoraCursor}
    {rounds : List LoraRound}
    {packet : LoraPacket} (hat : s.At len) (hbefore : s.pos ≤ place)
    (hshows : ShowsAt buf place packet.bytes)
    (hfits : place + packet.bytes.length ≤ len)
    (hnone : ∀ pos, s.pos ≤ pos → pos < place → ¬ LoraChecksAt buf pos (len - pos))
    (hrun : whileRun LoraCursor.more (loraParseRound buf) fuel s = some rounds) :
    LoraHandsOn rounds place packet ↔ loraCmdHeadSize + 1 ∣ place - s.pos := by
  have hsum := hat.sum
  have hlength := packet.bytes_length
  have hsize : loraCmdHeadSize = 8 := rfl
  obtain ⟨away, haway⟩ : ∃ away, away = place - s.pos := ⟨_, rfl⟩
  induction away using Nat.strong_induction_on generalizing fuel s rounds with
  | _ away ih =>
  have htest : s.more = true := decide_eq_true (by omega)
  obtain ⟨fuel', tail, htail, rfl⟩ := whileRun_of_true htest hrun
  rcases Nat.eq_or_lt_of_le hbefore with rfl | hlt
  · -- the cursor is at the packet
    obtain ⟨⟨handed, hhanded, hcarries⟩, -⟩ := loraParseRound_packet hat hshows (by omega)
    refine ⟨fun _ => ?_, fun _ => ⟨_, .head _, loraParseRound_place buf s, handed, hhanded, hcarries⟩⟩
    rw [Nat.sub_self]
    exact Nat.dvd_zero _
  · have hremain : s.remain = (len - s.pos : ℕ) := by omega
    obtain ⟨hskip, hpos⟩ := loraParseRound_skip hat hremain (by omega) (hnone s.pos (Nat.le_refl _) hlt)
    have hlater : LoraHandsOn ((loraParseRound buf s).1 :: tail) place packet ↔
        LoraHandsOn tail place packet := by
      refine ⟨?_, fun ⟨round, hround, hhands⟩ => ⟨round, .tail _ hround, hhands⟩⟩
      rintro ⟨round, hround, hplace, handed, hhanded, hcarries⟩
      rcases List.mem_cons.mp hround with rfl | htailRound
      · rw [hskip] at hhanded
        cases hhanded
      · exact ⟨round, htailRound, hplace, handed, hhanded, hcarries⟩
    rw [hlater]
    rcases Nat.lt_or_ge place (loraParseRound buf s).2.pos with hpast | hnext
    · refine iff_of_false (not_loraHandsOn_of_lt hpast htail) fun hdvd => ?_
      have hle := Nat.le_of_dvd (by omega) hdvd
      omega
    · have hnextAt := hat.next buf
      have hrest := ih (place - (loraParseRound buf s).2.pos) (by omega) hnextAt hnext
        (fun pos hge hlt => hnone pos (by omega) hlt) htail hnextAt.sum rfl
      refine hrest.trans ?_
      rw [hpos, hsize] at hnext ⊢
      omega

/-- A packet behind bytes in which no packet starts that itself checks is handed on if and only if
these bytes are a whole number of strides, each a command head and one byte. -/
theorem lora_parse_resync_iff (buf : ℕ → UInt8) (garbage rest : List UInt8) (packet : LoraPacket)
    (hshows : ShowsAt buf 0 (garbage ++ packet.bytes ++ rest))
    (hlen : (garbage ++ packet.bytes ++ rest).length < 2 ^ 31)
    (hnone : ∀ pos < garbage.length,
      ¬ LoraChecksAt buf pos ((garbage ++ packet.bytes ++ rest).length - pos)) :
    (∃ rounds, loraParse buf (garbage ++ packet.bytes ++ rest).length = some rounds ∧
        LoraHandsOn rounds garbage.length packet) ↔
      loraCmdHeadSize + 1 ∣ garbage.length := by
  obtain ⟨rounds, hrun⟩ := loraParse_ends buf (garbage ++ packet.bytes ++ rest).length
  have hplace : ShowsAt buf garbage.length packet.bytes := by
    rw [List.append_assoc, showsAt_append, showsAt_append, Nat.zero_add] at hshows
    exact hshows.2.1
  have hhands := loraRounds_handsOn_iff (s := ⟨0, _⟩) ⟨by simp, hlen⟩ (Nat.zero_le _) hplace
    (by simp only [List.length_append]; omega) (fun pos _ => hnone pos) hrun
  rw [Nat.sub_zero] at hhands
  rw [← hhands]
  exact ⟨fun ⟨rounds', hrun', hon⟩ => Option.some.inj (hrun'.symm.trans hrun) ▸ hon,
    fun hon => ⟨rounds, hrun, hon⟩⟩

/-- A packet without a body. -/
def loraShortPacket : LoraPacket where
  cmdHead := ⟨loraCmdRecv, 1, 0, 0⟩
  stdHead := ⟨loraStdPre0, loraStdPre1, 1, 0, 0, 0, 7⟩
  body := []
  cmd_eq := rfl
  passes := by decide
  msglen_eq := rfl

/-- Nine bytes of a packet that breaks off, and then a packet. -/
theorem lora_parse_resync_after_nine :
    ∃ rounds, loraParse (fun n =>
      ([0x41, 1, 0, 0, 0, 0, 0, 0, 0xFE] ++ loraShortPacket.bytes ++ []).getD n 0) 24 =
        some rounds ∧
      LoraHandsOn rounds 9 loraShortPacket :=
  (lora_parse_resync_iff (fun n =>
    ([0x41, 1, 0, 0, 0, 0, 0, 0, 0xFE] ++ loraShortPacket.bytes ++ []).getD n 0)
    [0x41, 1, 0, 0, 0, 0, 0, 0, 0xFE] [] loraShortPacket (showsAt_getD _ 0) (by decide)
    (by decide)).mpr (by decide)

/-- A packet with a wrong sum comes in front of a packet. No round comes to the place of the second
one. -/
theorem lora_parse_not_resync :
    ¬ ∀ (buf : ℕ → UInt8) (garbage rest : List UInt8) (packet : LoraPacket) (item : LoraBufQueue),
      (garbage ++ packet.bytes ++ rest).length ≤ loraStdFaSize →
      (loraRecvBuffer false true buf (garbage ++ packet.bytes ++ rest)).1 = .std item →
      (∀ pos < garbage.length, ¬ LoraChecksAt item.buf pos (item.len - pos)) →
      ∃ rounds, loraParse item.buf item.len = some rounds ∧
        ∃ round ∈ rounds, ∃ handed ∈ round.handed, handed.Carries packet := by
  intro hall
  obtain ⟨rounds, hrun, round, hround, handed, hhanded, -⟩ := hall (fun _ => 0)
    [0x41, 1, 0, 0, 0, 0, 0, 0, 0xFE, 0xFD, 1, 0, 7, 4, 2] [] loraShortPacket _ (by decide) rfl
      (by decide)
  have hall :=
    congrArg (Option.map fun rounds : List LoraRound => rounds.all fun round =>
    round.handed.isNone) hrun
  have hnone : rounds.all (fun round => round.handed.isNone) = true :=
    Option.some.inj (hall.symm.trans (by decide))
  have hround := List.all_eq_true.mp hnone round hround
  rw [Option.mem_def.mp hhanded] at hround
  cases hround

end DasEdge.Lora
