import DasEdge.Zigbee.ZgbStd

/-!
# What the parse of a Zigbee packet reads and clears

The check takes the length that a head states as it is, and the thread clears what is behind the
body up to the end of the buffer. So the check stays inside the bytes received as long as no head
states more than these, and the clearing only when they fill the buffer.
-/

namespace DasEdge.Zigbee

open DasEdge.Library DasEdge.Board DasEdge.Wireless

/-- A place is inside the bytes received and inside the buffer. -/
def ZgbBufQueue.Inside (item : ZgbBufQueue) (place : ℕ) : Prop :=
  place < item.len ∧ place < zgbStdFaSize

/-- Only places inside are read and cleared, and no head is accepted that states more than the bytes
received. -/
structure ZgbParseSafe (item : ZgbBufQueue) (parse : ZgbParse) : Prop where
  reads : ∀ place ∈ parse.reads, item.Inside place
  clears : ∀ place, parse.cleared.1 ≤ place → place < parse.cleared.1 + parse.cleared.2 →
    item.Inside place
  fits : ∀ head ∈ parse.accepted, head.msglen.toNat ≤ item.len

/-- The check alone reads only places inside, and passes no head that states more than the bytes
received. -/
structure ZgbCheckSafe (item : ZgbBufQueue) : Prop where
  reads : zgbStdHeadSize + 4 ≤ item.len → ∀ place ∈ zgbCheckReads item.buf, item.Inside place
  fits : zgbStdHeadSize + 4 ≤ item.len → zgbCheckBuffer item.buf = true →
    (readZgbHead item.buf 0).msglen.toNat ≤ item.len

/-- A head that passes its test states no more than the bytes received and the size of the buffer. -/
def ZgbStates (item : ZgbBufQueue) : Prop :=
  zgbStdHeadSize + 4 ≤ item.len → (readZgbHead item.buf 0).Passes →
    (readZgbHead item.buf 0).msglen.toNat ≤ item.len ∧
    (readZgbHead item.buf 0).msglen.toNat ≤ zgbStdFaSize

instance decidableZgbStates (item : ZgbBufQueue) : Decidable (ZgbStates item) := by
  unfold ZgbStates; infer_instance

/-- The bytes received fill the buffer, if a packet that checks is among them. -/
def ZgbFills (item : ZgbBufQueue) : Prop :=
  zgbStdHeadSize + 4 ≤ item.len → zgbCheckBuffer item.buf = true → zgbStdFaSize ≤ item.len

instance decidableZgbFills (item : ZgbBufQueue) : Decidable (ZgbFills item) := by
  unfold ZgbFills; infer_instance

/-- A buffer that checks has a head that passes. -/
theorem passes_of_zgbCheckBuffer {buffer : ℕ → UInt8} (h : zgbCheckBuffer buffer = true) :
    (readZgbHead buffer 0).Passes := by
  by_contra hnot
  simp only [zgbCheckBuffer, if_neg hnot] at h
  cases h

/-- The places that the check reads. -/
theorem mem_zgbCheckReads {buffer : ℕ → UInt8} {place : ℕ} :
    place ∈ zgbCheckReads buffer ↔ place < zgbStdHeadSize ∨
      (readZgbHead buffer 0).Passes ∧ place < (readZgbHead buffer 0).msglen.toNat := by
  simp only [zgbCheckReads, List.mem_append, List.mem_range]
  split
  · next hpasses => simp only [hpasses, true_and, List.mem_range]
  · next hpasses => simp only [hpasses, false_and, List.not_mem_nil]

/-- The check stays inside if and only if the head states no more than there is. -/
theorem zgbCheckReads_iff (item : ZgbBufQueue) (hlen : zgbStdHeadSize + 4 ≤ item.len) :
    (∀ place ∈ zgbCheckReads item.buf, item.Inside place) ↔ ZgbStates item := by
  have hsize : zgbStdHeadSize = 14 := rfl
  have hbuffer : zgbStdFaSize = 2048 := rfl
  constructor
  · intro h _ hpasses
    have hleast := hpasses.2.2.2
    obtain ⟨hlast, hlast'⟩ :=
      h ((readZgbHead item.buf 0).msglen.toNat - 1)
      (mem_zgbCheckReads.mpr (.inr ⟨hpasses, by omega⟩))
    exact ⟨by omega, by omega⟩
  · intro h place hplace
    rcases mem_zgbCheckReads.mp hplace with hhead | ⟨hpasses, hbody⟩
    · exact ⟨by omega, by omega⟩
    · obtain ⟨hle, hle'⟩ := h hlen hpasses
      exact ⟨by omega, by omega⟩

/-- The check alone is safe if and only if the head states no more than there is. -/
theorem zgbCheckSafe_iff (item : ZgbBufQueue) : ZgbCheckSafe item ↔ ZgbStates item := by
  constructor
  · intro h hlen
    exact (zgbCheckReads_iff item hlen).mp (h.reads hlen) hlen
  · intro h
    exact ⟨fun hlen => (zgbCheckReads_iff item hlen).mpr h,
      fun hlen hcheck => (h hlen (passes_of_zgbCheckBuffer hcheck)).1⟩

/-- The places that the registration of a scan response reads are in the first part of the buffer. -/
theorem lt_of_mem_zgbScanReads {buf : ℕ → UInt8} {place : ℕ}
    (h : place ∈ zgbScanReads buf zgbStdHeadSize) :
    place < zgbStdFaSize := by
  obtain ⟨i, hi, rfl⟩ := List.mem_map.mp h
  have hcnt := (readZgbScan buf zgbStdHeadSize).cnt.toNat_lt
  have hsize : zgbStdHeadSize = 14 := rfl
  have hofs : zgbStdScanOfs = 14 := rfl
  have hbuffer : zgbStdFaSize = 2048 := rfl
  rw [List.mem_range] at hi
  split at hi
  all_goals omega

/-- What a round does with an item that is too short. -/
theorem zgbParse_short {item : ZgbBufQueue} (isNode : Bool) (hlen : ¬ zgbStdHeadSize + 4 ≤ item.len) :
    zgbParse isNode item = {} := by
  unfold zgbParse
  rw [if_neg hlen]

/-- What a round does with an item that does not check. -/
theorem zgbParse_refused {item : ZgbBufQueue} (isNode : Bool) (hlen : zgbStdHeadSize + 4 ≤ item.len)
    (hcheck : zgbCheckBuffer item.buf = false) :
    zgbParse isNode item = { reads := List.range zgbStdHeadSize ++ zgbCheckReads item.buf } := by
  simp only [zgbParse, if_pos hlen, hcheck, Bool.false_eq_true, if_false]

/-- What a round does with an item that checks. -/
theorem zgbParse_accepted {item : ZgbBufQueue} (isNode : Bool) (hlen : zgbStdHeadSize + 4 ≤ item.len)
    (hcheck : zgbCheckBuffer item.buf = true) :
    (zgbParse isNode item).accepted = some (readZgbHead item.buf 0) ∧
      (zgbParse isNode item).cleared = ((readZgbHead item.buf 0).msglen.toNat - 4,
        (((zgbStdFaSize : ℤ) - ((readZgbHead item.buf 0).msglen.toNat - 4 : ℕ)) % 2 ^ 32).toNat) ∧
      ∃ more, (zgbParse isNode item).reads = List.range zgbStdHeadSize ++
        zgbCheckReads item.buf ++ more ∧
        ∀ place ∈ more, place < zgbStdFaSize := by
  simp only [zgbParse, if_pos hlen, hcheck, if_true]
  split
  · exact ⟨rfl, rfl, _, rfl, fun place hplace => lt_of_mem_zgbScanReads hplace⟩
  · split
    · refine ⟨rfl, rfl, _, rfl, fun place hplace => ?_⟩
      obtain ⟨i, hi, rfl⟩ := List.mem_map.mp hplace
      have hbound : zgbStdHeadSize + zgbStdScanReqSize < zgbStdFaSize := by decide
      rw [List.mem_range] at hi
      omega
    · exact ⟨rfl, rfl, [], (List.append_nil _).symm, fun place hplace => absurd hplace List.not_mem_nil⟩

/-- The whole round reads and clears only bytes inside, and accepts no head that states more than
there is, if and only if the head states no more than there is, and a packet that checks comes with
a full buffer. For the check alone the first condition is the exact one. -/
theorem zgb_parse_safe_iff (isNode : Bool) (item : ZgbBufQueue) :
    (ZgbParseSafe item (zgbParse isNode item) ↔ ZgbStates item ∧ ZgbFills item) ∧
      (ZgbCheckSafe item ↔ ZgbStates item) := by
  refine ⟨?_, zgbCheckSafe_iff item⟩
  have hsize : zgbStdHeadSize = 14 := rfl
  have hbuffer : zgbStdFaSize = 2048 := rfl
  by_cases hlen : zgbStdHeadSize + 4 ≤ item.len
  · have hhead (place : ℕ) (hplace : place ∈ List.range zgbStdHeadSize) : item.Inside place := by
      rw [List.mem_range] at hplace
      exact ⟨by omega, by omega⟩
    cases hcheck : zgbCheckBuffer item.buf with
    | false =>
      have hfills : ZgbFills item := fun _ h => by rw [hcheck] at h; cases h
      rw [zgbParse_refused isNode hlen hcheck, ← zgbCheckReads_iff item hlen]
      constructor
      · exact fun h => ⟨fun place hplace => h.reads place (List.mem_append_right _ hplace), hfills⟩
      · rintro ⟨h, -⟩
        refine ⟨fun place hplace => (List.mem_append.mp hplace).elim (hhead place) (h place),
          fun place hge hlt => ?_,
          fun head hnone => by cases hnone⟩
        exact absurd hlt (Nat.not_lt_zero _)
    | true =>
      obtain ⟨haccepted, hcleared, more, hreads, hmore⟩ := zgbParse_accepted isNode hlen hcheck
      have hleast := (passes_of_zgbCheckBuffer hcheck).2.2.2
      constructor
      · intro h
        have hstates : ZgbStates item := by
          refine (zgbCheckReads_iff item hlen).mp fun place hplace => h.reads place ?_
          rw [hreads]
          exact List.mem_append_left _ (List.mem_append_right _ hplace)
        refine ⟨hstates, fun _ _ => ?_⟩
        -- the last place of the buffer is cleared
        have hle := (hstates hlen (passes_of_zgbCheckBuffer hcheck)).2
        have hlast := h.clears (zgbStdFaSize - 1)
        rw [hcleared] at hlast
        obtain ⟨hlt, -⟩ := hlast (by dsimp only; omega) (by dsimp only; omega)
        omega
      · rintro ⟨hstates, hfills⟩
        obtain ⟨hle, hle'⟩ := hstates hlen (passes_of_zgbCheckBuffer hcheck)
        have hfull := hfills hlen hcheck
        refine ⟨fun place hplace => ?_, fun place hge hlt => ?_, fun head hsome => ?_⟩
        · rw [hreads, List.append_assoc, List.mem_append, List.mem_append] at hplace
          rcases hplace with hplace | hplace | hplace
          · exact hhead place hplace
          · exact (zgbCheckReads_iff item hlen).mpr hstates place hplace
          · have hlt := hmore place hplace
            exact ⟨by omega, hlt⟩
        · rw [hcleared] at hge hlt
          dsimp only at hge hlt
          exact ⟨by omega, by omega⟩
        · rw [haccepted] at hsome
          obtain rfl := Option.some.inj hsome
          exact hle
  · rw [zgbParse_short isNode hlen]
    refine iff_of_true ⟨fun place hplace => absurd hplace List.not_mem_nil, fun place hge hlt => ?_,
      fun head hnone => by cases hnone⟩
      ⟨fun h => absurd h hlen, fun h => absurd h hlen⟩
    exact absurd hlt (Nat.not_lt_zero _)

/-- Outside a command, bytes that begin like a packet go to the queue with what lies behind them. -/
theorem zgbRecvBuffer_std {buf : ℕ → UInt8} {buffer : List UInt8}
    (h : zgbIsStdHead (fun n => buffer.getD n (buf n)) buffer.length = true) :
    zgbRecvBuffer false buf buffer = .std ⟨buffer.length, fun n => buffer.getD n (buf n)⟩ := by
  simp only [zgbRecvBuffer, Bool.false_and, Bool.false_eq_true, if_false, h, if_true]

/-- A packet of 19 bytes has come, and then its first 18 bytes. The byte that is left from the first
one completes the sum, so that it is accepted. -/
theorem zgb_parse_not_safe :
    ¬ ∀ (isNode inCmd : Bool) (buf : ℕ → UInt8) (buffer : List UInt8) (item : ZgbBufQueue),
      buffer.length ≤ zgbStdFaSize →
      zgbRecvBuffer inCmd buf buffer = .std item → ZgbParseSafe item (zgbParse isNode item) := by
  intro hall
  have hsafe := hall true false
    (fun n => [0xEF, 0xDE, 0xAB, 0x9A, 0x10, 0x21, 0x54, 0x65, 0, 19, 0, 0, 1, 1, 0, 0x22, 0x86,
      0x73, 0xB6].getD n 0)
    [0xEF, 0xDE, 0xAB, 0x9A, 0x10, 0x21, 0x54, 0x65, 0, 19, 0, 0, 1, 1, 0, 0x22, 0x86,
      0x73] _ (by decide)
    (zgbRecvBuffer_std (by decide))
  have hfits := hsafe.fits _ (zgbParse_accepted true (by decide) (by decide +kernel)).1
  revert hfits
  decide

end DasEdge.Zigbee
