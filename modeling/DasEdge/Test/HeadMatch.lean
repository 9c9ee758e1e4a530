import DasEdge.Test.ServerCom

/-!
# Finding the head of a package

The queue holds the last bytes of the stream, at most eight of them. When they are no head the first
one is given up, or the first two if they are the two bytes that a head begins with. The second of
these is not the first byte of a head, so no head is passed over: behind bytes in which none begins
the head of a package is found when its last byte comes in.
-/

namespace DasEdge.Test

open DasEdge.Library

/-- The eight bytes are a head that `try2match_com_head` takes. -/
def ValidHead (window : List UInt8) : Prop :=
  ∃ head : SPackageHead, window = head.bytes ∧ head.preCode0 = 0x12 ∧ head.preCode1 = 0xEF ∧
    head.version = 0 ∧
    head.crcOk = true

/-- A head is given by its bytes. -/
theorem SPackageHead.bytes_injective {head head' : SPackageHead} (h : head.bytes = head'.bytes) :
    head = head' := by
  obtain ⟨a0, a1, a2, a3, a4, a5, a6, a7⟩ := head
  obtain ⟨b0, b1, b2, b3, b4, b5, b6, b7⟩ := head'
  simp only [bytes, checked, List.cons_append, List.nil_append, List.cons.injEq, and_true] at h
  obtain ⟨rfl, rfl, rfl, rfl, rfl, rfl, rfl, rfl⟩ := h
  rfl

/-- The bytes of the stream are handed to `try2match_com_head` until it has a head, with the bytes
behind it. -/
def feedHead : QueueHead → List UInt8 → Option (SPackageHead × QueueHead × List UInt8)
  | _, [] => none
  | q, ch :: rest =>
    match try2matchComHead q ch with
    | (q, some head) => some (head, q, rest)
    | (q, none) => feedHead q rest

/-- The bytes of a full queue are those of the head that is read off it. -/
theorem headOf_bytes {q : QueueHead} (h : q.count = 8) : (headOf q).bytes = q.items := by
  rw [RingQueue.items, h]
  rfl

/-- Less than a head is collected. -/
theorem try2matchComHead_short {q : QueueHead} {ch : UInt8} (h : (q.items ++ [ch]).length < 8) :
    (try2matchComHead q ch).1.items = q.items ++ [ch] ∧ (try2matchComHead q ch).2 = none := by
  rw [List.length_append, List.length_singleton, RingQueue.items_length] at h
  have hitems := q.items_write (e := ch) (by omega)
  have hcount : (q.write ch).count = q.count + 1 := by
    rw [← RingQueue.items_length, hitems, List.length_append, RingQueue.items_length,
      List.length_singleton]
  have hfull : ¬ (q.write ch).full = true := by
    rw [RingQueue.full_iff, hcount]
    omega
  rw [try2matchComHead]
  simp only [if_neg hfull]
  exact ⟨hitems, trivial⟩

/-- Eight bytes are taken as a head, or the first of them is given up, or the first two if they
begin a head. -/
theorem try2matchComHead_whole {q : QueueHead} {ch : UInt8} (h : (q.items ++ [ch]).length = 8) :
    (∀ head : SPackageHead, q.items ++ [ch] = head.bytes → ValidHead (q.items ++ [ch]) →
      (try2matchComHead q ch).1.items = [] ∧ (try2matchComHead q ch).2 = some head) ∧
    (¬ ValidHead (q.items ++ [ch]) → (try2matchComHead q ch).2 = none ∧
      ((try2matchComHead q ch).1.items = (q.items ++ [ch]).drop 1 ∨
        (try2matchComHead q ch).1.items = (q.items ++ [ch]).drop 2 ∧
        (q.items ++ [ch])[1]? = some 0xEF)) := by
  rw [List.length_append, List.length_singleton, RingQueue.items_length] at h
  have hitems := q.items_write (e := ch) (by omega)
  have hcount : (q.write ch).count = 8 := by
    rw [← RingQueue.items_length, hitems, List.length_append, RingQueue.items_length,
      List.length_singleton, h]
  have hfull : (q.write ch).full = true := (q.write ch).full_iff.mpr (by rw [hcount])
  have hbytes := headOf_bytes hcount
  rw [← hitems]
  generalize hw : q.write ch = w at *
  have hmatch : try2matchComHead q ch =
      if w.get 0 ≠ 0x12 ∨ w.get 1 ≠ 0xEF ∨ w.get 4 ≠ 0 then (w.remove, none)
      else if (headOf w).crcOk then (w.clear, some (headOf w))
      else (w.remove.remove, none) := by
    rw [try2matchComHead, hw]
    simp only [if_pos hfull]
  rw [hmatch]
  constructor
  · rintro head hhead ⟨head', hhead', hpre0, hpre1, hversion, hcrc⟩
    obtain rfl := SPackageHead.bytes_injective (hbytes.trans hhead)
    obtain rfl := SPackageHead.bytes_injective (hbytes.trans hhead')
    have hpre : ¬ (w.get 0 ≠ 0x12 ∨ w.get 1 ≠ 0xEF ∨ w.get 4 ≠ 0) := by
      rintro (h | h | h)
      · exact h hpre0
      · exact h hpre1
      · exact h hversion
    rw [if_neg hpre, if_pos hcrc]
    exact ⟨w.items_clear, rfl⟩
  · intro hvalid
    split
    · exact ⟨rfl, Or.inl (by rw [RingQueue.items_remove, List.drop_one])⟩
    · rename_i hpre
      simp only [ne_eq, not_or, not_not] at hpre
      have hcrc : ¬ (headOf w).crcOk = true :=
        fun hcrc => hvalid ⟨headOf w, hbytes.symm, hpre.1, hpre.2.1, hpre.2.2, hcrc⟩
      rw [if_neg hcrc]
      refine ⟨rfl, Or.inr ⟨?_, ?_⟩⟩
      · rw [RingQueue.items_remove, RingQueue.items_remove, ← List.drop_one, ← List.drop_one,
          List.drop_drop]
      · rw [← hbytes, ← hpre.2.1]
        rfl

/-- Behind bytes in which no head begins, the head of a package is found with its last byte, and the
queue is empty then. -/
theorem feedHead_package {q : QueueHead} {stream noise tail : List UInt8} {head : SPackageHead}
    (hcount : q.items.length < 8)
    (hsplit : q.items ++ stream = noise ++ head.bytes ++ tail) (hhead : ValidHead head.bytes)
    (hnoise : ∀ i < noise.length, ¬ ValidHead (((noise ++ head.bytes).drop i).take 8)) :
    ∃ q', feedHead q stream = some (head, q', tail) ∧ q'.items = [] := by
  have hlength : head.bytes.length = 8 := rfl
  induction stream generalizing q noise with
  | nil =>
    have hlen := congrArg List.length hsplit
    simp only [List.append_nil, List.length_append] at hlen
    omega
  | cons ch rest ih =>
    have hsplit' : (q.items ++ [ch]) ++ rest = noise ++ head.bytes ++ tail := by
      rw [List.append_assoc]
      exact hsplit
    rw [feedHead]
    rcases Nat.lt_or_ge (q.items ++ [ch]).length 8 with hshort | hge
    · obtain ⟨hitems, hnone⟩ := try2matchComHead_short hshort
      rw [← hitems] at hsplit' hshort
      generalize try2matchComHead q ch = r at *
      obtain ⟨q', head'⟩ := r
      subst hnone
      exact ih hshort hsplit' hnoise
    · have hwhole : (q.items ++ [ch]).length = 8 := by
        rw [List.length_append, List.length_singleton] at hge ⊢
        omega
      obtain ⟨hfound, hmissed⟩ := try2matchComHead_whole hwhole
      have hwindow : q.items ++ [ch] = (noise ++ head.bytes).take 8 := by
        have htake := congrArg (List.take 8) hsplit'
        rwa [List.take_left' hwhole,
          List.take_append_of_le_length (by rw [List.length_append]; omega)] at htake
      cases noise with
      | nil =>
        rw [List.nil_append, List.take_of_length_le (Nat.le_of_eq hlength)] at hwindow
        rw [List.nil_append] at hsplit'
        obtain ⟨hitems, hsome⟩ := hfound head hwindow (hwindow ▸ hhead)
        have htail : rest = tail := List.append_cancel_left (hwindow ▸ hsplit')
        generalize try2matchComHead q ch = r at *
        obtain ⟨q', head'⟩ := r
        subst hsome htail
        exact ⟨q', rfl, hitems⟩
      | cons b noise =>
        have hinvalid : ¬ ValidHead (q.items ++ [ch]) := by
          rw [hwindow]
          exact hnoise 0 (Nat.succ_pos _)
        obtain ⟨hnone, hdrop⟩ := hmissed hinvalid
        have hgive : ∀ n, 0 < n → n ≤ 8 → n ≤ (b :: noise).length →
            (try2matchComHead q ch).1.items = (q.items ++ [ch]).drop n →
            ∃ q', feedHead (try2matchComHead q ch).1 rest = some (head, q', tail) ∧ q'.items = [] := by
          intro n hpos hle hn hitems
          refine @ih _ ((b :: noise).drop n) ?_ ?_ fun i hi => ?_
          · rw [hitems, List.length_drop, hwhole]
            omega
          · have hdropped := congrArg (List.drop n) hsplit'
            rwa [List.drop_append_of_le_length (hwhole.symm ▸ hle), ← hitems, List.append_assoc,
              List.drop_append_of_le_length hn, ← List.append_assoc] at hdropped
          · have hlater := hnoise (i + n) (by rw [List.length_drop] at hi; omega)
            rwa [Nat.add_comm, ← List.drop_drop, List.drop_append_of_le_length hn] at hlater
        have hgiven : ∃ q', feedHead (try2matchComHead q ch).1 rest = some (head, q', tail) ∧
            q'.items = [] := by
          rcases hdrop with hone | ⟨htwo, hsecond⟩
          · exact hgive 1 Nat.one_pos (by decide) (Nat.succ_pos _) hone
          · refine hgive 2 Nat.two_pos (by decide) ?_ htwo
            -- the second byte of the eight is not the one that begins the head of the package
            by_contra hlt
            obtain rfl : noise = [] := by
              rw [List.length_cons] at hlt
              exact List.eq_nil_of_length_eq_zero (by omega)
            obtain ⟨head', heq, hpre, -⟩ := hhead
            obtain rfl := SPackageHead.bytes_injective heq
            rw [hwindow] at hsecond
            have hfirst : ((b :: [] ++ head.bytes).take 8)[1]? = some head.preCode0 := rfl
            rw [hfirst, hpre] at hsecond
            cases hsecond
        generalize try2matchComHead q ch = r at *
        obtain ⟨q', head'⟩ := r
        subst hnone
        exact hgiven

end DasEdge.Test
