import DasEdge.VarManage.SyncSlaveLink

/-!
# What the poll plan covers

Merging keeps the union of the ranges as long as no range reaches the end of the address space. A
range that ends at 65536 or beyond has a wrapped 16-bit end: it is dropped when the range before it
touches it, and it is cut short by a lower range behind it. Every range that ends below 65536 stays
covered, so the plan is complete exactly when the ranges that end at 65536 stand alone.
-/

namespace DasEdge.VarManage

/-- The end of a range, not reduced to 16 bits. -/
def SyncExtModbus.stop (ext : SyncExtModbus) : ℕ := ext.addr.toNat + ext.size.toNat

/-- The end of the input range of a variable. -/
def ExtData.extStop (data : ExtData) : ℕ :=
  data.xIo.param.modbus.usExtAddr.toNat + typeRegs data.xIo.btInVarType

/-- The ranges met during merging: within the size limit below the top, short at the top. -/
def SyncExtModbus.Fits (ext : SyncExtModbus) : Prop :=
  ext.stop < 2 ^ 16 ∧ ext.size.toNat ≤ syncExtMaxSize ∨
    2 ^ 16 ≤ ext.stop ∧ 65532 ≤ ext.addr.toNat ∧ ext.size.toNat ≤ 7

/-- The outcomes of one merging round. -/
inductive MergeCase (node next : SyncExtModbus) : Option SyncExtModbus → Prop where
  | apart : node.stop < next.addr.toNat → MergeCase node next none
  | tooLong : node.stop < 2 ^ 16 → next.stop < 2 ^ 16 → node.stop < next.stop → MergeCase node next none
  | low (merged : SyncExtModbus) : node.stop < 2 ^ 16 → next.stop < 2 ^ 16 → merged.addr = node.addr →
      merged.stop = max node.stop next.stop → MergeCase node next (some merged)
  | drop : node.stop < 2 ^ 16 → 2 ^ 16 ≤ next.stop → next.addr.toNat ≤ node.stop →
    MergeCase node next (some node)
  | shrink (merged : SyncExtModbus) : 2 ^ 16 ≤ node.stop → next.stop < 2 ^ 16 →
    merged.addr = node.addr →
      merged.stop = next.stop → MergeCase node next (some merged)
  | high (merged : SyncExtModbus) : 2 ^ 16 ≤ node.stop → 2 ^ 16 ≤ next.stop → merged.addr = node.addr →
      2 ^ 16 ≤ merged.stop → MergeCase node next (some merged)

/-- A merged node starts where the first one did. -/
theorem MergeCase.addr_eq {node next merged : SyncExtModbus} (h : MergeCase node next (some merged)) :
    merged.addr = node.addr := by
  cases h with
  | low _ _ _ haddr => exact haddr
  | drop => rfl
  | shrink _ _ _ haddr => exact haddr
  | high _ _ _ haddr => exact haddr

/-- The 16-bit end of a range. -/
theorem addrEnd_toNat (ext : SyncExtModbus) : ext.addrEnd.toNat = ext.stop % 2 ^ 16 := by
  simp [SyncExtModbus.addrEnd, SyncExtModbus.stop, UInt16.toNat_add]

/-- The size that a merged node gets. -/
theorem mergedSize_toNat (node next : SyncExtModbus) :
    (next.addrEnd - node.addr).toUInt8.toNat = (2 ^ 16 - node.addr.toNat + next.stop % 2 ^ 16) %
      2 ^ 8 := by
  have haddr := node.addr.toNat_lt
  rw [UInt16.toNat_toUInt8, UInt16.toNat_sub, addrEnd_toNat]
  omega

/-- One merging round on ranges in ascending order. -/
theorem mergeSyncExt_cases {node next : SyncExtModbus} (hnode : node.Fits) (hnext : next.size.toNat ≤ 4)
    (horder : node.addr.toNat ≤ next.addr.toNat) :
    MergeCase node next (mergeSyncExt node next) ∧ ∀ m, mergeSyncExt node next = some m → m.Fits := by
  have haddr := node.addr.toNat_lt
  have haddr' := next.addr.toNat_lt
  have hend := addrEnd_toNat node
  have hend' := addrEnd_toNat next
  have hsize := mergedSize_toNat node next
  have hstop : node.stop = node.addr.toNat + node.size.toNat := rfl
  have hstop' : next.stop = next.addr.toNat + next.size.toNat := rfl
  rw [mergeSyncExt]
  by_cases htouch : node.addr.toNat + node.size.toNat ≥ next.addr.toNat
  swap
  · rw [if_neg htouch]
    exact ⟨.apart (by omega), by simp⟩
  rw [if_pos htouch]
  by_cases hlt : node.addrEnd < next.addrEnd
  swap
  · rw [if_neg hlt]
    rw [UInt16.lt_iff_toNat_lt, hend, hend'] at hlt
    refine ⟨?_, by rintro m ⟨⟩; exact hnode⟩
    rcases hnode with ⟨hlow, -⟩ | ⟨hhigh, htop, hshort⟩
    · rcases Nat.lt_or_ge next.stop (2 ^ 16) with hlow' | hhigh'
      · exact .low node hlow hlow' rfl (by omega)
      · exact .drop hlow hhigh' (by omega)
    · exact .high node hhigh (by omega) rfl hhigh
  rw [if_pos hlt]
  rw [UInt16.lt_iff_toNat_lt, hend, hend'] at hlt
  by_cases hmax : (next.addrEnd.toNat : ℤ) - node.addr.toNat ≤ syncExtMaxSize
  swap
  · rw [if_neg hmax]
    rw [hend'] at hmax
    refine ⟨?_, by simp⟩
    rcases hnode with ⟨hlow, -⟩ | ⟨hhigh, htop, hshort⟩
    · exact .tooLong hlow (by omega) (by omega)
    · simp only [syncExtMaxSize] at hmax
      omega
  rw [if_pos hmax]
  rw [hend'] at hmax
  simp only [syncExtMaxSize] at hmax
  set merged : SyncExtModbus := { node with size := (next.addrEnd - node.addr).toUInt8 } with hmerged
  have hmsize : merged.size.toNat = (2 ^ 16 - node.addr.toNat + next.stop % 2 ^ 16) % 2 ^ 8 := hsize
  have hmstop : merged.stop = node.addr.toNat + merged.size.toNat := rfl
  have hmaddr : merged.addr.toNat = node.addr.toNat := rfl
  rcases hnode with ⟨hlow, hsmall⟩ | ⟨hhigh, htop, hshort⟩
  · have hlow' : next.stop < 2 ^ 16 := by omega
    refine ⟨.low merged hlow hlow' rfl (by omega), ?_⟩
    rintro m ⟨⟩
    left
    simp only [syncExtMaxSize]
    omega
  · rcases Nat.lt_or_ge next.stop (2 ^ 16) with hlow' | hhigh'
    · refine ⟨.shrink merged hhigh hlow' rfl (by omega), ?_⟩
      rintro m ⟨⟩
      left
      simp only [syncExtMaxSize]
      omega
    · refine ⟨.high merged hhigh hhigh' rfl (by omega), ?_⟩
      rintro m ⟨⟩
      right
      omega

/-- Ranges in ascending order, each of the size of one variable. -/
structure RangesSorted (exts : List SyncExtModbus) : Prop where
  sorted : exts.Pairwise fun a b => a.addr.toNat ≤ b.addr.toNat
  size_le : ∀ ext ∈ exts, ext.size.toNat ≤ 4

/-- The ranges behind the first are in order. -/
theorem RangesSorted.tail {next : SyncExtModbus} {exts : List SyncExtModbus}
    (h : RangesSorted (next :: exts)) :
    RangesSorted exts :=
  ⟨(List.pairwise_cons.mp h.sorted).2, fun ext hext => h.size_le ext (List.mem_cons_of_mem _ hext)⟩

/-- The ranges of one variable each fit. -/
theorem fits_of_size {ext : SyncExtModbus} (hsize : ext.size.toNat ≤ 4) : ext.Fits := by
  have hstop : ext.stop = ext.addr.toNat + ext.size.toNat := rfl
  simp only [SyncExtModbus.Fits, syncExtMaxSize]
  omega

/-- The node that the loop goes on with is followed by the remaining ranges in order. -/
theorem RangesSorted.merged {node next merged : SyncExtModbus} {exts : List SyncExtModbus}
    (hsorted : ∀ ext ∈ next :: exts, node.addr.toNat ≤ ext.addr.toNat)
    (haddr : merged.addr = node.addr) :
    ∀ ext ∈ exts, merged.addr.toNat ≤ ext.addr.toNat := by
  intro ext hext
  rw [haddr]
  exact hsorted ext (List.mem_cons_of_mem _ hext)

/-- Every node of the merged list is within the size limit. -/
theorem trimExtList_size {node : SyncExtModbus} {exts : List SyncExtModbus} (hnode : node.Fits)
    (horder : ∀ ext ∈ exts, node.addr.toNat ≤ ext.addr.toNat) (hexts : RangesSorted exts) :
    ∀ ext, .modbus ext ∈ trimExtList node (exts.map .modbus) → ext.size.toNat ≤ syncExtMaxSize := by
  have hfit : ∀ ext : SyncExtModbus, ext.Fits → ext.size.toNat ≤ syncExtMaxSize := by
    rintro ext (⟨-, hsize⟩ | ⟨-, -, hsize⟩)
    · exact hsize
    · exact hsize.trans (by decide)
  induction exts generalizing node with
  | nil =>
    intro ext hext
    simp only [List.map_nil, trimExtList, List.mem_singleton, SyncExt.modbus.injEq] at hext
    exact hext ▸ hfit node hnode
  | cons next exts ih =>
    have hrest := hexts.tail
    have hnextSize := hexts.size_le next List.mem_cons_self
    obtain ⟨hcase, hmerged⟩ := mergeSyncExt_cases hnode hnextSize (horder next List.mem_cons_self)
    intro ext hext
    rw [List.map_cons, trimExtList] at hext
    cases hmerge : mergeSyncExt node next with
    | none =>
      rw [hmerge] at hext
      rcases List.mem_cons.mp hext with heq | hmem
      · cases heq
        exact hfit node hnode
      · exact ih (fits_of_size hnextSize) (List.pairwise_cons.mp hexts.sorted).1 hrest ext hmem
    | some merged =>
      rw [hmerge] at hext hcase
      have haddr := hcase.addr_eq
      exact ih (hmerged merged hmerge) (RangesSorted.merged horder haddr) hrest ext hext

/-- A range that some range below the top covers is covered after merging. -/
theorem trimExtList_covers_low {node : SyncExtModbus} {exts : List SyncExtModbus} (hnode : node.Fits)
    (horder : ∀ ext ∈ exts, node.addr.toNat ≤ ext.addr.toNat) (hexts : RangesSorted exts)
    (start stop : ℕ)
    (hcover : ∃ ext ∈ node :: exts, ext.stop < 2 ^ 16 ∧ ext.addr.toNat ≤ start ∧ stop ≤ ext.stop) :
    ∃ ext, .modbus ext ∈ trimExtList node (exts.map .modbus) ∧ ext.addr.toNat ≤ start ∧
      stop ≤ ext.stop := by
  induction exts generalizing node with
  | nil =>
    obtain ⟨ext, hext, -, hcover⟩ := hcover
    rw [List.mem_singleton] at hext
    exact ⟨ext, by simp [trimExtList, hext], hcover⟩
  | cons next exts ih =>
    have hrest := hexts.tail
    have hnextSize := hexts.size_le next List.mem_cons_self
    have hnextOrder := horder next List.mem_cons_self
    obtain ⟨hcase, hmerged⟩ := mergeSyncExt_cases hnode hnextSize hnextOrder
    rw [List.map_cons, trimExtList]
    cases hmerge : mergeSyncExt node next with
    | none =>
      simp only
      obtain ⟨ext, hext, hcover⟩ := hcover
      rcases List.mem_cons.mp hext with rfl | hext
      · exact ⟨ext, List.mem_cons_self, hcover.2⟩
      · obtain ⟨found, hfound, hfoundCover⟩ :=
          ih (fits_of_size hnextSize) (List.pairwise_cons.mp hexts.sorted).1
          hrest ⟨ext, hext, hcover⟩
        exact ⟨found, List.mem_cons_of_mem _ hfound, hfoundCover⟩
    | some merged =>
      simp only
      rw [hmerge] at hcase
      have haddr := hcase.addr_eq
      refine ih (hmerged merged hmerge) (RangesSorted.merged horder haddr) hrest ?_
      obtain ⟨ext, hext, hlow, hstart, hstop⟩ := hcover
      rcases List.mem_cons.mp hext with rfl | hext
      · refine ⟨merged, List.mem_cons_self, ?_⟩
        rw [haddr]
        cases hcase <;> omega
      · rcases List.mem_cons.mp hext with rfl | hext
        · refine ⟨merged, List.mem_cons_self, ?_⟩
          rw [haddr]
          cases hcase <;> omega
        · exact ⟨ext, List.mem_cons_of_mem _ hext, hlow, hstart, hstop⟩

/-- A range that reaches the top survives merging when no range below the top reaches its start. -/
def StandsAlone (exts : List SyncExtModbus) (ext : SyncExtModbus) : Prop :=
  2 ^ 16 ≤ ext.stop ∧ ∀ other ∈ exts, other.stop < 2 ^ 16 → other.stop < ext.addr.toNat

/-- Behind a node that is not merged, the ranges that stand alone are those of all. -/
theorem standsAlone_apart {node next : SyncExtModbus} {exts : List SyncExtModbus}
    (hcase : MergeCase node next none)
    (horder : ∀ ext ∈ exts, next.addr.toNat ≤ ext.addr.toNat) (start : ℕ) :
    (∃ ext ∈ next :: exts, StandsAlone (next :: exts) ext ∧ ext.addr.toNat ≤ start) ↔
      ∃ ext ∈ node :: next :: exts, StandsAlone (node :: next :: exts) ext ∧
        ext.addr.toNat ≤ start := by
  have hlow : node.stop < 2 ^ 16 := by
    have := next.addr.toNat_lt
    cases hcase <;> omega
  constructor
  · rintro ⟨ext, hext, halone, hstart⟩
    have hge : next.addr.toNat ≤ ext.addr.toNat := by
      rcases List.mem_cons.mp hext with rfl | hext
      · exact le_rfl
      · exact horder ext hext
    have hreach : node.stop < ext.addr.toNat := by
      cases hcase with
      | apart hapart => omega
      | tooLong _ hnextLow hlonger => exact hlonger.trans (halone.2 next List.mem_cons_self hnextLow)
    refine ⟨ext, List.mem_cons_of_mem _ hext, ⟨halone.1, ?_⟩, hstart⟩
    exact List.forall_mem_cons.mpr ⟨fun _ => hreach, halone.2⟩
  · rintro ⟨ext, hext, halone, hstart⟩
    rcases List.mem_cons.mp hext with rfl | hext
    · have hhigh := halone.1
      omega
    · exact ⟨ext, hext,
        ⟨halone.1, fun other hother => halone.2 other (List.mem_cons_of_mem _ hother)⟩, hstart⟩

/-- Merging two nodes keeps from where on some range stands alone. -/
theorem standsAlone_merged {node next merged : SyncExtModbus} {exts : List SyncExtModbus}
    (hcase : MergeCase node next (some merged)) (hnext : node.addr.toNat ≤ next.addr.toNat)
    (horder : ∀ ext ∈ exts, next.addr.toNat ≤ ext.addr.toNat) (start : ℕ) :
    (∃ ext ∈ merged :: exts, StandsAlone (merged :: exts) ext ∧ ext.addr.toNat ≤ start) ↔
      ∃ ext ∈ node :: next :: exts, StandsAlone (node :: next :: exts) ext ∧
        ext.addr.toNat ≤ start := by
  have hstops : ∀ ext : SyncExtModbus, ext.addr.toNat ≤ ext.stop := fun _ => Nat.le_add_right _ _
  have haddr := hcase.addr_eq
  -- what stands alone among the ranges behind stands alone on both sides or on neither
  have hbehind : ∀ ext ∈ exts, (StandsAlone (merged :: exts) ext ↔
      StandsAlone (node :: next :: exts) ext) := by
    intro ext hext
    have hge := horder ext hext
    simp only [StandsAlone, List.forall_mem_cons]
    cases hcase <;> constructor <;> rintro ⟨hhigh, h⟩ <;> refine ⟨hhigh, ?_⟩
    all_goals first
      | exact ⟨by omega, by omega, h.2⟩
      | exact ⟨by omega, h.2.2⟩
  constructor
  · rintro ⟨ext, hext, halone, hstart⟩
    rcases List.mem_cons.mp hext with rfl | hext
    · refine ⟨node, List.mem_cons_self, ?_, haddr ▸ hstart⟩
      have hhigh := halone.1
      have hothers := halone.2
      rw [List.forall_mem_cons, haddr] at hothers
      simp only [StandsAlone, List.forall_mem_cons]
      cases hcase <;> first | omega | exact ⟨by omega, by omega, by omega, hothers.2⟩
    · exact ⟨ext, List.mem_cons_of_mem _ (List.mem_cons_of_mem _ hext),
        (hbehind ext hext).mp halone, hstart⟩
  · rintro ⟨ext, hext, halone, hstart⟩
    rcases List.mem_cons.mp hext with rfl | hext
    · refine ⟨merged, List.mem_cons_self, ?_, haddr ▸ hstart⟩
      obtain ⟨hhigh, hothers⟩ := halone
      rw [List.forall_mem_cons, List.forall_mem_cons] at hothers
      have hnextStop := hstops next
      simp only [StandsAlone, List.forall_mem_cons, haddr]
      cases hcase <;> first | omega | exact ⟨by omega, by omega, hothers.2.2⟩
    · rcases List.mem_cons.mp hext with rfl | hext
      · -- a range that stands alone is only merged with ranges at the top, and so is all behind it
        obtain ⟨hhigh, hothers⟩ := halone
        rw [List.forall_mem_cons, List.forall_mem_cons] at hothers
        refine ⟨merged, List.mem_cons_self, ?_, by rw [haddr]; omega⟩
        have hnone : ∀ other ∈ exts, other.stop < 2 ^ 16 → other.stop < merged.addr.toNat := by
          intro other hother hotherLow
          have := hothers.2.2 other hother hotherLow
          have := horder other hother
          have := hstops other
          omega
        simp only [StandsAlone, List.forall_mem_cons]
        cases hcase <;> first | omega | exact ⟨by omega, by omega, hnone⟩
      · exact ⟨ext, List.mem_cons_of_mem _ hext, (hbehind ext hext).mpr halone, hstart⟩

/-- After merging some range reaches the top from `start` on, exactly when one stood alone before. -/
theorem trimExtList_covers_high {node : SyncExtModbus} {exts : List SyncExtModbus} (hnode : node.Fits)
    (horder : ∀ ext ∈ exts, node.addr.toNat ≤ ext.addr.toNat) (hexts : RangesSorted exts) (start : ℕ) :
    (∃ ext, .modbus ext ∈ trimExtList node (exts.map .modbus) ∧ 2 ^ 16 ≤ ext.stop ∧
      ext.addr.toNat ≤ start) ↔
      ∃ ext ∈ node :: exts, StandsAlone (node :: exts) ext ∧ ext.addr.toNat ≤ start := by
  induction exts generalizing node with
  | nil =>
    simp only [List.map_nil, trimExtList, List.mem_singleton, SyncExt.modbus.injEq, exists_eq_left,
      StandsAlone,
      forall_eq]
    omega
  | cons next exts ih =>
    have hrest := hexts.tail
    have hnextSize := hexts.size_le next List.mem_cons_self
    have hnextOrder := horder next List.mem_cons_self
    have hnextRest := (List.pairwise_cons.mp hexts.sorted).1
    obtain ⟨hcase, hmerged⟩ := mergeSyncExt_cases hnode hnextSize hnextOrder
    rw [List.map_cons, trimExtList]
    cases hmerge : mergeSyncExt node next with
    | none =>
      rw [hmerge] at hcase
      have hlow : node.stop < 2 ^ 16 := by
        have := next.addr.toNat_lt
        cases hcase <;> omega
      rw [← standsAlone_apart hcase hnextRest, ← ih (fits_of_size hnextSize) hnextRest hrest]
      constructor
      · rintro ⟨ext, hext, hhigh, hstart⟩
        rcases List.mem_cons.mp hext with heq | hext
        · cases heq
          omega
        · exact ⟨ext, hext, hhigh, hstart⟩
      · rintro ⟨ext, hext, hfound⟩
        exact ⟨ext, List.mem_cons_of_mem _ hext, hfound⟩
    | some merged =>
      rw [hmerge] at hcase
      have haddr := hcase.addr_eq
      rw [← standsAlone_merged hcase hnextOrder hnextRest]
      exact ih (hmerged merged hmerge) (RangesSorted.merged horder haddr) hrest

end DasEdge.VarManage
