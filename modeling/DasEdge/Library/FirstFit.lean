import Mathlib.Data.List.Basic
import Mathlib.Data.List.Induction

/-!
# Items in the first bin that fits

Items are put into bins one after the other: into the first bin that fits, or into a new one at the
end. Whether a bin fits an item depends on the item that the bin was made for. When the items that
fit one bin fit the same bins, two items share a bin exactly when the later one fits the bin made
for the earlier one, and that bin is used: because the earlier one fits it too, or because it is the
first that the later one fits.
-/

namespace DasEdge.Library

/-- How items and bins go together. -/
structure FirstFit (α β : Type*) where
  fits : α → β → Bool
  make : α → β
  add : α → β → β

namespace FirstFit

variable {α β : Type*} (F : FirstFit α β)

/-- An item is put into the first bin that fits it, or into a new one. -/
def put (a : α) : List β → List β
  | [] => [F.make a]
  | bin :: bins => if F.fits a bin then F.add a bin :: bins else bin :: put a bins

/-- The bins after all items. -/
def bins (items : List α) : List β := items.foldl (fun bins a => F.put a bins) []

/-- The number of the bin for one more item. -/
def index (items : List α) (a : α) : ℕ := (F.bins items).findIdx (F.fits a)

/-- What makes bins depend on the item they were made for only, and items on the bins that they fit. -/
structure Keyed : Prop where
  fits_add : ∀ a b bin, F.fits b (F.add a bin) = F.fits b bin
  fits_make : ∀ a bin, F.fits a bin = true → F.fits a (F.make a) = true
  fits_of_fits : ∀ a b bin bin', F.fits a bin = true → F.fits a bin' = true → F.fits b bin = true →
    F.fits b bin' = true

/-- The bin made for an item is used, and a later item fits it. -/
def Shares (items : List α) (a b : α) : Prop :=
  F.fits b (F.make a) = true ∧ (F.fits a (F.make a) = true ∨ ∀ m ∈ items, F.fits b (F.make m) ≠ true)

/-- Which of the bins fit an item. -/
def fitList (items : List α) (b : α) : List Bool := (F.bins items).map (F.fits b)

/-- An item is put behind those before it. -/
theorem bins_concat (items : List α) (a : α) : F.bins (items ++ [a]) = F.put a (F.bins items) := by
  rw [bins, bins, List.foldl_append]
  rfl

/-- The bin for an item, from the list of those that fit. -/
theorem index_eq_findIdx (items : List α) (b : α) :
    F.index items b = (F.fitList items b).findIdx id := by
  rw [index, fitList, List.findIdx_map]
  rfl

/-- The bins keep what fits them when an item is put. -/
theorem map_fits_put (h : F.Keyed) (a b : α) (bins : List β) :
    (F.put a bins).map (F.fits b) = bins.map (F.fits b) ++ if bins.any (F.fits a) then []
      else [F.fits b (F.make a)] := by
  induction bins with
  | nil => rfl
  | cons bin bins ih =>
    rw [put, List.any_cons]
    split
    · next hfits => simp [hfits, h.fits_add]
    · next hfits => simp [hfits, ih]

/-- One more item makes at most one bin more. -/
theorem fitList_concat (h : F.Keyed) (items : List α) (a b : α) :
    F.fitList (items ++ [a]) b =
      F.fitList items b ++ if true ∈ F.fitList items a then [] else [F.fits b (F.make a)] := by
  rw [fitList, bins_concat, F.map_fits_put h]
  congr 1
  simp [fitList]

/-- More items make more bins. -/
theorem fitList_append (h : F.Keyed) (items more : List α) (b : α) :
    ∃ tail, F.fitList (items ++ more) b = F.fitList items b ++ tail := by
  induction more using List.reverseRecOn with
  | nil => exact ⟨[], by simp⟩
  | append_singleton more a ih =>
    obtain ⟨tail, htail⟩ := ih
    exact ⟨_, by rw [← List.append_assoc, F.fitList_concat h, htail, List.append_assoc]⟩

/-- Some bin fits an item exactly when it fits the bin made for one of the items. -/
theorem true_mem_fitList (h : F.Keyed) (items : List α) (b : α) :
    true ∈ F.fitList items b ↔ ∃ m ∈ items, F.fits b (F.make m) = true := by
  induction items using List.reverseRecOn with
  | nil => simp [fitList, bins]
  | append_singleton items a ih =>
    rw [F.fitList_concat h, List.mem_append, ih]
    constructor
    · rintro (⟨m, hm, hfits⟩ | hnew)
      · exact ⟨m, List.mem_append_left _ hm, hfits⟩
      · split at hnew
        · cases hnew
        · exact ⟨a, by simp, (List.mem_singleton.mp hnew).symm⟩
    · rintro ⟨m, hm, hfits⟩
      rcases List.mem_append.mp hm with hm | hm
      · exact .inl ⟨m, hm, hfits⟩
      · obtain rfl := List.mem_singleton.mp hm
        split
        · next hmem =>
          -- the item went into a bin that fits the other one as well
          left
          rw [← ih]
          obtain ⟨bin, hbin, hm⟩ := List.mem_map.mp hmem
          exact List.mem_map.mpr ⟨bin, hbin, h.fits_of_fits m b _ _ (h.fits_make m bin hm) hm hfits⟩
        · exact .inr (by simp [hfits])

/-- The bin for an item is found among the first ones when one of them fits. -/
theorem findIdx_append_left {l : List Bool} (tail : List Bool) (h : true ∈ l) :
    (l ++ tail).findIdx id = l.findIdx id := by
  rw [List.findIdx_append, if_pos (List.findIdx_lt_length_of_exists ⟨true, h, rfl⟩)]

/-- Items that fit the same bins go into the same one. -/
theorem fitList_eq (h : F.Keyed) {items : List α} {a b : α} (ha : F.fits a (F.make a) = true)
    (hb : F.fits b (F.make a) = true) :
    F.fitList items a = F.fitList items b := by
  refine List.map_congr_left fun bin _ => Bool.eq_iff_iff.mpr ⟨fun hfits => ?_, fun hfits => ?_⟩
  · exact h.fits_of_fits a b _ _ ha hfits hb
  · exact h.fits_of_fits b a _ _ hb hfits ha

/-- Which items share a bin. -/
theorem index_eq_iff (h : F.Keyed) (items more : List α) (a b : α) :
    F.index items a = F.index (items ++ a :: more) b ↔ F.Shares items a b := by
  obtain ⟨tail, htail⟩ := F.fitList_append h (items ++ [a]) more b
  rw [List.append_assoc, List.singleton_append, F.fitList_concat h] at htail
  rw [F.index_eq_findIdx, F.index_eq_findIdx, htail, List.append_assoc, Shares]
  by_cases hb : true ∈ F.fitList items b
  · -- the later item has a bin already
    have hjoined : ¬ ∀ m ∈ items, F.fits b (F.make m) ≠ true := by
      obtain ⟨m, hm, hfits⟩ := (F.true_mem_fitList h items b).mp hb
      exact fun hnone => hnone m hm hfits
    rw [findIdx_append_left _ hb, or_iff_left hjoined]
    constructor
    · intro heq
      have hlt : (F.fitList items b).findIdx id < (F.fitList items b).length :=
        List.findIdx_lt_length_of_exists ⟨true, hb, rfl⟩
      have hlength : (F.fitList items a).length = (F.fitList items b).length := by simp [fitList]
      have hfitsB : id (F.fitList items b)[(F.fitList items b).findIdx id] = true :=
        List.findIdx_getElem
      have hlt' : (F.fitList items a).findIdx id < (F.fitList items a).length := by omega
      have hfitsA : id (F.fitList items a)[(F.fitList items a).findIdx id] = true :=
        List.findIdx_getElem
      simp only [id_eq, fitList, List.getElem_map] at hfitsA hfitsB
      simp only [fitList] at heq
      simp only [heq] at hfitsA
      have hself := h.fits_make a _ hfitsA
      exact ⟨h.fits_of_fits a b _ _ hfitsA hself hfitsB, hself⟩
    · rintro ⟨hfits, hself⟩
      rw [F.fitList_eq h hself hfits]
  · have hnone : ∀ m ∈ items, F.fits b (F.make m) ≠ true :=
      fun m hm hfits => hb ((F.true_mem_fitList h items b).mpr ⟨m, hm, hfits⟩)
    have hend : (F.fitList items b).findIdx id = (F.fitList items b).length := by
      refine List.findIdx_eq_length.mpr fun c hc => ?_
      cases c
      · rfl
      · exact absurd hc hb
    have hlength : (F.fitList items a).length = (F.fitList items b).length := by simp [fitList]
    rw [List.findIdx_append, hend, if_neg (Nat.lt_irrefl _), and_iff_left (Or.inr hnone), ← hlength]
    by_cases ha : true ∈ F.fitList items a
    · -- the earlier item went into a bin that does not fit the later one
      have hlt : (F.fitList items a).findIdx id < (F.fitList items a).length :=
        List.findIdx_lt_length_of_exists ⟨true, ha, rfl⟩
      constructor
      · intro heq
        omega
      · intro hfits
        obtain ⟨bin, hbin, hfitsA⟩ := List.mem_map.mp ha
        exact absurd (List.mem_map.mpr ⟨bin, hbin,
          h.fits_of_fits a b _ _ (h.fits_make a bin hfitsA) hfitsA hfits⟩) hb
    · -- the earlier item made a new bin
      have hend' : (F.fitList items a).findIdx id = (F.fitList items a).length := by
        refine List.findIdx_eq_length.mpr fun c hc => ?_
        cases c
        · rfl
        · exact absurd hc ha
      rw [hend', if_neg ha, List.singleton_append, List.findIdx_cons]
      cases F.fits b (F.make a) <;> simp

/-- The items of bin `k` among those behind the first ones. -/
def members (k : ℕ) : List α → List α → List α
  | _, [] => []
  | pre, a :: rest => if F.index pre a = k then a :: members k (pre ++ [a]) rest
    else members k (pre ++ [a]) rest

/-- A bin with one more item. -/
def place (bin : Option β) (a : α) : Option β := some (bin.elim (F.make a) (F.add a))

/-- A bin after an item is put. -/
theorem getElem?_put (a : α) (bins : List β) (k : ℕ) :
    (F.put a bins)[k]? = if bins.findIdx (F.fits a) = k then F.place bins[k]? a else bins[k]? := by
  induction bins generalizing k with
  | nil => cases k <;> simp [put, place]
  | cons bin bins ih =>
    rw [put, List.findIdx_cons]
    cases hfits : F.fits a bin with
    | true => cases k <;> simp [place]
    | false =>
      cases k with
      | zero => simp
      | succ k => simp [ih]

/-- A bin is what its items make of it one after the other. -/
theorem getElem?_bins (k : ℕ) (pre rest : List α) :
    (F.bins (pre ++ rest))[k]? = (F.members k pre rest).foldl F.place (F.bins pre)[k]? := by
  induction rest generalizing pre with
  | nil => simp [members]
  | cons a rest ih =>
    rw [List.append_cons, ih, bins_concat, getElem?_put, ← index, members]
    by_cases hindex : F.index pre a = k
    · rw [if_pos hindex, if_pos hindex, List.foldl_cons]
    · rw [if_neg hindex, if_neg hindex]

/-- An item of a bin, with those before and behind it. -/
theorem mem_members (k : ℕ) (pre rest : List α) (b : α) :
    b ∈ F.members k pre rest ↔ ∃ mid post, rest = mid ++ b :: post ∧ F.index (pre ++ mid) b = k := by
  induction rest generalizing pre with
  | nil => simp [members]
  | cons a rest ih =>
    have hsplit : (∃ mid post, a :: rest = mid ++ b :: post ∧ F.index (pre ++ mid) b = k) ↔
        b = a ∧ F.index pre a = k ∨ ∃ mid post, rest = mid ++ b :: post ∧
          F.index (pre ++ [a] ++ mid) b = k := by
      constructor
      · rintro ⟨mid, post, heq, hindex⟩
        cases mid with
        | nil =>
          obtain ⟨rfl, rfl⟩ := List.cons.inj heq
          exact .inl ⟨rfl, by simpa using hindex⟩
        | cons c mid =>
          obtain ⟨rfl, rfl⟩ := List.cons.inj heq
          exact .inr ⟨mid, post, rfl, by simpa using hindex⟩
      · rintro (⟨rfl, hindex⟩ | ⟨mid, post, rfl, hindex⟩)
        · exact ⟨[], rest, rfl, by simpa using hindex⟩
        · exact ⟨a :: mid, post, rfl, by simpa using hindex⟩
    rw [hsplit, members, ← ih]
    split
    · next hindex => simp [hindex]
    · next hindex => simp [hindex]

/-- A relation holds in the order of every bin exactly when it holds of the items that share a bin. -/
theorem pairwise_members (h : F.Keyed) (R : α → α → Prop) (pre rest : List α) :
    (∀ k, (F.members k pre rest).Pairwise R) ↔
      ∀ mid a more b post, rest = mid ++ a :: (more ++ b :: post) → F.Shares (pre ++ mid) a b →
        R a b := by
  induction rest generalizing pre with
  | nil => simp [members]
  | cons c rest ih =>
    -- the item in front is before the items of its bin
    have hbehind : (∀ b ∈ F.members (F.index pre c) (pre ++ [c]) rest, R c b) ↔
        ∀ more b post, rest = more ++ b :: post → F.Shares pre c b → R c b := by
      constructor
      · intro hall more b post heq hshares
        refine hall b ((F.mem_members _ _ _ _).mpr ⟨more, post, heq, ?_⟩)
        rw [List.append_assoc, List.singleton_append]
        exact ((F.index_eq_iff h pre more c b).mpr hshares).symm
      · intro hall b hb
        obtain ⟨more, post, heq, hindex⟩ := (F.mem_members _ _ _ _).mp hb
        rw [List.append_assoc, List.singleton_append] at hindex
        exact hall more b post heq ((F.index_eq_iff h pre more c b).mp hindex.symm)
    have hfirst : (∀ k, (F.members k pre (c :: rest)).Pairwise R) ↔
        (∀ b ∈ F.members (F.index pre c) (pre ++ [c]) rest, R c b) ∧
          ∀ k, (F.members k (pre ++ [c]) rest).Pairwise R := by
      constructor
      · intro hall
        have hown := hall (F.index pre c)
        rw [members, if_pos rfl, List.pairwise_cons] at hown
        refine ⟨hown.1, fun k => ?_⟩
        have hk := hall k
        rw [members] at hk
        split at hk
        · exact hk.of_cons
        · exact hk
      · rintro ⟨hown, hall⟩ k
        rw [members]
        split
        · next hindex => exact List.pairwise_cons.mpr ⟨hindex ▸ hown, hall k⟩
        · exact hall k
    rw [hfirst, ih, hbehind]
    constructor
    · rintro ⟨hown, hrest⟩ mid a more b post heq hshares
      cases mid with
      | nil =>
        obtain ⟨rfl, rfl⟩ := List.cons.inj heq
        exact hown more b post rfl (by simpa using hshares)
      | cons d mid =>
        obtain ⟨rfl, rfl⟩ := List.cons.inj heq
        exact hrest mid a more b post rfl (by simpa using hshares)
    · intro hall
      refine ⟨fun more b post heq hshares => hall [] c more b post (by rw [heq]; rfl)
        (by simpa using hshares), ?_⟩
      intro mid a more b post heq hshares
      exact hall (c :: mid) a more b post (by rw [heq]; rfl) (by simpa using hshares)

/-- What holds of every bin, said of its items. -/
theorem forall_mem_bins (items : List α) (P : β → Prop) :
    (∀ bin ∈ F.bins items, P bin) ↔
      ∀ k a rest, F.members k [] items = a :: rest →
        P (rest.foldl (fun bin b => F.add b bin) (F.make a)) := by
  have hfold : ∀ (rest : List α) (bin : β), rest.foldl F.place (some bin) =
      some (rest.foldl (fun bin b => F.add b bin) bin) := by
    intro rest
    induction rest with
    | nil => exact fun _ => rfl
    | cons b rest ih => exact fun bin => ih (F.add b bin)
  have hbin : ∀ k, (F.bins items)[k]? = (F.members k [] items).foldl F.place none := fun k => by
    simpa [bins] using F.getElem?_bins k [] items
  constructor
  · intro hall k a rest hmembers
    refine hall _ (List.mem_of_getElem? (i := k) ?_)
    rw [hbin, hmembers, List.foldl_cons]
    exact hfold rest (F.make a)
  · intro hall bin hmem
    obtain ⟨k, hk⟩ := List.getElem?_of_mem hmem
    rw [hbin] at hk
    cases hmembers : F.members k [] items with
    | nil =>
      rw [hmembers] at hk
      cases hk
    | cons a rest =>
      rw [hmembers, List.foldl_cons] at hk
      obtain rfl := Option.some.inj ((hfold rest (F.make a)).symm.trans hk)
      exact hall k a rest hmembers

/-- The items behind the first one of a bin fit the bin that was made for it. -/
theorem fits_of_members (h : F.Keyed) {items rest : List α} {k : ℕ} {a : α}
    (hmembers : F.members k [] items = a :: rest) :
    ∀ b ∈ rest, F.fits b (F.make a) = true := by
  have hall := (F.pairwise_members h (fun a b => F.fits b (F.make a) = true) [] items).mpr
    (fun mid a more b post _ hshares => hshares.1) k
  rw [hmembers] at hall
  exact (List.pairwise_cons.mp hall).1

end FirstFit

end DasEdge.Library
