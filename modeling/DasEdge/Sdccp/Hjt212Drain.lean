import DasEdge.Sdccp.Hjt212Report
import Mathlib.Data.List.Chain
import Mathlib.Data.List.Induction

/-!
# Draining the HJ/T 212 reports

A builder passes variables of one nid, takes the text of those that are due and have samples, and
stops at another nid or when its text is full. The next call starts behind the last variable that
was taken. When no variable was taken, the resume pointer stays where it was: at a stop it is then
null, and the rest is lost, or it is not, and the same call is made again for ever.
-/

namespace DasEdge.Sdccp

variable (env : ReportEnv) (a : UpAverager)

/-- A variable of the channel that is due and has samples. -/
def ReportEnv.ready (node : UpData) : Bool :=
  env.onChannel node && (env.due a node && 0 < (node.avg a).count)

/-- A variable behind the builders: one that was ready has been reset. -/
def ReportEnv.clear (node : UpData) : UpData := if env.ready a node then env.reset a node else node

/-- A variable belongs to a report that was begun under a nid; an empty nid is taken for none. -/
def ReportEnv.Joins (nid : List UInt8) (node : UpData) : Prop := nid = [] ∨ env.newnid node = nid

/-- The positions of the ready variables of a list that begins at `i`. -/
def ReportEnv.readyFrom (i : ℕ) : List UpData → List ℕ
  | [] => []
  | node :: rest => if env.ready a node then i :: ReportEnv.readyFrom (i + 1) rest
    else ReportEnv.readyFrom (i + 1) rest

/-- A builder gets past the variables, with the nid before and behind them. -/
inductive ReportEnv.Passes : List UInt8 → List UpData → List UInt8 → Prop
  | nil (nid : List UInt8) : ReportEnv.Passes nid [] nid
  | off {nid nid' : List UInt8} {node : UpData} {rest : List UpData} : env.onChannel node = false →
      ReportEnv.Passes nid rest nid' → ReportEnv.Passes nid (node :: rest) nid'
  | on {nid nid' : List UInt8} {node : UpData} {rest : List UpData} : env.onChannel node = true →
    env.Joins nid node →
      ReportEnv.Passes (env.newnid node) rest nid' → ReportEnv.Passes nid (node :: rest) nid'

/-- A builder is at the end of the list, or stops at a variable with another nid or at one whose
text there is no more room for, with the nid before and behind. -/
inductive ReportEnv.Stops (filled : Prop) : List UInt8 → List UpData → List UInt8 → Prop
  | done (nid : List UInt8) : ReportEnv.Stops filled nid [] nid
  | apart {nid : List UInt8} {node : UpData} (rest : List UpData) : env.onChannel node =
    true → nid ≠ [] →
      env.newnid node ≠ nid → ReportEnv.Stops filled nid (node :: rest) nid
  | full {nid : List UInt8} {node : UpData} (rest : List UpData) : env.ready a node = true →
    env.Joins nid node →
      filled → ReportEnv.Stops filled nid (node :: rest) (env.newnid node)

/-- What the loop of a builder does. -/
structure ReportEnv.Loop (todo : List UpData) (i : ℕ) (b : ReportBuilder) (passed rest : List UpData)
    (nid : List UInt8) : Prop where
  split : todo = passed ++ rest
  passes : env.Passes b.mynid passed nid
  nodes : (reportLoop env a todo i b).2 = passed.map (env.clear a) ++ rest
  items : (reportLoop env a todo i b).1.items = b.items ++ env.readyFrom a i passed
  text : (reportLoop env a todo i b).1.sCp ≠ [] ↔ b.sCp ≠ [] ∨ env.readyFrom a i passed ≠ []
  stops : env.Stops a (b.sCp ≠ [] ∨ env.readyFrom a i passed ≠ []) nid rest
    (reportLoop env a todo i b).1.mynid
  ppnode : (reportLoop env a todo i b).1.ppnode =
    if rest = [] then none else (env.readyFrom a i passed).getLast?.or b.ppnode

variable {env a}

/-- A piece of text that may be left out. -/
theorem piece_length_le (c : Bool) {text : List UInt8} {n : ℕ} (h : text.length ≤ n) :
    (if c then text else []).length ≤ n := by
  cases c with
  | true => exact h
  | false => exact Nat.zero_le n

/-- What `sprintf` leaves in its array. -/
theorem tmp_length_le (t : Tmp) : t.1.length ≤ 49 := Nat.le_of_lt_succ t.2

/-- A comma and what `sprintf` leaves in its array. -/
theorem commaIf_length_le (before : Bool) (t : Tmp) : (commaIf before ++ t.1).length ≤ 50 := by
  have hcomma : (commaIf before).length ≤ 1 := piece_length_le before (Nat.le_refl 1)
  have := tmp_length_le t
  rw [List.length_append]
  omega

/-- The text of one variable fits an empty report. -/
theorem text_length_lt (first : Bool) (node : UpData) :
    (env.text a first node).length < reportBufSize - encodeLen := by
  have hminutes : ∀ a, (minutesDataFormatCp env a first node).length < reportBufSize - encodeLen := by
    intro a
    have hstate : (datState a).length ≤ 11 := by cases a <;> decide
    have h1 := piece_length_le first (tmp_length_le env.dataTime)
    have h2 := piece_length_le (first && env.datStateFlag) hstate
    have h3 := piece_length_le (!env.noCou) (tmp_length_le (env.cou a node))
    have h4 := piece_length_le (!env.noMin) (commaIf_length_le (!env.noCou) (env.min a node))
    have h5 :=
      piece_length_le (!env.noAvg) (commaIf_length_le (!env.noCou || !env.noMin) (env.avg a node))
    have h6 :=
      piece_length_le (!env.noMax) (commaIf_length_le (!env.noCou || !env.noMin || !env.noAvg)
      (env.max a node))
    have h7 :=
      commaIf_length_le (!env.noCou || !env.noMin || !env.noAvg || !env.noMax) (env.flag a node)
    unfold minutesDataFormatCp reportBufSize encodeLen
    split
    · rw [List.length_append, List.length_append, List.length_append, List.length_append,
        List.length_append,
        List.length_append]
      omega
    · exact Nat.zero_lt_succ _
  cases a with
  | up =>
    have h1 := piece_length_le (node.szFid.isSome && first) (tmp_length_le env.dataTime)
    have h2 := piece_length_le node.szFid.isSome (tmp_length_le (env.rtd node))
    have h3 := tmp_length_le (env.flag .up node)
    change (realDataFormatCp env first node).length < _
    unfold realDataFormatCp reportBufSize encodeLen
    rw [List.length_append, List.length_append]
    omega
  | min => exact hminutes .min
  | min5 => exact hminutes .min5
  | hour => exact hminutes .hour

/-! ### What a builder does -/

/-- A variable of another channel, or one that is disabled. -/
theorem reportLoop_off {node : UpData} (rest : List UpData) (i : ℕ) (b : ReportBuilder)
    (hoff : env.onChannel node = false) :
    reportLoop env a (node :: rest) i b =
      ((reportLoop env a rest (i + 1) b).1, node :: (reportLoop env a rest (i + 1) b).2) := by
  simp [reportLoop, hoff]

/-- Variables of the channel are enabled. -/
theorem onChannel_enabled {node : UpData} (hon : env.onChannel node = true) : node.upEnable = true := by
  unfold ReportEnv.onChannel at hon
  simp only [Bool.and_eq_true] at hon
  exact hon.1.2

/-- A variable with another nid. -/
theorem reportLoop_apart {node : UpData} (rest : List UpData) (i : ℕ) {b : ReportBuilder}
    (hon : env.onChannel node = true) (hjoins : ¬ env.Joins b.mynid node) :
    reportLoop env a (node :: rest) i b = (b, node :: rest) := by
  have hjoins : (decide (b.mynid = []) || decide (env.newnid node = b.mynid)) = false := by
    simpa [ReportEnv.Joins] using hjoins
  simp [reportLoop, hon, onChannel_enabled hon, hjoins]

/-- A variable that is not ready. -/
theorem reportLoop_pass {node : UpData} (rest : List UpData) (i : ℕ) {b : ReportBuilder}
    (hon : env.onChannel node = true) (hjoins : env.Joins b.mynid node)
    (hready : env.ready a node = false) :
    reportLoop env a (node :: rest) i b =
      ((reportLoop env a rest (i + 1) { b with mynid := env.newnid node }).1,
        node :: (reportLoop env a rest (i + 1) { b with mynid := env.newnid node }).2) := by
  unfold ReportEnv.ready at hready
  rw [hon, Bool.true_and] at hready
  have hjoins : (decide (b.mynid = []) || decide (env.newnid node = b.mynid)) = true := by
    simpa [ReportEnv.Joins] using hjoins
  simp [reportLoop, hon, onChannel_enabled hon, hjoins, hready]

/-- The builder behind a variable whose text was taken. -/
def ReportEnv.take (env : ReportEnv) (a : UpAverager) (node : UpData) (i : ℕ) (b : ReportBuilder) :
    ReportBuilder :=
  ⟨env.newnid node, b.sCp ++ env.text a b.first node ++ [59], false, some i, b.items ++ [i]⟩

/-- A ready variable whose text there is room for. -/
theorem reportLoop_take {node : UpData} (rest : List UpData) (i : ℕ) {b : ReportBuilder}
    (hready : env.ready a node = true) (hjoins : env.Joins b.mynid node)
    (hroom : b.sCp.length + (env.text a b.first node).length < reportBufSize - encodeLen) :
    reportLoop env a (node :: rest) i b =
      ((reportLoop env a rest (i + 1) (env.take a node i b)).1,
        env.reset a node :: (reportLoop env a rest (i + 1) (env.take a node i b)).2) := by
  unfold ReportEnv.ready at hready
  obtain ⟨hon, hready⟩ := Bool.and_eq_true_iff.mp hready
  have hjoins : (decide (b.mynid = []) || decide (env.newnid node = b.mynid)) = true := by
    simpa [ReportEnv.Joins] using hjoins
  simp [reportLoop, hon, onChannel_enabled hon, hjoins, hready, hroom, ReportEnv.take]

/-- A ready variable whose text there is no room for. -/
theorem reportLoop_full {node : UpData} (rest : List UpData) (i : ℕ) {b : ReportBuilder}
    (hready : env.ready a node = true) (hjoins : env.Joins b.mynid node)
    (hroom : ¬ b.sCp.length + (env.text a b.first node).length < reportBufSize - encodeLen) :
    reportLoop env a (node :: rest) i b = ({ b with mynid := env.newnid node, first := false },
      node :: rest) := by
  unfold ReportEnv.ready at hready
  obtain ⟨hon, hready⟩ := Bool.and_eq_true_iff.mp hready
  have hjoins : (decide (b.mynid = []) || decide (env.newnid node = b.mynid)) = true := by
    simpa [ReportEnv.Joins] using hjoins
  simp [reportLoop, hon, onChannel_enabled hon, hjoins, hready, hroom]

/-- Variables that are not ready are left as they are. -/
theorem clear_of_not_ready {node : UpData} (h : env.ready a node = false) :
    env.clear a node = node := by
  unfold ReportEnv.clear
  rw [h]
  rfl

/-- Variables of other channels are not ready. -/
theorem not_ready_of_off {node : UpData} (h : env.onChannel node = false) :
    env.ready a node = false := by
  unfold ReportEnv.ready
  rw [h, Bool.false_and]

/-- Variables that are ready belong to the channel. -/
theorem onChannel_of_ready {node : UpData} (h : env.ready a node = true) : env.onChannel node = true :=
  (Bool.and_eq_true_iff.mp h).1

/-- The last of some positions, or of one more before them. -/
theorem getLast?_or_cons (l : List ℕ) (i : ℕ) (p : Option ℕ) :
    (i :: l).getLast?.or p = l.getLast?.or (some i) := by
  rw [List.getLast?_cons]
  cases l.getLast? with
  | none => rfl
  | some k => rfl

/-- A variable that is not ready is passed over. -/
theorem ReportEnv.Loop.skip {node : UpData} {todo passed rest : List UpData} {i : ℕ}
    {b : ReportBuilder} {mynid nid : List UInt8}
    (h : env.Loop a todo (i + 1) { b with mynid := mynid } passed rest nid)
    (hready : env.ready a node = false)
    (hpasses : env.Passes b.mynid (node :: passed) nid)
    (hstep : reportLoop env a (node :: todo) i b =
      ((reportLoop env a todo (i + 1) { b with mynid := mynid }).1,
        node :: (reportLoop env a todo (i + 1) { b with mynid := mynid }).2)) :
    env.Loop a (node :: todo) i b (node :: passed) rest nid := by
  have hfrom : env.readyFrom a i (node :: passed) = env.readyFrom a (i + 1) passed :=
    if_neg (by simp [hready])
  refine ⟨by rw [h.split, List.cons_append], hpasses, ?_, ?_, ?_, ?_, ?_⟩
  · rw [hstep, h.nodes, List.map_cons, List.cons_append, clear_of_not_ready hready]
  · rw [hstep, h.items, hfrom]
  · rw [hstep, hfrom, h.text]
  · rw [hstep, hfrom]
    exact h.stops
  · rw [hstep, hfrom, h.ppnode]

/-- The loop stops at a variable. -/
theorem reportLoop_stop {node : UpData} {todo : List UpData} {i : ℕ} {b b' : ReportBuilder}
    (hstep : reportLoop env a (node :: todo) i b = (b', node :: todo)) (hitems : b'.items = b.items)
    (htext : b'.sCp = b.sCp)
    (hppnode : b'.ppnode = b.ppnode)
    (hstops : env.Stops a (b.sCp ≠ []) b.mynid (node :: todo) b'.mynid) :
    env.Loop a (node :: todo) i b [] (node :: todo) b.mynid := by
  refine ⟨rfl, .nil _, ?_, ?_, ?_, ?_, ?_⟩
  · rw [hstep]
    rfl
  · rw [hstep, hitems]
    exact (List.append_nil _).symm
  · rw [hstep, htext]
    simp [ReportEnv.readyFrom]
  · rw [hstep]
    simpa [ReportEnv.readyFrom] using hstops
  · rw [hstep, hppnode]
    rfl

/-- The text of a variable is taken. -/
theorem ReportEnv.Loop.take {node : UpData} {todo passed rest : List UpData} {i : ℕ}
    {b : ReportBuilder} {nid : List UInt8}
    (h : env.Loop a todo (i + 1) (env.take a node i b) passed rest nid)
    (hready : env.ready a node = true)
    (hjoins : env.Joins b.mynid node)
    (hroom : b.sCp.length + (env.text a b.first node).length < reportBufSize - encodeLen) :
    env.Loop a (node :: todo) i b (node :: passed) rest nid := by
  have hstep := reportLoop_take todo i hready hjoins hroom
  have hfrom : env.readyFrom a i (node :: passed) = i :: env.readyFrom a (i + 1) passed := if_pos hready
  have hne : (env.take a node i b).sCp ≠ [] := by simp [ReportEnv.take]
  refine ⟨by rw [h.split, List.cons_append], .on (onChannel_of_ready hready) hjoins h.passes, ?_,
    ?_, ?_, ?_, ?_⟩
  · rw [hstep, h.nodes, List.map_cons, List.cons_append, ReportEnv.clear, if_pos hready]
  · rw [hstep, h.items, hfrom]
    change b.items ++ [i] ++ _ = _
    rw [List.append_assoc, List.singleton_append]
  · rw [hstep, hfrom, h.text]
    simp [hne]
  · rw [hstep, hfrom]
    have hstops := h.stops
    simpa [hne] using hstops
  · rw [hstep, hfrom, h.ppnode, getLast?_or_cons]
    rfl

/-- The loop of a builder gets past some variables and takes the ready ones, and stops behind them. -/
theorem reportLoop_spec (env : ReportEnv) (a : UpAverager) (todo : List UpData) (i : ℕ)
    (b : ReportBuilder) :
    ∃ passed rest nid, env.Loop a todo i b passed rest nid := by
  induction todo generalizing i b with
  | nil => exact ⟨[], [], b.mynid, rfl, .nil _, rfl,
    (List.append_nil _).symm, by simp [reportLoop, ReportEnv.readyFrom],
      .done _, rfl⟩
  | cons node todo ih =>
    by_cases hon : env.onChannel node = true
    · by_cases hjoins : env.Joins b.mynid node
      · by_cases hready : env.ready a node = true
        · by_cases hroom : b.sCp.length + (env.text a b.first node).length < reportBufSize - encodeLen
          · obtain ⟨passed, rest, nid, h⟩ := ih (i + 1) (env.take a node i b)
            exact ⟨node :: passed, rest, nid, h.take hready hjoins hroom⟩
          · -- there is no room for it, so that something was taken before
            have hfilled : b.sCp ≠ [] := by
              intro hnil
              refine hroom ?_
              rw [hnil, List.length_nil, Nat.zero_add]
              exact text_length_lt b.first node
            exact ⟨[], node :: todo, b.mynid,
              reportLoop_stop (reportLoop_full todo i hready hjoins hroom) rfl rfl rfl
              (.full todo hready hjoins hfilled)⟩
        · rw [Bool.not_eq_true] at hready
          obtain ⟨passed, rest, nid, h⟩ := ih (i + 1) { b with mynid := env.newnid node }
          exact ⟨node :: passed, rest, nid,
            h.skip hready (.on hon hjoins h.passes) (reportLoop_pass todo i hon hjoins hready)⟩
      · obtain ⟨hne, hnid⟩ := not_or.mp hjoins
        exact ⟨[], node :: todo, b.mynid,
          reportLoop_stop (reportLoop_apart todo i hon hjoins) rfl rfl rfl
          (.apart todo hon hne hnid)⟩
    · rw [Bool.not_eq_true] at hon
      obtain ⟨passed, rest, nid, h⟩ := ih (i + 1) b
      exact ⟨node :: passed, rest, nid,
        h.skip (not_ready_of_off hon) (.off hon h.passes) (reportLoop_off todo i b hon)⟩

/-! ### The positions of ready variables -/

/-- The ready variables of two parts. -/
theorem readyFrom_append (i : ℕ) (left right : List UpData) :
    env.readyFrom a i (left ++ right) = env.readyFrom a i left ++
      env.readyFrom a (i + left.length) right := by
  induction left generalizing i with
  | nil => rfl
  | cons node left ih =>
    have hplace : i + (node :: left).length = i + 1 + left.length := by
      rw [List.length_cons]
      omega
    rw [List.cons_append, ReportEnv.readyFrom, ReportEnv.readyFrom, ih, hplace]
    split
    · rfl
    · rfl

/-- A position is one of a ready variable. -/
theorem mem_readyFrom_iff {i k : ℕ} {nodes : List UpData} :
    k ∈ env.readyFrom a i nodes ↔
      ∃ left node right, nodes = left ++ node :: right ∧ k = i + left.length ∧
        env.ready a node = true := by
  induction nodes generalizing i with
  | nil => simp [ReportEnv.readyFrom]
  | cons first nodes ih =>
    have hrest : k ∈ env.readyFrom a (i + 1) nodes ↔ ∃ left node right,
        first :: nodes = (first :: left) ++ node :: right ∧ k = i + (first :: left).length ∧
        env.ready a node = true := by
      rw [ih]
      refine exists_congr fun left => exists_congr fun node => exists_congr fun right => ?_
      rw [List.cons_append, List.cons_inj_right, List.length_cons, Nat.add_assoc, Nat.add_comm 1]
    rw [ReportEnv.readyFrom]
    constructor
    · intro h
      by_cases hready : env.ready a first = true
      · rw [if_pos hready] at h
        rcases List.mem_cons.mp h with rfl | h
        · exact ⟨[], first, nodes, rfl, rfl, hready⟩
        · obtain ⟨left, node, right, hsplit⟩ := hrest.mp h
          exact ⟨first :: left, node, right, hsplit⟩
      · rw [if_neg hready] at h
        obtain ⟨left, node, right, hsplit⟩ := hrest.mp h
        exact ⟨first :: left, node, right, hsplit⟩
    · rintro ⟨left, node, right, hsplit, hk, hready⟩
      cases left with
      | nil =>
        obtain ⟨rfl, rfl⟩ := List.cons_eq_cons.mp hsplit
        rw [if_pos hready, hk]
        exact List.mem_cons_self
      | cons c left =>
        obtain ⟨rfl, hsplit⟩ := List.cons_eq_cons.mp hsplit
        have hmem := hrest.mpr ⟨left, node, right, by rw [hsplit], hk, hready⟩
        split
        · exact List.mem_cons_of_mem _ hmem
        · exact hmem

/-- No variable is ready. -/
theorem readyFrom_eq_nil_iff {i : ℕ} {nodes : List UpData} :
    env.readyFrom a i nodes = [] ↔ ∀ node ∈ nodes, env.ready a node = false := by
  constructor
  · intro h node hnode
    by_contra hready
    rw [Bool.not_eq_false] at hready
    obtain ⟨left, right, rfl⟩ := List.append_of_mem hnode
    have hmem : i + left.length ∈ env.readyFrom a i (left ++ node :: right) :=
      mem_readyFrom_iff.mpr ⟨left, node, right, rfl, rfl, hready⟩
    rw [h] at hmem
    exact List.not_mem_nil hmem
  · intro h
    refine List.eq_nil_iff_forall_not_mem.mpr fun k hk => ?_
    obtain ⟨left, node, right, rfl, -, hready⟩ := mem_readyFrom_iff.mp hk
    rw [h node (by simp)] at hready
    exact Bool.noConfusion hready

/-- Then they stay as they are. -/
theorem map_clear_of_readyFrom {i : ℕ} {nodes : List UpData} (h : env.readyFrom a i nodes = []) :
    nodes.map (env.clear a) = nodes :=
  (List.map_congr_left fun node hnode =>
    clear_of_not_ready (readyFrom_eq_nil_iff.mp h node hnode)).trans (List.map_id _)

/-- The last ready variable. -/
theorem exists_last_ready {i : ℕ} {nodes : List UpData} (h : env.readyFrom a i nodes ≠ []) :
    ∃ left node right, nodes = left ++ node :: right ∧ env.ready a node = true ∧
      (∀ i, env.readyFrom a i right = []) ∧
        (env.readyFrom a i nodes).getLast? = some (i + left.length) := by
  induction nodes using List.reverseRecOn with
  | nil => exact absurd rfl h
  | append_singleton nodes node ih =>
    by_cases hready : env.ready a node = true
    · refine ⟨nodes, node, [], rfl, hready, fun _ => rfl, ?_⟩
      rw [readyFrom_append, ReportEnv.readyFrom, if_pos hready, List.getLast?_append]
      rfl
    · have hone : ∀ k, env.readyFrom a k [node] = [] := fun k => if_neg hready
      rw [readyFrom_append, hone, List.append_nil] at h ⊢
      obtain ⟨left, u, right, rfl, hu, hright, hlast⟩ := ih h
      refine ⟨left, u, right ++ [node], by simp, hu, fun k => ?_, hlast⟩
      rw [readyFrom_append, hright, hone, List.append_nil]

/-- Positions increase. -/
theorem readyFrom_pairwise (i : ℕ) (nodes : List UpData) :
    (env.readyFrom a i nodes).Pairwise (· < ·) ∧ ∀ k ∈ env.readyFrom a i nodes, i ≤ k := by
  induction nodes generalizing i with
  | nil => exact ⟨.nil, fun k hk => absurd hk List.not_mem_nil⟩
  | cons node nodes ih =>
    obtain ⟨hpairwise, hle⟩ := ih (i + 1)
    rw [ReportEnv.readyFrom]
    split
    · refine ⟨.cons hle hpairwise, fun k hk => ?_⟩
      rcases List.mem_cons.mp hk with rfl | hk
      · exact Nat.le_refl k
      · exact Nat.le_of_succ_le (hle k hk)
    · exact ⟨hpairwise, fun k hk => Nat.le_of_succ_le (hle k hk)⟩

/-! ### Nids on the way -/

/-- The variables are got past part by part. -/
theorem ReportEnv.Passes.split {left right : List UpData} {nid nid' : List UInt8}
    (h : env.Passes nid (left ++ right) nid') : ∃ mid, env.Passes nid left mid ∧
    env.Passes mid right nid' := by
  induction left generalizing nid with
  | nil => exact ⟨nid, .nil nid, h⟩
  | cons node left ih =>
    cases h with
    | off hoff hrest =>
      obtain ⟨mid, hleft, hright⟩ := ih hrest
      exact ⟨mid, .off hoff hleft, hright⟩
    | on hon hjoins hrest =>
      obtain ⟨mid, hleft, hright⟩ := ih hrest
      exact ⟨mid, .on hon hjoins hleft, hright⟩

/-- Under a nid only variables with this nid are got past. -/
theorem ReportEnv.Passes.fixed {nodes : List UpData} {nid nid' : List UInt8}
    (h : env.Passes nid nodes nid')
    (hne : nid ≠ []) : nid' = nid ∧ ∀ node ∈ nodes, env.onChannel node = true →
    env.newnid node = nid := by
  induction h with
  | nil => exact ⟨rfl, fun node hnode => absurd hnode List.not_mem_nil⟩
  | off hoff _ ih =>
    obtain ⟨hsame, hall⟩ := ih hne
    refine ⟨hsame, fun node hnode hon => ?_⟩
    rcases List.mem_cons.mp hnode with rfl | hnode
    · rw [hoff] at hon
      exact Bool.noConfusion hon
    · exact hall node hnode hon
  | on _ hjoins _ ih =>
    have hnid := hjoins.resolve_left hne
    rw [hnid] at ih
    obtain ⟨hsame, hall⟩ := ih hne
    refine ⟨hsame, fun node hnode hon => ?_⟩
    rcases List.mem_cons.mp hnode with rfl | hnode
    · exact hnid
    · exact hall node hnode hon

/-- The nid behind the variables is that of the last one of the channel. -/
theorem ReportEnv.Passes.last {nodes : List UpData} {nid nid' : List UInt8}
    (h : env.Passes nid nodes nid') :
    nid' = nid ∧ (∀ node ∈ nodes, env.onChannel node = false) ∨
      ∃ left node right, nodes = left ++ node :: right ∧ env.onChannel node = true ∧
        env.newnid node = nid' ∧
        ∀ v ∈ right, env.onChannel v = false := by
  induction h with
  | nil => exact .inl ⟨rfl, fun node hnode => absurd hnode List.not_mem_nil⟩
  | @off _ _ first rest hoff _ ih =>
    rcases ih with ⟨hsame, hall⟩ | ⟨left, node, right, rfl, hlast⟩
    · exact .inl ⟨hsame, List.forall_mem_cons.mpr ⟨hoff, hall⟩⟩
    · exact .inr ⟨first :: left, node, right, rfl, hlast⟩
  | @on _ _ first rest hon _ _ ih =>
    rcases ih with ⟨hsame, hall⟩ | ⟨left, node, right, rfl, hlast⟩
    · exact .inr ⟨[], first, rest, rfl, hon, hsame.symm, hall⟩
    · exact .inr ⟨first :: left, node, right, rfl, hlast⟩

/-- Behind a variable of the channel its nid is the one of the report. -/
theorem ReportEnv.Passes.behind {left right : List UpData} {node : UpData} {nid nid' : List UInt8}
    (h : env.Passes nid (left ++ node :: right) nid') (hon : env.onChannel node = true) :
    env.Passes (env.newnid node) right nid' := by
  obtain ⟨mid, -, hright⟩ := h.split
  cases hright with
  | off hoff _ =>
    rw [hoff] at hon
    exact Bool.noConfusion hon
  | on _ _ hrest => exact hrest

/-- Without a nid in the beginning and on the way, there is none in the end. -/
theorem ReportEnv.Passes.to_nil {nodes : List UpData} {nid' : List UInt8} (h : env.Passes [] nodes nid')
    (hall : ∀ node ∈ nodes, env.onChannel node = true → env.newnid node = []) : nid' = [] := by
  rcases h.last with ⟨hsame, -⟩ | ⟨left, node, right, rfl, hon, hnid, -⟩
  · exact hsame
  · rw [← hnid]
    exact hall node (by simp) hon

/-! ### Calls of a builder -/

variable (env a) in
/-- The work task while it calls a builder: the ready variables up to the resume pointer have been
reported and reset, those behind it are as they were. -/
structure ReportEnv.Along (before after : List UpData) (s : DrainState) : Prop where
  place : behindNode s.node = before.length
  nodes : s.nodes = before.map (env.clear a) ++ after
  items : s.reports.flatMap Hjt212Report.items = env.readyFrom a 0 before

/-- A call takes the ready variables that its loop gets past, resets them and sends one report about
them. -/
theorem call_eq {before after : List UpData} {s : DrainState} (h : env.Along a before after s) :
    ∃ passed rest nid mynid sCp, after = passed ++ rest ∧ env.Passes [] passed nid ∧
      env.Stops a (env.readyFrom a before.length passed ≠ []) nid rest mynid ∧
      s.call env a = ⟨before.map (env.clear a) ++ (passed.map (env.clear a) ++ rest),
        if rest = [] then none else (env.readyFrom a before.length passed).getLast?.or s.node,
        s.reports ++ if env.readyFrom a before.length passed = [] then []
          else [⟨mynid, sCp, env.readyFrom a before.length passed⟩]⟩ := by
  have hlength : (before.map (env.clear a)).length = before.length := List.length_map _
  have hdrop : s.nodes.drop (behindNode s.node) = after := by
    rw [h.nodes, h.place, ← hlength, List.drop_left]
  have htake : s.nodes.take (behindNode s.node) = before.map (env.clear a) := by
    rw [h.nodes, h.place, ← hlength, List.take_left]
  obtain ⟨passed, rest, nid, hloop⟩ :=
    reportLoop_spec env a after before.length ⟨[], [], true, s.node, []⟩
  obtain ⟨r, hr⟩ : ∃ r, r = reportLoop env a after before.length ⟨[], [], true, s.node, []⟩ := ⟨_, rfl⟩
  obtain ⟨hsplit, hpasses, hnodes, hitems, htext, hstops, hppnode⟩ := hloop
  rw [← hr] at hnodes hitems htext hstops hppnode
  simp only [ne_eq, not_true_eq_false, false_or, List.nil_append] at hitems htext hstops
  have hsent : (if 0 < r.1.sCp.length
    then some (Hjt212Report.mk r.1.mynid r.1.sCp.dropLast r.1.items) else none).toList =
      if env.readyFrom a before.length passed = [] then []
      else [⟨r.1.mynid, r.1.sCp.dropLast, env.readyFrom a before.length passed⟩] := by
    by_cases hnone : env.readyFrom a before.length passed = []
    · rw [if_pos hnone, if_neg fun hpos => htext.mp (List.length_pos_iff.mp hpos) hnone]
      rfl
    · rw [if_neg hnone, if_pos (List.length_pos_iff.mpr (htext.mpr hnone)), hitems]
      rfl
  refine ⟨passed, rest, nid, r.1.mynid, r.1.sCp.dropLast, hsplit, hpasses, hstops, ?_⟩
  unfold DrainState.call
  rw [builder_eq]
  unfold hjt212Report
  rw [hdrop, htake, h.place, ← hr]
  dsimp only
  rw [hsent, hnodes, hppnode]

/-- What a call does: it reaches the end of the list, or it stops without having taken a variable
and nothing changes, or it stops behind a last variable that it took. -/
theorem call_spec {before after : List UpData} {s : DrainState} (h : env.Along a before after s) :
    ∃ passed rest nid mynid, after = passed ++ rest ∧ env.Passes [] passed nid ∧
      env.Stops a (env.readyFrom a before.length passed ≠ []) nid rest mynid ∧
      (∀ r ∈ (s.call env a).reports, r ∈ s.reports ∨
        r.mynid = mynid ∧ r.items = env.readyFrom a before.length passed) ∧
      (rest = [] ∧ (s.call env a).node = none ∧
      (s.call env a).nodes = (before ++ after).map (env.clear a) ∧
          (s.call env a).reports.flatMap Hjt212Report.items = env.readyFrom a 0 (before ++ after) ∨
        rest ≠ [] ∧ env.readyFrom a before.length passed = [] ∧ s.call env a = s ∨
        rest ≠ [] ∧ (s.call env a).node ≠ none ∧ ∃ left node right, passed = left ++ node :: right ∧
          env.ready a node = true ∧
          env.Along a (before ++ left ++ [node]) (right ++ rest) (s.call env a)) := by
  obtain ⟨passed, rest, nid, mynid, sCp, hsplit, hpasses, hstops, hcall⟩ := call_eq h
  have hreports : (s.call env a).reports.flatMap Hjt212Report.items =
      env.readyFrom a 0 before ++ env.readyFrom a before.length passed := by
    rw [hcall, List.flatMap_append, h.items]
    split
    · next hnone => rw [hnone]; rfl
    · rw [List.flatMap_singleton]
  refine ⟨passed, rest, nid, mynid, hsplit, hpasses, hstops, fun report hreport => ?_, ?_⟩
  · rw [hcall, List.mem_append] at hreport
    refine hreport.imp_right fun hnew => ?_
    split at hnew
    · exact absurd hnew List.not_mem_nil
    · rw [List.mem_singleton.mp hnew]
      exact ⟨rfl, rfl⟩
  by_cases hrest : rest = []
  · -- the end of the list
    left
    refine ⟨hrest, ?_, ?_, ?_⟩
    · rw [hcall]
      exact if_pos hrest
    · rw [hcall, hsplit, hrest, List.append_nil, List.append_nil, List.map_append]
    · rw [hreports, hsplit, hrest, List.append_nil, readyFrom_append, Nat.zero_add]
  rw [if_neg hrest] at hcall
  right
  by_cases hnone : env.readyFrom a before.length passed = []
  · -- nothing was taken
    refine .inl ⟨hrest, hnone, ?_⟩
    rw [hcall, if_pos hnone, List.append_nil, map_clear_of_readyFrom hnone, ← hsplit, ← h.nodes, hnone]
    rfl
  · -- the last variable that was taken
    obtain ⟨left, node, right, rfl, hready, hright, hlast⟩ := exists_last_ready hnone
    refine .inr ⟨hrest, ?_, left, node, right, rfl, hready, ?_, ?_, ?_⟩
    · rw [hcall, hlast]
      exact Option.some_ne_none _
    · rw [hcall, hlast, List.length_append, List.length_append, List.length_singleton]
      rfl
    · rw [hcall]
      dsimp only
      rw [List.map_append, List.map_append, List.map_append, List.map_cons,
        map_clear_of_readyFrom (hright 0)]
      simp
    · rw [hreports, readyFrom_append, readyFrom_append, readyFrom_append, Nat.zero_add,
        ReportEnv.readyFrom, if_pos hready,
        hright, List.length_append, ReportEnv.readyFrom, if_pos hready, Nat.zero_add, List.append_assoc]
      rfl

variable (env a)

/-- What became of a variable: one that was ready has a text of its own in exactly one report, under
its nid, and is reset; another one is in no report and is as it was. -/
def ReportEnv.Settled (s : DrainState) (i : ℕ) (node : UpData) : Prop :=
  if env.ready a node then
    node.szFid ≠ none ∧ (s.reports.flatMap Hjt212Report.items).count i = 1 ∧
      (∀ r ∈ s.reports, i ∈ r.items → r.mynid = env.newnid node) ∧ s.nodes[i]? = some (env.reset a node)
  else i ∉ s.reports.flatMap Hjt212Report.items ∧ s.nodes[i]? = some node

/-- The loop that calls a builder ends, and every variable is settled then. -/
def ReportEnv.DrainsAll (nodes : List UpData) : Prop :=
  ∃ fuel s, drain env a fuel ⟨nodes, none, []⟩ = some s ∧
    s.nodes.length = nodes.length ∧ ∀ i (hi : i < nodes.length), env.Settled a s i nodes[i]

/-- The order of the channel's variables in which a drain loses nothing and ends: where the nid
changes, the variable before the change is ready, and behind a ready variable without a nid there
are none with one. -/
structure ReportEnv.InOrder (nodes : List UpData) : Prop where
  changes : (nodes.filter env.onChannel).IsChain fun u v =>
    env.newnid u ≠ [] → env.newnid v ≠ env.newnid u → env.ready a u = true
  unnamed : (nodes.filter env.onChannel).Pairwise fun u v =>
    env.ready a u = true → env.newnid u = [] → env.newnid v = []
  named : ∀ node ∈ nodes, env.ready a node = true → node.szFid ≠ none

variable {env a}

/-! ### Runs of the loop -/

/-- Neighbours of a list that only some elements count for. -/
theorem isChain_filter_iff {α : Type*} {R : α → α → Prop} {p : α → Bool} {l : List α} :
    (l.filter p).IsChain R ↔ ∀ left u mid v right, l = left ++ u :: (mid ++ v :: right) →
      p u = true → p v = true →
      (∀ w ∈ mid, p w = false) → R u v := by
  rw [List.isChain_iff_forall_rel_of_append_cons_cons]
  constructor
  · rintro h left u mid v right rfl hu hv hmid
    have hnone : mid.filter p = [] := List.filter_eq_nil_iff.mpr fun w hw => by simp [hmid w hw]
    have hsplit : (left ++ u :: (mid ++ v :: right)).filter p = left.filter p ++ u :: v ::
        right.filter p := by
      rw [List.filter_append, List.filter_cons_of_pos hu, List.filter_append, hnone, List.nil_append,
        List.filter_cons_of_pos hv]
    exact h hsplit
  · intro h u v l₁ l₂ hfilter
    obtain ⟨left, rest, rfl, -, hrest⟩ := List.filter_eq_append_iff.mp hfilter
    obtain ⟨skip, rest, rfl, -, hu, hrest⟩ := List.filter_eq_cons_iff.mp hrest
    obtain ⟨mid, right, rfl, hmid, hv, -⟩ := List.filter_eq_cons_iff.mp hrest
    exact h (left ++ skip) u mid v right (by simp) hu hv fun w hw => by simpa using hmid w hw

/-- The ready positions of a whole list. -/
theorem mem_readyFrom_zero_iff {nodes : List UpData} {i : ℕ} :
    i ∈ env.readyFrom a 0 nodes ↔ ∃ hi : i < nodes.length, env.ready a nodes[i] = true := by
  rw [mem_readyFrom_iff]
  constructor
  · rintro ⟨left, node, right, rfl, rfl, hready⟩
    refine ⟨by simp, ?_⟩
    simpa using hready
  · rintro ⟨hi, hready⟩
    refine ⟨nodes.take i, nodes[i], nodes.drop (i + 1), ?_, ?_, hready⟩
    · rw [List.getElem_cons_drop, List.take_append_drop]
    · rw [List.length_take, Nat.zero_add]
      omega

variable (env) in
/-- The reports that were sent have the nids of their variables. -/
def ReportEnv.Own (nodes : List UpData) (s : DrainState) : Prop :=
  ∀ r ∈ s.reports, ∀ i (hi : i < nodes.length), i ∈ r.items → r.mynid = env.newnid nodes[i]

/-- When all ready variables were reported under their nids and reset, every variable is settled. -/
theorem settled_of_cleared {nodes : List UpData} {s : DrainState}
    (hnodes : s.nodes = nodes.map (env.clear a))
    (hitems : s.reports.flatMap Hjt212Report.items = env.readyFrom a 0 nodes) (hown : env.Own nodes s)
    (hnamed : ∀ node ∈ nodes, env.ready a node = true → node.szFid ≠ none) :
    s.nodes.length = nodes.length ∧ ∀ i (hi : i < nodes.length), env.Settled a s i nodes[i] := by
  refine ⟨by rw [hnodes, List.length_map], fun i hi => ?_⟩
  have hget : s.nodes[i]? = some (env.clear a nodes[i]) := by
    rw [hnodes, List.getElem?_map, List.getElem?_eq_getElem hi]
    rfl
  unfold ReportEnv.Settled
  rw [hitems, hget]
  unfold ReportEnv.clear
  by_cases hready : env.ready a nodes[i] = true
  · rw [if_pos hready, if_pos hready]
    refine ⟨hnamed _ (List.getElem_mem hi) hready, ?_, fun r hr hmem => hown r hr i hi hmem, rfl⟩
    have hnodup : (env.readyFrom a 0 nodes).Nodup := (readyFrom_pairwise 0 nodes).1.imp Nat.ne_of_lt
    exact hnodup.count.trans (if_pos (mem_readyFrom_zero_iff.mpr ⟨hi, hready⟩))
  · rw [if_neg hready, if_neg hready]
    exact ⟨fun hmem => hready (mem_readyFrom_zero_iff.mp hmem).2, rfl⟩

/-- In order, a call does not stop without having taken a variable. -/
theorem stops_taking {before passed rest : List UpData} {nid mynid : List UInt8}
    (hpasses : env.Passes [] passed nid)
    (hstops : env.Stops a (env.readyFrom a before.length passed ≠ []) nid rest mynid)
    (hrest : rest ≠ []) (h : env.InOrder a (before ++ (passed ++ rest))) :
    env.readyFrom a before.length passed ≠ [] := by
  intro hnone
  cases hstops with
  | done => exact hrest rfl
  | full _ _ _ hfilled => exact hfilled hnone
  | @apart v rest hv hne hnid =>
    rcases hpasses.last with ⟨hsame, -⟩ | ⟨left, u, mid, rfl, hu, hunid, hmid⟩
    · exact hne hsame
    · have hchanges :=
        isChain_filter_iff.mp h.changes (before ++ left) u mid v rest (by simp) hu hv hmid
      have hready := hchanges (hunid ▸ hne) (hunid ▸ hnid)
      have hnot := readyFrom_eq_nil_iff.mp hnone u (by simp)
      rw [hready] at hnot
      exact Bool.noConfusion hnot

/-- In order, the nid of a report is the one of each of its variables. -/
theorem stops_nid {before left right rest : List UpData} {u : UpData} {nid mynid : List UInt8}
    {filled : Prop}
    (hpasses : env.Passes [] (left ++ u :: right) nid) (hstops : env.Stops a filled nid rest mynid)
    (hready : env.ready a u = true) (h : env.InOrder a (before ++ (left ++ u :: right ++ rest))) :
    mynid = env.newnid u := by
  have hon := onChannel_of_ready hready
  have hbehind := hpasses.behind hon
  by_cases hempty : env.newnid u = []
  · -- no variable behind this one has a nid
    have hunnamed : ∀ v ∈ right ++ rest, env.onChannel v = true → env.newnid v = [] := by
      have hpairwise := List.pairwise_filter.mp h.unnamed
      rw [List.append_assoc, ← List.append_assoc before, List.cons_append] at hpairwise
      have htail := (List.pairwise_cons.mp (List.pairwise_append.mp hpairwise).2.1).1
      exact fun v hv hvon => htail v hv hon hvon hready hempty
    rw [hempty] at hbehind ⊢
    have hnid := hbehind.to_nil fun v hv => hunnamed v (List.mem_append_left _ hv)
    cases hstops with
    | done => exact hnid
    | apart => exact hnid
    | full _ hvready =>
      exact hunnamed _ (List.mem_append_right _ List.mem_cons_self) (onChannel_of_ready hvready)
  · have hnid := (hbehind.fixed hempty).1
    cases hstops with
    | done => exact hnid
    | apart => exact hnid
    | full _ _ hjoins => exact (hjoins.resolve_left (hnid ▸ hempty)).trans hnid

/-- A call that sends a report under the nid of its variables keeps the nids right. -/
theorem own_call {before passed rest : List UpData} {nid mynid : List UInt8} {s : DrainState}
    (h : env.InOrder a (before ++ (passed ++ rest))) (hown : env.Own (before ++ (passed ++ rest)) s)
    (hpasses : env.Passes [] passed nid)
    (hstops : env.Stops a (env.readyFrom a before.length passed ≠ []) nid rest mynid)
    (hreports : ∀ r ∈ (s.call env a).reports, r ∈ s.reports ∨
      r.mynid = mynid ∧ r.items = env.readyFrom a before.length passed) :
    env.Own (before ++ (passed ++ rest)) (s.call env a) := by
  intro r hr i hi hmem
  rcases hreports r hr with hold | ⟨hmynid, hitems⟩
  · exact hown r hold i hi hmem
  · rw [hitems] at hmem
    obtain ⟨left, u, right, rfl, rfl, hready⟩ := mem_readyFrom_iff.mp hmem
    rw [hmynid, stops_nid hpasses hstops hready h]
    simp

/-- In order, the loop ends and everything is settled. -/
theorem drains_from {before after : List UpData} {s : DrainState} (h : env.InOrder a (before ++ after))
    (halong : env.Along a before after s) (hown : env.Own (before ++ after) s) :
    ∃ fuel s', drain env a fuel s = some s' ∧ s'.nodes = (before ++ after).map (env.clear a) ∧
      s'.reports.flatMap Hjt212Report.items = env.readyFrom a 0 (before ++ after) ∧
      env.Own (before ++ after) s' := by
  induction hn : after.length using Nat.strongRecOn generalizing before after s with
  | _ n ih =>
    obtain ⟨passed, rest, nid, mynid, rfl, hpasses, hstops, hreports, hcases⟩ := call_spec halong
    have hown' := own_call h hown hpasses hstops hreports
    rcases hcases with ⟨-, hnode, hnodes, hitems⟩ | ⟨hrest, hnone, -⟩ | ⟨hrest, hnode, left, u,
      right, rfl, hready, halong'⟩
    · exact ⟨1, s.call env a, if_pos hnode, hnodes, hitems, hown'⟩
    · exact absurd hnone (stops_taking hpasses hstops hrest h)
    · have hsame : before ++ (left ++ u :: right ++ rest) = before ++ left ++ [u] ++
        (right ++ rest) := by simp
      rw [hsame] at h hown' ⊢
      obtain ⟨fuel, s', hdrain, hfinal⟩ :=
        ih (right ++ rest).length (by rw [← hn]; simp; omega) h halong' hown' rfl
      exact ⟨fuel + 1, s', (if_neg hnode).trans hdrain, hfinal⟩

/-- Before the loop nothing was reported. -/
theorem along_start (nodes : List UpData) : env.Along a [] nodes ⟨nodes, none, []⟩ := ⟨rfl, rfl, rfl⟩

/-- In order, the loop ends and every variable is settled. -/
theorem ReportEnv.InOrder.drainsAll {nodes : List UpData} (h : env.InOrder a nodes) :
    env.DrainsAll a nodes := by
  obtain ⟨fuel, s, hdrain, hnodes, hitems, hown⟩ := drains_from h (along_start nodes)
    (fun r hr => absurd hr List.not_mem_nil)
  exact ⟨fuel, s, hdrain, settled_of_cleared hnodes hitems hown h.named⟩

/-- Without ready variables the first call ends the loop. -/
theorem drainsAll_of_not_ready {nodes : List UpData} (h : ∀ node ∈ nodes, env.ready a node = false) :
    env.DrainsAll a nodes := by
  have hnone : ∀ i, env.readyFrom a i nodes = [] := fun i => readyFrom_eq_nil_iff.mpr h
  have hcall : (DrainState.call env a ⟨nodes, none, []⟩).node = none ∧
      (DrainState.call env a ⟨nodes, none, []⟩).nodes = nodes.map (env.clear a) ∧
      (DrainState.call env a ⟨nodes, none, []⟩).reports.flatMap Hjt212Report.items =
      env.readyFrom a 0 nodes := by
    obtain ⟨passed, rest, nid, mynid, hsplit, -, -, -, hcases⟩ := call_spec (@along_start env a nodes)
    rcases hcases with ⟨-, hends⟩ | ⟨-, -, hsame⟩ | ⟨-, -, left, u, right, rfl, hready, -⟩
    · exact hends
    · rw [hsame, map_clear_of_readyFrom (hnone 0), hnone]
      exact ⟨rfl, rfl, rfl⟩
    · rw [h u (by rw [hsplit]; simp)] at hready
      exact Bool.noConfusion hready
  obtain ⟨hnode, hnodes, hitems⟩ := hcall
  refine ⟨1, _, if_pos hnode, settled_of_cleared hnodes hitems ?_ fun node hnode hready => ?_⟩
  · intro r hr i _ hmem
    have hall : i ∈ env.readyFrom a 0 nodes := hitems ▸ List.mem_flatMap.mpr ⟨r, hr, hmem⟩
    rw [hnone] at hall
    exact absurd hall List.not_mem_nil
  · rw [h node hnode] at hready
    exact Bool.noConfusion hready

/-! ### Runs out of order -/

/-- What each call keeps as long as the loop goes on, and what holds of the call that ends it. -/
theorem drain_induct {nodes : List UpData} {P : List UpData → DrainState → Prop} {Q : DrainState → Prop}
    (hstep : ∀ before after s, nodes = before ++ after → env.Along a before after s → P before s →
      ((s.call env a).node = none → Q (s.call env a)) ∧
      ((s.call env a).node ≠ none → ∃ before' after', nodes = before' ++ after' ∧
        env.Along a before' after' (s.call env a) ∧ P before' (s.call env a)))
    {before after : List UpData} {s s' : DrainState} {fuel : ℕ} (hnodes : nodes = before ++ after)
    (halong : env.Along a before after s) (hP : P before s)
    (hdrain : drain env a fuel s = some s') : Q s' := by
  induction fuel generalizing before after s with
  | zero => cases hdrain
  | succ fuel ih =>
    rw [drain] at hdrain
    obtain ⟨hends, hgoes⟩ := hstep before after s hnodes halong hP
    by_cases hnode : (s.call env a).node = none
    · rw [if_pos hnode] at hdrain
      cases hdrain
      exact hends hnode
    · rw [if_neg hnode] at hdrain
      obtain ⟨before', after', hnodes', halong', hP'⟩ := hgoes hnode
      exact ih hnodes' halong' hP' hdrain

/-- A builder does not get past a change of the nid. -/
theorem passes_before_change {pre mid right passed rest : List UpData} {u v : UpData} {nid : List UInt8}
    (hsplit : pre ++ u :: (mid ++ v :: right) = passed ++ rest) (hpasses : env.Passes [] passed nid)
    (hu : env.onChannel u = true) (hv : env.onChannel v = true) (hne : env.newnid u ≠ [])
    (hchange : env.newnid v ≠ env.newnid u) : passed <+: pre ++ u :: mid := by
  have hwhole : pre ++ u :: mid ++ v :: right = passed ++ rest := by
    rw [← hsplit]
    simp
  rcases List.append_eq_append_iff.mp hwhole with ⟨more, rfl, hmore⟩ | ⟨more, hmore, -⟩
  · cases more with
    | nil => exact ⟨[], (List.append_nil _).trans (List.append_nil _)⟩
    | cons c more =>
      obtain ⟨rfl, -⟩ := List.cons_eq_cons.mp hmore
      rw [List.append_assoc, List.cons_append] at hpasses
      have hnid := ((hpasses.behind hu).fixed hne).2 v (by simp) hv
      exact absurd hnid hchange
  · exact ⟨more, hmore.symm⟩

/-- Before a change of the nid at a variable that is not ready, the loop does not get on: when it
ends, nothing has been reported. -/
theorem drain_before_change {left mid right : List UpData} {u v : UpData} (hu : env.onChannel u = true)
    (hv : env.onChannel v = true) (hmid : ∀ w ∈ mid, env.onChannel w = false) (hne : env.newnid u ≠ [])
    (hchange : env.newnid v ≠ env.newnid u) (hready : env.ready a u = false) {fuel : ℕ} {s : DrainState}
    (hdrain : drain env a fuel ⟨left ++ u :: (mid ++ v :: right), none, []⟩ = some s) :
    s.reports.flatMap Hjt212Report.items = [] := by
  refine drain_induct (P := fun before _ => before <+: left)
    (Q := fun s => s.reports.flatMap Hjt212Report.items = []) ?_ (List.nil_append _).symm
      (along_start _) List.nil_prefix hdrain
  rintro before after s hnodes halong ⟨pre, rfl⟩
  have hafter : pre ++ u :: (mid ++ v :: right) = after :=
    List.append_cancel_left ((List.append_assoc before pre _).symm.trans hnodes)
  obtain ⟨passed, rest, nid, mynid, rfl, hpasses, -, -, hcases⟩ := call_spec halong
  have hprefix := passes_before_change hafter hpasses hu hv hne hchange
  rcases hcases with ⟨hrest, -⟩ | ⟨-, hnone, hsame⟩ | ⟨-, hnode, first, w, more, rfl, hw, halong'⟩
  · -- the end is not reached
    have hlength := hprefix.length_le
    have hall := congrArg List.length hafter
    rw [hrest] at hall
    simp only [List.length_append, List.length_cons, List.length_nil] at hlength hall
    omega
  · -- nothing was taken: the loop ends only when it has just begun
    rw [hsame]
    refine ⟨fun hnode => ?_, fun _ => ⟨before, _, hnodes, halong, List.prefix_append before pre⟩⟩
    have hplace := halong.place
    rw [hnode] at hplace
    rw [halong.items, List.eq_nil_of_length_eq_zero hplace.symm]
    rfl
  · -- the last variable that was taken comes before the change
    refine ⟨fun hnone => absurd hnone hnode, fun _ => ⟨_, _, by rw [hnodes]; simp, halong', ?_⟩⟩
    rw [List.append_assoc]
    refine (List.prefix_append_right_inj before).mpr ?_
    have hfirst : first ++ [w] <+: pre ++ u :: mid := by
      refine List.IsPrefix.trans ⟨more, ?_⟩ hprefix
      rw [List.append_assoc, List.singleton_append]
    rcases List.prefix_or_prefix_of_prefix hfirst (List.prefix_append pre (u :: mid))
      with hinside | ⟨last, hlast⟩
    · exact hinside
    · cases last using List.reverseRecOn with
      | nil =>
        rw [List.append_nil] at hlast
        exact hlast ▸ List.prefix_refl _
      | append_singleton last c _ =>
        rw [← List.append_assoc] at hlast
        obtain ⟨-, hc⟩ := List.append_inj' hlast rfl
        obtain rfl : c = w := List.singleton_inj.mp hc
        rw [← hlast, List.append_assoc] at hfirst
        have hmem : c ∈ u :: mid := ((List.prefix_append_right_inj pre).mp hfirst).subset (by simp)
        have hnot : env.ready a c = false := by
          rcases List.mem_cons.mp hmem with rfl | hmem
          · exact hready
          · exact not_ready_of_off (hmid c hmem)
        rw [hnot] at hw
        exact Bool.noConfusion hw

/-- Behind a variable without a nid, a report gets the nid of the next variable that has one. -/
theorem mynid_ne_nil {more rest mid right : List UpData} {v : UpData} {nid mynid : List UInt8}
    {filled : Prop}
    (hpasses : env.Passes [] more nid) (hstops : env.Stops a filled nid rest mynid)
    (hsplit : mid ++ v :: right = more ++ rest) (hv : env.onChannel v = true) (hne : env.newnid v ≠ [])
    (hmid : ∀ w ∈ mid, env.ready a w = false ∧ (env.onChannel w = true → env.newnid w = [])) :
    mynid ≠ [] := by
  have hkeeps : nid ≠ [] → mynid ≠ [] := by
    intro hnid
    cases hstops with
    | done => exact hnid
    | apart => exact hnid
    | full _ _ hjoins =>
      rw [hjoins.resolve_left hnid]
      exact hnid
  have hstopped : (∀ w ∈ more, env.onChannel w = true → env.newnid w = []) →
      (∃ w behind, rest = w :: behind ∧ (env.ready a w = true → env.newnid w ≠ [])) → mynid ≠ [] := by
    rintro hmore ⟨w, behind, rfl, hw⟩
    have hnid := hpasses.to_nil hmore
    cases hstops with
    | apart _ _ hnidNe => exact absurd hnid hnidNe
    | full _ hready => exact hw hready
  rcases List.append_eq_append_iff.mp hsplit with ⟨tail, rfl, htail⟩ | ⟨tail, rfl, rfl⟩
  · cases tail with
    | nil =>
      refine hstopped (fun w hw => (hmid w (by simpa using hw)).2) ⟨v, right, htail.symm, fun _ => hne⟩
    | cons c tail =>
      obtain ⟨rfl, -⟩ := List.cons_eq_cons.mp htail
      refine hkeeps ?_
      rw [((hpasses.behind hv).fixed hne).1]
      exact hne
  · refine hstopped (fun w hw => (hmid w (List.mem_append_left _ hw)).2) ?_
    cases tail with
    | nil => exact ⟨v, right, rfl, fun _ => hne⟩
    | cons w tail =>
      refine ⟨w, tail ++ v :: right, rfl, fun hready => ?_⟩
      rw [(hmid w (by simp)).1] at hready
      exact Bool.noConfusion hready

/-- A ready variable without a nid is reported under the nid of the next variable that has one. -/
theorem drain_unnamed {left mid right : List UpData} {u v : UpData} (hready : env.ready a u = true)
    (hempty : env.newnid u = []) (hv : env.onChannel v = true) (hne : env.newnid v ≠ [])
    (hmid : ∀ w ∈ mid, env.ready a w = false ∧ (env.onChannel w = true → env.newnid w = []))
    {fuel : ℕ} {s : DrainState}
    (hdrain : drain env a fuel ⟨left ++ u :: (mid ++ v :: right), none, []⟩ = some s) :
    ∀ r ∈ s.reports, left.length ∈ r.items → r.mynid ≠ [] := by
  have hon := onChannel_of_ready hready
  refine drain_induct (P := fun _ s => ∀ r ∈ s.reports, left.length ∈ r.items → r.mynid ≠ [])
    (Q := fun s => ∀ r ∈ s.reports, left.length ∈ r.items → r.mynid ≠ []) ?_
      (List.nil_append _).symm (along_start _)
    (fun r hr => absurd hr List.not_mem_nil) hdrain
  intro before after s hnodes halong hP
  obtain ⟨passed, rest, nid, mynid, rfl, hpasses, hstops, hreports, hcases⟩ := call_spec halong
  have hcall : ∀ r ∈ (s.call env a).reports, left.length ∈ r.items → r.mynid ≠ [] := by
    intro r hr hmem
    rcases hreports r hr with hold | ⟨rfl, hitems⟩
    · exact hP r hold hmem
    · rw [hitems] at hmem
      obtain ⟨first, w, more, rfl, hplace, -⟩ := mem_readyFrom_iff.mp hmem
      have hsplit : left ++ u :: (mid ++ v :: right) = before ++ first ++ w :: (more ++ rest) := by
        rw [hnodes]
        simp
      obtain ⟨-, hcons⟩ := List.append_inj hsplit (by rw [hplace, List.length_append])
      obtain ⟨rfl, htail⟩ := List.cons_eq_cons.mp hcons
      have hbehind := hpasses.behind hon
      rw [hempty] at hbehind
      exact mynid_ne_nil hbehind hstops htail hv hne hmid
  refine ⟨fun _ => hcall, fun hnode => ?_⟩
  rcases hcases with ⟨-, hnone, -⟩ | ⟨-, -, hsame⟩ | ⟨-, -, first, w, more, rfl, -, halong'⟩
  · exact absurd hnone hnode
  · exact ⟨before, _, hnodes, hsame.symm ▸ halong, hcall⟩
  · exact ⟨_, _, by rw [hnodes]; simp, halong', hcall⟩

/-- A ready variable without a nid that has one with a nid behind it, and nothing of that kind in
between. -/
theorem exists_unnamed {nodes : List UpData}
    (h : ¬ (nodes.filter env.onChannel).Pairwise fun u v => env.ready a u = true →
      env.newnid u = [] → env.newnid v = []) :
    ∃ left u mid v right, nodes = left ++ u :: (mid ++ v :: right) ∧ env.ready a u = true ∧
      env.newnid u = [] ∧
      env.onChannel v = true ∧ env.newnid v ≠ [] ∧
      ∀ w ∈ mid, env.ready a w = false ∧ (env.onChannel w = true → env.newnid w = []) := by
  rw [List.pairwise_filter] at h
  induction nodes with
  | nil => exact absurd .nil h
  | cons u nodes ih =>
    by_cases hrest : nodes.Pairwise fun u v => env.onChannel u = true → env.onChannel v = true →
        env.ready a u = true → env.newnid u = [] → env.newnid v = []
    · obtain ⟨hu, hempty, hsome⟩ : env.ready a u = true ∧ env.newnid u = [] ∧
          ∃ v ∈ nodes, env.onChannel v = true ∧ env.newnid v ≠ [] := by
        by_contra hnone
        refine h (.cons (fun v hv _ hvon hready hempty => ?_) hrest)
        by_contra hne
        exact hnone ⟨hready, hempty, v, hv, hvon, hne⟩
      obtain ⟨v, hfind⟩ : ∃ v, nodes.find? (fun v => env.onChannel v && env.newnid v ≠ []) =
          some v := by
        obtain ⟨v, hv, hon, hne⟩ := hsome
        rw [← Option.isSome_iff_exists, List.find?_isSome]
        exact ⟨v, hv, by simp [hon, hne]⟩
      obtain ⟨hv, mid, right, rfl, hmid⟩ := List.find?_eq_some_iff_append.mp hfind
      obtain ⟨hon, hne⟩ := Bool.and_eq_true_iff.mp hv
      have hne := of_decide_eq_true hne
      have hnone : ∀ w ∈ mid, env.onChannel w = true → env.newnid w = [] := by
        intro w hw hwon
        have hnot := hmid w hw
        simpa [hwon] using hnot
      refine ⟨[], u, mid, v, right, rfl, hu, hempty, hon, hne, fun w hw => ⟨?_, hnone w hw⟩⟩
      by_contra hready
      rw [Bool.not_eq_false] at hready
      have hwon := onChannel_of_ready hready
      have hbehind := (List.pairwise_append.mp hrest).2.2 w hw v List.mem_cons_self hwon hon hready
        (hnone w hw hwon)
      exact hne hbehind
    · obtain ⟨left, u', mid, v, right, rfl, hfound⟩ := ih hrest
      exact ⟨u :: left, u', mid, v, right, rfl, hfound⟩

/-- A loop that ends with every variable settled worked in order, unless no variable was ready. -/
theorem ReportEnv.DrainsAll.inOrder {nodes : List UpData} (h : env.DrainsAll a nodes) :
    (∀ node ∈ nodes, env.ready a node = false) ∨ env.InOrder a nodes := by
  obtain ⟨fuel, s, hdrain, -, hsettled⟩ := h
  by_cases hnone : ∀ node ∈ nodes, env.ready a node = false
  · exact .inl hnone
  · right
    have hready : ∀ i (hi : i < nodes.length), env.ready a nodes[i] = true →
        nodes[i].szFid ≠ none ∧ i ∈ s.reports.flatMap Hjt212Report.items ∧
          ∀ r ∈ s.reports, i ∈ r.items → r.mynid = env.newnid nodes[i] := by
      intro i hi hi'
      have hi'' := hsettled i hi
      rw [ReportEnv.Settled, if_pos hi'] at hi''
      exact ⟨hi''.1, List.count_pos_iff.mp (by rw [hi''.2.1]; exact Nat.one_pos), hi''.2.2.1⟩
    refine ⟨isChain_filter_iff.mpr ?_, ?_, fun node hnode hnodeReady => ?_⟩
    · intro left u mid v right hsplit hu hv hmid hne hchange
      by_contra hnot
      rw [Bool.not_eq_true] at hnot
      rw [hsplit] at hdrain
      have hitems := drain_before_change hu hv hmid hne hchange hnot hdrain
      refine hnone fun node hnode => ?_
      by_contra hnodeReady
      obtain ⟨i, hi, rfl⟩ := List.getElem_of_mem hnode
      have hmem := (hready i hi ((Bool.not_eq_false _).mp hnodeReady)).2.1
      rw [hitems] at hmem
      exact List.not_mem_nil hmem
    · by_contra hpairwise
      obtain ⟨left, u, mid, v, right, rfl, hu, hempty, hv, hne, hmid⟩ := exists_unnamed hpairwise
      have hi : left.length < (left ++ u :: (mid ++ v :: right)).length := by simp
      have hget : (left ++ u :: (mid ++ v :: right))[left.length] = u := by simp
      obtain ⟨-, hmem, hown⟩ := hready left.length hi (hget.symm ▸ hu)
      obtain ⟨r, hr, hitem⟩ := List.mem_flatMap.mp hmem
      refine drain_unnamed hu hempty hv hne hmid hdrain r hr hitem ?_
      rw [hown r hr hitem, hget, hempty]
    · obtain ⟨i, hi, rfl⟩ := List.getElem_of_mem hnode
      exact (hready i hi hnodeReady).1

/-- A channel that reports every hour. -/
def hourlyEnv : ReportEnv where
  usDevType := 0
  usDevNum := 0
  MN := ascii ['M']
  sharpFlag := true
  ulPeriod := 1000
  datStateFlag := false
  noCou := false
  noMin := false
  noAvg := false
  noMax := false
  tick := 0
  dataTime := ⟨[], by decide⟩
  rtd _ := ⟨[], by decide⟩
  cou _ _ := ⟨ascii ['c'], by decide⟩
  min _ _ := ⟨ascii ['m'], by decide⟩
  avg _ _ := ⟨ascii ['a'], by decide⟩
  max _ _ := ⟨ascii ['x'], by decide⟩
  flag _ _ := ⟨ascii ['N'], by decide⟩

/-- A variable of this channel with a number of samples. -/
def hourlyData (nid : Char) (count : UInt32) : UpData where
  bEnable := true
  upEnable := true
  avg _ := ⟨0, count, 0, 0, 0⟩
  szNid := some (ascii [nid])
  szFid := some (ascii ['f'])
  usDevType := 0
  usDevNum := 0
  usProtoType := protoHjt212

/-- Two variables of one nid, the second one without samples, and one of another nid. -/
def hourlyNodes : List UpData := [hourlyData 'A' 1, hourlyData 'A' 0, hourlyData 'B' 1]

/-- A call that changes nothing is made again for ever. -/
theorem drain_stuck {s : DrainState} (hcall : s.call env a = s) (hnode : s.node ≠ none) (fuel : ℕ) :
    drain env a fuel s = none := by
  induction fuel with
  | zero => rfl
  | succ fuel ih => rw [drain, hcall, if_neg hnode, ih]

end DasEdge.Sdccp
