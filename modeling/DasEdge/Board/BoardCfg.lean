import DasEdge.Board.DasUtil
import DasEdge.Library.SqlRows

/-!
# Writing a configuration

`board_cfg_read`, `board_cfg_write`, `board_cfg_varext_add` and `board_cfg_rule_add` of
`board_cfg.c`. A statement is atomic: it does all it says or fails and does nothing. The rows of a
table stand in the order they are selected. The name of a configuration is a constant without a
quote. The name of a variable or of a rule comes from outside and is put into the text of a
statement as it is, so which rows that text selects is given.
-/

namespace DasEdge.Board

open DasEdge.Library

/-- A row of `cfg_board`, which has one row for each name. A null blob is like an empty one. -/
structure CfgBoardRow where
  name : String
  time : ℤ
  cfg : List UInt8
  crc : ℤ
  deriving DecidableEq

/-- A row of `cfg_varext` or `cfg_rule`. A text may be `NULL`. -/
structure CfgTextRow where
  time : ℤ
  name : Option String
  cfg : Option String
  deriving DecidableEq

/-- The database, once it is open. -/
structure CfgDb where
  sCfgDbinit : Bool
  cfgBoard : List CfgBoardRow
  cfgVarext : List CfgTextRow
  cfgRule : List CfgTextRow

/-- Which steps of a write succeed, as far as it is not for the table: `cJSON_CreateObject`,
`DELETE`, and the preparation and the execution of `INSERT`. -/
structure CfgSteps where
  createObject : Bool
  delete : Bool
  prepare : Bool
  insert : Bool

/-- The test of `board_cfg_read` on the columns of a row. -/
def CfgBoardRow.Checks (row : CfgBoardRow) (len : ℕ) : Prop :=
  row.cfg ≠ [] ∧ len ≤ row.cfg.length ∧ UInt16.ofInt row.crc = dasCrc16 row.cfg

instance decidableChecks (row : CfgBoardRow) (len : ℕ) : Decidable (row.Checks len) :=
  inferInstanceAs (Decidable (_ ∧ _ ∧ _))

/-- What `board_cfg_read` copies of a row. -/
def CfgBoardRow.read (type : String) (len : ℕ) (row : CfgBoardRow) : Option (List UInt8) :=
  if row.name = type ∧ row.Checks len then some (row.cfg.take len) else none

/-- `board_cfg_read`: the bytes it copies, when it returns `RT_TRUE`. -/
def boardCfgRead (db : CfgDb) (type : String) (len : ℕ) : Option (List UInt8) :=
  if db.sCfgDbinit then (db.cfgBoard.filterMap (CfgBoardRow.read type len)).getLast? else none

/-- `board_cfg_del_one` -/
def boardCfgDelOne (db : CfgDb) (type : String) (steps : CfgSteps) : Bool × CfgDb :=
  if db.sCfgDbinit ∧ steps.delete then
    (true, { db with cfgBoard := sqlDelete (fun row => decide (row.name = type)) db.cfgBoard })
  else (false, db)

/-- `board_cfg_write`. The name is the primary key, so a row with it makes `INSERT` fail. -/
def boardCfgWrite (db : CfgDb) (type : String) (pcfg : List UInt8) (time : ℤ) (steps : CfgSteps) :
    Bool × CfgDb :=
  if db.sCfgDbinit then
    let db := (boardCfgDelOne db type steps).2
    if steps.prepare ∧ steps.insert ∧ type ∉ db.cfgBoard.map CfgBoardRow.name then
      (true, { db with cfgBoard := db.cfgBoard ++
        [{ name := type, time := time, cfg := pcfg, crc := (dasCrc16 pcfg).toNat }] })
    else (false, db)
  else (false, db)

/-- What a list is loaded with from a row. -/
def CfgTextRow.load (row : CfgTextRow) : Option (String × String) :=
  row.name.bind fun name => row.cfg.map fun cfg => (name, cfg)

/-- A row is selected by `WHERE name='%s'`. -/
def CfgTextRow.selected (selects : String → String → Bool) (text : String) (row : CfgTextRow) : Bool :=
  row.name.any (selects text)

/-- `board_cfg_varext_del` and `board_cfg_rule_del`, on their table. -/
def cfgTextDel (selects : String → String → Bool) (rows : List CfgTextRow) (name : String)
    (steps : CfgSteps) :
    List CfgTextRow :=
  if steps.delete then sqlDelete (CfgTextRow.selected selects name) rows else rows

/-- `board_cfg_varext_add` and `board_cfg_rule_add`, on their table, with the text that is made of
the data. -/
def cfgTextAdd (selects : String → String → Bool) (rows : List CfgTextRow) (name : String)
    (szJSON : Option String)
    (time : ℤ) (steps : CfgSteps) : Bool × List CfgTextRow :=
  if steps.createObject then
    let rows := cfgTextDel selects rows name steps
    if steps.prepare ∧
      steps.insert then (true, rows ++ [{ time := time, name := some name, cfg := szJSON }])
    else (false, rows)
  else (false, rows)

/-- What `board_cfg_varext_loadlist` reads. -/
def boardCfgVarextLoadlist (db : CfgDb) : List (String × String) :=
  if db.sCfgDbinit then db.cfgVarext.filterMap CfgTextRow.load else []

/-- What `board_cfg_rule_loadlist` reads. -/
def boardCfgRuleLoadlist (db : CfgDb) : List (String × String) :=
  if db.sCfgDbinit then db.cfgRule.filterMap CfgTextRow.load else []

/-- `board_cfg_varext_add` -/
def boardCfgVarextAdd (selects : String → String → Bool) (db : CfgDb) (szName : String)
    (szJSON : Option String) (time : ℤ)
    (steps : CfgSteps) : Bool × CfgDb :=
  if db.sCfgDbinit then
    let added := cfgTextAdd selects db.cfgVarext szName szJSON time steps
    (added.1, { db with cfgVarext := added.2 })
  else (false, db)

/-- `board_cfg_rule_add` -/
def boardCfgRuleAdd (selects : String → String → Bool) (db : CfgDb) (name : String)
    (szJSON : Option String) (time : ℤ)
    (steps : CfgSteps) : Bool × CfgDb :=
  if db.sCfgDbinit then
    let added := cfgTextAdd selects db.cfgRule name szJSON time steps
    (added.1, { db with cfgRule := added.2 })
  else (false, db)

/-- A failing write leaves what is read of every configuration. -/
def BoardCfgWriteAtomic (db : CfgDb) (type : String) (pcfg : List UInt8) (time : ℤ)
    (steps : CfgSteps) : Prop :=
  (boardCfgWrite db type pcfg time steps).1 = false →
    ∀ (other : String) (len : ℕ), boardCfgRead (boardCfgWrite db type pcfg time steps).2 other len =
      boardCfgRead db other len

/-- A failing addition of a variable leaves the list. -/
def BoardCfgVarextAtomic (selects : String → String → Bool) (db : CfgDb) (szName : String)
    (szJSON : Option String) (time : ℤ)
    (steps : CfgSteps) : Prop :=
  (boardCfgVarextAdd selects db szName szJSON time steps).1 = false →
    boardCfgVarextLoadlist (boardCfgVarextAdd selects db szName szJSON time steps).2 =
    boardCfgVarextLoadlist db

/-- A failing addition of a rule leaves the list. -/
def BoardCfgRuleAtomic (selects : String → String → Bool) (db : CfgDb) (name : String)
    (szJSON : Option String) (time : ℤ)
    (steps : CfgSteps) : Prop :=
  (boardCfgRuleAdd selects db name szJSON time steps).1 = false →
    boardCfgRuleLoadlist (boardCfgRuleAdd selects db name szJSON time steps).2 = boardCfgRuleLoadlist db

/-- A row that passes the test for a length passes it for none. -/
theorem CfgBoardRow.Checks.zero {row : CfgBoardRow} {len : ℕ} (h : row.Checks len) : row.Checks 0 :=
  ⟨h.1, Nat.zero_le _, h.2.2⟩

/-- A row that is read has the name and passes the test. -/
theorem CfgBoardRow.read_eq_none {row : CfgBoardRow} {type : String} {len : ℕ} :
    row.read type len = none ↔ (row.name = type → ¬ row.Checks len) := by
  rw [CfgBoardRow.read]
  split
  · rename_i h
    constructor
    · intro hsome
      cases hsome
    · intro hnone
      exact absurd h.2 (hnone h.1)
  · rename_i h
    exact ⟨fun _ hname hchecks => h ⟨hname, hchecks⟩, fun _ => rfl⟩

/-- Nothing is read of a name when no row of it passes the test. -/
theorem boardCfgRead_eq_none {db : CfgDb} {type : String} {len : ℕ} (hinit : db.sCfgDbinit = true) :
    boardCfgRead db type len = none ↔ ∀ row ∈ db.cfgBoard, row.name = type → ¬ row.Checks len := by
  rw [boardCfgRead, if_pos hinit, List.getLast?_eq_none_iff, List.filterMap_eq_nil_iff]
  simp only [CfgBoardRow.read_eq_none]

/-- Deleting the rows of a name leaves what is read of the others. -/
theorem boardCfgRead_delete (db : CfgDb) (type other : String) (len : ℕ) (hother : other ≠ type) :
    boardCfgRead { db with cfgBoard := sqlDelete (fun row => decide (row.name = type)) db.cfgBoard }
      other len =
      boardCfgRead db other len := by
  have hrows :=
    filterMap_sqlDelete (fun row : CfgBoardRow => decide (row.name = type))
    (CfgBoardRow.read other len)
    db.cfgBoard fun row _ hselects => CfgBoardRow.read_eq_none.mpr fun hname _ =>
      hother (hname.symm.trans (of_decide_eq_true hselects))
  simp only [boardCfgRead, hrows]

/-- The rows of a name are deleted, and nothing is left to read. -/
theorem boardCfgRead_deleted (db : CfgDb) (type : String) (len : ℕ) :
    boardCfgRead { db with cfgBoard := sqlDelete (fun row => decide (row.name = type)) db.cfgBoard }
      type len = none := by
  by_cases hinit : db.sCfgDbinit = true
  · rw [boardCfgRead_eq_none (by exact hinit)]
    intro row hrow hname
    have hkept := (List.mem_filter.mp hrow).2
    simp [hname] at hkept
  · simp [boardCfgRead, hinit]

/-- After a delete that succeeds the insertion is not kept from its name. -/
theorem boardCfgWrite_of_delete (db : CfgDb) (type : String) (pcfg : List UInt8) (time : ℤ)
    (steps : CfgSteps)
    (hinit : db.sCfgDbinit = true) (hdelete : steps.delete = true) :
    (boardCfgWrite db type pcfg time steps).1 = (steps.prepare && steps.insert) ∧
      ((steps.prepare && steps.insert) = false → (boardCfgWrite db type pcfg time steps).2 =
        { db with cfgBoard := sqlDelete (fun row => decide (row.name = type)) db.cfgBoard }) := by
  have hdel : (boardCfgDelOne db type steps).2 =
      { db with cfgBoard := sqlDelete (fun row => decide (row.name = type)) db.cfgBoard } := by
    simp [boardCfgDelOne, hinit, hdelete]
  have hname : type ∉ (sqlDelete (fun row => decide (row.name = type)) db.cfgBoard).map
      CfgBoardRow.name := by
    intro hmem
    obtain ⟨row, hrow, hrowname⟩ := List.mem_map.mp hmem
    have hkept := (List.mem_filter.mp hrow).2
    simp [hrowname] at hkept
  simp only [boardCfgWrite, if_pos hinit, hdel, hname, not_false_eq_true, and_true]
  cases steps.prepare <;> cases steps.insert <;> simp

/-- A write keeps to the old value on failure exactly when it has deleted nothing of value. -/
theorem boardCfgWriteAtomic_iff (db : CfgDb) (type : String) (pcfg : List UInt8) (time : ℤ)
    (steps : CfgSteps) :
    BoardCfgWriteAtomic db type pcfg time steps ↔
      db.sCfgDbinit = false ∨ steps.delete = false ∨ (steps.prepare = true ∧ steps.insert = true) ∨
        ∀ row ∈ db.cfgBoard, row.name = type → ¬ row.Checks 0 := by
  cases hinit : db.sCfgDbinit with
  | false => simp [BoardCfgWriteAtomic, boardCfgWrite, hinit]
  | true =>
    cases hdelete : steps.delete with
    | false =>
      have hdel : (boardCfgDelOne db type steps).2 = db := by simp [boardCfgDelOne, hdelete]
      have hatomic : BoardCfgWriteAtomic db type pcfg time steps := by
        intro hfails other len
        simp only [boardCfgWrite, hinit, hdel, if_true] at hfails ⊢
        split at hfails
        · cases hfails
        · rename_i hnot
          rw [if_neg hnot]
      exact iff_of_true hatomic (Or.inr (Or.inl rfl))
    | true =>
      obtain ⟨hreturns, hleaves⟩ := boardCfgWrite_of_delete db type pcfg time steps hinit hdelete
      have hboth : (steps.prepare = true ∧ steps.insert = true) ↔
          (steps.prepare && steps.insert) = true := by
        rw [Bool.and_eq_true]
      rw [BoardCfgWriteAtomic, hreturns, hboth]
      cases hsteps : steps.prepare && steps.insert with
      | true => simp
      | false =>
        rw [hleaves hsteps]
        simp only [Bool.true_eq_false, Bool.false_eq_true, false_or, true_imp_iff]
        constructor
        · intro hreads
          rw [← boardCfgRead_eq_none hinit, ← hreads type 0]
          exact boardCfgRead_deleted db type 0
        · intro hnone other len
          rcases eq_or_ne other type with rfl | hother
          · rw [boardCfgRead_deleted, (boardCfgRead_eq_none hinit).mpr fun row hrow hname hchecks =>
              hnone row hrow hname hchecks.zero]
          · exact boardCfgRead_delete db type other len hother

/-- An addition keeps to the old list on failure exactly when it has deleted nothing that the list
is loaded with. -/
theorem cfgTextAdd_atomic_iff (selects : String → String → Bool) (rows : List CfgTextRow)
    (name : String)
    (szJSON : Option String) (time : ℤ) (steps : CfgSteps) :
    ((cfgTextAdd selects rows name szJSON time steps).1 = false →
        (cfgTextAdd selects rows name szJSON time steps).2.filterMap CfgTextRow.load =
        rows.filterMap CfgTextRow.load) ↔
      steps.createObject = false ∨ steps.delete = false ∨ (steps.prepare = true ∧ steps.insert = true) ∨
        ∀ row ∈ rows, row.selected selects name = true → row.load = none := by
  rw [← filterMap_sqlDelete_iff]
  simp only [cfgTextAdd, cfgTextDel]
  cases steps.createObject <;> cases steps.delete <;> cases steps.prepare <;>
    cases steps.insert <;> simp

/-- A failing write of a configuration, of a variable or of a rule keeps what was there exactly when
the database is not open, the steps before the deletion or the deletion fail, the steps behind it
succeed, or there was nothing to read. -/
theorem board_cfg_atomic_iff (selects : String → String → Bool) (db : CfgDb) (name : String)
    (pcfg : List UInt8)
    (szJSON : Option String) (time : ℤ) (steps : CfgSteps) :
    (BoardCfgWriteAtomic db name pcfg time steps ↔
      db.sCfgDbinit = false ∨ steps.delete = false ∨ (steps.prepare = true ∧ steps.insert = true) ∨
        ∀ row ∈ db.cfgBoard, row.name = name → ¬ row.Checks 0) ∧
    (BoardCfgVarextAtomic selects db name szJSON time steps ↔
      db.sCfgDbinit = false ∨ steps.createObject = false ∨ steps.delete = false ∨
        (steps.prepare = true ∧ steps.insert = true) ∨
        ∀ row ∈ db.cfgVarext, row.selected selects name = true → row.load = none) ∧
    (BoardCfgRuleAtomic selects db name szJSON time steps ↔
      db.sCfgDbinit = false ∨ steps.createObject = false ∨ steps.delete = false ∨
        (steps.prepare = true ∧ steps.insert = true) ∨
        ∀ row ∈ db.cfgRule, row.selected selects name = true → row.load = none) := by
  refine ⟨boardCfgWriteAtomic_iff db name pcfg time steps, ?_, ?_⟩
  · cases hinit : db.sCfgDbinit with
    | false => simp [BoardCfgVarextAtomic, boardCfgVarextAdd, hinit]
    | true =>
      simp only [BoardCfgVarextAtomic, boardCfgVarextAdd, boardCfgVarextLoadlist, hinit, if_true,
        Bool.true_eq_false,
        false_or]
      exact cfgTextAdd_atomic_iff selects db.cfgVarext name szJSON time steps
  · cases hinit : db.sCfgDbinit with
    | false => simp [BoardCfgRuleAtomic, boardCfgRuleAdd, hinit]
    | true =>
      simp only [BoardCfgRuleAtomic, boardCfgRuleAdd, boardCfgRuleLoadlist, hinit, if_true,
        Bool.true_eq_false, false_or]
      exact cfgTextAdd_atomic_iff selects db.cfgRule name szJSON time steps

/-- The insertion finds no space, and the configuration is gone. -/
theorem board_cfg_write_loses :
    ¬ BoardCfgWriteAtomic
      { sCfgDbinit := true
        cfgBoard := [{ name := "net_cfg", time := 0, cfg := [1], crc := (dasCrc16 [1]).toNat }]
        cfgVarext := []
        cfgRule := [] }
      "net_cfg" [2] 0 { createObject := true, delete := true, prepare := true, insert := false } := by
  intro h
  have hread := h (by decide) "net_cfg" 1
  revert hread
  decide

end DasEdge.Board
