import DasEdge.Library.AutoincTable
import Mathlib.Algebra.Order.Ring.Nat
import Mathlib.Logic.Function.Basic

/-!
# The limits of the storage tables

The insertions of `storage.c` and `storage_log.c` with `__relimit_table`, which starts from the last
id that the connection has assigned. The tables of the data share one connection, on which
`nStorage_CC_BJDC_DataDesc` inserts as well; the log has its own. An insertion may fail, a query or
a deletion does not.
-/

namespace DasEdge.Board

open DasEdge.Library

variable {α β : Type*}

/-- `eStorageType`, as far as it names a table. -/
inductive EStorageType where
  | rtData | minuteData | hourlyData | didoData | ccBjdcData
  deriving DecidableEq

/-- `_DEL_NUM` -/
def delNum : Int32 := 100

/-- `_LOG_DEL_NUM` -/
def logDelNum : Int32 := 200

/-- `__relimit_table`, which is the same in both files but for the numbers and the table. -/
def relimitTable (limitCount : UInt32) (delNum : Int32) (lastInsertRowid : ℕ) (t : AutoincTable α) :
    AutoincTable α :=
  let maxid := UInt32.ofNat lastInsertRowid
  if limitCount < maxid then
    let minid := (t.minId.map UInt32.ofNat).getD maxid
    if limitCount < maxid - minid
      then t.deleteBelow (maxid.toInt32 - limitCount.toInt32 + delNum).toInt else t
  else t

/-- The database of `storage.c`, with the last id assigned on its connection. -/
structure StorageDb (α β : Type*) where
  tables : EStorageType → AutoincTable α
  ccBjdcDesc : AutoincTable β
  lastInsertRowid : ℕ

/-- The database before the first row. -/
def StorageDb.empty : StorageDb α β := ⟨fun _ => .empty, .empty, 0⟩

/-- What is done on the connection: an item of the queue is inserted, which may fail, or a
description. -/
inductive StorageOp (α β : Type*) where
  | item (type : EStorageType) (row : α) (done : Bool)
  | desc (desc : β)

/-- The item that an operation inserts into a table. -/
def StorageOp.inserts (limitCount : EStorageType → UInt32) (type : EStorageType) :
    StorageOp α β → Option α
  | .item type' row done => if type' = type ∧ 0 < limitCount type' ∧ done = true then some row else none
  | .desc _ => none

/-- A round of `rt_storage_thread` for an item of a table, and the insertion of
`nStorage_CC_BJDC_DataDesc`. -/
def storageStep (limitCount : EStorageType → UInt32) (db : StorageDb α β) :
    StorageOp α β → StorageDb α β
  | .item type item done =>
    if 0 < limitCount type ∧ done = true then
      let t := (db.tables type).insert item
      let db := { db with lastInsertRowid := t.seq }
      { db with tables := Function.update db.tables type (relimitTable (limitCount type) delNum db.lastInsertRowid t) }
    else db
  | .desc desc =>
    let t := db.ccBjdcDesc.insert desc
    { db with ccBjdcDesc := t, lastInsertRowid := t.seq }

/-- A round of `rt_storage_log_thread` for an item, on the only table of its connection. -/
def storageLogStep (limitCount : UInt32) (t : AutoincTable α) (item : α) : AutoincTable α :=
  let t := t.insert item
  relimitTable limitCount logDelNum t.seq t

/-- What is left in a table of the items inserted: not more than the limit and one, all but a number
of the oldest, and at least as many of the newest as the limit is above the number of rows deleted
at once. -/
structure Retains (limit del : ℕ) (items : List α) (rows : List (α × ℕ)) : Prop where
  length_le : rows.length ≤ limit + 1
  suffix : rows <:+ AutoincTable.allRows items
  newest : (AutoincTable.allRows items).drop (items.length - (limit - del)) <:+ rows

/-- A table that holds all but some of the oldest rows, within the limit. -/
def WithinLimit (limit del : ℕ) (items : List α) (t : AutoincTable α) : Prop :=
  ∃ removed, t.Holds items removed ∧ items.length - removed ≤ limit + 1 ∧
    removed ≤ items.length - (limit - del)

/-- What stands in a table within the limit. -/
theorem WithinLimit.retains {limit del : ℕ} {items : List α} {t : AutoincTable α}
    (h : WithinLimit limit del items t) :
    Retains limit del items t.rows := by
  obtain ⟨removed, hholds, hlength, hremoved⟩ := h
  refine ⟨hholds.length ▸ hlength, hholds.rows ▸ List.drop_suffix _ _, ?_⟩
  obtain ⟨more, hmore⟩ := Nat.exists_eq_add_of_le hremoved
  rw [hmore, hholds.rows, ← List.drop_drop]
  exact List.drop_suffix _ _

/-- The bound of a deletion does not leave the numbers of an `int`. -/
theorem deleteBound_eq {limitCount : UInt32} {delNum : Int32} {n del : ℕ} (hn : n < 2 ^ 31)
    (hlimit : limitCount.toNat < n)
    (hdel : delNum.toInt = del) (hle : del ≤ limitCount.toNat) :
    ((UInt32.ofNat n).toInt32 - limitCount.toInt32 + delNum).toInt =
      ((n - limitCount.toNat + del : ℕ) : ℤ) := by
  have hmax : (UInt32.ofNat n).toInt32.toInt = n := by
    rw [UInt32.toInt32_ofNat', Int32.toInt_ofNat_of_lt hn]
  have hlim : limitCount.toInt32.toInt = limitCount.toNat := by
    rw [← UInt32.ofNat_toNat (x := limitCount), UInt32.toInt32_ofNat',
      Int32.toInt_ofNat_of_lt (by omega), UInt32.ofNat_toNat]
  have hsub : ((UInt32.ofNat n).toInt32 - limitCount.toInt32).toInt = (n : ℤ) - limitCount.toNat := by
    rw [Int32.toInt_sub, hmax, hlim, Int.bmod_eq_of_le (by omega) (by omega)]
  rw [Int32.toInt_add, hsub, hdel, Int.bmod_eq_of_le (by omega) (by omega)]
  omega

/-- An insertion with the step behind it keeps a table within the limit, and removes nothing of at
most as many rows as the limit. -/
theorem relimitTable_withinLimit {limitCount : UInt32} {delNum : Int32} {del : ℕ} {items : List α}
    {t : AutoincTable α}
    (hdel : delNum.toInt = del) (hle : del ≤ limitCount.toNat) (hids : items.length + 1 < 2 ^ 31)
    (h : WithinLimit limitCount.toNat del items t) (item : α) :
    WithinLimit limitCount.toNat del (items ++ [item])
      (relimitTable limitCount delNum (t.insert item).seq (t.insert item)) ∧
      (t.rows.length + 1 ≤ limitCount.toNat →
        relimitTable limitCount delNum (t.insert item).seq (t.insert item) = t.insert item) := by
  obtain ⟨removed, hholds, hlength, hremoved⟩ := h
  have hinserted := hholds.insert item
  have hrows := hholds.length
  have hn : (items ++ [item]).length = items.length + 1 := by
    rw [List.length_append, List.length_singleton]
  have hmax : (UInt32.ofNat (items.length + 1)).toNat = items.length + 1 := by
    rw [UInt32.toNat_ofNat', Nat.mod_eq_of_lt (by omega)]
  have hmin : (UInt32.ofNat (removed + 1)).toNat = removed + 1 := by
    have := hholds.le
    rw [UInt32.toNat_ofNat', Nat.mod_eq_of_lt (by omega)]
  have hdiff : (UInt32.ofNat (items.length + 1) - UInt32.ofNat (removed + 1)).toNat =
      items.length - removed := by
    have := hholds.le
    rw [UInt32.toNat_sub_of_le _ _ (by rw [UInt32.le_iff_toNat_le, hmax, hmin]; omega), hmax, hmin]
    omega
  rw [hinserted.seq, hn]
  simp only [relimitTable, hinserted.minId (by rw [hn]; have := hholds.le; omega), Option.map_some,
    Option.getD_some,
    UInt32.lt_iff_toNat_lt, hmax, hdiff]
  split
  · rename_i habove
    split
    · rename_i hmany
      refine ⟨⟨items.length + 1 - limitCount.toNat + del - 1, ?_, ?_, ?_⟩,
        fun hfew => absurd hmany (by omega)⟩
      · have hbound : items.length + 1 - limitCount.toNat + del =
            items.length + 1 - limitCount.toNat + del - 1 + 1 := by omega
        rw [deleteBound_eq (by omega) habove hdel hle, hbound]
        exact hinserted.deleteBelow (by omega) (by rw [hn]; omega)
      · rw [hn]
        omega
      · rw [hn]
        omega
    · rename_i hfew
      exact ⟨⟨removed, hinserted, by rw [hn]; omega, by rw [hn]; omega⟩, fun _ => rfl⟩
  · rename_i hbelow
    exact ⟨⟨removed, hinserted, by rw [hn]; omega, by rw [hn]; omega⟩, fun _ => rfl⟩

/-- A step of the data's connection on a table within its limit. -/
theorem storageStep_withinLimit {limitCount : EStorageType → UInt32} {type : EStorageType}
    {items : List α} {db : StorageDb α β}
    (hlimit : 100 ≤ (limitCount type).toNat)
    (h : WithinLimit (limitCount type).toNat 100 items (db.tables type))
    (op : StorageOp α β) (hids : (items ++ (op.inserts limitCount type).toList).length < 2 ^ 31) :
    WithinLimit (limitCount type).toNat 100 (items ++ (op.inserts limitCount type).toList)
        ((storageStep limitCount db op).tables type) ∧
      ((db.tables type).rows.length + 1 ≤ (limitCount type).toNat →
        (db.tables type).rows <+: ((storageStep limitCount db op).tables type).rows) := by
  have hsame : WithinLimit (limitCount type).toNat 100 (items ++ []) (db.tables type) ∧
      ((db.tables type).rows.length + 1 ≤ (limitCount type).toNat →
      (db.tables type).rows <+: (db.tables type).rows) :=
    ⟨(List.append_nil items).symm ▸ h, fun _ => List.prefix_rfl⟩
  cases op with
  | desc desc => exact hsame
  | item type' item done =>
    by_cases hdone : 0 < limitCount type' ∧ done = true
    · by_cases htype : type' = type
      · subst htype
        have hins : (StorageOp.item type' item done : StorageOp α β).inserts limitCount type' =
          some item := if_pos ⟨rfl, hdone⟩
        rw [hins, Option.toList_some, List.length_append, List.length_singleton] at hids
        have hstep :=
          relimitTable_withinLimit (show delNum.toInt = (100 : ℕ) from rfl) hlimit hids h item
        have htable : (storageStep limitCount db (.item type' item done)).tables type' =
            relimitTable (limitCount type') delNum ((db.tables type').insert item).seq ((db.tables type').insert item) := by
          simp only [storageStep, if_pos hdone, Function.update_self]
        rw [hins, htable]
        refine ⟨hstep.1, fun hfew => ?_⟩
        rw [hstep.2 hfew]
        exact List.prefix_append _ _
      · have hins : (StorageOp.item type' item done : StorageOp α β).inserts limitCount type = none :=
          if_neg fun hboth => htype hboth.1
        have htable : (storageStep limitCount db (.item type' item done)).tables type = db.tables type := by
          simp only [storageStep, if_pos hdone, Function.update_of_ne (Ne.symm htype)]
        rw [hins, htable]
        exact hsame
    · have hins : (StorageOp.item type' item done : StorageOp α β).inserts limitCount type = none := by
        refine if_neg ?_
        rintro ⟨rfl, hboth⟩
        exact hdone hboth
      have htable : storageStep limitCount db (.item type' item done) = db := if_neg hdone
      rw [hins, htable]
      exact hsame

/-- A step of the log on a table within its limit. -/
theorem storageLogStep_withinLimit {limitCount : UInt32} {items : List α} {t : AutoincTable α}
    (hlimit : 200 ≤ limitCount.toNat)
    (h : WithinLimit limitCount.toNat 200 items t) (item : α)
    (hids : (items ++ [item]).length < 2 ^ 31) :
    WithinLimit limitCount.toNat 200 (items ++ [item]) (storageLogStep limitCount t item) ∧
      (t.rows.length + 1 ≤ limitCount.toNat → t.rows <+: (storageLogStep limitCount t item).rows) := by
  rw [List.length_append, List.length_singleton] at hids
  have hstep := relimitTable_withinLimit (show logDelNum.toInt = (200 : ℕ) from rfl) hlimit hids h item
  refine ⟨hstep.1, fun hfew => ?_⟩
  rw [storageLogStep, hstep.2 hfew]
  exact List.prefix_append _ _

/-- What a sequence of operations inserts into a table. -/
def inserted (limitCount : EStorageType → UInt32) (type : EStorageType)
    (ops : List (StorageOp α β)) : List α :=
  ops.filterMap (StorageOp.inserts limitCount type)

/-- One operation more inserts its item as well. -/
theorem inserted_concat (limitCount : EStorageType → UInt32) (type : EStorageType)
    (ops : List (StorageOp α β))
    (op : StorageOp α β) :
    inserted limitCount type (ops ++ [op]) = inserted limitCount type ops ++
      (op.inserts limitCount type).toList := by
  rw [inserted, List.filterMap_append, inserted]
  cases h : op.inserts limitCount type <;> simp [h]

/-- The data's connection after a sequence of operations on the empty database. -/
def storageRun (limitCount : EStorageType → UInt32) (ops : List (StorageOp α β)) : StorageDb α β :=
  ops.foldl (storageStep limitCount) .empty

/-- The log after a sequence of insertions into the empty table. -/
def storageLogRun (limitCount : UInt32) (items : List α) : AutoincTable α :=
  items.foldl (storageLogStep limitCount) .empty

/-- An empty table is within its limit. -/
theorem withinLimit_empty (limit del : ℕ) : WithinLimit limit del ([] : List α) .empty :=
  ⟨0, AutoincTable.holds_empty, Nat.zero_le _, Nat.zero_le _⟩

/-- Every sequence of operations keeps a table of the data within its limit. -/
theorem storageRun_withinLimit {limitCount : EStorageType → UInt32} {type : EStorageType}
    (hlimit : 100 ≤ (limitCount type).toNat)
    (ops : List (StorageOp α β)) (hids : (inserted limitCount type ops).length < 2 ^ 31) :
    WithinLimit (limitCount type).toNat 100 (inserted limitCount type ops)
      ((storageRun limitCount ops).tables type) := by
  induction ops using List.reverseRecOn with
  | nil => exact withinLimit_empty _ _
  | append_singleton ops op ih =>
    rw [inserted_concat] at hids ⊢
    rw [storageRun, List.foldl_concat]
    refine (storageStep_withinLimit hlimit (ih ?_) op hids).1
    rw [List.length_append] at hids
    omega

/-- Every sequence of insertions keeps the log within its limit. -/
theorem storageLogRun_withinLimit {limitCount : UInt32} (hlimit : 200 ≤ limitCount.toNat)
    (items : List α)
    (hids : items.length < 2 ^ 31) :
    WithinLimit limitCount.toNat 200 items (storageLogRun limitCount items) := by
  induction items using List.reverseRecOn with
  | nil => exact withinLimit_empty _ _
  | append_singleton items item ih =>
    rw [storageLogRun, List.foldl_concat]
    refine (storageLogStep_withinLimit hlimit (ih ?_) item hids).1
    rw [List.length_append] at hids
    omega

/-- After every sequence of operations each table of the data and the log holds at most its limit
and one row, has lost no rows but the oldest, and has the newest; and the next operation removes
nothing while it holds at most as many rows as the limit. -/
theorem storage_retention (limitCount : EStorageType → UInt32) (type : EStorageType)
    (ops : List (StorageOp α β))
    (logLimitCount : UInt32) (logItems : List α) (hlimit : 100 ≤ (limitCount type).toNat)
    (hlogLimit : 200 ≤ logLimitCount.toNat)
    (hids : (inserted limitCount type ops).length < 2 ^ 31) (hlogIds : logItems.length < 2 ^ 31) :
    (Retains (limitCount type).toNat 100 (inserted limitCount type ops)
      ((storageRun limitCount ops).tables type).rows ∧
        ∀ op, (inserted limitCount type (ops ++ [op])).length < 2 ^ 31 →
          ((storageRun limitCount ops).tables type).rows.length + 1 ≤ (limitCount type).toNat →
          ((storageRun limitCount ops).tables type).rows <+:
          ((storageRun limitCount (ops ++ [op])).tables type).rows) ∧
      Retains logLimitCount.toNat 200 logItems (storageLogRun logLimitCount logItems).rows ∧
        ∀ item, (logItems ++ [item]).length < 2 ^ 31 →
          (storageLogRun logLimitCount logItems).rows.length + 1 ≤ logLimitCount.toNat →
          (storageLogRun logLimitCount logItems).rows <+:
          (storageLogRun logLimitCount (logItems ++ [item])).rows := by
  have hrun := storageRun_withinLimit hlimit ops hids
  have hlogRun := storageLogRun_withinLimit hlogLimit logItems hlogIds
  refine ⟨⟨hrun.retains, fun op hop hfew => ?_⟩, hlogRun.retains, fun item hitem hfew => ?_⟩
  · rw [inserted_concat] at hop
    have hstep := (storageStep_withinLimit hlimit hrun op hop).2 hfew
    rwa [storageRun, storageRun, List.foldl_concat]
  · have hstep := (storageLogStep_withinLimit hlogLimit hlogRun item hitem).2 hfew
    rwa [storageLogRun, storageLogRun, List.foldl_concat]

/-- Two items in one table and one in another, with a description between them, and one line in the
log. -/
theorem storage_retention_three :
    Retains 100 100 ["a", "b"]
      ((storageRun (fun _ => 100) [.item .rtData "a" true, .desc (), .item .minuteData "c" true,
        .item .rtData "b" true]).tables
        .rtData).rows :=
  (storage_retention (fun _ => 100) .rtData
    [.item .rtData "a" true, .desc (), .item .minuteData "c" true, .item .rtData "b" true] 200
    ["line"] (by decide) (by decide)
    (by decide) (by decide)).1.1

end DasEdge.Board
