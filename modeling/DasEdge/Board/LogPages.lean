import DasEdge.Library.SqlRows
import Mathlib.Data.List.Sort

/-!
# Pages of the log

`getLogData` of `storage_log.c`. The rows of `Log_data` come in the order of their ids, those of one
time stay in it. A page is what the handler prints of the rows it steps through; how it formats the
time is left out. An `int` product that does not fit is outside the language, so pages are counted
up to `lastLogPage`.
-/

namespace DasEdge.Board

open DasEdge.Library

/-- A row of `Log_data`. The text may be `NULL`. -/
structure LogRow where
  id : ℤ
  time : ℤ
  level : ℤ
  log : Option String
  deriving DecidableEq

/-- The database with the table, once it is open. -/
structure LogDb where
  sLogDbinit : Bool
  logData : List LogRow

/-- The numbers in the argument of a request, as far as it has them. -/
structure LogRequest where
  start : Option Int32
  stop : Option Int32
  page : Option Int32

/-- What is printed of a row. -/
structure LogItem where
  n : Int32
  t : Int32
  l : Int32
  g : String
  deriving DecidableEq

/-- `LOG_PAGE_SIZE` -/
def logPageSize : Int32 := 500

/-- The last page whose offset and count are an `int`. -/
def lastLogPage : ℕ := 4294966

/-- `sqlite3_column_int` of the columns. A row without a text is left out. -/
def LogRow.item (row : LogRow) : Option LogItem :=
  row.log.map fun log =>
    { n := Int32.ofInt row.id, t := Int32.ofInt row.time, l := Int32.ofInt row.level, g := log }

/-- `SELECT id,time,level,log FROM Log_data WHERE time>=start AND time<=end ORDER BY time ASC` -/
def selectLog (start stop : UInt32) (rows : List LogRow) : List LogRow :=
  (rows.filter fun row => decide ((start.toNat : ℤ) ≤ row.time ∧
    row.time ≤ (stop.toNat : ℤ))).insertionSort
    fun row other => row.time ≤ other.time

/-- The rows a request selects, on whatever page. -/
def LogDb.selected (db : LogDb) (request : LogRequest) : List LogRow :=
  selectLog (request.start.getD 0).toUInt32 (request.stop.getD (-1)).toUInt32 db.logData

/-- The items `getLogData` prints. -/
def getLogData (db : LogDb) (request : LogRequest) : List LogItem :=
  let page := request.page.getD 0
  if db.sLogDbinit then
    (sqlLimit (page * logPageSize).toInt ((page + 1) * logPageSize).toInt
      (db.selected request)).filterMap LogRow.item
  else []

/-- The same request for a page. -/
def LogRequest.at (request : LogRequest) (page : ℕ) : LogRequest :=
  { request with page := some (Int32.ofNat page) }

/-- Behind one another the pages hold each selected row once and in order, and none holds more than
`LOG_PAGE_SIZE`. -/
def PagesPartition (db : LogDb) (request : LogRequest) : Prop :=
  ((List.range (lastLogPage + 1)).flatMap fun page => getLogData db (request.at page)).map some =
      (db.selected request).map LogRow.item ∧
    ∀ page ≤ lastLogPage, (getLogData db (request.at page)).length ≤ 500

/-- The page that is asked for does not matter to what is selected. -/
@[simp]
theorem LogDb.selected_at (db : LogDb) (request : LogRequest) (page : ℕ) :
    db.selected (request.at page) = db.selected request := rfl

/-- An offset within the pages is the page number times the size. -/
theorem logPage_offset (page : ℕ) (h : page ≤ lastLogPage) :
    (Int32.ofNat page * logPageSize).toInt = ((500 * page : ℕ) : ℤ) := by
  rw [lastLogPage] at h
  rw [Int32.toInt_mul, Int32.toInt_ofNat_of_lt (by omega), show logPageSize.toInt = 500 from rfl]
  rw [Int.bmod_eq_of_le (by omega) (by omega)]
  omega

/-- A count within the pages grows with the page number. -/
theorem logPage_count (page : ℕ) (h : page ≤ lastLogPage) :
    ((Int32.ofNat page + 1) * logPageSize).toInt = ((500 * (page + 1) : ℕ) : ℤ) := by
  rw [lastLogPage] at h
  have hnext : (Int32.ofNat page + 1).toInt = ((page + 1 : ℕ) : ℤ) := by
    rw [Int32.toInt_add, Int32.toInt_ofNat_of_lt (by omega), show (1 : Int32).toInt = 1 from rfl]
    rw [Int.bmod_eq_of_le (by omega) (by omega)]
    omega
  rw [Int32.toInt_mul, hnext, show logPageSize.toInt = 500 from rfl]
  rw [Int.bmod_eq_of_le (by omega) (by omega)]
  omega

/-- A page of an open database shows the rows from its offset on, as many as its count. -/
theorem getLogData_at (db : LogDb) (request : LogRequest) (page : ℕ) (h : page ≤ lastLogPage)
    (hopen : db.sLogDbinit = true) :
    getLogData db (request.at page) =
      (((db.selected request).drop (500 * page)).take (500 * (page + 1))).filterMap LogRow.item := by
  have hpage : (request.at page).page.getD 0 = Int32.ofNat page := rfl
  simp only [getLogData, hopen, if_true, hpage, LogDb.selected_at]
  rw [logPage_offset page h, logPage_count page h, sqlLimit_natCast]

/-- A page of a database that is not open shows nothing. -/
theorem getLogData_closed (db : LogDb) (request : LogRequest) (hclosed : db.sLogDbinit = false) :
    getLogData db request = [] := by
  simp [getLogData, hclosed]

/-- Rows with a text are all shown. -/
theorem filterMap_item (rows : List LogRow) (h : ∀ row ∈ rows, row.log.isSome = true) :
    (rows.filterMap LogRow.item).map some = rows.map LogRow.item := by
  induction rows with
  | nil => rfl
  | cons row rows ih =>
    obtain ⟨log, hlog⟩ := Option.isSome_iff_exists.mp (h row List.mem_cons_self)
    have hitem : (row.item).isSome = true := by simp [LogRow.item, hlog]
    obtain ⟨item, hitem⟩ := Option.isSome_iff_exists.mp hitem
    rw [List.filterMap_cons, hitem, List.map_cons, List.map_cons, hitem,
      ih fun other hother => h other (List.mem_cons_of_mem _ hother)]

/-- Two pages show at most a thousand rows with texts, and the further ones nothing. -/
theorem pagesPartition_of_le (db : LogDb) (request : LogRequest) (hopen : db.sLogDbinit = true)
    (hlen : (db.selected request).length ≤ 1000)
    (htext : ∀ row ∈ db.selected request, row.log.isSome = true) :
    PagesPartition db request := by
  have hfirst : getLogData db (request.at 0) =
      ((db.selected request).take 500).filterMap LogRow.item := by
    rw [getLogData_at db request 0 (Nat.zero_le _) hopen, Nat.mul_zero, List.drop_zero,
      Nat.zero_add, Nat.mul_one]
  have hsecond : getLogData db (request.at 1) =
      ((db.selected request).drop 500).filterMap LogRow.item := by
    rw [getLogData_at db request 1 (by rw [lastLogPage]; omega) hopen, Nat.mul_one,
      List.take_of_length_le (by rw [List.length_drop]; omega)]
  have hfurther : ∀ page, page + 2 ≤ lastLogPage → getLogData db (request.at (page + 2)) = [] := by
    intro page hpage
    rw [getLogData_at db request (page + 2) hpage hopen, List.drop_eq_nil_of_le (by omega),
      List.take_nil,
      List.filterMap_nil]
  constructor
  · have hpages : (List.range (lastLogPage + 1)).flatMap (fun page => getLogData db (request.at page)) =
        (db.selected request).filterMap LogRow.item := by
      have hrest : (List.range (lastLogPage - 1)).flatMap
          (fun page => getLogData db (request.at (page + 2))) = [] := by
        rw [List.flatMap_eq_nil_iff]
        intro page hpage
        have hlt := List.mem_range.mp hpage
        exact hfurther page (by rw [lastLogPage] at hlt ⊢; omega)
      have hcount : lastLogPage + 1 = lastLogPage - 1 + 1 + 1 := by rw [lastLogPage]
      rw [hcount, List.range_succ_eq_map, List.range_succ_eq_map, List.map_cons, List.map_map,
        List.flatMap_cons,
        List.flatMap_cons, List.flatMap_map]
      calc
        _ = getLogData db (request.at 0) ++ (getLogData db (request.at 1) ++ []) := by rw [← hrest]; rfl
        _ = (db.selected request).filterMap LogRow.item := by
          rw [hfirst, hsecond, List.append_nil, ← List.filterMap_append, List.take_append_drop]
    rw [hpages, filterMap_item _ htext]
  · intro page hpage
    match page with
    | 0 =>
      rw [hfirst]
      exact (List.length_filterMap_le _ _).trans (List.length_take_le _ _)
    | 1 =>
      rw [hsecond]
      refine (List.length_filterMap_le _ _).trans ?_
      rw [List.length_drop]
      omega
    | page + 2 =>
      rw [hfurther page hpage]
      exact Nat.zero_le _

/-- In a partition each selected row has a text. -/
theorem PagesPartition.text {db : LogDb} {request : LogRequest} (h : PagesPartition db request) :
    ∀ row ∈ db.selected request, row.log.isSome = true := by
  intro row hrow
  have hitem : row.item ∈ (db.selected request).map LogRow.item := List.mem_map_of_mem hrow
  rw [← h.1] at hitem
  obtain ⟨item, -, hitem⟩ := List.mem_map.mp hitem
  cases hlog : row.log with
  | none => simp [LogRow.item, hlog] at hitem
  | some log => rfl

/-- In a partition of an open database the second page ends the rows. -/
theorem PagesPartition.length_le {db : LogDb} {request : LogRequest} (h : PagesPartition db request)
    (hopen : db.sLogDbinit = true) : (db.selected request).length ≤ 1000 := by
  have hpage : 1 ≤ lastLogPage := by rw [lastLogPage]; omega
  have hsize := h.2 1 hpage
  rw [getLogData_at db request 1 hpage hopen] at hsize
  have hrows :=
    congrArg List.length (filterMap_item
    (((db.selected request).drop (500 * 1)).take (500 * (1 + 1)))
    fun row hrow => h.text row (List.mem_of_mem_drop (List.mem_of_mem_take hrow)))
  rw [List.length_map, List.length_map, List.length_take, List.length_drop] at hrows
  omega

/-- The pages partition the selected rows exactly when there are none, or the database is open, they
are at most a thousand and each has a text. -/
theorem pagesPartition_iff (db : LogDb) (request : LogRequest) :
    PagesPartition db request ↔
      db.selected request = [] ∨ db.sLogDbinit = true ∧ (db.selected request).length ≤ 1000 ∧
        ∀ row ∈ db.selected request, row.log.isSome = true := by
  constructor
  · intro h
    cases hopen : db.sLogDbinit with
    | true => exact Or.inr ⟨rfl, h.length_le hopen, h.text⟩
    | false =>
      have hpages : (List.range (lastLogPage + 1)).flatMap
          (fun page => getLogData db (request.at page)) = [] :=
        List.flatMap_eq_nil_iff.mpr fun page _ => getLogData_closed db (request.at page) hopen
      have hrows := h.1
      rw [hpages, List.map_nil] at hrows
      exact Or.inl (List.map_eq_nil_iff.mp hrows.symm)
  · rintro (hnone | ⟨hopen, hlen, htext⟩)
    · have hpages : ∀ page, getLogData db (request.at page) = [] := by
        intro page
        simp [getLogData, hnone]
      constructor
      · simp [hpages, hnone]
      · intro page _
        rw [hpages]
        exact Nat.zero_le _
    · exact pagesPartition_of_le db request hopen hlen htext

/-- A log of 1001 rows has 501 of them on its second page. -/
theorem getLogData_second_page :
    ¬ PagesPartition
      { sLogDbinit := true
        logData := (List.range 1001).map fun n => { id := n, time := 0, level := 0, log := some "" } }
      { start := none, stop := none, page := none } := by
  intro h
  have hlen : (getLogData
      { sLogDbinit := true
        logData := (List.range 1001).map fun n => { id := n, time := 0, level := 0, log := some "" } }
      (LogRequest.at { start := none, stop := none, page := none } 1)).length = 501 := by decide +kernel
  have hsize := h.2 1 (by rw [lastLogPage]; omega)
  omega

end DasEdge.Board
