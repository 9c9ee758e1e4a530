import DasEdge.Board.CfgBackup
import DasEdge.Library.GuardedRun

/-!
# The busy flag of the recovery

`cfg_recover_with_json` with its flag, with what it has handed on and with all its exits. The
collector tasks work while the flag is clear. Files that can be opened, the memory for the line
buffer and what `board_cfg_varext_del_all` returns come with each call.
-/

namespace DasEdge.Board

open DasEdge.Library

/-- What a recovery does to the rest of the program. -/
inductive RecoverEffect where
  | varextDelAll
  | varmanageFreeAll
  | line (action : CfgAction)
  | storageCommit

/-- `s_cfg_recover_ing`, `_ext_var_first`, `_ext_var_cnt`, and what the recoveries have done so far. -/
structure RecoverState where
  recovering : Bool
  extVarFirst : Bool
  extVarCnt : ℕ
  effects : List RecoverEffect

/-- What a call of `cfg_recover_with_json` meets: the files that `open` opens, the memory that
`rt_malloc` gives for the line, the parser of JSON texts, and the result of
`board_cfg_varext_del_all`. -/
structure RecoverCall where
  path : String
  openFile : String → Option (List UInt8)
  lineBuf : Option (List UInt8)
  parse : List UInt8 → Option CJson
  varextDelAll : Bool

/-- `cfg_recover_busy` -/
def cfgRecoverBusy (s : RecoverState) : Bool := s.recovering

/-- The branch of `__parse_cfg_line` for the first variable of a recovery. -/
def clearExtVars (call : RecoverCall) (s : RecoverState) : RecoverState :=
  if s.extVarFirst then
    let cleared := if call.varextDelAll then [.varextDelAll, .varmanageFreeAll] else [.varextDelAll]
    { s with extVarFirst := false, effects := s.effects ++ cleared }
  else s

/-- `__parse_cfg_line` with its effects. -/
def recoverLine (call : RecoverCall) (s : RecoverState) (line : List UInt8) : RecoverState :=
  match parseCfgLine call.parse line with
  | .set "extvar" cfg =>
    let s := clearExtVars call s
    { s with extVarCnt := s.extVarCnt + 1, effects := s.effects ++ [.line (.set "extvar" cfg)] }
  | action => { s with effects := s.effects ++ [.line action] }

/-- The loop of `cfg_recover_with_json` from a buffer and the rest of the file, with `first`. -/
def recoverLoop (call : RecoverCall) : ℕ → List UInt8 × List UInt8 → Bool → RecoverState →
    Option (Bool × RecoverState)
  | 0, _, _, _ => none
  | fuel + 1, file, first, s =>
    if file.2 = [] then some (first, s)
    else
      let r := readline lineBufsz file
      match checkCfgLine r.1 with
      | none => recoverLoop call fuel r.2 first s
      | some line => if first then recoverLoop call fuel r.2 true (recoverLine call s line)
        else recoverLoop call fuel r.2 true s

/-- `cfg_recover_with_json`, which leaves the flag as it is when the file cannot be opened. -/
def cfgRecover (s : RecoverState) (call : RecoverCall) : Option (Bool × RecoverState) :=
  let s := { s with recovering := true }
  match call.openFile call.path with
  | none => some (false, s)
  | some content =>
    match call.lineBuf with
    | none => some (false, { s with recovering := false })
    | some buf =>
      (recoverLoop call (content.length + 1) (buf, content) false { s with extVarCnt := 0, extVarFirst := true }).map fun r =>
        let s := if r.2.extVarFirst then r.2
          else { r.2 with effects := r.2.effects ++ [.storageCommit] }
        (r.1, { s with recovering := false })

/-- The loop comes to the end of every file. -/
theorem recoverLoop_returns (call : RecoverCall) {fuel : ℕ} {file : List UInt8 × List UInt8}
    (hfuel : file.2.length < fuel)
    (first : Bool) (s : RecoverState) : ∃ r, recoverLoop call fuel file first s = some r := by
  induction fuel generalizing file first s with
  | zero => exact absurd hfuel (Nat.not_lt_zero _)
  | succ fuel ih =>
    rw [recoverLoop]
    split
    · exact ⟨_, rfl⟩
    · next hfile =>
      have hshort := readline_shorter (show 1 < lineBufsz by decide) hfile
      have hrest : (readline lineBufsz file).2.2.length < fuel := by omega
      simp only []
      split
      · exact ih hrest first s
      · split <;> exact ih hrest _ _

/-- A recovery returns, and the flag is clear behind it exactly when the file could be opened. -/
theorem cfgRecover_busy (s : RecoverState) (call : RecoverCall) :
    ∃ ret s', cfgRecover s call = some (ret, s') ∧
      (cfgRecoverBusy s' = false ↔ (call.openFile call.path).isSome) := by
  rw [cfgRecover]
  cases hopen : call.openFile call.path with
  | none => exact ⟨_, _, rfl, by simp [cfgRecoverBusy]⟩
  | some content =>
    cases hbuf : call.lineBuf with
    | none => exact ⟨_, _, rfl, by simp [cfgRecoverBusy]⟩
    | some buf =>
      have hend : (buf, content).2.length < content.length + 1 := Nat.lt_succ_self _
      obtain ⟨r, hr⟩ := recoverLoop_returns call hend false { s with recovering := true, extVarCnt := 0, extVarFirst := true }
      simp only [hr, Option.map_some, Option.some_inj]
      exact ⟨_, _, rfl, by simp [cfgRecoverBusy]⟩

/-- In every run of recoveries the flag is clear behind each of them exactly when each of the files
could be opened. -/
theorem cfgRecover_run (s : RecoverState) (calls : List RecoverCall) :
    EveryStep cfgRecover (fun _ _ _ s' => cfgRecoverBusy s' = false) s calls ↔
      GuardedRun cfgRecover (fun _ call => (call.openFile call.path).isSome) s calls := by
  refine everyStep_iff _ _ _ (fun _ => True) (fun s call _ => ?_) trivial calls
  obtain ⟨ret, s', hcall, hbusy⟩ := cfgRecover_busy s call
  exact ⟨ret, s', hcall, trivial, hbusy⟩

/-- No recovery has been made. -/
def recoverStart : RecoverState where
  recovering := false
  extVarFirst := true
  extVarCnt := 0
  effects := []

/-- A recovery from a file that is not there. -/
def recoverMissing : RecoverCall where
  path := "/media/nand/cfg.json"
  openFile := fun _ => none
  lineBuf := some (List.replicate lineBufsz 0)
  parse := fun _ => none
  varextDelAll := true

/-- A recovery from a file that is not there leaves the flag set. -/
theorem not_cfgRecover_missing :
    ¬ EveryStep cfgRecover (fun _ _ _ s' => cfgRecoverBusy s' = false) recoverStart
      [recoverMissing] := by
  rintro ⟨ret, s', hcall, hbusy, -⟩
  cases hcall
  cases hbusy

end DasEdge.Board
