import DasEdge.Library.CJson
import DasEdge.Library.CString
import Mathlib.Data.List.FinRange
import Mathlib.Data.List.Induction
import Mathlib.Logic.Function.Basic

/-!
# The address table of the transparent gateway

`setXferUartCfgWithJson` and `xfer_get_uart_with_slave_addr` in `xfer_cfg.c`. A request gives the
number of a port's addresses and their list as members of their own, and the number bounds the
lookup whatever the list is. An access outside of the table or of its addresses is `none`. Which
ports are searched is given.
-/

namespace DasEdge.Board

open DasEdge.Library

/-- `BOARD_UART_MAX` -/
def boardUartMax : ℕ := 5

/-- `XFER_UART_ADDRS_NUM` -/
def xferUartAddrsNum : ℕ := 64

/-- `xfer_uart_cfg_t` -/
structure XferUartCfg where
  enable : Bool
  count : Int32
  addrs : { addrs : List UInt8 // addrs.length = xferUartAddrsNum }
  deriving DecidableEq

/-- `g_xfer_uart_cfgs` -/
abbrev XferUartCfgs := Fin boardUartMax → XferUartCfg

/-- `prvSetXferUartCfgsDefault`, with `c_xfer_uart_cfg_default`. -/
def xferUartCfgsDefault : XferUartCfgs :=
  fun _ => ⟨false, 0, ⟨List.replicate xferUartAddrsNum 0, List.length_replicate⟩⟩

/-- `nUartGetInstance`, with what its argument is cut down to. -/
def nUartGetInstance (index : Int32) : Int8 := index.toInt8

/-- The place of an instance in the table. -/
def uartPlace (instance' : Int8) : Option (Fin boardUartMax) :=
  if h : 0 ≤ instance'.toInt ∧ instance'.toInt < boardUartMax then
    some ⟨instance'.toInt.toNat, (Int.toNat_lt h.1).mpr h.2⟩
  else none

/-- The addresses that `strtok` and `atoi` take from a list. -/
def addrsOf (addrs : String) : List UInt8 :=
  (((bytesOf addrs).splitOn 44).filter (· ≠ [])).map fun p => UInt8.ofInt (atoi p)

/-- The loop of `setXferUartCfgWithJson`, which stores addresses from a place on while there are
some and there is room. -/
def storeAddrs (stored : { addrs : List UInt8 // addrs.length = xferUartAddrsNum }) :
    ℕ → List UInt8 → { addrs : List UInt8 // addrs.length = xferUartAddrsNum }
  | _, [] => stored
  | index, addr :: rest =>
    if index < xferUartAddrsNum then storeAddrs
      ⟨stored.1.set index addr, by rw [List.length_set, stored.2]⟩ (index + 1) rest
    else stored

/-- The address list of a request; without a list there are no addresses. -/
def requestAddrs (pXferUCfg : CJson) : List UInt8 := ((pXferUCfg.getString "addrs").map addrsOf).getD []

/-- `setXferUartCfgWithJson`, with its change flag. -/
def setXferUartCfgWithJson (cfgs : XferUartCfgs) (pXferUCfg : CJson) : Option (XferUartCfgs × Bool) :=
  let num := pXferUCfg.getInt "n" (-1)
  let en := pXferUCfg.getInt "en" (-1)
  let cnt := pXferUCfg.getInt "cnt" (-1)
  if 0 ≤ num then
    (uartPlace (nUartGetInstance num)).map fun instance' =>
      let xbak := cfgs instance'
      let cfg : XferUartCfg :=
        { enable := if 0 ≤ en then decide (en ≠ 0) else xbak.enable
          count := if 0 ≤ cnt then cnt else xbak.count
          addrs := storeAddrs xbak.addrs 0 (requestAddrs pXferUCfg) }
      (Function.update cfgs instance' cfg, decide (xbak ≠ cfg))
  else some (cfgs, false)

/-- A loop over the first addresses of a port, which looks for one of them. -/
def findAddr (slaveAddr : UInt8) : List UInt8 → ℕ → Option Bool
  | _, 0 => some false
  | [], _ + 1 => none
  | addr :: rest, count + 1 => if slaveAddr = addr then some true else findAddr slaveAddr rest count

/-- The loop of `xfer_get_uart_with_slave_addr` over the ports that are left. -/
def findUart (dtu : Fin boardUartMax → Bool) (cfgs : XferUartCfgs) (slaveAddr : UInt8) :
    List (Fin boardUartMax) → Option (Option (Fin boardUartMax))
  | [] => some none
  | n :: rest =>
    if dtu n then
      (findAddr slaveAddr (cfgs n).addrs.1 (cfgs n).count.toInt.toNat).bind fun found =>
        if found then some (some n) else findUart dtu cfgs slaveAddr rest
    else findUart dtu cfgs slaveAddr rest

/-- `xfer_get_uart_with_slave_addr` -/
def xferGetUartWithSlaveAddr (dtu : Fin boardUartMax → Bool) (cfgs : XferUartCfgs) (slaveAddr : UInt8) :
    Option (Option (Fin boardUartMax)) :=
  findUart dtu cfgs slaveAddr (List.finRange boardUartMax)

/-- The table after a run of requests. -/
def xferUartRun (reqs : List CJson) : Option XferUartCfgs :=
  reqs.foldlM (fun cfgs req => (setXferUartCfgWithJson cfgs req).map Prod.fst) xferUartCfgsDefault

/-- The port that a request is for. -/
def requestUart (req : CJson) : Option (Fin boardUartMax) :=
  if 0 ≤ req.getInt "n" (-1) then uartPlace (nUartGetInstance (req.getInt "n" (-1))) else none

/-- A request gives a number of addresses. -/
def GivesCnt (req : CJson) : Prop := (req.getObjectItem "cnt").isSome = true

/-- A request gives a list of addresses. -/
def GivesAddrs (req : CJson) : Prop := (req.getObjectItem "addrs").isSome = true

instance (req : CJson) : Decidable (GivesCnt req) := inferInstanceAs (Decidable (_ = _))

instance (req : CJson) : Decidable (GivesAddrs req) := inferInstanceAs (Decidable (_ = _))

/-- The list of the last request for a port that gave a number and a list, as long as no request
gave one of them alone. -/
def lastGiven (u : Fin boardUartMax) (reqs : List CJson) : Option (List UInt8) :=
  reqs.foldl (fun last req =>
    if requestUart req ≠ some u then last
    else if GivesCnt req ∧ GivesAddrs req then some (requestAddrs req)
    else if GivesCnt req ∨ GivesAddrs req then none
    else last) none

/-- After a run of requests all accesses were in bounds, every lookup is, and it finds a port for an
address of its last list only. -/
def XferUartSound (reqs : List CJson) : Prop :=
  ∃ cfgs, xferUartRun reqs = some cfgs ∧ ∀ dtu slaveAddr,
    ∃ found, xferGetUartWithSlaveAddr dtu cfgs slaveAddr = some found ∧
      ∀ u list, found = some u → lastGiven u reqs = some list → slaveAddr ∈ list

/-- A request is for a port of the table or for none, its number is not above that of the places,
and beside a list it is the number of some of its addresses. -/
def RequestFits (req : CJson) : Prop :=
  (0 ≤ req.getInt "n" (-1) → (requestUart req).isSome = true) ∧
    (req.getInt "cnt" (-1)).toInt ≤ xferUartAddrsNum ∧
    (GivesCnt req ∧ GivesAddrs req →
      0 ≤ (req.getInt "cnt" (-1)).toInt ∧ (req.getInt "cnt" (-1)).toInt ≤ (requestAddrs req).length)

instance (req : CJson) : Decidable (RequestFits req) :=
  inferInstanceAs (Decidable ((_ → _) ∧ _ ∧ (_ ∧ _ → _ ∧ _)))

/-- A lookup among as many addresses as there are places stays among them. -/
theorem findAddr_eq {addrs : List UInt8} {count : ℕ} (h : count ≤ addrs.length) (slaveAddr : UInt8) :
    findAddr slaveAddr addrs count = some (decide (slaveAddr ∈ addrs.take count)) := by
  induction addrs generalizing count with
  | nil =>
    obtain rfl : count = 0 := Nat.le_zero.mp h
    rfl
  | cons addr rest ih =>
    cases count with
    | zero => rfl
    | succ count =>
      rw [findAddr, ih (Nat.le_of_succ_le_succ h)]
      by_cases heq : slaveAddr = addr
      · simp [heq]
      · simp [heq]

/-- The count of a port is one of its places. -/
def CountFits (cfg : XferUartCfg) : Prop := cfg.count.toInt.toNat ≤ xferUartAddrsNum

/-- In a table whose counts fit a lookup finds no port, or one among whose addresses the address is. -/
theorem findUart_eq {dtu : Fin boardUartMax → Bool} {cfgs : XferUartCfgs}
    (h : ∀ u, CountFits (cfgs u)) (slaveAddr : UInt8)
    (ports : List (Fin boardUartMax)) :
    ∃ found, findUart dtu cfgs slaveAddr ports = some found ∧
      ∀ u, found = some u → slaveAddr ∈ (cfgs u).addrs.1.take (cfgs u).count.toInt.toNat := by
  induction ports with
  | nil => exact ⟨none, rfl, fun _ hfound => nomatch hfound⟩
  | cons n rest ih =>
    rw [findUart]
    split
    · rw [findAddr_eq ((h n).trans_eq (cfgs n).addrs.2.symm), Option.bind_some]
      split
      · next hmem =>
        refine ⟨some n, rfl, fun u hu => ?_⟩
        obtain rfl := Option.some.inj hu
        exact of_decide_eq_true hmem
      · exact ih
    · exact ih

/-- Up to the end of what is stored there are stored addresses only, behind those that were in front. -/
theorem mem_storeAddrs {list : List UInt8}
    {stored : { addrs : List UInt8 // addrs.length = xferUartAddrsNum }} {index k : ℕ}
    (hk : k ≤ index + list.length) {a : UInt8} (ha : a ∈ (storeAddrs stored index list).1.take k) :
    a ∈ stored.1.take index ∨ a ∈ list := by
  induction list generalizing stored index with
  | nil => exact .inl (List.take_subset_take_left _ hk ha)
  | cons addr rest ih =>
    rw [storeAddrs] at ha
    split at ha
    · next hroom =>
      have hlength : index < stored.1.length := hroom.trans_eq stored.2.symm
      rcases ih (by rw [List.length_cons] at hk; omega) ha with hfront | hrest
      · rw [List.take_add_one, List.take_set_of_le (Nat.le_refl index),
          List.getElem?_set_self hlength, List.mem_append] at hfront
        rcases hfront with hbefore | hself
        · exact .inl hbefore
        · obtain rfl : a = addr := by simpa using hself
          exact .inr List.mem_cons_self
      · exact .inr (List.mem_cons_of_mem addr hrest)
    · next hfull =>
      left
      rw [List.take_of_length_le (stored.2.trans_le (Nat.le_of_not_lt hfull))]
      exact List.mem_of_mem_take ha

/-- The number of addresses that a request leaves to a port. -/
theorem count_eq (req : CJson) (old : Int32) (hold : old.toInt.toNat ≤ xferUartAddrsNum)
    (hcnt : (req.getInt "cnt" (-1)).toInt ≤ xferUartAddrsNum) :
    (if 0 ≤ req.getInt "cnt" (-1) then req.getInt "cnt" (-1) else old).toInt.toNat ≤
      xferUartAddrsNum := by
  split
  · omega
  · exact hold

/-- What a table keeps over a run: its counts fit, and of a port that a number and a list were given
for last it shows addresses of the list only. -/
structure XferUartInv (reqs : List CJson) (cfgs : XferUartCfgs) : Prop where
  counts : ∀ u, CountFits (cfgs u)
  shows : ∀ u list, lastGiven u reqs = some list →
    ∀ a ∈ (cfgs u).addrs.1.take (cfgs u).count.toInt.toNat, a ∈ list

/-- The default table shows no addresses. -/
theorem xferUartInv_nil : XferUartInv [] xferUartCfgsDefault where
  counts _ := Nat.zero_le _
  shows _ _ hlast := nomatch hlast

/-- One request more. -/
theorem lastGiven_concat (u : Fin boardUartMax) (reqs : List CJson) (req : CJson) :
    lastGiven u (reqs ++ [req]) =
      if requestUart req ≠ some u then lastGiven u reqs
      else if GivesCnt req ∧ GivesAddrs req then some (requestAddrs req)
      else if GivesCnt req ∨ GivesAddrs req then none
      else lastGiven u reqs := by
  rw [lastGiven, List.foldl_append, List.foldl_cons, List.foldl_nil]
  rfl

/-- A request without a number leaves the number as it is. -/
theorem getInt_of_not_givesCnt {req : CJson} (h : ¬ GivesCnt req) : req.getInt "cnt" (-1) = -1 := by
  rw [CJson.getInt, Option.not_isSome_iff_eq_none.mp h]
  rfl

/-- A request without a list has no addresses. -/
theorem requestAddrs_of_not_givesAddrs {req : CJson} (h : ¬ GivesAddrs req) :
    requestAddrs req = [] := by
  rw [requestAddrs, CJson.getString, Option.not_isSome_iff_eq_none.mp h]
  rfl

/-- A request that fits keeps the table. -/
theorem XferUartInv.step {reqs : List CJson} {cfgs : XferUartCfgs} (h : XferUartInv reqs cfgs)
    {req : CJson} (hfits : RequestFits req) :
    ∃ cfgs' flag, setXferUartCfgWithJson cfgs req = some (cfgs', flag) ∧
      XferUartInv (reqs ++ [req]) cfgs' := by
  obtain ⟨hport, hcnt, hboth⟩ := hfits
  rw [setXferUartCfgWithJson]
  split
  · next hnum =>
    obtain ⟨u, hu⟩ := Option.isSome_iff_exists.mp (hport hnum)
    have hplace : uartPlace (nUartGetInstance (req.getInt "n" (-1))) = some u := by
      rwa [requestUart, if_pos hnum] at hu
    refine ⟨_, _, by rw [hplace, Option.map_some], ?_, ?_⟩
    · intro v
      by_cases hv : v = u
      · subst hv
        rw [CountFits, Function.update_self]
        exact count_eq req _ (h.counts v) hcnt
      · rw [CountFits, Function.update_of_ne hv]
        exact h.counts v
    · intro v list hlast a ha
      rw [lastGiven_concat, hu] at hlast
      by_cases hv : v = u
      · subst hv
        rw [Function.update_self] at ha
        rw [if_neg (not_not.mpr rfl)] at hlast
        split_ifs at hlast with hgives hone
        · obtain ⟨hnonneg, hle⟩ := hboth hgives
          obtain rfl := Option.some.inj hlast
          rw [if_pos (Int32.le_iff_toInt_le.mpr (Int32.toInt_zero.trans_le hnonneg))] at ha
          have hk : (req.getInt "cnt" (-1)).toInt.toNat ≤ 0 + (requestAddrs req).length := by omega
          exact (mem_storeAddrs hk ha).resolve_left List.not_mem_nil
        · rw [not_or] at hone
          rw [getInt_of_not_givesCnt hone.1, requestAddrs_of_not_givesAddrs hone.2] at ha
          exact h.shows v list hlast a ha
      · rw [Function.update_of_ne hv] at ha
        rw [if_pos fun hsame => hv (Option.some.inj hsame).symm] at hlast
        exact h.shows v list hlast a ha
  · next hnum =>
    refine ⟨_, _, rfl, h.counts, fun u list hlast => h.shows u list ?_⟩
    rwa [lastGiven_concat,
      if_pos (by rw [requestUart, if_neg hnum]; exact (Option.some_ne_none u).symm)] at hlast

/-- A run of requests that fit keeps the table. -/
theorem xferUartRun_inv {reqs : List CJson} (h : ∀ req ∈ reqs, RequestFits req) :
    ∃ cfgs, xferUartRun reqs = some cfgs ∧ XferUartInv reqs cfgs := by
  induction reqs using List.reverseRecOn with
  | nil => exact ⟨xferUartCfgsDefault, rfl, xferUartInv_nil⟩
  | append_singleton reqs req ih =>
    obtain ⟨cfgs, hrun, hinv⟩ := ih fun req' hmem => h req' (List.mem_append_left _ hmem)
    obtain ⟨cfgs', flag, hset, hinv'⟩ := hinv.step (h req (by simp))
    refine ⟨cfgs', ?_, hinv'⟩
    rw [xferUartRun, List.foldlM_append, ← xferUartRun, hrun]
    simp [hset]

/-- In every run of requests that fit all accesses are in bounds, and lookups find a port for
addresses of its last list only. -/
theorem xferUart_sound (reqs : List CJson) (h : ∀ req ∈ reqs, RequestFits req) :
    XferUartSound reqs := by
  obtain ⟨cfgs, hrun, hinv⟩ := xferUartRun_inv h
  refine ⟨cfgs, hrun, fun dtu slaveAddr => ?_⟩
  obtain ⟨found, hfound, hshown⟩ := findUart_eq hinv.counts slaveAddr (List.finRange boardUartMax)
  exact ⟨found, hfound, fun u list hu hlast => hinv.shows u list hlast slaveAddr (hshown u hu)⟩

/-- A request that gives port 0 its addresses. -/
def addrsRequest (cnt : Int32) (addrs : String) : CJson :=
  .object [("n", .number 0), ("cnt", .number cnt), ("addrs", .string addrs)]

/-- Two requests that fit. -/
theorem xferUart_sound_two : XferUartSound [addrsRequest 2 "1,2", addrsRequest 1 "7"] :=
  xferUart_sound _ (by decide)

/-- After a shorter list the second address of the list before it still leads to the port. -/
theorem not_xferUart_sound : ¬ ∀ reqs, XferUartSound reqs := by
  intro h
  obtain ⟨cfgs, hrun, hlookup⟩ := h [addrsRequest 2 "1,2", addrsRequest 2 "7"]
  obtain ⟨found, hfound, hlast⟩ := hlookup (fun _ => true) 2
  have hport : (xferUartRun [addrsRequest 2 "1,2", addrsRequest 2 "7"]).bind
      (fun cfgs => xferGetUartWithSlaveAddr (fun _ => true) cfgs 2) =
        some (some ⟨0, by decide⟩) := by decide
  rw [hrun, Option.bind_some, hfound] at hport
  exact absurd (hlast _ [7] (Option.some.inj hport) (by decide)) (by decide)

end DasEdge.Board
