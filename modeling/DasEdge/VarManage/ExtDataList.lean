import DasEdge.Library.DoublyLinked
import DasEdge.Library.GuardedRun
import DasEdge.VarManage.ExtData

/-!
# The list of collected variables

The doubly linked list `s_xExtDataList` and the three calls that change its links. A `while` loop is
given a number of rounds; the model answers `none` when a loop does not end within them or when the
code follows a link that is null or points to no node.
-/

namespace DasEdge.VarManage

open DasEdge.Library

/-- `ExtDataList_t` with the nodes it links. -/
structure ExtDataList where
  heap : LinkHeap ExtData
  n : ℤ
  pList : Option ℕ

/-- `while (last && last->next) last = last->next` from a node on. -/
def lastNode (h : LinkHeap ExtData) : ℕ → ℕ → Option ℕ
  | 0, _ => none
  | fuel + 1, last => do
    match (← h last).next with
    | none => some last
    | some next => lastNode h fuel next

/-- `vVarManage_InsertNode` of a fresh node at `p` that holds `data`. -/
def insertNode (fuel : ℕ) (list : ExtDataList) (p : ℕ) (data : ExtData) : Option ExtDataList := do
  let h := Function.update list.heap p (some ⟨data, none, none⟩)
  match list.pList with
  | none => some ⟨h, list.n + 1, some p⟩
  | some first =>
    let last ← lastNode h fuel first
    let h ← setNext h last (some p)
    let h ← setPrev h p (some last)
    some ⟨h, list.n + 1, list.pList⟩

/-- `__GetExtDataWithName`: the first node of that name, or null. -/
def getExtDataWithName (h : LinkHeap ExtData) (name : String) : ℕ → Option ℕ → Option (Option ℕ)
  | 0, _ => none
  | _ + 1, none => some none
  | fuel + 1, some p => do
    let node ← h p
    if name = node.data.szName then some (some p) else getExtDataWithName h name fuel node.next

/-- `vVarManage_RemoveNodeWithName`: the node that is freed, if any. -/
def removeNodeWithName (fuel : ℕ) (list : ExtDataList) (name : String) :
    Option (Option ℕ × ExtDataList) := do
  match ← getExtDataWithName list.heap name fuel list.pList with
  | none => some (none, list)
  | some p =>
    let node ← list.heap p
    let (h, pList) ← setEntry list.heap list.pList node.prev node.next
    let h ← setBack h node.next node.prev
    let n := list.n - 1
    some (some p, ⟨Function.update h p none, n, if n = 0 then none else pList⟩)

/-- The splice of `__sort_extdata_link` that takes `next` out from behind `node` and puts it before
`tmp`, which is the first node when `head` is set. -/
def spliceBefore (h : LinkHeap ExtData) (head : Bool) (node next tmp : ℕ) :
    Option (LinkHeap ExtData) := do
  let h ← setNext h node (← h next).next
  let h ← setBack h (← h next).next (some node)
  let h ← setNext h next (some tmp)
  let h ← setPrev h next (← h tmp).prev
  let h ← if head then some h else setNext h (← (← h tmp).prev) (some next)
  -- the node behind `tmp` gets the link that `tmp` itself should get
  setBack h (← h tmp).next (some next)

/-- The inner loop of `__sort_extdata_link`, which looks for a place for `next` from `tmp` on. -/
def sortPlace (list : ExtDataList) (top node next : ℕ) : ℕ → Option ℕ → Option (ExtDataList × ℕ)
  | 0, _ => none
  | fuel + 1, tmp =>
    if tmp = some next then some (list, top)
    else do
      let tmp ← tmp
      let tmpNode ← list.heap tmp
      let nextNode ← list.heap next
      match tmpNode.prev with
      | some prev =>
        let prevNode ← list.heap prev
        if nextNode.data.xIo.usAddr ≥ prevNode.data.xIo.usAddr ∧
            nextNode.data.xIo.usAddr ≤ tmpNode.data.xIo.usAddr then
          let h ← spliceBefore list.heap false node next tmp
          some ({ list with heap := h }, top)
        else sortPlace list top node next fuel tmpNode.next
      | none =>
        if nextNode.data.xIo.usAddr ≤ tmpNode.data.xIo.usAddr then
          let h ← spliceBefore list.heap true node next tmp
          some ({ list with heap := h, pList := some next }, next)
        else sortPlace list top node next fuel tmpNode.next

/-- The outer loop of `__sort_extdata_link` from `node` on. -/
def sortFrom (fuel : ℕ) : ℕ → ExtDataList → ℕ → Option ℕ → Option ExtDataList
  | 0, _, _, _ => none
  | _ + 1, list, _, none => some list
  | rounds + 1, list, top, some node => do
    let (list, top) ← match (← list.heap node).next with
      | some next => sortPlace list top node next fuel (some top)
      | none => some (list, top)
    sortFrom fuel rounds list top (← list.heap node).next

/-- `__sort_extdata_link` -/
def sortExtdataLink (fuel : ℕ) (list : ExtDataList) : Option ExtDataList :=
  match list.pList with
  | none => some list
  | some top => sortFrom fuel fuel list top (some top)

/-- A call on the list. The address that the allocator gave a new node comes with the insertion. -/
inductive ExtDataOp where
  | insert (p : ℕ) (data : ExtData)
  | remove (name : String)
  | sort

/-- One call, with the node that it freed. -/
def extDataStep (fuel : ℕ) (list : ExtDataList) : ExtDataOp → Option (Option ℕ × ExtDataList)
  | .insert p data => (insertNode fuel list p data).map fun list' => (none, list')
  | .remove name => removeNodeWithName fuel list name
  | .sort => (sortExtdataLink fuel list).map fun list' => (none, list')

end DasEdge.VarManage
