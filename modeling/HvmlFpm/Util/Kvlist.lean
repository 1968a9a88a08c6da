import Mathlib.Algebra.Order.Ring.Nat
import HvmlFpm.Library.Numeral
import HvmlFpm.Util.Avl
import HvmlFpm.Util.List

/-!
# The functions of kvlist

`kvlist.c` in pointer mode, over `avl_find`, `avl_insert` and `avl_delete`. The comparison is `avl_strcmp`, and
`allow_dups` is false.
-/

namespace HvmlFpm.Util
open Library

/-- By the first byte that differs; a string comes before those that it begins. -/
def strcmp (s t : CString) : Ordering := compare s.bytes t.bytes

def uint (n : Nat) : Nat := n % 2 ^ 32

/-- The other fields of a node: the key and `leader` of its `avl_node`, and the data behind it. -/
structure Entry (β : Type) where
  key : CString
  leader : Bool
  data : β

/-- A kvlist and the nodes that are allocated. `count` is an `unsigned int`. -/
structure Kv (β : Type) where
  shape : Shape
  lists : Lists
  entry : Addr → Option (Entry β)
  count : Nat
  live : List Addr

namespace Kv
variable {β : Type}

def fuel (kv : Kv β) : Nat := kv.live.length + 2

def key (kv : Kv β) (node : Addr) : Option CString := (kv.entry node).map Entry.key

def calloc (kv : Kv β) (node : Addr) : Kv β :=
  { kv with
    shape := kv.shape.set node ⟨none, fun _ => none, 0⟩
    lists := Function.update kv.lists (.node node) (some ⟨none, none⟩)
    live := node :: kv.live }

/-- `memcpy(node->data, data, len)` and `node->avl.key = strcpy(name_buf, name)`. -/
def store (kv : Kv β) (node : Addr) (name : CString) (data : β) : Kv β :=
  { kv with entry := Function.update kv.entry node (some ⟨name, false, data⟩) }

def setLeader (kv : Kv β) (node : Addr) : Option (Kv β) :=
  (kv.entry node).map fun e => { kv with entry := Function.update kv.entry node (some { e with leader := true }) }

def free (kv : Kv β) (node : Addr) : Option (Kv β) :=
  if node ∈ kv.live then
    some { kv with
      shape := { kv.shape with node := Function.update kv.shape.node node none }
      lists := Function.update kv.lists (.node node) none
      entry := Function.update kv.entry node none
      live := kv.live.erase node }
  else none

end Kv

section Functions
variable {β : Type}

def kvlistInit : Kv β :=
  { shape := ⟨none, fun _ => none⟩
    lists := Function.update (fun _ => none) .head (some ⟨some .head, some .head⟩)
    entry := fun _ => none
    count := 0
    live := [] }

def avlFindRec (kv : Kv β) (key : CString) : Nat → Addr → Option (Addr × Ordering)
  | 0, _ => none
  | fuel + 1, node => do
      let own ← kv.key node
      let n ← kv.shape.node node
      match strcmp key own with
      | .lt =>
          match n.child .left with
          | some left => avlFindRec kv key fuel left
          | none => some (node, .lt)
      | .gt =>
          match n.child .right with
          | some right => avlFindRec kv key fuel right
          | none => some (node, .gt)
      | .eq => some (node, .eq)

/-- NULL is `none` inside. -/
def avlFind (kv : Kv β) (key : CString) : Option (Option Addr) :=
  match kv.shape.root with
  | none => some none
  | some root => do
      let (node, diff) ← avlFindRec kv key kv.fuel root
      some (if diff = .eq then some node else none)

def lastOfKey (kv : Kv β) : Nat → Addr → Option Addr
  | 0, _ => none
  | fuel + 1, last => do
      match ← kv.lists.next (.node last) with
      | .head => some last
      | .node next =>
          let e ← kv.entry next
          if e.leader then some last else lastOfKey kv fuel next

def avlInsertBefore (kv : Kv β) (pos node : Addr) : Option (Kv β) := do
  let lists ← listAddTail kv.lists (.node node) (.node pos)
  some { kv with lists := lists, count := uint (kv.count + 1) }

def avlInsertAfter (kv : Kv β) (pos node : Addr) : Option (Kv β) := do
  let lists ← listAdd kv.lists (.node node) (.node pos)
  some { kv with lists := lists, count := uint (kv.count + 1) }

def avlAttach (s : Side) (balance : Int) (t : Shape) (node new : Addr) : Option Shape := do
  let t ← t.modify node fun n => n.setBalance balance
  let t ← t.modify new fun n => n.setParent (some node)
  t.modify node fun n => n.setChild s (some new)

/-- The end of `avl_insert`: the search for the key has come to `node`, and `last` is the last node of its key. -/
def avlInsertAt (kv : Kv β) (new node last : Addr) : Option (Kv β × Int) := do
  let key ← kv.key new
  let own ← kv.key node
  let n ← kv.shape.node node
  match strcmp key own with
  | .eq => some (kv, -1)
  | diff =>
      if n.balance = 1 then
        let kv ← avlInsertBefore kv node new
        let shape ← avlAttach .left 0 kv.shape node new
        some ({ kv with shape := shape }, 0)
      else if n.balance = -1 then
        let kv ← avlInsertAfter kv last new
        let shape ← avlAttach .right 0 kv.shape node new
        some ({ kv with shape := shape }, 0)
      else if diff = .lt then
        let kv ← avlInsertBefore kv node new
        let shape ← avlAttach .left (-1) kv.shape node new
        let shape ← postInsert kv.fuel shape node
        some ({ kv with shape := shape }, 0)
      else
        let kv ← avlInsertAfter kv last new
        let shape ← avlAttach .right 1 kv.shape node new
        let shape ← postInsert kv.fuel shape node
        some ({ kv with shape := shape }, 0)

/-- The result is 0, or -1 for a key that is there. -/
def avlInsert (kv : Kv β) (new : Addr) : Option (Kv β × Int) := do
  let shape ← kv.shape.modify new fun _ => ⟨none, fun _ => none, 0⟩
  let kv ← { kv with shape := shape }.setLeader new
  match kv.shape.root with
  | none => do
      let lists ← listAdd kv.lists (.node new) .head
      some ({ kv with lists := lists, shape := { kv.shape with root := some new }, count := 1 }, 0)
  | some root => do
      let key ← kv.key new
      let (node, _) ← avlFindRec kv key kv.fuel root
      let last ← lastOfKey kv kv.fuel node
      avlInsertAt kv new node last

def avlDelete (kv : Kv β) (node : Addr) : Option (Kv β) := do
  let e ← kv.entry node
  let shape ← if e.leader then avlDeleteWorker kv.fuel kv.shape node else some kv.shape
  let lists ← listDel kv.lists (.node node)
  some { kv with shape := shape, lists := lists, count := uint (kv.count + (2 ^ 32 - 1)) }

def kvlistGet (kv : Kv β) (name : CString) : Option (Option β) := do
  match ← avlFind kv name with
  | none => some none
  | some node =>
      let e ← kv.entry node
      some (some e.data)

def kvlistDelete (kv : Kv β) (name : CString) : Option (Kv β × Bool) := do
  match ← avlFind kv name with
  | none => some (kv, false)
  | some node =>
      let kv ← avlDelete kv node
      let kv ← kv.free node
      some (kv, true)

/-- The `int` that `mc_calloc_a` sums up: the node with its pointer has 72 bytes, and the name behind it is filled up to
a multiple of 8. -/
def allocLen (name : CString) : Int := toInt (72 + (name.length + 1 + 7) / 8 * 8)

/-- `node` is what `calloc` returns; no size that is negative can be had. The result is the key of the new node, or NULL.
The arguments may be `stored` in the node that the name has so far. -/
def kvlistSetEx (kv : Kv β) (node : Option Addr) (name : CString) (data : β) (stored : Bool) :
    Option (Kv β × Option CString) :=
  match node with
  | none => some (kv, none)
  | some node =>
      if allocLen name < 0 then some (kv, none)
      else do
        let (kv, freed) ← kvlistDelete (kv.calloc node) name
        -- What `memcpy` and `strcpy` read has not been freed, and what they write is within the block.
        if stored && freed then none
        else if allocLen name < 72 + name.length + 1 then none
        else
          let (kv, _) ← avlInsert (kv.store node name data) node
          some (kv, some name)

/-- The pairs that the body of `kvlist_for_each_safe` sees from an element on, with the next one read before. -/
def kvlistForEachFrom (kv : Kv β) : Nat → ListPtr → ListPtr → Option (List (CString × β))
  | 0, _, _ => none
  | _ + 1, .head, _ => some []
  | fuel + 1, .node node, next => do
      let e ← kv.entry node
      let later ← kv.lists.next next
      let rest ← kvlistForEachFrom kv fuel next later
      some ((e.key, e.data) :: rest)

def kvlistForEachSafe (kv : Kv β) : Option (List (CString × β)) := do
  let first ← kv.lists.next .head
  let next ← kv.lists.next first
  kvlistForEachFrom kv kv.fuel first next

/-- The body of `avl_remove_all_elements` is `free(node)`, `count` times; the result has the nodes in this order. -/
def avlRemoveFrom (kv : Kv β) : Nat → ListPtr → ListPtr → Option (Kv β × List Addr)
  | 0, _, _ => some (kv, [])
  | _ + 1, .head, _ => none
  | count + 1, .node node, next => do
      let kv ← kv.free node
      let later ← kv.lists.next next
      let (kv, freed) ← avlRemoveFrom { kv with count := count } count next later
      some (kv, node :: freed)

def kvlistFree (kv : Kv β) : Option (Kv β × List Addr) := do
  let first ← kv.lists.next .head
  let next ← kv.lists.next first
  let lists ← kv.lists.setPrev .head (some .head)
  let lists ← lists.setNext .head (some .head)
  avlRemoveFrom { kv with lists := lists, shape := { kv.shape with root := none } } kv.count first next

end Functions

end HvmlFpm.Util
