import HvmlFpm.Library.AvlTree
import HvmlFpm.Library.CString

/-!
# The tree of `avl.c`

The functions of `avl.c` that follow and change the links between the nodes. A node is an address, and a
pointer to one may be NULL; what is not allocated cannot be read or written.
-/

namespace HvmlFpm.Util
open Library

abbrev Addr := Nat

structure Links where
  parent : Option Addr
  child : Side → Option Addr
  balance : Int

namespace Links

def setParent (n : Links) (parent : Option Addr) : Links := { n with parent := parent }

def setChild (n : Links) (s : Side) (p : Option Addr) : Links := { n with child := Function.update n.child s p }

def setBalance (n : Links) (balance : Int) : Links := { n with balance := balance }

end Links

structure Shape where
  root : Option Addr
  node : Addr → Option Links

namespace Shape

def set (t : Shape) (a : Addr) (n : Links) : Shape := { t with node := Function.update t.node a (some n) }

def modify (t : Shape) (a : Addr) (f : Links → Links) : Option Shape := (t.node a).map fun n => t.set a (f n)

def replaceChild (t : Shape) (parent : Option Addr) (node : Addr) (p : Option Addr) : Option Shape :=
  match parent with
  | none => some { t with root := p }
  | some parent => do
      let n ← t.node parent
      t.modify parent fun n' => n'.setChild (if n.child .left = some node then .left else .right) p

/-- `if (p != NULL) p->parent = parent;` -/
def setParentOf (t : Shape) (p parent : Option Addr) : Option Shape :=
  match p with
  | none => some t
  | some a => t.modify a fun n => n.setParent parent

end Shape

def avlRotate (s : Side) (nodeBalance upBalance : Int → Int → Int) (t : Shape) (node : Addr) : Option Shape := do
  let n ← t.node node
  let up ← n.child s
  let t ← t.modify up fun u => u.setParent n.parent
  let t ← t.modify node fun n => n.setParent (some up)
  let t ← t.replaceChild n.parent node (some up)
  let u ← t.node up
  let t ← t.modify node fun n => n.setChild s (u.child s.flip)
  let t ← t.modify up fun u => u.setChild s.flip (some node)
  let t ← t.setParentOf (u.child s.flip) (some node)
  let u ← t.node up
  let t ← t.modify node fun n => n.setBalance (nodeBalance n.balance u.balance)
  let n ← t.node node
  t.modify up fun u => u.setBalance (upBalance u.balance n.balance)

def avlRotateRight : Shape → Addr → Option Shape :=
  avlRotate .left (fun node left => node + (1 - min left 0)) fun left node => left + (1 + max node 0)

def avlRotateLeft : Shape → Addr → Option Shape :=
  avlRotate .right (fun node right => node - (1 + max right 0)) fun right node => right - (1 - min node 0)

def avlLift : Side → Shape → Addr → Option Shape
  | .left => avlRotateRight
  | .right => avlRotateLeft

/-- `post_insert` where `node` is the child of `parent` on this side. -/
def postInsertOn (s : Side) (again : Shape → Addr → Option Shape) (t : Shape) (node parent : Addr) : Option Shape := do
  let t ← t.modify parent fun p => p.setBalance (p.balance + s.toward)
  let p ← t.node parent
  if p.balance = 0 then some t
  else if p.balance = s.toward then again t parent
  else
    let n ← t.node node
    if n.balance = s.toward then avlLift s t parent
    else
      let t ← avlLift s.flip t node
      let n ← t.node node
      let u ← n.parent.bind t.node
      let top ← u.parent
      avlLift s t top

def postInsert : Nat → Shape → Addr → Option Shape
  | 0, _, _ => none
  | fuel + 1, t, node => do
      let n ← t.node node
      match n.parent with
      | none => some t
      | some parent =>
          let p ← t.node parent
          postInsertOn (if p.child .left = some node then .left else .right) (postInsert fuel) t node parent

/-- The child of `parent` on this side has become lower: the rest of `avl_post_delete`, and of the removal of a
leaf in `avl_delete_worker`, which makes the first two tests in the other order. -/
def avlLowered (s : Side) (again : Shape → Addr → Option Shape) (t : Shape) (parent : Addr) : Option Shape := do
  let t ← t.modify parent fun p => p.setBalance (p.balance - s.toward)
  let p ← t.node parent
  if p.balance = 0 then again t parent
  else if p.balance = s.flip.toward then some t
  else
    let sibling ← p.child s.flip
    let b ← t.node sibling
    if b.balance = 0 then avlLift s.flip t parent
    else if b.balance = s.flip.toward then
      let t ← avlLift s.flip t parent
      let p ← t.node parent
      let top ← p.parent
      again t top
    else
      let t ← avlLift s t sibling
      let t ← avlLift s.flip t parent
      let p ← t.node parent
      let top ← p.parent
      again t top

def avlPostDelete : Nat → Shape → Addr → Option Shape
  | 0, _, _ => none
  | fuel + 1, t, node => do
      let n ← t.node node
      match n.parent with
      | none => some t
      | some parent =>
          let p ← t.node parent
          avlLowered (if p.child .left = some node then .left else .right) (avlPostDelete fuel) t parent

def avlLocalMin : Nat → Shape → Addr → Option Addr
  | 0, _, _ => none
  | fuel + 1, t, node => do
      let n ← t.node node
      match n.child .left with
      | none => some node
      | some left => avlLocalMin fuel t left

def avlDeleteLeaf (fuel : Nat) (t : Shape) (node : Addr) (parent : Option Addr) : Option Shape :=
  match parent with
  | none => some { t with root := none }
  | some parent => do
      let p ← t.node parent
      if p.child .left = some node then
        let t ← t.modify parent fun p => p.setChild .left none
        avlLowered .left (avlPostDelete fuel) t parent
      else if p.child .right = some node then
        let t ← t.modify parent fun p => p.setChild .right none
        avlLowered .right (avlPostDelete fuel) t parent
      else none -- what follows in the source needs `node->right`

def avlDeleteOne (fuel : Nat) (t : Shape) (node : Addr) (parent : Option Addr) (child : Addr) : Option Shape := do
  let t ← t.modify child fun c => c.setParent parent
  let t ← t.replaceChild parent node (some child)
  match parent with
  | none => some t
  | some _ => avlPostDelete fuel t child

def avlTakePlace (t : Shape) (node min : Addr) : Option Shape := do
  let n ← t.node node
  let t ← t.modify min fun _ => n
  let t ← t.setParentOf (n.child .left) (some min)
  let t ← t.setParentOf (n.child .right) (some min)
  t.replaceChild n.parent node (some min)

def avlDeleteWorker : Nat → Shape → Addr → Option Shape
  | 0, _, _ => none
  | fuel + 1, t, node => do
      let n ← t.node node
      match n.child .left, n.child .right with
      | none, none => avlDeleteLeaf (fuel + 1) t node n.parent
      | none, some right => avlDeleteOne (fuel + 1) t node n.parent right
      | some left, none => avlDeleteOne (fuel + 1) t node n.parent left
      | some _, some right => do
          let min ← avlLocalMin (fuel + 1) t right
          let t ← avlDeleteWorker fuel t min
          avlTakePlace t node min

end HvmlFpm.Util
