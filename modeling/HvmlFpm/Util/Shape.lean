import HvmlFpm.Util.Avl

/-!
# Trees in the store

How the links of the nodes hold a tree, seen from a place in it, and what a rotation does to it.
-/

namespace HvmlFpm.Util
open Library AvlTree

def Sub (node : Addr → Option Links) : Option Addr → AvlTree Addr → Prop
  | _, .nil => True
  | parent, .node a balance child =>
      node a = some ⟨parent, fun s => (child s).root, balance⟩ ∧ ∀ s, Sub node (some a) (child s)

def Above (t : Shape) : Path Addr → Option Addr → Prop
  | [], p => t.root = p
  | f :: path, p =>
      t.node f.a = some ⟨Path.parent path, f.side.pick p f.other.root, f.balance⟩ ∧ Sub t.node (some f.a) f.other ∧
        Above t path (some f.a)

structure At (t : Shape) (path : Path Addr) (tree : AvlTree Addr) : Prop where
  above : Above t path tree.root
  sub : Sub t.node (Path.parent path) tree
  nodup : (tree.inorder ++ Path.spine path).Nodup

section Sub
variable {node node' : Addr → Option Links} {parent : Option Addr} {tree : AvlTree Addr}

theorem sub_node {a : Addr} {balance : Int} {s : Side} {x y : AvlTree Addr} :
    Sub node parent (.node a balance (s.pick x y)) ↔
      node a = some ⟨parent, s.pick x.root y.root, balance⟩ ∧ Sub node (some a) x ∧ Sub node (some a) y := by
  have both : (∀ side, Sub node (some a) (s.pick x y side)) ↔ Sub node (some a) x ∧ Sub node (some a) y := s.forall_pick
  rw [Sub, both, Side.map_pick]

theorem Sub.congr (sub : Sub node parent tree) (same : ∀ a ∈ tree.inorder, node' a = node a) : Sub node' parent tree := by
  induction tree generalizing parent with
  | nil => trivial
  | node a balance child ih =>
      obtain ⟨links, below⟩ := sub
      refine ⟨(same a (by simp [inorder])).trans links, ?_⟩
      intro s
      apply ih s (below s)
      intro b member
      apply same b
      cases s <;> simp [inorder, member]

theorem root_mem {a : Addr} (root : tree.root = some a) : a ∈ tree.inorder := by
  cases tree with
  | nil => cases root
  | node b balance child =>
      obtain rfl := Option.some.inj root
      simp [inorder]

end Sub

section Above
variable {t t' : Shape} {path : Path Addr} {p : Option Addr}

theorem Above.congr (above : Above t path p) (root : t'.root = t.root)
    (same : ∀ a ∈ Path.spine path, t'.node a = t.node a) :
    Above t' path p := by
  induction path generalizing p with
  | nil => exact root.trans above
  | cons f path ih =>
      obtain ⟨links, other, above⟩ := above
      simp only [Path.spine, List.mem_cons, List.mem_append] at same
      refine ⟨(same f.a (.inl rfl)).trans links, other.congr fun a member => same a (.inr (.inl member)), ?_⟩
      exact ih above fun a member => same a (.inr (.inr member))

theorem at_fill {f : Frame Addr} {tree : AvlTree Addr} : At t (f :: path) tree ↔ At t path (f.fill tree) := by
  have perm : (tree.inorder ++ Path.spine (f :: path)).Perm ((f.fill tree).inorder ++ Path.spine path) := by
    rw [Path.spine, Frame.fill]
    refine List.Perm.trans ?_ (perm_inorder_node.symm.append_right _)
    simp
  constructor
  · rintro ⟨⟨links, other, above⟩, sub, nodup⟩
    exact ⟨above, sub_node.2 ⟨links, sub, other⟩, perm.nodup_iff.1 nodup⟩
  · rintro ⟨above, sub, nodup⟩
    obtain ⟨links, sub, other⟩ := sub_node.1 sub
    exact ⟨⟨links, other, above⟩, sub, perm.nodup_iff.2 nodup⟩

theorem At.congr {tree : AvlTree Addr} (place : At t path tree) (root : t'.root = t.root)
    (same : ∀ a ∈ tree.inorder ++ Path.spine path, t'.node a = t.node a) : At t' path tree where
  above := place.above.congr root fun a member => same a (List.mem_append_right _ member)
  sub := place.sub.congr fun a member => same a (List.mem_append_left _ member)
  nodup := place.nodup

theorem at_plug {inner : Path Addr} {tree : AvlTree Addr} :
    At t (inner ++ path) tree ↔ At t path (Path.plug inner tree) := by
  induction inner generalizing tree with
  | nil => rfl
  | cons f inner ih => exact at_fill.trans ih

end Above

section Set
variable {t : Shape} {a b : Addr} {n : Links}

@[simp] theorem set_node : (t.set a n).node a = some n := Function.update_self ..

theorem set_node_of_ne (ne : b ≠ a) : (t.set a n).node b = t.node b := Function.update_of_ne ne ..

theorem modify_eq (found : t.node a = some n) (f : Links → Links) : t.modify a f = some (t.set a (f n)) := by
  rw [Shape.modify, found, Option.map_some]

end Set

section Steps
variable {t : Shape} {path : Path Addr} {p : Option Addr}

theorem side_of {f : Frame Addr} {old : Addr} (fresh : f.other.root ≠ some old) :
    (if f.side.pick (some old) f.other.root .left = some old then Side.left else Side.right) = f.side := by
  obtain ⟨a, balance, side, other⟩ := f
  cases side with
  | left => exact if_pos rfl
  | right => exact if_neg fresh

theorem other_root_ne {f : Frame Addr} {old : Addr} (fresh : old ∉ Path.spine (f :: path)) :
    f.other.root ≠ some old := by
  intro root
  exact fresh (by simp [Path.spine, root_mem root])

theorem replaceChild_spec {old : Addr} (above : Above t path (some old)) (fresh : old ∉ Path.spine path)
    (nodup : (Path.spine path).Nodup) (p : Option Addr) :
    ∃ t', t.replaceChild (Path.parent path) old p = some t' ∧ Above t' path p ∧
      ∀ a, Path.parent path ≠ some a → t'.node a = t.node a := by
  cases path with
  | nil => exact ⟨{ t with root := p }, rfl, rfl, fun _ _ => rfl⟩
  | cons f path =>
      obtain ⟨links, other, above⟩ := above
      rw [Path.spine, List.nodup_cons] at nodup
      have away : ∀ a ∈ f.other.inorder ++ Path.spine path, a ≠ f.a := by
        rintro a member rfl
        exact nodup.1 member
      refine ⟨t.set f.a ⟨Path.parent path, f.side.pick p f.other.root, f.balance⟩, ?_, ⟨set_node, ?_, ?_⟩, ?_⟩
      · simp [Shape.replaceChild, Path.parent, links, modify_eq links, Links.setChild,
          side_of (other_root_ne fresh)]
      · exact other.congr fun a member => set_node_of_ne (away a (List.mem_append_left _ member))
      · exact above.congr rfl fun a member => set_node_of_ne (away a (List.mem_append_right _ member))
      · intro a other
        exact set_node_of_ne fun same => other (congrArg some same.symm)

theorem setParentOf_spec {parent : Option Addr} {tree : AvlTree Addr} (sub : Sub t.node parent tree)
    (nodup : tree.inorder.Nodup) (p : Option Addr) :
    ∃ t', t.setParentOf tree.root p = some t' ∧ Sub t'.node p tree ∧ t'.root = t.root ∧
      ∀ a ∉ tree.inorder, t'.node a = t.node a := by
  cases tree with
  | nil => exact ⟨t, rfl, trivial, rfl, fun _ _ => rfl⟩
  | node a balance child =>
      obtain ⟨links, below⟩ := sub
      have away : ∀ s, ∀ b ∈ (child s).inorder, b ≠ a := by
        rintro s b member rfl
        rw [← Side.pick_eta s child, perm_inorder_node.nodup_iff, List.nodup_cons] at nodup
        exact nodup.1 (List.mem_append_left _ member)
      refine ⟨t.set a ⟨p, fun s => (child s).root, balance⟩, ?_, ⟨set_node, fun s => ?_⟩, rfl, ?_⟩
      · exact modify_eq links _
      · exact (below s).congr fun b member => set_node_of_ne (away s b member)
      · intro b outside
        apply set_node_of_ne
        rintro rfl
        exact outside (by simp [inorder])

end Steps

/-- The elements are the same, in the same order, and nothing else is touched. -/
structure Keeps (t : Shape) (whole : AvlTree Addr) (t' : Shape) (whole' : AvlTree Addr) : Prop where
  inorder : whole'.inorder = whole.inorder
  off : ∀ a ∉ whole.inorder, t'.node a = t.node a

theorem Keeps.trans {t t' t'' : Shape} {w w' w'' : AvlTree Addr} (first : Keeps t w t' w') (second : Keeps t' w' t'' w'') :
    Keeps t w t'' w'' :=
  ⟨second.inorder.trans first.inorder, fun a outside =>
    (second.off a (first.inorder ▸ outside)).trans (first.off a outside)⟩

theorem at_whole {t : Shape} {path : Path Addr} {tree : AvlTree Addr} :
    At t path tree ↔ At t [] (Path.plug path tree) := by
  have place : At t (path ++ []) tree ↔ At t [] (Path.plug path tree) := at_plug
  rwa [List.append_nil] at place

theorem avlLift_eq (s : Side) : avlLift s = avlRotate s s.lowered s.lifted := by cases s <;> rfl

section Rotation
variable {t : Shape} {path : Path Addr} {s : Side} {x y : Addr} {bx yb : Int} {A B C : AvlTree Addr}

theorem perm_rotation : ((node x bx (s.pick (node y yb (s.pick A B)) C)).inorder ++ Path.spine path).Perm
    (x :: y :: (A.inorder ++ (B.inorder ++ (C.inorder ++ Path.spine path)))) := by
  have inner : (node y yb (s.pick A B)).inorder.Perm (y :: (A.inorder ++ B.inorder)) := perm_inorder_node
  refine (perm_inorder_node.append_right _).trans (List.Perm.cons x ?_)
  simpa using (inner.append_right C.inorder).append_right (Path.spine path)

theorem parent_mem {a : Addr} (parent : Path.parent path = some a) : a ∈ Path.spine path := by
  cases path with
  | nil => cases parent
  | cons f path =>
      obtain rfl := Option.some.inj parent
      exact List.mem_cons_self

theorem avlLift_spec (place : At t path (node x bx (s.pick (node y yb (s.pick A B)) C))) :
    ∃ t', avlLift s t x = some t' ∧ At t' path (rotated s x bx y yb A B C) ∧
      Keeps t (Path.plug path (node x bx (s.pick (node y yb (s.pick A B)) C))) t'
        (Path.plug path (rotated s x bx y yb A B C)) := by
  obtain ⟨above, sub, nodup⟩ := place
  obtain ⟨linksX, subY, subC⟩ := sub_node.1 sub
  obtain ⟨linksY, subA, subB⟩ := sub_node.1 subY
  have apart := perm_rotation.nodup_iff.1 nodup
  simp only [List.nodup_cons, List.mem_cons, List.mem_append, not_or, List.nodup_append'] at apart
  obtain ⟨⟨xy, xA, xB, xC, xS⟩, ⟨yA, yB, yC, yS⟩, nodupA, ⟨nodupB, ⟨nodupC, nodupS, disjC⟩, disjB⟩, disjA⟩ := apart
  have parX : Path.parent path ≠ some x := fun parent => xS (parent_mem parent)
  have parY : Path.parent path ≠ some y := fun parent => yS (parent_mem parent)
  -- Both nodes change their parents, and the place gets the other node.
  let t₁ := t.set y ⟨Path.parent path, s.pick A.root B.root, yb⟩
  let t₂ := t₁.set x ⟨some y, s.pick (some y) C.root, bx⟩
  have off₂ : ∀ a, a ≠ x → a ≠ y → t₂.node a = t.node a := fun a ax ay =>
    (set_node_of_ne ax).trans (set_node_of_ne ay)
  have above₂ : Above t₂ path (some x) := above.congr rfl fun a member =>
    off₂ a (fun same => xS (same ▸ member)) (fun same => yS (same ▸ member))
  obtain ⟨t₃, replaced, above₃, off₃⟩ := replaceChild_spec above₂ xS nodupS (some y)
  have linksX₃ : t₃.node x = some ⟨some y, s.pick (some y) C.root, bx⟩ := (off₃ x parX).trans set_node
  have linksY₃ : t₃.node y = some ⟨Path.parent path, s.pick A.root B.root, yb⟩ :=
    (off₃ y parY).trans ((set_node_of_ne (Ne.symm xy)).trans set_node)
  -- The middle subtree changes sides.
  let t₄ := t₃.set x ⟨some y, s.pick B.root C.root, bx⟩
  let t₅ := t₄.set y ⟨Path.parent path, s.pick A.root (some x), yb⟩
  have off₅ : ∀ a, a ≠ x → a ≠ y → Path.parent path ≠ some a → t₅.node a = t.node a := fun a ax ay parent =>
    (set_node_of_ne ay).trans ((set_node_of_ne ax).trans ((off₃ a parent).trans (off₂ a ax ay)))
  have subB₅ : Sub t₅.node (some y) B := subB.congr fun a member =>
    off₅ a (fun same => xB (same ▸ member)) (fun same => yB (same ▸ member))
      (fun parent => disjB member (List.mem_append_right _ (parent_mem parent)))
  obtain ⟨t₆, linked, subB₆, root₆, off₆⟩ := setParentOf_spec subB₅ nodupB (some x)
  have linksX₆ : t₆.node x = some ⟨some y, s.pick B.root C.root, bx⟩ :=
    (off₆ x xB).trans ((set_node_of_ne xy).trans set_node)
  have linksY₆ : t₆.node y = some ⟨Path.parent path, s.pick A.root (some x), yb⟩ := (off₆ y yB).trans set_node
  -- The balances.
  let t₇ := t₆.set x ⟨some y, s.pick B.root C.root, s.lowered bx yb⟩
  let t₈ := t₇.set y ⟨Path.parent path, s.pick A.root (some x), s.lifted yb (s.lowered bx yb)⟩
  have off₈ : ∀ a, a ≠ x → a ≠ y → t₈.node a = t₆.node a := fun a ax ay =>
    (set_node_of_ne ay).trans (set_node_of_ne ax)
  have run : avlLift s t x = some t₈ := by
    have step₁ : t.modify y (fun u => u.setParent (Path.parent path)) = some t₁ := modify_eq linksY _
    have step₂ : t₁.modify x (fun n => n.setParent (some y)) = some t₂ :=
      modify_eq ((set_node_of_ne xy).trans linksX) _
    have step₄ : t₃.modify x (fun n => n.setChild s B.root) = some t₄ := by
      rw [modify_eq linksX₃, Links.setChild, Side.update_pick]
    have step₅ : t₄.modify y (fun u => u.setChild s.flip (some x)) = some t₅ := by
      rw [modify_eq ((set_node_of_ne (Ne.symm xy)).trans linksY₃), Links.setChild, Side.update_pick_flip]
    have step₇ : t₆.modify x (fun n => n.setBalance (s.lowered n.balance yb)) = some t₇ := modify_eq linksX₆ _
    have linksY₇ : t₇.node y = some ⟨Path.parent path, s.pick A.root (some x), yb⟩ :=
      (set_node_of_ne (Ne.symm xy)).trans linksY₆
    have step₈ : t₇.modify y (fun u => u.setBalance (s.lifted u.balance (s.lowered bx yb))) = some t₈ :=
      modify_eq linksY₇ _
    have linksX₇ : t₇.node x = some ⟨some y, s.pick B.root C.root, s.lowered bx yb⟩ := set_node
    simp [avlLift_eq, avlRotate, linksX, step₁, step₂, replaced, linksY₃, step₄, step₅, linked, linksY₆, step₇,
      linksX₇, step₈]
  have offTree : ∀ a, a ≠ x → a ≠ y → a ∉ B.inorder → Path.parent path ≠ some a → t₈.node a = t.node a :=
    fun a ax ay aB parent => (off₈ a ax ay).trans ((off₆ a aB).trans (off₅ a ax ay parent))
  refine ⟨t₈, run, ⟨?_, ?_, ?_⟩, ?_, ?_⟩
  · have root₈ : t₈.root = t₃.root := root₆
    refine Above.congr (p := some y) above₃ root₈ ?_
    intro a member
    have ax : a ≠ x := fun same => xS (same ▸ member)
    have ay : a ≠ y := fun same => yS (same ▸ member)
    have aB : a ∉ B.inorder := fun inB => disjB inB (List.mem_append_right _ member)
    exact (off₈ a ax ay).trans ((off₆ a aB).trans ((set_node_of_ne ay).trans (set_node_of_ne ax)))
  · refine sub_node.2 ⟨set_node, ?_, sub_node.2 ⟨(set_node_of_ne xy).trans set_node, ?_, ?_⟩⟩
    · apply subA.congr
      intro a member
      exact offTree a (fun same => xA (same ▸ member)) (fun same => yA (same ▸ member))
        (fun inB => disjA member (List.mem_append_left _ inB))
        (fun parent => disjA member (List.mem_append_right _ (List.mem_append_right _ (parent_mem parent))))
    · exact subB₆.congr fun a member => off₈ a (fun same => xB (same ▸ member)) (fun same => yB (same ▸ member))
    · apply subC.congr
      intro a member
      exact offTree a (fun same => xC (same ▸ member)) (fun same => yC (same ▸ member))
        (fun inB => disjB inB (List.mem_append_left _ member)) (fun parent => disjC member (parent_mem parent))
  · rw [inorder_rotated]
    exact nodup
  · rw [Path.inorder_plug, Path.inorder_plug, inorder_rotated]
  · intro a outside
    rw [(Path.perm_inorder_plug _ _).mem_iff, perm_rotation.mem_iff] at outside
    simp only [List.mem_cons, List.mem_append, not_or] at outside
    obtain ⟨ax, ay, -, aB, -, aS⟩ := outside
    exact offTree a ax ay aB fun parent => aS (parent_mem parent)

end Rotation

end HvmlFpm.Util
