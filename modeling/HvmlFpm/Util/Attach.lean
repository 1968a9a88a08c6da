import HvmlFpm.Util.Delete
import HvmlFpm.Util.Kvlist

namespace HvmlFpm.Util
open Library AvlTree

def leaf (a : Addr) : AvlTree Addr := node a 0 fun _ => nil

def HoldsTree (t : Shape) (nodes : List Addr) : Prop := ∃ tree, At t [] tree ∧ tree.Balanced ∧ tree.inorder = nodes

section Attach
variable {t : Shape} {path : Path Addr} {x a : Addr} {b : Int} {s : Side} {C : AvlTree Addr} {fuel : Nat}

theorem avlAttach_spec (place : At t path (node x b (s.pick nil C)))
    (fresh : a ∉ (Path.plug path (node x b (s.pick nil C))).inorder) (new : t.node a = some ⟨none, fun _ => none, 0⟩)
    (balance : Int) :
    ∃ t', avlAttach s balance t x a = some t' ∧ At t' path (node x balance (s.pick (leaf a) C)) := by
  have links := place.links
  rw [(Path.perm_inorder_plug _ _).mem_iff, (perm_inorder_node.append_right _).mem_iff] at fresh
  have apart := (perm_inorder_node.append_right (Path.spine path)).nodup_iff.1 place.nodup
  simp only [inorder, List.nil_append, List.cons_append, List.mem_cons, List.mem_append, not_or, List.nodup_cons,
    List.nodup_append'] at fresh apart
  obtain ⟨ax, aC, aS⟩ := fresh
  obtain ⟨⟨xC, xS⟩, nodupC, nodupS, disjoint⟩ := apart
  obtain ⟨-, -, subC⟩ := sub_node.1 place.sub
  let t₁ := t.set x ⟨Path.parent path, s.pick none C.root, balance⟩
  let t₂ := t₁.set a ⟨some x, fun _ => none, 0⟩
  let t₃ := t₂.set x ⟨Path.parent path, s.pick (some a) C.root, balance⟩
  have step₁ : t.modify x (fun n => n.setBalance balance) = some t₁ := modify_eq links _
  have step₂ : t₁.modify a (fun n => n.setParent (some x)) = some t₂ := modify_eq ((set_node_of_ne ax).trans new) _
  have step₃ : t₂.modify x (fun n => n.setChild s (some a)) = some t₃ := by
    rw [modify_eq ((set_node_of_ne (Ne.symm ax)).trans set_node), Links.setChild, Side.update_pick]
  have off : ∀ c, c ≠ x → c ≠ a → t₃.node c = t.node c := fun c cx ca =>
    (set_node_of_ne cx).trans ((set_node_of_ne ca).trans (set_node_of_ne cx))
  refine ⟨t₃, by simp [avlAttach, step₁, step₂, step₃], ?_, sub_node.2 ⟨set_node, ⟨?_, fun _ => trivial⟩, ?_⟩, ?_⟩
  · exact Above.congr (p := some x) place.above rfl fun c member =>
      off c (fun same => xS (same ▸ member)) (fun same => aS (same ▸ member))
  · exact (set_node_of_ne ax).trans set_node
  · exact subC.congr fun c member => off c (fun same => xC (same ▸ member)) (fun same => aC (same ▸ member))
  · rw [(perm_inorder_node.append_right (Path.spine path)).nodup_iff]
    simp only [leaf, inorder, List.nil_append, List.cons_append, List.nodup_cons, List.mem_cons, List.mem_append, not_or,
      List.nodup_append']
    exact ⟨⟨Ne.symm ax, xC, xS⟩, ⟨aC, aS⟩, nodupC, nodupS, disjoint⟩

theorem attach_filling (place : At t path (node x b (s.pick nil C)))
    (balanced : (Path.plug path (node x b (s.pick nil C))).Balanced)
    (fresh : a ∉ (Path.plug path (node x b (s.pick nil C))).inorder) (new : t.node a = some ⟨none, fun _ => none, 0⟩)
    (leans : b = s.flip.toward) :
    ∃ t', avlAttach s 0 t x a = some t' ∧ HoldsTree t' (Path.plug path (node x b (s.pick (leaf a) C))).inorder := by
  obtain ⟨t', run, place'⟩ := avlAttach_spec place fresh new 0
  obtain ⟨here, fits⟩ := Path.balanced_plug.1 balanced
  obtain ⟨exact, -, -, -, other⟩ := balanced_node.1 here
  have one := Side.eq_flip_toward.1 leans
  rw [height_node] at fits
  simp only [AvlTree.height] at exact fits
  have zero : s.tilt 0 = 0 := Side.tilt_eq_zero.2 rfl
  have whole : (Path.plug path (node x 0 (s.pick (leaf a) C))).Balanced := by
    refine Path.balanced_plug.2 ⟨balanced_node.2 ⟨?_, by omega, by omega, ?_, other⟩, ?_⟩
    · simp only [leaf, AvlTree.height]
      omega
    · exact ⟨rfl, by decide, by decide, fun _ => trivial⟩
    · have same : 1 + max (leaf a).height C.height = 1 + max 0 C.height := by
        simp only [leaf, AvlTree.height]
        omega
      rwa [height_node, same]
  refine ⟨t', run, _, at_whole.1 place', whole, ?_⟩
  rw [Path.inorder_plug, Path.inorder_plug, inorder_node, inorder_node]

theorem attach_growing (place : At t path (node x b (s.pick nil C)))
    (balanced : (Path.plug path (node x b (s.pick nil C))).Balanced)
    (fresh : a ∉ (Path.plug path (node x b (s.pick nil C))).inorder) (new : t.node a = some ⟨none, fun _ => none, 0⟩)
    (even : b = 0) (enough : path.length < fuel) :
    ∃ t₁ t', avlAttach s s.toward t x a = some t₁ ∧ postInsert fuel t₁ x = some t' ∧
      HoldsTree t' (Path.plug path (node x b (s.pick (leaf a) C))).inorder := by
  obtain ⟨t₁, run, place'⟩ := avlAttach_spec place fresh new s.toward
  obtain ⟨here, fits⟩ := Path.balanced_plug.1 balanced
  obtain ⟨exact, -, -, -, other⟩ := balanced_node.1 here
  have zero := (Side.tilt_eq_zero (s := s)).2 even
  have one := Side.eq_toward.1 (rfl : s.toward = s.toward)
  rw [height_node] at fits
  simp only [AvlTree.height] at exact fits
  have here' : (node x s.toward (s.pick (leaf a) C)).Balanced := by
    refine balanced_node.2 ⟨?_, by omega, by omega, ?_, other⟩
    · simp only [leaf, AvlTree.height]
      omega
    · exact ⟨rfl, by decide, by decide, fun _ => trivial⟩
  have height : (node x s.toward (s.pick (leaf a) C)).height = 1 + max 0 C.height + 1 := by
    rw [height_node]
    simp only [leaf, AvlTree.height]
    omega
  have leans : s.toward ≠ 0 := by cases s <;> decide
  obtain ⟨t', run', W, placed, balanced', keeps⟩ := postInsert_spec place' here' fits height leans enough
  refine ⟨t₁, t', run, run', W, placed, balanced', keeps.inorder.trans ?_⟩
  rw [Path.inorder_plug, Path.inorder_plug, inorder_node, inorder_node]

theorem attach_spec (place : At t path (node x b (s.pick nil C)))
    (balanced : (Path.plug path (node x b (s.pick nil C))).Balanced)
    (fresh : a ∉ (Path.plug path (node x b (s.pick nil C))).inorder) (new : t.node a = some ⟨none, fun _ => none, 0⟩)
    (enough : path.length < fuel) :
    ∃ t', HoldsTree t' (Path.plug path (node x b (s.pick (leaf a) C))).inorder ∧
      (b = s.flip.toward ∧ avlAttach s 0 t x a = some t' ∨
        b = 0 ∧ ∃ t₁, avlAttach s s.toward t x a = some t₁ ∧ postInsert fuel t₁ x = some t') := by
  obtain ⟨exact, ge, le, -, -⟩ := balanced_node.1 (Path.balanced_plug.1 balanced).1
  simp only [AvlTree.height] at exact
  by_cases even : b = 0
  · obtain ⟨t₁, t', attached, lifted, holds⟩ := attach_growing place balanced fresh new even enough
    exact ⟨t', holds, .inr ⟨even, t₁, attached, lifted⟩⟩
  · have leans : b = s.flip.toward := by
      rw [Side.eq_flip_toward]
      have uneven : s.tilt b ≠ 0 := mt Side.tilt_eq_zero.1 even
      omega
    obtain ⟨t', attached, holds⟩ := attach_filling place balanced fresh new leans
    exact ⟨t', holds, .inl ⟨leans, attached⟩⟩

end Attach

end HvmlFpm.Util
