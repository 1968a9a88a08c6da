import HvmlFpm.Util.Delete
import HvmlFpm.Util.Kvlist

namespace HvmlFpm.Util
open Library AvlTree

section Order
variable {s t u : CString}

theorem strcmp_eq : strcmp s t = .eq ↔ s = t := by
  rw [strcmp, Std.compare_eq_iff_eq]
  exact ⟨CString.ext, congrArg CString.bytes⟩

theorem strcmp_gt : strcmp s t = .gt ↔ strcmp t s = .lt := by
  rw [strcmp, strcmp]
  exact Std.OrientedCmp.gt_iff_lt

theorem strcmp_trans (first : strcmp s t = .lt) (second : strcmp t u = .lt) : strcmp s u = .lt := by
  rw [strcmp] at first second ⊢
  exact Std.TransCmp.lt_trans first second

theorem strcmp_irrefl : strcmp s s ≠ .lt := by
  rw [strcmp_eq.2 rfl]
  decide

end Order

def Ascending (key : Addr → CString) (nodes : List Addr) : Prop :=
  nodes.Pairwise fun a b => strcmp (key a) (key b) = .lt

def Reaches (key : Addr → CString) (name : CString) (tree : AvlTree Addr) (x : Addr) : Prop :=
  ∃ path b child, tree = Path.plug path (node x b child) ∧ (∀ a ∈ Path.before path, strcmp (key a) name = .lt) ∧
    (∀ a ∈ Path.after path, strcmp name (key a) = .lt) ∧ (strcmp name (key x) = .lt → child .left = nil) ∧
    (strcmp name (key x) = .gt → child .right = nil)

section Find
variable {β : Type} {kv : Kv β} {key : Addr → CString} {name : CString} {tree : AvlTree Addr} {parent : Option Addr}
  {fuel : Nat}

theorem Reaches.within {x : Addr} {f : Frame Addr} (reaches : Reaches key name tree x)
    (before : ∀ a ∈ f.before, strcmp (key a) name = .lt) (after : ∀ a ∈ f.after, strcmp name (key a) = .lt) :
    Reaches key name (f.fill tree) x := by
  obtain ⟨path, b, child, rfl, below, above, left, right⟩ := reaches
  refine ⟨path ++ [f], b, child, (Path.plug_append path [f] _).symm, ?_, ?_, left, right⟩
  · intro a member
    rw [Path.before_append, List.mem_append] at member
    rcases member with member | member
    · exact before a (by simpa [Path.before] using member)
    · exact below a member
  · intro a member
    rw [Path.after_append, List.mem_append] at member
    rcases member with member | member
    · exact above a member
    · exact after a (by simpa [Path.after] using member)

theorem reaches_here {a : Addr} {b : Int} {child : Side → AvlTree Addr}
    (left : strcmp name (key a) = .lt → child .left = nil) (right : strcmp name (key a) = .gt → child .right = nil) : Reaches key name (node a b child) a :=
  ⟨[], b, child, rfl, by simp [Path.before], by simp [Path.after], left, right⟩

theorem avlFindRec_spec {r : Addr} (root : tree.root = some r) (sub : Sub kv.shape.node parent tree)
    (keys : ∀ a ∈ tree.inorder, kv.key a = some (key a)) (ascending : Ascending key tree.inorder)
    (enough : tree.height ≤ fuel) :
    ∃ x, avlFindRec kv name fuel r = some (x, strcmp name (key x)) ∧ Reaches key name tree x := by
  induction tree generalizing parent fuel r with
  | nil => cases root
  | node a b child ih =>
      obtain rfl := Option.some.inj root
      obtain ⟨links, below⟩ := sub
      simp only [AvlTree.height] at enough
      obtain ⟨fuel, rfl⟩ : ∃ fuel', fuel = fuel' + 1 := ⟨fuel - 1, by omega⟩
      have own : kv.key a = some (key a) := keys a (by simp [inorder])
      rw [inorder] at ascending
      obtain ⟨left, right, across⟩ := List.pairwise_append.1 ascending
      obtain ⟨behind, right⟩ := List.pairwise_cons.1 right
      cases diff : strcmp name (key a) with
      | eq =>
          exact ⟨a, by simp [avlFindRec, own, links, diff], reaches_here (by simp [diff]) (by simp [diff])⟩
      | lt =>
          cases shape : child .left with
          | nil =>
              exact ⟨a, by simp [avlFindRec, own, links, diff, shape], reaches_here (fun _ => shape) (by simp [diff])⟩
          | node l bl child' =>
              have root' : (child .left).root = some l := by rw [shape, root_node]
              obtain ⟨x, run, reaches⟩ := ih .left root' (below .left)
                (fun c member => keys c (by simp [inorder, member])) left (by omega : _ ≤ fuel)
              refine ⟨x, by simp [avlFindRec, own, links, diff, shape, run], ?_⟩
              rw [← Frame.fill_child .left a b child]
              apply reaches.within
              · intro c member
                cases member
              · intro c member
                rcases List.mem_cons.1 member with rfl | member
                · exact diff
                · exact strcmp_trans diff (behind c member)
      | gt =>
          cases shape : child .right with
          | nil =>
              exact ⟨a, by simp [avlFindRec, own, links, diff, shape], reaches_here (by simp [diff]) fun _ => shape⟩
          | node l bl child' =>
              have root' : (child .right).root = some l := by rw [shape, root_node]
              obtain ⟨x, run, reaches⟩ := ih .right root' (below .right)
                (fun c member => keys c (by simp [inorder, member])) right (by omega : _ ≤ fuel)
              refine ⟨x, by simp [avlFindRec, own, links, diff, shape, run], ?_⟩
              rw [← Frame.fill_child .right a b child]
              apply reaches.within
              · intro c member
                rcases List.mem_append.1 member with member | member
                · exact strcmp_trans (across c member a List.mem_cons_self) (strcmp_gt.1 diff)
                · obtain rfl := List.mem_singleton.1 member
                  exact strcmp_gt.1 diff
              · intro c member
                cases member

theorem Reaches.eq_of_mem {x a : Addr} (reaches : Reaches key name tree x) (ascending : Ascending key tree.inorder)
    (member : a ∈ tree.inorder) (same : key a = name) : x = a := by
  obtain ⟨path, b, child, rfl, below, above, left, right⟩ := reaches
  rw [Path.inorder_plug] at ascending member
  have inner := (List.pairwise_append.1 (List.pairwise_append.1 ascending).2.1).1
  rw [inorder] at inner
  obtain ⟨-, right', across⟩ := List.pairwise_append.1 inner
  simp only [inorder, List.mem_append, List.mem_cons] at member
  subst same
  rcases member with member | (member | rfl | member) | member
  · exact absurd (below a member) strcmp_irrefl
  · have empty := left (across a member x List.mem_cons_self)
    rw [empty] at member
    cases member
  · rfl
  · have empty := right (strcmp_gt.2 ((List.pairwise_cons.1 right').1 a member))
    rw [empty] at member
    cases member
  · exact absurd (above a member) strcmp_irrefl

end Find

end HvmlFpm.Util
