import HvmlFpm.Util.Rebalance

namespace HvmlFpm.Util
open Library AvlTree

def Deleted (t : Shape) (whole : AvlTree Addr) (x : Addr) (t' : Shape) : Prop :=
  ∃ whole', At t' [] whole' ∧ whole'.Balanced ∧ whole'.inorder = whole.inorder.erase x ∧
    (∀ a ∉ whole.inorder, t'.node a = t.node a) ∧ (t'.node x).isSome = true

theorem erase_middle {before after : List Addr} {x : Addr} (nodup : (before ++ x :: after).Nodup) :
    (before ++ x :: after).erase x = before ++ after := by
  rw [List.perm_middle.nodup_iff, List.nodup_cons, List.mem_append, not_or] at nodup
  rw [List.erase_append_right _ nodup.1.1, List.erase_cons_head]

theorem Rebalanced.deleted {t t' t'' : Shape} {whole rest : AvlTree Addr} {x : Addr} (rebalanced : Rebalanced t' rest t'')
    (inorder : rest.inorder = whole.inorder.erase x) (nodup : whole.inorder.Nodup)
    (off : ∀ a ∉ whole.inorder, t'.node a = t.node a) (alive : (t'.node x).isSome = true) : Deleted t whole x t'' := by
  obtain ⟨final, place, balanced, keeps⟩ := rebalanced
  refine ⟨final, place, balanced, keeps.inorder.trans inorder, ?_, ?_⟩
  · intro a outside
    have outside' : a ∉ rest.inorder := fun member => outside (List.mem_of_mem_erase (inorder ▸ member))
    exact (keeps.off a outside').trans (off a outside)
  · rw [keeps.off x (inorder ▸ nodup.not_mem_erase)]
    exact alive

section Low
variable {t : Shape} {path : Path Addr} {x : Addr} {b : Int} {s : Side} {C : AvlTree Addr} {fuel : Nat}

theorem At.nodup_inorder {tree : AvlTree Addr} (place : At t path tree) : (Path.plug path tree).inorder.Nodup :=
  (Path.perm_inorder_plug path tree).nodup_iff.2 place.nodup

theorem avlDeleteLeaf_spec (place : At t path (node x b (s.pick nil nil))) (fits : Path.Fits path 1)
    (enough : path.length < fuel) :
    ∃ t', avlDeleteLeaf fuel t x (Path.parent path) = some t' ∧
      Deleted t (Path.plug path (node x b (s.pick nil nil))) x t' := by
  have nodup := place.nodup_inorder
  have links := place.links
  have leaf : (node x b (s.pick nil nil)).inorder = [x] := by cases s <;> rfl
  have rest : (Path.plug path (node x b (s.pick nil nil))).inorder.erase x = Path.before path ++ Path.after path := by
    rw [Path.inorder_plug, leaf] at nodup ⊢
    exact erase_middle nodup
  cases path with
  | nil =>
      refine ⟨{ t with root := none }, rfl, nil, ⟨rfl, trivial, List.nodup_nil⟩, trivial, rest.symm, fun _ _ => rfl, ?_⟩
      simp [links]
  | cons f path =>
      obtain ⟨p, b₀, side, C⟩ := f
      have above := place.links_above
      have apart : ∀ a ∈ C.inorder ++ Path.spine path, a ≠ p := by
        have distinct := List.Nodup.of_append_right place.nodup
        rw [Path.spine, List.nodup_cons] at distinct
        rintro a member rfl
        exact distinct.1 member
      have xp : x ≠ p := by
        rintro rfl
        exact List.disjoint_of_nodup_append place.nodup (root_mem rfl) (by simp [Path.spine])
      let t₁ := t.set p ⟨Path.parent path, side.pick none C.root, b₀⟩
      have cut : t.modify p (fun n => n.setChild side none) = some t₁ := by
        rw [modify_eq above, Links.setChild, Side.update_pick]
      have place₁ : At t₁ (⟨p, b₀, side, C⟩ :: path) nil := by
        obtain ⟨_, other, above⟩ := place.above
        refine ⟨⟨set_node, ?_, ?_⟩, trivial, List.Nodup.of_append_right place.nodup⟩
        · exact other.congr fun a member => set_node_of_ne (apart a (List.mem_append_left _ member))
        · exact above.congr rfl fun a member => set_node_of_ne (apart a (List.mem_append_right _ member))
      obtain ⟨t', run, rebalanced⟩ := avlLowered_spec (avlPostDelete fuel) place₁ trivial fits
        fun t' x tree' root' place' balanced' fits' =>
          avlPostDelete_spec root' place' balanced' fits' (Nat.lt_of_succ_lt enough)
      refine ⟨t', ?_, rebalanced.deleted ?_ nodup ?_ ?_⟩
      · have fresh : x ∉ Path.spine (⟨p, b₀, side, C⟩ :: path) := fun member =>
          List.disjoint_of_nodup_append place.nodup (root_mem rfl) member
        have turn : C.root ≠ some x := other_root_ne fresh
        cases side with
        | left => simp [avlDeleteLeaf, Path.parent, above, Side.pick, cut, run]
        | right => simp [avlDeleteLeaf, Path.parent, above, Side.pick, turn, cut, run]
      · rw [rest]
        exact Path.inorder_plug (⟨p, b₀, side, C⟩ :: path) nil
      · intro a outside
        apply set_node_of_ne
        rintro rfl
        apply outside
        rw [(Path.perm_inorder_plug _ _).mem_iff]
        simp [Path.spine]
      · rw [set_node_of_ne xp, links]
        rfl

theorem avlDeleteOne_spec {c : Addr} (place : At t path (node x b (s.pick C nil))) (root : C.root = some c)
    (balanced : C.Balanced) (fits : Path.Fits path (C.height + 1)) (enough : path.length < fuel) :
    ∃ t', avlDeleteOne fuel t x (Path.parent path) c = some t' ∧
      Deleted t (Path.plug path (node x b (s.pick C nil))) x t' := by
  have links := place.links
  have nodup := place.nodup_inorder
  have apart := (perm_inorder_node.append_right (Path.spine path)).nodup_iff.1 place.nodup
  simp only [inorder, List.append_nil, List.cons_append, List.nodup_cons, List.mem_append, not_or,
    List.nodup_append'] at apart
  obtain ⟨⟨xC, xS⟩, nodupC, nodupS, disjoint⟩ := apart
  have rest : (Path.plug path C).inorder = (Path.plug path (node x b (s.pick C nil))).inorder.erase x := by
    rw [Path.inorder_plug] at nodup
    rw [Path.inorder_plug, Path.inorder_plug]
    cases s with
    | left =>
        have shape : (node x b (Side.left.pick C nil)).inorder = C.inorder ++ [x] := rfl
        have whole : Path.before path ++ (C.inorder ++ [x] ++ Path.after path) =
            (Path.before path ++ C.inorder) ++ x :: Path.after path := by simp
        rw [shape, whole] at nodup ⊢
        rw [erase_middle nodup, List.append_assoc]
    | right =>
        have shape : (node x b (Side.right.pick C nil)).inorder = x :: C.inorder := rfl
        rw [shape, List.cons_append] at nodup ⊢
        rw [erase_middle nodup]
  obtain ⟨t₁, linked, sub₁, root₁, off₁⟩ := setParentOf_spec (sub_node.1 place.sub).2.1 nodupC (Path.parent path)
  rw [root] at linked
  have above₁ : Above t₁ path (some x) := place.above.congr root₁ fun a member =>
    off₁ a fun inC => disjoint inC member
  obtain ⟨t₂, replaced, above₂, off₂⟩ := replaceChild_spec above₁ xS nodupS (some c)
  have sub₂ : Sub t₂.node (Path.parent path) C := sub₁.congr fun a member =>
    off₂ a fun parent => disjoint member (parent_mem parent)
  have place₂ : At t₂ path C := ⟨by rwa [root], sub₂, by simp [List.nodup_append', nodupC, nodupS, disjoint]⟩
  have off : ∀ a ∉ (Path.plug path (node x b (s.pick C nil))).inorder, t₂.node a = t.node a := by
    intro a outside
    rw [(Path.perm_inorder_plug _ _).mem_iff, (perm_inorder_node.append_right _).mem_iff] at outside
    simp only [inorder, List.append_nil, List.cons_append, List.mem_cons, List.mem_append, not_or] at outside
    exact (off₂ a fun parent => outside.2.2 (parent_mem parent)).trans (off₁ a outside.2.1)
  have alive : (t₂.node x).isSome = true := by
    rw [off₂ x fun parent => xS (parent_mem parent), off₁ x xC, links]
    rfl
  have linked' : t.modify c (fun n => n.setParent (Path.parent path)) = some t₁ := linked
  cases path with
  | nil =>
      simp only [Path.parent] at linked' replaced
      refine ⟨t₂, by simp [avlDeleteOne, linked', replaced, Path.parent], ?_⟩
      exact ⟨C, place₂, balanced, rest, off, alive⟩
  | cons f path =>
      obtain ⟨t', run, rebalanced⟩ := avlPostDelete_spec root place₂ balanced fits enough
      refine ⟨t', ?_, rebalanced.deleted rest nodup off alive⟩
      simp only [Path.parent] at linked' replaced
      simp [avlDeleteOne, linked', replaced, Path.parent, run]

theorem avlDeleteWorker_low (place : At t path (node x b (s.pick C nil))) (balanced : (node x b (s.pick C nil)).Balanced)
    (fits : Path.Fits path (node x b (s.pick C nil)).height) (enough : path.length < fuel) :
    ∃ t', avlDeleteWorker fuel t x = some t' ∧ Deleted t (Path.plug path (node x b (s.pick C nil))) x t' := by
  obtain ⟨fuel, rfl⟩ := Nat.exists_eq_add_one_of_ne_zero (Nat.ne_of_gt (Nat.zero_lt_of_lt enough))
  have links := place.links
  obtain ⟨-, -, -, balanced, -⟩ := balanced_node.1 balanced
  rw [height_node] at fits
  cases C with
  | nil =>
      obtain ⟨t', run, deleted⟩ := avlDeleteLeaf_spec place fits enough
      refine ⟨t', ?_, deleted⟩
      cases s <;> simp [avlDeleteWorker, links, Side.pick, run]
  | node c bc child =>
      have height : 1 + max (node c bc child).height (nil : AvlTree Addr).height = (node c bc child).height + 1 := by
        simp only [AvlTree.height]
        omega
      rw [height] at fits
      obtain ⟨t', run, deleted⟩ := avlDeleteOne_spec place rfl balanced fits enough
      refine ⟨t', ?_, deleted⟩
      cases s <;> simp [avlDeleteWorker, links, Side.pick, run]

end Low

section Two
variable {t : Shape} {path : Path Addr} {x m : Addr} {b : Int} {tree : AvlTree Addr} {parent : Option Addr} {fuel : Nat}

theorem avlLocalMin_spec {r : Addr} (root : tree.root = some r) (sub : Sub t.node parent tree)
    (enough : tree.height ≤ fuel) :
    ∃ inner m bm M, avlLocalMin fuel t r = some m ∧ tree = Path.plug inner (node m bm (Side.right.pick M nil)) ∧
      Path.before inner = [] := by
  induction tree generalizing parent fuel r with
  | nil => cases root
  | node a b child ih =>
      obtain rfl := Option.some.inj root
      obtain ⟨links, below⟩ := sub
      simp only [AvlTree.height] at enough
      obtain ⟨fuel, rfl⟩ : ∃ fuel', fuel = fuel' + 1 := ⟨fuel - 1, by omega⟩
      cases left : child .left with
      | nil =>
          refine ⟨[], a, b, child .right, by simp [avlLocalMin, links, left], ?_, rfl⟩
          rw [← left]
          exact congrArg (node a b) (Side.right.pick_eta child).symm
      | node l bl child' =>
          have root' : (child .left).root = some l := by rw [left, root_node]
          obtain ⟨inner, m, bm, M, run, shape, first⟩ := ih .left root' (below .left) (by omega : _ ≤ fuel)
          refine ⟨inner ++ [⟨a, b, .left, child .right⟩], m, bm, M, ?_, ?_, ?_⟩
          · simp [avlLocalMin, links, left, run]
          · rw [Path.plug_append, ← shape]
            exact (Frame.fill_child .left a b child).symm
          · rw [Path.before_append, first]
            rfl

theorem perm_two {L R : AvlTree Addr} : ((node x b (Side.left.pick L R)).inorder ++ Path.spine path).Perm
    (x :: (L.inorder ++ (R.inorder ++ Path.spine path))) := by
  simpa using (perm_inorder_node (s := .left)).append_right (Path.spine path)

theorem avlTakePlace_spec {L R : AvlTree Addr} (place : At t path (node x b (Side.left.pick L R)))
    (fresh : m ∉ (Path.plug path (node x b (Side.left.pick L R))).inorder) (alive : (t.node m).isSome = true) :
    ∃ t', avlTakePlace t x m = some t' ∧ At t' path (node m b (Side.left.pick L R)) ∧ t'.node x = t.node x ∧
      ∀ a, a ≠ m → a ∉ (Path.plug path (node x b (Side.left.pick L R))).inorder → t'.node a = t.node a := by
  have apart := perm_two.nodup_iff.1 place.nodup
  rw [(Path.perm_inorder_plug _ _).mem_iff, perm_two.mem_iff] at fresh
  simp only [List.nodup_cons, List.mem_cons, List.mem_append, not_or, List.nodup_append'] at apart fresh
  obtain ⟨⟨xL, xR, xS⟩, nodupL, ⟨nodupR, nodupS, disjR⟩, disjL⟩ := apart
  obtain ⟨mx, mL, mR, mS⟩ := fresh
  have links := place.links
  obtain ⟨-, subL, subR⟩ := sub_node.1 place.sub
  obtain ⟨old, stale⟩ := Option.isSome_iff_exists.1 alive
  let t₁ := t.set m ⟨Path.parent path, Side.left.pick L.root R.root, b⟩
  have off₁ : ∀ a, a ≠ m → t₁.node a = t.node a := fun a am => set_node_of_ne am
  have copied : t.modify m (fun _ => ⟨Path.parent path, Side.left.pick L.root R.root, b⟩) = some t₁ := modify_eq stale _
  have subL₁ : Sub t₁.node (some x) L := subL.congr fun a member => off₁ a fun same => mL (same ▸ member)
  obtain ⟨t₂, linkedL, subL₂, root₂, off₂⟩ := setParentOf_spec subL₁ nodupL (some m)
  have subR₂ : Sub t₂.node (some x) R := subR.congr fun a member =>
    (off₂ a fun inL => disjL inL (List.mem_append_left _ member)).trans (off₁ a fun same => mR (same ▸ member))
  obtain ⟨t₃, linkedR, subR₃, root₃, off₃⟩ := setParentOf_spec subR₂ nodupR (some m)
  have links₃ : t₃.node m = some ⟨Path.parent path, Side.left.pick L.root R.root, b⟩ :=
    (off₃ m mR).trans ((off₂ m mL).trans set_node)
  have above₃ : Above t₃ path (some x) := by
    refine Above.congr (p := some x) place.above (root₃.trans root₂) fun a member => ?_
    have aR : a ∉ R.inorder := fun inR => disjR inR member
    have aL : a ∉ L.inorder := fun inL => disjL inL (List.mem_append_right _ member)
    exact (off₃ a aR).trans ((off₂ a aL).trans (off₁ a fun same => mS (same ▸ member)))
  obtain ⟨t₄, replaced, above₄, off₄⟩ := replaceChild_spec above₃ xS nodupS (some m)
  have parentOff : ∀ a ∉ Path.spine path, t₄.node a = t₃.node a := fun a outside =>
    off₄ a fun parent => outside (parent_mem parent)
  refine ⟨t₄, ?_, ⟨above₄, ?_, ?_⟩, ?_, ?_⟩
  · simp [avlTakePlace, links, Side.pick, copied, linkedL, linkedR, replaced]
  · refine sub_node.2 ⟨(parentOff m mS).trans links₃, ?_, ?_⟩
    · exact subL₂.congr fun a member =>
        (parentOff a fun inS => disjL member (List.mem_append_right _ inS)).trans
          (off₃ a fun inR => disjL member (List.mem_append_left _ inR))
    · exact subR₃.congr fun a member => parentOff a fun inS => disjR member inS
  · rw [perm_two.nodup_iff]
    simp only [List.nodup_cons, List.mem_append, not_or, List.nodup_append']
    exact ⟨⟨mL, mR, mS⟩, nodupL, ⟨nodupR, nodupS, disjR⟩, disjL⟩
  · exact (parentOff x xS).trans ((off₃ x xR).trans ((off₂ x xL).trans (off₁ x (Ne.symm mx))))
  · intro a am outside
    rw [(Path.perm_inorder_plug _ _).mem_iff, perm_two.mem_iff] at outside
    simp only [List.mem_cons, List.mem_append, not_or] at outside
    obtain ⟨-, aL, aR, aS⟩ := outside
    exact (parentOff a aS).trans ((off₃ a aR).trans ((off₂ a aL).trans (off₁ a am)))

theorem inorder_two {L R : AvlTree Addr} :
    (Path.plug path (node x b (Side.left.pick L R))).inorder =
      (Path.before path ++ L.inorder) ++ x :: (R.inorder ++ Path.after path) := by
  have shape : (node x b (Side.left.pick L R)).inorder = L.inorder ++ x :: R.inorder := rfl
  rw [Path.inorder_plug, shape]
  simp

theorem avlDeleteWorker_two {L R : AvlTree Addr} {l r : Addr} (rootL : L.root = some l) (rootR : R.root = some r)
    (place : At t path (node x b (Side.left.pick L R)))
    (balanced : (Path.plug path (node x b (Side.left.pick L R))).Balanced)
    (enough : (Path.plug path (node x b (Side.left.pick L R))).inorder.length < fuel) :
    ∃ t', avlDeleteWorker (fuel + 1) t x = some t' ∧
      Deleted t (Path.plug path (node x b (Side.left.pick L R))) x t' := by
  have links := place.links
  have nodup := place.nodup_inorder
  have low : R.height ≤ fuel + 1 := by
    have bound := AvlTree.height_le_length R
    simp only [inorder_two, List.length_append, List.length_cons] at enough
    omega
  obtain ⟨inner, m, bm, M, min, shape, first⟩ := avlLocalMin_spec rootR (sub_node.1 place.sub).2.2 low
  -- The least element behind the node is taken off first.
  have moved : Path.plug (inner ++ ⟨x, b, .right, L⟩ :: path) (node m bm (Side.right.pick M nil)) =
      Path.plug path (node x b (Side.left.pick L R)) := by
    rw [Path.plug_append, ← shape]
    exact congrArg (fun child => Path.plug path (node x b child)) (Side.flip_pick .left R L)
  have placeM : At t (inner ++ ⟨x, b, .right, L⟩ :: path) (node m bm (Side.right.pick M nil)) := by
    rw [at_whole, moved, ← at_whole]
    exact place
  have balancedM := balanced
  rw [← moved, Path.balanced_plug] at balancedM
  have enoughM : (inner ++ ⟨x, b, .right, L⟩ :: path : Path Addr).length < fuel := by
    refine Nat.lt_of_le_of_lt (Path.length_le _ (node m bm (Side.right.pick M nil))) ?_
    rwa [moved]
  obtain ⟨t₁, run₁, W, place₁, balanced₁, inorder₁, off₁, alive₁⟩ :=
    avlDeleteWorker_low placeM balancedM.1 balancedM.2 enoughM
  rw [moved] at inorder₁ off₁
  have whole : (Path.plug path (node x b (Side.left.pick L R))).inorder =
      (Path.before path ++ L.inorder) ++ x :: m :: (M.inorder ++ (Path.after inner ++ Path.after path)) := by
    have shapeM : (node m bm (Side.right.pick M nil)).inorder = m :: M.inorder := rfl
    rw [inorder_two, shape, Path.inorder_plug, first, shapeM]
    simp
  generalize Path.before path ++ L.inorder = P, M.inorder ++ (Path.after inner ++ Path.after path) = S at whole
  have apart := nodup
  rw [whole, List.nodup_append', List.nodup_cons, List.nodup_cons, List.mem_cons, not_or] at apart
  obtain ⟨-, ⟨⟨xm, xS⟩, mS, -⟩, disjoint⟩ := apart
  have xP : x ∉ P := fun member => disjoint member List.mem_cons_self
  have mP : m ∉ P := fun member => disjoint member (List.mem_cons_of_mem _ List.mem_cons_self)
  have rest : W.inorder = P ++ x :: S := by
    rw [inorder₁, whole, List.erase_append_right _ mP, List.erase_cons_tail (by simpa using xm), List.erase_cons_head]
  have final : (Path.plug path (node x b (Side.left.pick L R))).inorder.erase x = P ++ m :: S := by
    rw [whole, List.erase_append_right _ xP, List.erase_cons_head]
  -- Then it comes to the place that the node has now.
  obtain ⟨path', b', child, rfl⟩ := exists_place (a := x) (t := W) (by simp [rest])
  obtain ⟨L', R', rfl⟩ := Side.left.exists_pick child
  have fresh : m ∉ (Path.plug path' (node x b' (Side.left.pick L' R'))).inorder := by
    rw [rest]
    simp [mP, mS, Ne.symm xm]
  obtain ⟨t₂, run₂, place₂, same₂, off₂⟩ := avlTakePlace_spec (at_whole.2 place₁) fresh alive₁
  have links₁ := (at_whole.2 place₁).links
  refine ⟨t₂, ?_, Path.plug path' (node m b' (Side.left.pick L' R')), at_whole.1 place₂, ?_, ?_, ?_, ?_⟩
  · simp [avlDeleteWorker, links, Side.pick, rootL, rootR, min, run₁, run₂]
  · obtain ⟨here, above⟩ := Path.balanced_plug.1 balanced₁
    exact Path.balanced_plug.2 ⟨here, above⟩
  · rw [inorder_two] at rest
    obtain ⟨front, -, back⟩ := (List.append_cons_inj_of_notMem xP xS).1 rest.symm
    rw [inorder_two, final, front, back]
  · intro a outside
    have am : a ≠ m := by
      rintro rfl
      exact outside (by simp [whole])
    have outside₁ : a ∉ (Path.plug path' (node x b' (Side.left.pick L' R'))).inorder := by
      intro member
      rw [inorder₁] at member
      exact outside (List.mem_of_mem_erase member)
    exact (off₂ a am outside₁).trans (off₁ a outside)
  · rw [same₂, links₁]
    rfl

theorem avlDeleteWorker_spec {child : Side → AvlTree Addr} (place : At t path (node x b child))
    (balanced : (Path.plug path (node x b child)).Balanced)
    (enough : (Path.plug path (node x b child)).inorder.length < fuel) :
    ∃ t', avlDeleteWorker (fuel + 1) t x = some t' ∧ Deleted t (Path.plug path (node x b child)) x t' := by
  obtain ⟨L, R, rfl⟩ := Side.left.exists_pick child
  have depth : path.length < fuel + 1 := by
    have bound := Path.length_le path (node x b (Side.left.pick L R))
    omega
  have both := Path.balanced_plug.1 balanced
  cases L with
  | nil =>
      rw [← Side.flip_pick] at place both ⊢
      exact avlDeleteWorker_low place both.1 both.2 depth
  | node l bl childL =>
      cases R with
      | nil => exact avlDeleteWorker_low place both.1 both.2 depth
      | node r br childR => exact avlDeleteWorker_two rfl rfl place balanced enough

end Two

end HvmlFpm.Util
