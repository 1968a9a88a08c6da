import HvmlFpm.Util.Shape

/-!
# Rebalancing

`post_insert` and `avl_post_delete` on their ways up from a subtree that has become higher or lower by one.
-/

namespace HvmlFpm.Util
open Library AvlTree

def Rebalanced (t : Shape) (whole : AvlTree Addr) (t' : Shape) : Prop :=
  ∃ whole', At t' [] whole' ∧ whole'.Balanced ∧ Keeps t whole t' whole'

theorem Rebalanced.after {t t' t'' : Shape} {whole whole' : AvlTree Addr} (rebalanced : Rebalanced t' whole' t'')
    (keeps : Keeps t whole t' whole') : Rebalanced t whole t'' := by
  obtain ⟨final, place, balanced, keeps'⟩ := rebalanced
  exact ⟨final, place, balanced, keeps.trans keeps'⟩

section Steps
variable {t : Shape} {path : Path Addr} {f : Frame Addr} {tree A B B₁ B₂ C : AvlTree Addr} {s : Side}
  {p x z : Addr} {b bx bz : Int}

theorem rebalanced_at {t' : Shape} {whole : AvlTree Addr} (place : At t' path tree) (balanced : tree.Balanced)
    (fits : Path.Fits path tree.height) (keeps : Keeps t whole t' (Path.plug path tree)) : Rebalanced t whole t' :=
  ⟨_, at_whole.1 place, Path.balanced_plug.2 ⟨balanced, fits⟩, keeps⟩

theorem At.links_above (place : At t (f :: path) tree) :
    t.node f.a = some ⟨Path.parent path, f.side.pick tree.root f.other.root, f.balance⟩ :=
  place.above.1

theorem At.links (place : At t path (node x bx (s.pick A B))) :
    t.node x = some ⟨Path.parent path, s.pick A.root B.root, bx⟩ :=
  (sub_node.1 place.sub).1

theorem At.root_links (place : At t path tree) (root : tree.root = some x) :
    ∃ child balance, t.node x = some ⟨Path.parent path, child, balance⟩ := by
  cases tree with
  | nil => cases root
  | node a balance child =>
      obtain rfl := Option.some.inj root
      exact ⟨_, _, place.sub.1⟩

theorem At.side (place : At t (f :: path) tree) (root : tree.root = some x) :
    (if f.side.pick tree.root f.other.root .left = some x then Side.left else Side.right) = f.side := by
  have fresh : x ∉ Path.spine (f :: path) := fun member =>
    List.disjoint_of_nodup_append place.nodup (root_mem root) member
  rw [root]
  exact side_of (other_root_ne fresh)

theorem setBalance_spec (place : At t (f :: path) tree) (g : Int → Int) :
    ∃ t', t.modify f.a (fun n => n.setBalance (g n.balance)) = some t' ∧
      At t' ({ f with balance := g f.balance } :: path) tree ∧
      Keeps t (Path.plug (f :: path) tree) t' (Path.plug ({ f with balance := g f.balance } :: path) tree) := by
  obtain ⟨⟨links, other, above⟩, sub, nodup⟩ := place
  have apart := nodup
  rw [Path.spine, List.perm_middle.nodup_iff, List.nodup_cons] at apart
  have away : ∀ a ∈ tree.inorder ++ (f.other.inorder ++ Path.spine path), a ≠ f.a := by
    rintro a member rfl
    exact apart.1 member
  simp only [List.mem_append] at away
  refine ⟨_, modify_eq links _, ⟨⟨set_node, ?_, ?_⟩, ?_, nodup⟩, Path.inorder_plug_balance .., ?_⟩
  · exact other.congr fun a member => set_node_of_ne (away a (.inr (.inl member)))
  · exact above.congr rfl fun a member => set_node_of_ne (away a (.inr (.inr member)))
  · exact sub.congr fun a member => set_node_of_ne (away a (.inl member))
  · intro a outside
    apply set_node_of_ne
    rintro rfl
    apply outside
    rw [(Path.perm_inorder_plug _ _).mem_iff]
    simp [Path.spine]

theorem single_spec (place : At t path (node p b (s.pick (node x bx (s.pick A B)) C)))
    (inner : (node x bx (s.pick A B)).Balanced) (other : C.Balanced) (nonneg : 0 ≤ s.tilt bx)
    (outer : (node x bx (s.pick A B)).height = C.height + 2) (heavy : s.tilt b = 2) :
    ∃ t' lifted, avlLift s t p = some t' ∧ At t' path lifted ∧ lifted.root = some x ∧ lifted.Balanced ∧
      lifted.height + 1 = C.height + (if s.tilt bx = 0 then 4 else 3) ∧
      (∃ n, t'.node p = some n ∧ n.parent = some x) ∧
      Keeps t (Path.plug path (node p b (s.pick (node x bx (s.pick A B)) C))) t' (Path.plug path lifted) := by
  obtain ⟨t', run, place', keeps⟩ := avlLift_spec place
  rw [balanced_node] at inner
  rw [height_node] at outer
  obtain ⟨exact, ge, le, first, second⟩ := inner
  obtain ⟨balanced, height⟩ := rotated_balanced first second other exact nonneg le outer heavy
  have below := (sub_node.1 (sub_node.1 place'.sub).2.2).1
  exact ⟨t', _, run, place', rfl, balanced, height, ⟨_, below, rfl⟩, keeps⟩

theorem double_spec (place : At t path (node p b (s.pick (node x bx (s.pick A (node z bz (s.pick B₁ B₂)))) C)))
    (inner : (node x bx (s.pick A (node z bz (s.pick B₁ B₂)))).Balanced) (other : C.Balanced) (leansBack : s.tilt bx = -1)
    (outer : (node x bx (s.pick A (node z bz (s.pick B₁ B₂)))).height = C.height + 2) (heavy : s.tilt b = 2) :
    ∃ t₁ t' lifted, avlLift s.flip t x = some t₁ ∧ (∃ n, t₁.node x = some n ∧ n.parent = some z) ∧
      (∃ n, t₁.node z = some n ∧ n.parent = some p) ∧ avlLift s t₁ p = some t' ∧ At t' path lifted ∧
      lifted.root = some z ∧ lifted.Balanced ∧ lifted.height = C.height + 2 ∧
      (∃ n, t'.node p = some n ∧ n.parent = some z) ∧
      Keeps t (Path.plug path (node p b (s.pick (node x bx (s.pick A (node z bz (s.pick B₁ B₂)))) C))) t'
        (Path.plug path lifted) := by
  have below : At t (⟨p, b, s, C⟩ :: path) (node x bx (s.flip.pick (node z bz (s.flip.pick B₂ B₁)) A)) := by
    rw [Side.flip_pick, Side.flip_pick]
    exact at_fill.2 place
  obtain ⟨t₁, run₁, place₁, keeps₁⟩ := avlLift_spec below
  have linksZ := (sub_node.1 place₁.sub).1
  have linksX := (sub_node.1 (sub_node.1 place₁.sub).2.2).1
  have turned : At t₁ path (node p b (s.pick (node z (s.flip.lifted bz (s.flip.lowered bx bz))
      (s.pick (node x (s.flip.lowered bx bz) (s.pick A B₁)) B₂)) C)) := by
    have filled := at_fill.1 place₁
    rwa [rotated, Side.flip_pick, Side.flip_pick] at filled
  obtain ⟨t', run', place', keeps'⟩ := avlLift_spec turned
  rw [balanced_node, balanced_node] at inner
  obtain ⟨exact, -, -, first, exact', ge', le', second, third⟩ := inner
  simp only [height_node] at outer exact
  obtain ⟨balanced, height⟩ :=
    rotated_rotated_balanced (z := z) (x := p) (y := x) first second third other exact' ge' le' (by omega)
    leansBack (by omega) heavy
  have linksP := (sub_node.1 (sub_node.1 place'.sub).2.2).1
  refine ⟨t₁, t', _, run₁, ⟨_, linksX, rfl⟩, ⟨_, linksZ, rfl⟩, run', place', rfl, balanced, height, ⟨_, linksP, rfl⟩, ?_⟩
  rw [rotated] at keeps₁
  simp only [Side.flip_pick, Path.plug, Frame.fill] at keeps₁
  exact keeps₁.trans keeps'

end Steps

/-! ## Upwards from a subtree that has become higher -/

section Insert
variable {t : Shape} {path : Path Addr} {s : Side} {p x : Addr} {b bx : Int} {A B C : AvlTree Addr} {n : Nat}

theorem postInsertOn_spec (again : Shape → Addr → Option Shape)
    (place : At t (⟨p, b, s, C⟩ :: path) (node x bx (s.pick A B)))
    (balanced : (node x bx (s.pick A B)).Balanced) (fits : Path.Fits (⟨p, b, s, C⟩ :: path) n)
    (height : (node x bx (s.pick A B)).height = n + 1) (leans : bx ≠ 0)
    (further : ∀ t' b', b' ≠ 0 → At t' path (node p b' (s.pick (node x bx (s.pick A B)) C)) →
      (node p b' (s.pick (node x bx (s.pick A B)) C)).Balanced →
      (node p b' (s.pick (node x bx (s.pick A B)) C)).height = 1 + max n C.height + 1 →
      ∃ t'', again t' p = some t'' ∧ Rebalanced t' (Path.plug path (node p b' (s.pick (node x bx (s.pick A B)) C))) t'') :
    ∃ t', postInsertOn s again t x p = some t' ∧
      Rebalanced t (Path.plug path (node p b (s.pick (node x bx (s.pick A B)) C))) t' := by
  obtain ⟨exact, ge, le, other, above⟩ := fits
  obtain ⟨t₁, run, place₁, keeps₁⟩ := setBalance_spec place fun b => b + s.toward
  simp only at exact ge le other above run place₁ keeps₁
  have parent := place₁.links_above
  have tilts := s.tilt_add_toward b
  generalize b + s.toward = b' at place₁ keeps₁ parent tilts
  have place₂ : At t₁ path (node p b' (s.pick (node x bx (s.pick A B)) C)) := at_fill.1 place₁
  have links := place₁.links
  simp only [Path.plug, Frame.fill] at keeps₁ parent
  have leaning := balanced_node.1 balanced
  by_cases even : b' = 0
  · have zero := (Side.tilt_eq_zero (s := s)).2 even
    refine ⟨t₁, by simp [postInsertOn, run, parent, even], ?_⟩
    refine rebalanced_at place₂ (balanced_node.2 ⟨?_, ?_, ?_, balanced, other⟩) ?_ keeps₁
    · omega
    · omega
    · omega
    · have same : 1 + max (n + 1) C.height = 1 + max n C.height := by omega
      rwa [height_node, height, same]
  by_cases leans' : b' = s.toward
  · have one := Side.eq_toward.1 leans'
    obtain ⟨t'', again', rebalanced⟩ := further t₁ b' even place₂
      (balanced_node.2 ⟨by omega, by omega, by omega, balanced, other⟩) (by rw [height_node]; omega)
    exact ⟨t'', by simp [postInsertOn, run, parent, if_neg even, if_pos leans', again'], rebalanced.after keeps₁⟩
  -- The node leans by 2 now.
  have heavy : s.tilt b' = 2 := by
    have ne : s.tilt b' ≠ 0 := fun zero => even (Side.tilt_eq_zero.1 zero)
    have ne' : s.tilt b' ≠ 1 := fun one => leans' (Side.eq_toward.2 one)
    omega
  by_cases along : bx = s.toward
  · have one := Side.eq_toward.1 along
    obtain ⟨t', lifted, lift, place', -, balanced', height', -, keeps'⟩ :=
      single_spec place₂ balanced other (by omega) (by omega) heavy
    refine ⟨t', by simp [postInsertOn, run, parent, if_neg even, if_neg leans', links, if_pos along, lift], ?_⟩
    refine rebalanced_at place' balanced' ?_ (keeps₁.trans keeps')
    rw [if_neg (by omega)] at height'
    have same : lifted.height = 1 + max n C.height := by omega
    rwa [same]
  · have back : s.tilt bx = -1 := by
      have ne : s.tilt bx ≠ 0 := fun zero => leans (Side.tilt_eq_zero.1 zero)
      have ne' : s.tilt bx ≠ 1 := fun one => along (Side.eq_toward.2 one)
      omega
    cases B with
    | nil =>
        simp only [AvlTree.height] at leaning
        omega
    | node z bz child =>
        obtain ⟨B₁, B₂, rfl⟩ := s.exists_pick child
        obtain ⟨t₂, t', lifted, lift, ⟨nx, linksX, parentX⟩, ⟨nz, linksZ, parentZ⟩, lift', place', -, balanced', height', -,
          keeps'⟩ := double_spec place₂ balanced other back (by omega) heavy
        refine ⟨t', ?_, rebalanced_at place' balanced' ?_ (keeps₁.trans keeps')⟩
        · simp [postInsertOn, run, parent, if_neg even, if_neg leans', links, if_neg along, lift, linksX, parentX, linksZ,
            parentZ, lift']
        · have same : lifted.height = 1 + max n C.height := by omega
          rwa [same]

theorem postInsert_spec {fuel : Nat} (place : At t path (node x bx (s.pick A B)))
    (balanced : (node x bx (s.pick A B)).Balanced)
    (fits : Path.Fits path n) (height : (node x bx (s.pick A B)).height = n + 1) (leans : bx ≠ 0)
    (enough : path.length < fuel) :
    ∃ t', postInsert fuel t x = some t' ∧ Rebalanced t (Path.plug path (node x bx (s.pick A B))) t' := by
  induction path generalizing t s x bx A B n fuel with
  | nil =>
      obtain ⟨fuel, rfl⟩ := Nat.exists_eq_add_one_of_ne_zero (Nat.ne_of_gt enough)
      refine ⟨t, by simp [postInsert, place.links, Path.parent], rebalanced_at place balanced trivial ⟨rfl, fun _ _ => rfl⟩⟩
  | cons f path ih =>
      obtain ⟨fuel, rfl⟩ := Nat.exists_eq_add_one_of_ne_zero (Nat.ne_of_gt (Nat.zero_lt_of_lt enough))
      obtain ⟨p, b, side, C⟩ := f
      obtain ⟨A', B', same⟩ := side.exists_pick (s.pick A B)
      rw [same] at place balanced height ⊢
      have turn := place.side (x := x) rfl
      obtain ⟨t', run, rebalanced⟩ := postInsertOn_spec (postInsert fuel) place balanced fits height leans
        fun t' b' ne place' balanced' height' => ih place' balanced' fits.2.2.2.2 height' ne (Nat.lt_of_succ_lt_succ enough)
      refine ⟨t', ?_, rebalanced⟩
      simp only [postInsert, place.links, Path.parent, place.links_above, Option.bind_eq_bind, Option.bind_some, turn, run]

end Insert

/-! ## Upwards from a subtree that has become lower -/

section Delete
variable {t : Shape} {path : Path Addr} {s : Side} {p x : Addr} {b : Int} {tree C : AvlTree Addr}

theorem avlLowered_spec (again : Shape → Addr → Option Shape) (place : At t (⟨p, b, s, C⟩ :: path) tree)
    (balanced : tree.Balanced) (fits : Path.Fits (⟨p, b, s, C⟩ :: path) (tree.height + 1))
    (further : ∀ t' x tree', tree'.root = some x → At t' path tree' → tree'.Balanced →
      Path.Fits path (tree'.height + 1) → ∃ t'', again t' x = some t'' ∧ Rebalanced t' (Path.plug path tree') t'') :
    ∃ t', avlLowered s again t p = some t' ∧ Rebalanced t (Path.plug path (node p b (s.pick tree C))) t' := by
  obtain ⟨exact, ge, le, other, above⟩ := fits
  obtain ⟨t₁, run, place₁, keeps₁⟩ := setBalance_spec place fun b => b - s.toward
  simp only at exact ge le other above run place₁ keeps₁
  have parent := place₁.links_above
  have tilts := s.tilt_sub_toward b
  generalize b - s.toward = b' at place₁ keeps₁ parent tilts
  have place₂ : At t₁ path (node p b' (s.pick tree C)) := at_fill.1 place₁
  simp only [Path.plug, Frame.fill] at keeps₁ parent
  by_cases even : b' = 0
  · have zero := (Side.tilt_eq_zero (s := s)).2 even
    obtain ⟨t', again', rebalanced⟩ := further t₁ p _ rfl place₂
      (balanced_node.2 ⟨by omega, by omega, by omega, balanced, other⟩) (by
        have same : 1 + max (tree.height + 1) C.height = 1 + max tree.height C.height + 1 := by omega
        rwa [height_node, ← same])
    exact ⟨t', by simp [avlLowered, run, parent, if_pos even, again'], rebalanced.after keeps₁⟩
  -- The other side is higher by 1 now: the height stays, and the loop ends.
  by_cases away : b' = s.flip.toward
  · have one := Side.eq_flip_toward.1 away
    refine ⟨t₁, by simp [avlLowered, run, parent, if_neg even, if_pos away], ?_⟩
    refine rebalanced_at place₂ (balanced_node.2 ⟨by omega, by omega, by omega, balanced, other⟩) ?_ keeps₁
    have same : 1 + max (tree.height + 1) C.height = 1 + max tree.height C.height := by omega
    rwa [height_node, ← same]
  -- The node leans to the other side by 2.
  have heavy : s.flip.tilt b' = 2 := by
    have ne : s.tilt b' ≠ 0 := fun zero => even (Side.tilt_eq_zero.1 zero)
    have ne' : s.tilt b' ≠ -1 := fun one => away (Side.eq_flip_toward.2 one)
    rw [Side.tilt_flip]
    omega
  have lower : s.tilt b = -1 := by
    rw [Side.tilt_flip] at heavy
    omega
  cases C with
  | nil =>
      simp only [AvlTree.height] at exact
      omega
  | node y yb child =>
      obtain ⟨A, B, rfl⟩ := s.flip.exists_pick child
      have links : t₁.node y = some ⟨some p, s.flip.pick A.root B.root, yb⟩ :=
        (sub_node.1 (sub_node.1 place₂.sub).2.2).1
      rw [← Side.flip_pick] at place₂ keeps₁ ⊢
      have leaning := balanced_node.1 other
      by_cases straight : yb = 0
      · have zero := (Side.tilt_eq_zero (s := s.flip)).2 straight
        obtain ⟨t', lifted, lift, place', -, balanced', height', -, keeps'⟩ :=
          single_spec place₂ other balanced (by omega) (by omega) heavy
        refine ⟨t', by simp [avlLowered, run, parent, if_neg even, if_neg away, links, if_pos straight, lift], ?_⟩
        refine rebalanced_at place' balanced' ?_ (keeps₁.trans keeps')
        rw [if_pos zero] at height'
        have same : lifted.height = 1 + max (tree.height + 1) (node y yb (s.flip.pick A B)).height := by omega
        rwa [same]
      -- A single rotation lowers the subtree, and the loop goes on above it.
      by_cases along : yb = s.flip.toward
      · have one := Side.eq_toward.1 along
        obtain ⟨t₂, lifted, lift, place', root, balanced', height', ⟨n, linksP, parentP⟩, keeps'⟩ :=
          single_spec place₂ other balanced (by omega) (by omega) heavy
        rw [if_neg (by omega)] at height'
        have same : lifted.height + 1 = 1 + max (tree.height + 1) (node y yb (s.flip.pick A B)).height := by omega
        obtain ⟨t', again', rebalanced⟩ := further t₂ y lifted root place' balanced' (by rwa [same])
        refine ⟨t', ?_, rebalanced.after (keeps₁.trans keeps')⟩
        simp [avlLowered, run, parent, if_neg even, if_neg away, links, if_neg straight, if_pos along, lift, linksP, parentP,
          again']
      have back : s.flip.tilt yb = -1 := by
        have ne : s.flip.tilt yb ≠ 0 := fun zero => straight (Side.tilt_eq_zero.1 zero)
        have ne' : s.flip.tilt yb ≠ 1 := fun one => along (Side.eq_toward.2 one)
        omega
      cases B with
      | nil =>
          simp only [AvlTree.height] at leaning
          omega
      | node z bz child =>
          obtain ⟨B₁, B₂, rfl⟩ := s.flip.exists_pick child
          obtain ⟨t₂, t₃, lifted, lift, -, -, lift', place', root, balanced', height', ⟨n, linksP, parentP⟩, keeps'⟩ :=
            double_spec place₂ other balanced back (by omega) heavy
          rw [Side.flip_flip] at lift
          have same : lifted.height + 1 =
              1 + max (tree.height + 1) (node y yb (s.flip.pick A (node z bz (s.flip.pick B₁ B₂)))).height := by omega
          obtain ⟨t', again', rebalanced⟩ := further t₃ z lifted root place' balanced' (by rwa [same])
          refine ⟨t', ?_, rebalanced.after (keeps₁.trans keeps')⟩
          simp [avlLowered, run, parent, if_neg even, if_neg away, links, if_neg straight, if_neg along, lift, lift', linksP,
            parentP, again']

theorem avlPostDelete_spec {fuel : Nat} (root : tree.root = some x) (place : At t path tree) (balanced : tree.Balanced)
    (fits : Path.Fits path (tree.height + 1)) (enough : path.length < fuel) :
    ∃ t', avlPostDelete fuel t x = some t' ∧ Rebalanced t (Path.plug path tree) t' := by
  induction path generalizing t x tree fuel with
  | nil =>
      obtain ⟨fuel, rfl⟩ := Nat.exists_eq_add_one_of_ne_zero (Nat.ne_of_gt enough)
      obtain ⟨child, balance, links⟩ := place.root_links root
      refine ⟨t, by simp [avlPostDelete, links, Path.parent], rebalanced_at place balanced trivial ⟨rfl, fun _ _ => rfl⟩⟩
  | cons f path ih =>
      obtain ⟨fuel, rfl⟩ := Nat.exists_eq_add_one_of_ne_zero (Nat.ne_of_gt (Nat.zero_lt_of_lt enough))
      have turn := place.side root
      obtain ⟨t', run, rebalanced⟩ := avlLowered_spec (avlPostDelete fuel) place balanced fits
        fun t' x tree' root' place' balanced' fits' => ih root' place' balanced' fits' (Nat.lt_of_succ_lt_succ enough)
      refine ⟨t', ?_, rebalanced⟩
      obtain ⟨child, balance, links⟩ := place.root_links root
      simp only [avlPostDelete, links, Path.parent, place.links_above, Option.bind_eq_bind, Option.bind_some, turn, run]

end Delete

end HvmlFpm.Util
