import HvmlFpm.Util.Remove

namespace HvmlFpm.Util
open Library AvlTree

section Insert
variable {β : Type} {kv : Kv β} {pending : List Addr} {items before after : List (Item β)} {i : Item β}
  {tree : AvlTree Addr} {a : Addr} {name : CString} {data : β} {fuel : Nat}

theorem lastOfKey_spec (rep : Represents kv pending items tree) (member : i ∈ items) :
    lastOfKey kv (fuel + 1) i.addr = some i.addr := by
  obtain ⟨before, after, rfl⟩ := List.append_of_mem member
  have ring := rep.ring
  rw [addrs_append, addrs_cons, List.map_append, List.map_cons] at ring
  obtain ⟨A, p, q, B, front, back⟩ := exists_neighbours .head ((addrs before).map ListPtr.node) ((addrs after).map .node)
  obtain ⟨-, link, -⟩ := ring.links front back
  cases after with
  | nil =>
      obtain rfl : q = .head := (List.cons.inj back).1.symm
      simp [lastOfKey, link]
  | cons j after =>
      obtain rfl : q = .node j.addr := (List.cons.inj back).1.symm
      simp [lastOfKey, link, rep.entries j]

theorem Represents.split_at {path : Path Addr} {x : Addr} {b : Int} {child : Side → AvlTree Addr}
    (rep : Represents kv pending items (Path.plug path (node x b child))) :
    ∃ before i after, items = before ++ i :: after ∧ i.addr = x ∧
      addrs before = Path.before path ++ (child .left).inorder ∧
      addrs after = (child .right).inorder ++ Path.after path := by
  have order := rep.order
  rw [Path.inorder_plug, inorder, List.append_assoc, ← List.append_assoc] at order
  obtain ⟨before, rest, rfl, first, second⟩ := List.map_eq_append_iff.1 order.symm
  obtain ⟨i, after, rfl, same, third⟩ := List.map_eq_cons_iff.1 second
  exact ⟨before, i, after, rfl, same, first, third⟩

theorem Represents.insert {lists : Lists} {shape : Shape} (rep : Represents kv [a] (before ++ after) tree)
    (entry : kv.entry a = some ⟨name, true, data⟩) (below : ∀ i ∈ before, strcmp i.key name = .lt)
    (above : ∀ i ∈ after, strcmp name i.key = .lt)
    (ring : Ring lists.next lists.prev .head ((addrs before).map .node ++ .node a :: (addrs after).map .node))
    (holds : HoldsTree shape (addrs before ++ a :: addrs after)) :
    ∃ tree', Represents { kv with shape := shape, lists := lists, count := uint (kv.count + 1) } []
      (before ++ ⟨a, name, data⟩ :: after) tree' := by
  obtain ⟨tree', place, balanced, order⟩ := holds
  have perm : ([a] ++ addrs (before ++ after)).Perm (addrs (before ++ ⟨a, name, data⟩ :: after)) := by
    rw [addrs_append, addrs_append, addrs_cons, List.singleton_append]
    exact List.perm_middle.symm
  refine ⟨tree', ?_⟩
  constructor
  case place => exact place
  case balanced => exact balanced
  case order => rw [order, addrs_append, addrs_cons]
  case ascending =>
    obtain ⟨front, back, across⟩ := List.pairwise_append.1 rep.ascending
    refine List.pairwise_append.2 ⟨front, List.pairwise_cons.2 ⟨above, back⟩, ?_⟩
    intro i iMem j jMem
    rcases List.mem_cons.1 jMem with rfl | jMem
    · exact below i iMem
    · exact across i iMem j jMem
  case ring =>
    rw [addrs_append, addrs_cons, List.map_append, List.map_cons]
    exact ring
  case entries =>
    intro i member
    rcases List.mem_append.1 member with member | member
    · exact rep.entries i (List.mem_append_left _ member)
    · rcases List.mem_cons.1 member with rfl | member
      · exact entry
      · exact rep.entries i (List.mem_append_right _ member)
  case allocated =>
    intro c member
    cases member
  case live => exact rep.live.trans perm
  case nodup => exact perm.nodup_iff.1 rep.nodup
  case count =>
    have one_more : (before ++ ⟨a, name, data⟩ :: after).length = (before ++ after).length + 1 := by
      simp [Nat.add_assoc]
    rw [one_more, rep.count, uint_succ]

theorem avlInsert_empty (rep : Represents kv [a] [] tree) (entry : kv.entry a = some ⟨name, true, data⟩)
    (new : kv.shape.node a = some ⟨none, fun _ => none, 0⟩) :
    ∃ lists tree', listAdd kv.lists (.node a) .head = some lists ∧
      Represents { kv with lists := lists, shape := { kv.shape with root := some a }, count := 1 } []
        [⟨a, name, data⟩] tree' := by
  have ring : Ring kv.lists.next kv.lists.prev .head ([] ++ []) := rep.ring
  have front : [ListPtr.head] = [] ++ [ListPtr.head] := rfl
  obtain ⟨lists, run, ring'⟩ := listAdd_ring ring (by simp) (by simp) (rep.allocated a List.mem_cons_self).list front
  have holds : HoldsTree { kv.shape with root := some a } [a] :=
    ⟨leaf a, ⟨rfl, ⟨new, fun _ => trivial⟩, List.nodup_singleton a⟩, ⟨rfl, by decide, by decide, fun _ => trivial⟩, rfl⟩
  have single : Represents kv [a] ([] ++ []) tree := rep
  obtain ⟨tree', rep'⟩ := single.insert entry (by simp) (by simp) ring' holds
  have one : uint (kv.count + 1) = 1 := by
    rw [rep.count, uint_succ]
    rfl
  rw [one] at rep'
  exact ⟨lists, tree', run, rep'⟩

variable {path : Path Addr} {x : Addr} {b : Int} {child : Side → AvlTree Addr}

theorem Represents.path_length (rep : Represents kv pending items (Path.plug path (node x b child))) :
    path.length < kv.fuel := by
  have bound := Path.length_le path (node x b child)
  have bound' := rep.length_le
  rw [Kv.fuel]
  omega

structure Open (l : Lists) (a : Addr) (before after : List Addr) : Prop where
  ring : Ring l.next l.prev .head (before.map .node ++ after.map .node)
  nodup : (ListPtr.head :: (before.map .node ++ after.map .node)).Nodup
  fresh : ListPtr.node a ∉ ListPtr.head :: (before.map .node ++ after.map .node)
  alive : (l (.node a)).isSome = true

theorem Represents.opened (rep : Represents kv [a] (before ++ after) tree) :
    Open kv.lists a (addrs before) (addrs after) := by
  have ring := rep.ring
  have nodup := rep.nodup_ring
  have outside := rep.pending_outside List.mem_cons_self
  rw [addrs_append, List.map_append] at ring nodup
  refine ⟨ring, nodup, ?_, (rep.allocated a List.mem_cons_self).list⟩
  rw [← List.map_append, ← addrs_append]
  simpa using outside

theorem Represents.fresh (rep : Represents kv [a] items tree) : a ∉ tree.inorder :=
  rep.order ▸ rep.pending_outside List.mem_cons_self

theorem insert_left (rep : Represents kv [a] items (Path.plug path (node x b child)))
    (entry : kv.entry a = some ⟨name, true, data⟩) (new : kv.shape.node a = some ⟨none, fun _ => none, 0⟩)
    (empty : child .left = nil) (below : ∀ c ∈ Path.before path, strcmp (kv.keyOf c) name = .lt)
    (lt : strcmp name (kv.keyOf x) = .lt) :
    ∃ lists shape before after tree',
      avlInsertBefore kv x a = some { kv with lists := lists, count := uint (kv.count + 1) } ∧
      (b = 1 ∧ avlAttach .left 0 kv.shape x a = some shape ∨
        b = 0 ∧ ∃ t₁, avlAttach .left (-1) kv.shape x a = some t₁ ∧ postInsert kv.fuel t₁ x = some shape) ∧
      items = before ++ after ∧
      Represents { kv with shape := shape, lists := lists, count := uint (kv.count + 1) } []
        (before ++ ⟨a, name, data⟩ :: after) tree' := by
  obtain ⟨C, rfl⟩ : ∃ C, child = Side.left.pick nil C := ⟨child .right, empty ▸ (Side.left.pick_eta child).symm⟩
  obtain ⟨before, i, after, rfl, rfl, front, back⟩ := rep.split_at
  obtain ⟨shape, holds, attached⟩ := attach_spec (at_whole.2 rep.place) rep.balanced rep.fresh new rep.path_length
  obtain ⟨ring, nodup, fresh, alive⟩ := rep.opened
  obtain ⟨lists, run, ring'⟩ := listAddTail_ring ring nodup fresh alive rfl
  rw [rep.keyOf (by simp)] at lt
  have members : ∀ j ∈ before, strcmp j.key name = .lt := by
    intro j member
    have inside : j.addr ∈ addrs before := mem_addrs.2 ⟨j, member, rfl⟩
    rw [front] at inside
    have less := below j.addr (by simpa [inorder] using inside)
    rwa [rep.keyOf (List.mem_append_left _ member)] at less
  have members' : ∀ j ∈ i :: after, strcmp name j.key = .lt := by
    intro j member
    rcases List.mem_cons.1 member with rfl | member
    · exact lt
    · exact strcmp_trans lt ((List.pairwise_cons.1 (List.pairwise_append.1 rep.ascending).2.1).1 j member)
  have nodes : (Path.plug path (node i.addr b (Side.left.pick (leaf a) C))).inorder =
      addrs before ++ a :: addrs (i :: after) := by
    rw [Path.inorder_plug, addrs_cons, front, back]
    simp [inorder, leaf, Side.pick]
  rw [nodes] at holds
  obtain ⟨tree', rep'⟩ := rep.insert entry members members' ring' holds
  exact ⟨lists, shape, before, i :: after, tree',
    by simp only [avlInsertBefore, run, Option.bind_eq_bind, Option.bind_some], attached, rfl, rep'⟩

theorem insert_right (rep : Represents kv [a] items (Path.plug path (node x b child)))
    (entry : kv.entry a = some ⟨name, true, data⟩) (new : kv.shape.node a = some ⟨none, fun _ => none, 0⟩)
    (empty : child .right = nil) (above : ∀ c ∈ Path.after path, strcmp name (kv.keyOf c) = .lt)
    (gt : strcmp name (kv.keyOf x) = .gt) :
    ∃ lists shape before after tree',
      avlInsertAfter kv x a = some { kv with lists := lists, count := uint (kv.count + 1) } ∧
      (b = -1 ∧ avlAttach .right 0 kv.shape x a = some shape ∨
        b = 0 ∧ ∃ t₁, avlAttach .right 1 kv.shape x a = some t₁ ∧ postInsert kv.fuel t₁ x = some shape) ∧
      items = before ++ after ∧
      Represents { kv with shape := shape, lists := lists, count := uint (kv.count + 1) } []
        (before ++ ⟨a, name, data⟩ :: after) tree' := by
  obtain ⟨C, rfl⟩ : ∃ C, child = Side.right.pick nil C := ⟨child .left, empty ▸ (Side.right.pick_eta child).symm⟩
  obtain ⟨before, i, after, rfl, rfl, front, back⟩ := rep.split_at
  obtain ⟨shape, holds, attached⟩ := attach_spec (at_whole.2 rep.place) rep.balanced rep.fresh new rep.path_length
  have gap : before ++ i :: after = (before ++ [i]) ++ after := by simp
  rw [gap] at rep
  obtain ⟨ring, nodup, fresh, alive⟩ := rep.opened
  have last : ListPtr.head :: (addrs (before ++ [i])).map .node =
      (ListPtr.head :: (addrs before).map .node) ++ [.node i.addr] := by
    simp
  obtain ⟨lists, run, ring'⟩ := listAdd_ring ring nodup fresh alive last
  rw [rep.keyOf (by simp)] at gt
  have lt := strcmp_gt.1 gt
  have members : ∀ j ∈ before ++ [i], strcmp j.key name = .lt := by
    intro j member
    rcases List.mem_append.1 member with member | member
    · exact strcmp_trans ((List.pairwise_append.1 (List.pairwise_append.1 rep.ascending).1).2.2 j member i (by simp)) lt
    · exact List.mem_singleton.1 member ▸ lt
  have members' : ∀ j ∈ after, strcmp name j.key = .lt := by
    intro j member
    have inside : j.addr ∈ addrs after := mem_addrs.2 ⟨j, member, rfl⟩
    rw [back] at inside
    have less := above j.addr (by simpa [inorder] using inside)
    rwa [rep.keyOf (List.mem_append_right _ member)] at less
  have nodes : (Path.plug path (node i.addr b (Side.right.pick (leaf a) C))).inorder =
      addrs (before ++ [i]) ++ a :: addrs after := by
    rw [Path.inorder_plug, addrs_append, front, back]
    simp [inorder, leaf, Side.pick]
  rw [nodes] at holds
  obtain ⟨tree', rep'⟩ := rep.insert entry members members' ring' holds
  exact ⟨lists, shape, before ++ [i], after, tree',
    by simp only [avlInsertAfter, run, Option.bind_eq_bind, Option.bind_some], attached, gap, rep'⟩

theorem avlInsert_begin (rep : Represents kv [a] items tree) (entry : kv.entry a = some ⟨name, false, data⟩) :
    ∃ kv₁, kv.shape.modify a (fun _ => ⟨none, fun _ => none, 0⟩) = some kv₁.shape ∧
      ({ kv with shape := kv₁.shape } : Kv β).setLeader a = some kv₁ ∧ Represents kv₁ [a] items tree ∧
      kv₁.entry a = some ⟨name, true, data⟩ ∧ kv₁.shape.node a = some ⟨none, fun _ => none, 0⟩ := by
  have allocated := rep.allocated a List.mem_cons_self
  obtain ⟨n, links⟩ := Option.isSome_iff_exists.1 allocated.links
  let kv₁ : Kv β :=
    { kv with
      shape := kv.shape.set a ⟨none, fun _ => none, 0⟩
      entry := Function.update kv.entry a (some ⟨name, true, data⟩) }
  have leader : ({ kv with shape := kv₁.shape } : Kv β).setLeader a = some kv₁ := by
    rw [Kv.setLeader, entry, Option.map_some]
  refine ⟨kv₁, modify_eq links _, leader, ?_, Function.update_self .., set_node⟩
  refine rep.congr ⟨rfl, rfl, rfl⟩ ?_ ?_ rep.live rep.nodup
  · intro c member
    have ne : c ≠ a := by
      rintro rfl
      exact rep.pending_outside List.mem_cons_self member
    exact ⟨set_node_of_ne ne, rfl, Function.update_of_ne ne ..⟩
  · intro c member
    obtain rfl := List.mem_singleton.1 member
    exact ⟨congrArg Option.isSome set_node, allocated.list⟩

theorem avlInsertAt_spec {r : Addr} (rep : Represents kv [a] items tree) (entry : kv.entry a = some ⟨name, true, data⟩)
    (new : kv.shape.node a = some ⟨none, fun _ => none, 0⟩) (absent : ∀ i ∈ items, i.key ≠ name)
    (root : tree.root = some r) :
    ∃ i ∈ items, avlFindRec kv name kv.fuel r = some (i.addr, strcmp name i.key) ∧
      ∃ kv' before after tree', avlInsertAt kv a i.addr i.addr = some (kv', 0) ∧ items = before ++ after ∧
        Represents kv' [] (before ++ ⟨a, name, data⟩ :: after) tree' := by
  have own : kv.key a = some name := Kv.key_of_entry entry
  obtain ⟨i, member, found, path, b, child, rfl, below, above, left, right⟩ := rep.find root name
  have links : kv.shape.node i.addr = some ⟨_, _, b⟩ := (at_whole.2 rep.place).sub.1
  have key := rep.key member
  rw [rep.keyOf member] at left right
  refine ⟨i, member, found, ?_⟩
  cases diff : strcmp name i.key with
  | eq => exact absurd (strcmp_eq.1 diff).symm (absent i member)
  | lt =>
      obtain ⟨lists, shape, before, after, tree', added, attached, split, rep'⟩ :=
        insert_left rep entry new (left diff) below ((rep.keyOf member).symm ▸ diff)
      refine ⟨_, before, after, tree', ?_, split, rep'⟩
      have same : ({ kv with lists := lists, count := uint (kv.count + 1) } : Kv β).fuel = kv.fuel := rfl
      rcases attached with ⟨rfl, attached⟩ | ⟨rfl, t₁, attached, lifted⟩
      · simp [avlInsertAt, own, key, links, diff, added, attached]
      · simp [avlInsertAt, own, key, links, diff, added, attached, same, lifted]
  | gt =>
      obtain ⟨lists, shape, before, after, tree', added, attached, split, rep'⟩ :=
        insert_right rep entry new (right diff) above ((rep.keyOf member).symm ▸ diff)
      refine ⟨_, before, after, tree', ?_, split, rep'⟩
      have same : ({ kv with lists := lists, count := uint (kv.count + 1) } : Kv β).fuel = kv.fuel := rfl
      rcases attached with ⟨rfl, attached⟩ | ⟨rfl, t₁, attached, lifted⟩
      · simp [avlInsertAt, own, key, links, diff, added, attached]
      · simp [avlInsertAt, own, key, links, diff, added, attached, same, lifted]

theorem avlInsert_spec (rep : Represents kv [a] items tree) (entry : kv.entry a = some ⟨name, false, data⟩)
    (absent : ∀ i ∈ items, i.key ≠ name) :
    ∃ kv' before after tree', avlInsert kv a = some (kv', 0) ∧ items = before ++ after ∧
      Represents kv' [] (before ++ ⟨a, name, data⟩ :: after) tree' := by
  obtain ⟨kv₁, reset, leader, rep₁, entry₁, new⟩ := avlInsert_begin rep entry
  have rooted : kv₁.shape.root = tree.root := rep₁.place.above
  cases root : tree.root with
  | none =>
      have none : items = [] := rep₁.empty root
      subst none
      obtain ⟨lists, tree', run, rep'⟩ := avlInsert_empty rep₁ entry₁ new
      exact ⟨_, [], [], tree', by simp [avlInsert, reset, leader, rooted, root, run], rfl, rep'⟩
  | some r =>
      have own : kv₁.key a = some name := Kv.key_of_entry entry₁
      obtain ⟨i, member, found, kv', before, after, tree', inserted, split, rep'⟩ :=
        avlInsertAt_spec rep₁ entry₁ new absent root
      have last : lastOfKey kv₁ kv₁.fuel i.addr = some i.addr := lastOfKey_spec rep₁ member
      exact ⟨kv', before, after, tree', by simp [avlInsert, reset, leader, rooted, root, own, found, last, inserted],
        split, rep'⟩

theorem calloc_spec (rep : Represents kv pending items tree) (fresh : a ∉ kv.live) :
    Represents (kv.calloc a) (a :: pending) items tree := by
  have outside : a ∉ pending ++ addrs items := by
    rwa [← rep.live.mem_iff]
  have same : ∀ c ∈ pending ++ addrs items, kv.SameNode (kv.calloc a) c := by
    intro c member
    have ne : c ≠ a := fun same => outside (same ▸ member)
    exact ⟨set_node_of_ne ne, Function.update_of_ne (mt ListPtr.node.inj ne) .., rfl⟩
  refine rep.congr ⟨rfl, rfl, rfl⟩ ?_ ?_ (rep.live.cons a) (List.nodup_cons.2 ⟨outside, rep.nodup⟩)
  · exact fun c member => same c (List.mem_append_right _ member)
  · intro c member
    rcases List.mem_cons.1 member with rfl | member
    · exact ⟨congrArg Option.isSome set_node, by simp [Kv.calloc]⟩
    · exact (same c (List.mem_append_left _ member)).allocated (rep.allocated c member)

theorem store_spec (rep : Represents kv pending items tree) (member : a ∈ pending) (name : CString) (data : β) :
    Represents (kv.store a name data) pending items tree := by
  refine rep.congr ⟨rfl, rfl, rfl⟩ ?_ ?_ rep.live rep.nodup
  · intro c inside
    have ne : c ≠ a := by
      rintro rfl
      exact rep.pending_outside member inside
    exact ⟨rfl, rfl, Function.update_of_ne ne ..⟩
  · exact fun c inside => ⟨(rep.allocated c inside).links, (rep.allocated c inside).list⟩

theorem allocLen_lt_iff (name : CString) : allocLen name < 72 + name.length + 1 ↔ ¬ name.length < 2 ^ 31 - 80 := by
  rw [allocLen, toInt]
  omega

theorem kvlistSetEx_spec (rep : Represents kv [] items tree) (fresh : a ∉ kv.live) (name : CString) (data : β)
    {stored : Bool} (fits : name.length < 2 ^ 31 - 80) (kept : stored = true → ∀ i ∈ items, i.key ≠ name) :
    ∃ kv' before after tree', kvlistSetEx kv (some a) name data stored = some (kv', some name) ∧
      items.filter (fun i => i.key ≠ name) = before ++ after ∧
      Represents kv' [] (before ++ ⟨a, name, data⟩ :: after) tree' := by
  obtain ⟨kv₁, tree₁, deleted, rep₁⟩ := kvlistDelete_spec (calloc_spec rep fresh) name
  have rep₂ := store_spec rep₁ List.mem_cons_self name data
  have entry : (kv₁.store a name data).entry a = some ⟨name, false, data⟩ := Function.update_self ..
  have absent : ∀ i ∈ items.filter (fun i => i.key ≠ name), i.key ≠ name := by
    intro i member
    exact of_decide_eq_true (List.mem_filter.1 member).2
  obtain ⟨kv', before, after, tree', inserted, split, rep'⟩ := avlInsert_spec rep₂ entry absent
  refine ⟨kv', before, after, tree', ?_, split, rep'⟩
  have within : ¬ allocLen name < 72 + name.length + 1 := by rwa [allocLen_lt_iff, not_not]
  have positive : ¬ allocLen name < 0 := by omega
  simpa [kvlistSetEx, positive, deleted, within, inserted] using kept

/-- It reads what it has freed, or writes behind its block. -/
theorem kvlistSetEx_none (rep : Represents kv [] items tree) (fresh : a ∉ kv.live) (name : CString) (data : β)
    {stored : Bool} (allocates : 0 ≤ allocLen name)
    (unsound : ¬ (name.length < 2 ^ 31 - 80 ∧ (stored = true → ∀ i ∈ items, i.key ≠ name))) :
    kvlistSetEx kv (some a) name data stored = none := by
  obtain ⟨kv₁, tree₁, deleted, -⟩ := kvlistDelete_spec (calloc_spec rep fresh) name
  have positive : ¬ allocLen name < 0 := by omega
  by_cases fits : name.length < 2 ^ 31 - 80
  · have dead : (stored && items.any fun i => i.key = name) = true := by
      rw [and_iff_right fits] at unsound
      simpa using unsound
    simp only [kvlistSetEx, if_neg positive, deleted, Option.bind_eq_bind, Option.bind_some, dead, if_true]
  · have outside : allocLen name < 72 + name.length + 1 := (allocLen_lt_iff name).2 fits
    simp [kvlistSetEx, positive, deleted, outside]

end Insert

end HvmlFpm.Util
