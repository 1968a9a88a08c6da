import HvmlFpm.Util.Represents

namespace HvmlFpm.Util
open Library AvlTree

section Items
variable {β : Type} {items before after : List (Item β)} {i : Item β} {name : CString}

theorem distinct_of_ascending (ascending : (before ++ i :: after).Pairwise fun i j => strcmp i.key j.key = .lt) :
    (∀ j ∈ before, j.key ≠ i.key) ∧ ∀ j ∈ after, j.key ≠ i.key := by
  obtain ⟨-, back, across⟩ := List.pairwise_append.1 ascending
  constructor
  · intro j member same
    exact strcmp_irrefl (same ▸ across j member i List.mem_cons_self)
  · intro j member same
    have lt := (List.pairwise_cons.1 back).1 j member
    rw [same] at lt
    exact strcmp_irrefl lt

theorem filter_split (ascending : (before ++ i :: after).Pairwise fun i j => strcmp i.key j.key = .lt) :
    (before ++ i :: after).filter (fun j => j.key ≠ i.key) = before ++ after := by
  obtain ⟨front, back⟩ := distinct_of_ascending ascending
  have keeps : ∀ js : List (Item β), (∀ j ∈ js, j.key ≠ i.key) → js.filter (fun j => j.key ≠ i.key) = js := by
    intro js apart
    apply List.filter_eq_self.2
    intro j member
    exact decide_eq_true (apart j member)
  rw [List.filter_append, List.filter_cons_of_neg (by simp), keeps before front, keeps after back]

end Items

section Remove
variable {β : Type} {kv : Kv β} {pending : List Addr} {items before after : List (Item β)} {i : Item β}
  {tree : AvlTree Addr}

theorem alive_of_ring {l : Lists} {ps : List ListPtr} {p : ListPtr} (ring : Ring l.next l.prev .head ps)
    (member : p ∈ ps) : (l p).isSome = true := by
  obtain ⟨ys, zs, rfl⟩ := List.append_of_mem member
  obtain ⟨A, q, r, B, front, back⟩ := exists_neighbours .head ys zs
  exact alive_of_next (ring.links front back).2.1

theorem avlDelete_spec (rep : Represents kv pending (before ++ i :: after) tree) :
    ∃ kv' tree', avlDelete kv i.addr = some kv' ∧ Represents kv' (i.addr :: pending) (before ++ after) tree' := by
  have member : i ∈ before ++ i :: after := by simp
  have entry := rep.entries i member
  obtain ⟨path, b, child, rfl⟩ := exists_place (rep.mem_tree member)
  have enough : (Path.plug path (node i.addr b child)).inorder.length < kv.live.length + 1 :=
    Nat.lt_succ_of_le rep.length_le
  obtain ⟨shape, run, tree', place, balanced, inorder, off, still⟩ :=
    avlDeleteWorker_spec (at_whole.2 rep.place) rep.balanced enough
  have ring := rep.ring
  have nodupRing := rep.nodup_ring
  rw [addrs_append, addrs_cons, List.map_append, List.map_cons] at ring nodupRing
  obtain ⟨lists, unlinked, ring', alive⟩ := listDel_ring ring nodupRing
  have distinct := List.Nodup.of_append_right rep.nodup
  rw [addrs_append, addrs_cons] at distinct
  rw [rep.order, addrs_append, addrs_cons, erase_middle distinct] at inorder
  have shorter : (before ++ after).Sublist (before ++ i :: after) := (List.sublist_cons_self i after).append_left before
  have perm : (pending ++ addrs (before ++ i :: after)).Perm (i.addr :: pending ++ addrs (before ++ after)) := by
    rw [addrs_append, addrs_cons, addrs_append, ← List.append_assoc, List.cons_append, ← List.append_assoc]
    exact List.perm_middle
  have deleted : avlDelete kv i.addr = some { kv with
      shape := shape, lists := lists, count := uint (kv.count + (2 ^ 32 - 1)) } := by
    simp only [avlDelete, entry, Kv.fuel, run, unlinked, Option.bind_eq_bind, Option.bind_some, if_true]
  refine ⟨_, tree', deleted, ?_⟩
  constructor
  case place => exact place
  case balanced => exact balanced
  case order => rw [inorder, addrs_append]
  case ascending => exact rep.ascending.sublist shorter
  case ring =>
    rw [addrs_append, List.map_append]
    exact ring'
  case entries => exact fun j inside => rep.entries j (shorter.subset inside)
  case allocated =>
    intro a inside
    rcases List.mem_cons.1 inside with rfl | inside
    · exact ⟨still, (alive _).trans (alive_of_ring rep.ring (by simp))⟩
    · have outside : a ∉ (Path.plug path (node i.addr b child)).inorder := by
        rw [rep.order]
        exact rep.pending_outside inside
      exact ⟨(congrArg Option.isSome (off a outside)).trans (rep.allocated a inside).links,
        (alive _).trans (rep.allocated a inside).list⟩
  case live => exact rep.live.trans perm
  case nodup => exact perm.nodup_iff.1 rep.nodup
  case count =>
    have one_more : (before ++ i :: after).length = (before ++ after).length + 1 := by
      simp [Nat.add_assoc]
    rw [rep.count, one_more, uint_pred]

theorem free_spec {a : Addr} (rep : Represents kv (a :: pending) items tree) :
    ∃ kv', kv.free a = some kv' ∧ Represents kv' pending items tree := by
  have inLive : a ∈ kv.live := by
    rw [rep.live.mem_iff]
    exact List.mem_cons_self
  obtain ⟨alone, distinct⟩ := List.nodup_cons.1 rep.nodup
  have live := rep.live.erase a
  rw [List.cons_append, List.erase_cons_head] at live
  let kv' : Kv β :=
    { kv with
      shape := { kv.shape with node := Function.update kv.shape.node a none }
      lists := Function.update kv.lists (.node a) none
      entry := Function.update kv.entry a none
      live := kv.live.erase a }
  have same : ∀ c ∈ pending ++ addrs items, kv.SameNode kv' c := by
    intro c member
    have ne : c ≠ a := fun same => alone (same ▸ member)
    exact ⟨Function.update_of_ne ne .., Function.update_of_ne (mt ListPtr.node.inj ne) .., Function.update_of_ne ne ..⟩
  refine ⟨kv', if_pos inLive, rep.congr ⟨rfl, rfl, rfl⟩ ?_ ?_ live distinct⟩
  · exact fun c member => same c (List.mem_append_right _ member)
  · intro c member
    exact (same c (List.mem_append_left _ member)).allocated (rep.allocated c (List.mem_cons_of_mem a member))

theorem kvlistDelete_spec (rep : Represents kv pending items tree) (name : CString) :
    ∃ kv' tree', kvlistDelete kv name = some (kv', items.any fun i => i.key = name) ∧
      Represents kv' pending (items.filter fun i => i.key ≠ name) tree' := by
  rcases avlFind_spec rep name with ⟨i, member, rfl, run⟩ | ⟨absent, run⟩
  · have there : (items.any fun j => j.key = i.key) = true := List.any_eq_true.2 ⟨i, member, decide_eq_true rfl⟩
    obtain ⟨before, after, rfl⟩ := List.append_of_mem member
    obtain ⟨kv₁, tree', deleted, rep₁⟩ := avlDelete_spec rep
    obtain ⟨kv', freed, rep'⟩ := free_spec rep₁
    rw [there, filter_split rep.ascending]
    exact ⟨kv', tree', by simp [kvlistDelete, run, deleted, freed], rep'⟩
  · have none : (items.any fun i => i.key = name) = false := by simpa using absent
    have all : items.filter (fun i => i.key ≠ name) = items := by simpa using absent
    rw [none, all]
    exact ⟨kv, tree, by simp [kvlistDelete, run], rep⟩

end Remove

end HvmlFpm.Util
