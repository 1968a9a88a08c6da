import HvmlFpm.Util.Insert

namespace HvmlFpm.Util
open Library AvlTree

def start : List Addr → ListPtr
  | [] => .head
  | a :: _ => .node a

theorem start_cons {a : Addr} {rest : List Addr} : start (a :: rest) = .node a := rfl

def Chained (next : ListPtr → Option ListPtr) : List Addr → Prop
  | [] => (next .head).isSome = true
  | a :: rest => next (.node a) = some (start rest) ∧ Chained next rest

section Chain
variable {next next' prev : ListPtr → Option ListPtr} {nodes : List Addr}

theorem Chained.at_start (chained : Chained next nodes) : ∃ p, next (start nodes) = some p := by
  cases nodes with
  | nil => exact Option.isSome_iff_exists.1 chained
  | cons a rest => exact ⟨_, chained.1⟩

theorem Chained.head (chained : Chained next nodes) : (next .head).isSome = true := by
  induction nodes with
  | nil => exact chained
  | cons a rest ih => exact ih chained.2

theorem Chained.congr (chained : Chained next nodes) (head : (next' .head).isSome = true)
    (same : ∀ a ∈ nodes, next' (.node a) = next (.node a)) : Chained next' nodes := by
  induction nodes with
  | nil => exact head
  | cons a rest ih =>
      obtain ⟨link, chained⟩ := chained
      refine ⟨(same a List.mem_cons_self).trans link, ih chained ?_⟩
      exact fun c member => same c (List.mem_cons_of_mem a member)

theorem Chained.at {a : Addr} {rest : List Addr} (chained : Chained next (nodes ++ a :: rest)) :
    next (.node a) = some (start rest) := by
  induction nodes with
  | nil => exact chained.1
  | cons b nodes ih => exact ih chained.2

theorem chained_of_isChain {p : ListPtr} (chain : (p :: (nodes.map ListPtr.node ++ [.head])).IsChain (Linked next prev))
    (head : (next .head).isSome = true) : next p = some (start nodes) ∧ Chained next nodes := by
  induction nodes generalizing p with
  | nil => exact ⟨(List.isChain_cons_cons.1 chain).1.1, head⟩
  | cons a rest ih =>
      obtain ⟨link, chain⟩ := List.isChain_cons_cons.1 chain
      exact ⟨link.1, ih chain⟩

theorem Ring.chained (ring : Ring next prev .head (nodes.map .node)) :
    next .head = some (start nodes) ∧ Chained next nodes := by
  obtain ⟨q, link⟩ : ∃ q, next .head = some q := by
    cases nodes with
    | nil => exact ⟨_, (List.isChain_cons_cons.1 ring).1.1⟩
    | cons a rest => exact ⟨_, (List.isChain_cons_cons.1 ring).1.1⟩
  exact chained_of_isChain ring (by rw [link, Option.isSome_some])

end Chain

section Walk
variable {β : Type} {kv : Kv β} {pending : List Addr} {items : List (Item β)} {tree : AvlTree Addr}

theorem kvlistForEachFrom_spec {fuel : Nat} {p : ListPtr} (chained : Chained kv.lists.next (addrs items))
    (entries : ∀ i ∈ items, kv.entry i.addr = some ⟨i.key, true, i.data⟩)
    (next : kv.lists.next (start (addrs items)) = some p) (enough : items.length < fuel) :
    kvlistForEachFrom kv fuel (start (addrs items)) p = some (items.map fun i => (i.key, i.data)) := by
  induction items generalizing fuel p with
  | nil =>
      obtain ⟨fuel, rfl⟩ : ∃ fuel', fuel = fuel' + 1 := ⟨fuel - 1, by simp at enough; omega⟩
      rfl
  | cons i rest ih =>
      obtain ⟨fuel, rfl⟩ : ∃ fuel', fuel = fuel' + 1 := ⟨fuel - 1, by simp at enough; omega⟩
      obtain ⟨link, chained⟩ := chained
      obtain rfl : start (addrs rest) = p := Option.some.inj (link.symm.trans next)
      obtain ⟨later, afterNext⟩ : ∃ q, kv.lists.next (start (addrs rest)) = some q := chained.at_start
      have entry := entries i List.mem_cons_self
      have tail := ih chained (fun j member => entries j (List.mem_cons_of_mem i member)) afterNext
        (Nat.lt_of_succ_lt_succ enough)
      simp [kvlistForEachFrom, start_cons, entry, afterNext, tail]

theorem kvlistForEachSafe_spec (rep : Represents kv pending items tree) :
    kvlistForEachSafe kv = some (items.map fun i => (i.key, i.data)) := by
  obtain ⟨first, chained⟩ := Ring.chained rep.ring
  obtain ⟨p, next⟩ := chained.at_start
  have enough : items.length < kv.fuel := by
    have bound := rep.length_le
    rw [rep.order, length_addrs] at bound
    rw [Kv.fuel]
    omega
  simp [kvlistForEachSafe, first, next, kvlistForEachFrom_spec chained rep.entries next enough]

theorem avlRemoveFrom_spec {nodes kept : List Addr} {count : Nat} {p : ListPtr} (chained : Chained kv.lists.next nodes)
    (live : kv.live.Perm (nodes ++ kept)) (nodup : nodes.Nodup) (next : kv.lists.next (start nodes) = some p)
    (counted : kv.count = count) (within : count ≤ nodes.length) :
    ∃ kv', avlRemoveFrom kv count (start nodes) p = some (kv', nodes.take count) ∧
      kv'.live.Perm (nodes.drop count ++ kept) ∧ kv'.count = 0 ∧ kv'.shape.root = kv.shape.root ∧
      kv'.lists .head = kv.lists .head := by
  induction count generalizing kv nodes p with
  | zero => exact ⟨kv, by simp [avlRemoveFrom], live, counted, rfl, rfl⟩
  | succ count ih =>
      cases nodes with
      | nil => simp at within
      | cons a rest =>
          obtain ⟨link, chained⟩ := chained
          obtain rfl : start rest = p := Option.some.inj (link.symm.trans next)
          obtain ⟨alone, nodup⟩ := List.nodup_cons.1 nodup
          have inLive : a ∈ kv.live := by
            rw [live.mem_iff]
            exact List.mem_cons_self
          have live := live.erase a
          rw [List.cons_append, List.erase_cons_head] at live
          let kv₁ : Kv β :=
            { kv with
              shape := { kv.shape with node := Function.update kv.shape.node a none }
              lists := Function.update kv.lists (.node a) none
              entry := Function.update kv.entry a none
              live := kv.live.erase a
              count := count }
          have off : ∀ q, q ≠ .node a → kv₁.lists.next q = kv.lists.next q := by
            intro q ne
            simp only [Lists.next, kv₁, Function.update_of_ne ne]
          have chained₁ : Chained kv₁.lists.next rest := by
            apply chained.congr
            · rw [off .head (by simp)]
              exact chained.head
            · intro c member
              apply off
              rintro ⟨⟩
              exact alone member
          obtain ⟨later, afterNext⟩ := chained₁.at_start
          obtain ⟨kv', run, live', zero, root, head⟩ := ih chained₁ live nodup afterNext rfl (Nat.le_of_succ_le_succ within)
          refine ⟨kv', ?_, live', zero, root, ?_⟩
          · have freed : kv.free a = some { kv₁ with count := kv.count } := if_pos inLive
            simp only [avlRemoveFrom, start_cons, freed, afterNext, run, Option.bind_eq_bind, Option.bind_some, kv₁,
              List.take_succ_cons]
          · have apart : ListPtr.head ≠ .node a := by simp
            rw [head]
            simp only [kv₁, Function.update_of_ne apart]

theorem kvlistFree_spec (rep : Represents kv [] items tree) :
    ∃ kv', kvlistFree kv = some (kv', (addrs items).take kv.count) ∧
      kv'.live.Perm ((addrs items).drop kv.count) ∧ (items.length < 2 ^ 32 → Represents kv' [] [] nil) := by
  obtain ⟨first, chained⟩ := Ring.chained rep.ring
  obtain ⟨p, next⟩ := chained.at_start
  have alive := alive_of_next first
  obtain ⟨l₁, cut₁, next₁, prev₁, alive₁⟩ := setPrev_spec alive (some .head)
  obtain ⟨l₂, cut₂, next₂, prev₂, -⟩ := setNext_spec ((alive₁ .head).trans alive) (some .head)
  let kv₁ : Kv β := { kv with lists := l₂, shape := { kv.shape with root := none } }
  have self : kv₁.lists.next .head = some .head := by
    rw [next₂, Function.update_self]
  have within : kv.count ≤ (addrs items).length := by
    rw [rep.count, length_addrs]
    exact Nat.mod_le _ _
  have off : ∀ a : Addr, kv₁.lists.next (.node a) = kv.lists.next (.node a) := by
    intro a
    have apart : ListPtr.node a ≠ .head := by simp
    rw [next₂, next₁, Function.update_of_ne apart]
  have chained₁ : Chained kv₁.lists.next (addrs items) := by
    apply chained.congr
    · rw [self, Option.isSome_some]
    · exact fun a _ => off a
  have next' : kv₁.lists.next (start (addrs items)) = some p := by
    cases items with
    | nil =>
        obtain rfl : start (addrs ([] : List (Item β))) = p := Option.some.inj (first.symm.trans next)
        exact self
    | cons i rest => exact (off i.addr).trans next
  have live : kv₁.live.Perm (addrs items ++ []) := by
    rw [List.append_nil]
    exact rep.live
  obtain ⟨kv', run, live', zero, root, head⟩ := avlRemoveFrom_spec chained₁ live rep.nodup next' rfl within
  rw [List.append_nil] at live'
  refine ⟨kv', by simp [kvlistFree, first, next, cut₁, cut₂, run, kv₁], live', ?_⟩
  intro small
  have self' : kv₁.lists.prev .head = some .head := by
    rw [prev₂, prev₁, Function.update_self]
  have next : kv'.lists.next .head = some .head := (congrArg (Option.bind · ListHead.next) head).trans self
  have prev : kv'.lists.prev .head = some .head := (congrArg (Option.bind · ListHead.prev) head).trans self'
  rw [rep.count_of_lt small, List.drop_length] at live'
  exact represents_nothing root next prev live'.eq_nil zero

end Walk

end HvmlFpm.Util
