import HvmlFpm.Util.Attach
import HvmlFpm.Util.Find

/-!
# What a kvlist stands for

A kvlist whose stores hold a balanced tree and a ring of the same nodes, with keys that ascend, and what the
functions of `avl.c` and `kvlist.c` do to it.
-/

namespace HvmlFpm.Util
open Library AvlTree

structure Item (β : Type) where
  addr : Addr
  key : CString
  data : β

theorem uint_of_lt {n : Nat} (small : n < 2 ^ 32) : uint n = n := Nat.mod_eq_of_lt small

theorem uint_succ (n : Nat) : uint (uint n + 1) = uint (n + 1) := Nat.mod_add_mod ..

theorem uint_pred (n : Nat) : uint (uint (n + 1) + (2 ^ 32 - 1)) = uint n := by
  have whole : n + 1 + (2 ^ 32 - 1) = n + 2 ^ 32 := by omega
  rw [uint, uint, Nat.mod_add_mod, whole, Nat.add_mod_right, uint]

section Represents
variable {β : Type}

def addrs (items : List (Item β)) : List Addr := items.map Item.addr

structure Kv.Allocated (kv : Kv β) (a : Addr) : Prop where
  links : (kv.shape.node a).isSome = true
  list : (kv.lists (.node a)).isSome = true

/-- Besides the items there may be nodes that are allocated and not in the tree. -/
structure Represents (kv : Kv β) (pending : List Addr) (items : List (Item β)) (tree : AvlTree Addr) : Prop where
  place : At kv.shape [] tree
  balanced : tree.Balanced
  order : tree.inorder = addrs items
  ascending : items.Pairwise fun i j => strcmp i.key j.key = .lt
  ring : Ring kv.lists.next kv.lists.prev .head ((addrs items).map .node)
  entries : ∀ i ∈ items, kv.entry i.addr = some ⟨i.key, true, i.data⟩
  allocated : ∀ a ∈ pending, kv.Allocated a
  live : kv.live.Perm (pending ++ addrs items)
  nodup : (pending ++ addrs items).Nodup
  count : kv.count = uint items.length

def Holds (items : List (Item β)) (map : CString → Option β) : Prop :=
  ∀ name data, map name = some data ↔ ∃ i ∈ items, i.key = name ∧ i.data = data

def Kv.keyOf (kv : Kv β) (a : Addr) : CString := (kv.key a).getD .empty

variable {kv : Kv β} {pending : List Addr} {items before after : List (Item β)} {i : Item β} {tree : AvlTree Addr}
  {name : CString}

@[simp] theorem addrs_nil : addrs ([] : List (Item β)) = [] := rfl

@[simp] theorem length_addrs : (addrs items).length = items.length := List.length_map ..

@[simp] theorem addrs_append : addrs (before ++ after) = addrs before ++ addrs after := List.map_append

@[simp] theorem addrs_cons : addrs (i :: after) = i.addr :: addrs after := rfl

theorem mem_addrs {a : Addr} : a ∈ addrs items ↔ ∃ i ∈ items, i.addr = a := List.mem_map

theorem Kv.key_of_entry {a : Addr} {e : Entry β} (entry : kv.entry a = some e) : kv.key a = some e.key := by
  rw [Kv.key, entry, Option.map_some]

theorem Represents.key (rep : Represents kv pending items tree) (member : i ∈ items) : kv.key i.addr = some i.key :=
  Kv.key_of_entry (rep.entries i member)

theorem Represents.keyOf (rep : Represents kv pending items tree) (member : i ∈ items) : kv.keyOf i.addr = i.key := by
  rw [Kv.keyOf, rep.key member]
  rfl

theorem Represents.keys (rep : Represents kv pending items tree) : ∀ a ∈ tree.inorder, kv.key a = some (kv.keyOf a) := by
  intro a member
  rw [rep.order, mem_addrs] at member
  obtain ⟨i, member, rfl⟩ := member
  rw [rep.key member, rep.keyOf member]

theorem Represents.ascending' (rep : Represents kv pending items tree) : Ascending kv.keyOf tree.inorder := by
  rw [rep.order, Ascending, addrs, List.pairwise_map]
  apply rep.ascending.imp_of_mem
  intro i j iMem jMem lt
  rwa [rep.keyOf iMem, rep.keyOf jMem]

theorem Represents.length_le (rep : Represents kv pending items tree) : tree.inorder.length ≤ kv.live.length := by
  rw [rep.live.length_eq, rep.order, List.length_append]
  exact Nat.le_add_left _ _

theorem Represents.count_of_lt (rep : Represents kv pending items tree) (small : items.length < 2 ^ 32) :
    kv.count = (addrs items).length := by
  rw [rep.count, uint_of_lt small, length_addrs]

theorem represents_nothing (root : kv.shape.root = none) (next : kv.lists.next .head = some .head)
    (prev : kv.lists.prev .head = some .head) (live : kv.live = []) (count : kv.count = 0) :
    Represents kv [] [] nil where
  place := ⟨root, trivial, List.nodup_nil⟩
  balanced := trivial
  order := rfl
  ascending := .nil
  ring := .cons_cons ⟨next, prev⟩ (.singleton _)
  entries := by simp
  allocated := by simp
  live := by simp [live]
  nodup := .nil
  count := count

theorem Represents.height_le (rep : Represents kv pending items tree) : tree.height ≤ kv.fuel := by
  have bound := AvlTree.height_le_length tree
  have bound' := rep.length_le
  rw [Kv.fuel]
  omega

theorem Represents.mem_tree (rep : Represents kv pending items tree) (member : i ∈ items) : i.addr ∈ tree.inorder := by
  rw [rep.order]
  exact mem_addrs.2 ⟨i, member, rfl⟩

structure Kv.SameNode (kv kv' : Kv β) (a : Addr) : Prop where
  links : kv'.shape.node a = kv.shape.node a
  list : kv'.lists (.node a) = kv.lists (.node a)
  entry : kv'.entry a = kv.entry a

structure Kv.SameHead (kv kv' : Kv β) : Prop where
  root : kv'.shape.root = kv.shape.root
  head : kv'.lists .head = kv.lists .head
  count : kv'.count = kv.count

theorem Kv.SameNode.allocated {kv' : Kv β} {a : Addr} (same : kv.SameNode kv' a) (allocated : kv.Allocated a) :
    kv'.Allocated a :=
  ⟨(congrArg Option.isSome same.links).trans allocated.links, (congrArg Option.isSome same.list).trans allocated.list⟩

theorem Represents.congr {kv' : Kv β} {pending' : List Addr} (rep : Represents kv pending items tree)
    (head : kv.SameHead kv') (nodes : ∀ a ∈ addrs items, kv.SameNode kv' a) (allocated : ∀ a ∈ pending', kv'.Allocated a)
    (live : kv'.live.Perm (pending' ++ addrs items)) (nodup : (pending' ++ addrs items).Nodup) :
    Represents kv' pending' items tree := by
  have lists : ∀ p ∈ ListPtr.head :: (addrs items).map .node, kv'.lists p = kv.lists p := by
    intro p member
    rcases List.mem_cons.1 member with rfl | member
    · exact head.head
    · obtain ⟨a, inside, rfl⟩ := List.mem_map.1 member
      exact (nodes a inside).list
  constructor
  case place =>
    refine rep.place.congr head.root ?_
    intro a member
    rw [Path.spine, List.append_nil, rep.order] at member
    exact (nodes a member).links
  case balanced => exact rep.balanced
  case order => exact rep.order
  case ascending => exact rep.ascending
  case ring =>
    apply rep.ring.congr
    · exact fun p member => congrArg (Option.bind · ListHead.next) (lists p member)
    · exact fun p member => congrArg (Option.bind · ListHead.prev) (lists p member)
  case entries => exact fun i member => (nodes i.addr (mem_addrs.2 ⟨i, member, rfl⟩)).entry.trans (rep.entries i member)
  case allocated => exact allocated
  case live => exact live
  case nodup => exact nodup
  case count => exact head.count.trans rep.count

theorem Represents.nodup_ring (rep : Represents kv pending items tree) :
    (ListPtr.head :: (addrs items).map .node).Nodup := by
  rw [List.nodup_cons]
  constructor
  · simp
  · apply List.Nodup.map _ (List.Nodup.of_append_right rep.nodup)
    intro a b same
    exact ListPtr.node.inj same

theorem Represents.pending_outside {a : Addr} (rep : Represents kv pending items tree) (member : a ∈ pending) :
    a ∉ addrs items :=
  List.disjoint_of_nodup_append rep.nodup member

theorem Represents.empty (rep : Represents kv pending items tree) (root : tree.root = none) : items = [] := by
  cases tree with
  | nil => exact List.map_eq_nil_iff.1 rep.order.symm
  | node a b child => cases root

theorem Represents.find (rep : Represents kv pending items tree) {r : Addr} (root : tree.root = some r) (name : CString) :
    ∃ i ∈ items, avlFindRec kv name kv.fuel r = some (i.addr, strcmp name i.key) ∧ Reaches kv.keyOf name tree i.addr := by
  obtain ⟨x, run, reaches⟩ : ∃ x, avlFindRec kv name kv.fuel r = some (x, strcmp name (kv.keyOf x)) ∧
      Reaches kv.keyOf name tree x :=
    avlFindRec_spec root rep.place.sub rep.keys rep.ascending' rep.height_le
  have member : x ∈ tree.inorder := by
    obtain ⟨path, b, child, rfl, -⟩ := reaches
    rw [Path.inorder_plug]
    simp [inorder]
  rw [rep.order, mem_addrs] at member
  obtain ⟨i, member, rfl⟩ := member
  rw [rep.keyOf member] at run
  exact ⟨i, member, run, reaches⟩

theorem avlFind_spec (rep : Represents kv pending items tree) (name : CString) :
    (∃ i ∈ items, i.key = name ∧ avlFind kv name = some (some i.addr)) ∨
      ((∀ i ∈ items, i.key ≠ name) ∧ avlFind kv name = some none) := by
  have rooted : kv.shape.root = tree.root := rep.place.above
  cases root : tree.root with
  | none =>
      right
      have empty := rep.empty root
      subst empty
      exact ⟨by simp, by simp [avlFind, rooted, root]⟩
  | some r =>
      obtain ⟨i, member, run, reaches⟩ := rep.find root name
      by_cases same : strcmp name i.key = .eq
      · left
        exact ⟨i, member, (strcmp_eq.1 same).symm, by simp [avlFind, rooted, root, run, same]⟩
      · right
        refine ⟨?_, by simp [avlFind, rooted, root, run, same]⟩
        intro j jMember jKey
        have at_j := reaches.eq_of_mem rep.ascending' (rep.mem_tree jMember) ((rep.keyOf jMember).trans jKey)
        rw [← rep.keyOf member, at_j, rep.keyOf jMember, jKey] at same
        exact same (strcmp_eq.2 rfl)

theorem Holds.none_of_absent {map : CString → Option β} (holds : Holds items map) (absent : ∀ i ∈ items, i.key ≠ name) :
    map name = none := by
  cases found : map name with
  | none => rfl
  | some data =>
      obtain ⟨i, member, same, -⟩ := (holds name data).1 found
      exact absurd same (absent i member)

theorem kvlistGet_spec {map : CString → Option β} (rep : Represents kv pending items tree) (holds : Holds items map)
    (name : CString) : kvlistGet kv name = some (map name) := by
  rcases avlFind_spec rep name with ⟨i, member, same, run⟩ | ⟨absent, run⟩
  · have value : map name = some i.data := (holds name i.data).2 ⟨i, member, same, rfl⟩
    simp [kvlistGet, run, rep.entries i member, value]
  · simp [kvlistGet, run, holds.none_of_absent absent]

end Represents

end HvmlFpm.Util
