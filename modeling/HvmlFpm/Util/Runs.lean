import Mathlib.Algebra.Order.BigOperators.Group.List
import Mathlib.Data.List.Dedup
import HvmlFpm.Purc
import HvmlFpm.Util.Walk

/-!
# kvlist is an ordered map

What a kvlist does after `kvlist_init` and any calls of `kvlist_set`, `kvlist_delete` and `kvlist_get`, and which calls go
astray.
-/

namespace HvmlFpm.Util
open Library AvlTree

/-- What is set may be stored in the node that the key has so far. -/
inductive Op (β : Type)
  | set (key : CString) (value : β) (stored : Bool)
  | delete (key : CString)
  | get (key : CString)

/-- Where `calloc` puts the next node, after these calls and with these nodes allocated. -/
structure Allocator (β : Type) where
  place : List (Op β) → List Addr → Addr
  fresh : ∀ past live, place past live ∉ live

section Definitions
variable {β : Type}

def Allocator.above : Allocator β where
  place := fun _ live => live.sum + 1
  fresh := fun _ _ member => Nat.not_succ_le_self _ (List.single_le_sum (fun a _ => Nat.zero_le a) _ member)

def Op.apply (kv : Kv β) (node : Addr) : Op β → Option (Kv β)
  | set key value stored => (kvlistSetEx kv (some node) key value stored).map Prod.fst
  | delete key => (kvlistDelete kv key).map Prod.fst
  | get key => (kvlistGet kv key).map fun _ => kv

def runFrom (allocator : Allocator β) (past : List (Op β)) (kv : Kv β) : List (Op β) → Option (Kv β)
  | [] => some kv
  | op :: ops => do
      let kv ← op.apply kv (allocator.place past kv.live)
      runFrom allocator (past ++ [op]) kv ops

def run (allocator : Allocator β) (ops : List (Op β)) : Option (Kv β) := runFrom allocator [] kvlistInit ops

def Op.writes (key : CString) : Op β → Bool
  | set k _ _ => k = key
  | delete k => k = key
  | get _ => false

def Op.value : Op β → Option β
  | set _ value _ => some value
  | delete _ => none
  | get _ => none

/-- The value of the last call that sets the key, unless the key is deleted after it. -/
def lastSet (ops : List (Op β)) (key : CString) : Option β := (ops.reverse.find? (Op.writes key)).bind Op.value

def Op.update (map : CString → Option β) : Op β → CString → Option β
  | set key value _ => Function.update map key (some value)
  | delete key => Function.update map key none
  | get _ => map

def Op.key : Op β → CString
  | set key _ _ => key
  | delete key => key
  | get key => key

def presentKeys (ops : List (Op β)) : List CString :=
  (ops.map Op.key).dedup.filter fun key => (lastSet ops key).isSome

def Op.Allocates : Op β → Prop
  | set key _ _ => 0 ≤ allocLen key
  | delete _ => True
  | get _ => True

instance (op : Op β) : Decidable op.Allocates :=
  match op with
  | .set key _ _ => inferInstanceAs (Decidable (0 ≤ allocLen key))
  | .delete _ => isTrue trivial
  | .get _ => isTrue trivial

/-- The key fits into its block, and neither it nor the value is in a node that goes. -/
def Op.Sound (map : CString → Option β) : Op β → Prop
  | set key _ stored => key.length < 2 ^ 31 - 80 ∧ (stored = true → map key = none)
  | delete _ => True
  | get _ => True

def SoundFrom (map : CString → Option β) : List (Op β) → Prop
  | [] => True
  | op :: ops => op.Sound map ∧ SoundFrom (op.update map) ops

def SoundRun (ops : List (Op β)) : Prop := SoundFrom (fun _ => none) ops

end Definitions

section Map
variable {β : Type} {items before after : List (Item β)} {map : CString → Option β} {name : CString} {data : β}

theorem foldl_update (ops : List (Op β)) (key : CString) : ops.foldl Op.update (fun _ => none) key = lastSet ops key := by
  induction ops using List.reverseRecOn with
  | nil => rfl
  | append_singleton ops op ih =>
      rw [List.foldl_append, List.foldl_cons, List.foldl_nil, lastSet, List.reverse_append, List.reverse_singleton,
        List.singleton_append, List.find?_cons]
      cases op with
      | set k value _ =>
          by_cases same : key = k
          · simp [Op.update, Op.writes, Op.value, same]
          · simp [Op.update, Op.writes, Ne.symm same, same, ih, lastSet]
      | delete k =>
          by_cases same : key = k
          · simp [Op.update, Op.writes, Op.value, same]
          · simp [Op.update, Op.writes, Ne.symm same, same, ih, lastSet]
      | get k => simpa [Op.update, Op.writes, lastSet] using ih

theorem Holds.delete (holds : Holds items map) (name : CString) :
    Holds (items.filter fun i => i.key ≠ name) (Function.update map name none) := by
  intro key data
  by_cases same : key = name
  · subst same
    rw [Function.update_self]
    constructor
    · intro impossible
      cases impossible
    · rintro ⟨i, member, equal, -⟩
      exact absurd equal (of_decide_eq_true (List.mem_filter.1 member).2)
  · rw [Function.update_of_ne same, holds key data]
    constructor
    · rintro ⟨i, member, rfl, rfl⟩
      exact ⟨i, List.mem_filter.2 ⟨member, decide_eq_true same⟩, rfl, rfl⟩
    · rintro ⟨i, member, rfl, rfl⟩
      exact ⟨i, (List.mem_filter.1 member).1, rfl, rfl⟩

theorem Holds.set {a : Addr} (holds : Holds items map) (split : items.filter (fun i => i.key ≠ name) = before ++ after) :
    Holds (before ++ ⟨a, name, data⟩ :: after) (Function.update map name (some data)) := by
  have rest := holds.delete name
  rw [split] at rest
  intro key value
  have other : (∃ i ∈ before ++ ⟨a, name, data⟩ :: after, i.key = key ∧ i.data = value) ↔
      (name = key ∧ data = value) ∨ ∃ i ∈ before ++ after, i.key = key ∧ i.data = value := by
    simp only [List.mem_append, List.mem_cons]
    constructor
    · rintro ⟨i, inside | rfl | inside, fits⟩
      · exact .inr ⟨i, .inl inside, fits⟩
      · exact .inl fits
      · exact .inr ⟨i, .inr inside, fits⟩
    · rintro (fits | ⟨i, inside | inside, fits⟩)
      · exact ⟨_, .inr (.inl rfl), fits⟩
      · exact ⟨i, .inl inside, fits⟩
      · exact ⟨i, .inr (.inr inside), fits⟩
  rw [other, ← rest key value]
  by_cases same : key = name
  · subst same
    simp
  · simp [Function.update_of_ne same, Ne.symm same]

end Map

section Runs
variable {β : Type} {kv : Kv β} {items : List (Item β)} {tree : AvlTree Addr} {map : CString → Option β}

theorem represents_init : Represents (kvlistInit : Kv β) [] [] nil := represents_nothing rfl rfl rfl rfl rfl

theorem Holds.eq_none_iff (holds : Holds items map) (key : CString) : map key = none ↔ ∀ i ∈ items, i.key ≠ key := by
  rw [Option.eq_none_iff_forall_not_mem]
  constructor
  · rintro none i member rfl
    exact none i.data ((holds i.key i.data).2 ⟨i, member, rfl, rfl⟩)
  · intro absent data found
    obtain ⟨i, member, same, -⟩ := (holds key data).1 found
    exact absent i member same

theorem Op.apply_spec (op : Op β) {node : Addr} (rep : Represents kv [] items tree) (holds : Holds items map)
    (fresh : node ∉ kv.live) (sound : op.Sound map) :
    ∃ kv' items' tree', op.apply kv node = some kv' ∧ Represents kv' [] items' tree' ∧ Holds items' (op.update map) := by
  cases op with
  | set key value stored =>
      obtain ⟨fits, kept⟩ := sound
      rw [holds.eq_none_iff] at kept
      obtain ⟨kv', before, after, tree', done, split, rep'⟩ := kvlistSetEx_spec rep fresh key value fits kept
      exact ⟨kv', _, tree', by simp [Op.apply, done], rep', holds.set split⟩
  | delete key =>
      obtain ⟨kv', tree', done, rep'⟩ := kvlistDelete_spec rep key
      exact ⟨kv', _, tree', by simp [Op.apply, done], rep', holds.delete key⟩
  | get key => exact ⟨kv, items, tree, by simp [Op.apply, kvlistGet_spec rep holds key], rep, holds⟩

theorem Op.apply_none (op : Op β) {node : Addr} (rep : Represents kv [] items tree) (holds : Holds items map)
    (fresh : node ∉ kv.live) (allocates : op.Allocates) (unsound : ¬ op.Sound map) : op.apply kv node = none := by
  cases op with
  | set key value stored =>
      rw [Op.Sound, holds.eq_none_iff] at unsound
      simp [Op.apply, kvlistSetEx_none rep fresh key value allocates unsound]
  | delete key => exact absurd trivial unsound
  | get key => exact absurd trivial unsound

theorem runFrom_spec (allocator : Allocator β) (past ops : List (Op β)) (rep : Represents kv [] items tree)
    (holds : Holds items map) (sound : SoundFrom map ops) :
    ∃ kv' items' tree', runFrom allocator past kv ops = some kv' ∧ Represents kv' [] items' tree' ∧
      Holds items' (ops.foldl Op.update map) := by
  induction ops generalizing past kv items tree map with
  | nil => exact ⟨kv, items, tree, rfl, rep, holds⟩
  | cons op ops ih =>
      obtain ⟨kv₁, items₁, tree₁, done, rep₁, holds₁⟩ := op.apply_spec rep holds (allocator.fresh past kv.live) sound.1
      obtain ⟨kv', items', tree', rest, rep', holds'⟩ := ih (past ++ [op]) rep₁ holds₁ sound.2
      exact ⟨kv', items', tree', by simp [runFrom, done, rest], rep', holds'⟩

theorem runFrom_none (allocator : Allocator β) (past ops : List (Op β)) (rep : Represents kv [] items tree)
    (holds : Holds items map) (allocates : ∀ op ∈ ops, op.Allocates) (unsound : ¬ SoundFrom map ops) :
    runFrom allocator past kv ops = none := by
  induction ops generalizing past kv items tree map with
  | nil => exact absurd trivial unsound
  | cons op ops ih =>
      have fresh := allocator.fresh past kv.live
      obtain ⟨first, others⟩ := List.forall_mem_cons.1 allocates
      by_cases sound : op.Sound map
      · obtain ⟨kv₁, items₁, tree₁, done, rep₁, holds₁⟩ := op.apply_spec rep holds fresh sound
        have later : ¬ SoundFrom (op.update map) ops := fun all => unsound ⟨sound, all⟩
        simp [runFrom, done, ih (past ++ [op]) rep₁ holds₁ others later]
      · simp [runFrom, op.apply_none rep holds fresh first sound]

theorem holds_init : Holds ([] : List (Item β)) fun _ => none := by
  simp [Holds]

theorem run_spec (allocator : Allocator β) (ops : List (Op β)) (sound : SoundRun ops) :
    ∃ kv items tree, run allocator ops = some kv ∧ Represents kv [] items tree ∧ Holds items (lastSet ops) := by
  obtain ⟨kv, items, tree, done, rep, holds⟩ := runFrom_spec allocator [] ops represents_init holds_init sound
  rw [funext (foldl_update ops)] at holds
  exact ⟨kv, items, tree, done, rep, holds⟩

theorem Holds.mem_pairs (holds : Holds items map) (key : CString) (data : β) :
    (key, data) ∈ items.map (fun i => (i.key, i.data)) ↔ map key = some data := by
  rw [holds key data, List.mem_map]
  simp only [Prod.mk.injEq]

theorem pairs_ascending (rep : Represents kv [] items tree) :
    (items.map fun i => (i.key, i.data)).Pairwise fun p q => strcmp p.1 q.1 = .lt :=
  List.pairwise_map.2 rep.ascending

theorem keys_inorder (rep : Represents kv [] items tree) :
    tree.inorder.map kv.key = (items.map fun i => (i.key, i.data)).map fun p => some p.1 := by
  rw [rep.order, addrs, List.map_map, List.map_map]
  exact List.map_congr_left fun i member => rep.key member

theorem Holds.length (holds : Holds items map) (rep : Represents kv [] items tree) {keys : List CString}
    (distinct : keys.Nodup) (present : ∀ key, key ∈ keys ↔ (map key).isSome = true) : items.length = keys.length := by
  have nodup : (items.map Item.key).Nodup := by
    apply List.pairwise_map.2
    apply rep.ascending.imp
    intro i j lt same
    rw [same] at lt
    exact strcmp_irrefl lt
  have same : ∀ key, key ∈ items.map Item.key ↔ key ∈ keys := by
    intro key
    rw [present key, ← Option.ne_none_iff_isSome, ne_eq, holds.eq_none_iff, List.mem_map]
    simp
  rw [← ((List.perm_ext_iff_of_nodup nodup distinct).2 same).length_eq, List.length_map]

theorem mem_presentKeys (ops : List (Op β)) (key : CString) : key ∈ presentKeys ops ↔ (lastSet ops key).isSome = true := by
  rw [presentKeys, List.mem_filter, List.mem_dedup]
  refine and_iff_right_of_imp ?_
  intro present
  obtain ⟨op, found, -⟩ := Option.bind_eq_some_iff.1 (Option.eq_some_of_isSome present)
  have writes := List.find?_some found
  have member := List.mem_reverse.1 (List.mem_of_find?_eq_some found)
  refine List.mem_map.2 ⟨op, member, ?_⟩
  cases op with
  | set k value stored => exact of_decide_eq_true writes
  | delete k => exact of_decide_eq_true writes
  | get k => cases writes

theorem length_presentKeys {ops : List (Op β)} (rep : Represents kv [] items tree) (holds : Holds items (lastSet ops)) :
    items.length = (presentKeys ops).length :=
  holds.length rep ((List.nodup_dedup _).filter _) (mem_presentKeys ops)

/-- An ordered map over an AVL tree of all its nodes; the walk visits these pairs. -/
structure IsOrderedMap (kv : Kv β) (map : CString → Option β) (visited : List (CString × β)) (tree : AvlTree Addr) :
    Prop where
  get : ∀ key, kvlistGet kv key = some (map key)
  walk : kvlistForEachSafe kv = some visited
  ascending : visited.Pairwise fun p q => strcmp p.1 q.1 = .lt
  present : ∀ key value, (key, value) ∈ visited ↔ map key = some value
  count : kv.count = visited.length
  place : At kv.shape [] tree
  balanced : tree.Balanced
  nodes : tree.inorder.map kv.key = visited.map fun p => some p.1
  free : ∃ kv', kvlistFree kv = some (kv', tree.inorder) ∧ tree.inorder.Nodup ∧ kv.live.Perm tree.inorder ∧ kv'.live = []

/-- Behind the calls, none of which has gone astray. -/
def OrderedMap (allocator : Allocator β) (ops : List (Op β)) : Prop :=
  ∃ kv visited tree, run allocator ops = some kv ∧ IsOrderedMap kv (lastSet ops) visited tree

theorem isOrderedMap (rep : Represents kv [] items tree) (holds : Holds items map) (small : items.length < 2 ^ 32) :
    IsOrderedMap kv map (items.map fun i => (i.key, i.data)) tree := by
  have all := rep.count_of_lt small
  have order := rep.order
  obtain ⟨kv', freed, live, -⟩ := kvlistFree_spec rep
  rw [all, List.take_length, ← order] at freed
  rw [all, List.drop_length] at live
  constructor
  case get => exact kvlistGet_spec rep holds
  case walk => exact kvlistForEachSafe_spec rep
  case ascending => exact pairs_ascending rep
  case present => exact holds.mem_pairs
  case count => rw [all, length_addrs, List.length_map]
  case place => exact rep.place
  case balanced => exact rep.balanced
  case nodes => exact keys_inorder rep
  case free => exact ⟨kv', freed, order ▸ rep.nodup, order ▸ rep.live, live.eq_nil⟩

theorem orderedMap_iff (allocator : Allocator β) (ops : List (Op β)) (allocates : ∀ op ∈ ops, op.Allocates) :
    OrderedMap allocator ops ↔ SoundRun ops ∧ (presentKeys ops).length < 2 ^ 32 := by
  constructor
  · rintro ⟨kv, visited, tree, done, is⟩
    have sound : SoundRun ops := by
      by_contra unsound
      have astray := runFrom_none allocator [] ops represents_init holds_init allocates unsound
      exact absurd (done.symm.trans astray) (by simp)
    obtain ⟨kv', items, tree', done', rep, holds⟩ := run_spec allocator ops sound
    obtain rfl := Option.some.inj (done.symm.trans done')
    obtain rfl := Option.some.inj (is.walk.symm.trans (kvlistForEachSafe_spec rep))
    -- The count is that of the nodes modulo 2^32.
    have counted := is.count
    rw [rep.count, List.length_map] at counted
    refine ⟨sound, ?_⟩
    rw [← length_presentKeys rep holds, ← counted]
    exact Nat.mod_lt _ (Nat.two_pow_pos 32)
  · rintro ⟨sound, few⟩
    obtain ⟨kv, items, tree, done, rep, holds⟩ := run_spec allocator ops sound
    rw [← length_presentKeys rep holds] at few
    exact ⟨kv, _, tree, done, isOrderedMap rep holds few⟩

theorem soundFrom_sets {pairs : List (CString × β)} (fit : ∀ p ∈ pairs, p.1.length < 2 ^ 31 - 80)
    (map : CString → Option β) : SoundFrom map (pairs.map fun p => .set p.1 p.2 false) := by
  induction pairs generalizing map with
  | nil => trivial
  | cons p pairs ih =>
      obtain ⟨first, others⟩ := List.forall_mem_cons.1 fit
      exact ⟨⟨first, by simp⟩, ih others _⟩

theorem run_kvlistSet (allocator : Allocator CString) (pairs : List (CString × CString))
    (fit : ∀ p ∈ pairs, p.1.length < 2 ^ 31 - 80) :
    ∃ kv, run allocator (pairs.map fun p => .set p.1 p.2 false) = some kv ∧
      ∀ key, kvlistGet kv key =
        some (HvmlFpm.kvlistGet (pairs.foldl (fun map p => kvlistSet map p.1 p.2) Kvlist.init) key) := by
  have sound : SoundRun (pairs.map fun p => Op.set p.1 p.2 false) := soundFrom_sets fit _
  obtain ⟨kv, items, tree, done, rep, holds⟩ := run_spec allocator _ sound
  refine ⟨kv, done, ?_⟩
  intro key
  rw [kvlistGet_spec rep holds, ← foldl_update, List.foldl_map]
  rfl

def headerCalls : List (Op Nat) :=
  [.set (CString.lit "type") 1 false, .set (CString.lit "name") 2 false, .set (CString.lit "type") 3 false,
    .delete (CString.lit "name")]

theorem headerCalls_sound : SoundRun headerCalls := by
  refine ⟨⟨?_, by simp⟩, ⟨?_, by simp⟩, ⟨?_, by simp⟩, trivial, trivial⟩ <;> decide

theorem headerCalls_orderedMap : OrderedMap Allocator.above headerCalls :=
  (orderedMap_iff Allocator.above headerCalls (by decide +kernel)).2 ⟨headerCalls_sound, by decide +kernel⟩

def longKey : CString where
  bytes := List.replicate (2 ^ 32 - 1) 97
  nulFree := by
    intro member
    cases (List.mem_replicate.1 member).2

def numbered (n : Nat) : CString where
  bytes := (List.range 32).map fun i => if n.testBit i then 98 else 97
  nulFree := by
    intro member
    obtain ⟨i, -, zero⟩ := List.mem_map.1 member
    split at zero <;> cases zero

def setAll (keys : List CString) : List (Op Unit) := (keys.map fun key => (key, ())).map fun p => .set p.1 p.2 false

theorem numbered_injective {m n : Nat} (mSmall : m < 2 ^ 32) (nSmall : n < 2 ^ 32) (same : numbered m = numbered n) :
    m = n := by
  apply Nat.eq_of_testBit_eq
  intro i
  by_cases low : i < 32
  · have bytes : (List.range 32).map (fun i => if m.testBit i then (98 : UInt8) else 97) =
        (List.range 32).map fun i => if n.testBit i then 98 else 97 := congrArg CString.bytes same
    have byte := List.map_inj_left.1 bytes i (List.mem_range.2 low)
    cases one : m.testBit i <;> cases other : n.testBit i <;> simp [one, other] at byte ⊢
  · have high : 2 ^ 32 ≤ 2 ^ i := Nat.pow_le_pow_right (by decide) (Nat.le_of_not_lt low)
    rw [Nat.testBit_lt_two_pow (Nat.lt_of_lt_of_le mSmall high), Nat.testBit_lt_two_pow (Nat.lt_of_lt_of_le nSmall high)]

theorem lastSet_setAll (keys : List CString) (key : CString) : (lastSet (setAll keys) key).isSome = true ↔ key ∈ keys := by
  induction keys using List.reverseRecOn with
  | nil => simp [lastSet, setAll]
  | append_singleton keys k ih =>
      rw [← foldl_update] at ih ⊢
      rw [setAll, List.map_append, List.map_append, List.foldl_append]
      simp only [List.map_cons, List.map_nil, List.foldl_cons, List.foldl_nil, Op.update, List.mem_append,
        List.mem_singleton]
      by_cases same : key = k
      · simp [same]
      · rw [Function.update_of_ne same, ← setAll, ih]
        simp [same]

theorem run_setAll (allocator : Allocator Unit) {keys : List CString} (distinct : keys.Nodup)
    (fit : ∀ key ∈ keys, key.length < 2 ^ 31 - 80) :
    ∃ kv items tree, run allocator (setAll keys) = some kv ∧ Represents kv [] items tree ∧ items.length = keys.length := by
  have sound : SoundRun (setAll keys) := by
    apply soundFrom_sets
    intro p member
    obtain ⟨key, inside, rfl⟩ := List.mem_map.1 member
    exact fit key inside
  obtain ⟨kv, items, tree, done, rep, holds⟩ := run_spec allocator (setAll keys) sound
  exact ⟨kv, items, tree, done, rep, holds.length rep distinct fun key => (lastSet_setAll keys key).symm⟩

theorem longKey_allocLen : allocLen longKey = 72 := by
  have length : longKey.length = 2 ^ 32 - 1 := List.length_replicate
  rw [allocLen, length]
  rfl

/-- The block for a key of 2^32 - 1 bytes has 72. With 2^32 keys the counter is 0, and `kvlist_free` frees nothing. -/
theorem longKey_not_orderedMap :
    (0 ≤ allocLen longKey ∧ run Allocator.above [.set longKey () false] = none ∧
      ¬ OrderedMap Allocator.above [.set longKey () false]) ∧
    ∃ kv kv', run Allocator.above (setAll ((List.range (2 ^ 32)).map numbered)) = some kv ∧ kv.count = 0 ∧
      kvlistFree kv = some (kv', []) ∧ kv'.live.length = 2 ^ 32 := by
  constructor
  · have allocates : 0 ≤ allocLen longKey := by simp [longKey_allocLen]
    have length : longKey.length = 2 ^ 32 - 1 := List.length_replicate
    have astray : run Allocator.above [.set longKey () false] = none := by
      apply runFrom_none Allocator.above [] _ represents_init holds_init
      · intro op member
        obtain rfl := List.mem_singleton.1 member
        exact allocates
      · rintro ⟨⟨fits, -⟩, -⟩
        omega
    refine ⟨allocates, astray, ?_⟩
    rintro ⟨kv, visited, tree, done, -⟩
    exact absurd (done.symm.trans astray) (by simp)
  · have distinct : ((List.range (2 ^ 32)).map numbered).Nodup := by
      apply List.Nodup.map_on _ List.nodup_range
      intro m mMem n nMem same
      exact numbered_injective (List.mem_range.1 mMem) (List.mem_range.1 nMem) same
    have fit : ∀ key ∈ (List.range (2 ^ 32)).map numbered, key.length < 2 ^ 31 - 80 := by
      intro key member
      obtain ⟨n, -, rfl⟩ := List.mem_map.1 member
      change ((List.range 32).map _).length < _
      simp
    obtain ⟨kv, items, tree, done, rep, length⟩ := run_setAll Allocator.above distinct fit
    rw [List.length_map, List.length_range] at length
    obtain ⟨kv', freed, live, -⟩ := kvlistFree_spec rep
    have zero : kv.count = 0 := by
      rw [rep.count, length, uint, Nat.mod_self]
    rw [zero, List.take_zero] at freed
    rw [zero, List.drop_zero] at live
    exact ⟨kv, kv', done, zero, freed, by rw [live.length_eq, length_addrs, length]⟩

end Runs

end HvmlFpm.Util
