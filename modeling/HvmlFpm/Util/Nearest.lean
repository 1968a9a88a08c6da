import HvmlFpm.Util.Runs

/-!
# The nearest key

`avl_find_lessequal` and `avl_find_greaterequal`. Each goes on through the list of the nodes from where
`avl_find_rec` ends.
-/

namespace HvmlFpm.Util
open Library

def before : Side → Ordering
  | .left => .lt
  | .right => .gt

def Lists.toward (l : Lists) : Side → ListPtr → Option ListPtr
  | .left => l.prev
  | .right => l.next

section Functions
variable {β : Type}

/-- The first loop: toward this side as long as the key is there. NULL is `none` inside. -/
def seek (kv : Kv β) (key : CString) (s : Side) : Nat → Addr → Ordering → Option (Option (Addr × Ordering))
  | 0, _, _ => none
  | fuel + 1, node, diff =>
      if diff = before s then do
        match ← kv.lists.toward s (.node node) with
        | .head => some none
        | .node other =>
            let own ← kv.key other
            seek kv key s fuel other (strcmp key own)
      else some (some (node, diff))

def approach (kv : Kv β) (key : CString) (s : Side) : Nat → Addr → Addr → Ordering → Option Addr
  | 0, _, _, _ => none
  | fuel + 1, node, next, diff =>
      if diff = before s then some node
      else do
        match ← kv.lists.toward s.flip (.node next) with
        | .head => some next
        | .node other =>
            let own ← kv.key other
            approach kv key s fuel next other (strcmp key own)

def avlFindNearest (s : Side) (kv : Kv β) (key : CString) : Option (Option Addr) :=
  match kv.shape.root with
  | none => some none
  | some root => do
      let (node, diff) ← avlFindRec kv key kv.fuel root
      match ← seek kv key s kv.fuel node diff with
      | none => some none
      | some (node, diff) =>
          let node ← approach kv key s kv.fuel node node diff
          some (some node)

def avlFindLessequal (kv : Kv β) (key : CString) : Option (Option Addr) := avlFindNearest .left kv key

def avlFindGreaterequal (kv : Kv β) (key : CString) : Option (Option Addr) := avlFindNearest .right kv key

end Functions

section Map
variable {β : Type}

structure NearestKey (s : Side) (map : CString → Option β) (name key : CString) (value : β) : Prop where
  there : map key = some value
  within : strcmp name key ≠ before s
  nearest : ∀ other, map other ≠ none → strcmp name other ≠ before s → strcmp other key ≠ before s.flip

def NoKey (s : Side) (map : CString → Option β) (name : CString) : Prop :=
  ∀ key, map key ≠ none → strcmp name key = before s

end Map

section Order
variable {s : Side} {t u name : CString}

theorem before_trans {v : CString} (first : strcmp t u = before s) (second : strcmp u v = before s) :
    strcmp t v = before s := by
  cases s with
  | left => exact strcmp_trans first second
  | right => exact strcmp_gt.2 (strcmp_trans (strcmp_gt.1 second) (strcmp_gt.1 first))

theorem before_ne_flip (s : Side) : before s ≠ before s.flip := by
  cases s <;> decide

end Order

/-! ## The list from one side -/

/-- The elements in the order in which a walk toward this side sees them. -/
def seen {α : Type} : Side → List α → List α
  | .left, items => items.reverse
  | .right, items => items

section Seen
variable {β : Type} {kv : Kv β} {pending : List Addr} {items behind ahead : List (Item β)} {tree : AvlTree Addr} {s : Side}
  {name : CString} {i : Item β} {fuel : Nat}

theorem mem_seen : i ∈ seen s items ↔ i ∈ items := by
  cases s with
  | left => exact List.mem_reverse
  | right => exact Iff.rfl

theorem seen_flip : seen s.flip items = (seen s items).reverse := by
  cases s with
  | left => exact (List.reverse_reverse items).symm
  | right => rfl

theorem length_seen : (seen s items).length = items.length := by
  cases s with
  | left => exact List.length_reverse
  | right => rfl

theorem Represents.key_seen (rep : Represents kv pending items tree) (view : seen s items = behind ++ i :: ahead) :
    kv.key i.addr = some i.key := by
  apply rep.key
  rw [← mem_seen (s := s), view]
  exact List.mem_append_right behind List.mem_cons_self

theorem Represents.seen_ascends (rep : Represents kv pending items tree) :
    (seen s items).Pairwise fun i j => strcmp j.key i.key = before s := by
  cases s with
  | left => exact List.pairwise_reverse.2 rep.ascending
  | right => exact rep.ascending.imp strcmp_gt.2

theorem Represents.chained (rep : Represents kv pending items tree) :
    Chained (kv.lists.toward s) (addrs (seen s items)) := by
  have around : Ring (kv.lists.toward s) (kv.lists.toward s.flip) .head ((addrs (seen s items)).map .node) := by
    cases s with
    | left =>
        have ring := rep.ring.reverse
        rwa [addrs, ← List.map_reverse, ← List.map_reverse] at ring
    | right => exact rep.ring
  exact (Ring.chained around).2

theorem Represents.toward (rep : Represents kv pending items tree) (view : seen s items = behind ++ i :: ahead) :
    kv.lists.toward s (.node i.addr) = some (start (addrs ahead)) := by
  have chained := rep.chained (s := s)
  rw [view, addrs_append, addrs_cons] at chained
  exact chained.at

def within (s : Side) (name : CString) (i : Item β) : Bool := strcmp name i.key ≠ before s

theorem within_iff : within s name i ↔ strcmp name i.key ≠ before s := decide_eq_true_iff

theorem Represents.find_behind (rep : Represents kv pending items tree) (view : seen s items = behind ++ i :: ahead)
    (beyond : ¬within s name i) : behind.find? (within s name) = none := by
  rw [List.find?_eq_none]
  intro j member
  have ascends := rep.seen_ascends (s := s)
  rw [view] at ascends
  have between := (List.pairwise_append.1 ascends).2.2 j member i List.mem_cons_self
  rw [within_iff, not_not] at beyond ⊢
  exact before_trans beyond between

theorem seek_spec (rep : Represents kv pending items tree) (view : seen s items = behind ++ i :: ahead)
    (enough : ahead.length < fuel) :
    seek kv name s fuel i.addr (strcmp name i.key) =
      some (((i :: ahead).find? (within s name)).map fun j => (j.addr, strcmp name j.key)) := by
  induction ahead generalizing behind i fuel with
  | nil =>
      obtain ⟨fuel, rfl⟩ : ∃ fuel', fuel = fuel' + 1 := ⟨fuel - 1, by omega⟩
      have link := rep.toward view
      by_cases beyond : strcmp name i.key = before s
      · simp [seek, within, beyond, link, start]
      · simp [seek, within, beyond]
  | cons j ahead ih =>
      obtain ⟨fuel, rfl⟩ : ∃ fuel', fuel = fuel' + 1 := ⟨fuel - 1, by omega⟩
      have link := rep.toward view
      by_cases beyond : strcmp name i.key = before s
      · have view' : seen s items = (behind ++ [i]) ++ j :: ahead := by simpa using view
        have own := rep.key_seen view'
        have rest := ih view' (Nat.lt_of_succ_lt_succ enough)
        have out : within s name i = false := by simp [within, beyond]
        rw [List.find?_cons, out, ← rest]
        simp [seek, beyond, link, start, own]
      · simp [seek, within, beyond]

theorem approach_spec (rep : Represents kv pending items tree) (view : seen s items = behind ++ i :: ahead)
    (inside : within s name i) (enough : behind.length + 1 < fuel) (node : Addr) :
    ∃ j, (seen s items).find? (within s name) = some j ∧
      approach kv name s fuel node i.addr (strcmp name i.key) = some j.addr := by
  induction behind using List.reverseRecOn generalizing i ahead fuel node with
  | nil =>
      obtain ⟨fuel, rfl⟩ : ∃ fuel', fuel = fuel' + 1 := ⟨fuel - 1, by omega⟩
      have turned : seen s.flip items = ahead.reverse ++ i :: [] := by simp [seen_flip, view]
      have link := rep.toward turned
      refine ⟨i, by simp [view, inside], ?_⟩
      simp [approach, within_iff.1 inside, link, start]
  | append_singleton behind n ih =>
      obtain ⟨fuel, rfl⟩ : ∃ fuel', fuel = fuel' + 1 := ⟨fuel - 1, by omega⟩
      have turned : seen s.flip items = ahead.reverse ++ i :: (n :: behind.reverse) := by simp [seen_flip, view]
      have link := rep.toward turned
      have view' : seen s items = behind ++ n :: (i :: ahead) := by simpa using view
      have own := rep.key_seen view'
      have step : approach kv name s (fuel + 1) node i.addr (strcmp name i.key) =
          approach kv name s fuel i.addr n.addr (strcmp name n.key) := by
        simp [approach, within_iff.1 inside, link, start, own]
      rw [step]
      simp only [List.length_append, List.length_singleton] at enough
      by_cases near : within s name n
      · exact ih view' near (by omega) i.addr
      · obtain ⟨fuel, rfl⟩ : ∃ fuel', fuel = fuel' + 1 := ⟨fuel - 1, by omega⟩
        have none := rep.find_behind view' near
        refine ⟨i, by simp [view', none, near, inside], ?_⟩
        rw [within_iff, not_not] at near
        simp [approach, near]

theorem avlFindNearest_spec (rep : Represents kv pending items tree) (s : Side) (name : CString) :
    avlFindNearest s kv name = some (((seen s items).find? (within s name)).map Item.addr) := by
  have rooted : kv.shape.root = tree.root := rep.place.above
  cases root : tree.root with
  | none =>
      have empty := rep.empty root
      subst empty
      cases s <;> simp [avlFindNearest, rooted, root, seen]
  | some r =>
      obtain ⟨i, member, run, -⟩ := rep.find root name
      obtain ⟨behind, ahead, view⟩ := List.append_of_mem (mem_seen (s := s).2 member)
      have size : behind.length + ahead.length + 2 < kv.fuel + 1 := by
        have all := congrArg List.length view
        have bound := rep.length_le
        rw [length_seen, List.length_append, List.length_cons] at all
        rw [rep.order, length_addrs] at bound
        rw [Kv.fuel]
        omega
      have first : seek kv name s kv.fuel i.addr (strcmp name i.key) = _ := seek_spec rep view (by omega)
      cases found : (i :: ahead).find? (within s name) with
      | none =>
          have out : ¬within s name i := by
            rw [List.find?_eq_none] at found
            exact found i List.mem_cons_self
          have nowhere : (seen s items).find? (within s name) = none := by
            rw [view, List.find?_append, rep.find_behind view out, found]
            rfl
          simp [avlFindNearest, rooted, root, run, first, found, nowhere]
      | some j =>
          obtain ⟨inside, l, r', split, -⟩ := List.find?_eq_some_iff_append.1 found
          have view' : seen s items = (behind ++ l) ++ j :: r' := by
            rw [view, split, List.append_assoc]
          have fits : (behind ++ l).length + 1 < kv.fuel := by
            have parts := congrArg List.length split
            rw [List.length_append, List.length_cons, List.length_cons] at parts
            rw [List.length_append]
            omega
          obtain ⟨k, nearest, ends⟩ := approach_spec rep view' inside fits j.addr
          simp [avlFindNearest, rooted, root, run, first, found, nearest, ends]

end Seen

section Runs
variable {β : Type} {kv : Kv β} {pending : List Addr} {items : List (Item β)} {tree : AvlTree Addr}
  {map : CString → Option β}

/-- A node has the nearest key with its value, and NULL says that there is none. -/
def AnswersNearest (s : Side) (kv : Kv β) (map : CString → Option β) (name : CString) : Option Addr → Prop
  | some node => ∃ key value, kv.entry node = some ⟨key, true, value⟩ ∧ NearestKey s map name key value
  | none => NoKey s map name

theorem Holds.some_key (holds : Holds items map) {key : CString} (there : map key ≠ none) : ∃ i ∈ items, i.key = key := by
  obtain ⟨value, found⟩ := Option.ne_none_iff_exists'.1 there
  obtain ⟨i, member, same, -⟩ := (holds key value).1 found
  exact ⟨i, member, same⟩

theorem avlFindNearest_answers (rep : Represents kv pending items tree) (holds : Holds items map) (s : Side)
    (name : CString) : ∃ answer, avlFindNearest s kv name = some answer ∧ AnswersNearest s kv map name answer := by
  refine ⟨_, avlFindNearest_spec rep s name, ?_⟩
  cases found : (seen s items).find? (within s name) with
  | none =>
      intro key there
      obtain ⟨i, member, rfl⟩ := holds.some_key there
      have out := List.find?_eq_none.1 found i (mem_seen.2 member)
      rwa [within_iff, not_not] at out
  | some i =>
      obtain ⟨inside, behind, ahead, view, out⟩ := List.find?_eq_some_iff_append.1 found
      have member : i ∈ items := mem_seen.1 (List.mem_of_find?_eq_some found)
      refine ⟨i.key, i.data, rep.entries i member, (holds i.key i.data).2 ⟨i, member, rfl, rfl⟩, within_iff.1 inside, ?_⟩
      intro other there inside'
      obtain ⟨j, member', rfl⟩ := holds.some_key there
      have ascends := rep.seen_ascends (s := s)
      rw [view] at ascends
      have somewhere : j ∈ behind ++ i :: ahead := view ▸ mem_seen.2 member'
      rcases List.mem_append.1 somewhere with early | here
      · have skipped := out j early
        simp [within, inside'] at skipped
      · rcases List.mem_cons.1 here with rfl | late
        · rw [strcmp_eq.2 rfl]
          cases s <;> decide
        · have farther := (List.pairwise_cons.1 (List.pairwise_append.1 ascends).2.1).1 j late
          rw [farther]
          exact before_ne_flip s

/-- After any calls `avl_find_lessequal` finds the last key up to a given one and `avl_find_greaterequal` the first
from it on, each with the value last set. -/
theorem run_nearest (allocator : Allocator β) (ops : List (Op β)) (sound : SoundRun ops) :
    ∃ kv, run allocator ops = some kv ∧ ∀ name,
      (∃ answer, avlFindLessequal kv name = some answer ∧ AnswersNearest .left kv (lastSet ops) name answer) ∧
        ∃ answer, avlFindGreaterequal kv name = some answer ∧ AnswersNearest .right kv (lastSet ops) name answer := by
  obtain ⟨kv, items, tree, done, rep, holds⟩ := run_spec allocator ops sound
  refine ⟨kv, done, fun name => ⟨?_, ?_⟩⟩
  · exact avlFindNearest_answers rep holds .left name
  · exact avlFindNearest_answers rep holds .right name

theorem headerCalls_nearest :
    ∃ kv, run Allocator.above headerCalls = some kv ∧ ∀ name,
      (∃ answer, avlFindLessequal kv name = some answer ∧
        AnswersNearest .left kv (lastSet headerCalls) name answer) ∧
        ∃ answer, avlFindGreaterequal kv name = some answer ∧
          AnswersNearest .right kv (lastSet headerCalls) name answer :=
  run_nearest Allocator.above headerCalls headerCalls_sound

end Runs

end HvmlFpm.Util
