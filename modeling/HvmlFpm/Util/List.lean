import HvmlFpm.Library.Ring
import HvmlFpm.Util.Avl

/-!
# The list of `list.h`

The functions of `list.h` that a tree uses for the list of its nodes. A `struct list_head` is in the tree or in
a node.
-/

namespace HvmlFpm.Util
open Library

inductive ListPtr
  | head
  | node (a : Addr)
deriving DecidableEq

structure ListHead where
  next : Option ListPtr
  prev : Option ListPtr

abbrev Lists := ListPtr → Option ListHead

namespace Lists

def next (l : Lists) (p : ListPtr) : Option ListPtr := (l p).bind ListHead.next

def prev (l : Lists) (p : ListPtr) : Option ListPtr := (l p).bind ListHead.prev

def setNext (l : Lists) (p : ListPtr) (q : Option ListPtr) : Option Lists :=
  (l p).map fun h => Function.update l p (some { h with next := q })

def setPrev (l : Lists) (p : ListPtr) (q : Option ListPtr) : Option Lists :=
  (l p).map fun h => Function.update l p (some { h with prev := q })

end Lists

def listAddBetween (l : Lists) (new prev next : ListPtr) : Option Lists := do
  let l ← l.setPrev next new
  let l ← l.setNext new next
  let l ← l.setPrev new prev
  l.setNext prev new

def listAdd (l : Lists) (new place : ListPtr) : Option Lists := do
  let next ← l.next place
  listAddBetween l new place next

def listAddTail (l : Lists) (new place : ListPtr) : Option Lists := do
  let prev ← l.prev place
  listAddBetween l new prev place

def listDel (l : Lists) (entry : ListPtr) : Option Lists := do
  let next ← l.next entry
  let l ← l.setPrev next (l.prev entry)
  let prev ← l.prev entry
  let l ← l.setNext prev (l.next entry)
  let l ← l.setPrev entry none
  l.setNext entry none

structure Relinked (l : Lists) (next prev : ListPtr → Option ListPtr) (l' : Lists) : Prop where
  next : l'.next = next
  prev : l'.prev = prev
  alive : ∀ p, (l' p).isSome = (l p).isSome

section Steps
variable {l : Lists} {p q : ListPtr}

theorem isSome_update (alive : (l p).isSome = true) (h : ListHead) (q : ListPtr) :
    (Function.update l p (some h) q).isSome = (l q).isSome := by
  by_cases same : q = p
  · subst same
    rw [Function.update_self, alive, Option.isSome_some]
  · rw [Function.update_of_ne same]

theorem setNext_spec (alive : (l p).isSome = true) (target : Option ListPtr) :
    ∃ l', l.setNext p target = some l' ∧ Relinked l (Function.update l.next p target) l.prev l' := by
  obtain ⟨h, found⟩ := Option.isSome_iff_exists.1 alive
  refine ⟨_, by rw [Lists.setNext, found, Option.map_some], ?_, ?_, isSome_update alive _⟩
  · funext q
    by_cases same : q = p
    · subst same
      simp [Lists.next]
    · simp [Lists.next, Function.update_of_ne same]
  · funext q
    by_cases same : q = p
    · subst same
      simp [Lists.prev, found]
    · simp [Lists.prev, Function.update_of_ne same]

theorem setPrev_spec (alive : (l p).isSome = true) (target : Option ListPtr) :
    ∃ l', l.setPrev p target = some l' ∧ Relinked l l.next (Function.update l.prev p target) l' := by
  obtain ⟨h, found⟩ := Option.isSome_iff_exists.1 alive
  refine ⟨_, by rw [Lists.setPrev, found, Option.map_some], ?_, ?_, isSome_update alive _⟩
  · funext q
    by_cases same : q = p
    · subst same
      simp [Lists.next, found]
    · simp [Lists.next, Function.update_of_ne same]
  · funext q
    by_cases same : q = p
    · subst same
      simp [Lists.prev]
    · simp [Lists.prev, Function.update_of_ne same]

theorem alive_of_next (linked : l.next p = some q) : (l p).isSome = true := by
  rw [Lists.next] at linked
  cases found : l p with
  | none => simp [found] at linked
  | some h => rfl

theorem alive_of_prev (linked : l.prev p = some q) : (l p).isSome = true := by
  rw [Lists.prev] at linked
  cases found : l p with
  | none => simp [found] at linked
  | some h => rfl

end Steps

section Ring
variable {l : Lists} {new x p q top : ListPtr} {ys zs A B : List ListPtr}

theorem listAddBetween_spec (aliveNew : (l new).isSome = true) (aliveP : (l p).isSome = true)
    (aliveQ : (l q).isSome = true) :
    ∃ l', listAddBetween l new p q = some l' ∧
      Relinked l (Function.update (Function.update l.next new (some q)) p (some new))
        (Function.update (Function.update l.prev q (some new)) new (some p)) l' := by
  obtain ⟨l₁, run₁, next₁, prev₁, alive₁⟩ := setPrev_spec aliveQ (some new)
  obtain ⟨l₂, run₂, next₂, prev₂, alive₂⟩ := setNext_spec ((alive₁ new).trans aliveNew) (some q)
  obtain ⟨l₃, run₃, next₃, prev₃, alive₃⟩ := setPrev_spec ((alive₂ new).trans ((alive₁ new).trans aliveNew)) (some p)
  obtain ⟨l₄, run₄, next₄, prev₄, alive₄⟩ :=
    setNext_spec ((alive₃ p).trans ((alive₂ p).trans ((alive₁ p).trans aliveP))) (some new)
  refine ⟨l₄, by simp [listAddBetween, run₁, run₂, run₃, run₄], ?_, ?_, ?_⟩
  · rw [next₄, next₃, next₂, next₁]
  · rw [prev₄, prev₃, prev₂, prev₁]
  · intro r
    rw [alive₄, alive₃, alive₂, alive₁]

theorem listAddBetween_ring (ring : Ring l.next l.prev top (ys ++ zs)) (nodup : (top :: (ys ++ zs)).Nodup)
    (fresh : new ∉ top :: (ys ++ zs)) (aliveNew : (l new).isSome = true) (front : top :: ys = A ++ [p])
    (back : zs ++ [top] = q :: B) :
    ∃ l', listAddBetween l new p q = some l' ∧ Ring l'.next l'.prev top (ys ++ new :: zs) := by
  have inRing : ∀ r, r ∈ A ++ [p] ∨ r ∈ q :: B → r ≠ new := by
    rintro r member rfl
    apply fresh
    rw [← front, ← back] at member
    simp only [List.mem_cons, List.mem_append, List.not_mem_nil] at member ⊢
    tauto
  have pn : p ≠ new := inRing p (.inl (by simp))
  have qn : q ≠ new := inRing q (.inr (by simp))
  have link := ring.link front back
  obtain ⟨l', run, next, prev, -⟩ := listAddBetween_spec aliveNew (alive_of_next link.1) (alive_of_prev link.2)
  refine ⟨l', run, ring.insert nodup fresh front back ?_ ?_ ?_ ?_⟩
  · constructor
    · rw [next, Function.update_self]
    · rw [prev, Function.update_self]
  · constructor
    · rw [next, Function.update_of_ne (Ne.symm pn), Function.update_self]
    · rw [prev, Function.update_of_ne qn, Function.update_self]
  · intro y yp yn
    rw [next, Function.update_of_ne yp, Function.update_of_ne yn]
  · intro y yq yn
    rw [prev, Function.update_of_ne yn, Function.update_of_ne yq]

theorem listAdd_ring (ring : Ring l.next l.prev top (ys ++ zs)) (nodup : (top :: (ys ++ zs)).Nodup)
    (fresh : new ∉ top :: (ys ++ zs)) (aliveNew : (l new).isSome = true) (front : top :: ys = A ++ [p]) :
    ∃ l', listAdd l new p = some l' ∧ Ring l'.next l'.prev top (ys ++ new :: zs) := by
  obtain ⟨q, B, back⟩ : ∃ q B, zs ++ [top] = q :: B := by
    cases zs with
    | nil => exact ⟨top, [], rfl⟩
    | cons z zs => exact ⟨z, zs ++ [top], rfl⟩
  obtain ⟨l', run, ring'⟩ := listAddBetween_ring ring nodup fresh aliveNew front back
  exact ⟨l', by simp [listAdd, (ring.link front back).1, run], ring'⟩

theorem listAddTail_ring (ring : Ring l.next l.prev top (ys ++ zs)) (nodup : (top :: (ys ++ zs)).Nodup)
    (fresh : new ∉ top :: (ys ++ zs)) (aliveNew : (l new).isSome = true) (back : zs ++ [top] = q :: B) :
    ∃ l', listAddTail l new q = some l' ∧ Ring l'.next l'.prev top (ys ++ new :: zs) := by
  obtain ⟨A, p, _, _, front, -⟩ := exists_neighbours top ys zs
  obtain ⟨l', run, ring'⟩ := listAddBetween_ring ring nodup fresh aliveNew front back
  exact ⟨l', by simp [listAddTail, (ring.link front back).2, run], ring'⟩

theorem listDel_ring (ring : Ring l.next l.prev top (ys ++ x :: zs)) (nodup : (top :: (ys ++ x :: zs)).Nodup) :
    ∃ l', listDel l x = some l' ∧ Ring l'.next l'.prev top (ys ++ zs) ∧ ∀ r, (l' r).isSome = (l r).isSome := by
  obtain ⟨A, p, q, B, front, back⟩ := exists_neighbours top ys zs
  have apart : ∀ r, r ∈ A ++ [p] ∨ r ∈ q :: B → r ≠ x := by
    rintro r member rfl
    rw [← front, ← back] at member
    simp only [List.nodup_cons, List.mem_append, List.mem_cons, List.nodup_append', List.not_mem_nil] at nodup member
    have distinct := nodup.2.2.2
    rcases member with (rfl | member) | member | rfl | member
    · simp at nodup
    · exact distinct member List.mem_cons_self
    · exact nodup.2.2.1.1 member
    · simp at nodup
    · exact member
  have px : p ≠ x := apart p (.inl (by simp))
  have qx : q ≠ x := apart q (.inr (by simp))
  obtain ⟨before, after⟩ := ring.links front back
  have aliveX := alive_of_next after.1
  obtain ⟨l₁, run₁, next₁, prev₁, alive₁⟩ := setPrev_spec (alive_of_prev after.2) (some p)
  obtain ⟨l₂, run₂, next₂, prev₂, alive₂⟩ := setNext_spec ((alive₁ p).trans (alive_of_next before.1)) (some q)
  obtain ⟨l₃, run₃, next₃, prev₃, alive₃⟩ := setPrev_spec ((alive₂ x).trans ((alive₁ x).trans aliveX)) none
  obtain ⟨l₄, run₄, next₄, prev₄, alive₄⟩ :=
    setNext_spec ((alive₃ x).trans ((alive₂ x).trans ((alive₁ x).trans aliveX))) none
  have next : l₄.next = Function.update (Function.update l.next p (some q)) x none := by
    rw [next₄, next₃, next₂, next₁]
  have prev : l₄.prev = Function.update (Function.update l.prev q (some p)) x none := by
    rw [prev₄, prev₃, prev₂, prev₁]
  have prevX : l₁.prev x = some p := by
    rw [prev₁, Function.update_of_ne (Ne.symm qx), before.2]
  have nextX : l₁.next x = some q := by
    rw [next₁, after.1]
  refine ⟨l₄, by simp [listDel, after.1, before.2, run₁, prevX, nextX, run₂, run₃, run₄], ?_, ?_⟩
  · apply ring.delete nodup front back
    · constructor
      · rw [next, Function.update_of_ne px, Function.update_self]
      · rw [prev, Function.update_of_ne qx, Function.update_self]
    · intro y yp yx
      rw [next, Function.update_of_ne yx, Function.update_of_ne yp]
    · intro y yq yx
      rw [prev, Function.update_of_ne yx, Function.update_of_ne yq]
  · intro r
    rw [alive₄, alive₃, alive₂, alive₁]

end Ring

end HvmlFpm.Util
