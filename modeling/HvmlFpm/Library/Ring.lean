import Mathlib.Data.List.Chain
import Mathlib.Data.List.Nodup

/-!
# Rings

Circular lists with links in both directions: a head, and the elements behind it in order.
-/

namespace HvmlFpm.Library
variable {π : Type}

def Linked (next prev : π → Option π) (x y : π) : Prop := next x = some y ∧ prev y = some x

def Ring (next prev : π → Option π) (head : π) (xs : List π) : Prop := (head :: (xs ++ [head])).IsChain (Linked next prev)

theorem isChain_congr {R S : π → π → Prop} {l : List π} (chain : l.IsChain R)
    (same : ∀ x ∈ l.dropLast, ∀ y ∈ l.tail, R x y → S x y) : l.IsChain S := by
  induction l with
  | nil => exact .nil
  | cons a l ih =>
      cases l with
      | nil => exact .singleton a
      | cons b l =>
          rw [List.isChain_cons_cons] at chain ⊢
          constructor
          · exact same a (by simp) b (by simp) chain.1
          · apply ih chain.2
            intro x xs y ys
            exact same x (by simp [xs]) y (List.mem_cons_of_mem b ys)

/-- A link between two neighbours is the only one from the first and the only one to the second. -/
structure Apart (A : List π) (p q : π) (B : List π) : Prop where
  sources : (A ++ p :: q :: B).dropLast.Nodup
  targets : (A ++ p :: q :: B).tail.Nodup

section Links
variable {next prev next' prev' : π → Option π} {new x p q : π} {A B : List π}

theorem Apart.front (apart : Apart A p q B) : ∀ x ∈ (A ++ [p]).dropLast, ∀ y ∈ (A ++ [p]).tail, x ≠ p ∧ y ≠ q := by
  obtain ⟨sources, targets⟩ := apart
  have split : (A ++ p :: q :: B).tail = (A ++ [p]).tail ++ q :: B := by
    rw [← List.tail_append_of_ne_nil (by simp)]
    simp
  have split' : (A ++ p :: q :: B).dropLast = A ++ p :: (q :: B).dropLast := by simp
  rw [split, List.nodup_append'] at targets
  rw [split', List.nodup_append'] at sources
  intro x xA y yA
  rw [List.dropLast_concat] at xA
  constructor
  · rintro rfl
    exact sources.2.2 xA List.mem_cons_self
  · rintro rfl
    exact targets.2.2 yA List.mem_cons_self

theorem Apart.back (apart : Apart A p q B) : ∀ x ∈ (q :: B).dropLast, ∀ y ∈ (q :: B).tail, x ≠ p ∧ y ≠ q := by
  obtain ⟨sources, targets⟩ := apart
  have split : (A ++ p :: q :: B).tail = (A ++ [p]).tail ++ q :: B := by
    rw [← List.tail_append_of_ne_nil (by simp)]
    simp
  have split' : (A ++ p :: q :: B).dropLast = A ++ p :: (q :: B).dropLast := by simp
  rw [split, List.nodup_append', List.nodup_cons] at targets
  rw [split', List.nodup_append', List.nodup_cons] at sources
  intro x xB y yB
  constructor
  · rintro rfl
    exact sources.2.1.1 xB
  · rintro rfl
    exact targets.2.1.1 yB

theorem Apart.kept (apart : Apart A p q B) (other : new ∉ A ++ p :: q :: B) (front : (A ++ [p]).IsChain (Linked next prev))
    (back : (q :: B).IsChain (Linked next prev)) (nexts : ∀ y, y ≠ p → y ≠ new → next' y = next y)
    (prevs : ∀ y, y ≠ q → y ≠ new → prev' y = prev y) :
    (A ++ [p]).IsChain (Linked next' prev') ∧ (q :: B).IsChain (Linked next' prev') := by
  have kept : ∀ x ∈ A ++ p :: q :: B, ∀ y ∈ A ++ p :: q :: B, x ≠ p ∧ y ≠ q → Linked next prev x y →
      Linked next' prev' x y := by
    intro x xs y ys away linked
    exact ⟨(nexts x away.1 fun same => other (same ▸ xs)).trans linked.1,
      (prevs y away.2 fun same => other (same ▸ ys)).trans linked.2⟩
  constructor
  · apply isChain_congr front
    intro x xs y ys
    have inside : ∀ z ∈ A ++ [p], z ∈ A ++ p :: q :: B := fun z member => by simp at member ⊢; tauto
    exact kept x (inside x (List.dropLast_subset _ xs)) y (inside y (List.mem_of_mem_tail ys)) (apart.front x xs y ys)
  · apply isChain_congr back
    intro x xs y ys
    have inside : ∀ z ∈ q :: B, z ∈ A ++ p :: q :: B := fun z member => by simp at member ⊢; tauto
    exact kept x (inside x (List.dropLast_subset _ xs)) y (inside y (List.mem_of_mem_tail ys)) (apart.back x xs y ys)

theorem chain_insert (chain : (A ++ p :: q :: B).IsChain (Linked next prev)) (apart : Apart A p q B)
    (fresh : new ∉ A ++ p :: q :: B) (first : Linked next' prev' p new) (second : Linked next' prev' new q)
    (nexts : ∀ y, y ≠ p → y ≠ new → next' y = next y) (prevs : ∀ y, y ≠ q → y ≠ new → prev' y = prev y) :
    (A ++ p :: new :: q :: B).IsChain (Linked next' prev') := by
  rw [List.isChain_append_cons_cons] at chain
  rw [List.isChain_append_cons_cons, List.isChain_cons_cons]
  obtain ⟨front, back⟩ := apart.kept fresh chain.1 chain.2.2 nexts prevs
  exact ⟨front, first, second, back⟩

theorem chain_delete (chain : (A ++ p :: x :: q :: B).IsChain (Linked next prev)) (apart : Apart A p q B)
    (absent : x ∉ A ++ p :: q :: B) (link : Linked next' prev' p q) (nexts : ∀ y, y ≠ p → y ≠ x → next' y = next y)
    (prevs : ∀ y, y ≠ q → y ≠ x → prev' y = prev y) : (A ++ p :: q :: B).IsChain (Linked next' prev') := by
  rw [List.isChain_append_cons_cons, List.isChain_cons_cons] at chain
  rw [List.isChain_append_cons_cons]
  obtain ⟨front, back⟩ := apart.kept absent chain.1 chain.2.2.2 nexts prevs
  exact ⟨front, link, back⟩

end Links

section Ring
variable {next prev next' prev' : π → Option π} {head new x : π} {ys zs : List π}

theorem Ring.congr {xs : List π} (ring : Ring next prev head xs) (nexts : ∀ x ∈ head :: xs, next' x = next x)
    (prevs : ∀ x ∈ head :: xs, prev' x = prev x) : Ring next' prev' head xs := by
  apply isChain_congr ring
  intro x xMem y yMem linked
  have xIn : x ∈ head :: xs := by
    rwa [← List.cons_append, List.dropLast_concat] at xMem
  have yIn : y ∈ head :: xs := by
    simp only [List.tail_cons, List.mem_append, List.mem_cons, List.not_mem_nil] at yMem ⊢
    tauto
  exact ⟨(nexts x xIn).trans linked.1, (prevs y yIn).trans linked.2⟩

theorem Ring.reverse {xs : List π} (ring : Ring next prev head xs) : Ring prev next head xs.reverse := by
  have turned : head :: (xs.reverse ++ [head]) = (head :: (xs ++ [head])).reverse := by simp
  rw [Ring, turned, List.isChain_reverse]
  exact ring.imp fun _ _ linked => And.symm linked

theorem exists_neighbours (head : π) (ys zs : List π) :
    ∃ A p q B, head :: ys = A ++ [p] ∧ zs ++ [head] = q :: B := by
  obtain ⟨A, p, front⟩ : ∃ A p, head :: ys = A ++ [p] :=
    ⟨(head :: ys).dropLast, (head :: ys).getLast (by simp), (List.dropLast_append_getLast _).symm⟩
  cases zs with
  | nil => exact ⟨A, p, head, [], front, rfl⟩
  | cons q zs => exact ⟨A, p, q, zs ++ [head], front, rfl⟩

variable {p q : π} {A B : List π}

theorem split_ring (front : head :: ys = A ++ [p]) (back : zs ++ [head] = q :: B) :
    head :: (ys ++ zs ++ [head]) = A ++ p :: q :: B := by
  calc head :: (ys ++ zs ++ [head]) = (head :: ys) ++ (zs ++ [head]) := by simp
    _ = A ++ p :: q :: B := by simp [front, back]

theorem split_ring_at (front : head :: ys = A ++ [p]) (back : zs ++ [head] = q :: B) :
    head :: (ys ++ x :: zs ++ [head]) = A ++ p :: x :: q :: B := by
  calc head :: (ys ++ x :: zs ++ [head]) = (head :: ys) ++ x :: (zs ++ [head]) := by simp
    _ = A ++ p :: x :: q :: B := by simp [front, back]

theorem apart_of_nodup (nodup : (head :: (ys ++ zs)).Nodup) (front : head :: ys = A ++ [p])
    (back : zs ++ [head] = q :: B) : Apart A p q B := by
  have split := split_ring front back
  constructor
  · rw [← split, ← List.cons_append, List.dropLast_concat]
    exact nodup
  · rw [← split, List.tail_cons]
    exact (List.perm_append_singleton head _).nodup_iff.2 nodup

theorem Ring.insert (ring : Ring next prev head (ys ++ zs)) (nodup : (head :: (ys ++ zs)).Nodup)
    (fresh : new ∉ head :: (ys ++ zs)) (front : head :: ys = A ++ [p]) (back : zs ++ [head] = q :: B)
    (first : Linked next' prev' p new) (second : Linked next' prev' new q)
    (nexts : ∀ y, y ≠ p → y ≠ new → next' y = next y) (prevs : ∀ y, y ≠ q → y ≠ new → prev' y = prev y) :
    Ring next' prev' head (ys ++ new :: zs) := by
  rw [Ring, split_ring front back] at ring
  rw [Ring, split_ring_at front back]
  apply chain_insert ring (apart_of_nodup nodup front back) _ first second nexts prevs
  rw [← split_ring front back]
  simp only [List.mem_cons, List.mem_append, List.not_mem_nil] at fresh ⊢
  tauto

theorem Ring.delete (ring : Ring next prev head (ys ++ x :: zs)) (nodup : (head :: (ys ++ x :: zs)).Nodup)
    (front : head :: ys = A ++ [p]) (back : zs ++ [head] = q :: B) (link : Linked next' prev' p q)
    (nexts : ∀ y, y ≠ p → y ≠ x → next' y = next y) (prevs : ∀ y, y ≠ q → y ≠ x → prev' y = prev y) :
    Ring next' prev' head (ys ++ zs) := by
  rw [Ring, split_ring_at front back] at ring
  have perm : (head :: (ys ++ x :: zs)).Perm (x :: head :: (ys ++ zs)) :=
    (List.perm_middle.cons head).trans (List.Perm.swap x head _)
  rw [perm.nodup_iff, List.nodup_cons] at nodup
  rw [Ring, split_ring front back]
  apply chain_delete ring (apart_of_nodup nodup.2 front back) _ link nexts prevs
  rw [← split_ring front back]
  have absent := nodup.1
  simp only [List.mem_cons, List.mem_append, List.not_mem_nil] at absent ⊢
  tauto

theorem Ring.link (ring : Ring next prev head (ys ++ zs)) (front : head :: ys = A ++ [p]) (back : zs ++ [head] = q :: B) :
    Linked next prev p q := by
  rw [Ring, split_ring front back, List.isChain_append_cons_cons] at ring
  exact ring.2.1

theorem Ring.links (ring : Ring next prev head (ys ++ x :: zs)) (front : head :: ys = A ++ [p])
    (back : zs ++ [head] = q :: B) : Linked next prev p x ∧ Linked next prev x q := by
  rw [Ring, split_ring_at front back, List.isChain_append_cons_cons, List.isChain_cons_cons] at ring
  exact ⟨ring.2.1, ring.2.2.1⟩

end Ring
end HvmlFpm.Library
