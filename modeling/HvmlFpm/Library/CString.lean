import Mathlib.Data.List.Basic
import Mathlib.Data.List.DropRight

/-!
# C strings

A `CString` is what a C function sees behind a `char *`: the bytes before the terminating NUL. A
buffer handed over with a length may contain NULs; `ofBuffer` is what `strndup` or `strncat` keeps
of it.
-/

namespace HvmlFpm.Library

abbrev Bytes := List UInt8

def ascii (s : String) : Bytes := s.toList.map fun c => c.toNat.toUInt8

structure CString where
  bytes : Bytes
  nulFree : 0 ∉ bytes
deriving DecidableEq

namespace CString

@[ext] theorem ext {s t : CString} (h : s.bytes = t.bytes) : s = t := by
  cases s
  cases t
  simp_all

def empty : CString := ⟨[], by simp⟩

abbrev length (s : CString) : Nat := s.bytes.length

def append (s t : CString) : CString := ⟨s.bytes ++ t.bytes, by simp [s.nulFree, t.nulFree]⟩

instance : Append CString := ⟨append⟩

@[simp] theorem bytes_append (s t : CString) : (s ++ t).bytes = s.bytes ++ t.bytes := rfl
@[simp] theorem bytes_empty : empty.bytes = [] := rfl

/-- What a string function reads of a buffer: everything before the first NUL. -/
def ofBuffer (buf : Bytes) : CString :=
  ⟨buf.takeWhile (· != 0), fun h => by simpa using List.mem_takeWhile_imp h⟩

def lit (s : String) : CString := ofBuffer (ascii s)

@[simp] theorem bytes_ofBuffer (buf : Bytes) : (ofBuffer buf).bytes = buf.takeWhile (· != 0) := rfl

@[simp] theorem ofBuffer_nil : ofBuffer [] = empty := rfl

theorem ofBuffer_bytes (s : CString) : ofBuffer s.bytes = s := by
  apply ext
  rw [bytes_ofBuffer, List.takeWhile_eq_self_iff]
  intro c hc
  have := s.nulFree
  simpa using fun h : c = 0 => this (h ▸ hc)

@[simp] theorem append_empty (s : CString) : s ++ empty = s := ext (List.append_nil _)

def drop (n : Nat) (s : CString) : CString :=
  ⟨s.bytes.drop n, fun h => s.nulFree (List.mem_of_mem_drop h)⟩

def takeWhile (p : UInt8 → Bool) (s : CString) : CString :=
  ⟨s.bytes.takeWhile p, fun h => s.nulFree ((List.takeWhile_prefix p).subset h)⟩

def dropWhile (p : UInt8 → Bool) (s : CString) : CString :=
  ⟨s.bytes.dropWhile p, fun h => s.nulFree ((List.dropWhile_suffix p).subset h)⟩

def rdropWhile (p : UInt8 → Bool) (s : CString) : CString :=
  ⟨s.bytes.rdropWhile p, fun h => s.nulFree ((List.rdropWhile_prefix p s.bytes).subset h)⟩

def map (f : UInt8 → UInt8) (h : ∀ c, f c = 0 → c = 0) (s : CString) : CString :=
  ⟨s.bytes.map f, fun m => by
    obtain ⟨c, hc, e⟩ := List.mem_map.1 m
    exact s.nulFree (h c e ▸ hc)⟩

/-- `strsep`: the token before the first delimiter, and what is left behind it. The pointer is null
once the last token was taken, and a null pointer has no token. -/
def strsep (delimiter : UInt8) : Option CString → Option CString × Option CString
  | none => (none, none)
  | some s =>
      if delimiter ∈ s.bytes then
        (some ⟨s.bytes.takeWhile (· != delimiter),
            fun h => s.nulFree ((List.takeWhile_prefix _).subset h)⟩,
          some ((s.dropWhile (· != delimiter)).drop 1))
      else (some s, none)

theorem strsep_length_lt {delimiter : UInt8} {s rest : CString} {token : Option CString}
    (h : strsep delimiter (some s) = (token, some rest)) : rest.length < s.length := by
  simp only [strsep] at h
  by_cases found : delimiter ∈ s.bytes
  · rw [if_pos found, Prod.mk.injEq, Option.some.injEq] at h
    have shorter : (s.bytes.dropWhile (· != delimiter)).length ≤ s.bytes.length :=
      (List.dropWhile_suffix _).length_le
    have pos : 0 < s.bytes.length := List.length_pos_of_mem found
    rw [← h.2]
    change ((s.bytes.dropWhile (· != delimiter)).drop 1).length < s.bytes.length
    rw [List.length_drop]
    omega
  · simp [found] at h

/-! ## Pieces of a string

A string that arrives in pieces is rebuilt by appending what each piece contributes. Nothing is
lost or added exactly when no NUL stands before a byte that a later piece contributes. -/

/-- Behind the first NUL there are only NULs. -/
def NulsLast (x : Bytes) : Prop := ∀ c ∈ x.dropWhile (· != 0), c = 0

instance (x : Bytes) : Decidable (NulsLast x) := inferInstanceAs (Decidable (∀ c ∈ _, _))

@[simp] theorem nulsLast_nil : NulsLast [] := by simp [NulsLast]

theorem nulsLast_of_nulFree {x : Bytes} (nulFree : 0 ∉ x) : NulsLast x := by
  have kept : x.dropWhile (· != 0) = [] := by
    rw [List.dropWhile_eq_nil_iff]
    intro c member
    simpa using fun zero : c = 0 => nulFree (zero ▸ member)
  simp [NulsLast, kept]

theorem nulsLast_cons {c : UInt8} {x : Bytes} :
    NulsLast (c :: x) ↔ if c = 0 then ∀ d ∈ x, d = 0 else NulsLast x := by
  unfold NulsLast
  by_cases h : c = 0 <;> simp [h]

theorem ofBuffer_append {x y : Bytes} (h : NulsLast (x ++ y)) :
    ofBuffer (x ++ y) = ofBuffer x ++ ofBuffer y := by
  apply ext
  simp only [bytes_append, bytes_ofBuffer]
  induction x with
  | nil => simp
  | cons c x ih =>
      rw [List.cons_append, nulsLast_cons] at h
      by_cases hc : c = 0
      · rw [if_pos hc] at h
        have none_left : y.takeWhile (· != 0) = [] := by
          cases y with
          | nil => rfl
          | cons d y => simp [h d (by simp)]
        rw [none_left]
        simp [hc]
      · rw [if_neg hc] at h
        simp [hc, ih h]

theorem nulsLast_snoc {x : Bytes} {c : UInt8} (h : NulsLast x) (next : 0 ∈ x → c = 0) :
    NulsLast (x ++ [c]) := by
  induction x with
  | nil => simp [nulsLast_cons]
  | cons d x ih =>
      rw [nulsLast_cons] at h
      rw [List.cons_append, nulsLast_cons]
      by_cases hd : d = 0
      · rw [if_pos hd] at h ⊢
        simp only [List.mem_append, List.mem_singleton]
        rintro e (he | rfl)
        · exact h e he
        · exact next (by simp [hd])
      · rw [if_neg hd] at h ⊢
        exact ih h fun m => next (List.mem_cons_of_mem d m)

end CString
end HvmlFpm.Library
