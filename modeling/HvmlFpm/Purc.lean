import HvmlFpm.Library.CString
import Mathlib.Logic.Function.Basic

/-!
# What the program uses of PurC and of kvlist

PurC is a library of its own, so what it decides is a parameter here. Objects are finite maps that
accept every key. A kvlist in pointer mode is a map from C strings as well.
-/

namespace HvmlFpm
open Library

theorem foldl_update {α κ β : Type} [DecidableEq κ] (key : α → κ) (value : α → β) {xs : List α}
    (distinct : (xs.map key).Nodup) (map : κ → Option β) :
    (∀ x ∈ xs, xs.foldl (fun map x => Function.update map (key x) (some (value x))) map (key x) = some (value x)) ∧
      ∀ k ∉ xs.map key, xs.foldl (fun map x => Function.update map (key x) (some (value x))) map k = map k := by
  induction xs generalizing map with
  | nil => simp
  | cons y xs ih =>
      rw [List.map_cons, List.nodup_cons] at distinct
      rw [List.foldl_cons]
      obtain ⟨values, others⟩ := ih distinct.2 (Function.update map (key y) (some (value y)))
      constructor
      · intro x member
        rcases List.mem_cons.1 member with rfl | member
        · rw [others (key x) distinct.1, Function.update_self]
        · exact values x member
      · intro k absent
        rw [List.map_cons, List.mem_cons, not_or] at absent
        rw [others k absent.2, Function.update_of_ne absent.1]

inductive Variant
  | null
  | ulongint (n : Nat)
  | string (s : CString)
  | object (members : CString → Option Variant)
  | other (id : Nat)

abbrev Members := CString → Option Variant

def Variant.member : Variant → CString → Option Variant
  | .object members, key => members key
  | _, _ => none

def Members.empty : Members := fun _ => none

def Members.set (obj : Members) (key : CString) (v : Variant) : Members :=
  Function.update obj key (some v)

@[simp] theorem Members.set_same (obj : Members) (key : CString) (v : Variant) :
    obj.set key v key = some v := Function.update_self ..

theorem Members.set_other (obj : Members) {key k : CString} (v : Variant) (ne : k ≠ key) :
    obj.set key v k = obj k := Function.update_of_ne ne ..

structure Purc where
  /-- The encoding check of `purc_variant_make_string`. -/
  isUtf8 : CString → Bool
  /-- Whether an invalid variant given to `purc_variant_object_set_by_ckey` and
  `purc_variant_unref` ends the process; otherwise the object stays as it is. -/
  abortsOnInvalid : Bool

def Purc.makeString (purc : Purc) (s : CString) : Option Variant :=
  if purc.isUtf8 s then some (.string s) else none

/-- `purc_variant_object_set_by_ckey` followed by `purc_variant_unref` of the value; `none` is an
abort. -/
def Purc.setByCkey (purc : Purc) (key : CString) (value : Option Variant) (obj : Members) :
    Option Members :=
  match value with
  | some v => some (obj.set key v)
  | none => if purc.abortsOnInvalid then none else some obj

abbrev Kvlist := CString → Option CString

def Kvlist.init : Kvlist := fun _ => none

def kvlistSet (kv : Kvlist) (name value : CString) : Kvlist := Function.update kv name (some value)

def kvlistGet (kv : Kvlist) (name : CString) : Option CString := kv name

end HvmlFpm
