import Mathlib.Algebra.Order.Ring.Nat
import Mathlib.Data.List.Basic
import HvmlFpm.Library.CString

/-!
# The parameters of a request

The vector of `fcgiapp.c` that holds the environment of a request, and the search in it.
-/

namespace HvmlFpm.Fcgi
open Library

/-- There is room for the null pointer behind the last string. -/
structure Params where
  vec : List CString
  length : Nat
  room : vec.length < length

def newParams (length : Nat) (pos : 0 < length) : Params := ⟨[], length, pos⟩

def Params.putParam (p : Params) (nameValue : CString) : Params where
  vec := p.vec ++ [nameValue]
  length := if p.length ≤ p.vec.length + 1 then p.length * 2 else p.length
  room := by
    have room := p.room
    rw [List.length_append, List.length_singleton]
    split_ifs <;> omega

def Binds (name entry : CString) : Prop := name.bytes ++ [61] <+: entry.bytes

instance (name entry : CString) : Decidable (Binds name entry) := inferInstanceAs (Decidable (_ <+: _))

/-- The value of the first entry with the name; `getenv` searches `environ` in the same way. -/
def getParam (name : CString) : List CString → Option CString
  | [] => none
  | entry :: vec => if Binds name entry then some (entry.drop (name.length + 1)) else getParam name vec

def roleName (role : Nat) : Option CString :=
  if role = 1 then some (.lit "FCGI_ROLE=RESPONDER")
  else if role = 2 then some (.lit "FCGI_ROLE=AUTHORIZER")
  else if role = 3 then some (.lit "FCGI_ROLE=FILTER")
  else none

end HvmlFpm.Fcgi
