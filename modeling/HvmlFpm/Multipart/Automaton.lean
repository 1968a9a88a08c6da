import Mathlib.Data.Option.Basic
import HvmlFpm.Multipart.Scan

/-!
# The parser as an automaton

With callbacks that return 0 it is the bytes alone that decide whether the parser goes on, and with what.
-/

namespace HvmlFpm.Multipart
open Library
variable {σ : Type}

def Fed.parser? : Fed → Option Parser
  | .next _ p _ => some p
  | _ => none

namespace Parser

def next? (p : Parser) (c : UInt8) : Option Parser := (p.feed [] c).parser?

def run? (p : Parser) (x : Bytes) : Option Parser := x.foldlM next? p

theorem run?_cons (p : Parser) (c : UInt8) (x : Bytes) : p.run? (c :: x) = (p.next? c).bind (·.run? x) :=
  List.foldlM_cons

theorem run?_append (p : Parser) (x y : Bytes) : p.run? (x ++ y) = (p.run? x).bind (·.run? y) :=
  List.foldlM_append

theorem run?_snoc (p : Parser) (x : Bytes) (c : UInt8) : p.run? (x ++ [c]) = (p.run? x).bind (·.next? c) := by
  rw [run?_append]
  congr 1
  funext q
  rw [run?_cons]
  cases q.next? c <;> rfl

theorem run?_along {I : Bytes → Parser → Prop}
    (byte : ∀ x c p q, I x p → p.next? c = some q → I (x ++ [c]) q) {p q : Parser} (x : Bytes)
    (initial : I [] p) (run : p.run? x = some q) : I x q := by
  induction x using List.reverseRecOn generalizing q with
  | nil =>
      cases run
      exact initial
  | append_singleton x c ih =>
      rw [run?_snoc] at run
      obtain ⟨r, before, last⟩ := Option.bind_eq_some_iff.1 run
      exact byte x c r q (ih before) last

theorem feed_parser? (p : Parser) (pending : Bytes) (c : UInt8) : (p.feed pending c).parser? = p.next? c := by
  unfold next? feed
  cases p.state <;> simp only
  case headerField =>
    unfold feedHeaderField
    split_ifs <;> rfl
  case headerValue =>
    unfold feedHeaderValue
    split_ifs <;> rfl
  case partData =>
    unfold feedPartData
    split_ifs
    · split <;> rfl
    · rfl

end Parser

def Settings.AllOk (settings : Settings σ) : Prop := ∀ k s, ∃ t, settings.call k s = .ok t

section Execute
variable {settings : Settings σ}

theorem calls_allOk (answers : settings.AllOk) (ks : List Call) (s : σ) :
    ∃ t, settings.calls ks s = .ok t := by
  induction ks generalizing s with
  | nil => exact ⟨s, rfl⟩
  | cons k ks ih =>
      obtain ⟨t, called⟩ := answers k s
      obtain ⟨u, rest⟩ := ih t
      exact ⟨u, by rw [Settings.calls, Outcome.sequence_cons, called]; exact rest⟩

theorem perform_allOk (answers : settings.AllOk) (fed : Fed) (s : σ) :
    (perform settings fed s).All (fun k => fed.parser? = some k.parser) (fun _ => fed.parser? = none)
      (fun _ _ => fed.parser? = none) := by
  cases fed with
  | refused => exact rfl
  | outOfBlock ks =>
      obtain ⟨t, called⟩ := calls_allOk answers ks s
      simp only [perform, called]
      exact rfl
  | next ks p pending =>
      obtain ⟨t, called⟩ := calls_allOk answers ks s
      simp only [perform, called]
      exact rfl

theorem executeChunks_run (answers : settings.AllOk) (chunks : List Bytes) (p : Parser) (s : σ) :
    (executeChunks settings chunks (p, s)).All (fun r => p.run? chunks.flatten = some r.1)
      (fun _ => p.run? chunks.flatten = none) (fun _ _ => p.run? chunks.flatten = none) := by
  have run := executeChunks_ahead settings (I := fun left k => p.run? chunks.flatten = k.parser.run? left)
    (J := fun _ => p.run? chunks.flatten = none) (K := fun _ _ => p.run? chunks.flatten = none) ?_ ?_ chunks (p, s) rfl
  · exact run
  · intro c left k same
    rw [Parser.run?_cons] at same
    apply (perform_allOk answers (k.parser.feed k.pending c) k.data).mono
    · intro l next
      rw [Parser.feed_parser?] at next
      rw [same, next, Option.bind_some]
    · intro _ refused
      rw [Parser.feed_parser?] at refused
      rw [same, refused, Option.bind_none]
    · intro _ _ stopped
      rw [Parser.feed_parser?] at stopped
      rw [same, stopped, Option.bind_none]
  · intro left k same
    obtain ⟨t, called⟩ := calls_allOk answers (k.parser.pendingCalls k.pending) k.data
    simp only [flush, called]
    exact same

theorem executeChunks_iff (answers : settings.AllOk) (chunks : List Bytes) (p q : Parser) (s : σ) :
    (∃ t, executeChunks settings chunks (p, s) = .ok (q, t)) ↔ p.run? chunks.flatten = some q := by
  have run := executeChunks_run answers chunks p s
  cases executed : executeChunks settings chunks (p, s) with
  | ok r =>
      rw [executed] at run
      rw [show p.run? chunks.flatten = some r.1 from run]
      simp [Prod.ext_iff]
  | fail t =>
      rw [executed] at run
      rw [show p.run? chunks.flatten = none from run]
      simp
  | stop why t =>
      rw [executed] at run
      rw [show p.run? chunks.flatten = none from run]
      simp

end Execute
end HvmlFpm.Multipart
