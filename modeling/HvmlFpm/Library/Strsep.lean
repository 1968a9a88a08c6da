import HvmlFpm.Library.CString

/-!
# Loops over the pieces of a string

A loop of `strsep` takes the pieces between the delimiters one after the other, and always comes to the
end of the string. Here are its pieces as a list, and what stripping leaves of a text.
-/

namespace HvmlFpm.Library

section Strip
variable {α : Type} {p : α → Bool} {x front back : List α}

def strip (p : α → Bool) (x : List α) : List α := (x.dropWhile p).rdropWhile p

structure Trimmed (p : α → Bool) (x : List α) : Prop where
  head : ∀ c ∈ x.head?, p c = false
  last : ∀ c ∈ x.getLast?, p c = false

instance (p : α → Bool) (x : List α) : Decidable (Trimmed p x) :=
  decidable_of_iff ((∀ c ∈ x.head?, p c = false) ∧ ∀ c ∈ x.getLast?, p c = false)
    ⟨fun h => ⟨h.1, h.2⟩, fun h => ⟨h.head, h.last⟩⟩

theorem strip_sublist (p : α → Bool) (x : List α) : (strip p x).Sublist x :=
  (List.rdropWhile_prefix p _).sublist.trans (List.dropWhile_sublist p)

theorem rdropWhile_append_of_pos (padding : ∀ c ∈ back, p c = true) :
    (x ++ back).rdropWhile p = x.rdropWhile p := by
  rw [List.rdropWhile, List.reverse_append, List.dropWhile_append_of_pos, List.rdropWhile]
  intro c member
  exact padding c (List.mem_reverse.1 member)

theorem strip_padded (front x back : List α) (before : ∀ c ∈ front, p c = true) (behind : ∀ c ∈ back, p c = true) :
    strip p (front ++ x ++ back) = strip p x := by
  rw [strip, List.append_assoc, List.dropWhile_append_of_pos before, List.dropWhile_append]
  split_ifs with gone
  · have nothing : x.dropWhile p = [] := List.isEmpty_iff.1 gone
    rw [List.dropWhile_eq_nil_iff.2 behind, strip, nothing]
  · rw [rdropWhile_append_of_pos behind, strip]

theorem strip_eq_self_iff : strip p x = x ↔ Trimmed p x := by
  constructor
  · intro same
    have suffix : x.dropWhile p = x := by
      apply (List.dropWhile_suffix p).eq_of_length_le
      calc x.length = (strip p x).length := by rw [same]
        _ ≤ (x.dropWhile p).length := (List.rdropWhile_prefix p _).length_le
    have final := same
    rw [strip, suffix, List.rdropWhile_eq_self_iff] at final
    refine ⟨fun c head => ?_, fun c last => ?_⟩
    · cases x with
      | nil => cases head
      | cons d x =>
          obtain rfl := Option.some.inj head
          by_contra stripped
          rw [List.dropWhile_cons_of_pos (by simpa using stripped)] at suffix
          have := (List.dropWhile_suffix p (l := x)).length_le
          rw [suffix, List.length_cons] at this
          omega
    · have nonempty : x ≠ [] := by
        intro empty
        simp [empty] at last
      rw [List.getLast?_eq_some_getLast nonempty] at last
      obtain rfl := Option.some.inj last
      simpa using final nonempty
  · rintro ⟨head, last⟩
    have kept : x.dropWhile p = x := by
      cases x with
      | nil => rfl
      | cons c x => rw [List.dropWhile_cons_of_neg (by simp [head c rfl])]
    rw [strip, kept, List.rdropWhile_eq_self_iff]
    intro nonempty
    simp [last _ (List.getLast?_eq_some_getLast nonempty)]

end Strip

namespace CString
variable {delimiter : UInt8} {s t r : CString}

def upTo (delimiter : UInt8) (s : CString) : CString := s.takeWhile (· != delimiter)

def beyond (delimiter : UInt8) (s : CString) : CString := (s.dropWhile (· != delimiter)).drop 1

def pieces (delimiter : UInt8) (s : CString) : List CString := (s.bytes.splitOn delimiter).map ofBuffer

theorem split_cases (delimiter : UInt8) (s : CString) :
    delimiter ∉ s.bytes ∨ ∃ t r : CString, s.bytes = t.bytes ++ delimiter :: r.bytes ∧ delimiter ∉ t.bytes := by
  by_cases found : delimiter ∈ s.bytes
  · obtain ⟨front, back, split, first⟩ := List.eq_append_cons_of_mem found
    have nulFree := s.nulFree
    simp only [split, List.mem_append, List.mem_cons, not_or] at nulFree
    exact .inr ⟨⟨front, nulFree.1⟩, ⟨back, nulFree.2.2⟩, split, first⟩
  · exact .inl found

theorem kept (first : delimiter ∉ t.bytes) : ∀ c ∈ t.bytes, (c != delimiter) = true := by
  intro c member
  simpa using fun same : c = delimiter => first (same ▸ member)

theorem upTo_of_split (split : s.bytes = t.bytes ++ delimiter :: r.bytes) (first : delimiter ∉ t.bytes) :
    s.upTo delimiter = t := by
  apply ext
  change s.bytes.takeWhile (· != delimiter) = t.bytes
  rw [split, List.takeWhile_append_of_pos (kept first), List.takeWhile_cons_of_neg (by simp), List.append_nil]

theorem beyond_of_split (split : s.bytes = t.bytes ++ delimiter :: r.bytes) (first : delimiter ∉ t.bytes) :
    s.beyond delimiter = r := by
  apply ext
  change (s.bytes.dropWhile (· != delimiter)).drop 1 = r.bytes
  rw [split, List.dropWhile_append_of_pos (kept first), List.dropWhile_cons_of_neg (by simp),
    List.drop_succ_cons, List.drop_zero]

theorem strsep_of_split (split : s.bytes = t.bytes ++ delimiter :: r.bytes) (first : delimiter ∉ t.bytes) :
    strsep delimiter (some s) = (some t, some r) := by
  have found : delimiter ∈ s.bytes := by simp [split]
  rw [strsep, if_pos found]
  exact congrArg₂ (fun t r => (some t, some r)) (upTo_of_split split first) (beyond_of_split split first)

theorem pieces_of_split (split : s.bytes = t.bytes ++ delimiter :: r.bytes) (first : delimiter ∉ t.bytes) :
    s.pieces delimiter = t :: r.pieces delimiter := by
  rw [pieces, split, List.splitOn_append_cons_self_of_not_mem first, List.map_cons, ofBuffer_bytes]
  rfl

theorem upTo_of_absent (absent : delimiter ∉ s.bytes) : s.upTo delimiter = s := by
  apply ext
  rw [upTo, takeWhile, List.takeWhile_eq_self_iff]
  exact kept absent

theorem not_mem_upTo : delimiter ∉ (s.upTo delimiter).bytes := by
  intro member
  have other := List.mem_takeWhile_imp member
  simp at other

theorem strsep_of_absent (absent : delimiter ∉ s.bytes) : strsep delimiter (some s) = (some s, none) := by
  rw [strsep, if_neg absent]

theorem pieces_of_absent (absent : delimiter ∉ s.bytes) : s.pieces delimiter = [s] := by
  rw [pieces, List.splitOn_eq_singleton absent, List.map_singleton, ofBuffer_bytes]

theorem strsep_induction {P : CString → Prop} (delimiter : UInt8) (last : ∀ s : CString, delimiter ∉ s.bytes → P s)
    (next : ∀ s t r : CString, s.bytes = t.bytes ++ delimiter :: r.bytes → delimiter ∉ t.bytes → P r → P s)
    (s : CString) : P s := by
  induction length : s.length using Nat.strong_induction_on generalizing s with
  | _ n ih =>
      rcases split_cases delimiter s with absent | ⟨t, r, split, first⟩
      · exact last s absent
      · have shorter : r.length < n := by
          rw [← length, CString.length, CString.length, split, List.length_append, List.length_cons]
          omega
        exact next s t r split first (ih r.length shorter r rfl)

def join (separator : CString) : List CString → CString
  | [] => empty
  | [s] => s
  | s :: rest => s ++ separator ++ join separator rest

theorem join_cons (separator : CString) (rest : List CString) :
    ∃ tail : CString, ∀ s : CString, join separator (s :: rest) = s ++ tail := by
  cases rest with
  | nil => exact ⟨.empty, fun s => (append_empty s).symm⟩
  | cons t rest => exact ⟨separator ++ join separator (t :: rest), fun s => ext (by simp [join])⟩

theorem pieces_append {front : CString} (clean : delimiter ∉ front.bytes) (s : CString) :
    (front ++ s).pieces delimiter = (s.pieces delimiter).modifyHead (front ++ ·) := by
  rcases split_cases delimiter s with absent | ⟨t, r, split, first⟩
  · have absent' : delimiter ∉ (front ++ s).bytes := by simp [clean, absent]
    rw [pieces_of_absent absent, pieces_of_absent absent', List.modifyHead_cons]
  · have split' : (front ++ s).bytes = (front ++ t).bytes ++ delimiter :: r.bytes := by simp [split]
    have first' : delimiter ∉ (front ++ t).bytes := by simp [clean, first]
    rw [pieces_of_split split first, pieces_of_split split' first', List.modifyHead_cons]

theorem pieces_join {separator padding : CString} (starts : separator.bytes = delimiter :: padding.bytes)
    (clean : delimiter ∉ padding.bytes) (s : CString) (rest : List CString)
    (single : ∀ t ∈ s :: rest, delimiter ∉ t.bytes) :
    (join separator (s :: rest)).pieces delimiter = s :: rest.map (padding ++ ·) := by
  induction rest generalizing s with
  | nil => exact pieces_of_absent (single s (by simp))
  | cons t rest ih =>
      have split : (join separator (s :: t :: rest)).bytes =
          s.bytes ++ delimiter :: (padding ++ join separator (t :: rest)).bytes := by
        simp [join, starts]
      rw [pieces_of_split split (single s (by simp)), pieces_append clean,
        ih t fun u member => single u (List.mem_cons_of_mem s member)]
      rfl

end CString
end HvmlFpm.Library
