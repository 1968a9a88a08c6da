import HvmlFpm.Library.Strsep
import HvmlFpm.Multipart.Attributes

/-!
# Names and values

The loops of `attrs_map_parse` and `purc_make_object_from_http_header_value` differ only in what they do
with a pair. Both go through all pieces of their text if every piece has a `=`, and end in a null pointer
if one has none.
-/

namespace HvmlFpm.Multipart
open Library CString

def pairName (pair : CString) : CString := pair.upTo 61

def pairValue (pair : CString) : CString := (pair.beyond 61).upTo 61

def setAttribute (map : Kvlist) (pair : CString) : Kvlist :=
  kvlistSet map (strTrim (pairName pair)) (strTrim (strStripQuotes (pairValue pair)))

def setCookie (purc : Purc) (obj : Members) (pair : CString) : Members :=
  match purc.makeString (strTrim (pairName pair)), purc.makeString (strTrim (pairValue pair)) with
  | some _, some v => obj.set (strTrim (pairName pair)) v
  | _, _ => obj

def skipBlanks (text : CString) : CString := text.dropWhile isspace

def EachPaired (text : CString) : Prop := ∀ piece ∈ text.pieces 59, 61 ∈ piece.bytes

instance (text : CString) : Decidable (EachPaired text) := inferInstanceAs (Decidable (∀ piece ∈ _, _))

theorem eachPaired_last {s : CString} (absent : 59 ∉ s.bytes) : EachPaired s ↔ 61 ∈ s.bytes := by
  simp [EachPaired, pieces_of_absent absent]

theorem eachPaired_next {s piece rest : CString} (split : s.bytes = piece.bytes ++ 59 :: rest.bytes)
    (first : 59 ∉ piece.bytes) : EachPaired s ↔ 61 ∈ piece.bytes ∧ EachPaired rest := by
  simp [EachPaired, pieces_of_split split first]

theorem loop_pieces {β : Type} {loop : β → Option CString → Option β} {handle : β → CString → β}
    (ends : ∀ acc, loop acc none = some acc)
    (turn : ∀ acc s piece rest, strsep 59 (some s) = (some piece, rest) →
      loop acc (some s) = if 61 ∈ piece.bytes then loop (handle acc piece) rest else none)
    (acc : β) (text : CString) :
    loop acc (some text) = if EachPaired text then some ((text.pieces 59).foldl handle acc) else none := by
  induction text using strsep_induction 59 generalizing acc with
  | last s absent =>
      rw [turn acc s s none (strsep_of_absent absent), ends, pieces_of_absent absent]
      simp [eachPaired_last absent]
  | next s piece rest split first ih =>
      rw [turn acc s piece (some rest) (strsep_of_split split first), pieces_of_split split first]
      by_cases paired : 61 ∈ piece.bytes
      · simp [eachPaired_next split first, paired, ih]
      · simp [eachPaired_next split first, paired]

theorem strsep_pair (pair : CString) :
    61 ∉ pair.bytes ∧ strsep 61 (some pair) = (some pair, none) ∨
      61 ∈ pair.bytes ∧ strsep 61 (some pair) = (some (pairName pair), some (pair.beyond 61)) ∧
        ∃ left, strsep 61 (some (pair.beyond 61)) = (some (pairValue pair), left) := by
  rcases split_cases 61 pair with absent | ⟨name, value, split, first⟩
  · exact .inl ⟨absent, strsep_of_absent absent⟩
  · have paired : 61 ∈ pair.bytes := by simp [split]
    refine .inr ⟨paired, ?_, ?_⟩
    · rw [strsep_of_split split first, pairName, upTo_of_split split first, beyond_of_split split first]
    · rw [pairValue]
      rcases split_cases 61 (pair.beyond 61) with absent | ⟨front, back, split', first'⟩
      · rw [strsep_of_absent absent, upTo_of_absent absent]
        exact ⟨none, rfl⟩
      · rw [strsep_of_split split' first', upTo_of_split split' first']
        exact ⟨some back, rfl⟩

theorem attrsLoop_turn (map : Kvlist) (s pair : CString) (rest : Option CString)
    (taken : strsep 59 (some s) = (some pair, rest)) :
    attrsLoop map (some s) = if 61 ∈ pair.bytes then attrsLoop (setAttribute map pair) rest else none := by
  rw [attrsLoop]
  split
  · next none_taken => simp [taken] at none_taken
  · next pair' rest' taken' =>
    obtain ⟨same, rfl⟩ := Prod.mk.inj (taken.symm.trans taken')
    obtain rfl := Option.some.inj same
    rcases strsep_pair pair with ⟨absent, name⟩ | ⟨paired, name, left, value⟩
    · rw [name, if_neg absent]
      rfl
    · simp only [name, value, if_pos paired]
      rfl

theorem cookieLoop_turn (purc : Purc) (obj : Members) (s pair : CString) (rest : Option CString)
    (taken : strsep 59 (some s) = (some pair, rest)) :
    cookieLoop purc obj (some s) = if 61 ∈ pair.bytes then cookieLoop purc (setCookie purc obj pair) rest else none := by
  rw [cookieLoop]
  split
  · next none_taken => simp [taken] at none_taken
  · next pair' rest' taken' =>
    obtain ⟨same, rfl⟩ := Prod.mk.inj (taken.symm.trans taken')
    obtain rfl := Option.some.inj same
    rcases strsep_pair pair with ⟨absent, name⟩ | ⟨paired, name, left, value⟩
    · rw [name, if_neg absent]
      rfl
    · simp only [name, value, if_pos paired, setCookie]
      cases purc.makeString (strTrim (pairName pair)) with
      | none => rfl
      | some k => cases purc.makeString (strTrim (pairValue pair)) <;> rfl

theorem eachPaired_skipBlanks (text : CString) : EachPaired (skipBlanks text) ↔ EachPaired text := by
  have whole : text.bytes = text.bytes.takeWhile isspace ++ (skipBlanks text).bytes :=
    List.takeWhile_append_dropWhile.symm
  have other (c : UInt8) (notBlank : isspace c = false) : c ∉ text.bytes.takeWhile isspace := by
    intro member
    simp [List.mem_takeWhile_imp member] at notBlank
  have noSemicolon := other 59 (by decide)
  have noEquals := other 61 (by decide)
  rcases split_cases 59 (skipBlanks text) with absent | ⟨piece, rest, split, first⟩
  · have absent' : 59 ∉ text.bytes := by
      rw [whole]
      simp [noSemicolon, absent]
    rw [eachPaired_last absent, eachPaired_last absent', whole]
    simp [noEquals]
  · let front : CString := ⟨text.bytes.takeWhile isspace ++ piece.bytes, by
      have nulFree := text.nulFree
      rw [whole, split] at nulFree
      simp only [List.mem_append, not_or] at nulFree ⊢
      exact ⟨nulFree.1, nulFree.2.1⟩⟩
    have split' : text.bytes = front.bytes ++ 59 :: rest.bytes := by
      rw [List.append_assoc, ← split]
      exact whole
    have first' : 59 ∉ front.bytes := by simp [front, noSemicolon, first]
    rw [eachPaired_next split first, eachPaired_next split' first']
    simp [front, noEquals]

theorem attrsMapParse_eq (map : Kvlist) (text : CString) :
    attrsMapParse map text =
      if EachPaired text then some (((skipBlanks text).pieces 59).foldl setAttribute map) else none := by
  rw [← if_congr (eachPaired_skipBlanks text) rfl rfl]
  exact loop_pieces (fun acc => by rw [attrsLoop]; rfl) attrsLoop_turn map (skipBlanks text)

theorem purcMakeObjectFromHttpHeaderValue_eq (purc : Purc) (line : CString) :
    purcMakeObjectFromHttpHeaderValue purc line =
      if EachPaired line then some (((skipBlanks line).pieces 59).foldl (setCookie purc) .empty) else none := by
  rw [← if_congr (eachPaired_skipBlanks line) rfl rfl]
  exact loop_pieces (fun acc => by rw [cookieLoop]; rfl) (cookieLoop_turn purc) .empty (skipBlanks line)

/-- `attrs_map_parse` reads no null pointer, and handles every piece of the text. -/
def ReadsAttributes (map : Kvlist) (text : CString) : Prop :=
  attrsMapParse map text = some (((skipBlanks text).pieces 59).foldl setAttribute map)

def ReadsCookies (purc : Purc) (line : CString) : Prop :=
  purcMakeObjectFromHttpHeaderValue purc line = some (((skipBlanks line).pieces 59).foldl (setCookie purc) .empty)

theorem reads_iff (purc : Purc) (map : Kvlist) (text : CString) :
    (ReadsAttributes map text ↔ EachPaired text) ∧ (ReadsCookies purc text ↔ EachPaired text) := by
  rw [ReadsAttributes, ReadsCookies, attrsMapParse_eq, purcMakeObjectFromHttpHeaderValue_eq]
  by_cases paired : EachPaired text
  · simp [paired]
  · simp [paired]

theorem unpaired_not_read :
    ¬ ReadsAttributes .init (.lit " ") ∧ ¬ ReadsCookies ⟨fun _ => true, false⟩ (.lit "a=b;") := by
  have blank : ¬ EachPaired (.lit " ") := by decide +kernel
  have trailing : ¬ EachPaired (.lit "a=b;") := by decide +kernel
  rw [ReadsAttributes, ReadsCookies, attrsMapParse_eq, purcMakeObjectFromHttpHeaderValue_eq, if_neg blank,
    if_neg trailing]
  simp

end HvmlFpm.Multipart
