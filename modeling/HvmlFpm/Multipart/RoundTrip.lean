import HvmlFpm.Multipart.Callbacks
import HvmlFpm.Multipart.Pairs

/-!
# What a client writes and what is read

The attributes of a `Content-Disposition` header and the cookies of a request, written out as a client
does and read back by the two loops.
-/

namespace HvmlFpm.Multipart
open Library CString

def IsName (name : CString) : Prop := ∀ c ∈ name.bytes, c ≠ 59 ∧ c ≠ 61 ∧ isspace c = false

instance (name : CString) : Decidable (IsName name) := inferInstanceAs (Decidable (∀ c ∈ _, _))

theorem IsName.trimmed {name : CString} (isName : IsName name) : Trimmed isspace name.bytes where
  head := fun c head => (isName c (List.mem_of_mem_head? head)).2.2
  last := fun c last => (isName c (List.mem_of_getLast? last)).2.2

theorem bytes_strTrim (s : CString) : (strTrim s).bytes = strip isspace s.bytes := rfl
/-- An attribute with the blanks around it; `value` is what stands between the quotes. -/
structure Attribute where
  before : CString
  name : CString
  value : CString
  after : CString
  blanks : ∀ c ∈ before.bytes ++ after.bytes, isspace c = true
  isName : IsName name
  oneLine : ∀ c ∈ value.bytes, c ≠ 34 ∧ c ≠ CR ∧ c ≠ LF
  trimmed : Trimmed isspace value.bytes

namespace Attribute

def quote : CString := .lit "\""

def text (a : Attribute) : CString := a.before ++ a.name ++ .lit "=" ++ quote ++ a.value ++ quote ++ a.after

def render (attributes : List Attribute) : CString := join (.lit ";") (attributes.map text)

theorem bytes_quote : quote.bytes = [34] := by decide +kernel

theorem bytes_equals : (CString.lit "=").bytes = [61] := by decide +kernel

theorem bytes_text (a : Attribute) :
    a.text.bytes = a.before.bytes ++ a.name.bytes ++ 61 :: (34 :: a.value.bytes ++ 34 :: a.after.bytes) := by
  simp [text, bytes_quote, bytes_equals]

theorem not_mem_before (a : Attribute) {d : UInt8} (other : isspace d = false) : d ∉ a.before.bytes := by
  intro member
  simp [a.blanks d (List.mem_append_left _ member)] at other

def quoted (a : Attribute) : CString := quote ++ a.value ++ quote ++ a.after

theorem bytes_quoted (a : Attribute) : a.quoted.bytes = 34 :: a.value.bytes ++ 34 :: a.after.bytes := by
  simp [quoted, bytes_quote]

theorem text_split (a : Attribute) :
    a.text.bytes = (a.before ++ a.name).bytes ++ 61 :: a.quoted.bytes ∧ 61 ∉ (a.before ++ a.name).bytes := by
  have before := a.not_mem_before (d := 61) (by decide)
  have name : 61 ∉ a.name.bytes := fun member => (a.isName 61 member).2.1 rfl
  rw [bytes_text, bytes_quoted]
  simp [before, name]

def readValue (a : Attribute) : CString := strTrim (strStripQuotes (pairValue a.text))

def RoundTrips (attributes : List Attribute) : Prop :=
  ∃ map, attrsMapParse .init (render attributes) = some map ∧
    ∀ a ∈ attributes, kvlistGet map a.name = some a.value

end Attribute

/-! ## Cookies -/

structure Cookie where
  name : CString
  value : CString
  nonempty : name ≠ .empty
  isName : IsName name
  noSemicolon : 59 ∉ value.bytes
  trimmed : Trimmed isspace value.bytes

namespace Cookie

def text (c : Cookie) : CString := c.name ++ .lit "=" ++ c.value

def line (cookies : List Cookie) : CString := join (.lit "; ") (cookies.map text)

theorem text_split (c : Cookie) : c.text.bytes = c.name.bytes ++ 61 :: c.value.bytes ∧ 61 ∉ c.name.bytes := by
  have equals : (CString.lit "=").bytes = [61] := by decide +kernel
  exact ⟨by simp [text, equals], fun member => (c.isName 61 member).2.1 rfl⟩

theorem not_mem_text (c : Cookie) : 59 ∉ c.text.bytes := by
  have name : 59 ∉ c.name.bytes := fun member => (c.isName 59 member).1 rfl
  rw [c.text_split.1]
  simp [name, c.noSemicolon]

def readValue (c : Cookie) : CString := strTrim (c.value.upTo 61)

theorem pair_read (c : Cookie) {padding : CString} (blank : ∀ d ∈ padding.bytes, isspace d = true) :
    strTrim (pairName (padding ++ c.text)) = c.name ∧ strTrim (pairValue (padding ++ c.text)) = c.readValue := by
  obtain ⟨split, first⟩ := c.text_split
  have noEquals : 61 ∉ padding.bytes := fun member => absurd (blank 61 member) (by decide)
  have split' : (padding ++ c.text).bytes = (padding ++ c.name).bytes ++ 61 :: c.value.bytes := by simp [split]
  have first' : 61 ∉ (padding ++ c.name).bytes := by simp [noEquals, first]
  rw [pairName, upTo_of_split split' first', pairValue, beyond_of_split split' first', readValue]
  refine ⟨?_, rfl⟩
  apply CString.ext
  have padded := strip_padded _ c.name.bytes [] blank (by simp)
  rw [List.append_nil] at padded
  rw [bytes_strTrim, bytes_append, padded, strip_eq_self_iff]
  exact c.isName.trimmed

def set (purc : Purc) (obj : Members) (c : Cookie) : Members :=
  match purc.makeString c.name, purc.makeString c.readValue with
  | some _, some v => obj.set c.name v
  | _, _ => obj

theorem read_line (purc : Purc) {cookies : List Cookie} (nonempty : cookies ≠ []) :
    purcMakeObjectFromHttpHeaderValue purc (line cookies) = some (cookies.foldl (set purc) .empty) := by
  obtain ⟨first, rest, rfl⟩ := List.exists_cons_of_ne_nil nonempty
  have separator : (CString.lit "; ").bytes = 59 :: (CString.lit " ").bytes := by decide +kernel
  have single : ∀ t ∈ first.text :: rest.map text, 59 ∉ t.bytes := by
    intro t member
    rw [← List.map_cons] at member
    obtain ⟨c, -, rfl⟩ := List.mem_map.1 member
    exact c.not_mem_text
  have pieces := pieces_join separator (by decide +kernel) first.text (rest.map text) single
  have paired (c : Cookie) (padding : CString) : 61 ∈ (padding ++ c.text).bytes := by
    simp [c.text_split.1]
  have each : EachPaired (line (first :: rest)) := by
    intro piece member
    rw [line, List.map_cons, pieces, List.mem_cons] at member
    rcases member with rfl | member
    · exact paired first .empty
    · simp only [List.mem_map, exists_exists_and_eq_and] at member
      obtain ⟨c, -, rfl⟩ := member
      exact paired c (.lit " ")
  have unskipped : skipBlanks (line (first :: rest)) = line (first :: rest) := by
    obtain ⟨tail, joined⟩ := join_cons (.lit "; ") (rest.map text)
    obtain ⟨c, name, begins⟩ := List.exists_cons_of_ne_nil fun empty => first.nonempty (CString.ext empty)
    have notBlank := (first.isName c (by simp [begins])).2.2
    rw [line, List.map_cons, joined]
    apply CString.ext
    change (first.text ++ tail).bytes.dropWhile isspace = _
    rw [bytes_append, first.text_split.1, begins, List.cons_append, List.cons_append,
      List.dropWhile_cons_of_neg (by simp [notBlank])]
  have setFirst (obj : Members) (c : Cookie) : setCookie purc obj c.text = set purc obj c := by
    obtain ⟨name, value⟩ := @c.pair_read .empty (by simp)
    change setCookie purc obj (.empty ++ c.text) = _
    rw [setCookie, name, value]
    rfl
  have setNext (obj : Members) (c : Cookie) : setCookie purc obj (.lit " " ++ c.text) = set purc obj c := by
    obtain ⟨name, value⟩ := @c.pair_read (.lit " ") (by decide +kernel)
    rw [setCookie, name, value]
    rfl
  rw [purcMakeObjectFromHttpHeaderValue_eq, if_pos each, unskipped, line, List.map_cons, pieces, List.foldl_cons,
    List.map_map, List.foldl_map, List.foldl_cons, setFirst]
  simp only [Function.comp, setNext]

def RoundTrips (purc : Purc) (cookies : List Cookie) : Prop :=
  ∃ obj, purcMakeObjectFromHttpHeaderValue purc (line cookies) = some obj ∧
    (∀ c ∈ cookies, obj c.name = some (.string c.value)) ∧ ∀ key ∉ cookies.map name, obj key = none

theorem held_clean (purc : Purc) (cookies : List Cookie) {obj : Members}
    (clean : ∀ key v, obj key = some v → purc.isUtf8 key = true ∧ ∃ s, v = .string s ∧ 61 ∉ s.bytes) {key : CString}
    {v : Variant} (held : cookies.foldl (set purc) obj key = some v) :
    purc.isUtf8 key = true ∧ ∃ s, v = .string s ∧ 61 ∉ s.bytes := by
  induction cookies generalizing obj with
  | nil => exact clean key v held
  | cons c cookies ih =>
      apply ih _ held
      intro key v entry
      rw [set] at entry
      cases nameMade : purc.makeString c.name with
      | none => exact clean key v (by simpa only [nameMade] using entry)
      | some k =>
          cases valueMade : purc.makeString c.readValue with
          | none => exact clean key v (by simpa only [nameMade, valueMade] using entry)
          | some w =>
              simp only [nameMade, valueMade, Members.set, Function.update_apply] at entry
              split_ifs at entry with same
              · obtain ⟨utf8, -⟩ := Option.ite_none_right_eq_some.1 nameMade
                obtain ⟨-, isString⟩ := Option.ite_none_right_eq_some.1 valueMade
                obtain rfl := Option.some.inj entry
                refine ⟨same ▸ utf8, c.readValue, (Option.some.inj isString).symm, fun member => ?_⟩
                exact not_mem_upTo ((strip_sublist isspace _).subset member)
              · exact clean key v entry

theorem cookies_round_trip_iff (purc : Purc) (cookies : List Cookie) (nonempty : cookies ≠ [])
    (distinct : (cookies.map name).Nodup) (utf8 : ∀ c ∈ cookies, purc.isUtf8 c.value = true) :
    RoundTrips purc cookies ↔ ∀ c ∈ cookies, 61 ∉ c.value.bytes ∧ purc.isUtf8 c.name = true := by
  rw [RoundTrips, read_line purc nonempty]
  constructor
  · rintro ⟨obj, made, held, -⟩ c member
    obtain rfl := Option.some.inj made
    obtain ⟨isText, s, same, clean⟩ := held_clean purc cookies (by intro key v entry; cases entry) (held c member)
    obtain rfl := Variant.string.inj same
    exact ⟨clean, isText⟩
  · intro readable
    have whole : ∀ obj, ∀ c ∈ cookies, set purc obj c = Function.update obj c.name (some (.string c.value)) := by
      intro obj c member
      obtain ⟨noEquals, isText⟩ := readable c member
      have value : c.readValue = c.value := by
        apply CString.ext
        rw [readValue, upTo_of_absent noEquals, bytes_strTrim, strip_eq_self_iff]
        exact c.trimmed
      rw [set, value, Purc.makeString, Purc.makeString, if_pos isText, if_pos (utf8 c member)]
      rfl
    rw [List.foldl_ext _ _ _ whole]
    exact ⟨_, rfl, foldl_update name (fun c => .string c.value) distinct Members.empty⟩

def sessionToken : Cookie where
  name := .lit "sid"
  value := .lit "YWI="
  nonempty := by decide +kernel
  isName := by decide +kernel
  noSemicolon := by decide +kernel
  trimmed := by decide +kernel

theorem sessionToken_cookies_iff :
    RoundTrips plainHost.purc [sessionToken] ↔
      ∀ c ∈ [sessionToken], 61 ∉ c.value.bytes ∧ plainHost.purc.isUtf8 c.name = true :=
  cookies_round_trip_iff plainHost.purc [sessionToken] (by simp) (by simp) (by simp [plainHost])

theorem sessionToken_not_round_trips : ¬ RoundTrips plainHost.purc [sessionToken] := by
  rintro ⟨obj, made, held, -⟩
  rw [read_line _ (by simp)] at made
  obtain rfl := Option.some.inj made
  obtain ⟨-, s, same, clean⟩ :=
    held_clean _ _ (by intro key v entry; cases entry) (held sessionToken (by simp))
  obtain rfl := Variant.string.inj same
  exact clean (by decide +kernel)

end Cookie
end HvmlFpm.Multipart
