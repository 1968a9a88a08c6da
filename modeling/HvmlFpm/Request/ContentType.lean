import Mathlib.Algebra.Order.Ring.Nat
import HvmlFpm.Library.CString
import HvmlFpm.Library.Token

/-!
# The content type of a request

`check_post_content_type` of `hvml-executor.c`. A pointer into the header is its offset; `none` is a
read behind the terminating NUL.
-/

namespace HvmlFpm.Request
open Library

inductive PostContentType
  | bad | notSupported | formUrlencoded | formData | json | xml | plain
deriving DecidableEq, Repr

/-- `ct <= 0`. -/
def PostContentType.refused : PostContentType → Bool
  | .bad | .notSupported => true
  | _ => false

structure Pcutils where
  getNextToken : CString → Bytes → Nat × Nat
  getNextTokenLen : CString → Nat → Bytes → Nat × Nat

structure Pcutils.Lawful (pcutils : Pcutils) : Prop where
  getNextToken : ∀ str delims, pcutils.getNextToken str delims = nextToken delims.contains str.bytes
  getNextTokenLen : ∀ str len delims,
    pcutils.getNextTokenLen str len delims = nextToken delims.contains (str.bytes.take len)

def stringAt (str : CString) (offset : Nat) : Option CString :=
  if offset ≤ str.length then some (str.drop offset) else none

def toLower (c : UInt8) : UInt8 := if 65 ≤ c && c ≤ 90 then c + 32 else c

/-- `strncasecmp2ltr(str, literal, len) == 0`: the text is read only when it has the length of the
literal. -/
def strncasecmp2ltr (str : CString) (offset : Nat) (literal : String) (len : Nat) : Option Bool :=
  if len ≠ (ascii literal).length then some false
  else (stringAt str offset).map fun text => (text.bytes.take len).map toLower == ascii literal

def sizeSub (a b : Nat) : Nat := (a + 2 ^ 64 - b) % 2 ^ 64

structure Parameters where
  bad : Bool
  boundary : Option CString
  printed : Bytes

structure Checked where
  ct : PostContentType
  boundary : Option CString
  printed : Bytes
deriving DecidableEq

variable (pcutils : Pcutils)

def checkParameter (extkv : CString) (keyLen mimeLen : Nat) : Option Parameters :=
  if keyLen = 0 ∨ extkv.bytes[keyLen]? ≠ some 61 then
    some ⟨true, none, ascii "No extra key value pair: " ++ extkv.bytes ++ ascii "\n"⟩
  else
    (strncasecmp2ltr extkv 0 "charset" keyLen).bind fun charset =>
      if charset then
        let valueLen := sizeSub (sizeSub mimeLen keyLen) 1
        (strncasecmp2ltr extkv (keyLen + 1) "utf-8" valueLen).map fun utf8 => ⟨!utf8, none, []⟩
      else
        (strncasecmp2ltr extkv 0 "boundary" keyLen).bind fun boundary =>
          if boundary then (stringAt extkv (keyLen + 1)).map fun value => ⟨false, some value, []⟩
          else some ⟨false, none, []⟩

def checkParameters (contentType : CString) (mimeLen offset : Nat) : Option Parameters :=
  (stringAt contentType offset).bind fun text =>
    let key := pcutils.getNextToken text (ascii " =")
    (stringAt text key.1).bind fun extkv => checkParameter extkv key.2 mimeLen

def checkType (mime : CString) (mimeLen : Nat) : Option PostContentType :=
  let (type, typeLen) := pcutils.getNextTokenLen mime mimeLen (ascii "/")
  if typeLen = 0 ∨ typeLen = mimeLen then some .bad
  else
    let subtype := type + typeLen + 1
    let subtypeLen := sizeSub (sizeSub mimeLen typeLen) 1
    (strncasecmp2ltr mime type "application" typeLen).bind fun application =>
      if application then
        (strncasecmp2ltr mime subtype "x-www-form-urlencoded" subtypeLen).bind fun urlencoded =>
          if urlencoded then some .formUrlencoded
          else (strncasecmp2ltr mime subtype "json" subtypeLen).map fun json =>
            if json then .json else .notSupported
      else
        (strncasecmp2ltr mime type "multipart" typeLen).bind fun multipart =>
          (if multipart then strncasecmp2ltr mime subtype "form-data" subtypeLen else some false).bind
            fun formData =>
              if formData then some .formData
              else
                (strncasecmp2ltr mime type "text" typeLen).bind fun text =>
                  if text then
                    (strncasecmp2ltr mime subtype "xml" subtypeLen).bind fun xml =>
                      if xml then some .xml
                      else (strncasecmp2ltr mime subtype "plain" subtypeLen).map fun plain =>
                        if plain then .plain else .notSupported
                  else some .notSupported

/-- A header that is `CT_BAD` before `*boundary` is set has no boundary here; the caller does not
look at it. -/
def checkPostContentType (contentType : CString) : Option Checked :=
  let wholeLen := contentType.length
  let (start, mimeLen) := pcutils.getNextToken contentType (ascii ";")
  if mimeLen = 0 then some ⟨.bad, none, []⟩
  else
    (stringAt contentType start).bind fun mime =>
      (if mimeLen < wholeLen then checkParameters pcutils contentType mimeLen (start + mimeLen + 1)
        else some ⟨false, none, []⟩).bind fun parameters =>
          if parameters.bad then some ⟨.bad, parameters.boundary, parameters.printed⟩
          else (checkType pcutils mime mimeLen).map fun ct => ⟨ct, parameters.boundary, []⟩

theorem bytes_of_stringAt {str text : CString} {offset : Nat} (found : stringAt str offset = some text) :
    text.bytes = str.bytes.drop offset ∧ offset ≤ str.length := by
  rw [stringAt] at found
  by_cases inside : offset ≤ str.length
  · rw [if_pos inside, Option.some.injEq] at found
    exact ⟨congrArg CString.bytes found.symm, inside⟩
  · rw [if_neg inside] at found
    cases found

theorem lowered_of_strncasecmp2ltr {str : CString} {literal : String} {len : Nat}
    (same : strncasecmp2ltr str 0 literal len = some true) :
    (str.bytes.take len).map toLower = ascii literal := by
  rw [strncasecmp2ltr] at same
  by_cases long : len ≠ (ascii literal).length
  · simp [long] at same
  · simpa [long, stringAt, CString.drop] using same

theorem checkParameter_boundary {extkv x : CString} {keyLen mimeLen : Nat} {parameters : Parameters}
    (checked : checkParameter extkv keyLen mimeLen = some parameters)
    (boundary : parameters.boundary = some x) :
    extkv.bytes = extkv.bytes.take keyLen ++ 61 :: x.bytes ∧
      (extkv.bytes.take keyLen).map toLower = ascii "boundary" := by
  rw [checkParameter] at checked
  by_cases noPair : keyLen = 0 ∨ extkv.bytes[keyLen]? ≠ some 61
  · rw [if_pos noPair, Option.some.injEq] at checked
    subst checked
    cases boundary
  rw [if_neg noPair] at checked
  rw [not_or, not_not] at noPair
  obtain ⟨charset, -, checked⟩ := Option.bind_eq_some_iff.1 checked
  cases charset with
  | true =>
      rw [if_pos rfl] at checked
      obtain ⟨utf8, -, rfl⟩ := Option.map_eq_some_iff.1 checked
      cases boundary
  | false =>
      rw [if_neg (by simp)] at checked
      obtain ⟨isBoundary, same, checked⟩ := Option.bind_eq_some_iff.1 checked
      cases isBoundary with
      | false =>
          rw [if_neg (by simp), Option.some.injEq] at checked
          subst checked
          cases boundary
      | true =>
          rw [if_pos rfl] at checked
          obtain ⟨value, found, rfl⟩ := Option.map_eq_some_iff.1 checked
          obtain rfl := Option.some.inj boundary
          refine ⟨?_, lowered_of_strncasecmp2ltr same⟩
          obtain ⟨inside, equals⟩ := List.getElem?_eq_some_iff.1 noPair.2
          rw [(bytes_of_stringAt found).1, ← equals, List.getElem_cons_drop, List.take_append_drop]

theorem checkParameters_boundary {pcutils : Pcutils} (lawful : pcutils.Lawful) {contentType x : CString}
    {mimeLen offset : Nat} {parameters : Parameters}
    (checked : checkParameters pcutils contentType mimeLen offset = some parameters)
    (boundary : parameters.boundary = some x) :
    ∃ skipped key, contentType.bytes.drop offset = skipped ++ key ++ 61 :: x.bytes ∧
      (∀ c ∈ skipped, (ascii " =").contains c = true) ∧ (∀ c ∈ key, (ascii " =").contains c = false) ∧
      key.map toLower = ascii "boundary" := by
  rw [checkParameters] at checked
  obtain ⟨text, found, checked⟩ := Option.bind_eq_some_iff.1 checked
  obtain ⟨extkv, foundKey, checked⟩ := Option.bind_eq_some_iff.1 checked
  rw [lawful.getNextToken] at checked foundKey
  obtain ⟨skipped, key, rest, split, next, blanks, clean⟩ :=
    nextToken_split (ascii " =").contains text.bytes
  rw [next] at checked foundKey
  have extkvBytes : extkv.bytes = key ++ rest := by
    rw [(bytes_of_stringAt foundKey).1, split, List.append_assoc, List.drop_left]
  obtain ⟨whole, lowered⟩ := checkParameter_boundary checked boundary
  have taken : extkv.bytes.take key.length = key := by
    rw [extkvBytes, List.take_left]
  rw [taken] at whole lowered
  refine ⟨skipped, key, ?_, blanks, clean, lowered⟩
  rw [← (bytes_of_stringAt found).1, split, List.append_assoc, List.append_assoc, ← extkvBytes, whole]

theorem stringAt_zero (str : CString) : stringAt str 0 = some str := by
  rw [stringAt, if_pos (Nat.zero_le _)]
  rfl

theorem checkPostContentType_split {pcutils : Pcutils} (lawful : pcutils.Lawful) {contentType : CString}
    {checked : Checked} {mime tail : Bytes} (check : checkPostContentType pcutils contentType = some checked)
    (header : contentType.bytes = mime ++ 59 :: tail) (nonempty : mime ≠ []) (noSemicolon : 59 ∉ mime) :
    ∃ parameters, checkParameters pcutils contentType mime.length (mime.length + 1) = some parameters ∧
      checked.boundary = parameters.boundary ∧
      (checked.ct = .bad ∨ checkType pcutils contentType mime.length = some checked.ct) := by
  have clean : ∀ c ∈ mime, (ascii ";").contains c = false := clean_of_not_mem noSemicolon
  have front : nextToken (ascii ";").contains contentType.bytes = (0, mime.length) := by
    rw [header]
    exact nextToken_front nonempty clean (by decide)
  have shorter : mime.length < contentType.length := by
    rw [CString.length, header, List.length_append, List.length_cons]
    omega
  simp only [checkPostContentType, lawful.getNextToken, front, List.length_eq_zero_iff, nonempty, if_false,
    shorter, if_true, Nat.zero_add, stringAt_zero, Option.bind_some] at check
  obtain ⟨parameters, checkedParameters, check⟩ := Option.bind_eq_some_iff.1 check
  refine ⟨parameters, checkedParameters, ?_⟩
  by_cases bad : parameters.bad = true
  · rw [if_pos bad, Option.some.injEq] at check
    subst check
    exact ⟨rfl, .inl rfl⟩
  · rw [if_neg bad] at check
    obtain ⟨ct, checkedType, rfl⟩ := Option.map_eq_some_iff.1 check
    exact ⟨rfl, .inr checkedType⟩

theorem checkPostContentType_boundary {pcutils : Pcutils} (lawful : pcutils.Lawful)
    {contentType x : CString} {checked : Checked} {mime tail : Bytes}
    (check : checkPostContentType pcutils contentType = some checked) (boundary : checked.boundary = some x)
    (header : contentType.bytes = mime ++ 59 :: tail) (nonempty : mime ≠ []) (noSemicolon : 59 ∉ mime) :
    ∃ skipped key, tail = skipped ++ key ++ 61 :: x.bytes ∧
      (∀ c ∈ skipped, (ascii " =").contains c = true) ∧ (∀ c ∈ key, (ascii " =").contains c = false) ∧
      key.map toLower = ascii "boundary" := by
  obtain ⟨parameters, checkedParameters, same, -⟩ :=
    checkPostContentType_split lawful check header nonempty noSemicolon
  obtain ⟨skipped, key, split, rest⟩ := checkParameters_boundary lawful checkedParameters (same ▸ boundary)
  refine ⟨skipped, key, ?_, rest⟩
  rw [← split, header, List.drop_append]
  simp

end HvmlFpm.Request
