import HvmlFpm.Request.FormData

/-!
# The parameters of a content type

What `check_post_content_type` makes of a supported media type with any parameters behind it. It looks at
the first parameter only, compares a charset with the length of the media type, and takes the blanks
before a `;` as a part of the media type.
-/

namespace HvmlFpm.Request
open Library Multipart

def mediaCode (t u : Bytes) : PostContentType :=
  if t.map toLower = ascii "application" then
    if u.map toLower = ascii "x-www-form-urlencoded" then .formUrlencoded
    else if u.map toLower = ascii "json" then .json
    else .notSupported
  else if t.map toLower = ascii "multipart" ∧ u.map toLower = ascii "form-data" then .formData
  else if t.map toLower = ascii "text" then
    if u.map toLower = ascii "xml" then .xml
    else if u.map toLower = ascii "plain" then .plain
    else .notSupported
  else .notSupported

/-! ## The media type -/

section MediaType
variable {pcutils : Pcutils} {mime : CString}

theorem strncasecmp2ltr_window (str : CString) (front text back : Bytes) (literal : String)
    (split : str.bytes = front ++ text ++ back) :
    strncasecmp2ltr str front.length literal text.length = some (decide (text.map toLower = ascii literal)) := by
  have inside : front.length ≤ str.length := by
    rw [CString.length, split, List.append_assoc, List.length_append]
    omega
  have window : (str.drop front.length).bytes.take text.length = text := by
    change (str.bytes.drop front.length).take text.length = text
    rw [split, List.append_assoc, List.drop_left, List.take_left]
  rw [strncasecmp2ltr, stringAt, if_pos inside]
  by_cases long : text.length = (ascii literal).length
  · rw [if_neg (not_not.2 long), Option.map_some, window]
    by_cases same : text.map toLower = ascii literal <;> simp [same]
  · have differs : ¬ text.map toLower = ascii literal := by
      intro same
      exact long (by rw [← same, List.length_map])
    rw [if_pos long, decide_eq_false differs]

theorem sizeSub_eq {a b : Nat} (le : b ≤ a) (fits : a < 2 ^ 64) : sizeSub a b = a - b := by
  rw [sizeSub]
  omega

theorem checkType_eq (lawful : pcutils.Lawful) {t u rest : Bytes} (split : mime.bytes = t ++ 47 :: u ++ rest)
    (nonempty : t ≠ []) (noSlash : 47 ∉ t) (fits : mime.length < 2 ^ 64) :
    checkType pcutils mime (t ++ 47 :: u).length = some (mediaCode t u) := by
  have clean : ∀ c ∈ t, (ascii "/").contains c = false := clean_of_not_mem noSlash
  have token : nextToken (ascii "/").contains (mime.bytes.take (t ++ 47 :: u).length) = (0, t.length) := by
    rw [split, List.take_left]
    exact nextToken_front nonempty clean (by decide)
  have length : (t ++ 47 :: u).length = t.length + 1 + u.length := by
    rw [List.length_append, List.length_cons]
    omega
  have short : t.length + 1 + u.length < 2 ^ 64 := by
    rw [CString.length, split, List.length_append, length] at fits
    omega
  have lengths : ¬ (t.length = 0 ∨ t.length = (t ++ 47 :: u).length) := by
    have := List.length_pos_of_ne_nil nonempty
    rw [length]
    omega
  have subtypeLen : sizeSub (sizeSub (t ++ 47 :: u).length t.length) 1 = u.length := by
    rw [length, sizeSub_eq (by omega) short, sizeSub_eq (by omega) (by omega)]
    omega
  have type (literal : String) :
      strncasecmp2ltr mime 0 literal t.length = some (decide (t.map toLower = ascii literal)) :=
    strncasecmp2ltr_window mime [] t (47 :: u ++ rest) literal (by simp [split])
  have subtype (literal : String) :
      strncasecmp2ltr mime (t.length + 1) literal u.length = some (decide (u.map toLower = ascii literal)) := by
    have window := strncasecmp2ltr_window mime (t ++ [47]) u rest literal (by simp [split])
    rwa [List.length_append, List.length_singleton] at window
  simp only [checkType, lawful.getNextTokenLen, token, if_neg lengths, subtypeLen, Nat.zero_add, type, subtype,
    Option.bind_some, mediaCode]
  generalize t.map toLower = type'
  generalize u.map toLower = subtype'
  have notApplication : ascii "multipart" ≠ ascii "application" := by decide
  have notText : ascii "multipart" ≠ ascii "text" := by decide
  by_cases multipart : type' = ascii "multipart"
  · subst multipart
    by_cases formData : subtype' = ascii "form-data" <;> simp [notApplication, notText, formData]
  · simp only [multipart, decide_false, decide_eq_true_eq, false_and, if_false, Bool.false_eq_true,
      Option.bind_some, Option.map_some]
    split_ifs <;> rfl

theorem strncasecmp2ltr_length {str : CString} {offset len : Nat} {literal : String}
    (same : strncasecmp2ltr str offset literal len = some true) : len = (ascii literal).length := by
  by_contra long
  simp [strncasecmp2ltr, long] at same

theorem strncasecmp2ltr_inside {str : CString} {offset len : Nat} {literal : String}
    (same : strncasecmp2ltr str offset literal len = some true) : offset + len ≤ str.length := by
  have long := strncasecmp2ltr_length same
  rw [strncasecmp2ltr, if_neg (not_not.2 long)] at same
  obtain ⟨text, found, equal⟩ := Option.map_eq_some_iff.1 same
  obtain ⟨bytes, inside⟩ := bytes_of_stringAt found
  have length := congrArg List.length (beq_iff_eq.1 equal)
  rw [List.length_map, bytes, List.length_take, List.length_drop] at length
  rw [CString.length] at inside ⊢
  omega

theorem checkType_supported {mimeLen : Nat} {ct : PostContentType} (check : checkType pcutils mime mimeLen = some ct)
    (supported : ct.refused = false) :
    let (type, typeLen) := pcutils.getNextTokenLen mime mimeLen (ascii "/")
    typeLen ≠ 0 ∧ typeLen ≠ mimeLen ∧
      ∃ literal, strncasecmp2ltr mime (type + typeLen + 1) literal (sizeSub (sizeSub mimeLen typeLen) 1) = some true := by
  rw [checkType] at check
  generalize pcutils.getNextTokenLen mime mimeLen (ascii "/") = token at check ⊢
  obtain ⟨type, typeLen⟩ := token
  simp only at check ⊢
  by_cases lengths : typeLen = 0 ∨ typeLen = mimeLen
  · rw [if_pos lengths, Option.some.injEq] at check
    rw [← check] at supported
    exact absurd supported (by decide)
  rw [if_neg lengths] at check
  rw [not_or] at lengths
  refine ⟨lengths.1, lengths.2, ?_⟩
  by_contra other
  have differs {literal : String} {same : Bool}
      (compared : strncasecmp2ltr mime (type + typeLen + 1) literal (sizeSub (sizeSub mimeLen typeLen) 1) = some same) :
      same = false := by
    cases same with
    | false => rfl
    | true => exact absurd ⟨literal, compared⟩ other
  obtain ⟨application, -, check⟩ := Option.bind_eq_some_iff.1 check
  have refused : ct = .notSupported := by
    cases application with
    | true =>
        rw [if_pos rfl] at check
        obtain ⟨urlencoded, compared, check⟩ := Option.bind_eq_some_iff.1 check
        obtain rfl := differs compared
        rw [if_neg (by decide)] at check
        obtain ⟨json, compared, check⟩ := Option.map_eq_some_iff.1 check
        obtain rfl := differs compared
        exact check.symm
    | false =>
        rw [if_neg (by decide)] at check
        obtain ⟨multipart, -, check⟩ := Option.bind_eq_some_iff.1 check
        obtain ⟨formData, compared, check⟩ := Option.bind_eq_some_iff.1 check
        obtain rfl : formData = false := by
          cases multipart with
          | true =>
              rw [if_pos rfl] at compared
              exact differs compared
          | false => simpa using compared.symm
        rw [if_neg (by decide)] at check
        obtain ⟨text, -, check⟩ := Option.bind_eq_some_iff.1 check
        cases text with
        | true =>
            rw [if_pos rfl] at check
            obtain ⟨xml, compared, check⟩ := Option.bind_eq_some_iff.1 check
            obtain rfl := differs compared
            rw [if_neg (by decide)] at check
            obtain ⟨plain, compared, check⟩ := Option.map_eq_some_iff.1 check
            obtain rfl := differs compared
            exact check.symm
        | false => exact (Option.some.inj check).symm
  rw [refused] at supported
  exact absurd supported (by decide)

theorem supported_split (lawful : pcutils.Lawful) {ct : PostContentType}
    (check : checkType pcutils mime mime.length = some ct) (supported : ct.refused = false)
    (fits : mime.length < 2 ^ 64) : ∃ t u, mime.bytes = t ++ 47 :: u ∧ t ≠ [] ∧ 47 ∉ t ∧ mediaCode t u = ct := by
  have decided := checkType_supported check supported
  rw [lawful.getNextTokenLen, CString.length, List.take_length] at decided
  generalize token : nextToken (ascii "/").contains mime.bytes = found at decided
  obtain ⟨type, typeLen⟩ := found
  obtain ⟨-, shorter, literal, same⟩ := decided
  by_cases slash : 47 ∈ mime.bytes
  · obtain ⟨t, u, split, noSlash⟩ := List.eq_append_cons_of_mem slash
    by_cases empty : t = []
    · have inside := strncasecmp2ltr_inside same
      have lengths : type + typeLen ≤ mime.length := by
        obtain ⟨skipped, word, rest, whole, next, -, -⟩ := nextToken_split (ascii "/").contains mime.bytes
        obtain ⟨rfl, rfl⟩ := Prod.mk.inj (next.symm.trans token)
        rw [CString.length, whole, List.length_append, List.length_append]
        omega
      have leading : 0 < type := by
        rw [split, empty] at token
        rw [← (Prod.mk.inj token).1, List.nil_append, List.takeWhile_cons_of_pos (by decide)]
        simp
      rw [sizeSub_eq (by omega) fits, sizeSub_eq (by omega) (by omega)] at inside
      omega
    · refine ⟨t, u, split, empty, noSlash, ?_⟩
      have whole : mime.bytes = t ++ 47 :: u ++ [] := by rw [split, List.append_nil]
      have code := checkType_eq lawful whole empty noSlash fits
      rw [← split, check] at code
      exact (Option.some.inj code).symm
  · have clean : ∀ c ∈ mime.bytes, (ascii "/").contains c = false := clean_of_not_mem slash
    rw [nextToken_whole clean] at token
    exact absurd (Prod.mk.inj token).2.symm shorter

theorem mediaCode_supported {t u : Bytes} (supported : (mediaCode t u).refused = false) :
    (t.map toLower, u.map toLower) ∈ [(ascii "application", ascii "x-www-form-urlencoded"),
      (ascii "application", ascii "json"), (ascii "multipart", ascii "form-data"), (ascii "text", ascii "xml"),
      (ascii "text", ascii "plain")] := by
  rw [mediaCode] at supported
  generalize t.map toLower = type at supported ⊢
  generalize u.map toLower = subtype at supported ⊢
  split_ifs at supported with application urlencoded json multipart text xml plain
  · simp [application, urlencoded]
  · simp [application, json]
  · exact absurd supported (by decide)
  · simp [multipart]
  · simp [text, xml]
  · simp [text, plain]
  · exact absurd supported (by decide)
  · exact absurd supported (by decide)

theorem mediaCode_notSupported {t u : Bytes} (refused : (mediaCode t u).refused = true) :
    mediaCode t u = .notSupported := by
  rw [mediaCode] at refused ⊢
  split_ifs at refused ⊢
  all_goals first | rfl | exact absurd refused (by decide)

end MediaType

/-! ## The parameters -/

/-- A quoted string behind its first quote, and what it stands for. -/
inductive Quoted : Bytes → Bytes → Prop
  | close : Quoted [34] []
  | plain {c : UInt8} {text content : Bytes} : c ≠ 34 → c ≠ 92 → Quoted text content → Quoted (c :: text) (c :: content)
  | escaped {c : UInt8} {text content : Bytes} : Quoted text content → Quoted (92 :: c :: text) (c :: content)

structure TypeParameter extends MimeParameter where
  content : Bytes
  spelled : (value = content ∧ content ≠ [] ∧ ∀ c ∈ content, isTokenByte c = true) ∨
    ∃ text, value = 34 :: text ∧ Quoted text content

namespace TypeParameter

def IsCharset (p : TypeParameter) : Prop := p.key.map toLower = ascii "charset"

def OtherCharset (p : TypeParameter) : Prop := p.IsCharset ∧ p.content.map toLower ≠ ascii "utf-8"

def Blocked (p : TypeParameter) : Prop := 32 ∈ p.after.dropWhile (· == 32)

def Seen (p : TypeParameter) : Prop := ∀ c ∈ p.after, c = 32

instance (p : TypeParameter) : Decidable p.IsCharset := inferInstanceAs (Decidable (_ = _))
instance (p : TypeParameter) : Decidable p.OtherCharset := inferInstanceAs (Decidable (_ ∧ _))
instance (p : TypeParameter) : Decidable p.Blocked := inferInstanceAs (Decidable (_ ∈ _))
instance (p : TypeParameter) : Decidable p.Seen := inferInstanceAs (Decidable (∀ _ ∈ _, _))

end TypeParameter

def parametersText (parameters : List TypeParameter) : Bytes :=
  parameters.flatMap fun p => p.text

def classified (ct : PostContentType) (parameters : List TypeParameter) : PostContentType :=
  if ∃ p ∈ parameters, p.OtherCharset then .bad else ct

/-- No subtraction of `check_post_content_type` goes below zero. -/
structure LengthsFit (pcutils : Pcutils) (contentType : CString) : Prop where
  value : ∀ start mimeLen text key extkv,
    pcutils.getNextToken contentType (ascii ";") = (start, mimeLen) →
      stringAt contentType (start + mimeLen + 1) = some text → pcutils.getNextToken text (ascii " =") = key →
        stringAt text key.1 = some extkv → strncasecmp2ltr extkv 0 "charset" key.2 = some true → key.2 + 1 ≤ mimeLen
  subtype : ∀ start mimeLen mime type typeLen,
    pcutils.getNextToken contentType (ascii ";") = (start, mimeLen) → stringAt contentType start = some mime →
      pcutils.getNextTokenLen mime mimeLen (ascii "/") = (type, typeLen) → typeLen ≠ 0 → typeLen ≠ mimeLen →
        typeLen + 1 ≤ mimeLen

def Classifies (pcutils : Pcutils) (contentType : CString) (ct : PostContentType) (parameters : List TypeParameter) :
    Prop :=
  (checkPostContentType pcutils contentType).map Checked.ct = some (classified ct parameters) ∧
    LengthsFit pcutils contentType

/-- The first parameter is refused: no key is found, or the key is `charset`. A charset passes only where
the media type and the blanks behind it have 13 bytes, the length of `charset=` and `utf-8`. -/
def FirstRefused (mime : Bytes) (p : TypeParameter) (rest : List TypeParameter) : Prop :=
  p.Blocked ∨ (p.Seen ∧ p.IsCharset) ∧ ¬ (mime.length + p.before.length = 13 ∧
    ((p.value ++ parametersText rest).take 5).map toLower = ascii "utf-8")

def Harmless (mime : Bytes) : List TypeParameter → Prop
  | [] => True
  | p :: rest =>
      if ∃ q ∈ p :: rest, q.OtherCharset then FirstRefused mime p rest
      else p.before = [] ∧ ¬ p.Blocked ∧ ¬ (p.Seen ∧ p.IsCharset)

section Header
variable {pcutils : Pcutils} {contentType mime : CString}

theorem checkParameter_key {extkv : CString} {key tail : Bytes} {mimeLen : Nat} (split : extkv.bytes = key ++ 61 :: tail)
    (nonempty : key ≠ []) (long : 8 ≤ mimeLen) (fits : mimeLen < 2 ^ 64) :
    ∃ parameters, checkParameter extkv key.length mimeLen = some parameters ∧ (parameters.bad = true ↔
      key.map toLower = ascii "charset" ∧ ¬ (mimeLen = 13 ∧ (tail.take 5).map toLower = ascii "utf-8")) := by
  have pair : ¬ (key.length = 0 ∨ extkv.bytes[key.length]? ≠ some 61) := by simp [split, nonempty]
  have compared (literal : String) :
      strncasecmp2ltr extkv 0 literal key.length = some (decide (key.map toLower = ascii literal)) :=
    strncasecmp2ltr_window extkv [] key (61 :: tail) literal (by simp [split])
  have inside : key.length + 1 ≤ extkv.length := by
    rw [CString.length, split, List.length_append, List.length_cons]
    omega
  have behind : (extkv.drop (key.length + 1)).bytes = tail := by
    change extkv.bytes.drop (key.length + 1) = tail
    rw [split, ← List.drop_drop, List.drop_left, List.drop_one, List.tail_cons]
  simp only [checkParameter, if_neg pair, compared, Option.bind_some, decide_eq_true_eq]
  by_cases charset : key.map toLower = ascii "charset"
  · have length : key.length = 7 := by
      rw [← List.length_map (f := toLower), charset]
      rfl
    have valueLen : sizeSub (sizeSub mimeLen key.length) 1 = mimeLen - 8 := by
      rw [length, sizeSub_eq (by omega) fits, sizeSub_eq (by omega) (by omega)]
      omega
    have five : (ascii "utf-8").length = 5 := rfl
    rw [if_pos charset, valueLen, strncasecmp2ltr, five, stringAt, if_pos inside]
    by_cases thirteen : mimeLen = 13
    · rw [if_neg (by omega)]
      refine ⟨_, rfl, ?_⟩
      simp [behind, thirteen, charset]
    · rw [if_pos (by omega)]
      exact ⟨_, rfl, by simp [thirteen, charset]⟩
  · rw [if_neg charset, stringAt, if_pos inside]
    by_cases boundary : key.map toLower = ascii "boundary"
    · rw [if_pos boundary]
      exact ⟨_, rfl, by simp [charset]⟩
    · rw [if_neg boundary]
      exact ⟨_, rfl, by simp [charset]⟩

theorem TypeParameter.key_split (p : TypeParameter) :
    ∃ spaces behind, p.after = spaces ++ behind ∧ (∀ c ∈ spaces, (ascii " =").contains c = true) ∧
      p.after.dropWhile (· == 32) = behind ∧ (∀ c ∈ behind, c = 32 ∨ c = 9) ∧ behind.head? ≠ some 32 ∧
      (p.Seen ↔ behind = []) := by
  refine ⟨p.after.takeWhile (· == 32), p.after.dropWhile (· == 32), List.takeWhile_append_dropWhile.symm, ?_, rfl, ?_,
    ?_, ?_⟩
  · intro c member
    have space : c = 32 := by simpa using List.mem_takeWhile_imp member
    rw [space]
    decide
  · intro c member
    exact p.blanks c (List.mem_append_right _ ((List.dropWhile_suffix _).subset member))
  · intro first
    have := List.head?_dropWhile_not (· == 32) p.after
    simp [first] at this
  · rw [List.dropWhile_eq_nil_iff]
    simp [TypeParameter.Seen]

theorem checkParameters_first (lawful : pcutils.Lawful) {front : Bytes} {p : TypeParameter} {tail : Bytes}
    (split : contentType.bytes = front ++ 59 :: (p.after ++ p.key ++ 61 :: tail)) (long : 8 ≤ front.length)
    (fits : front.length < 2 ^ 64) :
    ∃ parameters, checkParameters pcutils contentType front.length (front.length + 1) = some parameters ∧
      (parameters.bad = true ↔ p.Blocked ∨ (p.Seen ∧ p.IsCharset) ∧
        ¬ (front.length = 13 ∧ (tail.take 5).map toLower = ascii "utf-8")) := by
  have keyClean : ∀ c ∈ p.key, (ascii " =").contains c = false := fun c member => token_no_blank (p.token c member)
  have inside : front.length + 1 ≤ contentType.length := by
    rw [CString.length, split, List.length_append, List.length_cons]
    omega
  have text : (contentType.drop (front.length + 1)).bytes = p.after ++ p.key ++ 61 :: tail := by
    change contentType.bytes.drop (front.length + 1) = _
    rw [split, ← List.drop_drop, List.drop_left, List.drop_one, List.tail_cons]
  obtain ⟨spaces, behind, after, delimiters, dropped, blanks, notSpace, seen⟩ := p.key_split
  have start : spaces.length ≤ (contentType.drop (front.length + 1)).length := by
    rw [CString.length, text, after]
    simp
  have blocked : p.Blocked ↔ 32 ∈ behind := by rw [TypeParameter.Blocked, dropped]
  have key {rest : Bytes} (whole : (contentType.drop (front.length + 1)).bytes = spaces ++ rest) :
      ((contentType.drop (front.length + 1)).drop spaces.length).bytes = rest := by
    change (contentType.drop (front.length + 1)).bytes.drop spaces.length = rest
    rw [whole, List.drop_left]
  have textAt : stringAt contentType (front.length + 1) = some (contentType.drop (front.length + 1)) := if_pos inside
  have keyAt : stringAt (contentType.drop (front.length + 1)) spaces.length =
      some ((contentType.drop (front.length + 1)).drop spaces.length) := if_pos start
  simp only [checkParameters, textAt, Option.bind_some, lawful.getNextToken]
  by_cases space : 32 ∈ behind
  · -- The token ends at the space.
    obtain ⟨tabs, back, split', fresh⟩ := List.eq_append_cons_of_mem space
    have nonempty : tabs ≠ [] := by
      rintro rfl
      exact notSpace (by rw [split']; rfl)
    have clean : ∀ c ∈ tabs, (ascii " =").contains c = false := by
      intro c member
      rcases blanks c (by simp [split', member]) with rfl | rfl
      · exact absurd member fresh
      · decide
    have whole : (contentType.drop (front.length + 1)).bytes = spaces ++ tabs ++ 32 :: (back ++ p.key ++ 61 :: tail) := by
      rw [text, after, split']
      simp
    have found := key (whole.trans (List.append_assoc ..))
    rw [whole, nextToken_behind delimiters nonempty clean (by decide)]
    simp only [keyAt, Option.bind_some]
    rw [checkParameter, if_pos (.inr (by simp [found]))]
    exact ⟨_, rfl, by simp [blocked, space]⟩
  · have clean : ∀ c ∈ behind ++ p.key, (ascii " =").contains c = false := by
      intro c member
      rcases List.mem_append.1 member with blank | token
      · rcases blanks c blank with rfl | rfl
        · exact absurd blank space
        · decide
      · exact keyClean c token
    have nonempty : behind ++ p.key ≠ [] := by simp [p.nonempty]
    have whole : (contentType.drop (front.length + 1)).bytes = spaces ++ (behind ++ p.key) ++ 61 :: tail := by
      rw [text, after]
      simp
    have found := key (whole.trans (List.append_assoc ..))
    rw [whole, nextToken_behind delimiters nonempty clean (by decide)]
    simp only [keyAt, Option.bind_some]
    -- Without a space the token is the key, with the tabs in front of it.
    obtain ⟨parameters, checked, bad⟩ := checkParameter_key found nonempty long fits
    refine ⟨parameters, checked, bad.trans ?_⟩
    rw [or_iff_right (blocked.not.2 space), seen]
    refine and_congr_left' ?_
    constructor
    · intro lowered
      cases behind with
      | nil => exact ⟨rfl, lowered⟩
      | cons c behind =>
          -- The tab would be the first letter.
          have first := (List.cons.inj lowered).1
          rcases blanks c (by simp) with rfl | rfl
          · exact absurd rfl notSpace
          · exact absurd first (by decide)
    · intro charset
      rw [charset.1]
      exact charset.2

theorem checkPostContentType_bare (lawful : pcutils.Lawful) (noSemicolon : 59 ∉ mime.bytes) :
    checkPostContentType pcutils mime = if mime.length = 0 then some ⟨.bad, none, []⟩
      else (checkType pcutils mime mime.length).map fun ct => ⟨ct, none, []⟩ := by
  have front : nextToken (ascii ";").contains mime.bytes = (0, mime.length) :=
    nextToken_whole (clean_of_not_mem noSemicolon)
  simp [checkPostContentType, lawful.getNextToken, front, stringAt_zero]

structure SupportedMedia (mime : Bytes) (ct : PostContentType) where
  type : Bytes
  subtype : Bytes
  split : mime = type ++ 47 :: subtype
  nonempty : type ≠ []
  noSlash : 47 ∉ type
  code : mediaCode type subtype = ct
  supported : ct.refused = false

theorem supportedMedia (lawful : pcutils.Lawful) {ct : PostContentType} (noSemicolon : 59 ∉ mime.bytes)
    (check : (checkPostContentType pcutils mime).map Checked.ct = some ct) (supported : ct.refused = false)
    (fits : mime.length < 2 ^ 64) : Nonempty (SupportedMedia mime.bytes ct) := by
  rw [checkPostContentType_bare lawful noSemicolon] at check
  by_cases nothing : mime.length = 0
  · rw [if_pos nothing, Option.map_some, Option.some.injEq] at check
    rw [← check] at supported
    exact absurd supported (by decide)
  · rw [if_neg nothing, Option.map_map] at check
    obtain ⟨ct', checkedType, rfl⟩ := Option.map_eq_some_iff.1 check
    obtain ⟨t, u, split, nonempty, noSlash, code⟩ := supported_split lawful checkedType supported fits
    exact ⟨⟨t, u, split, nonempty, noSlash, code, supported⟩⟩

namespace SupportedMedia
variable {ct : PostContentType}

theorem length (media : SupportedMedia mime.bytes ct) : 8 ≤ mime.length ∧ mime.length ≠ 13 := by
  have known := mediaCode_supported (media.code.symm ▸ media.supported)
  have lengths : ∀ pair ∈ [(ascii "application", ascii "x-www-form-urlencoded"), (ascii "application", ascii "json"),
      (ascii "multipart", ascii "form-data"), (ascii "text", ascii "xml"), (ascii "text", ascii "plain")],
      8 ≤ pair.1.length + 1 + pair.2.length ∧ pair.1.length + 1 + pair.2.length ≠ 13 := by
    decide
  have long := lengths _ known
  rw [List.length_map, List.length_map] at long
  rw [CString.length, media.split, List.length_append, List.length_cons]
  omega

theorem code_blanks (media : SupportedMedia mime.bytes ct) {blanks : Bytes} (blank : ∀ c ∈ blanks, c = 32 ∨ c = 9) :
    mediaCode media.type (media.subtype ++ blanks) = if blanks = [] then ct else .notSupported := by
  cases blanks with
  | nil => rw [List.append_nil, if_pos rfl, media.code]
  | cons c blanks =>
      rw [if_neg (List.cons_ne_nil _ _)]
      apply mediaCode_notSupported
      by_contra accepted
      have known := mediaCode_supported (Bool.eq_false_iff.2 accepted)
      have clean : ∀ pair ∈ [(ascii "application", ascii "x-www-form-urlencoded"), (ascii "application", ascii "json"),
          (ascii "multipart", ascii "form-data"), (ascii "text", ascii "xml"), (ascii "text", ascii "plain")],
          32 ∉ pair.2 ∧ 9 ∉ pair.2 := by
        decide
      have none := clean _ known
      rcases blank c List.mem_cons_self with rfl | rfl
      · exact none.1 (by simp [toLower])
      · exact none.2 (by simp [toLower])

theorem checkType_front (media : SupportedMedia mime.bytes ct) (lawful : pcutils.Lawful) {blanks rest : Bytes}
    (split : contentType.bytes = mime.bytes ++ blanks ++ rest) (blank : ∀ c ∈ blanks, c = 32 ∨ c = 9)
    (fits : contentType.length < 2 ^ 64) :
    checkType pcutils contentType (mime.bytes ++ blanks).length = some (if blanks = [] then ct else .notSupported) := by
  have front : mime.bytes ++ blanks = media.type ++ 47 :: (media.subtype ++ blanks) := by
    calc
      mime.bytes ++ blanks = media.type ++ 47 :: media.subtype ++ blanks := congrArg (· ++ blanks) media.split
      _ = media.type ++ 47 :: (media.subtype ++ blanks) := by simp
  rw [front] at split ⊢
  rw [checkType_eq lawful split media.nonempty media.noSlash fits, media.code_blanks blank]

end SupportedMedia

theorem lengthsFit (lawful : pcutils.Lawful) {front : Bytes}
    (token : nextToken (ascii ";").contains contentType.bytes = (0, front.length)) (long : 8 ≤ front.length) :
    LengthsFit pcutils contentType where
  value := by
    intro start mimeLen text key extkv found _ _ _ charset
    rw [lawful.getNextToken, token] at found
    have length := strncasecmp2ltr_length charset
    have seven : (ascii "charset").length = 7 := rfl
    rw [← (Prod.mk.inj found).2]
    omega
  subtype := by
    intro start mimeLen mime type typeLen _ _ found _ partial'
    rw [lawful.getNextTokenLen] at found
    obtain ⟨skipped, word, rest, whole, next, -, -⟩ := nextToken_split (ascii "/").contains (mime.bytes.take mimeLen)
    obtain ⟨-, rfl⟩ := Prod.mk.inj (next.symm.trans found)
    have length := congrArg List.length whole
    rw [List.length_take, List.length_append, List.length_append] at length
    omega

theorem checkPostContentType_parameters (lawful : pcutils.Lawful) {ct : PostContentType}
    (media : SupportedMedia mime.bytes ct) (noSemicolon : 59 ∉ mime.bytes) {p : TypeParameter}
    {rest : List TypeParameter} (whole : contentType.bytes = mime.bytes ++ parametersText (p :: rest))
    (fits : contentType.length < 2 ^ 64) :
    ∃ checked, checkPostContentType pcutils contentType = some checked ∧
      (FirstRefused mime.bytes p rest → checked.ct = .bad) ∧
      (¬ FirstRefused mime.bytes p rest → checked.ct = if p.before = [] then ct else .notSupported) ∧
      LengthsFit pcutils contentType := by
  have before : ∀ c ∈ p.before, c = 32 ∨ c = 9 := fun c member => p.blanks c (List.mem_append_left _ member)
  have split : contentType.bytes = (mime.bytes ++ p.before) ++
      59 :: (p.after ++ p.key ++ 61 :: (p.value ++ parametersText rest)) := by
    rw [whole, parametersText, List.flatMap_cons, MimeParameter.text, parametersText]
    simp
  have long : 8 ≤ (mime.bytes ++ p.before).length := by
    have := media.length
    rw [CString.length] at this
    rw [List.length_append]
    omega
  have nonempty : mime.bytes ++ p.before ≠ [] := by
    intro empty
    rw [empty] at long
    simp at long
  have clean : 59 ∉ mime.bytes ++ p.before := by
    rw [List.mem_append, not_or]
    exact ⟨noSemicolon, fun member => absurd (before 59 member) (by decide)⟩
  have shorter : (mime.bytes ++ p.before).length < contentType.length := by
    have length := congrArg List.length split
    rw [List.length_append, List.length_cons] at length
    rw [CString.length]
    omega
  have token : nextToken (ascii ";").contains contentType.bytes = (0, (mime.bytes ++ p.before).length) := by
    rw [split]
    exact nextToken_front nonempty (clean_of_not_mem clean) (by decide)
  obtain ⟨parameters, checked, bad⟩ := checkParameters_first lawful split long (by omega)
  have refused : parameters.bad = true ↔ FirstRefused mime.bytes p rest := by
    rw [bad, List.length_append, FirstRefused]
  have type := media.checkType_front lawful split before fits
  simp only [checkPostContentType, lawful.getNextToken, token, List.length_eq_zero_iff, nonempty, if_false, shorter, if_true,
    Nat.zero_add, stringAt_zero, Option.bind_some, checked, type, Option.map_some]
  by_cases first : FirstRefused mime.bytes p rest
  · rw [if_pos (refused.2 first)]
    exact ⟨_, rfl, fun _ => rfl, fun other => absurd first other, lengthsFit lawful token long⟩
  · rw [if_neg (refused.not.2 first)]
    exact ⟨_, rfl, fun refused => absurd refused first, fun _ => rfl, lengthsFit lawful token long⟩

/-- A header has the type that it stands for exactly where its parameters do no harm: a charset that stands
first is always refused. -/
theorem classifies_iff (pcutils : Pcutils) (lawful : pcutils.Lawful) (mime contentType : CString) (ct : PostContentType)
    (parameters : List TypeParameter) (noSemicolon : 59 ∉ mime.bytes)
    (check : (checkPostContentType pcutils mime).map Checked.ct = some ct) (supported : ct.refused = false)
    (whole : contentType.bytes = mime.bytes ++ parametersText parameters) (fits : contentType.length < 2 ^ 64) :
    Classifies pcutils contentType ct parameters ↔ Harmless mime.bytes parameters := by
  have shorter : mime.length ≤ contentType.length := by
    rw [CString.length, CString.length, whole, List.length_append]
    omega
  obtain ⟨media⟩ := supportedMedia lawful noSemicolon check supported (by omega)
  have good : ct ≠ .bad := by
    rintro rfl
    exact absurd supported (by decide)
  cases parameters with
  | nil =>
      obtain rfl : contentType = mime := CString.ext (by rw [whole]; exact List.append_nil _)
      have fit := lengthsFit lawful (nextToken_whole (clean_of_not_mem noSemicolon)) media.length.1
      simp [Classifies, Harmless, classified, check, fit]
  | cons p rest =>
      obtain ⟨checked, found, refused, passed, fit⟩ := checkPostContentType_parameters lawful media noSemicolon whole fits
      simp only [Classifies, found, Option.map_some, Option.some.injEq, fit, and_true, Harmless, classified]
      by_cases other : ∃ q ∈ p :: rest, q.OtherCharset
      · rw [if_pos other, if_pos other]
        refine ⟨?_, refused⟩
        intro bad
        by_contra first
        rw [passed first] at bad
        split_ifs at bad
        exact good bad
      · rw [if_neg other, if_neg other]
        constructor
        · intro same
          have first : ¬ FirstRefused mime.bytes p rest := fun first => good (same ▸ refused first)
          have bare : p.before = [] := by
            by_contra blanks
            rw [passed first, if_neg blanks] at same
            rw [← same] at supported
            exact absurd supported (by decide)
          refine ⟨bare, fun blocked => first (.inl blocked), fun charset => first (.inr ⟨charset, ?_⟩)⟩
          rw [bare]
          exact fun thirteen => media.length.2 thirteen.1
        · rintro ⟨bare, open', charset⟩
          rw [passed (fun first => first.elim open' fun refused => charset refused.1), if_pos bare]

end Header

def utf8Charset : TypeParameter where
  before := []
  after := []
  key := ascii "charset"
  value := ascii "UTF-8"
  blanks := by simp
  nonempty := by decide
  token := by decide +kernel
  oneLine := by decide
  content := ascii "UTF-8"
  spelled := .inl ⟨rfl, by decide, by decide +kernel⟩

theorem utf8Charset_classifies_iff :
    Classifies purcScanners (.lit "text/plain;charset=UTF-8") .plain [utf8Charset] ↔
      Harmless (CString.lit "text/plain").bytes [utf8Charset] :=
  classifies_iff purcScanners purcScanners_lawful (.lit "text/plain") (.lit "text/plain;charset=UTF-8") .plain [utf8Charset]
    (by decide +kernel) (by decide +kernel) rfl (by decide +kernel) (by decide +kernel)

theorem utf8_charset_refused :
    (checkPostContentType purcScanners (.lit "text/plain")).map Checked.ct = some .plain ∧
      (CString.lit "text/plain;charset=UTF-8").bytes = (CString.lit "text/plain").bytes ++ parametersText [utf8Charset] ∧
      classified .plain [utf8Charset] = .plain ∧
      (checkPostContentType purcScanners (.lit "text/plain;charset=UTF-8")).map Checked.ct = some .bad ∧
      ¬ Classifies purcScanners (.lit "text/plain;charset=UTF-8") .plain [utf8Charset] := by
  have stands : classified .plain [utf8Charset] = .plain := by decide +kernel
  have bad : (checkPostContentType purcScanners (.lit "text/plain;charset=UTF-8")).map Checked.ct = some .bad := by
    decide +kernel
  refine ⟨by decide +kernel, by decide +kernel, stands, bad, ?_⟩
  intro same
  rw [Classifies, bad, stands] at same
  exact absurd same.1 (by decide)

end HvmlFpm.Request
