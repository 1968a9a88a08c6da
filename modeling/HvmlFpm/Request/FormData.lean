import HvmlFpm.Multipart.Opening
import HvmlFpm.Multipart.Reading
import HvmlFpm.Request.MakeRequest

/-!
# Form data as it is sent

The header and the body of a `multipart/form-data` request as MIME has them: the delimiter lines of the
body are `--` and the boundary of the header. `make_request` hands the boundary on as it stands.
-/

namespace HvmlFpm.Request
open Library Multipart

def isLetter (c : UInt8) : Bool := (65 ≤ c && c ≤ 90) || (97 ≤ c && c ≤ 122)

def isBoundaryByte (c : UInt8) : Bool := isLetter c || isDigit c || (ascii "'()+_,-./:=? ").contains c

def isTokenByte (c : UInt8) : Bool :=
  33 ≤ c && c ≤ 126 && !(ascii "()<>@,;:\\\"/[]?=").contains c

structure MimeBoundary where
  bytes : Bytes
  nonempty : bytes ≠ []
  short : bytes.length ≤ 70
  allowed : ∀ c ∈ bytes, isBoundaryByte c = true
  noFinalSpace : bytes.getLast? ≠ some 32

/-- A parameter of the header with the `;` before it; `value` is what stands behind `=`, quotes
included. -/
structure MimeParameter where
  before : Bytes
  after : Bytes
  key : Bytes
  value : Bytes
  blanks : ∀ c ∈ before ++ after, c = 32 ∨ c = 9
  nonempty : key ≠ []
  token : ∀ c ∈ key, isTokenByte c = true
  oneLine : CR ∉ value

def MimeParameter.text (p : MimeParameter) : Bytes :=
  p.before ++ 59 :: p.after ++ p.key ++ 61 :: p.value

def MimeParameter.Names (p : MimeParameter) (b : MimeBoundary) : Prop :=
  p.key.map toLower = ascii "boundary" ∧ (p.value = b.bytes ∨ p.value = 34 :: b.bytes ++ [34])

def SpellsFormData (b : MimeBoundary) (contentType : CString) : Prop :=
  ∃ (mime : Bytes) (parameters : List MimeParameter), contentType.bytes = mime ++ parameters.flatMap MimeParameter.text ∧
    mime.map toLower = ascii "multipart/form-data" ∧ ∃ p ∈ parameters, p.Names b

/-- A part of a form; one without a file name is a text field. -/
structure FormPart where
  name : CString
  filename : Option CString
  contentType : Option CString
  content : Bytes

def crlf : Bytes := [CR, LF]

def FormPart.text (part : FormPart) : Bytes :=
  ascii "Content-Disposition: form-data; name=\"" ++ part.name.bytes ++ ascii "\"" ++
    (part.filename.elim [] fun filename => ascii "; filename=\"" ++ filename.bytes ++ ascii "\"") ++ crlf ++
    (part.contentType.elim [] fun type => ascii "Content-Type: " ++ type.bytes ++ crlf) ++ crlf ++ part.content

def MimeBoundary.dashed (b : MimeBoundary) : Bytes := ascii "--" ++ b.bytes

def formBody (b : MimeBoundary) (parts : List FormPart) : Bytes :=
  parts.flatMap (fun part => b.dashed ++ crlf ++ part.text ++ crlf) ++ b.dashed ++ ascii "--"

structure WellFormed (isUtf8 : CString → Bool) (b : MimeBoundary) (parts : List FormPart) : Prop where
  names : ∀ part ∈ parts, part.name ≠ .empty ∧ ∀ c ∈ part.name.bytes, isLetter c = true ∨ isDigit c = true
  distinct : (parts.map FormPart.name).Nodup
  text : ∀ part ∈ parts, part.filename = none → 0 ∉ part.content ∧ isUtf8 (.ofBuffer part.content) = true
  delimited : ∀ part ∈ parts, ¬ crlf ++ b.dashed <:+: part.content
  field : ∃ part ∈ parts, part.filename = none

def HoldsFields {Vdom : Type} (made : Making Vdom) (parts : List FormPart) : Prop :=
  ∃ req obj, made = .ok req ∧ req.info.post = some (.object obj) ∧
    ∀ part ∈ parts, part.filename = none → obj part.name = some (.string (.ofBuffer part.content))

section Header
variable {b : MimeBoundary} {contentType x : CString} {checked : Checked}

theorem toLower_eq_slash {c : UInt8} (same : toLower c = 47) : c = 47 := by
  unfold toLower at same
  grind

theorem checkType_multipart {pcutils : Pcutils} (lawful : pcutils.Lawful) {mime : CString} {mimeLen : Nat}
    {ct : PostContentType} (start : Nat) (token : nextToken (ascii "/").contains (mime.bytes.take mimeLen) = (start, 9))
    (check : checkType pcutils mime mimeLen = some ct) : ct = .formData ∨ ct.refused = true := by
  simp only [checkType, lawful.getNextTokenLen, token] at check
  by_cases whole : 9 = 0 ∨ 9 = mimeLen
  · rw [if_pos whole, Option.some.injEq] at check
    exact .inr (check ▸ rfl)
  rw [if_neg whole] at check
  have application : strncasecmp2ltr mime start "application" 9 = some false := rfl
  have text : strncasecmp2ltr mime start "text" 9 = some false := rfl
  simp only [application, text, Option.bind_some, Bool.false_eq_true, if_false] at check
  obtain ⟨multipart, -, check⟩ := Option.bind_eq_some_iff.1 check
  obtain ⟨formData, -, check⟩ := Option.bind_eq_some_iff.1 check
  cases formData with
  | true => exact .inl (by simpa using check.symm)
  | false => exact .inr (by rw [← Option.some.inj check]; rfl)

theorem SpellsFormData.split (spelled : SpellsFormData b contentType) :
    ∃ (mime : Bytes) (first : MimeParameter) (rest : List MimeParameter),
      contentType.bytes = (mime ++ first.before) ++
        59 :: (first.after ++ first.key ++ 61 :: (first.value ++ rest.flatMap MimeParameter.text)) ∧
      mime.map toLower = ascii "multipart/form-data" ∧ ∃ p ∈ first :: rest, p.Names b := by
  obtain ⟨mime, parameters, header, type, p, member, names⟩ := spelled
  cases parameters with
  | nil => simp at member
  | cons first rest =>
      refine ⟨mime, first, rest, ?_, type, p, member, names⟩
      rw [header, List.flatMap_cons, MimeParameter.text]
      simp

theorem mime_split {mime : Bytes} (type : mime.map toLower = ascii "multipart/form-data") :
    ∃ t u, mime = t ++ 47 :: u ∧ t.length = 9 ∧ 47 ∉ t ∧ 59 ∉ mime := by
  have whole : ascii "multipart/form-data" = ascii "multipart" ++ 47 :: ascii "form-data" := rfl
  rw [whole, List.map_eq_append_iff] at type
  obtain ⟨t, rest, rfl, front, behind⟩ := type
  obtain ⟨c, u, rfl, slash, tail⟩ := List.map_eq_cons_iff.1 behind
  obtain rfl := toLower_eq_slash slash
  refine ⟨t, u, rfl, ?_, ?_, ?_⟩
  · rw [← List.length_map (f := toLower), front]
    rfl
  · intro member
    have lowered := List.mem_map_of_mem (f := toLower) member
    rw [front] at lowered
    exact absurd lowered (by decide)
  · intro member
    have lowered := List.mem_map_of_mem (f := toLower) member
    rw [List.map_append, List.map_cons, front, tail] at lowered
    exact absurd lowered (by decide)

theorem before_clean (p : MimeParameter) {c : UInt8} (member : c ∈ p.before ++ p.after) : c ≠ 59 ∧ c ≠ 61 := by
  rcases p.blanks c member with rfl | rfl
  all_goals decide

theorem token_no_blank {c : UInt8} (token : isTokenByte c = true) : (ascii " =").contains c = false := by
  by_contra blank
  rw [Bool.not_eq_false, List.contains_iff_mem] at blank
  change c ∈ [32, 61] at blank
  rcases List.mem_pair.1 blank with rfl | rfl
  all_goals exact absurd token (by decide)

theorem text_oneLine (p : MimeParameter) : CR ∉ p.text := by
  have blanks : CR ∉ p.before ++ p.after := fun member => absurd (p.blanks CR member) (by decide)
  have key : CR ∉ p.key := fun member => absurd (p.token CR member) (by decide)
  simp only [List.mem_append, not_or] at blanks
  rw [MimeParameter.text]
  simp only [List.mem_append, List.mem_cons, not_or]
  exact ⟨⟨⟨blanks.1, by decide, blanks.2⟩, key⟩, by decide, p.oneLine⟩

theorem boundary_ne_dashed {first : MimeParameter} {rest : List MimeParameter}
    (names : ∃ p ∈ first :: rest, p.Names b) : first.value ++ rest.flatMap MimeParameter.text ≠ b.dashed := by
  intro same
  have noSemicolon : 59 ∉ b.dashed := by
    rw [MimeBoundary.dashed, List.mem_append]
    rintro (dash | member)
    · exact absurd dash (by decide)
    · exact absurd (b.allowed 59 member) (by decide)
  cases rest with
  | cons p rest =>
      apply noSemicolon
      rw [← same]
      simp [MimeParameter.text]
  | nil =>
      rw [List.flatMap_nil, List.append_nil, MimeBoundary.dashed] at same
      obtain ⟨p, member, -, bare | quoted⟩ := names
      · obtain rfl := List.mem_singleton.1 member
        rw [bare] at same
        have longer := congrArg List.length same
        simp [ascii] at longer
        omega
      · obtain rfl := List.mem_singleton.1 member
        rw [quoted] at same
        exact absurd (List.cons.inj same).1 (by decide)

theorem checkPostContentType_spelled {pcutils : Pcutils} (lawful : pcutils.Lawful)
    (spelled : SpellsFormData b contentType) (check : checkPostContentType pcutils contentType = some checked) :
    (checked.ct = .formData ∨ checked.ct.refused = true) ∧
      ∀ x, checked.boundary = some x → CR ∉ x.bytes ∧ x.bytes ≠ b.dashed := by
  obtain ⟨mime, first, rest, header, type, names⟩ := spelled.split
  obtain ⟨t, u, mimeSplit, length, noSlash, noSemicolon⟩ := mime_split type
  have front : mime ++ first.before ≠ [] := by simp [mimeSplit]
  have clean : 59 ∉ mime ++ first.before := by
    rw [List.mem_append, not_or]
    exact ⟨noSemicolon, fun member => (before_clean first (List.mem_append_left _ member)).1 rfl⟩
  constructor
  · obtain ⟨-, -, -, bad | type⟩ := checkPostContentType_split lawful check header front clean
    · exact .inr (bad ▸ rfl)
    · apply checkType_multipart lawful 0 ?_ type
      rw [header, List.take_left, mimeSplit, List.append_assoc, List.cons_append, ← length]
      exact nextToken_front (by rintro rfl; simp at length) (clean_of_not_mem noSlash) (by decide)
  · intro x boundary
    obtain ⟨skipped, key, split, skips, keyClean, lowered⟩ :=
      checkPostContentType_boundary lawful check boundary header front clean
    have keyBytes : ∀ c ∈ first.key, (ascii " =").contains c = false := fun c member =>
      token_no_blank (first.token c member)
    have noEqualsFirst : 61 ∉ first.after ++ first.key := by
      rw [List.mem_append, not_or]
      exact ⟨fun member => (before_clean first (List.mem_append_right _ member)).2 rfl,
        fun member => absurd (keyBytes 61 member) (by decide)⟩
    have noEquals : 61 ∉ skipped ++ key := by
      rw [List.mem_append, not_or]
      refine ⟨?_, fun member => absurd (keyClean 61 member) (by decide)⟩
      -- The key of the first parameter would be among what is skipped.
      intro member
      obtain ⟨s₁, s₂, skippedSplit, fresh⟩ := List.eq_append_cons_of_mem member
      have split' : first.after ++ first.key ++ 61 :: (first.value ++ rest.flatMap MimeParameter.text) =
          s₁ ++ 61 :: (s₂ ++ key ++ 61 :: x.bytes) := by
        rw [split, skippedSplit]
        simp
      obtain ⟨same, -⟩ := append_cons_inj split' noEqualsFirst fresh
      obtain ⟨c, tail, nonempty⟩ := List.exists_cons_of_ne_nil first.nonempty
      have among : c ∈ s₁ := by simp [← same, nonempty]
      have blank := skips c (by simp [skippedSplit, among])
      rw [keyBytes c (by simp [nonempty])] at blank
      cases blank
    rw [← (append_cons_inj split noEqualsFirst noEquals).2]
    refine ⟨?_, boundary_ne_dashed names⟩
    rw [List.mem_append, not_or]
    refine ⟨first.oneLine, ?_⟩
    intro member
    obtain ⟨p, -, inside⟩ := List.mem_flatMap.1 member
    exact text_oneLine p inside

end Header

/-! ## The body -/

theorem MimeBoundary.dashed_oneLine (b : MimeBoundary) : CR ∉ b.dashed := by
  rw [MimeBoundary.dashed, List.mem_append]
  rintro (dash | member)
  · exact absurd dash (by decide)
  · exact absurd (b.allowed CR member) (by decide)

theorem formBody_begins {b : MimeBoundary} {parts : List FormPart} (nonempty : parts ≠ []) (behind : Bytes) :
    b.dashed ++ crlf <+: formBody b parts ++ behind := by
  obtain ⟨part, rest, rfl⟩ := List.exists_cons_of_ne_nil nonempty
  simp [formBody]

theorem body_not_opened {b : MimeBoundary} {body : Bytes} {x : CString} (begins : b.dashed ++ crlf <+: body)
    (oneLine : CR ∉ x.bytes) (other : x.bytes ≠ b.dashed) : ¬ opening x <+: body := by
  rintro ⟨behind, whole⟩
  obtain ⟨rest, rfl⟩ := begins
  apply other
  have split : x.bytes ++ CR :: (LF :: behind) = b.dashed ++ CR :: (LF :: rest) := by
    simpa [opening, crlf] using whole
  exact (append_cons_inj split oneLine b.dashed_oneLine).1

section Request
variable {Vdom : Type} {host : RequestHost Vdom} {input : Input} {req req' : Draft Vdom}

def NoFields (post : Option Variant) : Prop := post = none ∨ post = some (.object Members.empty)

theorem decodeFormData_noFields {contentLength : Nat} {boundary : CString}
    (differs : ¬ opening boundary <+: input.stdin)
    (decode : decodeFormData host input contentLength boundary req = .ok req') : NoFields req'.info.post := by
  have follows := parse_follows host.toHost contentLength boundary input.stdin
  have untouched := executeChunks_unopened (settings host.toHost) (reads input.stdin) Session.init
    ((flatten_reads input.stdin).symm ▸ differs)
  have parsed : ∃ decoded : Decoded, decoded.Of Session.init ∧
      parseContentAsMultipartFormData host.toHost contentLength boundary input.stdin = .ok decoded := by
    cases run : executeChunks (settings host.toHost) (reads input.stdin) (multipartParserInit boundary, .init) with
    | ok r =>
        rw [run] at follows untouched
        obtain ⟨decoded, of, parse⟩ := follows
        exact ⟨decoded, untouched ▸ of, parse⟩
    | fail left =>
        rw [run] at follows untouched
        obtain ⟨decoded, of, parse⟩ := follows
        exact ⟨decoded, untouched ▸ of, parse⟩
    | stop why left =>
        rw [run] at untouched
        exact untouched.elim
  obtain ⟨decoded, of, parse⟩ := parsed
  simp only [decodeFormData, parse, Outcome.ok.injEq] at decode
  right
  rw [← decode, of.1]
  rfl

theorem readGet_post {server : Members} (read : readGet host server req = .ok req') :
    req'.info.post = req.info.post := by
  rw [readGet] at read
  cases query : getStringConst (server (.lit "QUERY_STRING")) with
  | none =>
      simp only [query, Outcome.ok.injEq] at read
      rw [read]
  | some text =>
      cases get : host.makeObjectFromQueryString text with
      | none => simp [query, get, failed] at read
      | some obj =>
          simp only [query, get, Outcome.ok.injEq] at read
          rw [← read]

section Posted
variable {server : Members} {b : MimeBoundary} {contentType : CString}
  (lawful : host.pcutils.Lawful) (spelled : SpellsFormData b contentType)
  (begins : b.dashed ++ crlf <+: input.stdin)
  (type : getStringConst (server (.lit "CONTENT_TYPE")) = some contentType) (noPost : req.info.post = none)
include lawful spelled begins type noPost

theorem readPost_noFields (read : readPost host input server req = .ok req') : NoFields req'.info.post := by
  simp only [readPost, type] at read
  split_ifs at read with positive
  · cases check : checkPostContentType host.pcutils contentType with
    | none => simp [check] at read
    | some checked =>
        simp only [check] at read
        split_ifs at read with refused
        · cases read
        · obtain ⟨ct, boundaries⟩ := checkPostContentType_spelled lawful spelled check
          rw [decodeBody, ct.resolve_right refused] at read
          cases boundary : checked.boundary with
          | none => simp [boundary, failed] at read
          | some x =>
              simp only [boundary] at read
              obtain ⟨oneLine, other⟩ := boundaries x boundary
              exact decodeFormData_noFields (body_not_opened begins oneLine other) read
  · obtain rfl := Outcome.ok.inj read
    exact .inl noPost

theorem readMethod_noFields (read : readMethod host input server req = .ok req') : NoFields req'.info.post := by
  rw [readMethod] at read
  cases method : getStringConst (server (.lit "REQUEST_METHOD")) with
  | none => simp [method] at read
  | some text =>
      simp only [method] at read
      split_ifs at read with isGet isPost
      · exact .inl ((readGet_post read).trans noPost)
      · exact readPost_noFields lawful spelled begins type noPost read
      · obtain rfl := Outcome.ok.inj read
        exact .inl noPost

end Posted

/-- The boundary of the header never opens a body that begins with the first delimiter line, whatever
follows there: no form is ever read. -/
theorem form_fields_never_held (host : RequestHost Vdom) (lawful : host.pcutils.Lawful) (input : Input)
    (b : MimeBoundary) (parts : List FormPart) (contentType : CString)
    (spelled : SpellsFormData b contentType) (formed : WellFormed host.purc.isUtf8 b parts)
    (header : input.environ (.lit "CONTENT_TYPE") = some contentType)
    (begins : b.dashed ++ crlf <+: input.stdin) : ¬ HoldsFields (makeRequest host input) parts := by
  rintro ⟨req, obj, made, post, holds⟩
  obtain ⟨part, member, field⟩ := formed.field
  obtain ⟨server, decoded, cookie, vdom, set, decode, filled, rfl, rfl⟩ := makeRequest_ok made
  have type : getStringConst (server (.lit "CONTENT_TYPE")) = some contentType := by
    rw [getStringConst_metaVar set (by decide +kernel), header]
  have nothing := readMethod_noFields lawful spelled begins type rfl decode
  have filled : (fillIn { decoded with info := { decoded.info with cookie := cookie } }).info.post =
      some (.object Members.empty) := by
    rw [fillIn]
    rcases nothing with none | empty
    · rw [none]
      rfl
    · rw [empty]
      rfl
  have same := filled.symm.trans post
  have held := holds part member field
  rw [← Variant.object.inj (Option.some.inj same)] at held
  cases held

end Request

def boundaryX : MimeBoundary := ⟨ascii "X", by decide +kernel, by decide +kernel, by decide +kernel, by decide +kernel⟩

def cityParts : List FormPart := [⟨.lit "city", none, none, ascii "Beijing"⟩]

def cityForm : Input where
  environ name :=
    if name = .lit "REQUEST_METHOD" then some (.lit "POST")
    else if name = .lit "CONTENT_LENGTH" then some (.lit "66")
    else if name = .lit "CONTENT_TYPE" then some (.lit "multipart/form-data; boundary=X")
    else none
  fcgiStdin := formBody boundaryX cityParts
  stdin := formBody boundaryX cityParts

theorem cityForm_spelled : SpellsFormData boundaryX (.lit "multipart/form-data; boundary=X") := by
  let p : MimeParameter :=
    ⟨[], [32], ascii "boundary", ascii "X", by decide +kernel, by decide +kernel, by decide +kernel, by decide +kernel⟩
  exact ⟨ascii "multipart/form-data", [p], by decide +kernel, by decide +kernel, p, by simp, by decide +kernel, .inl rfl⟩

theorem cityForm_wellFormed : WellFormed (scriptHost (some ())).purc.isUtf8 boundaryX cityParts where
  names := by decide +kernel
  distinct := by decide +kernel
  text := by
    intro part member _
    obtain rfl := List.mem_singleton.1 member
    exact ⟨by decide, rfl⟩
  delimited := by decide +kernel
  field := ⟨_, List.mem_cons_self, rfl⟩

theorem cityForm_fields_never_held : ¬ HoldsFields (makeRequest (scriptHost (some ())) cityForm) cityParts := by
  have begins : boundaryX.dashed ++ crlf <+: cityForm.stdin := by
    rw [← List.append_nil cityForm.stdin]
    exact formBody_begins (List.cons_ne_nil _ _) []
  exact form_fields_never_held (scriptHost (some ())) purcScanners_lawful cityForm boundaryX cityParts
    (.lit "multipart/form-data; boundary=X") cityForm_spelled cityForm_wellFormed (by decide +kernel) begins

theorem cityForm_field_lost :
    SpellsFormData boundaryX (.lit "multipart/form-data; boundary=X") ∧
      WellFormed (scriptHost (some ())).purc.isUtf8 boundaryX cityParts ∧
      cityForm.environ (.lit "CONTENT_TYPE") = some (.lit "multipart/form-data; boundary=X") ∧
      cityForm.stdin = formBody boundaryX cityParts ∧
      ¬ HoldsFields (makeRequest (scriptHost (some ())) cityForm) cityParts := by
  refine ⟨cityForm_spelled, cityForm_wellFormed, by decide +kernel, rfl, ?_⟩
  rintro ⟨req, obj, made, post, holds⟩
  have held := holds ⟨.lit "city", none, none, ascii "Beijing"⟩ (by simp [cityParts]) rfl
  have lost : ((makeRequest (scriptHost (some ())) cityForm).result?.bind fun req =>
      req.info.post.map fun v => (v.member (.lit "city")).isSome) = some false := by
    decide +kernel
  simp [made, Outcome.result?, post, Variant.member, held] at lost
end HvmlFpm.Request
