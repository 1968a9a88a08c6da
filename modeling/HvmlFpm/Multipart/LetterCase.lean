import Mathlib.Logic.Relation
import HvmlFpm.Multipart.FirstPart
import HvmlFpm.Multipart.Reading
import HvmlFpm.Request.ContentType

/-!
# Letter case in part headers

The parser takes the names in part headers in either case. The processor looks them up byte by byte.
-/

namespace HvmlFpm.Multipart
open Library
open Request (toLower)
open Relation (ReflTransGen)
variable {boundary : CString}

def SameLetters (x y : Bytes) : Prop := x.map toLower = y.map toLower

instance (x y : Bytes) : Decidable (SameLetters x y) := inferInstanceAs (Decidable (_ = _))

inductive Quoting
  | outside | inside | escaped

def Quoting.next : Quoting → UInt8 → Quoting
  | .outside, c => if c = 34 then .inside else .outside
  | .inside, c => if c = 34 then .outside else if c = 92 then .escaped else .inside
  | .escaped, _ => .inside

def Unquoted (x : Bytes) : Prop := x.foldl Quoting.next .outside = .outside

def isBlank (c : UInt8) : Bool := c == 32 || c == 9

/-- What stands in front of a word that means the same in either case, the word, and what stands behind it. -/
inductive CaselessWord (boundary : CString) : Bytes → Bytes → Bytes → Prop
  | fieldName {x name : Bytes} (y : Bytes) (line : Reaches (multipartParserInit boundary) x .headerFieldStart)
      (letters : ∀ c ∈ name, isHeaderNameByte c = true) : CaselessWord boundary x name (58 :: y)
  | dispositionType {x name blanks word : Bytes} {c : UInt8} (y : Bytes)
      (line : Reaches (multipartParserInit boundary) x .headerFieldStart)
      (header : SameLetters name (ascii "Content-Disposition")) (blank : ∀ c ∈ blanks, isBlank c = true)
      (formData : SameLetters word (ascii "form-data")) (ends : c = 59 ∨ c = CR ∨ isBlank c = true) :
      CaselessWord boundary (x ++ name ++ 58 :: blanks) word (c :: y)
  | attributeName {x name front blanks word blanks' : Bytes} (y : Bytes)
      (line : Reaches (multipartParserInit boundary) x .headerFieldStart)
      (header : SameLetters name (ascii "Content-Disposition")) (noCR : CR ∉ front) (unquoted : Unquoted front)
      (blank : ∀ c ∈ blanks, isBlank c = true)
      (named : SameLetters word (ascii "name") ∨ SameLetters word (ascii "filename"))
      (blank' : ∀ c ∈ blanks', isBlank c = true) :
      CaselessWord boundary (x ++ name ++ 58 :: front ++ 59 :: blanks) word (blanks' ++ 61 :: y)

/-- One such word is spelled in another case. -/
inductive Respelled (boundary : CString) : Bytes → Bytes → Prop
  | word {x w w' y : Bytes} (word : CaselessWord boundary x w y) (same : SameLetters w w') :
      Respelled boundary (x ++ w ++ y) (x ++ w' ++ y)

/-- A spelling of the body: as many words as one likes are spelled in another case. -/
def Spelling (boundary : CString) : Bytes → Bytes → Prop := ReflTransGen (Respelled boundary)

/-! ## What a spelling leaves as it is -/

section Letters
variable {c : UInt8} {x y : Bytes}

theorem isHeaderNameByte_toLower (c : UInt8) : isHeaderNameByte (toLower c) = isHeaderNameByte c := by
  unfold isHeaderNameByte toLower
  grind

theorem toLower_toLower (c : UInt8) : toLower (toLower c) = toLower c := by
  unfold toLower
  grind

theorem SameLetters.letters (same : SameLetters x y) (letters : ∀ c ∈ x, isHeaderNameByte c = true) :
    ∀ c ∈ y, isHeaderNameByte c = true := by
  intro c mem
  have lower : toLower c ∈ x.map toLower := by
    rw [same]
    exact List.mem_map_of_mem mem
  obtain ⟨d, mem', same'⟩ := List.mem_map.1 lower
  rw [← isHeaderNameByte_toLower, ← same', isHeaderNameByte_toLower]
  exact letters d mem'

theorem colonAhead_map (left : Bytes) : colonAhead (left.map toLower) = colonAhead left := by
  induction left with
  | nil => rfl
  | cons c left ih =>
      by_cases letter : isHeaderNameByte c = true
      · rw [colonAhead_letter letter, List.map_cons, colonAhead_letter (by rwa [isHeaderNameByte_toLower]), ih]
      · have lower : ¬ isHeaderNameByte (toLower c) = true := by rwa [isHeaderNameByte_toLower]
        rw [colonAhead, colonAhead, List.map_cons, List.dropWhile_cons_of_neg lower, List.dropWhile_cons_of_neg letter]
        revert letter
        unfold isHeaderNameByte toLower
        grind

end Letters

def AtWord (p : Parser) : Prop := InName p ∨ InValue p

theorem AtWord.other {p : Parser} (stands : AtWord p) : p.state ≠ .partDataStart := by
  rcases stands with (state | state) | (state | state) <;> simp [state]

theorem letter_next {p : Parser} (stands : AtWord p) :
    ∃ q, AtWord q ∧ (InName p → InName q) ∧ ∀ c, isHeaderNameByte c = true → p.next? c = some q := by
  rcases stands with inName | inValue
  · refine ⟨{ p with state := .headerField }, .inl (.inr rfl), fun _ => .inr rfl, ?_⟩
    intro c letter
    obtain ⟨notCR, -, notColon⟩ := letter_ne letter
    rw [next?_inName inName]
    simp [Parser.feedHeaderField, notCR, notColon, letter, Fed.parser?]
  · refine ⟨{ p with state := .headerValue }, .inr (.inr rfl), ?_, ?_⟩
    · intro inName
      rcases inName with state | state <;> rcases inValue with state' | state' <;> cases state.symm.trans state'
    · intro c letter
      have notSpace : c ≠ 32 := by
        rintro rfl
        exact absurd letter (by decide)
      rcases inValue with state | state
      · simp [Parser.next?, Parser.feed, state, notSpace, Parser.feedHeaderValue, (letter_ne letter).1, Fed.parser?]
      · have same : ({ p with state := .headerValue } : Parser) = p := by rw [← state]
        simp [Parser.next?, Parser.feed, state, Parser.feedHeaderValue, (letter_ne letter).1, Fed.parser?, same]

theorem front?_word {w w' : Bytes} (same : SameLetters w w') (letters : ∀ c ∈ w, isHeaderNameByte c = true) {p : Parser}
    (stands : AtWord p) : p.front? w = p.front? w' := by
  have letters' := same.letters letters
  induction w generalizing p w' with
  | nil =>
      have empty : w' = [] := by simpa [SameLetters] using same.symm
      rw [empty]
  | cons c w ih =>
      cases w' with
      | nil => simp [SameLetters] at same
      | cons c' w' =>
          obtain ⟨-, same⟩ := List.cons.inj same
          obtain ⟨q, stands', -, next⟩ := letter_next stands
          rw [Parser.front?_next stands.other (next c (letters c (by simp))),
            Parser.front?_next stands.other (next c' (letters' c' (by simp)))]
          exact ih same (fun d mem => letters d (List.mem_cons_of_mem c mem)) stands'
            fun d mem => letters' d (List.mem_cons_of_mem c' mem)

theorem run?_of_front? {p q : Parser} {x : Bytes} (front : p.front? x = some q) : p.run? x = some q := by
  induction x generalizing p with
  | nil => exact front
  | cons c x ih =>
      rw [Parser.front?_cons] at front
      obtain ⟨r, next, rest⟩ := Option.bind_eq_some_iff.1 front
      split_ifs at next
      rw [Parser.run?_cons, next]
      exact ih rest

theorem inValue_run {x : Bytes} (noCR : CR ∉ x) {p q : Parser} (inValue : InValue p) (run : p.run? x = some q) :
    InValue q := by
  induction x generalizing p with
  | nil =>
      cases run
      exact inValue
  | cons c x ih =>
      rw [List.mem_cons, not_or] at noCR
      obtain ⟨r, next, inValue'⟩ := inValue_stays (Ne.symm noCR.1) inValue
      rw [Parser.run?_cons, next] at run
      exact ih noCR.2 inValue' run

theorem isBlank_ne {c : UInt8} (blank : isBlank c = true) : c ≠ CR := by
  rintro rfl
  exact absurd blank (by decide)

theorem headerLine_inValue {x name front : Bytes} {p : Parser}
    (line : Reaches (multipartParserInit boundary) x .headerFieldStart)
    (letters : ∀ c ∈ name, isHeaderNameByte c = true) (noCR : CR ∉ front)
    (run : (multipartParserInit boundary).run? (x ++ name ++ 58 :: front) = some p) : InValue p := by
  obtain ⟨q, run_x, state⟩ := line
  obtain ⟨r, run_name, state'⟩ := (inName_reaches letters (.inl state)).1
  have split : x ++ name ++ 58 :: front = x ++ (name ++ [58]) ++ front := by simp
  rw [split, Parser.run?_append, Parser.run?_append, run_x, Option.bind_some, run_name, Option.bind_some] at run
  exact inValue_run noCR (.inl state') run

theorem letters_of_same {w : Bytes} {s : String} (same : SameLetters w (ascii s))
    (letters : ∀ c ∈ ascii s, isHeaderNameByte c = true) : ∀ c ∈ w, isHeaderNameByte c = true :=
  SameLetters.letters (Eq.symm same) letters

namespace CaselessWord
variable {x w y : Bytes}

theorem letters (word : CaselessWord boundary x w y) : ∀ c ∈ w, isHeaderNameByte c = true := by
  cases word with
  | fieldName y line letters => exact letters
  | dispositionType y line header blank formData => exact letters_of_same formData (by decide +kernel)
  | attributeName y line header noCR unquoted blank named =>
      rcases named with same | same
      · exact letters_of_same same (by decide +kernel)
      · exact letters_of_same same (by decide +kernel)

theorem atWord (word : CaselessWord boundary x w y) {p : Parser}
    (run : (multipartParserInit boundary).run? x = some p) : AtWord p := by
  have disposition {name : Bytes} (header : SameLetters name (ascii "Content-Disposition")) :
      ∀ c ∈ name, isHeaderNameByte c = true := letters_of_same header (by decide +kernel)
  have noCR {blanks : Bytes} (blank : ∀ c ∈ blanks, isBlank c = true) : CR ∉ blanks :=
    fun mem => isBlank_ne (blank CR mem) rfl
  cases word with
  | fieldName y line =>
      obtain ⟨q, run', state⟩ := line
      obtain rfl := Option.some.inj (run.symm.trans run')
      exact .inl (.inl state)
  | dispositionType y line header blank =>
      exact .inr (headerLine_inValue line (disposition header) (noCR blank) run)
  | attributeName y line header noCR' unquoted blank =>
      rw [List.append_assoc, List.cons_append] at run
      refine .inr (headerLine_inValue line (disposition header) ?_ run)
      rw [List.mem_append, List.mem_cons, not_or, not_or]
      exact ⟨noCR', by decide, noCR blank⟩

end CaselessWord

theorem respelled_front? {body body' : Bytes} (respelled : Respelled boundary body body') :
    (multipartParserInit boundary).front? body = (multipartParserInit boundary).front? body' := by
  obtain ⟨word, same⟩ := respelled
  simp only [Parser.front?_append]
  cases front : (multipartParserInit boundary).front? _ with
  | none => rfl
  | some p =>
      rw [Option.bind_some, Option.bind_some]
      rw [front?_word same word.letters (word.atWord (run?_of_front? front))]

theorem spelling_front? {body body' : Bytes} (spelling : Spelling boundary body body') :
    (multipartParserInit boundary).front? body = (multipartParserInit boundary).front? body' := by
  induction spelling with
  | refl => rfl
  | tail _ last ih => exact ih.trans (respelled_front? last)

section Lower

theorem colonAhead_split {left : Bytes} (colon : colonAhead left = true) :
    ∃ name y, left = name ++ 58 :: y ∧ ∀ c ∈ name, isHeaderNameByte c = true := by
  cases behind : left.dropWhile isHeaderNameByte with
  | nil => simp [colonAhead, behind] at colon
  | cons c y =>
      have isColon : c = 58 := by simpa [colonAhead, behind] using colon
      refine ⟨left.takeWhile isHeaderNameByte, y, ?_, fun c mem => List.mem_takeWhile_imp mem⟩
      rw [← isColon, ← behind, List.takeWhile_append_dropWhile]

theorem next?_headerField {p q : Parser} {c : UInt8} (next : p.next? c = some q) (state : q.state = .headerField) :
    InName p ∧ isHeaderNameByte c = true := by
  by_cases inName : InName p
  · refine ⟨inName, ?_⟩
    rw [next?_inName inName, Parser.feedHeaderField] at next
    split_ifs at next with isCR isColon foreign
    · cases next
      cases state
    · cases next
      cases state
    · cases next
    · simpa using foreign
  · unfold InName at inName
    rw [not_or] at inName
    unfold Parser.next? Parser.feed at next
    cases before : p.state <;> simp only [before] at next inName
    all_goals grind [Fed.parser?, Parser.feedStartBoundary, Parser.feedHeaderValue, Parser.feedPartData, Parser.setLookbehind]

theorem inName_split {u : Bytes} {p : Parser} (run : (multipartParserInit boundary).run? u = some p) (inName : InName p) :
    ∃ x name, u = x ++ name ∧ Reaches (multipartParserInit boundary) x .headerFieldStart ∧
      ∀ c ∈ name, isHeaderNameByte c = true := by
  induction u using List.reverseRecOn generalizing p with
  | nil =>
      cases run
      rcases inName with state | state <;> cases state
  | append_singleton u c ih =>
      rcases inName with state | state
      · exact ⟨u ++ [c], [], (List.append_nil _).symm, ⟨p, run, state⟩, by simp⟩
      · rw [Parser.run?_snoc] at run
        obtain ⟨q, before, next⟩ := Option.bind_eq_some_iff.1 run
        obtain ⟨inName, letter⟩ := next?_headerField next state
        obtain ⟨x, name, rfl, line, letters⟩ := ih before inName
        refine ⟨x, name ++ [c], List.append_assoc .., line, ?_⟩
        intro d mem
        rcases List.mem_append.1 mem with mem | mem
        · exact letters d mem
        · rw [List.mem_singleton.1 mem]
          exact letter

def Lower (c : UInt8) : Prop := toLower c = c

instance (c : UInt8) : Decidable (Lower c) := inferInstanceAs (Decidable (_ = _))

theorem respelled_letter {u left : Bytes} {c : UInt8} {p : Parser}
    (run : (multipartParserInit boundary).run? u = some p) (inName : InName p)
    (letter : isHeaderNameByte c = true) (colon : colonAhead left = true) :
    Respelled boundary (u ++ c :: left) (u ++ toLower c :: left) := by
  obtain ⟨x, front, rfl, line, letters⟩ := inName_split run inName
  obtain ⟨rest, y, rfl, letters'⟩ := colonAhead_split colon
  have word : CaselessWord boundary x (front ++ c :: rest) (58 :: y) := by
    apply CaselessWord.fieldName y line
    intro d mem
    simp only [List.mem_append, List.mem_cons] at mem
    rcases mem with mem | rfl | mem
    · exact letters d mem
    · exact letter
    · exact letters' d mem
  have same : SameLetters (front ++ c :: rest) (front ++ toLower c :: rest) := by
    simp [SameLetters, toLower_toLower]
  simpa using Respelled.word word same

theorem exists_lower {u : Bytes} {p : Parser} (run : (multipartParserInit boundary).run? u = some p) (left : Bytes) :
    ∃ left', SameLetters left left' ∧ Spelling boundary (u ++ left) (u ++ left') ∧ NamesIn Lower p left' := by
  induction left generalizing u p with
  | nil => exact ⟨[], rfl, .refl, trivial⟩
  | cons c left ih =>
      have follow {d : UInt8} {q : Parser} (next : p.next? d = some q) :
          ∃ left', SameLetters left left' ∧ Spelling boundary (u ++ d :: left) (u ++ d :: left') ∧ NamesIn Lower q left' := by
        have run' : (multipartParserInit boundary).run? (u ++ [d]) = some q := by
          rw [Parser.run?_snoc, run]
          exact next
        simpa using ih run'
      by_cases renamed : InName p ∧ isHeaderNameByte c = true ∧ colonAhead left = true
      · obtain ⟨inName, letter, colon⟩ := renamed
        obtain ⟨q, -, -, next⟩ := letter_next (.inl inName)
        have lower := next (toLower c) (by rwa [isHeaderNameByte_toLower])
        obtain ⟨left', same, spelling, names⟩ := follow lower
        refine ⟨toLower c :: left', ?_, .head (respelled_letter run inName letter colon) spelling, ?_, ?_⟩
        · rw [SameLetters, List.map_cons, List.map_cons, toLower_toLower, same]
        · exact fun _ _ => toLower_toLower c
        · intro q' next'
          obtain rfl := Option.some.inj (lower.symm.trans next')
          exact names
      · -- Here no name is read, or only the colon behind one.
        have kept {left' : Bytes} (same : SameLetters left left') (inName : InName p)
            (colon : colonAhead (c :: left') = true) : Lower c := by
          by_cases letter : isHeaderNameByte c = true
          · rw [colonAhead_letter letter, ← colonAhead_map, ← same, colonAhead_map] at colon
            exact absurd ⟨inName, letter, colon⟩ renamed
          · have isColon : c = 58 := by simpa [colonAhead, List.dropWhile_cons_of_neg letter] using colon
            rw [isColon]
            rfl
        cases next : p.next? c with
        | none => exact ⟨c :: left, rfl, .refl, kept rfl, by simp [next]⟩
        | some q =>
            obtain ⟨left', same, spelling, names⟩ := follow next
            refine ⟨c :: left', ?_, spelling, kept same, ?_⟩
            · rw [SameLetters, List.map_cons, List.map_cons, same]
            · intro q' next'
              obtain rfl := Option.some.inj (next.symm.trans next')
              exact names

end Lower

/-! ## Two spellings decoded -/

def SameEntries (files files' : Members) : Prop :=
  ∀ key, (files key).map withoutTmpName = (files' key).map withoutTmpName

def BodyRead.Accepted (result : BodyRead) : Prop := result.refused = false ∧ result.parser.state = .ended

structure SameResult (result result' : BodyRead) : Prop where
  refused : result.refused = result'.refused
  accepted : result.Accepted ↔ result'.Accepted
  post : result.session.post = result'.session.post
  files : SameEntries result.session.files result'.session.files

/-- Either both bodies are decoded, and alike, or the process ends for the same reason in both. -/
def DecodedAlike (host : Host) (boundary : CString) (body body' : Bytes) : Prop :=
  Outcome.Rel (fun _ _ => True) SameResult (readBody host (multipartParserInit boundary) .init 0 body)
    (readBody host (multipartParserInit boundary) .init 0 body')

section Decoding
variable {host : Host} {body body' : Bytes}

theorem DecodedAlike.refused (alike : DecodedAlike host boundary body body') :
    (executeChunks (settings host) (reads body) (multipartParserInit boundary, .init)).failed? =
      (executeChunks (settings host) (reads body') (multipartParserInit boundary, .init)).failed? := by
  rw [← readBody_refused host _ _ 0, ← readBody_refused host _ _ 0]
  unfold DecodedAlike at alike
  generalize readBody host (multipartParserInit boundary) .init 0 body = read at alike ⊢
  generalize readBody host (multipartParserInit boundary) .init 0 body' = read' at alike ⊢
  cases alike with
  | ok same => exact congrArg some same.refused
  | fail => rfl
  | stop => rfl

def LogOf (host : Host) (boundary : CString) (body : Bytes) : List (Call × Session) :=
  (tracedRun host boundary (reads body)).log

/-- Nothing is decoded, and the bytes alone say how the reading ends. -/
structure Unread (host : Host) (boundary : CString) (body : Bytes) (result : BodyRead) : Prop where
  untouched : Untouched result.session
  untaken : NoneTaken host (LogOf host boundary body)
  refused : result.refused = true → (multipartParserInit boundary).front? body = none
  read : result.refused = false → (multipartParserInit boundary).front? body = some result.parser

theorem not_lower_disposition : ¬ AllIn Lower (.lit "Content-Disposition") := by
  intro all
  exact absurd (all 67 (by decide +kernel)) (by decide)

theorem readBody_firstPart (host : Host) (boundary : CString) (body : Bytes) :
    (readBody host (multipartParserInit boundary) .init 0 body).All
      (fun result => Unread host boundary body result ∨
        Past host boundary Lower body (LogOf host boundary body) ∧ Filled result.session)
      (fun _ => False) (fun _ _ => Past host boundary Lower body (LogOf host boundary body)) := by
  have run := run_firstPart not_lower_disposition host boundary (reads body)
  have follows := readBody_follows host (multipartParserInit boundary) .init 0 body
  rw [flatten_reads] at run
  cases executed : executeChunks (settings host) (reads body) (multipartParserInit boundary, .init) with
  | ok r =>
      rw [executed] at run follows
      rw [show readBody host _ _ _ _ = _ from follows]
      rcases run with ⟨untouched, untaken, front⟩ | gone
      · exact .inl ⟨untouched, untaken, nofun, fun _ => front⟩
      · exact .inr gone
  | fail s =>
      rw [executed] at run follows
      obtain ⟨q, m, read, -⟩ := follows
      rw [read]
      rcases run with ⟨untouched, untaken, front⟩ | gone
      · exact .inl ⟨untouched, untaken, fun _ => front, nofun⟩
      · exact .inr gone
  | stop why s =>
      rw [executed] at run follows
      rw [show readBody host _ _ _ _ = _ from follows]
      exact run

theorem unread_alike {result result' : BodyRead} (unread : Unread host boundary body result)
    (unread' : Unread host boundary body' result')
    (front : (multipartParserInit boundary).front? body = (multipartParserInit boundary).front? body') :
    SameResult result result' := by
  have refused : result.refused = result'.refused := by
    cases refused : result.refused with
    | true =>
        cases refused' : result'.refused with
        | true => rfl
        | false => cases (unread'.read refused').symm.trans (front.symm.trans (unread.refused refused))
    | false =>
        cases refused' : result'.refused with
        | false => rfl
        | true => cases (unread'.refused refused').symm.trans (front.symm.trans (unread.read refused))
  have accepted : result.Accepted ↔ result'.Accepted := by
    unfold BodyRead.Accepted
    rw [← refused]
    apply and_congr_right
    intro read
    have same := (unread.read read).symm.trans (front.trans (unread'.read (refused ▸ read)))
    rw [Option.some.inj same]
  refine ⟨refused, accepted, unread.untouched.1.trans unread'.untouched.1.symm, ?_⟩
  rw [unread.untouched.2, unread'.untouched.2]
  exact fun _ => rfl

theorem SameResult.filled_iff {result result' : BodyRead} (same : SameResult result result') :
    Filled result.session ↔ Filled result'.session := by
  unfold Filled
  apply exists_congr
  intro key
  have files := congrArg Option.isSome (same.files key)
  rw [Option.isSome_map, Option.isSome_map] at files
  rw [same.post, files]

theorem Untouched.not_filled {s : Session} (untouched : Untouched s) : ¬ Filled s := by
  rintro ⟨key, filled⟩
  rw [untouched.1, untouched.2] at filled
  simp [Members.empty] at filled

theorem readBody_unread (here : ¬ Past host boundary Lower body (LogOf host boundary body)) :
    ∃ result, readBody host (multipartParserInit boundary) .init 0 body = .ok result ∧
      Unread host boundary body result := by
  have law := readBody_firstPart host boundary body
  cases read : readBody host (multipartParserInit boundary) .init 0 body with
  | ok result =>
      rw [read] at law
      rcases law with unread | ⟨past, -⟩
      · exact ⟨result, rfl, unread⟩
      · exact absurd past here
  | fail s =>
      rw [read] at law
      exact law.elim
  | stop why s =>
      rw [read] at law
      exact absurd law here

end Decoding

/-- The spellings of a body are decoded alike if and only if in none of them a part is taken. -/
theorem spellings_decodedAlike_iff (host : Host) (boundary : CString) (body : Bytes) :
    (∀ body', Spelling boundary body body' → DecodedAlike host boundary body body') ↔
      ∀ body', Spelling boundary body body' → NoneTaken host (LogOf host boundary body') := by
  constructor
  · intro alike body' spelling
    by_contra taken
    obtain ⟨lower, -, lowered, names⟩ := @exists_lower boundary [] (multipartParserInit boundary) rfl body'
    have current : ¬ Past host boundary Lower lower (LogOf host boundary lower) := fun past => past.foreign names
    obtain ⟨nothing, read, unread⟩ := readBody_unread current
    have alike_lower := alike lower (spelling.trans lowered)
    have alike_taken := alike body' spelling
    have law := readBody_firstPart host boundary body'
    unfold DecodedAlike at alike_lower alike_taken
    rw [read] at alike_lower
    obtain ⟨result, read, same⟩ := alike_lower.ok_right
    rw [read] at alike_taken
    obtain ⟨result', read', same'⟩ := alike_taken.ok_left
    rw [read'] at law
    rcases law with unread' | ⟨-, filled⟩
    · exact taken unread'.untaken
    · exact unread.untouched.not_filled (same.filled_iff.1 (same'.filled_iff.2 filled))
  · intro untaken body' spelling
    obtain ⟨result, read, unread⟩ := readBody_unread fun past => past.taken (untaken body .refl)
    obtain ⟨result', read', unread'⟩ := readBody_unread fun past => past.taken (untaken body' spelling)
    unfold DecodedAlike
    rw [read, read']
    exact .ok (unread_alike unread unread' (spelling_front? spelling))

/-! A body, and the same body with a header's name in lower case. -/

def lowerName : Bytes := ascii "--b\r\ncontent-disposition: form-data; name=a\r\n\r\nx\r\n--b--"

def usualName : Bytes := ascii "--b\r\nContent-Disposition: form-data; name=a\r\n\r\nx\r\n--b--"

theorem lowerName_not_decodedAlike :
    Spelling (.lit "--b") usualName lowerName ∧ ¬ DecodedAlike plainHost (.lit "--b") usualName lowerName := by
  constructor
  · have spot : CaselessWord (.lit "--b") (ascii "--b\r\n") (ascii "Content-Disposition")
        (58 :: ascii " form-data; name=a\r\n\r\nx\r\n--b--") :=
      .fieldName _ opening_reaches (by decide +kernel)
    have same : SameLetters (ascii "Content-Disposition") (ascii "content-disposition") := by decide +kernel
    have usual : usualName = ascii "--b\r\n" ++ ascii "Content-Disposition" ++
        58 :: ascii " form-data; name=a\r\n\r\nx\r\n--b--" := by decide +kernel
    have lower : lowerName = ascii "--b\r\n" ++ ascii "content-disposition" ++
        58 :: ascii " form-data; name=a\r\n\r\nx\r\n--b--" := by decide +kernel
    rw [usual, lower]
    exact .single (.word spot same)
  · intro alike
    have refused := alike.refused
    rw [reads_short (by decide +kernel), reads_short (by decide +kernel)] at refused
    revert refused
    decide +kernel

end HvmlFpm.Multipart
