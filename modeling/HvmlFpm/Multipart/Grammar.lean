import HvmlFpm.Library.Token
import HvmlFpm.Multipart.Automaton
import HvmlFpm.Multipart.Opening

/-!
# The grammar of bodies

A body is read as a sequence of parts. The parser takes more than the grammar has: a line of letters without
a colon ends the headers of a part as an empty line does, and a header may have no name.
-/

namespace HvmlFpm.Multipart
open Library
variable {σ : Type} {boundary : CString}

structure HeaderLine where
  name : Bytes
  value : Bytes
  letters : ∀ c ∈ name, isHeaderNameByte c = true
  noCR : CR ∉ value

def HeaderLine.text (line : HeaderLine) : Bytes := line.name ++ 58 :: line.value ++ [CR, LF]

def headersText (headers : List HeaderLine) : Bytes := headers.flatMap HeaderLine.text

/-- A part as the parser takes it. The line that ends its headers is empty but for the `stray` letters. -/
structure BodyPart (boundary : CString) where
  headers : List HeaderLine
  stray : Bytes
  content : Bytes
  letters : ∀ c ∈ stray, isHeaderNameByte c = true
  absent : ¬ delimiter boundary <:+: content

namespace BodyPart

def text (part : BodyPart boundary) : Bytes :=
  headersText part.headers ++ part.stray ++ [CR, LF] ++ part.content

def WellFormed (part : BodyPart boundary) : Prop :=
  part.stray = [] ∧ ∀ line ∈ part.headers, line.name ≠ []

end BodyPart

def partsText (boundary : CString) (parts : List (BodyPart boundary)) : Bytes :=
  boundary.bytes ++ parts.flatMap fun part => [CR, LF] ++ part.text ++ delimiter boundary

def headedText (boundary : CString) (parts : List (BodyPart boundary)) (headers : List HeaderLine) : Bytes :=
  partsText boundary parts ++ [CR, LF] ++ headersText headers

def closed (boundary : CString) (parts : List (BodyPart boundary)) (tail : Bytes) : Bytes :=
  partsText boundary parts ++ [45, 45] ++ tail

def InGrammar (boundary : CString) (body : Bytes) : Prop :=
  ∃ parts tail, parts ≠ [] ∧ (∀ part ∈ parts, part.WellFormed) ∧ body = closed boundary parts tail

/-! ## What the grammar has, the parser reads -/

section Reaches

def Reaches (p : Parser) (x : Bytes) (state : State) : Prop := ∃ q, p.run? x = some q ∧ q.state = state

theorem next?_intact (nonempty : boundary ≠ .empty) {p q : Parser} {c : UInt8} (intact : Intact boundary p)
    (next : p.next? c = some q) : Intact boundary q := by
  have fed := feed_intact nonempty intact [] c
  unfold Parser.next? at next
  cases feeding : p.feed [] c with
  | refused => rw [feeding] at next; cases next
  | outOfBlock calls => rw [feeding] at next; cases next
  | next calls p' pending =>
      rw [feeding] at next fed
      cases next
      exact fed

theorem run?_intact (nonempty : boundary ≠ .empty) {p q : Parser} {x : Bytes} (intact : Intact boundary p)
    (run : p.run? x = some q) : Intact boundary q :=
  Parser.run?_along (I := fun _ => Intact boundary) (fun _ _ _ _ intact next => next?_intact nonempty intact next) x
    intact run

theorem Reaches.nil {p : Parser} {state : State} (at_state : p.state = state) : Reaches p [] state :=
  ⟨p, rfl, at_state⟩

theorem Reaches.append (nonempty : boundary ≠ .empty) {p : Parser} {x y : Bytes} {m state : State}
    (intact : Intact boundary p) (first : Reaches p x m)
    (then_ : ∀ q, Intact boundary q → q.state = m → Reaches q y state) : Reaches p (x ++ y) state := by
  obtain ⟨q, run, between⟩ := first
  obtain ⟨r, run', at_state⟩ := then_ q (run?_intact nonempty intact run) between
  exact ⟨r, by rw [Parser.run?_append, run]; exact run', at_state⟩

theorem reaches_run {I : Parser → Prop} {run : Bytes} {d : UInt8} {state : State}
    (stays : ∀ c ∈ run, ∀ p, I p → ∃ q, p.next? c = some q ∧ I q)
    (ends : ∀ p, I p → ∃ q, p.next? d = some q ∧ q.state = state) {p : Parser} (start : I p) :
    Reaches p (run ++ [d]) state := by
  induction run generalizing p with
  | nil =>
      obtain ⟨q, next, at_state⟩ := ends p start
      exact ⟨q, by rw [List.nil_append, Parser.run?_cons, next]; rfl, at_state⟩
  | cons c run ih =>
      obtain ⟨q, next, stayed⟩ := stays c (by simp) p start
      obtain ⟨r, rest, at_state⟩ := ih (fun d mem => stays d (List.mem_cons_of_mem c mem)) stayed
      exact ⟨r, by rw [List.cons_append, Parser.run?_cons, next]; exact rest, at_state⟩

theorem reaches_byte {p : Parser} {d : UInt8} {state : State} (ends : ∃ q, p.next? d = some q ∧ q.state = state) :
    Reaches p [d] state :=
  @reaches_run (· = p) [] d state (by simp) (by simpa using ends) p rfl

def InName (p : Parser) : Prop := p.state = .headerFieldStart ∨ p.state = .headerField

theorem next?_inName {p : Parser} (inName : InName p) (c : UInt8) :
    p.next? c = (Parser.feedHeaderField { p with state := .headerField } [] c).parser? := by
  rcases inName with state | state
  · simp only [Parser.next?, Parser.feed, state]
  · have same : { p with state := .headerField } = p := by rw [← state]
    simp only [Parser.next?, Parser.feed, state, same]

theorem letter_ne {c : UInt8} (letter : isHeaderNameByte c = true) : c ≠ CR ∧ c ≠ LF ∧ c ≠ 58 := by
  refine ⟨?_, ?_, ?_⟩ <;> rintro rfl <;> revert letter <;> decide

theorem inName_letter {c : UInt8} (letter : isHeaderNameByte c = true) {p : Parser} (inName : InName p) :
    ∃ q, p.next? c = some q ∧ InName q := by
  obtain ⟨notCR, -, notColon⟩ := letter_ne letter
  rw [next?_inName inName]
  exact ⟨_, by simp [Parser.feedHeaderField, notCR, notColon, letter, Fed.parser?]; rfl, .inr rfl⟩

theorem inName_reaches {name : Bytes} (letters : ∀ c ∈ name, isHeaderNameByte c = true) {p : Parser} (inName : InName p) :
    Reaches p (name ++ [58]) .headerValueStart ∧ Reaches p (name ++ [CR]) .headersAlmostDone := by
  constructor
  · apply reaches_run (fun c mem p => inName_letter (letters c mem)) _ inName
    intro p inName
    exact ⟨_, next?_inName inName 58, rfl⟩
  · apply reaches_run (fun c mem p => inName_letter (letters c mem)) _ inName
    intro p inName
    exact ⟨_, next?_inName inName CR, rfl⟩

def InValue (p : Parser) : Prop := p.state = .headerValueStart ∨ p.state = .headerValue

theorem inValue_stays {c : UInt8} (notCR : c ≠ CR) {p : Parser} (inValue : InValue p) :
    ∃ q, p.next? c = some q ∧ InValue q := by
  rcases inValue with state | state
  · by_cases space : c = 32
    · exact ⟨p, by simp [Parser.next?, Parser.feed, state, space, Fed.parser?], .inl state⟩
    · refine ⟨{ p with state := .headerValue }, ?_, .inr rfl⟩
      simp [Parser.next?, Parser.feed, state, space, Parser.feedHeaderValue, notCR, Fed.parser?]
  · exact ⟨p, by simp [Parser.next?, Parser.feed, state, Parser.feedHeaderValue, notCR, Fed.parser?], .inr state⟩

theorem inValue_ends {p : Parser} (inValue : InValue p) :
    p.next? CR = some { p with state := .headerValueAlmostDone } := by
  rcases inValue with state | state <;> simp only [Parser.next?, Parser.feed, state] <;> rfl

theorem inValue_reaches {value : Bytes} (noCR : CR ∉ value) {p : Parser} (inValue : InValue p) :
    Reaches p (value ++ [CR]) .headerValueAlmostDone := by
  apply reaches_run _ _ inValue
  · intro c mem p inValue
    exact inValue_stays (fun e => noCR (e ▸ mem)) inValue
  · intro p inValue
    exact ⟨_, inValue_ends inValue, rfl⟩

theorem headerLine_reaches (nonempty : boundary ≠ .empty) (line : HeaderLine) {p : Parser}
    (intact : Intact boundary p) (state : p.state = .headerFieldStart) : Reaches p line.text .headerFieldStart := by
  have text : line.text = line.name ++ [58] ++ (line.value ++ [CR]) ++ [LF] := by simp [HeaderLine.text]
  rw [text]
  apply Reaches.append nonempty intact (m := .headerValueAlmostDone)
  · apply Reaches.append nonempty intact (inName_reaches line.letters (.inl state)).1
    intro q _ state
    exact inValue_reaches line.noCR (.inl state)
  · intro q _ state
    exact reaches_byte ⟨_, by simp [Parser.next?, Parser.feed, state, Fed.parser?]; rfl, rfl⟩

theorem headersText_reaches (nonempty : boundary ≠ .empty) (headers : List HeaderLine) {p : Parser}
    (intact : Intact boundary p) (state : p.state = .headerFieldStart) :
    Reaches p (headersText headers) .headerFieldStart := by
  induction headers generalizing p with
  | nil => exact .nil state
  | cons line headers ih =>
      apply Reaches.append nonempty intact (headerLine_reaches nonempty line intact state)
      intro q intact state
      exact ih intact state

theorem stray_reaches (nonempty : boundary ≠ .empty) {stray : Bytes} (letters : ∀ c ∈ stray, isHeaderNameByte c = true)
    {p : Parser} (intact : Intact boundary p) (state : p.state = .headerFieldStart) :
    Reaches p (stray ++ [CR, LF]) .partDataStart := by
  rw [show stray ++ [CR, LF] = stray ++ [CR] ++ [LF] by simp]
  apply Reaches.append nonempty intact (inName_reaches letters (.inl state)).2
  intro q _ state
  exact reaches_byte ⟨_, by simp [Parser.next?, Parser.feed, state, Fed.parser?]; rfl, rfl⟩

theorem scan_reaches (nonempty : boundary ≠ .empty) (noCR : CR ∉ boundary.bytes) {x pending : Bytes}
    {reported : List Bytes} {p : Parser} {n : Nat} (scan : Scan boundary x reported p pending) (y : Bytes)
    (first : FirstAt (delimiter boundary) (x ++ y) n) (last : (x ++ y).length = n + (delimiter boundary).length) :
    Reaches p y .partDataAlmostEnd := by
  induction y generalizing x pending reported p with
  | nil =>
      rw [List.append_nil] at first
      exact absurd first.1 (scan.no_delimiter n)
  | cons c y ih =>
      rw [List.append_cons] at first last
      have scans := feed_scans nonempty noCR c scan
      have fed := p.feed_parser? pending c
      cases feeding : p.feed pending c with
      | refused => rw [feeding] at scans; exact scans.elim
      | outOfBlock calls => rw [feeding] at scans; exact scans.elim
      | next calls q pending' =>
          rw [feeding] at scans fed
          rcases scans with ⟨runs, -, scan'⟩ | ⟨-, found⟩
          · obtain ⟨r, run, state⟩ := ih scan' first last
            exact ⟨r, by rw [Parser.run?_cons, ← fed]; exact run, state⟩
          · -- The first delimiter ends at `c`, so nothing is left behind it.
            have length := congrArg List.length found.split
            rw [@List.length_append _ reported.flatten] at length
            have same := (found.first.append length.ge y).unique first
            have empty : y = [] := by
              apply List.eq_nil_of_length_eq_zero
              rw [@List.length_append _ (x ++ [c])] at last
              omega
            subst empty
            exact ⟨q, by rw [Parser.run?_cons, ← fed]; rfl, found.state⟩

theorem content_reaches (nonempty : boundary ≠ .empty) (noCR : CR ∉ boundary.bytes) {content : Bytes}
    (absent : ¬ delimiter boundary <:+: content) {p : Parser} (intact : Intact boundary p)
    (state : p.state = .partDataStart) : Reaches p (content ++ delimiter boundary) .partDataAlmostEnd := by
  have first := firstAt_of_not_infix (delimiter_once noCR) absent []
  rw [List.append_nil] at first
  obtain ⟨c, y, split⟩ : ∃ c y, content ++ delimiter boundary = c :: y := by
    cases content with
    | nil => exact ⟨_, _, rfl⟩
    | cons c content => exact ⟨_, _, rfl⟩
  have scans := start_scans intact c
  have fed : p.next? c = (Parser.feedPartData [] { p with state := .partData } [] c).parser? := by
    simp only [Parser.next?, Parser.feed, state, Parser.feedPartData]
    split_ifs
    · split <;> rfl
    · rfl
  cases feeding : Parser.feedPartData [] { p with state := .partData } [] c with
  | refused => rw [feeding] at scans; exact scans.elim
  | outOfBlock calls => rw [feeding] at scans; exact scans.elim
  | next calls q pending =>
      rw [feeding] at scans fed
      rw [split]
      rcases scans with ⟨runs, -, scan⟩ | ⟨-, found⟩
      · obtain ⟨r, run, state⟩ := scan_reaches nonempty noCR scan y (n := content.length)
          (by rw [List.singleton_append, ← split]; exact first)
          (by rw [List.singleton_append, ← split, List.length_append])
        exact ⟨r, by rw [Parser.run?_cons, fed]; exact run, state⟩
      · -- One byte is no delimiter.
        have length := congrArg List.length found.split
        simp [delimiter] at length

theorem part_reaches (nonempty : boundary ≠ .empty) (noCR : CR ∉ boundary.bytes) (part : BodyPart boundary) {p : Parser}
    (intact : Intact boundary p) (state : p.state = .headerFieldStart) :
    Reaches p (part.text ++ delimiter boundary) .partDataAlmostEnd := by
  have text : part.text ++ delimiter boundary =
      headersText part.headers ++ (part.stray ++ [CR, LF]) ++ (part.content ++ delimiter boundary) := by
    simp [BodyPart.text]
  rw [text]
  apply Reaches.append nonempty intact (m := .partDataStart)
  · apply Reaches.append nonempty intact (headersText_reaches nonempty part.headers intact state)
    intro q intact state
    exact stray_reaches nonempty part.letters intact state
  · intro q intact state
    exact content_reaches nonempty noCR part.absent intact state

theorem reaches_next (nonempty : boundary ≠ .empty) {p : Parser} (intact : Intact boundary p)
    (state : p.state = .partDataAlmostEnd) : Reaches p [CR, LF] .headerFieldStart := by
  apply Reaches.append nonempty intact (x := [CR]) (m := .partDataEnd)
  · exact reaches_byte ⟨_, by simp [Parser.next?, Parser.feed, state, Fed.parser?]; rfl, rfl⟩
  · intro q _ state
    exact reaches_byte ⟨_, by simp [Parser.next?, Parser.feed, state, Fed.parser?]; rfl, rfl⟩

theorem reaches_end (nonempty : boundary ≠ .empty) {p : Parser} (intact : Intact boundary p)
    (state : p.state = .partDataAlmostEnd) : Reaches p [45, 45] .ended := by
  apply Reaches.append nonempty intact (x := [45]) (m := .partDataFinalHyphen)
  · exact reaches_byte ⟨_, by simp [Parser.next?, Parser.feed, state, Fed.parser?]; rfl, rfl⟩
  · intro q _ state
    exact reaches_byte ⟨_, by simp [Parser.next?, Parser.feed, state, Fed.parser?]; rfl, rfl⟩

theorem ended_reaches (tail : Bytes) {p : Parser} (state : p.state = .ended) : Reaches p tail .ended := by
  induction tail with
  | nil => exact .nil state
  | cons c tail ih =>
      obtain ⟨q, run, ended⟩ := ih
      have next : p.next? c = some p := by simp [Parser.next?, Parser.feed, state, Fed.parser?]
      exact ⟨q, by rw [Parser.run?_cons, next]; exact run, ended⟩

theorem waiting_reaches (n : Nat) (inside : n ≤ boundary.length + 1) :
    Reaches (waiting boundary n) ((opening boundary).drop n) .headerFieldStart := by
  induction left : boundary.length + 1 - n generalizing n with
  | zero =>
    have last : n = boundary.length + 1 := by omega
    have bound : n < (opening boundary).length := by rw [opening_length]; omega
    rw [List.drop_eq_getElem_cons bound, List.drop_of_length_le (by rw [opening_length]; omega)]
    apply reaches_byte
    rw [Parser.next?, feed_waiting (List.getElem?_eq_getElem bound), if_neg (by simp), if_pos last]
    exact ⟨_, rfl, rfl⟩
  | succ m ih =>
    have bound : n < (opening boundary).length := by rw [opening_length]; omega
    obtain ⟨q, run, state⟩ := ih (n + 1) (by omega) (by omega)
    refine ⟨q, ?_, state⟩
    rw [List.drop_eq_getElem_cons bound, Parser.run?_cons, Parser.next?, feed_waiting (List.getElem?_eq_getElem bound),
      if_neg (by simp), if_neg (by omega)]
    exact run

theorem opening_reaches : Reaches (multipartParserInit boundary) (opening boundary) .headerFieldStart :=
  waiting_reaches 0 (Nat.zero_le _)

theorem headedText_reaches (nonempty : boundary ≠ .empty) (noCR : CR ∉ boundary.bytes) (parts : List (BodyPart boundary))
    (headers : List HeaderLine) :
    Reaches (multipartParserInit boundary) (headedText boundary parts headers) .headerFieldStart := by
  have intact := init_intact boundary
  apply Reaches.append nonempty intact (m := .headerFieldStart)
  · induction parts using List.reverseRecOn with
    | nil => simpa [partsText, opening] using opening_reaches
    | append_singleton parts part ih =>
        have text : partsText boundary (parts ++ [part]) ++ [CR, LF] =
            partsText boundary parts ++ [CR, LF] ++ (part.text ++ delimiter boundary) ++ [CR, LF] := by
          simp [partsText]
        rw [text]
        apply Reaches.append nonempty intact (m := .partDataAlmostEnd)
        · apply Reaches.append nonempty intact ih
          intro q intact state
          exact part_reaches nonempty noCR part intact state
        · intro q intact state
          exact reaches_next nonempty intact state
  · intro q intact state
    exact headersText_reaches nonempty headers intact state

theorem closed_reaches (nonempty : boundary ≠ .empty) (noCR : CR ∉ boundary.bytes) {parts : List (BodyPart boundary)}
    (some_ : parts ≠ []) (tail : Bytes) : Reaches (multipartParserInit boundary) (closed boundary parts tail) .ended := by
  have intact := init_intact boundary
  obtain ⟨front, part, rfl⟩ := (List.eq_nil_or_concat parts).resolve_left some_
  have text : closed boundary (front ++ [part]) tail =
      headedText boundary front [] ++ (part.text ++ delimiter boundary) ++ ([45, 45] ++ tail) := by
    simp [closed, partsText, headedText, headersText]
  rw [List.concat_eq_append, text]
  apply Reaches.append nonempty intact (m := .partDataAlmostEnd)
  · apply Reaches.append nonempty intact (headedText_reaches nonempty noCR front [])
    intro q intact state
    exact part_reaches nonempty noCR part intact state
  · intro q intact state
    apply Reaches.append nonempty intact (reaches_end nonempty intact state)
    intro r _ state
    exact ended_reaches tail state

end Reaches

/-! ## What the parser reads, the grammar has -/

inductive Place (boundary : CString) (x : Bytes) (p : Parser) : Prop
  | opening (n : Nat) (split : x = (opening boundary).take n) (inside : n < (opening boundary).length)
      (stands : p = waiting boundary n)
  | name (parts : List (BodyPart boundary)) (headers : List HeaderLine) (run : Bytes)
      (split : x = headedText boundary parts headers ++ run) (letters : ∀ c ∈ run, isHeaderNameByte c = true)
      (state : InName p)
  | headersAlmostDone (parts : List (BodyPart boundary)) (headers : List HeaderLine) (stray : Bytes)
      (split : x = headedText boundary parts headers ++ stray ++ [CR])
      (letters : ∀ c ∈ stray, isHeaderNameByte c = true) (state : p.state = .headersAlmostDone)
  | dataStart (parts : List (BodyPart boundary)) (headers : List HeaderLine) (stray : Bytes)
      (split : x = headedText boundary parts headers ++ stray ++ [CR, LF])
      (letters : ∀ c ∈ stray, isHeaderNameByte c = true) (state : p.state = .partDataStart)
  | value (parts : List (BodyPart boundary)) (headers : List HeaderLine) (name value : Bytes)
      (split : x = headedText boundary parts headers ++ name ++ 58 :: value)
      (letters : ∀ c ∈ name, isHeaderNameByte c = true) (noCR : CR ∉ value) (state : InValue p)
  | valueAlmostDone (parts : List (BodyPart boundary)) (headers : List HeaderLine) (line : HeaderLine)
      (split : x ++ [LF] = headedText boundary parts headers ++ line.text) (state : p.state = .headerValueAlmostDone)
  | data (parts : List (BodyPart boundary)) (headers : List HeaderLine) (stray data : Bytes) (reported : List Bytes)
      (pending : Bytes) (split : x = headedText boundary parts headers ++ stray ++ [CR, LF] ++ data)
      (letters : ∀ c ∈ stray, isHeaderNameByte c = true) (scan : Scan boundary data reported p pending)
  | delimited (parts : List (BodyPart boundary)) (split : x = partsText boundary parts) (some_ : parts ≠ [])
      (state : p.state = .partDataAlmostEnd)
  | next (parts : List (BodyPart boundary)) (split : x = partsText boundary parts ++ [CR]) (state : p.state = .partDataEnd)
  | finalHyphen (parts : List (BodyPart boundary)) (split : x = partsText boundary parts ++ [45]) (some_ : parts ≠ [])
      (state : p.state = .partDataFinalHyphen)
  | ended (parts : List (BodyPart boundary)) (tail : Bytes) (split : x = closed boundary parts tail) (some_ : parts ≠ [])
      (state : p.state = .ended)

section Place
variable {x : Bytes} {p q : Parser} {c : UInt8}

theorem Place.init : Place boundary [] (multipartParserInit boundary) :=
  .opening 0 rfl (by rw [opening_length]; omega) rfl

theorem place_opening {n : Nat} (inside : n < (opening boundary).length)
    (next : (waiting boundary n).next? c = some q) : Place boundary ((opening boundary).take n ++ [c]) q := by
  rw [Parser.next?, feed_waiting (List.getElem?_eq_getElem inside)] at next
  split_ifs at next with other last
  · cases next
  · have longer : (opening boundary).take n ++ [c] = (opening boundary).take (n + 1) := by
      rw [List.take_add_one, List.getElem?_eq_getElem inside, not_not.1 other]
      rfl
    cases next
    refine .name [] [] [] ?_ (by simp) (.inl rfl)
    rw [longer, last, List.take_of_length_le (by rw [opening_length])]
    simp [opening, headedText, partsText, headersText]
  · have longer : (opening boundary).take n ++ [c] = (opening boundary).take (n + 1) := by
      rw [List.take_add_one, List.getElem?_eq_getElem inside, not_not.1 other]
      rfl
    cases next
    rw [opening_length] at inside
    exact .opening (n + 1) longer (by rw [opening_length]; omega) rfl

theorem place_name {parts : List (BodyPart boundary)} {headers : List HeaderLine} {run : Bytes}
    (letters : ∀ c ∈ run, isHeaderNameByte c = true) (inName : InName p) (next : p.next? c = some q) :
    Place boundary (headedText boundary parts headers ++ run ++ [c]) q := by
  rw [next?_inName inName, Parser.feedHeaderField] at next
  split_ifs at next with cr colon bad
  · cases next
    subst cr
    exact .headersAlmostDone parts headers run rfl letters rfl
  · cases next
    subst colon
    exact .value parts headers run [] rfl letters (by simp) (.inl rfl)
  · cases next
  · cases next
    refine .name parts headers (run ++ [c]) (by simp) ?_ (.inr rfl)
    intro d mem
    rcases List.mem_append.1 mem with mem | mem
    · exact letters d mem
    · rw [List.mem_singleton.1 mem]
      simpa using bad

theorem place_value {parts : List (BodyPart boundary)} {headers : List HeaderLine} {name value : Bytes}
    (letters : ∀ c ∈ name, isHeaderNameByte c = true) (noCR : CR ∉ value) (inValue : InValue p)
    (next : p.next? c = some q) :
    Place boundary (headedText boundary parts headers ++ name ++ 58 :: value ++ [c]) q := by
  by_cases cr : c = CR
  · subst cr
    rw [inValue_ends inValue] at next
    cases next
    exact .valueAlmostDone parts headers ⟨name, value, letters, noCR⟩ (by simp [HeaderLine.text]) rfl
  · obtain ⟨r, stayed, inValue⟩ := inValue_stays cr inValue
    cases stayed.symm.trans next
    exact .value parts headers name (value ++ [c]) (by simp) letters (by simp [noCR, Ne.symm cr]) inValue

theorem headedText_snoc (parts : List (BodyPart boundary)) (headers : List HeaderLine) (line : HeaderLine) :
    headedText boundary parts (headers ++ [line]) = headedText boundary parts headers ++ line.text := by
  simp [headedText, headersText]

theorem partsText_snoc (parts : List (BodyPart boundary)) (part : BodyPart boundary) :
    partsText boundary (parts ++ [part]) =
      headedText boundary parts part.headers ++ part.stray ++ [CR, LF] ++ (part.content ++ delimiter boundary) := by
  simp [partsText, headedText, BodyPart.text]

theorem place_scans {parts : List (BodyPart boundary)} {headers : List HeaderLine} {stray data : Bytes} {reported : List Bytes}
    {fed : Fed} (letters : ∀ c ∈ stray, isHeaderNameByte c = true)
    (scans : fed.Scans boundary data reported) (next : fed.parser? = some q) :
    Place boundary (headedText boundary parts headers ++ stray ++ [CR, LF] ++ data) q := by
  cases fed with
  | refused => cases next
  | outOfBlock calls => cases next
  | next calls p pending =>
      cases next
      rcases scans with ⟨runs, -, scan⟩ | ⟨-, found⟩
      · exact .data parts headers stray data _ _ rfl letters scan
      · have first := found.split ▸ found.first
        have absent := not_infix_of_firstAt first (by simp [delimiter])
        refine .delimited (parts ++ [⟨headers, stray, reported.flatten, letters, absent⟩]) ?_ (by simp) found.state
        rw [partsText_snoc, found.split]

theorem Place.step (nonempty : boundary ≠ .empty) (noCR : CR ∉ boundary.bytes) (intact : Intact boundary p)
    (place : Place boundary x p) (next : p.next? c = some q) : Place boundary (x ++ [c]) q := by
  cases place with
  | opening n split inside stands =>
      subst stands
      rw [split]
      exact place_opening inside next
  | name parts headers run split letters state =>
      rw [split]
      exact place_name letters state next
  | headersAlmostDone parts headers stray split letters state =>
      simp [Parser.next?, Parser.feed, state] at next
      split_ifs at next with lf
      · cases next
        exact .dataStart parts headers stray (by simp [split, lf]) letters rfl
      · cases next
  | dataStart parts headers stray split letters state =>
      rw [split]
      apply place_scans letters (start_scans intact c)
      rw [← next]
      simp only [Parser.next?, Parser.feed, state, Parser.feedPartData]
      split_ifs
      · split <;> rfl
      · rfl
  | value parts headers name value split letters noCR state =>
      rw [split]
      exact place_value letters noCR state next
  | valueAlmostDone parts headers line split state =>
      simp [Parser.next?, Parser.feed, state] at next
      split_ifs at next with lf
      · cases next
        refine .name parts (headers ++ [line]) [] ?_ (by simp) (.inl rfl)
        rw [lf, split, headedText_snoc, List.append_nil]
      · cases next
  | data parts headers stray data reported pending split letters scan =>
      rw [split, List.append_assoc _ data]
      exact place_scans letters (feed_scans nonempty noCR c scan) (by rw [Parser.feed_parser?, next])
  | delimited parts split some_ state =>
      simp [Parser.next?, Parser.feed, state] at next
      split_ifs at next with hyphen cr
      · cases next
        exact .finalHyphen parts (by rw [split, hyphen]) some_ rfl
      · cases next
        exact .next parts (by rw [split, cr]) rfl
      · cases next
  | next parts split state =>
      simp [Parser.next?, Parser.feed, state] at next
      split_ifs at next with lf
      · cases next
        exact .name parts [] [] (by simp [split, lf, headedText, headersText]) (by simp) (.inl rfl)
      · cases next
  | finalHyphen parts split some_ state =>
      simp [Parser.next?, Parser.feed, state] at next
      split_ifs at next with hyphen
      · cases next
        exact .ended parts [] (by simp [split, hyphen, closed]) some_ rfl
      · cases next
  | ended parts tail split some_ state =>
      simp [Parser.next?, Parser.feed, state, Fed.parser?] at next
      exact .ended parts (tail ++ [c]) (by simp [split, closed]) some_ (next ▸ state)

theorem run?_place (nonempty : boundary ≠ .empty) (noCR : CR ∉ boundary.bytes)
    (run : (multipartParserInit boundary).run? x = some q) : Place boundary x q := by
  have both := Parser.run?_along (I := fun x p => Intact boundary p ∧ Place boundary x p) ?_ x
    ⟨init_intact boundary, .init⟩ run
  · exact both.2
  · intro x c p q stands next
    exact ⟨next?_intact nonempty stands.1 next, stands.2.step nonempty noCR stands.1 next⟩

end Place

theorem not_letter_colon : ¬ isHeaderNameByte 58 = true := by decide

theorem not_letter_CR : ¬ isHeaderNameByte CR = true := by decide

theorem headersText_inj {headers headers' : List HeaderLine} {stray stray' rest rest' : Bytes}
    (letters : ∀ c ∈ stray, isHeaderNameByte c = true) (letters' : ∀ c ∈ stray', isHeaderNameByte c = true)
    (same : headersText headers ++ stray ++ CR :: rest = headersText headers' ++ stray' ++ CR :: rest') :
    headers = headers' ∧ stray = stray' ∧ rest = rest' := by
  have split (line : HeaderLine) (headers : List HeaderLine) (stray rest : Bytes) :
      headersText (line :: headers) ++ stray ++ CR :: rest =
        line.name ++ 58 :: (line.value ++ CR :: (LF :: headersText headers ++ stray ++ CR :: rest)) := by
    simp [headersText, HeaderLine.text]
  induction headers generalizing headers' with
  | nil =>
      cases headers' with
      | nil =>
          obtain ⟨rfl, -, rfl⟩ := run_cons_inj (J := (isHeaderNameByte · = true)) same letters letters' not_letter_CR
            not_letter_CR
          exact ⟨rfl, rfl, rfl⟩
      | cons line' headers' =>
          rw [split] at same
          obtain ⟨-, colon, -⟩ := run_cons_inj (J := (isHeaderNameByte · = true)) same letters line'.letters not_letter_CR
            not_letter_colon
          exact absurd colon (by decide)
  | cons line headers ih =>
      rw [split] at same
      cases headers' with
      | nil =>
          obtain ⟨-, colon, -⟩ := run_cons_inj (J := (isHeaderNameByte · = true)) same line.letters letters'
            not_letter_colon not_letter_CR
          exact absurd colon (by decide)
      | cons line' headers' =>
          rw [split] at same
          obtain ⟨name, -, same⟩ := run_cons_inj (J := (isHeaderNameByte · = true)) same line.letters line'.letters
            not_letter_colon not_letter_colon
          obtain ⟨value, same⟩ := append_cons_inj same line.noCR line'.noCR
          obtain ⟨rfl, rfl, rfl⟩ := ih (List.cons.inj same).2
          obtain ⟨_, _, _, _⟩ := line
          obtain ⟨_, _, _, _⟩ := line'
          cases name
          cases value
          exact ⟨rfl, rfl, rfl⟩

theorem part_inj (noCR : CR ∉ boundary.bytes) {part part' : BodyPart boundary} {rest rest' : Bytes}
    (same : part.text ++ delimiter boundary ++ rest = part'.text ++ delimiter boundary ++ rest') :
    part = part' ∧ rest = rest' := by
  obtain ⟨headers, stray, content, letters, absent⟩ := part
  obtain ⟨headers', stray', content', letters', absent'⟩ := part'
  have lines : headersText headers ++ stray ++ CR :: (LF :: (content ++ delimiter boundary ++ rest)) =
      headersText headers' ++ stray' ++ CR :: (LF :: (content' ++ delimiter boundary ++ rest')) := by
    simpa [BodyPart.text] using same
  obtain ⟨rfl, rfl, behind⟩ := headersText_inj letters letters' lines
  replace behind := (List.cons.inj behind).2
  have first := firstAt_of_not_infix (delimiter_once noCR) absent rest
  have first' := firstAt_of_not_infix (delimiter_once noCR) absent' rest'
  have length := first.unique (behind ▸ first')
  rw [List.append_assoc, List.append_assoc] at behind
  obtain ⟨rfl, last⟩ := List.append_inj behind length
  exact ⟨rfl, List.append_cancel_left last⟩

theorem closed_inj (noCR : CR ∉ boundary.bytes) {parts parts' : List (BodyPart boundary)} {tail tail' : Bytes}
    (same : closed boundary parts tail = closed boundary parts' tail') : parts = parts' ∧ tail = tail' := by
  simp only [closed, partsText, List.append_assoc] at same
  replace same := List.append_cancel_left same
  induction parts generalizing parts' with
  | nil =>
      cases parts' with
      | nil => exact ⟨rfl, List.append_cancel_left same⟩
      | cons part' parts' => exact absurd (List.cons.inj same).1 (by decide)
  | cons part parts ih =>
      cases parts' with
      | nil => exact absurd (List.cons.inj same).1 (by decide)
      | cons part' parts' =>
          simp only [List.flatMap_cons, List.append_assoc] at same ih
          have behind := List.append_cancel_left same
          rw [← List.append_assoc, ← List.append_assoc part'.text] at behind
          obtain ⟨rfl, others⟩ := part_inj noCR behind
          obtain ⟨rfl, rfl⟩ := ih others
          exact ⟨rfl, rfl⟩

/-! ## What is accepted -/

def StandsAfter (settings : Settings σ) (boundary : CString) (chunks : List Bytes) (s : σ) (state : State) : Prop :=
  ∃ p t, executeChunks settings chunks (multipartParserInit boundary, s) = .ok (p, t) ∧ p.state = state

/-- `s_part_data_start` is the state whose next byte calls `on_headers_complete`. -/
structure AcceptsGrammar (settings : Settings σ) (boundary : CString) (chunks : List Bytes) (s : σ) : Prop where
  accepted : StandsAfter settings boundary chunks s .ended ↔ InGrammar boundary chunks.flatten
  emptyLine : ∀ done left, done.flatten ++ left = chunks.flatten →
    StandsAfter settings boundary done s .partDataStart → [CR, LF, CR, LF] <:+ done.flatten
  colonless : ∀ done line left, done.flatten ++ (line ++ [CR, LF]) ++ left = chunks.flatten →
    line ≠ [] → ¬ [CR, LF] <:+: line → 58 ∉ line → StandsAfter settings boundary done s .headerFieldStart →
    ∀ r, executeChunks settings (done ++ [line ++ [CR, LF]]) (multipartParserInit boundary, s) ≠ .ok r

/-- The headers of some part end with a line of letters. -/
def StrayLine (boundary : CString) (body : Bytes) : Prop :=
  ∃ (parts : List (BodyPart boundary)) (headers : List HeaderLine) (stray : Bytes),
    stray ≠ [] ∧ (∀ c ∈ stray, isHeaderNameByte c = true) ∧
      headedText boundary parts headers ++ stray ++ [CR, LF] <+: body

/-- The body has a header line that begins with its colon, and is whole. -/
def NamelessHeader (boundary : CString) (body : Bytes) : Prop :=
  ∃ (parts : List (BodyPart boundary)) (tail : Bytes), (∃ part ∈ parts, ∃ line ∈ part.headers, line.name = []) ∧
    body = closed boundary parts tail

theorem headedText_ends (boundary : CString) (parts : List (BodyPart boundary)) (headers : List HeaderLine) :
    [CR, LF] <:+ headedText boundary parts headers := by
  cases headers using List.reverseRecOn with
  | nil => exact ⟨partsText boundary parts, by simp [headedText, headersText]⟩
  | append_singleton headers line =>
      rw [headedText_snoc]
      exact ⟨headedText boundary parts headers ++ (line.name ++ 58 :: line.value), by simp [HeaderLine.text]⟩

theorem inName_ends {p : Parser} (inName : InName p) : p.next? CR = some { p with state := .headersAlmostDone } :=
  next?_inName inName CR

theorem headersAlmostDone_next {p : Parser} (state : p.state = .headersAlmostDone) (c : UInt8) :
    p.next? c = if c = LF then some { p with state := .partDataStart } else none := by
  simp only [Parser.next?, Parser.feed, state, ne_eq, ite_not]
  split_ifs <;> rfl

theorem inName_line {line : Bytes} {p q : Parser} (inName : InName p) (noCRLF : ¬ [CR, LF] <:+: line)
    (noColon : 58 ∉ line) (run : p.run? (line ++ [CR, LF]) = some q) :
    (∀ c ∈ line, isHeaderNameByte c = true) ∧ q.state = .partDataStart := by
  induction line generalizing p with
  | nil =>
      rw [List.nil_append, Parser.run?_cons, inName_ends inName, Option.bind_some, Parser.run?_cons,
        headersAlmostDone_next rfl, if_pos rfl] at run
      cases run
      exact ⟨by simp, rfl⟩
  | cons c line ih =>
      rw [List.cons_append, Parser.run?_cons] at run
      by_cases cr : c = CR
      · -- Behind a CR there would be LF.
        subst cr
        rw [inName_ends inName, Option.bind_some] at run
        cases line with
        | nil =>
            rw [List.nil_append, Parser.run?_cons, headersAlmostDone_next rfl, if_neg (by decide)] at run
            cases run
        | cons d line =>
            rw [List.cons_append, Parser.run?_cons, headersAlmostDone_next rfl] at run
            split_ifs at run with lf
            · exact absurd ⟨[], line, by rw [lf]; rfl⟩ noCRLF
            · cases run
      · have inLine : ¬ [CR, LF] <:+: line := fun occurs => noCRLF (occurs.trans (List.suffix_cons c line).isInfix)
        rw [List.mem_cons, not_or] at noColon
        by_cases letter : isHeaderNameByte c = true
        · obtain ⟨r, next, inName⟩ := inName_letter letter inName
          rw [next] at run
          obtain ⟨letters, state⟩ := ih inName inLine noColon.2 run
          exact ⟨List.forall_mem_cons.2 ⟨letter, letters⟩, state⟩
        · have refused : p.next? c = none := by
            rw [next?_inName inName]
            simp [Parser.feedHeaderField, cr, Ne.symm noColon.1, letter, Fed.parser?]
          rw [refused] at run
          cases run

section Accepted
variable {settings : Settings σ} {chunks : List Bytes} {s : σ}

theorem standsAfter_iff (answers : settings.AllOk) (chunks : List Bytes) (s : σ) (state : State) :
    StandsAfter settings boundary chunks s state ↔ Reaches (multipartParserInit boundary) chunks.flatten state := by
  constructor
  · rintro ⟨p, t, executed, stands⟩
    exact ⟨p, (executeChunks_iff answers chunks _ p s).1 ⟨t, executed⟩, stands⟩
  · rintro ⟨p, run, stands⟩
    obtain ⟨t, executed⟩ := (executeChunks_iff answers chunks _ p s).2 run
    exact ⟨p, t, executed, stands⟩

def HasRead (boundary : CString) (x : Bytes) : State → Prop
  | .ended => ∃ parts tail, parts ≠ [] ∧ x = closed boundary parts tail
  | .partDataStart => ∃ parts headers stray, x = headedText boundary parts headers ++ stray ++ [CR, LF] ∧
      ∀ c ∈ stray, isHeaderNameByte c = true
  | _ => True

theorem Place.hasRead {x : Bytes} {p : Parser} (place : Place boundary x p) : HasRead boundary x p.state := by
  cases place with
  | ended parts tail split some_ state =>
      rw [state]
      exact ⟨parts, tail, some_, split⟩
  | dataStart parts headers stray split letters state =>
      rw [state]
      exact ⟨parts, headers, stray, split, letters⟩
  | opening n split inside stands =>
      subst stands
      cases n <;> trivial
  | name parts headers run split letters state => rcases state with state | state <;> rw [state] <;> trivial
  | value parts headers name value split letters noCR state => rcases state with state | state <;> rw [state] <;> trivial
  | data parts headers stray data reported pending split letters scan =>
      have searching := scan.searching
      cases state : p.state <;> rw [state] at searching <;> trivial
  | headersAlmostDone _ _ _ _ _ state => rw [state]; trivial
  | valueAlmostDone _ _ _ _ state => rw [state]; trivial
  | delimited _ _ _ state => rw [state]; trivial
  | next _ _ state => rw [state]; trivial
  | finalHyphen _ _ _ state => rw [state]; trivial

theorem reaches_hasRead (nonempty : boundary ≠ .empty) (noCR : CR ∉ boundary.bytes) {x : Bytes} {state : State}
    (reaches : Reaches (multipartParserInit boundary) x state) : HasRead boundary x state := by
  obtain ⟨p, run, rfl⟩ := reaches
  exact (run?_place nonempty noCR run).hasRead

theorem ended_inGrammar (nonempty : boundary ≠ .empty) (noCR : CR ∉ boundary.bytes) {body : Bytes}
    (noStray : ¬ StrayLine boundary body) (named : ¬ NamelessHeader boundary body)
    (ended : Reaches (multipartParserInit boundary) body .ended) : InGrammar boundary body := by
  obtain ⟨parts, tail, some_, rfl⟩ := reaches_hasRead nonempty noCR ended
  refine ⟨parts, tail, some_, ?_, rfl⟩
  intro part mem
  constructor
  · by_contra stray
    obtain ⟨front, behind, rfl⟩ := List.append_of_mem mem
    apply noStray
    refine ⟨front, part.headers, part.stray, stray, part.letters, ?_⟩
    refine ⟨part.content ++ delimiter boundary ++
      (behind.flatMap fun part => [CR, LF] ++ part.text ++ delimiter boundary) ++ [45, 45] ++ tail, ?_⟩
    simp [closed, partsText, headedText, BodyPart.text]
  · intro line inHeaders nameless
    exact named ⟨parts, tail, ⟨part, mem, line, inHeaders, nameless⟩, rfl⟩

theorem emptyLine_reaches (nonempty : boundary ≠ .empty) (noCR : CR ∉ boundary.bytes) {done left : Bytes}
    (noStray : ¬ StrayLine boundary (done ++ left))
    (dataStart : Reaches (multipartParserInit boundary) done .partDataStart) : [CR, LF, CR, LF] <:+ done := by
  obtain ⟨parts, headers, stray, rfl, letters⟩ := reaches_hasRead nonempty noCR dataStart
  have empty : stray = [] := by
    by_contra some_
    exact noStray ⟨parts, headers, stray, some_, letters, List.prefix_append _ _⟩
  obtain ⟨front, ends⟩ := headedText_ends boundary parts headers
  exact ⟨front, by rw [empty, ← ends]; simp⟩

theorem colonless_reaches (nonempty : boundary ≠ .empty) (noCR : CR ∉ boundary.bytes) {done line left : Bytes}
    {p q : Parser} (noStray : ¬ StrayLine boundary (done ++ (line ++ [CR, LF]) ++ left)) (some_ : line ≠ [])
    (noCRLF : ¬ [CR, LF] <:+: line) (noColon : 58 ∉ line) (run : (multipartParserInit boundary).run? done = some p)
    (state : p.state = .headerFieldStart) : p.run? (line ++ [CR, LF]) ≠ some q := by
  intro goes_on
  obtain ⟨letters, dataStart⟩ := inName_line (.inl state) noCRLF noColon goes_on
  have whole : Reaches (multipartParserInit boundary) (done ++ (line ++ [CR, LF])) .partDataStart :=
    ⟨q, by rw [Parser.run?_append, run]; exact goes_on, dataStart⟩
  obtain ⟨parts, headers, stray, split, strayLetters⟩ := reaches_hasRead nonempty noCR whole
  have empty : stray = [] := by
    by_contra some_
    exact noStray ⟨parts, headers, stray, some_, strayLetters, by rw [split]; exact List.prefix_append _ _⟩
  -- The line would end with the LF of the line before it.
  obtain ⟨front, ends⟩ := headedText_ends boundary parts headers
  obtain ⟨first, last, rfl⟩ := (List.eq_nil_or_concat line).resolve_left some_
  rw [empty, List.append_nil, ← ends, ← List.append_assoc] at split
  have lines := List.append_cancel_right split
  have letter := letters last (by simp)
  have same : last = LF := by
    have at_end := congrArg List.getLast? lines
    simpa using at_end
  exact (letter_ne letter).2.1 same

/-- The parser accepts the grammar, and no more, unless a stray line or a header without a name stands in the body. -/
theorem acceptsGrammar_iff (settings : Settings σ) (answers : settings.AllOk) (boundary : CString)
    (nonempty : boundary ≠ .empty) (noCR : CR ∉ boundary.bytes) (chunks : List Bytes) (s : σ) :
    AcceptsGrammar settings boundary chunks s ↔
      ¬ StrayLine boundary chunks.flatten ∧ ¬ NamelessHeader boundary chunks.flatten := by
  constructor
  · rintro ⟨accepted, emptyLine, colonless⟩
    constructor
    · rintro ⟨parts, headers, stray, some_, letters, left, split⟩
      have line := headedText_reaches nonempty noCR parts headers
      obtain ⟨q, run, -⟩ := line.append nonempty (init_intact boundary) fun p intact state =>
        stray_reaches nonempty letters intact state
      have noCRLF : ¬ [CR, LF] <:+: stray := fun occurs => (letter_ne (letters CR (occurs.subset (by simp)))).1 rfl
      -- The parser goes on behind the stray line, which `colonless` excludes.
      have noColon : 58 ∉ stray := fun mem => (letter_ne (letters 58 mem)).2.2 rfl
      obtain ⟨t, executed⟩ := (executeChunks_iff answers ([headedText boundary parts headers] ++ [stray ++ [CR, LF]]) _ q s).2
        (by simpa using run)
      refine colonless [headedText boundary parts headers] stray left ?_ some_ noCRLF noColon ?_ (q, t) executed
      · simpa using split
      · rw [standsAfter_iff answers]
        simpa using line
    · rintro ⟨parts, tail, ⟨part, mem, line, inHeaders, nameless⟩, split⟩
      have some_ : parts ≠ [] := List.ne_nil_of_mem mem
      have ended : Reaches (multipartParserInit boundary) chunks.flatten .ended := by
        rw [split]
        exact closed_reaches nonempty noCR some_ tail
      obtain ⟨parts', tail', -, wellFormed, split'⟩ := accepted.1 ((standsAfter_iff answers chunks s .ended).2 ended)
      obtain ⟨rfl, -⟩ := closed_inj noCR (split.symm.trans split')
      exact (wellFormed part mem).2 line inHeaders nameless
  · rintro ⟨noStray, named⟩
    refine ⟨?_, ?_, ?_⟩
    · rw [standsAfter_iff answers]
      constructor
      · exact ended_inGrammar nonempty noCR noStray named
      · rintro ⟨parts, tail, some_, -, split⟩
        rw [split]
        exact closed_reaches nonempty noCR some_ tail
    · intro done left split dataStart
      rw [← split] at noStray
      exact emptyLine_reaches nonempty noCR noStray ((standsAfter_iff answers done s _).1 dataStart)
    · intro done line left split some_ noCRLF noColon ⟨p, t, executed, state⟩ r goes_on
      have run := (executeChunks_iff answers done _ p s).1 ⟨t, executed⟩
      have both := (executeChunks_iff answers (done ++ [line ++ [CR, LF]]) _ r.1 s).1 ⟨r.2, goes_on⟩
      rw [List.flatten_append, List.flatten_singleton, Parser.run?_append, run, Option.bind_some] at both
      rw [← split] at noStray
      exact colonless_reaches nonempty noCR noStray some_ noCRLF noColon run state both

/-! The line `abc` has no colon, and `x` becomes the content of its part. -/

def silent : Settings Unit where
  onHeaderField _ s := .ok s
  onHeaderValue _ s := .ok s
  onPartData _ s := .ok s
  onPartDataBegin s := .ok s
  onHeadersComplete s := .ok s
  onPartDataEnd s := .ok s
  onBodyEnd s := .ok s

theorem silent_allOk : silent.AllOk := by
  intro k s
  cases k <;> exact ⟨s, rfl⟩

def strayPart : BodyPart (.lit "b") where
  headers := []
  stray := ascii "abc"
  content := ascii "x"
  letters := by decide +kernel
  absent := by decide +kernel

theorem strayPart_acceptsGrammar_iff :
    AcceptsGrammar silent (.lit "b") [ascii "b\r\nabc\r\nx\r\nb--"] () ↔
      ¬ StrayLine (.lit "b") [ascii "b\r\nabc\r\nx\r\nb--"].flatten ∧
        ¬ NamelessHeader (.lit "b") [ascii "b\r\nabc\r\nx\r\nb--"].flatten :=
  acceptsGrammar_iff silent silent_allOk (.lit "b") (by decide +kernel) (by decide +kernel) _ ()

theorem strayPart_accepted : ¬ AcceptsGrammar silent (.lit "b") [ascii "b\r\nabc\r\nx\r\nb--"] () := by
  rintro ⟨accepted, -, -⟩
  have body : [ascii "b\r\nabc\r\nx\r\nb--"].flatten = closed (.lit "b") [strayPart] [] := by decide +kernel
  rw [standsAfter_iff silent_allOk, body] at accepted
  have ended : Reaches (multipartParserInit (.lit "b")) (closed (.lit "b") [strayPart] []) .ended :=
    closed_reaches (by decide +kernel) (by decide +kernel) (by simp) []
  obtain ⟨parts, tail, -, wellFormed, same⟩ := accepted.1 ended
  obtain ⟨rfl, -⟩ := closed_inj (by decide +kernel) same
  have empty := (wellFormed strayPart (by simp)).1
  revert empty
  decide +kernel

end Accepted
end HvmlFpm.Multipart
