import HvmlFpm.Multipart.Grammar
import HvmlFpm.Multipart.Pieces
import HvmlFpm.Multipart.Sizes

/-!
# The headers of the first part

Up to the end of the first headers nothing is decoded. Whether anything ever is depends on what
`headers_complete_cb` then finds.
-/

namespace HvmlFpm.Multipart
open Library
variable {boundary : CString}

def Parser.front? (p : Parser) (x : Bytes) : Option Parser :=
  x.foldlM (fun p c => if p.state = .partDataStart then none else p.next? c) p

theorem Parser.front?_cons (p : Parser) (c : UInt8) (x : Bytes) :
    p.front? (c :: x) = (if p.state = .partDataStart then none else p.next? c).bind (·.front? x) :=
  List.foldlM_cons

theorem Parser.front?_append (p : Parser) (x y : Bytes) : p.front? (x ++ y) = (p.front? x).bind (·.front? y) :=
  List.foldlM_append

theorem Parser.front?_next {p q : Parser} {c : UInt8} (other : p.state ≠ .partDataStart) (next : p.next? c = some q)
    (x : Bytes) : p.front? (c :: x) = q.front? x := by
  rw [front?_cons, if_neg other, next, Option.bind_some]

def colonAhead (left : Bytes) : Bool := (left.dropWhile isHeaderNameByte).head? == some 58

theorem colonAhead_letter {c : UInt8} (letter : isHeaderNameByte c = true) (left : Bytes) :
    colonAhead (c :: left) = colonAhead left := by
  rw [colonAhead, List.dropWhile_cons_of_pos letter]
  rfl

def NamesIn (N : UInt8 → Prop) : Parser → Bytes → Prop
  | _, [] => True
  | p, c :: left => (InName p → colonAhead (c :: left) = true → N c) ∧ ∀ q, p.next? c = some q → NamesIn N q left

/-! ## The processor in front of the first data -/

structure Heading (s : Session) : Prop where
  headers : s.headers.isSome = true
  even : s.lastHeaderValue.isSome = true → s.lastHeaderName.isSome = true

def Untouched (s : Session) : Prop := s.post = .empty ∧ s.files = .empty

inductive Phase (boundary : CString) : Parser → Bytes → Session → Prop
  | opening {s : Session} (n : Nat) (inside : n < (opening boundary).length) (headers : s.headers = none) (blank : Blank s) :
      Phase boundary (waiting boundary n) [] s
  | line {p : Parser} {s : Session} (state : p.state = .headerFieldStart) (heading : Heading s) : Phase boundary p [] s
  | name {p : Parser} {pending : Bytes} {s : Session} (state : p.state = .headerField) (heading : Heading s) :
      Phase boundary p pending s
  | headersAlmostDone {p : Parser} {s : Session} (state : p.state = .headersAlmostDone) (heading : Heading s) :
      Phase boundary p [] s
  | dataStart {p : Parser} {s : Session} (state : p.state = .partDataStart) (heading : Heading s) : Phase boundary p [] s
  | valueStart {p : Parser} {s : Session} (state : p.state = .headerValueStart) (heading : Heading s)
      (named : s.lastHeaderName.isSome = true) : Phase boundary p [] s
  | value {p : Parser} {pending : Bytes} {s : Session} (state : p.state = .headerValue) (heading : Heading s)
      (named : s.lastHeaderName.isSome = true) : Phase boundary p pending s
  | valueAlmostDone {p : Parser} {s : Session} (state : p.state = .headerValueAlmostDone) (heading : Heading s) :
      Phase boundary p [] s

section Callbacks
variable {s : Session}

theorem headerFieldCb_heading (heading : Heading s) (run : Bytes) :
    ∃ t, headerFieldCb run s = .ok t ∧ Heading t ∧ t.lastHeaderName.isSome = true ∧ t.post = s.post ∧ t.files = s.files := by
  obtain ⟨filed, ok⟩ := fileHeader_ok heading.headers
  have frame := (fileHeader_spec s).of_ok ok
  have named := named_frame filed run
  refine ⟨filed.named run, by rw [headerFieldCb_eq, ok]; rfl, ⟨?_, fun _ => named_lastHeaderName_isSome ..⟩,
    named_lastHeaderName_isSome .., named.post.trans frame.post, named.files.trans frame.files⟩
  rw [named.headers, frame.headers, heading.headers]

theorem headerValueCb_heading (heading : Heading s) (named : s.lastHeaderName.isSome = true) (run : Bytes) :
    ∃ t, headerValueCb run s = .ok t ∧ Heading t ∧ t.lastHeaderName = s.lastHeaderName ∧ t.headers = s.headers ∧
      t.post = s.post ∧ t.files = s.files := by
  obtain ⟨name, name_eq⟩ := Option.isSome_iff_exists.1 named
  have called : ∃ value length, headerValueCb run s =
      .ok { s with lastHeaderValue := some value, lastHeaderValueLen := length } := by
    unfold headerValueCb
    cases value : s.lastHeaderValue with
    | none => exact ⟨_, _, by simp only [name_eq]; rfl⟩
    | some old => exact ⟨_, _, by simp only [name_eq]; rfl⟩
  obtain ⟨value, length, called⟩ := called
  exact ⟨_, called, ⟨heading.headers, fun _ => named⟩, rfl, rfl, rfl, rfl⟩

end Callbacks

section Keys
variable {N : UInt8 → Prop} {s t : Session}

def AllIn (N : UInt8 → Prop) (name : CString) : Prop := ∀ c ∈ name.bytes, N c

def LastIn (N : UInt8 → Prop) (s : Session) : Prop := ∀ name, s.lastHeaderName = some name → AllIn N name

structure Keyed (N : UInt8 → Prop) (s : Session) : Prop where
  filed : ∀ map, s.headers = some map → ∀ name value, map name = some value → AllIn N name
  complete : s.lastHeaderValue.isSome = true → LastIn N s

theorem ofBuffer_allIn {run : Bytes} (all : ∀ c ∈ run, N c) : AllIn N (.ofBuffer run) := by
  intro c mem
  exact all c ((List.takeWhile_prefix _).subset mem)

theorem fileHeader_keyed (heading : Heading s) (keyed : Keyed N s) (ok : fileHeader s = .ok t) :
    Keyed N t ∧ t.lastHeaderValue = none ∧ ((s.lastHeaderValue = none → LastIn N s) → LastIn N t) := by
  cases value : s.lastHeaderValue with
  | none =>
      rw [fileHeader_incomplete value] at ok
      cases ok
      exact ⟨keyed, value, fun last => last rfl⟩
  | some v =>
      obtain ⟨name, name_eq⟩ := Option.isSome_iff_exists.1 (heading.even (by simp [value]))
      obtain ⟨map, headers⟩ := Option.isSome_iff_exists.1 heading.headers
      simp only [fileHeader, addNewHeader, name_eq, value, headers, Option.isSome_some, and_self, if_true] at ok
      cases ok
      refine ⟨⟨?_, by simp⟩, rfl, fun _ => by simp [LastIn]⟩
      intro map' same name' value' entry
      cases same
      rw [kvlistSet, Function.update_apply] at entry
      split_ifs at entry with key
      · rw [key]
        exact keyed.complete (by simp [value]) name name_eq
      · exact keyed.filed map headers name' value' entry

theorem headerFieldCb_keyed (heading : Heading s) (keyed : Keyed N s) {run : Bytes}
    (called : headerFieldCb run s = .ok t) :
    Keyed N t ∧ ((∀ c ∈ run, N c) → (s.lastHeaderValue = none → LastIn N s) → LastIn N t) := by
  rw [headerFieldCb_eq] at called
  obtain ⟨filed, ok, rfl⟩ := Outcome.map_eq_ok.1 called
  obtain ⟨keyed', fresh, last⟩ := fileHeader_keyed heading keyed ok
  have headers : (filed.named run).headers = filed.headers := by
    unfold Session.named
    split <;> rfl
  refine ⟨⟨by rw [headers]; exact keyed'.filed, by simp [fresh]⟩, ?_⟩
  intro all lastIn name named
  unfold Session.named at named
  split at named
  · cases named
    exact ofBuffer_allIn all
  · next old old_eq =>
    cases named
    intro c mem
    rcases List.mem_append.1 mem with mem | mem
    · exact last lastIn old old_eq c mem
    · exact ofBuffer_allIn all c mem

theorem headerValueCb_keyed (keyed : Keyed N s) (last : LastIn N s)
    (name : t.lastHeaderName = s.lastHeaderName) (headers : t.headers = s.headers) : Keyed N t ∧ LastIn N t := by
  have last' : LastIn N t := by
    rw [LastIn, name]
    exact last
  refine ⟨⟨?_, fun _ => last'⟩, last'⟩
  rw [headers]
  exact keyed.filed

end Keys

/-! ## What is taken -/

section Taken
variable {host : Host} {s t : Session}

/-- What `headers_complete_cb` looks up does not make it refuse the part. -/
def takes (host : Host) (s : Session) : Bool :=
  match (fileHeader s).result?.bind Session.headers with
  | none => true
  | some headers =>
      match kvlistGet headers (.lit "Content-Disposition") with
      | none => false
      | some contentDisposition =>
          strStartsWith contentDisposition (.lit "form-data;") &&
            match attrsMapParse .init (contentDisposition.drop 10) with
            | none => true
            | some attrs =>
                (kvlistGet attrs (.lit "name")).isSome &&
                  ((kvlistGet attrs (.lit "filename")).isNone ||
                    (host.mkstemp s.disk.length).isSome && host.fdopen s.disk.length &&
                      (kvlistGet headers (.lit "Content-Type")).isSome)

def Filled (s : Session) : Prop := ∃ key, (s.post key).isSome = true ∨ (s.files key).isSome = true

def SameDecoded (s t : Session) : Prop := t.post = s.post ∧ t.files = s.files

theorem HeaderFrame.sameDecoded (frame : HeaderFrame s t) : SameDecoded s t := ⟨frame.post, frame.files⟩

theorem Filled.of_same (filled : Filled s) (same : SameDecoded s t) : Filled t := by
  rw [Filled, same.1, same.2]
  exact filled

theorem openUpload_takes (host : Host) (headers : Kvlist) (name filename : CString) (s : Session) :
    (openUpload host headers name filename s).All
      (fun t => ((host.mkstemp s.disk.length).isSome && host.fdopen s.disk.length &&
        (kvlistGet headers (.lit "Content-Type")).isSome) = true ∧ Filled t)
      (fun t => ((host.mkstemp s.disk.length).isSome && host.fdopen s.disk.length &&
        (kvlistGet headers (.lit "Content-Type")).isSome) = false ∧ SameDecoded s t)
      (fun _ _ => ((host.mkstemp s.disk.length).isSome && host.fdopen s.disk.length &&
        (kvlistGet headers (.lit "Content-Type")).isSome) = true) := by
  unfold openUpload
  cases made : host.mkstemp s.disk.length with
  | none => exact ⟨rfl, rfl, rfl⟩
  | some path =>
      simp only
      cases opened : host.fdopen s.disk.length with
      | false => exact ⟨rfl, rfl, rfl⟩
      | true =>
          simp only [Bool.not_true, Bool.false_eq_true, if_false]
          cases typed : kvlistGet headers (.lit "Content-Type") with
          | none => exact ⟨rfl, rfl, rfl⟩
          | some contentType =>
              simp only
              cases fileObject host.purc filename contentType path with
              | none => exact rfl
              | some file => exact ⟨rfl, name, .inr (by simp)⟩

theorem headersMapDelete_filled (filled : Filled s) :
    (headersMapDelete s).All Filled (fun _ => False) (fun _ _ => True) := by
  unfold headersMapDelete
  split_ifs
  · trivial
  · exact filled

theorem headersComplete_takes (host : Host) (s : Session) :
    (headersCompleteCb host s).All (fun t => takes host s = true ∧ Filled t)
      (fun t => takes host s = false ∧ SameDecoded s t) (fun _ _ => takes host s = true) := by
  have filed := fileHeader_spec s
  unfold headersCompleteCb takes
  cases filing : fileHeader s with
  | fail t => rw [filing] at filed; exact filed.elim
  | stop why t => exact rfl
  | ok t =>
      rw [filing] at filed
      have frame : HeaderFrame s t := filed
      simp only [Outcome.ok_bind, Outcome.result?, Option.bind_some]
      cases headers : t.headers with
      | none => exact rfl
      | some map =>
          simp only
          cases disposition : kvlistGet map (.lit "Content-Disposition") with
          | none => exact ⟨rfl, frame.sameDecoded⟩
          | some contentDisposition =>
              simp only
              cases starts : strStartsWith contentDisposition (.lit "form-data;") with
              | false => exact ⟨rfl, frame.sameDecoded⟩
              | true =>
                  simp only [if_true, Bool.true_and]
                  cases attributes : attrsMapParse .init (contentDisposition.drop 10) with
                  | none => exact rfl
                  | some attrs =>
                      simp only
                      cases fieldName : kvlistGet attrs (.lit "name") with
                      | none => exact ⟨rfl, frame.sameDecoded⟩
                      | some name =>
                          simp only [Option.isSome_some, Bool.true_and]
                          cases fileName : kvlistGet attrs (.lit "filename") with
                          | none =>
                              apply (headersMapDelete_filled ⟨name, .inl (by simp)⟩).mono
                              · exact fun _ filled => ⟨rfl, filled⟩
                              · exact fun _ h => h.elim
                              · exact fun _ _ _ => rfl
                          | some filename =>
                              have opened := openUpload_takes host map name (strSanitize filename) t
                              rw [frame.disk] at opened
                              simp only [Option.isNone_some, Bool.false_or]
                              refine Outcome.All.bind (opened.mono (fun _ h => h) ?_ fun _ _ h => h) ?_
                              · rintro u ⟨refused, post, files⟩
                                exact ⟨refused, post.trans frame.post, files.trans frame.files⟩
                              · rintro u ⟨taken, filled⟩
                                have still : Filled { u with name := some name } := filled
                                apply (headersMapDelete_filled still).mono
                                · exact fun _ filled => ⟨taken, filled⟩
                                · exact fun _ h => h.elim
                                · exact fun _ _ _ => taken

theorem call_filled (host : Host) (k : Call) (filled : Filled s) :
    ((settings host).call k s).All Filled Filled (fun _ _ => True) := by
  cases k with
  | headerField run =>
      exact (headerFieldCb_spec run s).mono (fun _ frame => filled.of_same frame.sameDecoded) (fun _ h => h.elim)
        (fun _ _ _ => trivial)
  | headerValue run =>
      exact (headerValueCb_spec run s).mono (fun _ frame => filled.of_same frame.sameDecoded)
        (fun _ frame => filled.of_same frame.sameDecoded) (fun _ _ _ => trivial)
  | headersComplete =>
      exact (headersComplete_takes host s).mono (fun _ taken => taken.2) (fun _ refused => filled.of_same refused.2)
        (fun _ _ _ => trivial)
  | partData run =>
      change (partDataCb host run s).All _ _ _
      unfold partDataCb
      split_ifs
      · trivial
      · split
        · simp only
          split_ifs
          · exact filled
          · exact filled
        · exact filled
        · exact filled
  | partDataBegin =>
      change (headersMapNew s).All _ _ _
      unfold headersMapNew
      split_ifs
      · trivial
      · exact filled
  | partDataEnd =>
      change (partDataEndCb host s).All _ _ _
      unfold partDataEndCb
      split
      · trivial
      next name _ =>
      split
      · split
        · trivial
        · exact ⟨name, .inr (by simp)⟩
      · next data _ =>
        split
        · trivial
        next post set =>
        unfold Purc.setByCkey at set
        split at set
        · cases set
          exact ⟨name, .inl (by simp)⟩
        · split_ifs at set
          cases set
          exact filled
      · exact filled
  | bodyEnd => exact filled

end Taken

section Run
variable {host : Host} {N : UInt8 → Prop} {body left pending : Bytes} {c : UInt8} {p q : Parser} {s t : Session}

def NoneTaken (host : Host) (log : List (Call × Session)) : Prop :=
  ∀ s, (.headersComplete, s) ∈ log → takes host s = false

theorem noneTaken_record {k : Call} {t : Traced Session} (s : Session) (none : NoneTaken host t.log)
    (last : k = .headersComplete → takes host t.state = false) : NoneTaken host (t.record k s).log := by
  intro found mem
  rcases List.mem_append.1 mem with mem | mem
  · exact none found mem
  · obtain ⟨rfl, rfl⟩ := Prod.mk.inj (List.mem_singleton.1 mem)
    exact last rfl

theorem not_noneTaken_record {k : Call} {t : Traced Session} (s : Session) (taken : ¬ NoneTaken host t.log) :
    ¬ NoneTaken host (t.record k s).log :=
  fun none => taken fun found mem => none found (List.mem_append_left _ mem)

structure KeysIn (N : UInt8 → Prop) (left : Bytes) (p : Parser) (pending : Bytes) (s : Session) : Prop where
  ahead : NamesIn N p left
  keyed : Keyed N s
  last : p.state ≠ .headerField → p.state ≠ .headersAlmostDone → p.state ≠ .partDataStart → LastIn N s
  naming : p.state = .headerField → colonAhead left = true →
    (∀ c ∈ pending, N c) ∧ (s.lastHeaderValue = none → LastIn N s)

structure Front (host : Host) (boundary : CString) (N : UInt8 → Prop) (body left : Bytes) (k : Config (Traced Session)) :
    Prop where
  phase : Phase boundary k.parser k.pending k.data.state
  untouched : Untouched k.data.state
  untaken : NoneTaken host k.data.log
  same : (multipartParserInit boundary).front? body = k.parser.front? left
  keys : NamesIn N (multipartParserInit boundary) body → KeysIn N left k.parser k.pending k.data.state

theorem Front.start : Front host boundary N body body ⟨multipartParserInit boundary, [], .start .init⟩ where
  phase := .opening 0 (by rw [opening_length]; omega) rfl ⟨rfl, rfl⟩
  untouched := ⟨rfl, rfl⟩
  untaken := nofun
  same := rfl
  keys := fun ahead => ⟨ahead, ⟨nofun, nofun⟩, fun _ _ _ => nofun, nofun⟩

/-- A part has been taken: the bytes complete its headers, and the name of one has a byte that is not in `N`. -/
structure Past (host : Host) (boundary : CString) (N : UInt8 → Prop) (body : Bytes) (log : List (Call × Session)) : Prop where
  taken : ¬ NoneTaken host log
  front : (multipartParserInit boundary).front? body = none
  foreign : ¬ NamesIn N (multipartParserInit boundary) body

theorem traced_ok {settings : Settings Session} {k : Call} {t : Traced Session} {s : Session}
    (called : settings.call k t.state = .ok s) : (traced settings).call k t = .ok (t.record k s) := by
  simp [traced, called]

theorem perform_one {settings : Settings Session} {k : Call} {t : Traced Session} {s : Session}
    (called : settings.call k t.state = .ok s) (q : Parser) :
    perform (traced settings) (.next [k] q []) t = .ok ⟨q, [], t.record k s⟩ := by
  rw [perform_next_cons, traced_ok called]
  rfl

theorem SameDecoded.untouched (same : SameDecoded s t) (untouched : Untouched s) : Untouched t :=
  ⟨same.1.trans untouched.1, same.2.trans untouched.2⟩

section Step
variable {k : Config (Traced Session)}

abbrev Front.Leaves (host : Host) (boundary : CString) (N : UInt8 → Prop) (body left : Bytes)
    (x : Outcome Stop (Traced Session) (Config (Traced Session))) : Prop :=
  x.All (Front host boundary N body left)
    (fun t => Untouched t.state ∧ NoneTaken host t.log ∧ (multipartParserInit boundary).front? body = none)
    (fun _ _ => False)

theorem Front.next (front : Front host boundary N body (c :: left) k) (other : k.parser.state ≠ .partDataStart)
    {t : Traced Session} (next : k.parser.next? c = some q) (phase : Phase boundary q pending t.state)
    (same : SameDecoded k.data.state t.state) (untaken : NoneTaken host t.log)
    (keys : KeysIn N (c :: left) k.parser k.pending k.data.state → NamesIn N q left → KeysIn N left q pending t.state) :
    Front host boundary N body left ⟨q, pending, t⟩ where
  phase := phase
  untouched := same.untouched front.untouched
  untaken := untaken
  same := front.same.trans (Parser.front?_next other next left)
  keys := fun names => keys (front.keys names) ((front.keys names).ahead.2 q next)

theorem Front.quiet (front : Front host boundary N body (c :: left) k) (other : k.parser.state ≠ .partDataStart)
    (fed : k.parser.feed k.pending c = .next [] q pending) (phase : Phase boundary q pending k.data.state)
    (keys : KeysIn N (c :: left) k.parser k.pending k.data.state → NamesIn N q left →
      KeysIn N left q pending k.data.state) :
    Front.Leaves host boundary N body left (step (traced (settings host)) c k) := by
  have next : k.parser.next? c = some q := by rw [← Parser.feed_parser? k.parser k.pending, fed]; rfl
  rw [step, fed]
  exact front.next other next phase ⟨rfl, rfl⟩ front.untaken keys

theorem Front.refused (front : Front host boundary N body (c :: left) k) (fed : k.parser.feed k.pending c = .refused) :
    Front.Leaves host boundary N body left (step (traced (settings host)) c k) := by
  have next : k.parser.next? c = none := by rw [← Parser.feed_parser? k.parser k.pending, fed]; rfl
  rw [step, fed]
  refine ⟨front.untouched, front.untaken, ?_⟩
  rw [front.same, Parser.front?_cons, next]
  split_ifs <;> rfl

theorem Front.call (front : Front host boundary N body (c :: left) k) (other : k.parser.state ≠ .partDataStart)
    {call : Call} (fed : k.parser.feed k.pending c = .next [call] q []) (header : call ≠ .headersComplete)
    (called : (settings host).call call k.data.state = .ok t) (phase : Phase boundary q [] t)
    (same : SameDecoded k.data.state t)
    (keys : KeysIn N (c :: left) k.parser k.pending k.data.state → NamesIn N q left → KeysIn N left q [] t) :
    Front.Leaves host boundary N body left (step (traced (settings host)) c k) := by
  have next : k.parser.next? c = some q := by rw [← Parser.feed_parser? k.parser k.pending, fed]; rfl
  rw [step, fed, perform_one called]
  exact front.next other next phase same (noneTaken_record t front.untaken fun e => absurd e header) keys

theorem KeysIn.of_last (ahead : NamesIn N q left) (keyed : Keyed N t) (last : LastIn N t)
    (state : q.state ≠ .headerField) : KeysIn N left q pending t :=
  ⟨ahead, keyed, fun _ _ _ => last, fun at_state => absurd at_state state⟩

theorem KeysIn.inName (keys : KeysIn N left p pending s) (inName : InName p)
    (fresh : p.state = .headerFieldStart → pending = []) (colon : colonAhead left = true) :
    (∀ c ∈ pending, N c) ∧ (s.lastHeaderValue = none → LastIn N s) := by
  rcases inName with state | state
  · rw [fresh state]
    exact ⟨by simp, fun _ => keys.last (by simp [state]) (by simp [state]) (by simp [state])⟩
  · exact keys.naming state colon

theorem step_opening {n : Nat} {t : Traced Session} (inside : n < (opening boundary).length)
    (headers : t.state.headers = none) (blank : Blank t.state)
    (front : Front host boundary N body (c :: left) ⟨waiting boundary n, [], t⟩) :
    Front.Leaves host boundary N body left (step (traced (settings host)) c ⟨waiting boundary n, [], t⟩) := by
  have fed := feed_waiting (List.getElem?_eq_getElem inside) c
  have waits (m : Nat) : (waiting boundary m).state = .start ∨ (waiting boundary m).state = .startBoundary := by
    unfold waiting
    split_ifs
    · exact .inl rfl
    · exact .inr rfl
  have other : (waiting boundary n).state ≠ .partDataStart := by
    rcases waits n with state | state <;> simp [state]
  have last (keys : KeysIn N (c :: left) (waiting boundary n) [] t.state) : LastIn N t.state := by
    rcases waits n with state | state <;> exact keys.last (by simp [state]) (by simp [state]) (by simp [state])
  split_ifs at fed with differs complete
  · exact front.refused fed
  · have called : (settings host).call .partDataBegin t.state = .ok { t.state with headers := some .init } := by
      simp [Settings.call, settings, partDataBeginCb, headersMapNew, headers]
    refine front.call other fed (by simp) called (.line rfl ⟨rfl, by simp [blank.2]⟩) ⟨rfl, rfl⟩ ?_
    intro keys ahead
    refine .of_last ahead ⟨?_, keys.keyed.complete⟩ (last keys) (by simp [opened])
    intro map same name value entry
    cases same
    cases entry
  · have inside' : n + 1 < (opening boundary).length := by
      rw [opening_length] at inside ⊢
      omega
    refine front.quiet other fed (.opening (n + 1) inside' headers blank) ?_
    intro keys ahead
    refine .of_last ahead keys.keyed (last keys) ?_
    rcases waits (n + 1) with state | state <;> simp [state]

theorem feedHeaderField_front {t : Traced Session} (front : Front host boundary N body (c :: left) ⟨p, pending, t⟩)
    (inName : InName p) (fresh : p.state = .headerFieldStart → pending = []) (heading : Heading t.state)
    (fed : p.feed pending c = Parser.feedHeaderField { p with state := .headerField } pending c) :
    Front.Leaves host boundary N body left (step (traced (settings host)) c ⟨p, pending, t⟩) := by
  have other : p.state ≠ .partDataStart := by
    rcases inName with state | state <;> simp [state]
  unfold Parser.feedHeaderField at fed
  split_ifs at fed with isCR isColon foreign
  · refine front.quiet other fed (.headersAlmostDone rfl heading) ?_
    intro keys ahead
    exact ⟨ahead, keys.keyed, fun _ done => absurd rfl done, by simp⟩
  · obtain ⟨u, called, heading', named, same⟩ := headerFieldCb_heading heading pending
    refine front.call other fed (by simp) called (.valueStart rfl heading' named) same ?_
    intro keys ahead
    have colon : colonAhead (c :: left) = true := by
      rw [isColon]
      rfl
    obtain ⟨all, last⟩ := keys.inName inName fresh colon
    obtain ⟨keyed, last'⟩ := headerFieldCb_keyed heading keys.keyed called
    exact .of_last ahead keyed (last' all last) (by simp)
  · exact front.refused fed
  · have letter : isHeaderNameByte c = true := by simpa using foreign
    refine front.quiet other fed (.name rfl heading) ?_
    intro keys ahead
    refine ⟨ahead, keys.keyed, fun field => absurd rfl field, ?_⟩
    intro _ colon
    rw [← colonAhead_letter letter] at colon
    obtain ⟨all, last⟩ := keys.inName inName fresh colon
    refine ⟨?_, last⟩
    intro d mem
    rcases List.mem_append.1 mem with mem | mem
    · exact all d mem
    · rw [List.mem_singleton.1 mem]
      exact keys.ahead.1 inName colon

theorem feedHeaderValue_front {t : Traced Session} (front : Front host boundary N body (c :: left) ⟨p, pending, t⟩)
    (inValue : InValue p) (heading : Heading t.state) (named : t.state.lastHeaderName.isSome = true)
    (fed : p.feed pending c = Parser.feedHeaderValue { p with state := .headerValue } pending c) :
    Front.Leaves host boundary N body left (step (traced (settings host)) c ⟨p, pending, t⟩) := by
  have other : p.state ≠ .partDataStart := by
    rcases inValue with state | state <;> simp [state]
  have last (keys : KeysIn N (c :: left) p pending t.state) : LastIn N t.state := by
    rcases inValue with state | state <;> exact keys.last (by simp [state]) (by simp [state]) (by simp [state])
  unfold Parser.feedHeaderValue at fed
  split_ifs at fed with isCR
  · obtain ⟨u, called, heading', name, headers, same⟩ := headerValueCb_heading heading named pending
    refine front.call other fed (by simp) called (.valueAlmostDone rfl heading') same ?_
    intro keys ahead
    obtain ⟨keyed, last'⟩ := headerValueCb_keyed keys.keyed (last keys) name headers
    exact .of_last ahead keyed last' (by simp)
  · refine front.quiet other fed (.value rfl heading named) ?_
    intro keys ahead
    exact .of_last ahead keys.keyed (last keys) (by simp)

theorem step_front (front : Front host boundary N body (c :: left) k) (other : k.parser.state ≠ .partDataStart) :
    Front.Leaves host boundary N body left (step (traced (settings host)) c k) := by
  obtain ⟨p, pending, t⟩ := k
  have phase : Phase boundary p pending t.state := front.phase
  cases phase with
  | opening n inside headers blank => exact step_opening inside headers blank front
  | line state heading =>
      exact feedHeaderField_front front (.inl state) (fun _ => rfl) heading (by simp [Parser.feed, state])
  | name state heading =>
      have same : ({ p with state := .headerField } : Parser) = p := by rw [← state]
      exact feedHeaderField_front front (.inr state) (fun start => by simp [state] at start) heading
        (by simp [Parser.feed, state, same])
  | headersAlmostDone state heading =>
      have fed : p.feed [] c = if c ≠ LF then .refused else .next [] { p with state := .partDataStart } [] := by
        simp [Parser.feed, state]
      split_ifs at fed
      · exact front.refused fed
      · refine front.quiet other fed (.dataStart rfl heading) ?_
        intro keys ahead
        exact ⟨ahead, keys.keyed, fun _ _ done => absurd rfl done, by simp⟩
  | dataStart state => exact absurd state other
  | valueStart state heading named =>
      by_cases space : c = 32
      · refine front.quiet (q := p) other (by simp [Parser.feed, state, space]) (.valueStart state heading named) ?_
        intro keys ahead
        have last : LastIn N t.state := keys.last (by simp [state]) (by simp [state]) (by simp [state])
        exact .of_last ahead keys.keyed last (by simp [state])
      · exact feedHeaderValue_front front (.inl state) heading named (by simp [Parser.feed, state, space])
  | value state heading named =>
      have same : ({ p with state := .headerValue } : Parser) = p := by rw [← state]
      exact feedHeaderValue_front front (.inr state) heading named (by simp [Parser.feed, state, same])
  | valueAlmostDone state heading =>
      have fed : p.feed [] c = if c ≠ LF then .refused else .next [] { p with state := .headerFieldStart } [] := by
        simp [Parser.feed, state]
      split_ifs at fed
      · exact front.refused fed
      · refine front.quiet other fed (.line rfl heading) ?_
        intro keys ahead
        have last : LastIn N t.state := keys.last (by simp [state]) (by simp [state]) (by simp [state])
        exact .of_last ahead keys.keyed last (by simp)

theorem Front.reported (front : Front host boundary N body left k) {call : Call}
    (pendingCalls : k.parser.pendingCalls k.pending = [call]) (header : call ≠ .headersComplete)
    (called : (settings host).call call k.data.state = .ok t) (phase : Phase boundary k.parser [] t)
    (same : SameDecoded k.data.state t)
    (keys : KeysIn N left k.parser k.pending k.data.state → KeysIn N left k.parser [] t) :
    (flush (traced (settings host)) k).All (fun r => Front host boundary N body left ⟨r.1, [], r.2⟩)
      (fun _ => False) (fun _ _ => False) := by
  rw [flush, pendingCalls, Settings.calls, Outcome.sequence_singleton, traced_ok called, Outcome.ok_map]
  exact {
    phase := phase
    untouched := same.untouched front.untouched
    untaken := noneTaken_record t front.untaken fun e => absurd e header
    same := front.same
    keys := fun names => keys (front.keys names) }

theorem flush_front (front : Front host boundary N body left k) :
    (flush (traced (settings host)) k).All (fun r => Front host boundary N body left ⟨r.1, [], r.2⟩)
      (fun _ => False) (fun _ _ => False) := by
  obtain ⟨p, pending, t⟩ := k
  by_cases empty : pending = []
  · subst empty
    exact front
  have phase : Phase boundary p pending t.state := front.phase
  cases phase with
  | name state heading =>
      obtain ⟨u, called, heading', named, same⟩ := headerFieldCb_heading heading pending
      have calls : p.pendingCalls pending = [.headerField pending] := by simp [Parser.pendingCalls, empty, state]
      refine front.reported calls (by simp) called (.name state heading') same ?_
      intro keys
      obtain ⟨keyed, last⟩ := headerFieldCb_keyed heading keys.keyed called
      refine ⟨keys.ahead, keyed, fun field => absurd state field, ?_⟩
      intro _ colon
      obtain ⟨all, last'⟩ := keys.naming state colon
      exact ⟨by simp, fun _ => last all last'⟩
  | value state heading named =>
      obtain ⟨u, called, heading', name, headers, same⟩ := headerValueCb_heading heading named pending
      have named' : u.lastHeaderName.isSome = true := by rw [name, named]
      have calls : p.pendingCalls pending = [.headerValue pending] := by simp [Parser.pendingCalls, empty, state]
      refine front.reported calls (by simp) called (.value state heading' named') same ?_
      intro keys
      have last : LastIn N t.state := keys.last (by simp [state]) (by simp [state]) (by simp [state])
      obtain ⟨keyed, last'⟩ := headerValueCb_keyed keys.keyed last name headers
      exact .of_last keys.ahead keyed last' (by simp [state])
  | _ => exact absurd rfl empty

end Step

structure Gone (host : Host) (boundary : CString) (N : UInt8 → Prop) (body : Bytes) (t : Traced Session) : Prop where
  past : Past host boundary N body t.log
  filled : Filled t.state

theorem Past.record {t : Traced Session} (past : Past host boundary N body t.log) (k : Call) (s : Session) :
    Past host boundary N body (t.record k s).log :=
  ⟨not_noneTaken_record s past.taken, past.front, past.foreign⟩

theorem calls_gone {t : Traced Session} (calls : List Call) (gone : Gone host boundary N body t) :
    ((traced (settings host)).calls calls t).All (Gone host boundary N body) (Gone host boundary N body)
      (fun _ t => Past host boundary N body t.log) := by
  apply Outcome.All.sequence _ calls gone
  intro k t gone
  apply traced_all (call_filled host k gone.filled)
  · exact fun s filled => ⟨gone.past.record k s, filled⟩
  · exact fun s filled => ⟨gone.past.record k s, filled⟩
  · exact fun _ s _ => gone.past.record k s

theorem perform_gone {t : Traced Session} (fed : Fed) (gone : Gone host boundary N body t) :
    (perform (traced (settings host)) fed t).All (fun k => Gone host boundary N body k.data)
      (Gone host boundary N body) (fun _ t => Past host boundary N body t.log) := by
  cases fed with
  | refused => exact gone
  | outOfBlock calls => exact (calls_gone calls gone).bind fun _ gone => gone.past
  | next calls p pending => exact (calls_gone calls gone).map fun _ gone => gone

theorem takes_allIn (heading : Heading s) (keyed : Keyed N s) (taken : takes host s = true) :
    AllIn N (.lit "Content-Disposition") := by
  obtain ⟨filed, ok⟩ := fileHeader_ok heading.headers
  have keyed' := (fileHeader_keyed heading keyed ok).1
  have frame := (fileHeader_spec s).of_ok ok
  obtain ⟨map, headers⟩ := Option.isSome_iff_exists.1 (frame.headers.trans heading.headers)
  unfold takes at taken
  simp only [ok, Outcome.result?, Option.bind_some, headers] at taken
  cases disposition : kvlistGet map (.lit "Content-Disposition") with
  | none => simp [disposition] at taken
  | some value => exact keyed'.filed map headers _ value disposition

def Stands (host : Host) (boundary : CString) (N : UInt8 → Prop) (body left : Bytes) (k : Config (Traced Session)) :
    Prop :=
  Front host boundary N body left k ∨ Gone host boundary N body k.data

def Rests (host : Host) (boundary : CString) (N : UInt8 → Prop) (body : Bytes) (t : Traced Session) : Prop :=
  Untouched t.state ∧ NoneTaken host t.log ∧ (multipartParserInit boundary).front? body = none ∨
    Gone host boundary N body t

theorem step_dataStart {k : Config (Traced Session)} (foreign : ¬ AllIn N (.lit "Content-Disposition"))
    (front : Front host boundary N body (c :: left) k) (state : k.parser.state = .partDataStart) :
    (step (traced (settings host)) c k).All (Stands host boundary N body left) (Rests host boundary N body)
      (fun _ t => Past host boundary N body t.log) := by
  obtain ⟨p, pending, t⟩ := k
  have phase : Phase boundary p pending t.state := front.phase
  have heading : Heading t.state := by
    cases phase with
    | opening n inside headers blank =>
        unfold waiting at state
        split_ifs at state
    | dataStart _ heading => exact heading
    | _ state' => exact nomatch state'.symm.trans state
  have none_left : (multipartParserInit boundary).front? body = none := by
    rw [front.same, Parser.front?_cons, if_pos state]
    rfl
  have past (s : Session) (taken : takes host t.state = true) :
      Past host boundary N body (t.record .headersComplete s).log := by
    refine ⟨?_, none_left, ?_⟩
    · intro none
      have refused := none t.state (by simp [Traced.record])
      rw [taken] at refused
      cases refused
    · intro names
      exact foreign (takes_allIn heading (front.keys names).keyed taken)
  have first : ((traced (settings host)).call .headersComplete t).All (Gone host boundary N body)
      (Rests host boundary N body) (fun _ t => Past host boundary N body t.log) := by
    apply traced_all (headersComplete_takes host t.state)
    · rintro s ⟨taken, filled⟩
      exact ⟨past s taken, filled⟩
    · rintro s ⟨refused, same⟩
      exact .inl ⟨same.untouched front.untouched, noneTaken_record s front.untaken fun _ => refused, none_left⟩
    · exact fun _ s taken => past s taken
  have fed : p.feed pending c = Parser.feedPartData [.headersComplete] { p with state := .partData } [] c := by
    have state' : p.state = .partDataStart := state
    simp only [Parser.feed, state']
  rw [step, fed, perform_feedPartData_cons]
  apply first.bind
  intro t gone
  exact (perform_gone _ gone).mono (fun _ gone => .inr gone) (fun _ gone => .inr gone) fun _ _ past => past

theorem step_stands {k : Config (Traced Session)} (foreign : ¬ AllIn N (.lit "Content-Disposition"))
    (stands : Stands host boundary N body (c :: left) k) :
    (step (traced (settings host)) c k).All (Stands host boundary N body left) (Rests host boundary N body)
      (fun _ t => Past host boundary N body t.log) := by
  rcases stands with front | gone
  · by_cases state : k.parser.state = .partDataStart
    · exact step_dataStart foreign front state
    · exact (step_front front state).mono (fun _ front => .inl front) (fun _ rests => .inl rests) fun _ _ h => h.elim
  · exact (perform_gone _ gone).mono (fun _ gone => .inr gone) (fun _ gone => .inr gone) fun _ _ past => past

theorem flush_stands {k : Config (Traced Session)} (stands : Stands host boundary N body left k) :
    (flush (traced (settings host)) k).All (fun r => Stands host boundary N body left ⟨r.1, [], r.2⟩)
      (Rests host boundary N body) (fun _ t => Past host boundary N body t.log) := by
  rcases stands with front | gone
  · exact (flush_front front).mono (fun _ front => .inl front) (fun _ h => h.elim) fun _ _ h => h.elim
  · apply (calls_gone _ gone).mono (fun _ gone => gone) (fun _ gone => .inr gone) (fun _ _ past => past) |>.map
    intro t gone
    exact .inr gone

theorem run_firstPart (foreign : ¬ AllIn N (.lit "Content-Disposition")) (host : Host) (boundary : CString)
    (chunks : List Bytes) :
    (executeChunks (settings host) chunks (multipartParserInit boundary, .init)).All
      (fun r => Untouched r.2 ∧ NoneTaken host (tracedRun host boundary chunks).log ∧
          (multipartParserInit boundary).front? chunks.flatten = some r.1 ∨
        Past host boundary N chunks.flatten (tracedRun host boundary chunks).log ∧ Filled r.2)
      (fun s => Untouched s ∧ NoneTaken host (tracedRun host boundary chunks).log ∧
          (multipartParserInit boundary).front? chunks.flatten = none ∨
        Past host boundary N chunks.flatten (tracedRun host boundary chunks).log ∧ Filled s)
      (fun _ _ => Past host boundary N chunks.flatten (tracedRun host boundary chunks).log) := by
  have run := executeChunks_ahead (traced (settings host)) (I := Stands host boundary N chunks.flatten)
    (J := Rests host boundary N chunks.flatten) (K := fun _ t => Past host boundary N chunks.flatten t.log)
    (fun _ _ _ => step_stands foreign) (fun _ _ => flush_stands) chunks (multipartParserInit boundary, .start .init)
    (.inl .start)
  apply (tracedRun_all (I := fun p t => Stands host boundary N chunks.flatten [] ⟨p, [], t⟩) run).mono
  · rintro r (front | gone)
    · exact .inl ⟨front.untouched, front.untaken, front.same⟩
    · exact .inr ⟨gone.past, gone.filled⟩
  · rintro s (rests | gone)
    · exact .inl rests
    · exact .inr ⟨gone.past, gone.filled⟩
  · exact fun _ _ past => past

end Run
end HvmlFpm.Multipart
