import HvmlFpm.Worker.OwnInput
import Mathlib.Data.List.Nodup

/-!
# The response of a request

What is written to the response stream while a request is made and its coroutines run: by `printf` in
`make_request`, by `prog_cond_handler` and by `send_resp`.
-/

namespace HvmlFpm.Worker
open Library Multipart Request
variable {Vdom Cor : Type}

/-- A header block `Content-Type: mime CR LF CR LF`, or a byte. -/
inductive Output
  | header (mime : String)
  | byte (c : UInt8)
deriving DecidableEq

def Output.isHeader : Output → Bool
  | .header _ => true
  | .byte _ => false

def text (bytes : Bytes) : List Output := bytes.map .byte

def sendResp (statusCode : Nat) : List Output :=
  if statusCode = 400 then .header "text/html" :: text (ascii "<html><body><h1>Bad Request</h1></body></html>")
  else if statusCode = 500 then
    .header "text/html" :: text (ascii "<html><body><h1>Internal Server Error</h1></body></html>")
  else []

structure Document where
  isHtml : Bool
  serialized : Bytes

/-- What `purc_variant_get_bytes_const` finds in an item; of a string the last byte is its NUL. -/
structure Item where
  content : Option Bytes
  isString : Bool

def Item.bytes (item : Item) : Bytes :=
  match item.content with
  | some content => if item.isString then content.dropLast else content
  | none => []

/-- `items` is `none` where the result is no array. -/
structure ExitResult where
  items : Option (List Item)
  serialized : Bytes

inductive Ending
  | exited (doc : Document) (result : ExitResult)
  | terminated (doc : Document) (stack : Bytes)

def Ending.isTermination : Ending → Bool
  | .terminated _ _ => true
  | .exited _ _ => false

/-- `PURC_COND_COR_EXITED` or `PURC_COND_COR_TERMINATED` of a coroutine; for the other conditions
`prog_cond_handler` does nothing. -/
structure Condition (Cor : Type) where
  cor : Cor
  ending : Ending

def writeHtml (doc : Document) : List Output := .header "text/html" :: text doc.serialized

def writeExit (doc : Document) (result : ExitResult) : List Output :=
  if doc.isHtml then writeHtml doc
  else
    match result.items with
    | some (item :: items) => text ((item :: items).flatMap Item.bytes)
    | _ => .header "application/json" :: text result.serialized

def writeStack (stack : Bytes) : List Output := text (ascii ">> The executing stack frame(s):\n" ++ stack ++ ascii "\n")

def writeDocument (doc : Document) : List Output := if doc.isHtml then writeHtml doc else []

def progCondHandler [DecidableEq Cor] (verbose : Bool) (mainCrtn : Cor) (condition : Condition Cor) : List Output :=
  match condition.ending with
  | .exited doc result => if verbose then if condition.cor = mainCrtn then writeExit doc result else [] else []
  | .terminated doc stack => writeDocument doc ++ if verbose then writeStack stack else []

def mainResponse [DecidableEq Cor] (verbose : Bool) (mainCrtn : Cor) (conditions : List (Condition Cor)) : List Output :=
  (conditions.filter (·.cor = mainCrtn)).flatMap fun condition =>
    match condition.ending with
    | .exited _ _ => progCondHandler verbose mainCrtn condition
    | .terminated doc _ => writeDocument doc

/-! ## A turn of the worker -/

def actionOutput [DecidableEq Cor] (verbose : Bool) (mainCrtn : Cor) (conditions : List (Condition Cor)) :
    Action Vdom → List Output
  | .sendResp statusCode => sendResp statusCode
  | .run => conditions.flatMap (progCondHandler verbose mainCrtn)
  | .scheduleVdom _ _ => []
  | .bindVariable _ _ => []

def Stage.actions : Stage Vdom → List (Action Vdom)
  | .looping loop => loop.actions
  | .left _ loop => loop.actions
  | .dead _ => []

def response [DecidableEq Cor] (maxExecutions : Int) (loop : Loop Vdom) (turn : Turn Vdom) (req : Draft Vdom)
    (verbose : Bool) (mainCrtn : Cor) (conditions : List (Condition Cor)) : List Output :=
  text req.printed ++
    (serve maxExecutions turn { loop with actions := [] }).actions.flatMap (actionOutput verbose mainCrtn conditions)

structure Scheduled (host : RequestHost Vdom) (input : Input) (turn : Turn Vdom) (req : Draft Vdom) : Prop where
  accepted : turn.accepted = true
  made : turn.made = makeRequest host input
  parsed : makeRequest host input = .ok req
  scheduled : turn.scheduled = true
  binds : ∀ name, turn.binds name = true

theorem response_eq [DecidableEq Cor] {host : RequestHost Vdom} {input : Input} {turn : Turn Vdom} {req : Draft Vdom}
    (scheduled : Scheduled host input turn req) (maxExecutions : Int) (loop : Loop Vdom) (verbose : Bool) (mainCrtn : Cor)
    (conditions : List (Condition Cor)) :
    response maxExecutions loop turn req verbose mainCrtn conditions =
      text req.printed ++ (conditions.flatMap (progCondHandler verbose mainCrtn) ++
        if turn.ran then [] else sendResp 500) := by
  rw [response, serve, if_pos scheduled.accepted, scheduled.made, scheduled.parsed]
  cases ran : turn.ran with
  | true =>
      simp only [execute, scheduled.scheduled, if_true, reserved, bindVariables, scheduled.binds, ran]
      split_ifs <;> simp [Stage.actions, Loop.log, actionOutput]
  | false =>
      simp [execute, scheduled.scheduled, reserved, bindVariables, scheduled.binds, ran, giveUp, Stage.actions, Loop.log,
        actionOutput]

/-- At most one header block is written, and nothing before it. -/
structure OneHeader (out : List Output) : Prop where
  atMostOne : (out.filter Output.isHeader).length ≤ 1
  nothingBefore : ∀ before mime after, out = before ++ .header mime :: after → before = []

section OneHeader
variable {out xs ys : List Output}

theorem oneHeader_iff_tail : OneHeader out ↔ ∀ o ∈ out.tail, o.isHeader = false := by
  cases out with
  | nil => exact ⟨by simp, fun _ => ⟨by simp, by simp⟩⟩
  | cons first rest =>
      rw [List.tail_cons]
      constructor
      · intro one o member
        cases o with
        | byte c => rfl
        | header mime =>
            obtain ⟨before, after, rfl⟩ := List.append_of_mem member
            exact absurd (one.nothingBefore (first :: before) mime after rfl) (List.cons_ne_nil _ _)
      · intro plain
        have none : rest.filter Output.isHeader = [] := by
          rw [List.filter_eq_nil_iff]
          intro o member
          simp [plain o member]
        constructor
        · rw [List.filter_cons, none]
          split_ifs <;> simp
        · intro before mime after split
          cases before with
          | nil => rfl
          | cons b before =>
              have member : Output.header mime ∈ rest := by simp [(List.cons.inj split).2]
              exact absurd (plain _ member) (by simp [Output.isHeader])

theorem oneHeader_text (bytes : Bytes) : OneHeader (text bytes) := by
  rw [oneHeader_iff_tail]
  intro o member
  obtain ⟨c, -, rfl⟩ := List.mem_map.1 (List.mem_of_mem_tail member)
  rfl

theorem text_no_header (bytes : Bytes) : ¬ ∃ o ∈ text bytes, o.isHeader = true := by
  rintro ⟨o, member, header⟩
  obtain ⟨c, -, rfl⟩ := List.mem_map.1 member
  cases header

theorem oneHeader_front (mime : String) (bytes : Bytes) : OneHeader (.header mime :: text bytes) := by
  rw [oneHeader_iff_tail, List.tail_cons]
  intro o member
  obtain ⟨c, -, rfl⟩ := List.mem_map.1 member
  rfl

theorem oneHeader_append :
    OneHeader (xs ++ ys) ↔ OneHeader xs ∧ OneHeader ys ∧ ((∃ o ∈ ys, o.isHeader = true) → xs = []) := by
  rw [oneHeader_iff_tail, oneHeader_iff_tail, oneHeader_iff_tail]
  cases xs with
  | nil => simp
  | cons first xs =>
      rw [List.cons_append, List.tail_cons, List.tail_cons]
      constructor
      · intro plain
        refine ⟨fun o member => plain o (List.mem_append_left _ member),
          fun o member => plain o (List.mem_append_right _ (List.mem_of_mem_tail member)), ?_⟩
        rintro ⟨o, member, header⟩
        rw [plain o (List.mem_append_right _ member)] at header
        cases header
      · rintro ⟨left, -, none⟩ o member
        rcases List.mem_append.1 member with member | member
        · exact left o member
        · by_contra header
          exact absurd (none ⟨o, member, Bool.not_eq_false _ ▸ header⟩) (List.cons_ne_nil _ _)

theorem oneHeader_segments {α : Type} {write : α → List Output} (single : ∀ a, OneHeader (write a)) (front back : List Output)
    (as : List α) :
    OneHeader (front ++ (as.flatMap write ++ back)) ↔
      (OneHeader front ∧ OneHeader back) ∧
        (∀ before a after, as = before ++ a :: after → (∃ o ∈ write a, o.isHeader = true) →
          front = [] ∧ ∀ b ∈ before, write b = []) ∧
        ((∃ o ∈ back, o.isHeader = true) → front = [] ∧ ∀ a ∈ as, write a = []) := by
  induction as generalizing front with
  | nil =>
      rw [List.flatMap_nil, List.nil_append, oneHeader_append]
      simp [and_assoc]
  | cons a as ih =>
      rw [List.flatMap_cons, List.append_assoc, ← List.append_assoc front, ih, oneHeader_append]
      constructor
      · rintro ⟨⟨⟨one, -, first⟩, last⟩, within, behind⟩
        refine ⟨⟨one, last⟩, ?_, ?_⟩
        · intro before a' after split header
          cases before with
          | nil =>
              obtain ⟨rfl, -⟩ := List.cons.inj split
              exact ⟨first header, by simp⟩
          | cons b before =>
              obtain ⟨rfl, rest⟩ := List.cons.inj split
              obtain ⟨empty, others⟩ := within before a' after rest header
              rw [List.append_eq_nil_iff] at empty
              exact ⟨empty.1, List.forall_mem_cons.2 ⟨empty.2, others⟩⟩
        · intro header
          obtain ⟨empty, others⟩ := behind header
          rw [List.append_eq_nil_iff] at empty
          exact ⟨empty.1, List.forall_mem_cons.2 ⟨empty.2, others⟩⟩
      · rintro ⟨⟨one, last⟩, within, behind⟩
        refine ⟨⟨⟨one, single a, fun header => (within [] a as rfl header).1⟩, last⟩, ?_, ?_⟩
        · intro before a' after split header
          obtain ⟨empty, others⟩ := within (a :: before) a' after (by rw [split]; rfl) header
          rw [List.forall_mem_cons] at others
          exact ⟨by rw [empty, others.1, List.append_nil], others.2⟩
        · intro header
          obtain ⟨empty, others⟩ := behind header
          rw [List.forall_mem_cons] at others
          exact ⟨by rw [empty, others.1, List.append_nil], others.2⟩

end OneHeader

section Printed
variable {host : RequestHost Vdom} {input : Input} {req req' : Draft Vdom}

theorem checkPostContentType_quiet {pcutils : Pcutils} {contentType : CString} {checked : Checked}
    (check : checkPostContentType pcutils contentType = some checked) (supported : checked.ct.refused = false) :
    checked.printed = [] := by
  rw [checkPostContentType] at check
  generalize pcutils.getNextToken contentType (ascii ";") = token at check
  obtain ⟨start, mimeLen⟩ := token
  simp only at check
  by_cases empty : mimeLen = 0
  · rw [if_pos empty, Option.some.injEq] at check
    rw [← check] at supported
    exact absurd supported (by decide)
  rw [if_neg empty] at check
  obtain ⟨mime, -, check⟩ := Option.bind_eq_some_iff.1 check
  obtain ⟨parameters, -, check⟩ := Option.bind_eq_some_iff.1 check
  by_cases bad : parameters.bad = true
  · rw [if_pos bad, Option.some.injEq] at check
    rw [← check] at supported
    exact absurd supported (by simp [PostContentType.refused])
  · rw [if_neg bad] at check
    obtain ⟨ct, -, rfl⟩ := Option.map_eq_some_iff.1 check
    rfl

theorem decodeBody_printed {contentLength : Nat} {checked : Checked}
    (decode : decodeBody host input contentLength checked req = .ok req') :
    if checked.ct = .formData ∧ checked.boundary.isSome = true then req'.printed ≠ []
    else req'.printed = req.printed := by
  rw [decodeBody] at decode
  cases ct : checked.ct with
  | formData =>
      cases boundary : checked.boundary with
      | none => simp [ct, boundary, failed] at decode
      | some x =>
          rw [if_pos ⟨rfl, rfl⟩]
          simp only [ct, boundary, decodeFormData] at decode
          have printed : ascii "boundary: " ≠ [] := by decide
          cases parse : parseContentAsMultipartFormData host.toHost contentLength x input.stdin with
          | ok decoded =>
              simp only [parse, Outcome.ok.injEq] at decode
              rw [← decode]
              simp [printed]
          | fail left =>
              simp only [parse, Outcome.ok.injEq] at decode
              rw [← decode]
              simp [printed]
          | stop why left => simp [parse] at decode
  | bad => simp [ct, failed] at decode
  | notSupported => simp [ct, failed] at decode
  | formUrlencoded =>
      simp only [ct, Outcome.ok.injEq] at decode
      simp [← decode]
  | json =>
      simp only [ct, Outcome.ok.injEq] at decode
      simp [← decode]
  | xml =>
      simp only [ct, Outcome.ok.injEq] at decode
      simp [← decode]
  | plain =>
      simp only [ct, Outcome.ok.injEq] at decode
      simp [← decode]

theorem printed_iff (made : makeRequest host input = .ok req) : req.printed = [] ↔ ¬ DecodesFormData host input := by
  by_cases called : ∃ contentLength checked, Posted host input contentLength checked
  · have whole : ∀ contentLength checked, Posted host input contentLength checked →
        if checked.ct = .formData ∧ checked.boundary.isSome = true then req.printed ≠ [] else req.printed = [] := by
      intro contentLength checked posted
      obtain ⟨server, set, phases⟩ := makeRequest_posted posted
      rw [phases] at made
      obtain ⟨read, reads, load⟩ := Outcome.bind_eq_ok.1 made
      obtain ⟨decoded, decode, cookie⟩ := Outcome.bind_eq_ok.1 reads
      have printed := decodeBody_printed decode
      obtain ⟨contentType, -, check⟩ := posted.contentType
      rw [checkPostContentType_quiet check posted.supported] at printed
      obtain ⟨cookies, rfl⟩ := readCookie_ok cookie
      obtain ⟨vdom, rfl⟩ := loadVdom_ok load
      exact printed
    constructor
    · rintro quiet ⟨contentLength, checked, posted, formData⟩
      have printed := whole contentLength checked posted
      rw [if_pos formData] at printed
      exact printed quiet
    · intro other
      obtain ⟨contentLength, checked, posted⟩ := called
      have printed := whole contentLength checked posted
      rwa [if_neg fun formData => other ⟨contentLength, checked, posted, formData⟩] at printed
  · have unposted : ∀ contentLength checked, ¬ Posted host input contentLength checked := by
      intro contentLength checked posted
      exact called ⟨contentLength, checked, posted⟩
    refine iff_of_true ?_ fun ⟨contentLength, checked, posted, _⟩ => unposted contentLength checked posted
    obtain ⟨server, decoded, cookie, vdom, set, decode, filled, rfl, rfl⟩ := makeRequest_ok made
    exact (readMethod_unposted set unposted _).2.of_ok decode

end Printed

/-! ## When there is one header -/

section Answers
variable [DecidableEq Cor] {host : RequestHost Vdom} {input : Input} {turn : Turn Vdom} {req : Draft Vdom} {mainCrtn : Cor}
  {conditions : List (Condition Cor)}

/-- One header in front, and the main coroutine is answered for alike with and without `verbose`. -/
structure Answers (maxExecutions : Int) (loop : Loop Vdom) (turn : Turn Vdom) (req : Draft Vdom) (mainCrtn : Cor)
    (conditions : List (Condition Cor)) : Prop where
  oneHeader : ∀ verbose, OneHeader (response maxExecutions loop turn req verbose mainCrtn conditions)
  sameVerbose : mainResponse true mainCrtn conditions = [] ↔ mainResponse false mainCrtn conditions = []

/-- An exit without a document, whose result is an array without any content. -/
def Ending.Silent : Ending → Prop
  | .exited doc result => doc.isHtml = false ∧
      ∃ item items, result.items = some (item :: items) ∧ (item :: items).flatMap Item.bytes = []
  | .terminated _ _ => True

def Ending.htmlTermination : Ending → Bool
  | .terminated doc _ => doc.isHtml
  | .exited _ _ => false

/-- The main coroutine does not exit with anything to write, and what writes a header is the first to write. -/
structure Orderly (host : RequestHost Vdom) (input : Input) (mainCrtn : Cor) (conditions : List (Condition Cor))
    (ran : Bool) : Prop where
  silent : ∀ c ∈ conditions, c.cor = mainCrtn → c.ending.Silent
  htmlFirst : ∀ before c after, conditions = before ++ c :: after → c.ending.htmlTermination = true →
    ¬ DecodesFormData host input ∧ ∀ b ∈ before, b.ending.isTermination = false
  failsAlone : ran = false → ¬ DecodesFormData host input ∧ ∀ c ∈ conditions, c.ending.isTermination = false

theorem writeExit_eq_nil {doc : Document} {result : ExitResult} :
    writeExit doc result = [] ↔ (Ending.exited doc result).Silent := by
  rw [writeExit, Ending.Silent]
  cases html : doc.isHtml with
  | true => simp [writeHtml]
  | false =>
      cases found : result.items with
      | none => simp
      | some items =>
          cases items with
          | nil => simp
          | cons item items => simp [text]

theorem oneHeader_handler (verbose : Bool) (mainCrtn : Cor) (c : Condition Cor) :
    OneHeader (progCondHandler verbose mainCrtn c) := by
  rw [progCondHandler]
  cases c.ending with
  | exited doc result =>
      simp only
      split_ifs
      · rw [writeExit]
        split
        · exact oneHeader_front _ _
        · split
          · exact oneHeader_text _
          · exact oneHeader_front _ _
      · exact oneHeader_text []
      · exact oneHeader_text []
  | terminated doc stack =>
      simp only [writeDocument, writeHtml, writeStack]
      split_ifs
      · rw [List.cons_append, text, text, ← List.map_append]
        exact oneHeader_front _ _
      · rw [List.append_nil]
        exact oneHeader_front _ _
      · exact oneHeader_text _
      · exact oneHeader_text []

theorem handler_nil {c : Condition Cor} (silent : c.cor = mainCrtn → c.ending.Silent) (verbose : Bool) :
    progCondHandler verbose mainCrtn c = [] ↔
      c.ending.isTermination = false ∨ (verbose = false ∧ c.ending.htmlTermination = false) := by
  rw [progCondHandler]
  cases ending : c.ending with
  | exited doc result =>
      refine iff_of_true ?_ (.inl rfl)
      simp only
      split_ifs with shown main
      · exact writeExit_eq_nil.2 (ending ▸ silent main)
      · rfl
      · rfl
  | terminated doc stack =>
      have stackWritten : writeStack stack ≠ [] := by simp [writeStack, text, ascii]
      cases html : doc.isHtml <;> cases verbose <;>
        simp [writeDocument, writeHtml, html, stackWritten, Ending.isTermination, Ending.htmlTermination]

theorem handler_header {c : Condition Cor} (silent : c.cor = mainCrtn → c.ending.Silent) (verbose : Bool) :
    (∃ o ∈ progCondHandler verbose mainCrtn c, o.isHeader = true) ↔ c.ending.htmlTermination = true := by
  cases ending : c.ending with
  | exited doc result =>
      have nothing := (handler_nil silent verbose).2 (.inl (by rw [ending]; rfl))
      rw [nothing]
      simp [Ending.htmlTermination]
  | terminated doc stack =>
      rw [progCondHandler, ending]
      cases html : doc.isHtml with
      | true => simp [writeDocument, writeHtml, html, Ending.htmlTermination, Output.isHeader]
      | false =>
          refine iff_of_false ?_ (by simp [Ending.htmlTermination, html])
          simp only [writeDocument, html, Bool.false_eq_true, if_false, List.nil_append]
          split_ifs
          · exact text_no_header _
          · simp

theorem silent_of_sameVerbose (distinct : (conditions.map Condition.cor).Nodup)
    (same : mainResponse true mainCrtn conditions = [] ↔ mainResponse false mainCrtn conditions = []) :
    ∀ c ∈ conditions, c.cor = mainCrtn → c.ending.Silent := by
  intro c member main
  cases ending : c.ending with
  | terminated doc stack => trivial
  | exited doc result =>
      have nothing : mainResponse false mainCrtn conditions = [] := by
        rw [mainResponse, List.flatMap_eq_nil_iff]
        intro other found
        obtain ⟨among, isMain⟩ := List.mem_filter.1 found
        obtain rfl : other = c :=
          List.inj_on_of_nodup_map distinct among member ((of_decide_eq_true isMain).trans main.symm)
        simp [ending, progCondHandler]
      have written := same.2 nothing
      rw [mainResponse, List.flatMap_eq_nil_iff] at written
      have exit := written c (List.mem_filter.2 ⟨member, decide_eq_true main⟩)
      rw [ending] at exit
      simp only [progCondHandler, ending, main, if_true] at exit
      exact writeExit_eq_nil.1 exit

theorem sameVerbose_of_silent (silent : ∀ c ∈ conditions, c.cor = mainCrtn → c.ending.Silent) :
    mainResponse true mainCrtn conditions = [] ↔ mainResponse false mainCrtn conditions = [] := by
  rw [mainResponse, mainResponse, List.flatMap_eq_nil_iff, List.flatMap_eq_nil_iff]
  refine forall₂_congr ?_
  intro c found
  obtain ⟨member, isMain⟩ := List.mem_filter.1 found
  cases ending : c.ending with
  | terminated doc stack => rfl
  | exited doc result =>
      have quiet : c.ending.isTermination = false := by rw [ending]; rfl
      simp only [(handler_nil (silent c member) _).2 (.inl quiet)]

theorem oneHeader_sendResp (statusCode : Nat) : OneHeader (sendResp statusCode) := by
  rw [sendResp]
  split_ifs
  · exact oneHeader_front _ _
  · exact oneHeader_front _ _
  · exact oneHeader_text []

theorem answers_iff (scheduled : Scheduled host input turn req) (distinct : (conditions.map Condition.cor).Nodup)
    (maxExecutions : Int) (loop : Loop Vdom) :
    Answers maxExecutions loop turn req mainCrtn conditions ↔ Orderly host input mainCrtn conditions turn.ran := by
  have printed : text req.printed = [] ↔ ¬ DecodesFormData host input := by
    rw [← printed_iff scheduled.parsed]
    exact List.map_eq_nil_iff
  have last : OneHeader (if turn.ran then [] else sendResp 500) := by
    split_ifs
    · exact oneHeader_text []
    · exact oneHeader_sendResp 500
  have fails : (∃ o ∈ if turn.ran then [] else sendResp 500, o.isHeader = true) ↔ turn.ran = false := by
    cases turn.ran <;> simp [sendResp, Output.isHeader]
  have segments (verbose : Bool) := oneHeader_segments (oneHeader_handler verbose mainCrtn) (text req.printed)
    (if turn.ran then [] else sendResp 500) conditions
  simp only [fails, printed, oneHeader_text, last, true_and] at segments
  constructor
  · rintro ⟨one, same⟩
    have silent := silent_of_sameVerbose distinct same
    have verbose := one true
    rw [response_eq scheduled, segments] at verbose
    obtain ⟨within, behind⟩ := verbose
    have quiet {c : Condition Cor} (member : c ∈ conditions) (nothing : progCondHandler true mainCrtn c = []) :
        c.ending.isTermination = false := by
      simpa using (handler_nil (silent c member) true).1 nothing
    refine ⟨silent, ?_, ?_⟩
    · intro before c after split html
      have member : c ∈ conditions := by simp [split]
      obtain ⟨other, others⟩ := within before c after split ((handler_header (silent c member) true).2 html)
      exact ⟨other, fun b found => quiet (by simp [split, found]) (others b found)⟩
    · intro failed
      obtain ⟨other, others⟩ := behind failed
      exact ⟨other, fun c found => quiet found (others c found)⟩
  · rintro ⟨silent, htmlFirst, failsAlone⟩
    refine ⟨?_, sameVerbose_of_silent silent⟩
    intro verbose
    rw [response_eq scheduled, segments]
    constructor
    · intro before c after split header
      have member : c ∈ conditions := by simp [split]
      obtain ⟨other, others⟩ := htmlFirst before c after split ((handler_header (silent c member) verbose).1 header)
      exact ⟨other, fun b found => (handler_nil (silent b (by simp [split, found])) verbose).2 (.inl (others b found))⟩
    · intro failed
      obtain ⟨other, others⟩ := failsAlone failed
      exact ⟨other, fun c found => (handler_nil (silent c found) verbose).2 (.inl (others c found))⟩

end Answers

def visit : Input where
  environ name := if name = .lit "REQUEST_METHOD" then some (.lit "GET") else none
  fcgiStdin := []
  stdin := []

theorem visit_made : ∃ req, makeRequest (scriptHost (some ())) visit = .ok req := by
  have made : (makeRequest (scriptHost (some ())) visit).result?.isSome = true := by decide +kernel
  obtain ⟨req, same⟩ := Option.isSome_iff_exists.1 made
  exact ⟨req, Outcome.result?_eq_some.1 same⟩

def visitTurn : Turn Unit := ⟨true, makeRequest (scriptHost (some ())) visit, true, fun _ => true, true⟩

theorem visit_scheduled {req : Draft Unit} (made : makeRequest (scriptHost (some ())) visit = .ok req) :
    Scheduled (scriptHost (some ())) visit visitTurn req := ⟨rfl, rfl, made, rfl, fun _ => rfl⟩

def page : List (Condition Nat) := [⟨0, .exited ⟨true, ascii "<html></html>"⟩ ⟨none, []⟩⟩]

theorem page_answers_iff : ∃ req, makeRequest (scriptHost (some ())) visit = .ok req ∧
    (Answers 5 ⟨exitFailure, 0, []⟩ visitTurn req 0 page ↔ Orderly (scriptHost (some ())) visit 0 page true) := by
  obtain ⟨req, made⟩ := visit_made
  exact ⟨req, made, answers_iff (visit_scheduled made) (by decide) 5 ⟨exitFailure, 0, []⟩⟩

def formTurn : Turn Unit := { visitTurn with made := makeRequest (scriptHost (some ())) form }

/-- The line with the boundary stands in front of the page's header. -/
theorem form_page_not_answered : ∃ req, makeRequest (scriptHost (some ())) form = .ok req ∧
    response 5 ⟨exitFailure, 0, []⟩ formTurn req true 0 page =
      text (ascii "boundary: X\n") ++ .header "text/html" :: text (ascii "<html></html>") ∧
    ¬ Answers 5 ⟨exitFailure, 0, []⟩ formTurn req 0 page := by
  have printed : (makeRequest (scriptHost (some ())) form).result?.map Draft.printed = some (ascii "boundary: X\n") := by
    decide +kernel
  obtain ⟨req, result, lines⟩ := Option.map_eq_some_iff.1 printed
  have made := Outcome.result?_eq_some.1 result
  have scheduled : Scheduled (scriptHost (some ())) form formTurn req := ⟨rfl, rfl, made, rfl, fun _ => rfl⟩
  have written : response 5 ⟨exitFailure, 0, []⟩ formTurn req true 0 page =
      text (ascii "boundary: X\n") ++ .header "text/html" :: text (ascii "<html></html>") := by
    rw [response_eq scheduled, lines]
    rfl
  refine ⟨req, made, written, ?_⟩
  intro answers
  exact absurd ((answers.oneHeader true).nothingBefore _ _ _ written) (by decide)

end HvmlFpm.Worker
