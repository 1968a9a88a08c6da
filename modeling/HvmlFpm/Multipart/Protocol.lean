import HvmlFpm.Multipart.Callbacks
import HvmlFpm.Multipart.Trace

/-!
# The callback protocol

In which order the parser calls back, and what the processor holds between two calls.
-/

namespace HvmlFpm.Multipart
open Library

def Call.isHeaderPiece : Call → Bool
  | .headerField _ | .headerValue _ => true
  | _ => false

def Call.isDataPiece : Call → Bool
  | .partData _ => true
  | _ => false

inductive Part : List Call → Prop
  | mk (headers data : List Call) (pieces : ∀ k ∈ headers, k.isHeaderPiece)
      (content : ∀ k ∈ data, k.isDataPiece) (some : data ≠ []) :
      Part (.partDataBegin :: headers ++ .headersComplete :: data ++ [.partDataEnd])

/-- Whole parts, and then the end of the body or a part cut short. -/
inductive Conforms : List Call → Prop
  | cut (parts : List (List Call)) (last rest : List Call) (whole : ∀ part ∈ parts, Part part)
      (short : Part (last ++ rest)) : Conforms (parts.flatten ++ last)
  | ended (parts : List (List Call)) (whole : ∀ part ∈ parts, Part part) (some : parts ≠ []) :
      Conforms (parts.flatten ++ [.bodyEnd])

def Between {κ : Type} (opener closer : κ) (history : List κ) : Prop :=
  ∃ before after, history = before ++ opener :: after ∧ closer ∉ after

theorem between_snoc {κ : Type} {opener closer k : κ} {ks : List κ} (other : k ≠ opener) :
    Between opener closer (ks ++ [k]) ↔ Between opener closer ks ∧ k ≠ closer := by
  constructor
  · rintro ⟨before, after, e, unseen⟩
    cases after using List.reverseRecOn with
    | nil =>
        obtain ⟨-, last⟩ := List.append_inj' e rfl
        exact absurd (List.singleton_inj.1 last) other
    | append_singleton after last =>
        rw [← List.cons_append, ← List.append_assoc] at e
        obtain ⟨rfl, same⟩ := List.append_inj' e rfl
        obtain rfl := List.singleton_inj.1 same
        simp only [List.mem_append, List.mem_singleton, not_or] at unseen
        exact ⟨⟨before, after, rfl, unseen.1⟩, Ne.symm unseen.2⟩
  · rintro ⟨⟨before, after, rfl, unseen⟩, open_⟩
    exact ⟨before, after ++ [k], by simp, by simp [unseen, Ne.symm open_]⟩

theorem between_snoc_opener {κ : Type} (opener closer : κ) (ks : List κ) :
    Between opener closer (ks ++ [opener]) :=
  ⟨ks, [], rfl, by simp⟩

theorem not_between_nil {κ : Type} (opener closer : κ) : ¬ Between opener closer [] := by
  rintro ⟨before, after, e, -⟩
  simp at e

def InHeaders : List Call → Prop := Between .partDataBegin .headersComplete

def InData : List Call → Prop := Between .headersComplete .partDataEnd

/-- Where the calls stand; a part is `opened` until its first piece of data. -/
inductive Stage
  | preamble | header | opened | data | between | closed
deriving DecidableEq

def Stage.inPart : Stage → Bool
  | .opened | .data => true
  | _ => false

def Stage.next : Stage → Call → Option Stage
  | .preamble, .partDataBegin => some .header
  | .header, .headerField _ => some .header
  | .header, .headerValue _ => some .header
  | .header, .headersComplete => some .opened
  | .opened, .partData _ => some .data
  | .data, .partData _ => some .data
  | .data, .partDataEnd => some .between
  | .between, .partDataBegin => some .header
  | .between, .bodyEnd => some .closed
  | _, _ => none

def Stage.path : Stage → List Call → Option Stage := List.foldlM Stage.next

@[simp] theorem path_nil (stage : Stage) : stage.path [] = some stage := rfl

@[simp] theorem path_cons (stage : Stage) (k : Call) (ks : List Call) :
    stage.path (k :: ks) = (stage.next k).bind fun stage => stage.path ks := rfl

theorem path_append (stage : Stage) (ks ls : List Call) :
    stage.path (ks ++ ls) = (stage.path ks).bind fun stage => stage.path ls :=
  List.foldlM_append ..

theorem path_snoc_eq_some {stage stage' : Stage} {ks : List Call} {k : Call} :
    stage.path (ks ++ [k]) = some stage' ↔ ∃ mid, stage.path ks = some mid ∧ mid.next k = some stage' := by
  simp [path_append, Option.bind_eq_some_iff]

def stageOf : State → Stage
  | .uninitialized | .start | .startBoundary => .preamble
  | .headerFieldStart | .headerField | .headersAlmostDone | .headerValueStart | .headerValue
  | .headerValueAlmostDone | .partDataStart => .header
  | .partData | .partDataAlmostBoundary | .partDataBoundary => .data
  | .partDataAlmostEnd | .partDataEnd | .partDataFinalHyphen => .between
  | .ended => .closed

def Stage.Fits (stage : Stage) (state : State) : Prop :=
  stage = stageOf state ∨ stage = .opened ∧ state = .partData

def Fed.Walks (stage : Stage) : Fed → Prop
  | .refused => True
  | .outOfBlock calls => ∃ stage', stage.path calls = some stage'
  | .next calls p _ => ∃ stage', stage.path calls = some stage' ∧ stage'.Fits p.state

theorem setLookbehind_state {p p' : Parser} {k : Nat} {c : UInt8} (h : p.setLookbehind k c = some p') :
    p'.state = p.state := by
  obtain ⟨-, rfl⟩ := setLookbehind_eq_some h
  rfl

theorem feedPartData_walks {stage mid : Stage} {before : List Call} {p : Parser} (pending : Bytes)
    (c : UInt8) (state : p.state = .partData) (here : stage.path before = some mid)
    (inPart : mid.inPart) : (Parser.feedPartData before p pending c).Walks stage := by
  have reported : stage.path (before ++ [.partData pending]) = some .data := by
    rw [path_append, here]
    cases mid <;> simp_all [Stage.inPart, Stage.next]
  unfold Parser.feedPartData
  split_ifs
  · split
    · exact ⟨_, reported⟩
    · next access =>
      have state' := setLookbehind_state access
      exact ⟨.data, reported, .inl (by rw [state', stageOf])⟩
  · refine ⟨mid, here, ?_⟩
    cases mid <;> simp_all [Stage.inPart, Stage.Fits, stageOf]

theorem feed_walks {stage : Stage} {p : Parser} (fits : stage.Fits p.state) (pending : Bytes) (c : UInt8) :
    (p.feed pending c).Walks stage := by
  have startBoundary (q : Parser) (state : q.state = .startBoundary) :
      (q.feedStartBoundary c).Walks .preamble := by
    unfold Parser.feedStartBoundary
    split_ifs
    any_goals split
    any_goals split_ifs
    all_goals simp [Fed.Walks, Stage.next, Stage.Fits, stageOf, state]
  have headerField (q : Parser) (pending : Bytes) (state : q.state = .headerField) :
      (q.feedHeaderField pending c).Walks .header := by
    unfold Parser.feedHeaderField
    split_ifs <;> simp [Fed.Walks, Stage.next, Stage.Fits, stageOf, state]
  have headerValue (q : Parser) (pending : Bytes) (state : q.state = .headerValue) :
      (q.feedHeaderValue pending c).Walks .header := by
    unfold Parser.feedHeaderValue
    split_ifs <;> simp [Fed.Walks, Stage.next, Stage.Fits, stageOf, state]
  unfold Parser.feed
  cases state : p.state <;> simp only [Stage.Fits, stageOf, state, reduceCtorEq, and_false, or_false,
    and_true] at fits ⊢
  case partData =>
    rcases fits with rfl | rfl
    · exact feedPartData_walks pending c state rfl rfl
    · exact feedPartData_walks pending c state rfl rfl
  all_goals subst fits
  case start => exact startBoundary _ rfl
  case startBoundary => exact startBoundary p state
  case headerFieldStart => exact headerField _ [] rfl
  case headerField => exact headerField p pending state
  case headersAlmostDone => split_ifs <;> simp [Fed.Walks, Stage.Fits, stageOf]
  case headerValueStart =>
    split_ifs
    · simp [Fed.Walks, Stage.Fits, stageOf, state]
    · exact headerValue _ [] rfl
  case headerValue => exact headerValue p pending state
  case headerValueAlmostDone => split_ifs <;> simp [Fed.Walks, Stage.Fits, stageOf]
  case partDataStart => exact feedPartData_walks [] c rfl rfl rfl
  case partDataAlmostBoundary =>
    split_ifs
    · split
      · exact ⟨.data, rfl⟩
      · next access =>
        have state' := setLookbehind_state access
        simp [Fed.Walks, Stage.Fits, stageOf, state']
    · exact feedPartData_walks [] c rfl rfl rfl
  case partDataBoundary =>
    split
    · exact ⟨.data, rfl⟩
    split_ifs
    · exact feedPartData_walks [] c rfl rfl rfl
    · split
      · exact ⟨.data, rfl⟩
      · next access =>
        have state' := setLookbehind_state access
        split_ifs
        · simp [Fed.Walks, Stage.next, Stage.Fits, stageOf]
        · simp [Fed.Walks, Stage.Fits, stageOf, state', state]
  case partDataAlmostEnd => split_ifs <;> simp [Fed.Walks, Stage.Fits, stageOf]
  case partDataFinalHyphen => split_ifs <;> simp [Fed.Walks, Stage.next, Stage.Fits, stageOf]
  case partDataEnd => split_ifs <;> simp [Fed.Walks, Stage.next, Stage.Fits, stageOf]
  case ended => simp [Fed.Walks, Stage.Fits, stageOf, state]
  case uninitialized => trivial

theorem pendingCalls_walks {stage : Stage} {p : Parser} (fits : stage.Fits p.state) (pending : Bytes) :
    ∃ stage', stage.path (p.pendingCalls pending) = some stage' ∧ stage'.Fits p.state := by
  unfold Parser.pendingCalls
  split_ifs
  · exact ⟨stage, rfl, fits⟩
  split
  · next state =>
    obtain rfl : stage = .header := by simpa [Stage.Fits, stageOf, state] using fits
    exact ⟨.header, rfl, fits⟩
  · next state =>
    obtain rfl : stage = .header := by simpa [Stage.Fits, stageOf, state] using fits
    exact ⟨.header, rfl, fits⟩
  · next state =>
    have data : Stage.data.Fits p.state := .inl (by rw [state, stageOf])
    rcases fits with rfl | ⟨rfl, -⟩
    · exact ⟨.data, by rw [state]; rfl, data⟩
    · exact ⟨.data, rfl, data⟩
  · exact ⟨stage, rfl, fits⟩

/-! ## The protocol rule

What every call that a stage allows preserves, every body preserves. -/

section Rule
variable {σ : Type} {settings : Settings σ} {J : Stage → σ → Prop} {L : σ → Prop} {K : Stop → σ → Prop}

theorem calls_rule
    (call : ∀ stage stage' k s, stage.next k = some stage' → J stage s →
      (settings.call k s).All (J stage') L K)
    {stage stage' : Stage} {ks : List Call} {s : σ} (walk : stage.path ks = some stage')
    (here : J stage s) : (settings.calls ks s).All (J stage') L K := by
  induction ks generalizing stage s with
  | nil =>
      cases walk
      exact here
  | cons k ks ih =>
      obtain ⟨mid, next, walk⟩ := Option.bind_eq_some_iff.1 walk
      apply (call stage mid k s next here).bind
      intro s' here'
      exact ih walk here'

theorem step_rule
    (call : ∀ stage stage' k s, stage.next k = some stage' → J stage s →
      (settings.call k s).All (J stage') L K)
    (left : ∀ stage s, J stage s → L s) (outside : ∀ stage s, J stage s → K .outOfBlock s)
    (c : UInt8) (k : Config σ) (here : ∃ stage : Stage, stage.Fits k.parser.state ∧ J stage k.data) :
    (step settings c k).All (fun k => ∃ stage : Stage, stage.Fits k.parser.state ∧ J stage k.data) L K := by
  obtain ⟨stage, fits, here⟩ := here
  have walks := feed_walks fits k.pending c
  unfold step perform
  cases fed : k.parser.feed k.pending c with
  | refused => exact left stage k.data here
  | outOfBlock calls =>
      rw [fed] at walks
      obtain ⟨stage', walk⟩ := walks
      exact (calls_rule call walk here).bind fun s here' => outside stage' s here'
  | next calls p pending =>
      rw [fed] at walks
      obtain ⟨stage', walk, fits'⟩ := walks
      exact (calls_rule call walk here).map fun _ here' => ⟨stage', fits', here'⟩

theorem flush_rule
    (call : ∀ stage stage' k s, stage.next k = some stage' → J stage s →
      (settings.call k s).All (J stage') L K)
    (k : Config σ) (here : ∃ stage : Stage, stage.Fits k.parser.state ∧ J stage k.data) :
    (flush settings k).All (fun r => ∃ stage : Stage, stage.Fits r.1.state ∧ J stage r.2) L K := by
  obtain ⟨stage, fits, here⟩ := here
  obtain ⟨stage', walk, fits'⟩ := pendingCalls_walks fits k.pending
  exact (calls_rule call walk here).map fun _ here' => ⟨stage', fits', here'⟩

theorem executeChunks_rule
    (call : ∀ stage stage' k s, stage.next k = some stage' → J stage s →
      (settings.call k s).All (J stage') L K)
    (left : ∀ stage s, J stage s → L s) (outside : ∀ stage s, J stage s → K .outOfBlock s)
    (boundary : CString) (chunks : List Bytes) {s : σ} (start : J .preamble s) :
    (executeChunks settings chunks (multipartParserInit boundary, s)).All
      (fun r => ∃ stage : Stage, stage.Fits r.1.state ∧ J stage r.2) L K :=
  executeChunks_all settings
    (I := fun k => ∃ stage : Stage, stage.Fits k.parser.state ∧ J stage k.data)
    (step_rule call left outside) (flush_rule call) chunks _ ⟨.preamble, .inl rfl, start⟩

end Rule

/-! ## Histories

What the stage says about the calls that led there. -/

theorem path_between {ks : List Call} {stage : Stage} (walk : Stage.preamble.path ks = some stage) :
    (InHeaders ks ↔ stage = .header) ∧ (InData ks ↔ stage.inPart) := by
  unfold InHeaders InData
  induction ks using List.reverseRecOn generalizing stage with
  | nil =>
      cases walk
      simp [not_between_nil, Stage.inPart]
  | append_singleton ks k ih =>
      obtain ⟨mid, walk, next⟩ := path_snoc_eq_some.1 walk
      obtain ⟨headers, data⟩ := ih walk
      by_cases opened : k = .partDataBegin
      · subst opened
        have begun := between_snoc_opener Call.partDataBegin .headersComplete ks
        have quiet : Call.partDataBegin ≠ .headersComplete := by simp
        rw [between_snoc quiet, data]
        cases mid <;> cases next <;> simp [begun, Stage.inPart]
      by_cases completed : k = .headersComplete
      · subst completed
        have begun := between_snoc_opener Call.headersComplete .partDataEnd ks
        rw [between_snoc opened, headers]
        cases mid <;> cases next
        simp [begun, Stage.inPart]
      · rw [between_snoc opened, between_snoc completed, headers, data]
        cases mid <;> cases k <;> cases next <;> simp_all [Stage.inPart]

inductive Split : Stage → List Call → Prop
  | preamble : Split .preamble []
  | header (parts : List (List Call)) (headers : List Call) (whole : ∀ part ∈ parts, Part part)
      (pieces : ∀ k ∈ headers, k.isHeaderPiece) :
      Split .header (parts.flatten ++ .partDataBegin :: headers)
  | opened (parts : List (List Call)) (headers : List Call) (whole : ∀ part ∈ parts, Part part)
      (pieces : ∀ k ∈ headers, k.isHeaderPiece) :
      Split .opened (parts.flatten ++ (.partDataBegin :: headers ++ [.headersComplete]))
  | data (parts : List (List Call)) (headers data : List Call) (whole : ∀ part ∈ parts, Part part)
      (pieces : ∀ k ∈ headers, k.isHeaderPiece) (content : ∀ k ∈ data, k.isDataPiece)
      (some : data ≠ []) :
      Split .data (parts.flatten ++ (.partDataBegin :: headers ++ .headersComplete :: data))
  | between (parts : List (List Call)) (whole : ∀ part ∈ parts, Part part) (some : parts ≠ []) :
      Split .between parts.flatten
  | closed (parts : List (List Call)) (whole : ∀ part ∈ parts, Part part) (some : parts ≠ []) :
      Split .closed (parts.flatten ++ [.bodyEnd])

theorem forall_mem_snoc {κ : Type} {P : κ → Prop} {ks : List κ} {k : κ} (all : ∀ l ∈ ks, P l) (last : P k) :
    ∀ l ∈ ks ++ [k], P l := by
  simpa [or_imp, forall_and] using ⟨all, last⟩

theorem Split.step {stage stage' : Stage} {ks : List Call} {k : Call} (split : Split stage ks)
    (next : stage.next k = some stage') : Split stage' (ks ++ [k]) := by
  cases split with
  | preamble =>
      cases k <;> cases next
      exact Split.header [] [] (by simp) (by simp)
  | header parts headers whole pieces =>
      cases k <;> cases next
      · simpa using Split.header parts _ whole (forall_mem_snoc pieces rfl)
      · simpa using Split.header parts _ whole (forall_mem_snoc pieces rfl)
      · simpa using Split.opened parts headers whole pieces
  | opened parts headers whole pieces =>
      cases k <;> cases next
      simpa using Split.data parts headers [_] whole pieces (by simp [Call.isDataPiece]) (by simp)
  | data parts headers data whole pieces content some =>
      cases k <;> cases next
      · simpa using Split.data parts headers _ whole pieces (forall_mem_snoc content rfl) (by simp)
      · have part := Part.mk headers data pieces content some
        simpa using Split.between _ (forall_mem_snoc whole part) (by simp)
  | between parts whole some =>
      cases k <;> cases next
      · exact Split.header parts [] whole (by simp)
      · exact Split.closed parts whole some
  | closed => cases k <;> cases next

theorem path_split {ks : List Call} {stage : Stage} (walk : Stage.preamble.path ks = some stage) :
    Split stage ks := by
  induction ks using List.reverseRecOn generalizing stage with
  | nil =>
      cases walk
      exact .preamble
  | append_singleton ks k ih =>
      obtain ⟨mid, walk, next⟩ := path_snoc_eq_some.1 walk
      exact (ih walk).step next

theorem Split.conforms {stage : Stage} {ks : List Call} (split : Split stage ks) : Conforms ks := by
  have blank (k : Call) (member : k ∈ [Call.partData []]) : k.isDataPiece := by
    simp_all [Call.isDataPiece]
  have empty : Part (.partDataBegin :: [] ++ [.headersComplete, .partData []] ++ [.partDataEnd]) :=
    Part.mk [] [.partData []] (by simp) blank (by simp)
  cases split with
  | preamble => exact Conforms.cut [] [] _ (by simp) empty
  | header parts headers whole pieces =>
      have part := Part.mk headers [.partData []] pieces blank (by simp)
      rw [List.append_assoc] at part
      exact Conforms.cut parts _ _ whole part
  | opened parts headers whole pieces =>
      have part : Part (.partDataBegin :: headers ++ [.headersComplete] ++ [.partData [], .partDataEnd]) := by
        simpa using Part.mk headers [.partData []] pieces blank (by simp)
      exact Conforms.cut parts _ _ whole part
  | data parts headers data whole pieces content some =>
      exact Conforms.cut parts _ _ whole (Part.mk headers data pieces content some)
  | between parts whole some => simpa using Conforms.cut parts [] _ whole empty
  | closed parts whole some => exact Conforms.ended parts whole some

/-! ## The processor -/

def Stop.isAssertion : Stop → Bool
  | .assertion _ => true
  | _ => false

structure Agrees (stage : Stage) (s : Session) : Prop where
  headers_iff : s.headers.isSome ↔ stage = .header
  name_iff : s.name.isSome ↔ stage.inPart
  fp_named : s.fp.isSome → ∃ name file, s.name = some name ∧ s.files name = some (.object file)

theorem init_agrees : Agrees .preamble .init :=
  ⟨by simp [Session.init], by simp [Session.init, Stage.inPart], nofun⟩

theorem Agrees.frame {s t : Session} (agrees : Agrees .header s) (frame : HeaderFrame s t) :
    Agrees .header t where
  headers_iff := by rw [frame.headers, agrees.headers_iff]
  name_iff := by rw [frame.name, agrees.name_iff]
  fp_named := by rw [frame.fp, frame.name, frame.files]; exact agrees.fp_named

theorem Agrees.fp_none {stage : Stage} {s : Session} (agrees : Agrees stage s) (other : stage.inPart = false) :
    s.fp = none := by
  by_contra opened
  obtain ⟨name, file, named, -⟩ := agrees.fp_named (Option.isSome_iff_ne_none.2 opened)
  simp [agrees.name_iff.1 (by simp [named])] at other

theorem Agrees.headers_none {stage : Stage} {s : Session} (agrees : Agrees stage s)
    (other : stage ≠ .header) : s.headers = none := by
  by_contra opened
  exact other (agrees.headers_iff.1 (Option.isSome_iff_ne_none.2 opened))

theorem Agrees.name_none {stage : Stage} {s : Session} (agrees : Agrees stage s)
    (other : stage.inPart = false) : s.name = none := by
  by_contra opened
  simp [agrees.name_iff.1 (Option.isSome_iff_ne_none.2 opened)] at other

section Callbacks
variable (host : Host) {s : Session}

theorem partDataBegin_agrees {stage : Stage} (agrees : Agrees stage s) (h : stage ≠ .header)
    (d : stage.inPart = false) :
    (partDataBeginCb s).All (Agrees .header) (fun _ => True) (fun why _ => !why.isAssertion) := by
  have closed := agrees.headers_none h
  have noFile := agrees.fp_none d
  have unnamed := agrees.name_none d
  simp only [partDataBeginCb, headersMapNew, closed, Option.isSome_none]
  exact ⟨by simp, by simp [unnamed, Stage.inPart], by simp [noFile]⟩

theorem headersComplete_agrees :
    (headersCompleteCb host s).All (Agrees .opened) (fun _ => True) (fun why _ => !why.isAssertion) := by
  apply (headersCompleteCb_spec host s).mono
  · intro t done
    obtain ⟨name, named, kind⟩ := done.named
    refine ⟨by simp [done.headers], by simp [named, Stage.inPart], fun opened => ?_⟩
    rcases kind with ⟨closed, -⟩ | ⟨path, file, -, -, files, -⟩
    · simp [closed] at opened
    · exact ⟨name, file, named, by simp [files]⟩
  · exact fun _ h => h
  · rintro why _ (rfl | rfl) <;> rfl

theorem partData_agrees {stage : Stage} (inPart : stage.inPart) (run : Bytes)
    (agrees : Agrees stage s) :
    (partDataCb host run s).All (Agrees .data) (fun _ => True) (fun why _ => !why.isAssertion) := by
  have named_ := agrees.name_iff.2 inPart
  obtain ⟨name, named⟩ := Option.isSome_iff_exists.1 named_
  have other : stage ≠ .header := by
    rintro rfl
    simp [Stage.inPart] at inPart
  have closed := agrees.headers_none other
  cases upload : s.fp with
  | none =>
      rw [partDataCb_text host run named upload]
      exact ⟨by simp [closed], by simp [named, Stage.inPart], by simp [upload]⟩
  | some fd =>
      apply (partDataCb_upload host run named upload).mono
      · rintro _ rfl
        exact ⟨by simp [closed], by simp [named, Stage.inPart], agrees.fp_named⟩
      · exact fun _ h => h
      · exact fun _ _ h => h.elim

theorem partDataEnd_agrees (agrees : Agrees .data s) :
    (partDataEndCb host s).All (Agrees .between) (fun _ => True) (fun why _ => !why.isAssertion) := by
  obtain ⟨name, named⟩ := Option.isSome_iff_exists.1 (agrees.name_iff.2 rfl)
  have closed := agrees.headers_none (by simp)
  cases upload : s.fp with
  | none =>
      apply (partDataEndCb_text host named upload).mono
      · rintro _ ⟨post, rfl⟩
        exact ⟨by simp [closed], by simp [Stage.inPart], by simp [upload]⟩
      · exact fun _ h => h.elim
      · rintro _ _ rfl
        rfl
  | some fd =>
      obtain ⟨name', file, named', entry⟩ := agrees.fp_named (by simp [upload])
      obtain rfl : name = name' := Option.some.inj (named.symm.trans named')
      rw [partDataEndCb_upload host named upload entry]
      exact ⟨by simp [closed], by simp [Stage.inPart], by simp⟩

theorem call_agrees {stage stage' : Stage} {k : Call} (next : stage.next k = some stage')
    (agrees : Agrees stage s) :
    ((settings host).call k s).All (Agrees stage') (fun _ => True) (fun why _ => !why.isAssertion) := by
  cases stage <;> cases k <;> cases next
  case preamble.partDataBegin => exact partDataBegin_agrees agrees (by simp) rfl
  case header.headerField run =>
    apply (headerFieldCb_spec run s).mono
    · exact fun t frame => agrees.frame frame
    · exact fun _ _ => trivial
    · rintro _ _ rfl
      rfl
  case header.headerValue run =>
    apply (headerValueCb_spec run s).mono
    · exact fun t frame => agrees.frame frame
    · exact fun _ _ => trivial
    · exact fun _ _ h => h.elim
  case header.headersComplete => exact headersComplete_agrees host
  case opened.partData run => exact partData_agrees host rfl run agrees
  case data.partData run => exact partData_agrees host rfl run agrees
  case data.partDataEnd => exact partDataEnd_agrees host agrees
  case between.partDataBegin => exact partDataBegin_agrees agrees (by simp) rfl
  case between.bodyEnd =>
    have closed := agrees.headers_none (by simp)
    have unnamed := agrees.name_none rfl
    exact ⟨by simp [closed], by simp [unnamed, Stage.inPart], by simp [agrees.fp_none rfl]⟩

end Callbacks

structure Sound (history : List Call) (s : Session) : Prop where
  headers_iff : s.headers.isSome ↔ InHeaders history
  name_iff : s.name.isSome ↔ InData history
  fp_named : s.fp.isSome → ∃ name file, s.name = some name ∧ s.files name = some (.object file)

structure Lawful (t : Traced Session) : Prop where
  conforms : Conforms t.calls
  sound : t.Each fun before _ s => Sound (before.map Prod.fst) s

structure Ready (stage : Stage) (t : Traced Session) : Prop where
  lawful : Lawful t
  walk : Stage.preamble.path t.calls = some stage
  agrees : Agrees stage t.state

theorem Ready.sound {stage : Stage} {t : Traced Session} (ready : Ready stage t) :
    Sound t.calls t.state := by
  obtain ⟨headers, data⟩ := path_between ready.walk
  exact {
    headers_iff := ready.agrees.headers_iff.trans headers.symm
    name_iff := ready.agrees.name_iff.trans data.symm
    fp_named := ready.agrees.fp_named }

theorem start_ready : Ready .preamble (.start .init) where
  lawful := { conforms := Split.preamble.conforms, sound := each_start _ _ }
  walk := rfl
  agrees := init_agrees

section Record
variable {stage stage' : Stage} {t : Traced Session} {k : Call}

theorem Ready.record_walk (ready : Ready stage t) (next : stage.next k = some stage') (s : Session) :
    Stage.preamble.path (t.record k s).calls = some stage' := by
  rw [Traced.calls_record, path_snoc_eq_some]
  exact ⟨stage, ready.walk, next⟩

theorem Ready.record_lawful (ready : Ready stage t) (next : stage.next k = some stage') (s : Session) :
    Lawful (t.record k s) where
  conforms := (path_split (ready.record_walk next s)).conforms
  sound := each_record ready.lawful.sound k s ready.sound

theorem call_ready (host : Host) (ready : Ready stage t) (next : stage.next k = some stage') :
    ((traced (settings host)).call k t).All (Ready stage') Lawful
      (fun why t => Lawful t ∧ !why.isAssertion) := by
  apply traced_all (call_agrees host next ready.agrees)
  · exact fun s agrees => ⟨ready.record_lawful next s, ready.record_walk next s, agrees⟩
  · exact fun s _ => ready.record_lawful next s
  · exact fun why s quiet => ⟨ready.record_lawful next s, quiet⟩

end Record

theorem run_ready (host : Host) (boundary : CString) (chunks : List Bytes) :
    (executeChunks (traced (settings host)) chunks (multipartParserInit boundary, .start .init)).All
      (fun r => ∃ stage : Stage, stage.Fits r.1.state ∧ Ready stage r.2) Lawful
      (fun why t => Lawful t ∧ !why.isAssertion) :=
  executeChunks_rule (fun _ _ _ _ next ready => call_ready host ready next)
    (fun _ _ ready => ready.lawful) (fun _ _ ready => ⟨ready.lawful, rfl⟩) boundary chunks start_ready

theorem callback_protocol (host : Host) (boundary : CString) (chunks : List Bytes) :
    ((executeChunks (traced (settings host)) chunks (multipartParserInit boundary, .start .init)).All
        (fun r => Lawful r.2 ∧ Sound r.2.calls r.2.state) Lawful (fun _ t => Lawful t)) ∧
      (∀ failed left,
        executeChunks (settings host) chunks (multipartParserInit boundary, .init) ≠
          .stop (.assertion failed) left) ∧
      ∀ s, ∃ t, mpartBodyProcessorRelease s = .ok t := by
  have run := run_ready host boundary chunks
  refine ⟨?_, ?_, fun s => ⟨_, mpartBodyProcessorRelease_ok s⟩⟩
  · apply run.mono
    · rintro r ⟨stage, -, ready⟩
      exact ⟨ready.lawful, ready.sound⟩
    · exact fun _ lawful => lawful
    · exact fun _ _ lawful => lawful.1
  · intro failed left stopped
    have same := executeChunks_traced (settings host) chunks (multipartParserInit boundary) .init
    rw [stopped] at same
    cases outcome : executeChunks (traced (settings host)) chunks
        (multipartParserInit boundary, .start .init) with
    | ok r => rw [outcome] at same; cases same
    | fail t => rw [outcome] at same; cases same
    | stop why t =>
        rw [outcome] at same run
        cases same
        simp [Outcome.All, Stop.isAssertion] at run

end HvmlFpm.Multipart
