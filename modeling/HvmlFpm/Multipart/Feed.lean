import HvmlFpm.Multipart.Parser

/-!
# The parser one byte at a time

The loop of `multipart_parser_execute` reports a run of bytes when it ends or when the buffer does.
Here the bytes of an open run are held back in `pending`, each byte only says which callbacks are
due, and the end of a chunk reports what is still pending. `execute_eq_feedChunk` shows that this is
the same parser.
-/

namespace HvmlFpm.Multipart
open Library
variable {σ : Type}

inductive Call
  | headerField (run : Bytes)
  | headerValue (run : Bytes)
  | partData (run : Bytes)
  | partDataBegin
  | headersComplete
  | partDataEnd
  | bodyEnd
deriving DecidableEq, Repr

def Settings.call (settings : Settings σ) : Call → σ → Outcome Stop σ σ
  | .headerField run => settings.onHeaderField run
  | .headerValue run => settings.onHeaderValue run
  | .partData run => settings.onPartData run
  | .partDataBegin => settings.onPartDataBegin
  | .headersComplete => settings.onHeadersComplete
  | .partDataEnd => settings.onPartDataEnd
  | .bodyEnd => settings.onBodyEnd

def Settings.calls (settings : Settings σ) : List Call → σ → Outcome Stop σ σ :=
  Outcome.sequence settings.call

inductive Fed
  | refused
  | outOfBlock (calls : List Call)
  | next (calls : List Call) (p : Parser) (pending : Bytes)

namespace Parser

def feedStartBoundary (p : Parser) (c : UInt8) : Fed :=
  if p.index = p.boundaryLength then
    if c ≠ CR then .refused else .next [] { p with index := p.index + 1 } []
  else if p.index = p.boundaryLength + 1 then
    if c ≠ LF then .refused
    else .next [.partDataBegin] { p with index := 0, state := .headerFieldStart } []
  else
    match p.boundaryAt p.index with
    | none => .outOfBlock []
    | some b => if c ≠ b then .refused else .next [] { p with index := p.index + 1 } []

def feedHeaderField (p : Parser) (pending : Bytes) (c : UInt8) : Fed :=
  if c = CR then .next [] { p with state := .headersAlmostDone } []
  else if c = 58 then .next [.headerField pending] { p with state := .headerValueStart } []
  else if !isHeaderNameByte c then .refused
  else .next [] p (pending ++ [c])

def feedHeaderValue (p : Parser) (pending : Bytes) (c : UInt8) : Fed :=
  if c = CR then .next [.headerValue pending] { p with state := .headerValueAlmostDone } []
  else .next [] p (pending ++ [c])

def feedPartData (before : List Call) (p : Parser) (pending : Bytes) (c : UInt8) : Fed :=
  if c = CR then
    match { p with state := .partDataAlmostBoundary }.setLookbehind 0 CR with
    | none => .outOfBlock (before ++ [.partData pending])
    | some p => .next (before ++ [.partData pending]) p []
  else .next before p (pending ++ [c])

def feed (p : Parser) (pending : Bytes) (c : UInt8) : Fed :=
  match p.state with
  | .start => feedStartBoundary { p with index := 0, state := .startBoundary } c
  | .startBoundary => feedStartBoundary p c
  | .headerFieldStart => feedHeaderField { p with state := .headerField } [] c
  | .headerField => feedHeaderField p pending c
  | .headersAlmostDone =>
      if c ≠ LF then .refused else .next [] { p with state := .partDataStart } []
  | .headerValueStart =>
      if c = 32 then .next [] p []
      else feedHeaderValue { p with state := .headerValue } [] c
  | .headerValue => feedHeaderValue p pending c
  | .headerValueAlmostDone =>
      if c ≠ LF then .refused else .next [] { p with state := .headerFieldStart } []
  | .partDataStart => feedPartData [.headersComplete] { p with state := .partData } [] c
  | .partData => feedPartData [] p pending c
  | .partDataAlmostBoundary =>
      if c = LF then
        match { p with state := .partDataBoundary }.setLookbehind 1 LF with
        | none => .outOfBlock []
        | some p => .next [] { p with index := 0 } []
      else feedPartData [.partData (p.lookbehind.take 1)] { p with state := .partData } [] c
  | .partDataBoundary =>
      match p.boundaryAt p.index with
      | none => .outOfBlock []
      | some b =>
          if b ≠ c then
            feedPartData [.partData (p.lookbehind.take (2 + p.index))] { p with state := .partData } [] c
          else
            match p.setLookbehind (2 + p.index) c with
            | none => .outOfBlock []
            | some p =>
                if p.index + 1 = p.boundaryLength then
                  .next [.partDataEnd] { p with index := p.index + 1, state := .partDataAlmostEnd } []
                else .next [] { p with index := p.index + 1 } []
  | .partDataAlmostEnd =>
      if c = 45 then .next [] { p with state := .partDataFinalHyphen } []
      else if c = CR then .next [] { p with state := .partDataEnd } []
      else .refused
  | .partDataFinalHyphen =>
      if c = 45 then .next [.bodyEnd] { p with state := .ended } [] else .refused
  | .partDataEnd =>
      if c = LF then .next [.partDataBegin] { p with state := .headerFieldStart } [] else .refused
  | .ended => .next [] p []
  | .uninitialized => .refused

/-- The report of the run that is still open when a chunk ends. -/
def pendingCalls (p : Parser) (pending : Bytes) : List Call :=
  if pending = [] then []
  else
    match p.state with
    | .headerField => [.headerField pending]
    | .headerValue => [.headerValue pending]
    | .partData => [.partData pending]
    | _ => []

end Parser

structure Config (σ : Type) where
  parser : Parser
  pending : Bytes
  data : σ

def perform (settings : Settings σ) (fed : Fed) (s : σ) : Outcome Stop σ (Config σ) :=
  match fed with
  | .refused => .fail s
  | .outOfBlock calls => (settings.calls calls s).bind fun s => .stop .outOfBlock s
  | .next calls p pending => (settings.calls calls s).map fun s => ⟨p, pending, s⟩

def step (settings : Settings σ) (c : UInt8) (k : Config σ) : Outcome Stop σ (Config σ) :=
  perform settings (k.parser.feed k.pending c) k.data

def steps (settings : Settings σ) : Bytes → Config σ → Outcome Stop σ (Config σ) :=
  Outcome.sequence (step settings)

def flush (settings : Settings σ) (k : Config σ) : Outcome Stop σ (Parser × σ) :=
  (settings.calls (k.parser.pendingCalls k.pending) k.data).map fun s => (k.parser, s)

def feedChunk (settings : Settings σ) (buf : Bytes) (start : Parser × σ) : Outcome Stop σ (Parser × σ) :=
  (steps settings buf ⟨start.1, [], start.2⟩).bind (flush settings)

/-- `pending` is what the loop would report with `mark` and `i`. -/
def Held (buf : Bytes) (mark i : Nat) (p : Parser) (pending : Bytes) : Prop :=
  match p.state with
  | .headerField | .headerValue | .partData => mark ≤ i ∧ pending = piece buf mark i
  | _ => pending = []

def closing (settings : Settings σ) (isLast : Bool) (k : Config σ) : Outcome Stop σ (Config σ) :=
  if isLast then (flush settings k).map fun r => ⟨r.1, [], r.2⟩ else .ok k

def Follows (buf : Bytes) (i : Nat) (isLast : Bool) :
    Pass σ → Outcome Stop σ (Config σ) → Prop
  | .next mark p s, result => ∃ pending, result = .ok ⟨p, pending, s⟩ ∧
      (isLast = false → Held buf mark (i + 1) p pending)
  | .leave consumed _ s, result => consumed ≤ i ∧ result = .fail s
  | .stop why s, result => result = .stop why s

theorem piece_self (buf : Bytes) (i : Nat) : piece buf i i = [] := by
  simp [piece]

theorem piece_succ {buf : Bytes} {mark i : Nat} {c : UInt8} (le : mark ≤ i) (at_i : buf[i]? = some c) :
    piece buf mark (i + 1) = piece buf mark i ++ [c] := by
  obtain ⟨bound, rfl⟩ := List.getElem?_eq_some_iff.1 at_i
  unfold piece
  rw [List.take_add_one, List.drop_append_of_le_length (by rw [List.length_take]; omega)]
  simp [bound]

section Cases
variable (settings : Settings σ) {buf : Bytes} {i : Nat} {c : UInt8} {isLast : Bool}

theorem perform_next_cons (k : Call) (ks : List Call) (p : Parser) (pending : Bytes) (s : σ) :
    perform settings (.next (k :: ks) p pending) s =
      (settings.call k s).bind (perform settings (.next ks p pending)) := by
  simp only [perform, Settings.calls, Outcome.sequence_cons, Outcome.map, Outcome.bind_assoc]
  rfl

theorem perform_outOfBlock_cons (k : Call) (ks : List Call) (s : σ) :
    perform settings (.outOfBlock (k :: ks)) s =
      (settings.call k s).bind (perform settings (.outOfBlock ks)) := by
  simp only [perform, Settings.calls, Outcome.sequence_cons, Outcome.bind_assoc]
  rfl

theorem perform_feedPartData_cons (k : Call) (before : List Call) (p : Parser) (pending : Bytes)
    (s : σ) :
    perform settings (Parser.feedPartData (k :: before) p pending c) s =
      (settings.call k s).bind (perform settings (Parser.feedPartData before p pending c)) := by
  unfold Parser.feedPartData
  split_ifs
  · split
    · exact perform_outOfBlock_cons settings k _ s
    · exact perform_next_cons settings k _ _ _ s
  · exact perform_next_cons settings k _ _ _ s

theorem notifyCb_follows {p : Parser} (called : Outcome Stop σ σ) {go : σ → Pass σ}
    {f : σ → Outcome Stop σ (Config σ)} (h : ∀ s, Follows buf i isLast (go s) (f s)) :
    Follows buf i isLast (notifyCb i p called go) (called.bind f) := by
  cases called with
  | ok s => exact h s
  | fail s => exact ⟨le_rfl, rfl⟩
  | stop why s => rfl

theorem closing_quiet {p : Parser} {s : σ} :
    closing settings isLast ⟨p, [], s⟩ = .ok ⟨p, [], s⟩ := by
  cases isLast <;> rfl

theorem next_follows {mark : Nat} {p : Parser} {s : σ} (quiet : Held buf mark (i + 1) p []) :
    Follows buf i isLast (.next mark p s)
      ((perform settings (.next [] p []) s).bind (closing settings isLast)) :=
  ⟨[], closing_quiet settings, fun _ => quiet⟩

theorem startBoundaryCase_follows (mark : Nat) (p : Parser) (s : σ) (state : p.state = .startBoundary) :
    Follows buf i isLast (startBoundaryCase settings i c mark p s)
      ((perform settings (p.feedStartBoundary c) s).bind (closing settings isLast)) := by
  have quiet : Held buf mark (i + 1) { p with index := p.index + 1 } [] := by simp [Held, state]
  unfold startBoundaryCase Parser.feedStartBoundary
  by_cases full : p.index = p.boundaryLength
  · simp only [full, if_true]
    split_ifs
    · exact ⟨le_rfl, rfl⟩
    · exact next_follows settings (full ▸ quiet)
  simp only [full, if_false]
  by_cases past : p.index = p.boundaryLength + 1
  · simp only [past, if_true]
    split_ifs
    · exact ⟨le_rfl, rfl⟩
    · rw [perform_next_cons, Outcome.bind_assoc]
      exact notifyCb_follows _ fun s => next_follows settings rfl
  simp only [past, if_false]
  cases p.boundaryAt p.index with
  | none => rfl
  | some b =>
      simp only [inBlock]
      split_ifs
      · exact ⟨le_rfl, rfl⟩
      · exact next_follows settings quiet

theorem open_run_follows {mark : Nat} {p : Parser} {pending : Bytes} {s : σ} (k : Bytes → Call)
    (held : Held buf mark (i + 1) p (pending ++ [c]))
    (run : piece buf mark (i + 1) = pending ++ [c])
    (report : ∀ x, x ≠ [] → p.pendingCalls x = [k x]) :
    Follows buf i isLast
      (if isLast then
        notifyCb i p (settings.call (k (piece buf mark (i + 1))) s) fun s => .next mark p s
      else .next mark p s)
      ((perform settings (.next [] p (pending ++ [c])) s).bind (closing settings isLast)) := by
  cases isLast with
  | false => exact ⟨pending ++ [c], rfl, fun _ => held⟩
  | true =>
      simp only [perform, Settings.calls, Outcome.sequence_nil, Outcome.ok_bind,
        closing, flush, report (pending ++ [c]) (by simp), Outcome.sequence_singleton, run, if_true,
        Outcome.map, Outcome.bind_assoc]
      exact notifyCb_follows _ fun s => ⟨[], rfl, by simp⟩

theorem headerFieldCase_follows {mark : Nat} {p : Parser} {pending : Bytes} (s : σ)
    (at_i : buf[i]? = some c) (state : p.state = .headerField) (le : mark ≤ i)
    (run : pending = piece buf mark i) :
    Follows buf i isLast (headerFieldCase settings buf i c isLast mark p s)
      ((perform settings (p.feedHeaderField pending c) s).bind (closing settings isLast)) := by
  have longer := run ▸ piece_succ le at_i
  unfold headerFieldCase Parser.feedHeaderField
  by_cases cr : c = CR
  · rw [if_pos cr, if_pos cr]
    exact next_follows settings rfl
  rw [if_neg cr, if_neg cr]
  by_cases colon : c = 58
  · rw [if_pos colon, if_pos colon, perform_next_cons, Outcome.bind_assoc, run]
    exact notifyCb_follows _ fun s => next_follows settings rfl
  rw [if_neg colon, if_neg colon]
  by_cases bad : (!isHeaderNameByte c) = true
  · rw [if_pos bad, if_pos bad]
    exact ⟨le_rfl, rfl⟩
  rw [if_neg bad, if_neg bad]
  exact open_run_follows settings Call.headerField
    (by simp only [Held, state]; exact ⟨by omega, longer.symm⟩) longer
    (fun x hx => by simp [Parser.pendingCalls, hx, state])

theorem headerValueCase_follows {mark : Nat} {p : Parser} {pending : Bytes} (s : σ)
    (at_i : buf[i]? = some c) (state : p.state = .headerValue) (le : mark ≤ i)
    (run : pending = piece buf mark i) :
    Follows buf i isLast (headerValueCase settings buf i c isLast mark p s)
      ((perform settings (p.feedHeaderValue pending c) s).bind (closing settings isLast)) := by
  have longer := run ▸ piece_succ le at_i
  unfold headerValueCase Parser.feedHeaderValue
  by_cases cr : c = CR
  · rw [if_pos cr, if_pos cr, perform_next_cons, Outcome.bind_assoc, run]
    exact notifyCb_follows _ fun s => next_follows settings rfl
  rw [if_neg cr, if_neg cr]
  exact open_run_follows settings Call.headerValue
    (by simp only [Held, state]; exact ⟨by omega, longer.symm⟩) longer
    (fun x hx => by simp [Parser.pendingCalls, hx, state])

theorem setLookbehind_eq_some {p p' : Parser} {k : Nat} (h : p.setLookbehind k c = some p') :
    k < p.lookbehind.length ∧ p' = { p with lookbehind := p.lookbehind.set k c } := by
  unfold Parser.setLookbehind at h
  split_ifs at h with bound
  exact ⟨bound, (Option.some.inj h).symm⟩

theorem partDataCase_follows {mark : Nat} {p : Parser} {pending : Bytes} (s : σ)
    (at_i : buf[i]? = some c) (state : p.state = .partData) (le : mark ≤ i)
    (run : pending = piece buf mark i) :
    Follows buf i isLast (partDataCase settings buf i c isLast mark p s)
      ((perform settings (Parser.feedPartData [] p pending c) s).bind (closing settings isLast)) := by
  have longer := run ▸ piece_succ le at_i
  unfold partDataCase Parser.feedPartData
  by_cases cr : c = CR
  · rw [if_pos cr, if_pos cr]
    cases access : ({ p with state := .partDataAlmostBoundary } : Parser).setLookbehind 0 CR with
    | none =>
        simp only [List.nil_append]
        rw [perform_outOfBlock_cons, Outcome.bind_assoc, run]
        exact notifyCb_follows _ fun s => rfl
    | some p' =>
        obtain ⟨-, rfl⟩ := setLookbehind_eq_some access
        simp only [List.nil_append]
        rw [perform_next_cons, Outcome.bind_assoc, run]
        exact notifyCb_follows _ fun s => next_follows settings rfl
  rw [if_neg cr, if_neg cr]
  exact open_run_follows settings Call.partData
    (by simp only [Held, state]; exact ⟨by omega, longer.symm⟩) longer
    (fun x hx => by simp [Parser.pendingCalls, hx, state])

theorem replayLookbehind_follows (len : Nat) (p : Parser) (s : σ) (at_i : buf[i]? = some c) :
    Follows buf i isLast (replayLookbehind settings buf i c isLast len p s)
      ((perform settings (Parser.feedPartData [.partData (p.lookbehind.take len)]
        { p with state := .partData } [] c) s).bind (closing settings isLast)) := by
  rw [perform_feedPartData_cons, Outcome.bind_assoc]
  exact notifyCb_follows _ fun s =>
    partDataCase_follows settings s at_i rfl le_rfl (piece_self buf i).symm

variable (isLast) in
theorem pass_follows {mark : Nat} {p : Parser} {pending : Bytes} (s : σ) (at_i : buf[i]? = some c)
    (held : Held buf mark i p pending) :
    Follows buf i isLast (pass settings buf i c isLast mark p s)
      ((step settings c ⟨p, pending, s⟩).bind (closing settings isLast)) := by
  unfold pass step Parser.feed
  cases state : p.state <;> simp only [Held, state] at held ⊢
  case start => exact startBoundaryCase_follows settings mark _ s rfl
  case startBoundary => exact startBoundaryCase_follows settings mark p s state
  case headerFieldStart =>
    exact headerFieldCase_follows settings s at_i rfl le_rfl (piece_self buf i).symm
  case headerField => exact headerFieldCase_follows settings s at_i state held.1 held.2
  case headersAlmostDone =>
    split_ifs
    · exact ⟨le_rfl, rfl⟩
    · exact next_follows settings rfl
  case headerValueStart =>
    split_ifs
    · exact next_follows settings (by simp only [Held, state])
    · exact headerValueCase_follows settings s at_i rfl le_rfl (piece_self buf i).symm
  case headerValue => exact headerValueCase_follows settings s at_i state held.1 held.2
  case headerValueAlmostDone =>
    split_ifs
    · exact ⟨le_rfl, rfl⟩
    · exact next_follows settings rfl
  case partDataStart =>
    rw [perform_feedPartData_cons, Outcome.bind_assoc]
    exact notifyCb_follows _ fun s =>
      partDataCase_follows settings s at_i rfl le_rfl (piece_self buf i).symm
  case partData => exact partDataCase_follows settings s at_i state held.1 held.2
  case partDataAlmostBoundary =>
    split_ifs with lf
    · -- A write outside the block stops both sides alike.
      cases access : ({ p with state := .partDataBoundary } : Parser).setLookbehind 1 LF with
      | none => rfl
      | some p' =>
          obtain ⟨-, rfl⟩ := setLookbehind_eq_some access
          exact next_follows settings rfl
    · exact replayLookbehind_follows settings 1 p s at_i
  case partDataBoundary =>
    cases p.boundaryAt p.index with
    | none => rfl
    | some b =>
        simp only [inBlock]
        split_ifs with differs
        · exact replayLookbehind_follows settings (2 + p.index) p s at_i
        cases access : p.setLookbehind (2 + p.index) c with
        | none => rfl
        | some p' =>
            obtain ⟨-, rfl⟩ := setLookbehind_eq_some access
            simp only [Parser.boundaryLength]
            by_cases whole : p.index + 1 = p.multipartBoundary.length
            · simp only [whole, if_true]
              rw [perform_next_cons, Outcome.bind_assoc]
              exact notifyCb_follows _ fun s => next_follows settings rfl
            · simp only [whole, if_false]
              exact next_follows settings (by simp only [Held, state])
  case partDataAlmostEnd =>
    split_ifs
    · exact next_follows settings rfl
    · exact next_follows settings rfl
    · exact ⟨le_rfl, rfl⟩
  case partDataFinalHyphen =>
    split_ifs
    · rw [perform_next_cons, Outcome.bind_assoc]
      exact notifyCb_follows _ fun s => next_follows settings rfl
    · exact ⟨le_rfl, rfl⟩
  case partDataEnd =>
    split_ifs
    · rw [perform_next_cons, Outcome.bind_assoc]
      exact notifyCb_follows _ fun s => next_follows settings rfl
    · exact ⟨le_rfl, rfl⟩
  case ended => exact next_follows settings (by simp only [Held, state])
  case uninitialized => exact ⟨Nat.zero_le i, rfl⟩

theorem executeFrom_steps (p : Parser) (s : σ) {mark : Nat} {pending : Bytes} (rest done : Bytes)
    (split : buf = done ++ rest) (more : rest ≠ []) (held : Held buf mark done.length p pending) :
    (executeFrom settings buf rest done.length mark p s).outcome buf.length =
      (steps settings rest ⟨p, pending, s⟩).bind (flush settings) := by
  induction rest generalizing p s mark pending done with
  | nil => exact absurd rfl more
  | cons c rest ih =>
      have at_i : buf[done.length]? = some c := by simp [split]
      have shorter : done.length < buf.length := by simp [split]
      have follows := pass_follows settings rest.isEmpty s at_i held
      simp only [executeFrom, steps, Outcome.sequence_cons]
      cases rest with
      | nil =>
          have closing_eq : closing settings true = fun k =>
              (flush settings k).bind fun r => .ok ⟨r.1, [], r.2⟩ := rfl
          rw [List.isEmpty_nil, closing_eq, ← Outcome.bind_assoc] at follows
          rw [List.isEmpty_nil]
          change _ = ((step settings c ⟨p, pending, s⟩).bind Outcome.ok).bind (flush settings)
          rw [Outcome.bind_ok]
          generalize (step settings c ⟨p, pending, s⟩).bind (flush settings) = result at follows ⊢
          generalize pass settings buf done.length c true mark p s = turn at follows ⊢
          cases turn with
          | next mark p' s' =>
              obtain ⟨pending', h, -⟩ := follows
              obtain ⟨r, rfl, h⟩ := Outcome.bind_eq_ok.1 h
              cases h
              simp [executeFrom, Executed.outcome]
          | leave consumed p' s' =>
              obtain ⟨le, h⟩ := follows
              have short : consumed < buf.length := by omega
              cases result <;> simp_all [Executed.outcome]
          | stop why s' => cases result <;> simp_all [Follows, Executed.outcome]
      | cons c' rest =>
          have closing_eq : closing settings false = .ok := rfl
          rw [List.isEmpty_cons, closing_eq, Outcome.bind_ok] at follows
          rw [List.isEmpty_cons]
          generalize pass settings buf done.length c false mark p s = turn at follows ⊢
          cases turn with
          | next mark p' s' =>
              obtain ⟨pending', h, held'⟩ := follows
              rw [h]
              have longer : (done ++ [c]).length = done.length + 1 := by simp
              have := ih p' s' (done ++ [c]) (by simp [split]) (by simp)
                (longer ▸ held' rfl)
              rwa [longer] at this
          | leave consumed p' s' =>
              obtain ⟨le, h⟩ := follows
              have short : consumed < buf.length := by omega
              simp [h, Executed.outcome, short]
          | stop why s' =>
              have h : step settings c ⟨p, pending, s⟩ = .stop why s' := follows
              simp [h, Executed.outcome]

theorem held_nil (p : Parser) : Held buf 0 0 p [] := by
  unfold Held
  split <;> simp [piece]

theorem execute_eq_feedChunk (buf : Bytes) (p : Parser) (s : σ) :
    (multipartParserExecute settings p buf s).outcome buf.length =
      feedChunk settings buf (p, s) := by
  cases buf with
  | nil => rfl
  | cons c rest =>
      exact executeFrom_steps settings p s (c :: rest) [] rfl (by simp) (held_nil p)

theorem executeChunks_eq (chunks : List Bytes) (start : Parser × σ) :
    executeChunks settings chunks start =
      Outcome.sequence (feedChunk settings) chunks start := by
  unfold executeChunks
  congr 1
  funext buf start
  exact execute_eq_feedChunk settings buf start.1 start.2

theorem executeChunks_along {I : Bytes → Config σ → Prop} {J : σ → Prop} {K : Stop → σ → Prop}
    (byte : ∀ x c k, I x k → (step settings c k).All (I (x ++ [c])) J K)
    (chunkEnd : ∀ x k, I x k → (flush settings k).All (fun r => I x ⟨r.1, [], r.2⟩) J K)
    (chunks : List Bytes) (start : Parser × σ) (x : Bytes) (initial : I x ⟨start.1, [], start.2⟩) :
    (executeChunks settings chunks start).All (fun r => I (x ++ chunks.flatten) ⟨r.1, [], r.2⟩) J K := by
  have chunk (x buf : Bytes) (r : Parser × σ) (entered : I x ⟨r.1, [], r.2⟩) :
      (feedChunk settings buf r).All (fun r => I (x ++ buf) ⟨r.1, [], r.2⟩) J K := by
    apply Outcome.All.bind (I := I (x ++ buf))
    · exact Outcome.All.along byte buf x entered
    · exact chunkEnd (x ++ buf)
  rw [executeChunks_eq]
  have all := Outcome.All.along (I := fun done r => I (x ++ done.flatten) ⟨r.1, [], r.2⟩)
    (f := feedChunk settings) (J := J) (K := K) ?_ chunks [] (a := start) (by simpa using initial)
  · simpa using all
  · intro done buf r entered
    simpa [List.append_assoc] using chunk _ buf r entered

theorem executeChunks_ahead {I : Bytes → Config σ → Prop} {J : σ → Prop} {K : Stop → σ → Prop}
    (byte : ∀ c left k, I (c :: left) k → (step settings c k).All (I left) J K)
    (chunkEnd : ∀ left k, I left k → (flush settings k).All (fun r => I left ⟨r.1, [], r.2⟩) J K)
    (chunks : List Bytes) (start : Parser × σ) (initial : I chunks.flatten ⟨start.1, [], start.2⟩) :
    (executeChunks settings chunks start).All (fun r => I [] ⟨r.1, [], r.2⟩) J K := by
  rw [executeChunks_eq]
  have all := Outcome.All.ahead (I := fun left r => I left.flatten ⟨r.1, [], r.2⟩) (f := feedChunk settings) (J := J) (K := K)
    ?_ chunks (a := start) initial
  · exact all
  intro buf left r entered
  rw [List.flatten_cons] at entered
  apply Outcome.All.bind (I := I left.flatten)
  · exact Outcome.All.ahead (I := fun rest => I (rest ++ left.flatten)) (fun c rest => byte c (rest ++ left.flatten)) buf
      entered
  · exact chunkEnd left.flatten

theorem executeChunks_all {I : Config σ → Prop} {J : σ → Prop} {K : Stop → σ → Prop}
    (byte : ∀ c k, I k → (step settings c k).All I J K)
    (chunkEnd : ∀ k, I k → (flush settings k).All (fun r => I ⟨r.1, [], r.2⟩) J K)
    (chunks : List Bytes) (start : Parser × σ) (initial : I ⟨start.1, [], start.2⟩) :
    (executeChunks settings chunks start).All (fun r => I ⟨r.1, [], r.2⟩) J K :=
  executeChunks_along settings (I := fun _ => I) (fun _ => byte) (fun _ => chunkEnd) chunks start []
    initial

end Cases
end HvmlFpm.Multipart
