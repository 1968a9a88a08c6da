import HvmlFpm.Multipart.Callbacks

/-!
# The boundary and its look-behind buffer

The parser's invariant: where `index` stands, and what the look-behind buffer holds, in each state.
-/

namespace HvmlFpm.Multipart
open Library
variable {σ : Type}

def delimiter (boundary : CString) : Bytes := CR :: LF :: boundary.bytes

structure Intact (boundary : CString) (p : Parser) : Prop where
  boundary_eq : p.multipartBoundary = boundary
  block : p.lookbehind.length = boundary.length + 16
  index_le : p.index ≤ boundary.length + 1
  almost : p.state = .partDataAlmostBoundary → p.lookbehind.take 1 = [CR]
  inside : p.state = .partDataBoundary → p.index < boundary.length ∧
    p.lookbehind.take (2 + p.index) = (delimiter boundary).take (2 + p.index)

theorem init_intact (boundary : CString) : Intact boundary (multipartParserInit boundary) where
  boundary_eq := rfl
  block := by simp [multipartParserInit]
  index_le := Nat.zero_le _
  almost := by simp [multipartParserInit]
  inside := by simp [multipartParserInit]

theorem Intact.move {boundary : CString} {p : Parser} (intact : Intact boundary p) (state : State)
    (h₁ : state ≠ .partDataAlmostBoundary) (h₂ : state ≠ .partDataBoundary) :
    Intact boundary { p with state := state } where
  boundary_eq := intact.boundary_eq
  block := intact.block
  index_le := intact.index_le
  almost := fun h => absurd h h₁
  inside := fun h => absurd h h₂

theorem take_succ_set {l : Bytes} {k : Nat} {c : UInt8} (bound : k < l.length) :
    (l.set k c).take (k + 1) = l.take k ++ [c] := by
  rw [List.take_add_one, List.take_set_of_le le_rfl, List.getElem?_set_self bound]
  rfl

def Fed.All (P : Parser → Prop) : Fed → Prop
  | .refused => True
  | .outOfBlock _ => False
  | .next _ p _ => P p

theorem feedPartData_intact {boundary : CString} {p : Parser} (intact : Intact boundary p)
    (before : List Call) (pending : Bytes) (c : UInt8) :
    (Parser.feedPartData before p pending c).All (Intact boundary) := by
  unfold Parser.feedPartData
  split_ifs with cr
  · have bound : 0 < p.lookbehind.length := by rw [intact.block]; omega
    simp only [Parser.setLookbehind, bound, if_true, Fed.All]
    exact {
      boundary_eq := intact.boundary_eq
      block := by simp [intact.block]
      index_le := intact.index_le
      almost := fun _ => take_succ_set bound
      inside := by simp }
  · exact intact

theorem boundaryAt_lt {boundary : CString} {p : Parser} (intact : Intact boundary p)
    (bound : p.index < boundary.length) :
    p.boundaryAt p.index = some (boundary.bytes[p.index]) := by
  rw [Parser.boundaryAt, intact.boundary_eq, List.getElem?_append_left bound,
    List.getElem?_eq_getElem bound]

theorem feedStartBoundary_intact {boundary : CString} {p : Parser} (intact : Intact boundary p)
    (state : p.state = .startBoundary) (c : UInt8) :
    (p.feedStartBoundary c).All (Intact boundary) := by
  have advance (le : p.index ≤ boundary.length) : Intact boundary { p with index := p.index + 1 } := {
    boundary_eq := intact.boundary_eq
    block := intact.block
    index_le := by simp only; omega
    almost := fun h => by simp [state] at h
    inside := fun h => by simp [state] at h }
  have length_eq : p.boundaryLength = boundary.length := by
    rw [Parser.boundaryLength, intact.boundary_eq]
  unfold Parser.feedStartBoundary
  rw [length_eq]
  split_ifs with full _ past
  · trivial
  · exact advance (by omega)
  · trivial
  · exact {
      boundary_eq := intact.boundary_eq
      block := intact.block
      index_le := Nat.zero_le _
      almost := by simp
      inside := by simp }
  · have bound : p.index < boundary.length := by
      have := intact.index_le
      omega
    simp only [boundaryAt_lt intact bound]
    split_ifs
    · trivial
    · exact advance (by omega)

theorem feedHeaderField_intact {boundary : CString} {p : Parser} (intact : Intact boundary p)
    (pending : Bytes) (c : UInt8) : (p.feedHeaderField pending c).All (Intact boundary) := by
  unfold Parser.feedHeaderField
  split_ifs
  · exact intact.move .headersAlmostDone (by decide) (by decide)
  · exact intact.move .headerValueStart (by decide) (by decide)
  · trivial
  · exact intact

theorem feedHeaderValue_intact {boundary : CString} {p : Parser} (intact : Intact boundary p)
    (pending : Bytes) (c : UInt8) : (p.feedHeaderValue pending c).All (Intact boundary) := by
  unfold Parser.feedHeaderValue
  split_ifs
  · exact intact.move .headerValueAlmostDone (by decide) (by decide)
  · exact intact

theorem matched_intact {boundary : CString} {p : Parser} (intact : Intact boundary p) {c : UInt8}
    (bound : p.index < boundary.length) (same : boundary.bytes[p.index] = c)
    (state : p.state = .partDataBoundary) :
    2 + p.index < p.lookbehind.length ∧
      (p.lookbehind.set (2 + p.index) c).take (2 + (p.index + 1)) =
        (delimiter boundary).take (2 + (p.index + 1)) := by
  have room : 2 + p.index < p.lookbehind.length := by rw [intact.block]; omega
  have inDelimiter : 2 + p.index < (delimiter boundary).length := by
    simp only [delimiter, List.length_cons]
    change p.index < boundary.bytes.length at bound
    omega
  refine ⟨room, ?_⟩
  rw [← Nat.add_assoc, take_succ_set room, (intact.inside state).2, List.take_add_one,
    List.getElem?_eq_getElem inDelimiter]
  subst same
  simp only [delimiter, Nat.add_comm 2, List.getElem_cons_succ]
  rfl

theorem partDataAlmostBoundary_intact {boundary : CString} (nonempty : boundary ≠ .empty) {p : Parser}
    (intact : Intact boundary p) (state : p.state = .partDataAlmostBoundary) (pending : Bytes) (c : UInt8) :
    (p.feed pending c).All (Intact boundary) := by
  simp only [Parser.feed, state]
  split_ifs
  · have room : 1 < p.lookbehind.length := by rw [intact.block]; omega
    have pos : 0 < boundary.length := by
      apply List.length_pos_of_ne_nil
      exact fun h => nonempty (CString.ext h)
    simp only [Parser.setLookbehind, room, if_true, Fed.All]
    exact {
      boundary_eq := intact.boundary_eq
      block := by simp [intact.block]
      index_le := Nat.zero_le _
      almost := by simp
      inside := fun _ => ⟨pos, by
        rw [Nat.add_zero, take_succ_set room, intact.almost state]
        rfl⟩ }
  · exact feedPartData_intact (intact.move .partData (by decide) (by decide)) _ _ c

theorem partDataBoundary_intact {boundary : CString} {p : Parser} (intact : Intact boundary p)
    (state : p.state = .partDataBoundary) (pending : Bytes) (c : UInt8) :
    (p.feed pending c).All (Intact boundary) := by
  obtain ⟨bound, -⟩ := intact.inside state
  simp only [Parser.feed, state, boundaryAt_lt intact bound]
  by_cases differs : boundary.bytes[p.index] ≠ c
  · rw [if_pos differs]
    exact feedPartData_intact (intact.move .partData (by decide) (by decide)) _ _ c
  obtain ⟨room, longer⟩ := matched_intact intact bound (not_not.1 differs) state
  rw [if_neg differs]
  by_cases whole : p.index + 1 = p.multipartBoundary.length
  · simp only [Parser.setLookbehind, room, if_true, Parser.boundaryLength, whole, Fed.All]
    exact {
      boundary_eq := intact.boundary_eq
      block := by simp [intact.block]
      index_le := by simp only [intact.boundary_eq]; omega
      almost := by simp
      inside := by simp }
  · simp only [Parser.setLookbehind, room, if_true, Parser.boundaryLength, whole, if_false, Fed.All]
    rw [intact.boundary_eq] at whole
    exact {
      boundary_eq := intact.boundary_eq
      block := by simp [intact.block]
      index_le := by simp only; omega
      almost := fun h => by simp [state] at h
      inside := fun _ => ⟨by simp only; omega, longer⟩ }

theorem feed_intact {boundary : CString} (nonempty : boundary ≠ .empty) {p : Parser}
    (intact : Intact boundary p) (pending : Bytes) (c : UInt8) :
    (p.feed pending c).All (Intact boundary) := by
  have move (state : State) (h₁ : state ≠ .partDataAlmostBoundary) (h₂ : state ≠ .partDataBoundary) :=
    intact.move state h₁ h₂
  cases state : p.state
  case partDataAlmostBoundary => exact partDataAlmostBoundary_intact nonempty intact state pending c
  case partDataBoundary => exact partDataBoundary_intact intact state pending c
  all_goals simp only [Parser.feed, state]
  case start =>
    have started : Intact boundary { p with index := 0, state := .startBoundary } := {
      move .startBoundary (by decide) (by decide) with
      index_le := Nat.zero_le _
      inside := by simp }
    exact feedStartBoundary_intact started rfl c
  case startBoundary => exact feedStartBoundary_intact intact state c
  case headerFieldStart =>
    exact feedHeaderField_intact (move .headerField (by decide) (by decide)) [] c
  case headerField => exact feedHeaderField_intact intact pending c
  case headersAlmostDone =>
    split_ifs
    · trivial
    · exact move .partDataStart (by decide) (by decide)
  case headerValueStart =>
    split_ifs
    · exact intact
    · exact feedHeaderValue_intact (move .headerValue (by decide) (by decide)) [] c
  case headerValue => exact feedHeaderValue_intact intact pending c
  case headerValueAlmostDone =>
    split_ifs
    · trivial
    · exact move .headerFieldStart (by decide) (by decide)
  case partDataStart => exact feedPartData_intact (move .partData (by decide) (by decide)) _ _ c
  case partData => exact feedPartData_intact intact _ _ c
  case partDataAlmostEnd =>
    split_ifs
    · exact move .partDataFinalHyphen (by decide) (by decide)
    · exact move .partDataEnd (by decide) (by decide)
    · trivial
  case partDataFinalHyphen =>
    split_ifs
    · exact move .ended (by decide) (by decide)
    · trivial
  case partDataEnd =>
    split_ifs
    · exact move .headerFieldStart (by decide) (by decide)
    · trivial
  case ended => exact intact
  case uninitialized => trivial

section Loop
variable (settings : Settings σ) (start : Parser × σ)

inductive LoopState : Bytes → Nat → Nat → Parser → σ → Prop
  | enter {chunks : List Bytes} {buf : Bytes} {p : Parser} {s : σ}
      (before : executeChunks settings chunks start = .ok (p, s)) : LoopState buf 0 0 p s
  | turn {buf : Bytes} {i mark mark' : Nat} {c : UInt8} {p p' : Parser} {s s' : σ}
      (here : LoopState buf i mark p s) (at_i : buf[i]? = some c)
      (next : pass settings buf i c (i + 1 == buf.length) mark p s = .next mark' p' s') :
      LoopState buf (i + 1) mark' p' s'

end Loop

section Invariant
variable {settings : Settings σ} {boundary : CString}

/-- No callback claims an access outside the parser's block, so such a stop is the parser's own. -/
def Settings.StaysInside (settings : Settings σ) : Prop :=
  ∀ k s, (settings.call k s).All (fun _ => True) (fun _ => True) (fun why _ => why ≠ .outOfBlock)

theorem calls_inside (inside : settings.StaysInside) (calls : List Call) (s : σ) :
    (settings.calls calls s).All (fun _ => True) (fun _ => True) (fun why _ => why ≠ .outOfBlock) :=
  Outcome.All.sequence (fun k s _ => inside k s) calls trivial

theorem step_intact (inside : settings.StaysInside) (nonempty : boundary ≠ .empty) (c : UInt8)
    {k : Config σ} (intact : Intact boundary k.parser) :
    (step settings c k).All (fun k => Intact boundary k.parser) (fun _ => True)
      (fun why _ => why ≠ .outOfBlock) := by
  have fed := feed_intact nonempty intact k.pending c
  unfold step perform
  cases result : k.parser.feed k.pending c with
  | refused => trivial
  | outOfBlock calls => rw [result] at fed; exact fed.elim
  | next calls p pending =>
      rw [result] at fed
      exact (calls_inside inside calls k.data).map fun _ _ => fed

theorem flush_intact (inside : settings.StaysInside) {k : Config σ} (intact : Intact boundary k.parser) :
    (flush settings k).All (fun r => Intact boundary r.1) (fun _ => True)
      (fun why _ => why ≠ .outOfBlock) :=
  (calls_inside inside _ _).map fun _ _ => intact

theorem closing_intact (inside : settings.StaysInside) (isLast : Bool) {k : Config σ}
    (intact : Intact boundary k.parser) :
    (closing settings isLast k).All (fun k => Intact boundary k.parser) (fun _ => True)
      (fun why _ => why ≠ .outOfBlock) := by
  cases isLast with
  | false => exact intact
  | true => exact (flush_intact inside intact).map fun _ intact => intact

theorem executeChunks_intact (inside : settings.StaysInside) (nonempty : boundary ≠ .empty)
    (chunks : List Bytes) (s₀ : σ) :
    (executeChunks settings chunks (multipartParserInit boundary, s₀)).All
      (fun r => Intact boundary r.1) (fun _ => True) (fun why _ => why ≠ .outOfBlock) :=
  executeChunks_all settings (I := fun k => Intact boundary k.parser)
    (fun c _ => step_intact inside nonempty c) (fun _ => flush_intact inside) chunks
    (multipartParserInit boundary, s₀) (init_intact boundary)

theorem loopState_intact (inside : settings.StaysInside) (nonempty : boundary ≠ .empty) {s₀ : σ}
    {buf : Bytes} {i mark : Nat} {p : Parser} {s : σ}
    (reached : LoopState settings (multipartParserInit boundary, s₀) buf i mark p s) :
    Intact boundary p ∧ (i < buf.length → ∃ pending, Held buf mark i p pending) := by
  induction reached with
  | @enter chunks buf p s before =>
      have intact := (executeChunks_intact inside nonempty chunks s₀).of_ok before
      exact ⟨intact, fun _ => ⟨[], held_nil _⟩⟩
  | @turn buf i mark mark' c p p' s s' here at_i next ih =>
      obtain ⟨intact, held⟩ := ih
      obtain ⟨bound, -⟩ := List.getElem?_eq_some_iff.1 at_i
      obtain ⟨pending, held⟩ := held bound
      have follows := pass_follows settings (i + 1 == buf.length) s at_i held
      rw [next] at follows
      obtain ⟨pending', result, held'⟩ := follows
      have intact' := ((step_intact inside nonempty c (k := ⟨p, pending, s⟩) intact).bind
        fun _ => closing_intact inside (i + 1 == buf.length)).of_ok result
      refine ⟨intact', fun more => ⟨pending', held' ?_⟩⟩
      simpa using (by omega : i + 1 ≠ buf.length)

theorem pass_inside (inside : settings.StaysInside) (nonempty : boundary ≠ .empty) {buf : Bytes}
    {i mark : Nat} {c : UInt8} {isLast : Bool} {p : Parser} {pending : Bytes} {s left : σ}
    (intact : Intact boundary p) (at_i : buf[i]? = some c) (held : Held buf mark i p pending) :
    pass settings buf i c isLast mark p s ≠ .stop .outOfBlock left := by
  intro stopped
  have follows := pass_follows settings isLast s at_i held
  rw [stopped] at follows
  have all := (step_intact inside nonempty c (k := ⟨p, pending, s⟩) intact).bind
    fun _ => closing_intact inside isLast
  rw [show _ = _ from follows] at all
  exact all rfl

end Invariant

def Parser.boundaryRead (p : Parser) : Option Nat :=
  match p.state with
  | .start => if p.boundaryLength = 0 then none else some 0
  | .startBoundary =>
      if p.index = p.boundaryLength ∨ p.index = p.boundaryLength + 1 then none else some p.index
  | .partDataBoundary => some p.index
  | _ => none

structure InRange (p : Parser) (c : UInt8) : Prop where
  read : ∀ k, p.boundaryRead = some k → k < p.boundaryLength
  write : p.state = .partDataBoundary → p.boundaryAt p.index = some c →
    2 + p.index < p.boundaryLength + 2 ∧ 2 + p.index < p.lookbehind.length
  index_le : p.index ≤ p.boundaryLength + 1

theorem Intact.inRange {boundary : CString} {p : Parser} (intact : Intact boundary p) (c : UInt8) :
    InRange p c := by
  have length_eq : p.boundaryLength = boundary.length := by
    rw [Parser.boundaryLength, intact.boundary_eq]
  refine { read := ?_, write := ?_, index_le := length_eq ▸ intact.index_le }
  · intro k read
    unfold Parser.boundaryRead at read
    have := intact.index_le
    rw [length_eq] at read ⊢
    split at read
    · split_ifs at read with zero
      cases read
      omega
    · split_ifs at read with skipped
      cases read
      omega
    · next state =>
      cases read
      exact (intact.inside state).1
    · cases read
  · intro state _
    have := (intact.inside state).1
    rw [length_eq, intact.block]
    omega

theorem settings_inside (host : Host) : (settings host).StaysInside := by
  intro k s
  cases k with
  | headerField run =>
      apply (headerFieldCb_spec run s).mono
      · exact fun _ _ => trivial
      · exact fun _ _ => trivial
      · rintro _ _ rfl
        simp
  | headerValue run =>
      apply (headerValueCb_spec run s).mono
      · exact fun _ _ => trivial
      · exact fun _ _ => trivial
      · exact fun _ _ h => h.elim
  | partData run =>
      simp only [Settings.call, settings, partDataCb]
      split_ifs
      · simp [Outcome.All]
      · split
        · split_ifs <;> trivial
        · trivial
        · trivial
  | partDataBegin =>
      simp only [Settings.call, settings, partDataBeginCb, headersMapNew]
      split_ifs
      · simp [Outcome.All]
      · trivial
  | headersComplete =>
      apply (headersCompleteCb_spec host s).mono
      · exact fun _ _ => trivial
      · exact fun _ _ => trivial
      · rintro _ _ (rfl | rfl) <;> simp
  | partDataEnd =>
      simp only [Settings.call, settings, partDataEndCb]
      split
      · simp [Outcome.All]
      split
      · split
        · simp [Outcome.All]
        · trivial
      · split
        · simp [Outcome.All]
        · trivial
      · trivial
  | bodyEnd => trivial

def StaysInRange (boundary : CString) : Prop :=
  ∀ (host : Host) (buf : Bytes) (i mark : Nat) (p : Parser) (s : Session) (c : UInt8),
    LoopState (settings host) (multipartParserInit boundary, .init) buf i mark p s →
      buf[i]? = some c → InRange p c ∧
        ∀ isLast left, pass (settings host) buf i c isLast mark p s ≠ .stop .outOfBlock left

theorem staysInRange_of_nonempty {boundary : CString} (nonempty : boundary ≠ .empty) :
    StaysInRange boundary := by
  intro host buf i mark p s c reached at_i
  obtain ⟨intact, held⟩ := loopState_intact (settings_inside host) nonempty reached
  obtain ⟨bound, -⟩ := List.getElem?_eq_some_iff.1 at_i
  obtain ⟨pending, held⟩ := held bound
  exact ⟨intact.inRange c, fun isLast left =>
    pass_inside (settings_inside host) nonempty intact at_i held⟩

def emptyBoundaryBody : Bytes :=
  ascii "\r\nContent-Disposition: form-data; name=a\r\n\r\n\r\n"

theorem emptyBoundary_reads : ∃ p s,
    LoopState (settings plainHost) (multipartParserInit .empty, .init) [45] 0 0 p s ∧
      p.boundaryRead = some p.index ∧ p.boundaryLength = 0 := by
  have evaluated : (executeChunks (settings plainHost) [emptyBoundaryBody]
      (multipartParserInit .empty, .init)).result?.map (fun r => (r.1.state, r.1.boundaryLength)) =
        some (.partDataBoundary, 0) := by
    decide +kernel
  obtain ⟨⟨p, s⟩, result, e⟩ := Option.map_eq_some_iff.1 evaluated
  have state : p.state = .partDataBoundary := congrArg Prod.fst e
  have empty : p.boundaryLength = 0 := congrArg Prod.snd e
  exact ⟨p, s, .enter (Outcome.result?_eq_some.1 result), by simp [Parser.boundaryRead, state], empty⟩

theorem staysInRange_iff (boundary : CString) : StaysInRange boundary ↔ boundary ≠ .empty := by
  refine ⟨?_, staysInRange_of_nonempty⟩
  rintro inRange rfl
  obtain ⟨p, s, reached, read, empty⟩ := emptyBoundary_reads
  have := (inRange plainHost [45] 0 0 p s 45 reached rfl).1.read p.index read
  omega

theorem emptyBoundary_not_staysInRange : ¬ StaysInRange .empty := by
  intro inRange
  obtain ⟨p, s, reached, read, empty⟩ := emptyBoundary_reads
  have := (inRange plainHost [45] 0 0 p s 45 reached rfl).1.read p.index read
  omega

-- The look-behind buffer is read as the boundary and written from there on, to its end.
example : (executeChunks (settings plainHost) [emptyBoundaryBody ++ (List.replicate 5 [0, 13, 10]).flatten]
    (multipartParserInit .empty, .init)).stopped? = some .outOfBlock := by
  decide +kernel

end HvmlFpm.Multipart
