import HvmlFpm.Multipart.Pieces
import HvmlFpm.Multipart.Reading

/-!
# Chunk independence

A run over any chunks of a body is compared with the run over the body as one chunk, as long as that
run comes to no byte at which the chunks show.
-/

namespace HvmlFpm.Multipart
open Library
variable {host : Host}

/-- A header line ends without a colon: a chunk's end within it has reported its beginning as the name
of a header, and the name is left over. -/
def danglingName (k : Config Session) (c : UInt8) : Bool :=
  match k.parser.state with
  | .headerField => c == CR
  | _ => false

/-- The byte is kept if a chunk begins with it and lost otherwise, or a name that is left over is put
before the name that ends here. -/
def chunksShow (leaked : Bool) (k : Config Session) (c : UInt8) : Bool :=
  match k.parser.state with
  | .headerFieldStart | .headerField => leaked && c == 58
  | .headerValue => k.pending.contains 0 && c != 0 && c != CR
  | .partData => k.data.fp.isNone && k.pending.contains 0 && c != 0 && c != CR
  | _ => false

def chunkProof (settings : Settings Session) : Bool → Bytes → Config Session → Bool
  | _, [], _ => true
  | leaked, c :: rest, k =>
      !chunksShow leaked k c &&
        match step settings c k with
        | .ok k' => chunkProof settings (leaked || danglingName k c) rest k'
        | _ => true

/-! ## The simulation -/

/-- `t` differs from `s` at most by a name that is left over. -/
def Leaks (leaked : Bool) (s t : Session) : Prop :=
  t = s ∨ leaked = true ∧ ∃ w, 0 ∉ w ∧ headerFieldCb w s = .ok t

theorem Leaks.refl (leaked : Bool) (s : Session) : Leaks leaked s s := .inl rfl

theorem headerFieldCb_seen {w : Bytes} {s t : Session} (called : headerFieldCb w s = .ok t) : Seen s t :=
  ((headerFieldCb_spec w s).of_ok called).seen

theorem Leaks.seen {leaked : Bool} {s t : Session} (leaks : Leaks leaked s t) : Seen s t := by
  rcases leaks with rfl | ⟨-, w, -, called⟩
  · exact .refl _
  · exact headerFieldCb_seen called

/-- The run `k` over one chunk, and the run `k'` over chunks: `x` is what a chunk's end has reported. -/
structure Sim (host : Host) (leaked : Bool) (k k' : Config Session) : Prop where
  parser : k'.parser = k.parser
  data :
    match k.parser.state with
    | .headerField => Even k.data ∧ 0 ∉ k.pending ∧ ∃ x w, k.pending = x ++ k'.pending ∧ 0 ∉ w ∧
        (leaked = false → w = x) ∧ (w = [] ∧ k'.data = k.data ∨ headerFieldCb w k.data = .ok k'.data)
    | .headerValueStart => Half k.data ∧ k'.data = k.data
    | .headerValue => Half k.data ∧ CString.NulsLast k.pending ∧ ∃ x, k.pending = x ++ k'.pending ∧
        (x = [] ∧ k'.data = k.data ∨ headerValueCb x k.data = .ok k'.data)
    | .headerFieldStart | .headersAlmostDone | .headerValueAlmostDone | .partDataStart =>
        Even k.data ∧ Leaks leaked k.data k'.data
    | .partData => Blank k.data ∧ (k.data.fp = none → CString.NulsLast k.pending) ∧
        ∃ x t, k.pending = x ++ k'.pending ∧
          (x = [] ∧ t = k.data ∨ x ≠ [] ∧ partDataCb host x k.data = .ok t) ∧ Leaks leaked t k'.data
    | _ => Blank k.data ∧ Leaks leaked k.data k'.data

section Calls
variable {leaked : Bool} {s t : Session}

theorem call_leaks {f : Session → Step}
    (apart : ∀ w s t, Apart w s t → Outcome.Rel Seen (Apart w) (f s) (f t)) (blank : Blank s)
    (leaks : Leaks leaked s t) :
    Outcome.Rel Seen (fun a b => Blank a ∧ Leaks leaked a b) (f s) (f t) := by
  rcases leaks with rfl | ⟨rfl, w, nulFree, called⟩
  · have stays := (apart [] t _ ⟨blank, rfl⟩).all_left fun _ _ h => h.blank
    exact (stays.rel_self Seen.refl).mono (fun _ _ h => h) fun a b ⟨same, h⟩ => ⟨h, .inl same⟩
  · have related := apart w s t ((apart_iff blank).2 called)
    apply related.mono (fun _ _ h => h)
    intro a b h
    exact ⟨h.blank, .inr ⟨rfl, w, nulFree, (apart_iff h.blank).1 h⟩⟩

theorem headersComplete_leaks (host : Host) (headers : s.headers.isSome) (even : Even s) (leaks : Leaks leaked s t) :
    Outcome.Rel Seen (fun a b => Blank a ∧ Leaks leaked a b)
      (headersCompleteCb host s) (headersCompleteCb host t) := by
  obtain ⟨filed, filing⟩ := fileHeader_ok headers
  have blank := fileHeader_even even filing
  have same : headersCompleteCb host s = headersCompleteCb host filed := by
    rw [headersCompleteCb, headersCompleteCb, filing, fileHeader_incomplete blank.2]
  have seen : Seen s filed := ((fileHeader_spec s).of_ok filing).seen
  have related := fun t (leaks : Leaks leaked filed t) =>
    call_leaks (f := headersCompleteCb host) (fun _ _ _ => headersComplete_apart host) blank leaks
  rcases leaks with rfl | ⟨rfl, w, nulFree, called⟩
  · rw [same]
    exact related filed (.refl leaked filed)
  · rw [same]
    obtain ⟨filed', filing', -, rfl, -⟩ := headerFieldCb_even even called
    obtain rfl := Outcome.ok.inj (filing.symm.trans filing')
    apply related
    refine .inr ⟨rfl, w, nulFree, ?_⟩
    rw [headerFieldCb_eq, fileHeader_incomplete blank.2, Outcome.ok_map]

end Calls

section Configs
variable {leaked : Bool} {s t : Session} {p : Parser}

theorem sim_of_blank (field : p.state ≠ .headerField) (start : p.state ≠ .headerValueStart)
    (value : p.state ≠ .headerValue) (blank : Blank s) (leaks : Leaks leaked s t) :
    Sim host leaked ⟨p, [], s⟩ ⟨p, [], t⟩ where
  parser := rfl
  data := by
    have even := blank.even
    cases state : p.state <;> simp_all

theorem sim_of_even
    (boundary : p.state = .headerFieldStart ∨ p.state = .headersAlmostDone ∨
      p.state = .headerValueAlmostDone ∨ p.state = .partDataStart)
    (even : Even s) (leaks : Leaks leaked s t) : Sim host leaked ⟨p, [], s⟩ ⟨p, [], t⟩ where
  parser := rfl
  data := by
    rcases boundary with state | state | state | state <;> simp [state, even, leaks]

theorem call_sim {call : Call}
    (apart : ∀ w s t, Apart w s t →
      Outcome.Rel Seen (Apart w) ((settings host).call call s) ((settings host).call call t))
    (field : p.state ≠ .headerField) (start : p.state ≠ .headerValueStart) (value : p.state ≠ .headerValue)
    (blank : Blank s) (leaks : Leaks leaked s t) :
    Outcome.Rel Seen (Sim host leaked) (perform (settings host) (.next [call] p []) s)
      (perform (settings host) (.next [call] p []) t) := by
  simp only [perform, Settings.calls, Outcome.sequence_singleton]
  exact (call_leaks apart blank leaks).map fun a b related =>
    sim_of_blank field start value related.1 related.2

end Configs

section Bytes
variable (total : ∀ fd old buf, host.fwrite fd old buf = buf.length)
variable {leaked : Bool} {p : Parser} {c : UInt8} {s t : Session}
include total

theorem feedPartData_sim {x y : Bytes} {filled : Session} (state : p.state = .partData)
    (named : s.name.isSome) (blank : Blank s) (nuls : s.fp = none → CString.NulsLast (x ++ y))
    (reported : x = [] ∧ filled = s ∨ x ≠ [] ∧ partDataCb host x s = .ok filled) (leaks : Leaks leaked filled t)
    (quiet : c ≠ CR → s.fp = none → 0 ∈ x ++ y → c = 0) :
    Outcome.Rel Seen (Sim host leaked) (perform (settings host) (Parser.feedPartData [] p (x ++ y) c) s)
      (perform (settings host) (Parser.feedPartData [] p y c) t) := by
  obtain ⟨name, named⟩ := Option.isSome_iff_exists.1 named
  have whole : partDataCb host (x ++ y) s = partDataCb host y filled ∧ Blank filled := by
    rcases reported with ⟨rfl, rfl⟩ | ⟨-, called⟩
    · exact ⟨rfl, blank⟩
    · refine ⟨(partDataCb_append total named called nuls).symm, ?_⟩
      have stays := (partData_apart host x (w := []) ⟨blank, rfl⟩).all_left fun _ _ h => h.blank
      exact stays.of_ok called
  have call := call_leaks (f := partDataCb host y) (fun _ _ _ => partData_apart host y) whole.2 leaks
  rw [← whole.1] at call
  unfold Parser.feedPartData
  by_cases cr : c = CR
  · rw [if_pos cr, if_pos cr]
    cases access : ({ p with state := .partDataAlmostBoundary } : Parser).setLookbehind 0 CR with
    | none =>
        simp only [perform, Settings.calls, List.nil_append, Outcome.sequence_singleton]
        exact call.bind fun a b related => .stop related.2.seen
    | some q =>
        obtain ⟨-, rfl⟩ := setLookbehind_eq_some access
        simp only [perform, Settings.calls, List.nil_append, Outcome.sequence_singleton]
        exact call.map fun a b related =>
          sim_of_blank (by simp) (by simp) (by simp) related.1 related.2
  · rw [if_neg cr, if_neg cr]
    refine .ok ⟨rfl, ?_⟩
    simp only [state]
    refine ⟨blank, fun text => ?_, x, filled, List.append_assoc .., reported, leaks⟩
    exact CString.nulsLast_snoc (nuls text) (quiet cr text)

theorem replay_sim (held : Bytes) (agrees : Agrees .data s) (blank : Blank s) (leaks : Leaks leaked s t) :
    Outcome.Rel Seen (Sim host leaked)
      (perform (settings host) (Parser.feedPartData [.partData held] { p with state := .partData } [] c) s)
      (perform (settings host) (Parser.feedPartData [.partData held] { p with state := .partData } [] c) t) := by
  rw [perform_feedPartData_cons, perform_feedPartData_cons]
  have call := call_leaks (f := partDataCb host held) (fun _ _ _ => partData_apart host held) blank leaks
  apply (call.and_all (partData_agrees host rfl held agrees)).bind
  rintro a b ⟨⟨blank', leaks'⟩, agrees'⟩
  have named := agrees'.name_iff.2 rfl
  exact feedPartData_sim total (x := []) (y := []) rfl named blank' (fun _ => by simp) (.inl ⟨rfl, rfl⟩)
    leaks' (fun _ _ none => by simp at none)

theorem partDataStart_sim (agrees : Agrees .header s) (even : Even s) (leaks : Leaks leaked s t) :
    Outcome.Rel Seen (Sim host leaked)
      (perform (settings host) (Parser.feedPartData [.headersComplete] { p with state := .partData } [] c) s)
      (perform (settings host) (Parser.feedPartData [.headersComplete] { p with state := .partData } [] c) t) := by
  rw [perform_feedPartData_cons, perform_feedPartData_cons]
  have call := headersComplete_leaks host (agrees.headers_iff.2 rfl) even leaks
  apply (call.and_all (headersComplete_agrees host)).bind
  rintro a b ⟨⟨blank', leaks'⟩, agrees'⟩
  have named := agrees'.name_iff.2 rfl
  exact feedPartData_sim total (x := []) (y := []) rfl named blank' (fun _ => by simp) (.inl ⟨rfl, rfl⟩)
    leaks' (fun _ _ none => by simp at none)

omit total

theorem feedHeaderField_sim {x y w : Bytes} (state : p.state = .headerField) (even : Even s)
    (nulFree : 0 ∉ x ++ y) (left_over : 0 ∉ w) (same : leaked = false → w = x)
    (reported : w = [] ∧ t = s ∨ headerFieldCb w s = .ok t) (other : c ≠ CR)
    (quiet : leaked = true → c ≠ 58) :
    Outcome.Rel Seen (Sim host leaked) (perform (settings host) (p.feedHeaderField (x ++ y) c) s)
      (perform (settings host) (p.feedHeaderField y c) t) := by
  unfold Parser.feedHeaderField
  rw [if_neg other, if_neg other]
  by_cases colon : c = 58
  · rw [if_pos colon, if_pos colon]
    have intact : leaked = false := by
      by_contra other
      exact quiet (by simpa using other) colon
    obtain rfl := same intact
    have whole : headerFieldCb (w ++ y) s = headerFieldCb y t := by
      rcases reported with ⟨rfl, rfl⟩ | called
      · rfl
      · exact (headerFieldCb_append even called (CString.nulsLast_of_nulFree nulFree)).symm
    simp only [perform, Settings.calls, Outcome.sequence_singleton, Settings.call, settings, ← whole]
    cases called : headerFieldCb (w ++ y) s with
    | ok a =>
        obtain ⟨-, -, -, -, half⟩ := headerFieldCb_even even called
        exact .ok ⟨rfl, half, rfl⟩
    | fail a => exact .fail (.refl a)
    | stop why a => exact .stop (.refl a)
  rw [if_neg colon, if_neg colon]
  by_cases bad : (!isHeaderNameByte c) = true
  · rw [if_pos bad, if_pos bad]
    refine .fail ?_
    rcases reported with ⟨-, rfl⟩ | called
    · exact .refl t
    · exact headerFieldCb_seen called
  rw [if_neg bad, if_neg bad]
  have letter : c ≠ 0 := by
    rintro rfl
    exact bad (by decide)
  refine .ok ⟨rfl, ?_⟩
  simp only [state]
  have nulFree' : 0 ∉ x ++ y ++ [c] := by
    rw [List.mem_append, not_or]
    exact ⟨nulFree, by simpa using letter.symm⟩
  exact ⟨even, nulFree', x, w, List.append_assoc .., left_over, same, reported⟩

theorem headerFieldStart_sim (even : Even s) (leaks : Leaks leaked s t) (quiet : (leaked && c == 58) = false) :
    Outcome.Rel Seen (Sim host leaked)
      (perform (settings host) (Parser.feedHeaderField { p with state := .headerField } [] c) s)
      (perform (settings host) (Parser.feedHeaderField { p with state := .headerField } [] c) t) := by
  by_cases cr : c = CR
  · simp only [Parser.feedHeaderField, cr, if_true]
    exact .ok (sim_of_even (by simp) even leaks)
  have noColon : leaked = true → c ≠ 58 := by
    rintro left rfl
    simp [left] at quiet
  rcases leaks with rfl | ⟨rfl, w, left_over, called⟩
  · exact feedHeaderField_sim (x := []) (y := []) (w := []) rfl even (by simp) (by simp) (fun _ => rfl)
      (.inl ⟨rfl, rfl⟩) cr noColon
  · exact feedHeaderField_sim (x := []) (y := []) rfl even (by simp) left_over nofun (.inr called) cr noColon

theorem headerField_sim {x y w : Bytes} (state : p.state = .headerField) (even : Even s) (nulFree : 0 ∉ x ++ y)
    (left_over : 0 ∉ w) (same : leaked = false → w = x) (reported : w = [] ∧ t = s ∨ headerFieldCb w s = .ok t)
    (quiet : (leaked && c == 58) = false) :
    Outcome.Rel Seen (Sim host (leaked || c == CR)) (perform (settings host) (p.feedHeaderField (x ++ y) c) s)
      (perform (settings host) (p.feedHeaderField y c) t) := by
  by_cases cr : c = CR
  · have leaks : Leaks (leaked || c == CR) s t := by
      rcases reported with ⟨-, rfl⟩ | called
      · exact .refl _ t
      · exact .inr ⟨by simp [cr], w, left_over, called⟩
    simp only [Parser.feedHeaderField, cr, if_true] at leaks ⊢
    exact .ok (sim_of_even (by simp) even leaks)
  have still : (leaked || c == CR) = leaked := by simp [cr]
  rw [still]
  apply feedHeaderField_sim state even nulFree left_over same reported cr
  rintro left rfl
  simp [left] at quiet

theorem feedHeaderValue_sim {x y : Bytes} (state : p.state = .headerValue) (half : Half s)
    (nuls : CString.NulsLast (x ++ y)) (reported : x = [] ∧ t = s ∨ headerValueCb x s = .ok t)
    (quiet : c ≠ CR → 0 ∈ x ++ y → c = 0) :
    Outcome.Rel Seen (Sim host leaked) (perform (settings host) (p.feedHeaderValue (x ++ y) c) s)
      (perform (settings host) (p.feedHeaderValue y c) t) := by
  have whole : headerValueCb (x ++ y) s = headerValueCb y t := by
    rcases reported with ⟨rfl, rfl⟩ | called
    · rfl
    · exact (headerValueCb_append called nuls).symm
  unfold Parser.feedHeaderValue
  by_cases cr : c = CR
  · rw [if_pos cr, if_pos cr]
    obtain ⟨a, called, even, -⟩ := headerValueCb_half half (x ++ y)
    simp only [perform, Settings.calls, Outcome.sequence_singleton, Settings.call, settings, ← whole, called]
    exact .ok (sim_of_even (by simp) even (.refl leaked a))
  · rw [if_neg cr, if_neg cr]
    refine .ok ⟨rfl, ?_⟩
    simp only [state]
    exact ⟨half, CString.nulsLast_snoc nuls (quiet cr), x, List.append_assoc .., reported⟩

end Bytes

def Staged (k : Config Session) : Prop := ∃ stage : Stage, stage.Fits k.parser.state ∧ Agrees stage k.data

theorem Staged.agrees {k : Config Session} (staged : Staged k) (other : k.parser.state ≠ .partData) :
    Agrees (stageOf k.parser.state) k.data := by
  obtain ⟨stage, rfl | ⟨-, state⟩, agrees⟩ := staged
  · exact agrees
  · exact absurd state other

theorem Staged.named {k : Config Session} (staged : Staged k) (state : k.parser.state = .partData) :
    k.data.name.isSome := by
  obtain ⟨stage, fits, agrees⟩ := staged
  apply agrees.name_iff.2
  rcases fits with rfl | ⟨rfl, -⟩
  · rw [state]
    rfl
  · rfl

theorem startBoundary_sim {leaked : Bool} {p : Parser} {s t : Session} (c : UInt8)
    (state : p.state = .startBoundary) (blank : Blank s) (leaks : Leaks leaked s t) :
    Outcome.Rel Seen (Sim host leaked) (perform (settings host) (p.feedStartBoundary c) s)
      (perform (settings host) (p.feedStartBoundary c) t) := by
  have stay : Outcome.Rel Seen (Sim host leaked)
      (perform (settings host) (.next [] { p with index := p.index + 1 } []) s)
      (perform (settings host) (.next [] { p with index := p.index + 1 } []) t) :=
    .ok (sim_of_blank (by simp [state]) (by simp [state]) (by simp [state]) blank leaks)
  unfold Parser.feedStartBoundary
  split_ifs
  · exact .fail leaks.seen
  · exact stay
  · exact .fail leaks.seen
  · exact call_sim (fun _ _ _ => partDataBegin_apart) (by simp) (by simp) (by simp) blank leaks
  · split
    · exact .stop leaks.seen
    · split_ifs
      · exact .fail leaks.seen
      · exact stay

theorem partDataBoundary_sim (total : ∀ fd old buf, host.fwrite fd old buf = buf.length) {leaked : Bool}
    {p : Parser} {s t : Session} {z y : Bytes} (c : UInt8) (state : p.state = .partDataBoundary)
    (agrees : Agrees .data s) (blank : Blank s) (leaks : Leaks leaked s t) :
    Outcome.Rel Seen (Sim host leaked) (step (settings host) c ⟨p, z, s⟩)
      (step (settings host) c ⟨p, y, t⟩) := by
  simp only [step, Parser.feed, state]
  cases p.boundaryAt p.index with
  | none => exact .stop leaks.seen
  | some b =>
      simp only
      by_cases differs : b ≠ c
      · rw [if_pos differs]
        exact replay_sim total _ agrees blank leaks
      rw [if_neg differs]
      cases access : p.setLookbehind (2 + p.index) c with
      | none => exact .stop leaks.seen
      | some q =>
          obtain ⟨-, rfl⟩ := setLookbehind_eq_some access
          simp only
          split_ifs
          · exact call_sim (fun _ _ _ => partDataEnd_apart host) (by simp) (by simp) (by simp) blank leaks
          · exact .ok (sim_of_blank (by simp [state]) (by simp [state]) (by simp [state]) blank leaks)

theorem partDataAlmostBoundary_sim (total : ∀ fd old buf, host.fwrite fd old buf = buf.length) {leaked : Bool}
    {p : Parser} {s t : Session} {z y : Bytes} (c : UInt8) (state : p.state = .partDataAlmostBoundary)
    (agrees : Agrees .data s) (blank : Blank s) (leaks : Leaks leaked s t) :
    Outcome.Rel Seen (Sim host leaked) (step (settings host) c ⟨p, z, s⟩)
      (step (settings host) c ⟨p, y, t⟩) := by
  simp only [step, Parser.feed, state]
  split_ifs
  · cases access : ({ p with state := .partDataBoundary } : Parser).setLookbehind 1 LF with
    | none => exact .stop leaks.seen
    | some q =>
        obtain ⟨-, rfl⟩ := setLookbehind_eq_some access
        exact .ok (sim_of_blank (by simp) (by simp) (by simp) blank leaks)
  · exact replay_sim total _ agrees blank leaks

theorem step_sim (total : ∀ fd old buf, host.fwrite fd old buf = buf.length) {leaked : Bool}
    {k k' : Config Session} (staged : Staged k) (sim : Sim host leaked k k') (c : UInt8)
    (quiet : chunksShow leaked k c = false) :
    Outcome.Rel Seen (Sim host (leaked || danglingName k c)) (step (settings host) c k)
      (step (settings host) c k') := by
  obtain ⟨p, z, s⟩ := k
  obtain ⟨p', y, t⟩ := k'
  obtain ⟨same, data⟩ := sim
  obtain rfl : p' = p := same
  have agrees := staged.agrees
  have named := staged.named
  simp only at data agrees named
  cases state : p'.state
  case partDataBoundary =>
    simp only [state] at data agrees
    simp only [danglingName, state, Bool.or_false]
    exact partDataBoundary_sim total c state (agrees (by simp)) data.1 data.2
  case partDataAlmostBoundary =>
    simp only [state] at data agrees
    simp only [danglingName, state, Bool.or_false]
    exact partDataAlmostBoundary_sim total c state (agrees (by simp)) data.1 data.2
  all_goals
    simp only [state] at data agrees named
    simp only [danglingName, chunksShow, state] at quiet ⊢
    simp only [step, Parser.feed, state, Bool.or_false]
  case start => exact startBoundary_sim c rfl data.1 data.2
  case startBoundary => exact startBoundary_sim c state data.1 data.2
  case headerFieldStart => exact headerFieldStart_sim data.1 data.2 quiet
  case headerField =>
    obtain ⟨even, nulFree, x, w, rfl, left_over, same, reported⟩ := data
    exact headerField_sim state even nulFree left_over same reported quiet
  case headersAlmostDone =>
    split_ifs
    · exact .fail data.2.seen
    · exact .ok (sim_of_even (by simp) data.1 data.2)
  case headerValueStart =>
    obtain ⟨half, rfl⟩ := data
    split_ifs
    · exact .ok ⟨rfl, by simp only [state]; exact ⟨half, trivial⟩⟩
    · exact feedHeaderValue_sim (x := []) (y := []) rfl half (by simp) (.inl ⟨rfl, rfl⟩) (by simp)
  case headerValue =>
    obtain ⟨half, nuls, x, rfl, reported⟩ := data
    apply feedHeaderValue_sim state half nuls reported
    intro other nul
    by_contra nonzero
    simp_all
  case headerValueAlmostDone =>
    split_ifs
    · exact .fail data.2.seen
    · exact .ok (sim_of_even (by simp) data.1 data.2)
  case partDataStart => exact partDataStart_sim total (agrees (by simp)) data.1 data.2
  case partData =>
    obtain ⟨blank, nuls, x, filled, rfl, reported, leaks⟩ := data
    apply feedPartData_sim total state (named trivial) blank nuls reported leaks
    intro other text nul
    by_contra nonzero
    simp_all
  case partDataAlmostEnd =>
    split_ifs
    · exact .ok (sim_of_blank (by simp) (by simp) (by simp) data.1 data.2)
    · exact .ok (sim_of_blank (by simp) (by simp) (by simp) data.1 data.2)
    · exact .fail data.2.seen
  case partDataFinalHyphen =>
    split_ifs
    · exact call_sim (fun _ _ _ apart => .ok apart) (by simp) (by simp) (by simp) data.1 data.2
    · exact .fail data.2.seen
  case partDataEnd =>
    split_ifs
    · exact call_sim (fun _ _ _ => partDataBegin_apart) (by simp) (by simp) (by simp) data.1 data.2
    · exact .fail data.2.seen
  case ended => exact .ok (sim_of_blank (by simp [state]) (by simp [state]) (by simp [state]) data.1 data.2)
  case uninitialized => exact .fail data.2.seen

/-! ## The end of a chunk -/

theorem pendingCalls_eq (p : Parser) {y : Bytes} (some : y ≠ []) :
    p.pendingCalls y =
      match p.state with
      | .headerField => [.headerField y]
      | .headerValue => [.headerValue y]
      | .partData => [.partData y]
      | _ => [] := by
  cases state : p.state <;> simp [Parser.pendingCalls, state, some]

theorem flush_sim (total : ∀ fd old buf, host.fwrite fd old buf = buf.length) {leaked : Bool}
    {k k' : Config Session} (staged : Staged k) (sim : Sim host leaked k k') :
    ∃ t, flush (settings host) k' = .ok (k'.parser, t) ∧ Sim host leaked k ⟨k'.parser, [], t⟩ := by
  obtain ⟨p, z, s⟩ := k
  obtain ⟨p', y, t⟩ := k'
  obtain ⟨same, data⟩ := sim
  obtain rfl : p' = p := same
  have agrees := staged.agrees
  have named := staged.named
  simp only at data agrees named
  by_cases none : y = []
  · subst none
    exact ⟨t, by simp [flush, Parser.pendingCalls, Settings.calls], rfl, data⟩
  simp only [flush, pendingCalls_eq p' none]
  cases state : p'.state
  case headerField =>
    simp only [state] at data agrees
    obtain ⟨even, nulFree, x, w, rfl, left_over, same, reported⟩ := data
    have nuls : 0 ∉ y := fun member => nulFree (List.mem_append_right x member)
    have called : ∃ t', headerFieldCb y t = .ok t' ∧ headerFieldCb (w ++ y) s = .ok t' := by
      -- Either nothing of the name has been reported yet, or a first run that ends within it.
      rcases reported with ⟨rfl, rfl⟩ | called
      · obtain ⟨filed, filing⟩ := fileHeader_ok ((agrees (by simp)).headers_iff.2 rfl)
        have called : headerFieldCb y t = .ok (filed.named y) := by
          rw [headerFieldCb_eq, filing, Outcome.ok_map]
        exact ⟨_, called, called⟩
      · have whole := headerFieldCb_append even called
          (CString.nulsLast_of_nulFree (x := w ++ y) (by simp [left_over, nuls]))
        obtain ⟨-, -, -, -, half⟩ := headerFieldCb_even even called
        rw [← whole, headerFieldCb_eq, fileHeader_incomplete half.2, Outcome.ok_map]
        exact ⟨_, rfl, rfl⟩
    obtain ⟨t', later, whole⟩ := called
    refine ⟨t', by simp [Settings.calls, Settings.call, settings, later], rfl, ?_⟩
    simp only [state]
    refine ⟨even, nulFree, x ++ y, w ++ y, (List.append_nil _).symm, by simp [left_over, nuls], ?_,
      .inr whole⟩
    intro intact
    rw [same intact]
  case headerValue =>
    simp only [state] at data
    obtain ⟨half, nuls, x, rfl, reported⟩ := data
    obtain ⟨t', whole, -⟩ := headerValueCb_half half (x ++ y)
    have later : headerValueCb y t = .ok t' := by
      rcases reported with ⟨rfl, rfl⟩ | called
      · exact whole
      · rw [headerValueCb_append called nuls, whole]
    refine ⟨t', by simp [Settings.calls, Settings.call, settings, later], rfl, ?_⟩
    simp only [state]
    exact ⟨half, nuls, x ++ y, (List.append_nil _).symm, .inr whole⟩
  case partData =>
    simp only [state] at data named
    obtain ⟨blank, nuls, x, filled, rfl, reported, leaks⟩ := data
    -- The part has a name here, so that `part_data_cb` takes every run of its data.
    obtain ⟨name, named⟩ := Option.isSome_iff_exists.1 (named trivial)
    obtain ⟨filled', whole⟩ := partDataCb_ok total named (x ++ y)
    have later : partDataCb host y filled = .ok filled' ∧ Blank filled := by
      rcases reported with ⟨rfl, rfl⟩ | ⟨-, called⟩
      · exact ⟨whole, blank⟩
      · refine ⟨by rw [partDataCb_append total named called nuls, whole], ?_⟩
        have stays := (partData_apart host x (w := []) ⟨blank, rfl⟩).all_left fun _ _ h => h.blank
        exact stays.of_ok called
    have call := call_leaks (f := partDataCb host y) (fun _ _ _ => partData_apart host y) later.2 leaks
    rw [later.1] at call
    cases called : partDataCb host y t with
    | fail t' => rw [called] at call; cases call
    | stop why t' => rw [called] at call; cases call
    | ok t' =>
        rw [called] at call
        cases call with
        | ok related =>
            refine ⟨t', by simp [Settings.calls, Settings.call, settings, called], rfl, ?_⟩
            simp only [state]
            exact ⟨blank, nuls, x ++ y, filled', (List.append_nil _).symm, .inr ⟨by simp [none], whole⟩,
              related.2⟩
  all_goals
    refine ⟨t, rfl, rfl, ?_⟩
    simp only [state] at data ⊢
    exact data

theorem end_sim {leaked : Bool} {k k' : Config Session} (staged : Staged k) (sim : Sim host leaked k k') (empty : k'.pending = []) :
    ∃ s, flush (settings host) k = .ok (k.parser, s) ∧ Seen s k'.data := by
  obtain ⟨p, z, s⟩ := k
  obtain ⟨p', _, t⟩ := k'
  obtain ⟨same, data⟩ := sim
  obtain rfl : p' = p := same
  cases empty
  have agrees := staged.agrees
  have named := staged.named
  simp only at data agrees named
  by_cases none : z = []
  · subst none
    refine ⟨s, by simp [flush, Parser.pendingCalls, Settings.calls], ?_⟩
    cases state : p'.state
    case headerField =>
      simp only [state] at data
      obtain ⟨-, -, x, w, -, -, -, ⟨-, rfl⟩ | called⟩ := data
      · exact .refl t
      · exact headerFieldCb_seen called
    case headerValueStart =>
      simp only [state] at data
      exact data.2 ▸ .refl s
    case headerValue =>
      simp only [state] at data
      obtain ⟨-, -, x, -, ⟨-, rfl⟩ | called⟩ := data
      · exact .refl t
      · exact ((headerValueCb_spec x s).of_ok called).seen
    case partData =>
      simp only [state] at data
      obtain ⟨-, -, x, filled, split, ⟨-, rfl⟩ | ⟨some, -⟩, leaks⟩ := data
      · exact leaks.seen
      · simp [some] at split
    all_goals
      simp only [state] at data
      exact data.2.seen
  simp only [flush, pendingCalls_eq p' none]
  cases state : p'.state
  case headerField =>
    simp only [state] at data agrees
    obtain ⟨-, -, x, w, -, -, -, reported⟩ := data
    obtain ⟨filed, filing⟩ := fileHeader_ok ((agrees (by simp)).headers_iff.2 rfl)
    have called : headerFieldCb z s = .ok (filed.named z) := by
      rw [headerFieldCb_eq, filing, Outcome.ok_map]
    refine ⟨filed.named z, by simp [Settings.calls, Settings.call, settings, called], ?_⟩
    have seen := (headerFieldCb_seen called).symm
    rcases reported with ⟨-, rfl⟩ | called'
    · exact seen
    · exact seen.trans (headerFieldCb_seen called')
  case headerValue =>
    simp only [state] at data
    obtain ⟨half, -, x, -, reported⟩ := data
    obtain ⟨s', called, -⟩ := headerValueCb_half half z
    refine ⟨s', by simp [Settings.calls, Settings.call, settings, called], ?_⟩
    have seen := ((headerValueCb_spec z s).of_ok called).seen.symm
    rcases reported with ⟨-, rfl⟩ | called'
    · exact seen
    · exact seen.trans ((headerValueCb_spec x s).of_ok called').seen
  case partData =>
    simp only [state] at data named
    obtain ⟨-, -, x, filled, split, reported, leaks⟩ := data
    obtain rfl : z = x := by simpa using split
    rcases reported with ⟨rfl, -⟩ | ⟨-, called⟩
    · exact absurd rfl none
    · exact ⟨filled, by simp [Settings.calls, Settings.call, settings, called], leaks.seen⟩
  all_goals
    simp only [state] at data
    first
      | exact ⟨s, rfl, data.2.seen⟩
      | exact ⟨s, rfl, data.2 ▸ .refl s⟩

theorem step_staged (host : Host) (c : UInt8) (k : Config Session) (staged : Staged k) :
    (step (settings host) c k).All Staged (fun _ => True) (fun _ _ => True) :=
  step_rule (J := Agrees) (L := fun _ => True) (K := fun _ _ => True)
    (fun _ _ _ _ next agrees => (call_agrees host next agrees).mono (fun _ h => h) (fun _ h => h)
      fun _ _ _ => trivial)
    (fun _ _ _ => trivial) (fun _ _ _ => trivial) c k staged

theorem steps_sim (total : ∀ fd old buf, host.fwrite fd old buf = buf.length) {leaked : Bool}
    (buf rest : Bytes) {k k' : Config Session} (staged : Staged k) (sim : Sim host leaked k k')
    (proof : chunkProof (settings host) leaked (buf ++ rest) k = true) :
    Outcome.Rel Seen
      (fun a b => ∃ leaked, Staged a ∧ Sim host leaked a b ∧
        chunkProof (settings host) leaked rest a = true)
      (steps (settings host) buf k) (steps (settings host) buf k') := by
  induction buf generalizing leaked k k' with
  | nil => exact .ok ⟨leaked, staged, sim, proof⟩
  | cons c buf ih =>
      rw [List.cons_append, chunkProof, Bool.and_eq_true, Bool.not_eq_true'] at proof
      obtain ⟨quiet, later⟩ := proof
      have stepped := (step_sim total staged sim c quiet).and_all (step_staged host c k staged)
      change Outcome.Rel _ _ ((step (settings host) c k).bind _) ((step (settings host) c k').bind _)
      generalize step (settings host) c k' = other at stepped
      cases outcome : step (settings host) c k with
      | ok a =>
          rw [outcome] at stepped later
          cases stepped with
          | ok related => exact ih related.2 related.1 later
      | fail s =>
          rw [outcome] at stepped
          cases stepped with
          | fail seen => exact .fail seen
      | stop why s =>
          rw [outcome] at stepped
          cases stepped with
          | stop seen => exact .stop seen

theorem run_sim (total : ∀ fd old buf, host.fwrite fd old buf = buf.length) {leaked : Bool}
    (chunks : List Bytes) {k : Config Session} {p : Parser} {t : Session} (staged : Staged k)
    (sim : Sim host leaked k ⟨p, [], t⟩)
    (proof : chunkProof (settings host) leaked chunks.flatten k = true) :
    Outcome.Rel Seen (fun a b => Seen a.2 b.2)
      ((steps (settings host) chunks.flatten k).bind (flush (settings host)))
      (Outcome.sequence (feedChunk (settings host)) chunks (p, t)) := by
  induction chunks generalizing leaked k p t with
  | nil =>
      obtain ⟨s, flushed, seen⟩ := end_sim staged sim rfl
      change Outcome.Rel _ _ (flush (settings host) k) _
      rw [flushed]
      exact .ok seen
  | cons chunk chunks ih =>
      rw [List.flatten_cons] at proof ⊢
      rw [Outcome.sequence_cons, steps, Outcome.sequence_append, Outcome.bind_assoc, feedChunk,
        Outcome.bind_assoc]
      apply (steps_sim total chunk chunks.flatten staged sim proof).bind
      rintro a b ⟨leaked', staged', sim', proof'⟩
      obtain ⟨t', flushed, sim''⟩ := flush_sim total staged' sim'
      rw [flushed, Outcome.ok_bind]
      exact ih staged' sim'' proof'

/-- The run over a body as one chunk comes to no byte at which chunks show. -/
def ChunkProof (host : Host) (boundary : CString) (body : Bytes) : Prop :=
  chunkProof (settings host) false body ⟨multipartParserInit boundary, [], .init⟩ = true

theorem single_sim (total : ∀ fd old buf, host.fwrite fd old buf = buf.length) {boundary : CString}
    (chunks : List Bytes) (proof : ChunkProof host boundary chunks.flatten) :
    Outcome.Rel Seen (fun a b => Seen a.2 b.2)
      (feedChunk (settings host) chunks.flatten (multipartParserInit boundary, .init))
      (executeChunks (settings host) chunks (multipartParserInit boundary, .init)) := by
  have sim : Sim host false ⟨multipartParserInit boundary, [], .init⟩ ⟨multipartParserInit boundary, [], .init⟩ :=
    sim_of_blank (by simp [multipartParserInit]) (by simp [multipartParserInit])
      (by simp [multipartParserInit]) ⟨rfl, rfl⟩ (.refl false _)
  rw [executeChunks_eq]
  exact run_sim total chunks ⟨.preamble, .inl rfl, init_agrees⟩ sim proof

theorem chunks_alike (total : ∀ fd old buf, host.fwrite fd old buf = buf.length) {boundary : CString}
    {body : Bytes} (proof : ChunkProof host boundary body) {chunks chunks' : List Bytes}
    (whole : chunks.flatten = body) (whole' : chunks'.flatten = body) :
    Outcome.Rel Seen (fun a b => Seen a.2 b.2)
      (executeChunks (settings host) chunks (multipartParserInit boundary, .init))
      (executeChunks (settings host) chunks' (multipartParserInit boundary, .init)) := by
  subst whole
  have single := single_sim total chunks proof
  have single' := single_sim total chunks' (whole'.symm ▸ proof)
  rw [whole'] at single'
  exact single.join single' (fun _ _ _ h h' => h.symm.trans h') (fun _ _ _ h h' => h.symm.trans h')

theorem Decoded.Of.of_seen {decoded : Decoded} {s t : Session} (of : decoded.Of s) (seen : Seen s t) :
    decoded.Of t :=
  ⟨of.1.trans seen.1.symm, of.2.1.trans seen.2.1.symm, of.2.2.trans seen.2.2.symm⟩

/-- Reads of any other size than 256 bytes would hand back the same. -/
theorem parse_alike (total : ∀ fd old buf, host.fwrite fd old buf = buf.length) {boundary : CString}
    {body : Bytes} (proof : ChunkProof host boundary body) {chunks : List Bytes}
    (whole : chunks.flatten = body) (contentLength : Nat) :
    (executeChunks (settings host) chunks (multipartParserInit boundary, .init)).All
      (fun r => ∃ decoded, decoded.Of r.2 ∧
        parseContentAsMultipartFormData host contentLength boundary body = .ok decoded)
      (fun left => ∃ decoded, decoded.Of left ∧
        parseContentAsMultipartFormData host contentLength boundary body = .ok decoded)
      (fun why _ => ∃ left,
        parseContentAsMultipartFormData host contentLength boundary body = .stop why left) := by
  have alike := chunks_alike total proof (flatten_reads body) whole
  have follows := parse_follows host contentLength boundary body
  generalize executeChunks (settings host) (reads body) (multipartParserInit boundary, .init) = read
    at alike follows
  generalize executeChunks (settings host) chunks (multipartParserInit boundary, .init) = other at alike ⊢
  cases alike with
  | ok seen =>
      obtain ⟨decoded, of, parsed⟩ := follows
      exact ⟨decoded, of.of_seen seen, parsed⟩
  | fail seen =>
      obtain ⟨decoded, of, parsed⟩ := follows
      exact ⟨decoded, of.of_seen seen, parsed⟩
  | stop seen => exact ⟨_, follows⟩

theorem chunk_independence (host : Host) (total : ∀ fd old buf, host.fwrite fd old buf = buf.length)
    (boundary : CString) (body : Bytes) (proof : ChunkProof host boundary body) :
    (∀ chunks chunks' : List Bytes, chunks.flatten = body → chunks'.flatten = body →
      Outcome.Rel Seen (fun a b => Seen a.2 b.2)
        (executeChunks (settings host) chunks (multipartParserInit boundary, .init))
        (executeChunks (settings host) chunks' (multipartParserInit boundary, .init))) ∧
      ∀ (contentLength : Nat) (chunks : List Bytes), chunks.flatten = body →
        (executeChunks (settings host) chunks (multipartParserInit boundary, .init)).All
          (fun r => ∃ decoded, decoded.Of r.2 ∧
            parseContentAsMultipartFormData host contentLength boundary body = .ok decoded)
          (fun left => ∃ decoded, decoded.Of left ∧
            parseContentAsMultipartFormData host contentLength boundary body = .ok decoded)
          (fun why _ => ∃ left,
            parseContentAsMultipartFormData host contentLength boundary body = .stop why left) := by
  refine ⟨?_, ?_⟩
  · intro chunks chunks' whole whole'
    exact chunks_alike total proof whole whole'
  · intro contentLength chunks whole
    exact parse_alike total proof whole contentLength

def oddBody : Bytes :=
  ascii "--b\r\nContent-Disposition: form-data; name=a\r\nX: y" ++ [0] ++ ascii "\r\nodd\r\nz\r\n--b--"

theorem oddBody_chunk_independence :
    (∀ chunks chunks' : List Bytes, chunks.flatten = oddBody → chunks'.flatten = oddBody →
      Outcome.Rel Seen (fun a b => Seen a.2 b.2)
        (executeChunks (settings plainHost) chunks (multipartParserInit (.lit "--b"), .init))
        (executeChunks (settings plainHost) chunks' (multipartParserInit (.lit "--b"), .init))) ∧
      ∀ (contentLength : Nat) (chunks : List Bytes), chunks.flatten = oddBody →
        (executeChunks (settings plainHost) chunks (multipartParserInit (.lit "--b"), .init)).All
          (fun r => ∃ decoded, decoded.Of r.2 ∧
            parseContentAsMultipartFormData plainHost contentLength (.lit "--b") oddBody = .ok decoded)
          (fun left => ∃ decoded, decoded.Of left ∧
            parseContentAsMultipartFormData plainHost contentLength (.lit "--b") oddBody = .ok decoded)
          (fun why _ => ∃ left,
            parseContentAsMultipartFormData plainHost contentLength (.lit "--b") oddBody =
              .stop why left) :=
  chunk_independence plainHost (fun _ _ _ => rfl) (.lit "--b") oddBody (by unfold ChunkProof; decide +kernel)

def textOf (obj : Members) (key : CString) : Option CString :=
  match obj key with
  | some (.string s) => some s
  | _ => none

def nulInText : List Bytes :=
  [ascii "--b\r\nContent-Disposition: form-data; name=a\r\n\r\nx" ++ [0], ascii "y\r\n--b--"]

theorem nulInText_chunks_show :
    ¬ Outcome.Rel Seen (fun a b => Seen a.2 b.2)
      (executeChunks (settings plainHost) [nulInText.flatten] (multipartParserInit (.lit "--b"), .init))
      (executeChunks (settings plainHost) nulInText (multipartParserInit (.lit "--b"), .init)) := by
  have one : ((executeChunks (settings plainHost) [nulInText.flatten]
      (multipartParserInit (.lit "--b"), .init)).result?.map fun r => textOf r.2.post (.lit "a")) =
        some (some (.lit "x")) := by
    decide +kernel
  have two : ((executeChunks (settings plainHost) nulInText
      (multipartParserInit (.lit "--b"), .init)).result?.map fun r => textOf r.2.post (.lit "a")) =
        some (some (.lit "xy")) := by
    decide +kernel
  obtain ⟨a, run, text⟩ := Option.map_eq_some_iff.1 one
  obtain ⟨b, run', text'⟩ := Option.map_eq_some_iff.1 two
  rw [Outcome.result?_eq_some.1 run, Outcome.result?_eq_some.1 run']
  intro alike
  cases alike with
  | ok seen =>
      rw [seen.1, text] at text'
      exact absurd text' (by decide)

end HvmlFpm.Multipart
