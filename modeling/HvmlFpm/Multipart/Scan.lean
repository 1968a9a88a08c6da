import HvmlFpm.Library.Search
import HvmlFpm.Multipart.Bounds

namespace HvmlFpm.Multipart
open Library
variable {σ : Type}

theorem delimiter_length (boundary : CString) : (delimiter boundary).length = boundary.length + 2 := by
  simp [delimiter]

theorem delimiter_once {boundary : CString} (noCR : CR ∉ boundary.bytes) : CR ∉ LF :: boundary.bytes := by
  rw [List.mem_cons, not_or]
  exact ⟨by decide, noCR⟩

/-- The data `x` of the part so far: the runs that were reported, what is still to be, and the beginning of a
delimiter, which the look-behind buffer holds. -/
structure Scan (boundary : CString) (x : Bytes) (reported : List Bytes) (p : Parser) (pending : Bytes) : Prop where
  intact : Intact boundary p
  searching :
    match p.state with
    | .partData => Searching (delimiter boundary) x (reported.flatten ++ pending) 0
    | .partDataAlmostBoundary => Searching (delimiter boundary) x reported.flatten 1
    | .partDataBoundary => Searching (delimiter boundary) x reported.flatten (2 + p.index)
    | _ => False
  begun : p.state ≠ .partData → reported ≠ []

theorem Scan.no_delimiter {boundary : CString} {x pending : Bytes} {reported : List Bytes} {p : Parser}
    (scan : Scan boundary x reported p pending) (n : Nat) : ¬ delimiter boundary <+: x.drop n := by
  obtain ⟨intact, searching, -⟩ := scan
  cases state : p.state <;> simp only [state] at searching
  case partData => exact searching.no_occurrence (by rw [delimiter_length]; omega) n
  case partDataAlmostBoundary => exact searching.no_occurrence (by rw [delimiter_length]; omega) n
  case partDataBoundary =>
    have bound := (intact.inside state).1
    exact searching.no_occurrence (by rw [delimiter_length]; omega) n

structure Found (boundary : CString) (x : Bytes) (reported : List Bytes) (p : Parser) : Prop where
  intact : Intact boundary p
  state : p.state = .partDataAlmostEnd
  split : x = reported.flatten ++ delimiter boundary
  first : FirstAt (delimiter boundary) x reported.flatten.length
  begun : reported ≠ []

def Fed.Scans (boundary : CString) (x : Bytes) (reported : List Bytes) : Fed → Prop
  | .next calls p pending =>
      (∃ runs : List Bytes, calls = runs.map .partData ∧ Scan boundary x (reported ++ runs) p pending) ∨
        calls = [.partDataEnd] ∧ Found boundary x reported p
  | .outOfBlock _ => False
  | .refused => False

section Feed
variable {boundary : CString} {x pending : Bytes} {reported : List Bytes} {p : Parser} {c : UInt8}

theorem feedPartData_scans (intact : Intact boundary p) (state : p.state = .partData) (runs : List Bytes)
    (split : x = (reported ++ runs).flatten ++ pending)
    (dead : DeadBefore (delimiter boundary) (x ++ [c]) x.length) :
    (Parser.feedPartData (runs.map .partData) p pending c).Scans boundary (x ++ [c]) reported := by
  have fed := feedPartData_intact intact (runs.map .partData) pending c
  unfold Parser.feedPartData at fed ⊢
  by_cases cr : c = CR
  · subst cr
    rw [if_pos rfl] at fed ⊢
    cases access : ({ p with state := .partDataAlmostBoundary } : Parser).setLookbehind 0 CR with
    | none => rw [access] at fed; exact fed.elim
    | some p' =>
        rw [access] at fed
        obtain ⟨-, rfl⟩ := setLookbehind_eq_some access
        refine .inl ⟨runs ++ [pending], by simp, fed, ?_, by simp⟩
        simp only
        rw [← List.append_assoc, List.flatten_append, List.flatten_singleton, ← split]
        exact searching_restart dead
  · rw [if_neg cr] at fed ⊢
    refine .inl ⟨runs, rfl, fed, ?_, fun other => absurd state other⟩
    simp only [state]
    rw [← List.append_assoc, ← split]
    exact searching_pass dead cr

theorem replay_scans (noCR : CR ∉ boundary.bytes) {b : UInt8} {n : Nat} (intact : Intact boundary p)
    (searching : Searching (delimiter boundary) x reported.flatten n)
    (held : p.lookbehind.take n = (delimiter boundary).take n) (at_n : (delimiter boundary)[n]? = some b)
    (differs : b ≠ c) :
    (Parser.feedPartData [.partData (p.lookbehind.take n)] { p with state := .partData } [] c).Scans boundary
      (x ++ [c]) reported := by
  apply feedPartData_scans (intact.move .partData (by decide) (by decide)) rfl [p.lookbehind.take n]
  · simpa [held] using searching.split
  · exact searching.miss (delimiter_once noCR) at_n differs

theorem feed_scans (nonempty : boundary ≠ .empty) (noCR : CR ∉ boundary.bytes) (c : UInt8)
    (scan : Scan boundary x reported p pending) : (p.feed pending c).Scans boundary (x ++ [c]) reported := by
  obtain ⟨intact, searching, begun⟩ := scan
  have fed := feed_intact nonempty intact pending c
  unfold Parser.feed at fed ⊢
  cases state : p.state <;> rw [state] at searching <;> simp only [state] at searching fed ⊢
  case partData =>
    have split := searching.split
    rw [List.take_zero, List.append_nil] at split
    rw [← split] at searching
    exact feedPartData_scans intact state [] (by simpa using split) (searching.dead.append le_rfl [c])
  case partDataAlmostBoundary =>
    by_cases lf : c = LF
    · have next : (delimiter boundary)[1]? = some c := by
        rw [lf]
        rfl
      rw [if_pos lf] at fed ⊢
      cases access : ({ p with state := .partDataBoundary } : Parser).setLookbehind 1 LF with
      | none => rw [access] at fed; exact fed.elim
      | some p' =>
          rw [access] at fed
          obtain ⟨-, rfl⟩ := setLookbehind_eq_some access
          refine .inl ⟨[], rfl, fed, ?_, ?_⟩
          · simp only [List.append_nil]
            exact searching.hit next
          · simpa using begun (by simp [state])
    · rw [if_neg lf]
      exact replay_scans noCR intact searching (intact.almost state) rfl (Ne.symm lf)
  case partDataBoundary =>
    obtain ⟨bound, held⟩ := intact.inside state
    have at_index : (delimiter boundary)[2 + p.index]? = some boundary.bytes[p.index] := by
      simp [delimiter, Nat.add_comm 2, bound]
    rw [boundaryAt_lt intact bound] at fed ⊢
    simp only at fed ⊢
    by_cases differs : boundary.bytes[p.index] ≠ c
    · rw [if_pos differs]
      exact replay_scans noCR intact searching held at_index differs
    · rw [if_neg differs] at fed ⊢
      rw [not_not] at differs
      have longer := searching.hit (at_index.trans (congrArg some differs))
      cases access : p.setLookbehind (2 + p.index) c with
      | none => rw [access] at fed; exact fed.elim
      | some p' =>
          rw [access] at fed
          obtain ⟨-, rfl⟩ := setLookbehind_eq_some access
          by_cases whole : p.index + 1 = p.multipartBoundary.length
          · simp only [Parser.boundaryLength, whole, if_true] at fed ⊢
            rw [intact.boundary_eq] at whole
            have found : 2 + p.index + 1 = (delimiter boundary).length := by
              rw [delimiter_length]
              omega
            rw [found] at longer
            refine .inr ⟨rfl, fed, rfl, ?_, longer.firstAt, begun (by simp [state])⟩
            simpa using longer.split
          · simp only [Parser.boundaryLength, whole, if_false] at fed ⊢
            refine .inl ⟨[], rfl, fed, ?_, ?_⟩
            · simp only [state, List.append_nil]
              exact longer
            · simpa using begun

theorem start_scans (intact : Intact boundary p) (c : UInt8) :
    (Parser.feedPartData [] { p with state := .partData } [] c).Scans boundary [c] [] :=
  feedPartData_scans (x := []) (intact.move .partData (by decide) (by decide)) rfl [] rfl (by simp [DeadBefore])

end Feed

/-! ## What receives the data

`Open runs s` says that the data `runs` has arrived in `s`. -/

section Receiver
variable {settings : Settings σ} {boundary : CString} {x : Bytes} {reported : List Bytes}
  {Open : List Bytes → σ → Prop} {Done J : σ → Prop} {K : Stop → σ → Prop}

theorem pieces_open (piece : ∀ runs run s, Open runs s → (settings.call (.partData run) s).All (Open (runs ++ [run])) J K)
    (more : List Bytes) {runs : List Bytes} {s : σ} (arrived : Open runs s) :
    (settings.calls (more.map .partData) s).All (Open (runs ++ more)) J K := by
  induction more generalizing runs s with
  | nil => simpa [Settings.calls, Outcome.All] using arrived
  | cons run more ih =>
      rw [List.append_cons]
      exact (piece runs run s arrived).bind fun t arrived => ih arrived

theorem perform_scans (piece : ∀ runs run s, Open runs s → (settings.call (.partData run) s).All (Open (runs ++ [run])) J K)
    (ended : ∀ p s, Found boundary x reported p → Open reported s → (settings.call .partDataEnd s).All Done J K)
    {fed : Fed} (scans : fed.Scans boundary x reported) {s : σ} (arrived : Open reported s) :
    (perform settings fed s).All
      (fun k => (∃ runs, Scan boundary x runs k.parser k.pending ∧ Open runs k.data) ∨
        Found boundary x reported k.parser ∧ Done k.data) J K := by
  cases fed with
  | refused => exact scans.elim
  | outOfBlock calls => exact scans.elim
  | next calls p pending =>
      rcases scans with ⟨runs, rfl, scan⟩ | ⟨rfl, found⟩
      · exact (pieces_open piece runs arrived).map fun t arrived => .inl ⟨_, scan, arrived⟩
      · simp only [perform, Settings.calls, Outcome.sequence_singleton]
        exact (ended p s found arrived).map fun t done => .inr ⟨found, done⟩

theorem flush_scan (piece : ∀ runs run s, Open runs s → (settings.call (.partData run) s).All (Open (runs ++ [run])) J K)
    {k : Config σ} (scan : Scan boundary x reported k.parser k.pending) (arrived : Open reported k.data) :
    (flush settings k).All (fun r => ∃ runs, Scan boundary x runs r.1 [] ∧ Open runs r.2) J K := by
  obtain ⟨p, pending, s⟩ := k
  obtain ⟨intact, searching, begun⟩ := scan
  simp only [flush]
  by_cases data : p.state = .partData
  · simp only [data] at searching
    by_cases empty : pending = []
    · subst empty
      refine ⟨reported, ⟨intact, ?_, begun⟩, arrived⟩
      simpa only [data] using searching
    · simp only [Parser.pendingCalls, empty, if_false, data, Settings.calls, Outcome.sequence_singleton]
      apply (piece reported pending s arrived).map
      intro t arrived
      refine ⟨_, ⟨intact, ?_, fun other => absurd data other⟩, arrived⟩
      simpa only [data, List.append_nil, List.flatten_append, List.flatten_singleton] using searching
  · have quiet : p.pendingCalls pending = [] := by
      cases state : p.state <;> simp_all [Parser.pendingCalls]
    rw [quiet]
    refine ⟨reported, ⟨intact, ?_, begun⟩, arrived⟩
    cases state : p.state <;> simp_all

end Receiver
end HvmlFpm.Multipart
