import HvmlFpm.Multipart.Feed

namespace HvmlFpm.Multipart
open Library
variable {σ : Type}

def opening (boundary : CString) : Bytes := boundary.bytes ++ [CR, LF]

theorem opening_length (boundary : CString) : (opening boundary).length = boundary.length + 2 := by
  simp [opening]

def waiting (boundary : CString) (n : Nat) : Parser :=
  { multipartParserInit boundary with index := n, state := if n = 0 then .start else .startBoundary }

theorem feedStartBoundary_inside {p : Parser} {b c : UInt8} (full : p.index ≠ p.boundaryLength)
    (past : p.index ≠ p.boundaryLength + 1) (access : p.boundaryAt p.index = some b) :
    p.feedStartBoundary c = if c ≠ b then .refused else .next [] { p with index := p.index + 1 } [] := by
  rw [Parser.feedStartBoundary, if_neg full, if_neg past, access]

def opened (boundary : CString) : Parser := { multipartParserInit boundary with state := .headerFieldStart }

theorem feed_waiting {boundary : CString} {n : Nat} {b : UInt8} (expected : (opening boundary)[n]? = some b)
    (c : UInt8) :
    (waiting boundary n).feed [] c =
      if c ≠ b then .refused
      else if n = boundary.length + 1 then .next [.partDataBegin] (opened boundary) []
      else .next [] (waiting boundary (n + 1)) [] := by
  have bound : n < boundary.length + 2 := by
    rw [← opening_length]
    exact (List.getElem?_eq_some_iff.1 expected).1
  have start : (waiting boundary n).feed [] c =
      ({ waiting boundary n with state := .startBoundary } : Parser).feedStartBoundary c := by
    cases n <;> rfl
  rw [start]
  by_cases full : n = boundary.length
  · have isCR : b = CR := by simpa [opening, full] using expected.symm
    rw [isCR, if_neg (show n ≠ boundary.length + 1 by omega)]
    simp [Parser.feedStartBoundary, waiting, Parser.boundaryLength, multipartParserInit, full]
  by_cases past : n = boundary.length + 1
  · have isLF : b = LF := by simpa [opening, past] using expected.symm
    rw [isLF, if_pos past]
    simp [Parser.feedStartBoundary, waiting, Parser.boundaryLength, multipartParserInit, past, opened]
  have inside : n < boundary.bytes.length := by
    change n < boundary.length
    omega
  rw [opening, List.getElem?_append_left inside] at expected
  have access : ({ waiting boundary n with state := .startBoundary } : Parser).boundaryAt n = some b := by
    rw [Parser.boundaryAt, List.getElem?_append_left (by exact inside)]
    exact expected
  rw [feedStartBoundary_inside full past access, if_neg past]
  simp [waiting, multipartParserInit]

variable (settings : Settings σ)

def Unopened (boundary : CString) (s : σ) (left : Bytes) (k : Config σ) : Prop :=
  ∃ n, k = ⟨waiting boundary n, [], s⟩ ∧ n < (opening boundary).length ∧
    ¬ (opening boundary).drop n <+: left

theorem step_unopened {boundary : CString} {s : σ} (c : UInt8) (left : Bytes) (k : Config σ)
    (unopened : Unopened boundary s (c :: left) k) :
    (step settings c k).All (Unopened boundary s left) (fun t => t = s) (fun _ _ => False) := by
  obtain ⟨n, rfl, bound, differs⟩ := unopened
  have split : (opening boundary).drop n = (opening boundary)[n] :: (opening boundary).drop (n + 1) :=
    List.drop_eq_getElem_cons bound
  rw [step]
  rw [feed_waiting (List.getElem?_eq_getElem bound) c]
  by_cases other : c ≠ (opening boundary)[n]
  · rw [if_pos other]
    exact rfl
  · rw [if_neg other]
    rw [split, ← not_not.1 other, List.cons_prefix_cons] at differs
    have inside : n + 1 < (opening boundary).length := by
      by_contra last
      rw [List.drop_of_length_le (by omega)] at differs
      exact differs ⟨rfl, List.nil_prefix⟩
    rw [opening_length] at inside
    rw [if_neg (by omega)]
    refine ⟨n + 1, rfl, ?_, fun opens => differs ⟨rfl, opens⟩⟩
    rw [opening_length]
    exact inside

theorem executeChunks_unopened {boundary : CString} (chunks : List Bytes) (s : σ)
    (differs : ¬ opening boundary <+: chunks.flatten) :
    (executeChunks settings chunks (multipartParserInit boundary, s)).All (fun r => r.2 = s) (fun t => t = s)
      (fun _ _ => False) := by
  have run := executeChunks_ahead settings (I := Unopened boundary s) (J := fun t => t = s) (K := fun _ _ => False)
    (step_unopened settings) ?_ chunks (multipartParserInit boundary, s) ?_
  · apply run.mono
    · rintro r ⟨n, same, -⟩
      exact congrArg Config.data same
    · exact fun _ left => left
    · exact fun _ _ stopped => stopped
  · rintro left k ⟨n, rfl, rest⟩
    exact ⟨n, rfl, rest⟩
  · refine ⟨0, rfl, ?_, differs⟩
    rw [opening_length]
    omega

end HvmlFpm.Multipart
