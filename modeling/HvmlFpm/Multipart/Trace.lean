import HvmlFpm.Multipart.Feed

/-!
# Callback traces

The parser does not look into the state its callbacks work on, so it runs the same over a state that
also records every call.
-/

namespace HvmlFpm.Multipart
open Library
variable {σ τ : Type}

def Settings.ofCall (call : Call → σ → Outcome Stop σ σ) : Settings σ where
  onHeaderField := fun run => call (.headerField run)
  onHeaderValue := fun run => call (.headerValue run)
  onPartData := fun run => call (.partData run)
  onPartDataBegin := call .partDataBegin
  onHeadersComplete := call .headersComplete
  onPartDataEnd := call .partDataEnd
  onBodyEnd := call .bodyEnd

@[simp] theorem Settings.ofCall_call (call : Call → σ → Outcome Stop σ σ) :
    (Settings.ofCall call).call = call := by
  funext k
  cases k <;> rfl

/-- `log` holds every call so far with the state that it found. -/
structure Traced (σ : Type) where
  state : σ
  log : List (Call × σ)

def Traced.start (s : σ) : Traced σ := ⟨s, []⟩

def Traced.calls (t : Traced σ) : List Call := t.log.map Prod.fst

def Traced.record (t : Traced σ) (k : Call) (s : σ) : Traced σ := ⟨s, t.log ++ [(k, t.state)]⟩

@[simp] theorem Traced.calls_record (t : Traced σ) (k : Call) (s : σ) :
    (t.record k s).calls = t.calls ++ [k] := by
  simp [Traced.calls, Traced.record]

def Traced.Each (P : List (Call × σ) → Call → σ → Prop) (t : Traced σ) : Prop :=
  ∀ before k s after, t.log = before ++ (k, s) :: after → P before k s

theorem each_start (P : List (Call × σ) → Call → σ → Prop) (s : σ) : (Traced.start s).Each P := by
  intro before k found after e
  simp [Traced.start] at e

theorem each_record {P : List (Call × σ) → Call → σ → Prop} {t : Traced σ} (each : t.Each P) (k : Call)
    (s : σ) (last : P t.log k t.state) : (t.record k s).Each P := by
  intro before k' found after e
  cases after using List.reverseRecOn with
  | nil =>
      obtain ⟨rfl, same⟩ := List.append_inj' e rfl
      obtain ⟨rfl, rfl⟩ := Prod.mk.inj (List.singleton_inj.1 same)
      exact last
  | append_singleton after e' =>
      rw [← List.cons_append, ← List.append_assoc] at e
      exact each before k' found after (List.append_inj' e rfl).1

def traced (settings : Settings σ) : Settings (Traced σ) :=
  Settings.ofCall fun k t =>
    match settings.call k t.state with
    | .ok s => .ok (t.record k s)
    | .fail s => .fail (t.record k s)
    | .stop why s => .stop why (t.record k s)

theorem traced_all {settings : Settings σ} {k : Call} {t : Traced σ} {I J : σ → Prop} {K : Stop → σ → Prop}
    {I' J' : Traced σ → Prop} {K' : Stop → Traced σ → Prop} (h : (settings.call k t.state).All I J K)
    (ok : ∀ s, I s → I' (t.record k s)) (fail : ∀ s, J s → J' (t.record k s))
    (stop : ∀ why s, K why s → K' why (t.record k s)) :
    ((traced settings).call k t).All I' J' K' := by
  simp only [traced, Settings.ofCall_call]
  cases called : settings.call k t.state with
  | ok s => rw [called] at h; exact ok s h
  | fail s => rw [called] at h; exact fail s h
  | stop why s => rw [called] at h; exact stop why s h

section Related
variable {S : σ → τ → Prop} {left : Settings σ} {right : Settings τ}

theorem perform_related (calls : ∀ k s t, S s t → Outcome.Rel S S (left.call k s) (right.call k t))
    (fed : Fed) {s : σ} {t : τ} (h : S s t) :
    Outcome.Rel S (fun a b => a.parser = b.parser ∧ a.pending = b.pending ∧ S a.data b.data)
      (perform left fed s) (perform right fed t) := by
  cases fed with
  | refused => exact .fail h
  | outOfBlock ks =>
      apply (Outcome.Rel.sequence calls ks h).bind
      intro s t h
      exact .stop h
  | next ks p pending =>
      apply (Outcome.Rel.sequence calls ks h).bind
      intro s t h
      exact .ok ⟨rfl, rfl, h⟩

theorem feedChunk_related
    (calls : ∀ k s t, S s t → Outcome.Rel S S (left.call k s) (right.call k t))
    (buf : Bytes) {p : Parser} {s : σ} {t : τ} (h : S s t) :
    Outcome.Rel S (fun a b => a.1 = b.1 ∧ S a.2 b.2)
      (feedChunk left buf (p, s)) (feedChunk right buf (p, t)) := by
  apply Outcome.Rel.bind
    (R := fun a b => a.parser = b.parser ∧ a.pending = b.pending ∧ S a.data b.data)
  · apply Outcome.Rel.sequence _ buf
    · exact ⟨rfl, rfl, h⟩
    · rintro c ⟨p, pending, s⟩ ⟨-, -, t⟩ ⟨rfl, rfl, h⟩
      exact perform_related calls _ h
  · rintro ⟨p, pending, s⟩ ⟨-, -, t⟩ ⟨rfl, rfl, h⟩
    apply (Outcome.Rel.sequence calls _ h).bind
    intro s t h
    exact .ok ⟨rfl, h⟩

theorem executeChunks_related
    (calls : ∀ k s t, S s t → Outcome.Rel S S (left.call k s) (right.call k t))
    (chunks : List Bytes) {p : Parser} {s : σ} {t : τ} (h : S s t) :
    Outcome.Rel S (fun a b => a.1 = b.1 ∧ S a.2 b.2)
      (executeChunks left chunks (p, s)) (executeChunks right chunks (p, t)) := by
  rw [executeChunks_eq, executeChunks_eq]
  apply Outcome.Rel.sequence _ chunks
  · exact ⟨rfl, h⟩
  · rintro buf ⟨p, s⟩ ⟨-, t⟩ ⟨rfl, h⟩
    exact feedChunk_related calls buf h

end Related

theorem executeChunks_traced (settings : Settings σ) (chunks : List Bytes) (p : Parser) (s : σ) :
    Outcome.Rel (fun t s => t.state = s) (fun a b => a.1 = b.1 ∧ a.2.state = b.2)
      (executeChunks (traced settings) chunks (p, .start s)) (executeChunks settings chunks (p, s)) := by
  apply executeChunks_related
  · rintro k t _ rfl
    simp only [traced, Settings.ofCall_call]
    cases settings.call k t.state with
    | ok s => exact .ok rfl
    | fail s => exact .fail rfl
    | stop why s => exact .stop rfl
  · rfl

end HvmlFpm.Multipart
