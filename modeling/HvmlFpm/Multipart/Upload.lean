import HvmlFpm.Multipart.Scan

namespace HvmlFpm.Multipart
open Library
variable {σ : Type}

def takeBytes : Nat → List Bytes → List Bytes
  | _, [] => []
  | n, chunk :: chunks =>
      if n ≤ chunk.length then [chunk.take n] else chunk :: takeBytes (n - chunk.length) chunks

def dropBytes : Nat → List Bytes → List Bytes
  | _, [] => []
  | n, chunk :: chunks =>
      if n ≤ chunk.length then chunk.drop n :: chunks else dropBytes (n - chunk.length) chunks

theorem flatten_takeBytes (n : Nat) (chunks : List Bytes) :
    (takeBytes n chunks).flatten = chunks.flatten.take n := by
  induction chunks generalizing n with
  | nil => simp [takeBytes]
  | cons chunk chunks ih =>
      unfold takeBytes
      split_ifs with fits
      · simp [List.take_append_of_le_length fits]
      · have whole : chunk.take n = chunk := List.take_of_length_le (by omega)
        rw [List.flatten_cons, ih, List.flatten_cons, List.take_append, whole]

theorem flatten_dropBytes (n : Nat) (chunks : List Bytes) :
    (dropBytes n chunks).flatten = chunks.flatten.drop n := by
  induction chunks generalizing n with
  | nil => simp [dropBytes]
  | cons chunk chunks ih =>
      unfold dropBytes
      split_ifs with fits
      · rw [List.flatten_cons, List.flatten_cons, List.drop_append_of_le_length fits]
      · have nothing : chunk.drop n = [] := List.drop_eq_nil_of_le (by omega)
        rw [ih, List.flatten_cons, List.drop_append, nothing, List.nil_append]

/-- In these states no run is open. -/
def Parser.Quiet (p : Parser) : Prop :=
  p.state ≠ .headerField ∧ p.state ≠ .headerValue ∧ p.state ≠ .partData

theorem Parser.Quiet.feed {p : Parser} (quiet : p.Quiet) (pending : Bytes) (c : UInt8) :
    p.feed pending c = p.feed [] c := by
  obtain ⟨field, value, data⟩ := quiet
  unfold Parser.feed
  cases state : p.state <;> simp_all

theorem Parser.Quiet.pendingCalls {p : Parser} (quiet : p.Quiet) (pending : Bytes) :
    p.pendingCalls pending = [] := by
  obtain ⟨field, value, data⟩ := quiet
  unfold Parser.pendingCalls
  cases state : p.state <;> simp_all

section Split
variable {settings : Settings σ} {start : Parser × σ} {p : Parser} {s : σ}

theorem feedChunk_split {x : Bytes} (quiet : p.Quiet) (fed : feedChunk settings x start = .ok (p, s))
    (y : Bytes) : feedChunk settings (x ++ y) start = feedChunk settings y (p, s) := by
  obtain ⟨k, stepped, flushed⟩ := Outcome.bind_eq_ok.1 fed
  obtain ⟨s', reported, e⟩ := Outcome.map_eq_ok.1 flushed
  obtain ⟨rfl, rfl⟩ := Prod.mk.inj e
  rw [quiet.pendingCalls] at reported
  obtain rfl : k.data = s' := Outcome.ok.inj reported
  unfold feedChunk steps
  rw [Outcome.sequence_append]
  change ((steps settings x _).bind (steps settings y)).bind (flush settings) = _
  rw [stepped, Outcome.ok_bind]
  cases y with
  | nil =>
      change flush settings k = flush settings ⟨k.parser, [], k.data⟩
      rw [flush, flush, quiet.pendingCalls, quiet.pendingCalls]
  | cons c y =>
      change ((step settings c k).bind _).bind _ = ((step settings c _).bind _).bind _
      rw [step, step, quiet.feed]

theorem executeChunks_split (n m : Nat) (le : n ≤ m) {chunks : List Bytes} (quiet : p.Quiet)
    (before : executeChunks settings (takeBytes n chunks) start = .ok (p, s)) :
    executeChunks settings (takeBytes m chunks) start =
      executeChunks settings (takeBytes (m - n) (dropBytes n chunks)) (p, s) := by
  rw [executeChunks_eq] at before ⊢
  rw [executeChunks_eq]
  induction chunks generalizing n m start with
  | nil => exact before
  | cons chunk chunks ih =>
      unfold takeBytes at before
      by_cases inFirst : n ≤ chunk.length
      · rw [if_pos inFirst, Outcome.sequence_singleton] at before
        have drop_eq : dropBytes n (chunk :: chunks) = chunk.drop n :: chunks := by
          rw [dropBytes, if_pos inFirst]
        rw [drop_eq]
        unfold takeBytes
        by_cases fits : m ≤ chunk.length
        · have rest : m - n ≤ (chunk.drop n).length := by
            rw [List.length_drop]
            omega
          have whole : chunk.take m = chunk.take n ++ (chunk.drop n).take (m - n) := by
            rw [List.take_drop, Nat.add_sub_cancel' le]
            conv_lhs => rw [← List.take_append_drop n (chunk.take m)]
            rw [List.take_take, Nat.min_eq_left le]
          rw [if_pos fits, if_pos rest, Outcome.sequence_singleton, Outcome.sequence_singleton, whole]
          exact feedChunk_split quiet before _
        · have rest : ¬ m - n ≤ (chunk.drop n).length := by
            rw [List.length_drop]
            omega
          rw [if_neg fits, if_neg rest, Outcome.sequence_cons, Outcome.sequence_cons]
          have first := feedChunk_split quiet before (chunk.drop n)
          rw [List.take_append_drop] at first
          have remaining : m - n - (chunk.drop n).length = m - chunk.length := by
            rw [List.length_drop]
            omega
          rw [first, remaining]
      · rw [if_neg inFirst, Outcome.sequence_cons] at before
        obtain ⟨mid, fed, before⟩ := Outcome.bind_eq_ok.1 before
        have longer : ¬ m ≤ chunk.length := by omega
        have drop_eq : dropBytes n (chunk :: chunks) = dropBytes (n - chunk.length) chunks := by
          rw [dropBytes, if_neg inFirst]
        have take_eq : takeBytes m (chunk :: chunks) = chunk :: takeBytes (m - chunk.length) chunks := by
          rw [takeBytes, if_neg longer]
        rw [take_eq, drop_eq, Outcome.sequence_cons, fed, Outcome.ok_bind]
        have := ih (n - chunk.length) (m - chunk.length) (by omega) before
        rwa [show m - chunk.length - (n - chunk.length) = m - n by omega] at this

end Split

/-! ## The search -/

structure OpenFile (fd : Nat) (s : Session) : Prop where
  fp : s.fp = some fd
  named : ∃ name file, s.name = some name ∧ s.files name = some file
  made : fd < s.disk.length

/-- The data `x` of the part so far: what is in the file or still to be reported, and the beginning of
a delimiter, which the look-behind buffer holds. -/
structure Receiving (boundary : CString) (fd : Nat) (x : Bytes) (k : Config Session) : Prop where
  intact : Intact boundary k.parser
  file : OpenFile fd k.data
  searching :
    match k.parser.state with
    | .partData => Searching (delimiter boundary) x (k.data.contentOf fd ++ k.pending) 0
    | .partDataAlmostBoundary => Searching (delimiter boundary) x (k.data.contentOf fd) 1
    | .partDataBoundary =>
        Searching (delimiter boundary) x (k.data.contentOf fd) (2 + k.parser.index)
    | _ => False

structure ClosedFile (fd : Nat) (content : Bytes) (s : Session) : Prop where
  fp : s.fp ≠ some fd
  made : fd < s.disk.length
  content_eq : s.contentOf fd = content

def Received (boundary : CString) (fd : Nat) (x : Bytes) (s : Session) : Prop :=
  ∃ n, n + (delimiter boundary).length ≤ x.length ∧ FirstAt (delimiter boundary) x n ∧
    ClosedFile fd (x.take n) s

section Files
variable (host : Host) {fd : Nat} {content : Bytes} {s : Session}

theorem ClosedFile.frame {t : Session} (closed : ClosedFile fd content s) (fp : t.fp = s.fp)
    (disk : t.disk = s.disk) : ClosedFile fd content t where
  fp := fp ▸ closed.fp
  made := disk ▸ closed.made
  content_eq := by rw [← closed.content_eq, Session.contentOf, Session.contentOf, disk]

theorem call_closed (k : Call) (closed : ClosedFile fd content s) :
    ((settings host).call k s).All (ClosedFile fd content) (fun _ => True) (fun _ _ => True) := by
  cases k with
  | headerField run =>
      exact (headerFieldCb_spec run s).mono (fun t frame => closed.frame frame.fp frame.disk)
        (fun _ _ => trivial) (fun _ _ _ => trivial)
  | headerValue run =>
      exact (headerValueCb_spec run s).mono (fun t frame => closed.frame frame.fp frame.disk)
        (fun _ _ => trivial) (fun _ _ _ => trivial)
  | headersComplete =>
      apply (headersCompleteCb_spec host s).mono
      · intro t done
        -- A file that is made here gets a number that no earlier file has.
        obtain ⟨name, -, kind⟩ := done.named
        rcases kind with ⟨fp, -, disk, -⟩ | ⟨path, file, fp, disk, -⟩
        · exact {
            fp := by simp [fp]
            made := disk ▸ closed.made
            content_eq := by rw [← closed.content_eq, Session.contentOf, Session.contentOf, disk] }
        · exact {
            fp := by
              have := closed.made
              simp only [fp, ne_eq, Option.some.injEq]
              omega
            made := by
              have := closed.made
              simp only [disk, List.length_append]
              omega
            content_eq := by
              rw [← closed.content_eq, Session.contentOf, Session.contentOf, disk,
                List.getElem?_append_left closed.made] }
      · exact fun _ _ => trivial
      · exact fun _ _ _ => trivial
  | partData run =>
      simp only [Settings.call, settings, partDataCb]
      split_ifs
      · trivial
      split
      · next other opened =>
        split_ifs
        · trivial
        · -- The part that is open writes to another file.
          have ne : other ≠ fd := fun e => closed.fp (e ▸ opened)
          exact {
            fp := closed.fp
            made := by simpa using closed.made
            content_eq := by
              rw [← closed.content_eq, Session.contentOf]
              simp only [List.getElem?_modify_ne _ _ ne]
              rfl }
      · exact closed.frame rfl rfl
      · exact closed.frame rfl rfl
  | partDataBegin =>
      simp only [Settings.call, settings, partDataBeginCb, headersMapNew]
      split_ifs
      · trivial
      · exact closed.frame rfl rfl
  | partDataEnd =>
      simp only [Settings.call, settings, partDataEndCb]
      split
      · trivial
      split
      · split
        · trivial
        · exact ⟨by simp, closed.made, closed.content_eq⟩
      · split
        · trivial
        · exact closed.frame rfl rfl
      · exact closed.frame rfl rfl
  | bodyEnd => exact closed

theorem partData_open (run : Bytes) (file : OpenFile fd s) :
    ((settings host).call (.partData run) s).All
      (fun t => OpenFile fd t ∧ t.contentOf fd = s.contentOf fd ++ run) (fun _ => True)
      (fun _ _ => True) := by
  obtain ⟨name, entry, named, entry_eq⟩ := file.named
  apply (partDataCb_upload host run named file.fp).mono
  · rintro _ rfl
    refine ⟨⟨file.fp, ⟨name, entry, named, entry_eq⟩, by simpa using file.made⟩, ?_⟩
    simp [Session.contentOf, file.made, TempFile.write]
  · exact fun _ _ => trivial
  · exact fun _ _ _ => trivial

theorem partDataEnd_closes (file : OpenFile fd s) :
    ∃ t, (settings host).call .partDataEnd s = .ok t ∧ ClosedFile fd (s.contentOf fd) t := by
  obtain ⟨name, entry, named, entry_eq⟩ := file.named
  refine ⟨_, partDataEndCb_upload host named file.fp entry_eq, ?_⟩
  exact ⟨by simp, file.made, rfl⟩

end Files

section Bytes
variable (host : Host) {boundary : CString} {fd : Nat} {x : Bytes}

def Arrived (fd : Nat) (runs : List Bytes) (s : Session) : Prop := OpenFile fd s ∧ s.contentOf fd = runs.flatten

theorem receiving_iff {k : Config Session} :
    Receiving boundary fd x k ↔ ∃ runs, Scan boundary x runs k.parser k.pending ∧ Arrived fd runs k.data := by
  constructor
  · rintro ⟨intact, file, searching⟩
    have whole : [k.data.contentOf fd].flatten = k.data.contentOf fd := List.flatten_singleton
    exact ⟨[k.data.contentOf fd], ⟨intact, by rwa [whole], by simp⟩, file, whole.symm⟩
  · rintro ⟨runs, ⟨intact, searching, -⟩, file, content⟩
    exact ⟨intact, file, by rwa [content]⟩

theorem partData_arrives (runs : List Bytes) (run : Bytes) (s : Session) (arrived : Arrived fd runs s) :
    ((settings host).call (.partData run) s).All (Arrived fd (runs ++ [run])) (fun _ => True) (fun _ _ => True) := by
  apply (partData_open host run arrived.1).mono
  · rintro t ⟨file, content⟩
    exact ⟨file, by rw [content, arrived.2, List.flatten_append, List.flatten_singleton]⟩
  · exact fun _ h => h
  · exact fun _ _ h => h

theorem scans_received {runs : List Bytes} {fed : Fed} (scans : fed.Scans boundary x runs) {s : Session}
    (arrived : Arrived fd runs s) :
    (perform (settings host) fed s).All (fun k => Receiving boundary fd x k ∨ Received boundary fd x k.data)
      (fun _ => True) (fun _ _ => True) := by
  have ended (p : Parser) (t : Session) (found : Found boundary x runs p) (arrived : Arrived fd runs t) :
      ((settings host).call .partDataEnd t).All (Received boundary fd x) (fun _ => True) (fun _ _ => True) := by
    obtain ⟨left, same, closed⟩ := partDataEnd_closes host arrived.1
    rw [same]
    refine ⟨runs.flatten.length, by rw [found.split, List.length_append], found.first, ?_⟩
    rw [found.split, List.take_left, ← arrived.2]
    exact closed
  apply (perform_scans (partData_arrives host) ended scans arrived).mono
  · rintro k (scan | ⟨-, done⟩)
    · exact .inl (receiving_iff.2 scan)
    · exact .inr done
  · exact fun _ h => h
  · exact fun _ _ h => h

theorem step_receiving (nonempty : boundary ≠ .empty) (noCR : CR ∉ boundary.bytes) (c : UInt8)
    {k : Config Session} (receiving : Receiving boundary fd x k) :
    (step (settings host) c k).All
      (fun k => Receiving boundary fd (x ++ [c]) k ∨ Received boundary fd (x ++ [c]) k.data)
      (fun _ => True) (fun _ _ => True) := by
  obtain ⟨runs, scan, arrived⟩ := receiving_iff.1 receiving
  exact scans_received host (feed_scans nonempty noCR c scan) arrived

theorem flush_receiving {k : Config Session} (receiving : Receiving boundary fd x k) :
    (flush (settings host) k).All (fun r => Receiving boundary fd x ⟨r.1, [], r.2⟩) (fun _ => True)
      (fun _ _ => True) := by
  obtain ⟨runs, scan, arrived⟩ := receiving_iff.1 receiving
  exact (flush_scan (partData_arrives host) scan arrived).mono (fun r scan => receiving_iff.2 scan)
    (fun _ h => h) (fun _ _ h => h)

theorem calls_closed {content : Bytes} {s : Session} (calls : List Call) (closed : ClosedFile fd content s) :
    ((settings host).calls calls s).All (ClosedFile fd content) (fun _ => True) (fun _ _ => True) :=
  Outcome.All.sequence (fun k _ => call_closed host k) calls closed

theorem step_received {c : UInt8} {k : Config Session} (received : Received boundary fd x k.data) :
    (step (settings host) c k).All (fun k => Received boundary fd (x ++ [c]) k.data) (fun _ => True)
      (fun _ _ => True) := by
  obtain ⟨n, fits, first, closed⟩ := received
  unfold step perform
  cases k.parser.feed k.pending c with
  | refused => trivial
  | outOfBlock calls => exact (calls_closed host calls closed).bind fun _ _ => trivial
  | next calls p pending =>
      apply (calls_closed host calls closed).map
      intro s closed'
      refine ⟨n, by rw [List.length_append]; omega, first.append fits [c], ?_⟩
      rwa [List.take_append_of_le_length (by omega)]

theorem flush_received {k : Config Session} (received : Received boundary fd x k.data) :
    (flush (settings host) k).All (fun r => Received boundary fd x r.2) (fun _ => True)
      (fun _ _ => True) := by
  obtain ⟨n, fits, first, closed⟩ := received
  exact (calls_closed host _ closed).map fun _ closed' => ⟨n, fits, first, closed'⟩

theorem first_receiving {p : Parser} {s opened : Session} (intact : Intact boundary p)
    (state : p.state = .partDataStart) (complete : headersCompleteCb host s = .ok opened)
    (upload : opened.fp = some fd) (c : UInt8) (pending : Bytes) :
    (step (settings host) c ⟨p, pending, s⟩).All
      (fun k => Receiving boundary fd [c] k ∨ Received boundary fd [c] k.data) (fun _ => True) (fun _ _ => True) := by
  have done := (headersCompleteCb_spec host s).of_ok complete
  obtain ⟨name, named, ⟨closed, -⟩ | ⟨path, file, fresh, disk, files, -⟩⟩ := done.named
  · simp [closed] at upload
  obtain rfl : s.disk.length = fd := Option.some.inj (fresh.symm.trans upload)
  have file : OpenFile s.disk.length opened := ⟨upload, ⟨name, _, named, by rw [files, Members.set_same]⟩,
    by simp [disk]⟩
  simp only [step, Parser.feed, state]
  rw [perform_feedPartData_cons]
  change (Outcome.bind (headersCompleteCb host s) _).All _ _ _
  rw [complete, Outcome.ok_bind]
  exact scans_received host (start_scans intact c) ⟨file, by simp [Session.contentOf, disk]⟩

end Bytes

def reached (host : Host) (boundary : CString) (chunks : List Bytes) (n : Nat) :
    Outcome Stop Session (Parser × Session) :=
  executeChunks (settings host) (takeBytes n chunks) (multipartParserInit boundary, .init)

/-- Behind byte `n` the headers of a part with a file name have ended, and its temp file is `fd`. -/
def UploadBegins (host : Host) (boundary : CString) (chunks : List Bytes) (n fd : Nat) : Prop :=
  ∃ p s opened, reached host boundary chunks n = .ok (p, s) ∧ p.state = .partDataStart ∧
    headersCompleteCb host s = .ok opened ∧ opened.fp = some fd

def Along (boundary : CString) (fd : Nat) (start : Parser × Session) (x : Bytes) (k : Config Session) :
    Prop :=
  x = [] ∧ k.parser = start.1 ∧ k.data = start.2 ∨ Receiving boundary fd x k ∨
    Received boundary fd x k.data

theorem along_data {host : Host} {boundary : CString} {fd : Nat} {p : Parser} {s opened : Session}
    (nonempty : boundary ≠ .empty) (noCR : CR ∉ boundary.bytes) (intact : Intact boundary p)
    (state : p.state = .partDataStart) (complete : headersCompleteCb host s = .ok opened)
    (upload : opened.fp = some fd) (chunks : List Bytes) :
    (executeChunks (settings host) chunks (p, s)).All
      (fun r => Along boundary fd (p, s) chunks.flatten ⟨r.1, [], r.2⟩) (fun _ => True)
      (fun _ _ => True) := by
  apply executeChunks_along (settings host) (I := Along boundary fd (p, s)) _ _ chunks (p, s) []
    (.inl ⟨rfl, rfl, rfl⟩)
  · rintro x c k (⟨rfl, hp, hs⟩ | receiving | received)
    · obtain ⟨p', pending, s'⟩ := k
      obtain rfl : p' = p := hp
      obtain rfl : s' = s := hs
      exact (first_receiving host intact state complete upload c pending).mono (fun _ h => .inr h)
        (fun _ h => h) (fun _ _ h => h)
    · exact (step_receiving host nonempty noCR c receiving).mono (fun _ h => .inr h) (fun _ h => h)
        (fun _ _ h => h)
    · exact (step_received host received).mono (fun _ h => .inr (.inr h)) (fun _ h => h) (fun _ _ h => h)
  · rintro x k (⟨rfl, hp, hs⟩ | receiving | received)
    · have quiet : k.parser.pendingCalls k.pending = [] := by
        simp [Parser.pendingCalls, hp, state]
      rw [flush, quiet]
      exact .inl ⟨rfl, hp, hs⟩
    · exact (flush_receiving host receiving).mono (fun _ h => .inr (.inl h)) (fun _ h => h) (fun _ _ h => h)
    · exact (flush_received host received).mono (fun _ h => .inr (.inr h)) (fun _ h => h) (fun _ _ h => h)

theorem upload_fidelity (host : Host) {boundary : CString} (nonempty : boundary ≠ .empty)
    (noCR : CR ∉ boundary.bytes) (chunks : List Bytes) {n m fd : Nat}
    (begins : UploadBegins host boundary chunks n fd) (later : n < m) (le : m ≤ chunks.flatten.length)
    {p : Parser} {s : Session} (run : reached host boundary chunks m = .ok (p, s))
    (closed : s.fp ≠ some fd) :
    ∃ length, n + length + (delimiter boundary).length ≤ m ∧
      FirstAt (delimiter boundary) (chunks.flatten.drop n) length ∧
        s.contentOf fd = (chunks.flatten.drop n).take length := by
  obtain ⟨p₀, s₀, opened, before, state, complete, upload⟩ := begins
  have quiet : p₀.Quiet := by simp [Parser.Quiet, state]
  have intact := (executeChunks_intact (settings_inside host) nonempty _ _).of_ok before
  have data : (takeBytes (m - n) (dropBytes n chunks)).flatten = (chunks.flatten.drop n).take (m - n) := by
    rw [flatten_takeBytes, flatten_dropBytes]
  have size : ((chunks.flatten.drop n).take (m - n)).length = m - n := by
    rw [List.length_take, List.length_drop]
    omega
  rw [reached, executeChunks_split n m later.le quiet before] at run
  have along := (along_data nonempty noCR intact state complete upload _).of_ok run
  rw [data] at along
  rcases along with ⟨empty, -⟩ | receiving | ⟨length, fits, first, file⟩
  · rw [empty, List.length_nil] at size
    omega
  · exact absurd receiving.file.fp closed
  · rw [size] at fits
    refine ⟨length, by omega, ?_, ?_⟩
    · have longer := first.append (by omega) ((chunks.flatten.drop n).drop (m - n))
      rwa [List.take_append_drop] at longer
    · rw [file.content_eq, List.take_take, Nat.min_eq_left (by omega)]

def falseStarts : List Bytes :=
  [ascii "--b\r\nContent-Disposition: form-data; name=f; filename=x\r\nContent-Type: t\r\n\r\n\r\r\n-",
    ascii "-\r\n--", ascii "b--"]

theorem falseStarts_begins : UploadBegins plainHost (.lit "--b") falseStarts 76 0 := by
  have evaluated : ((reached plainHost (.lit "--b") falseStarts 76).result?.bind fun r =>
      (headersCompleteCb plainHost r.2).result?.map fun opened => (r.1.state, opened.fp)) =
        some (.partDataStart, some 0) := by
    decide +kernel
  obtain ⟨⟨p, s⟩, run, completed⟩ := Option.bind_eq_some_iff.1 evaluated
  obtain ⟨opened, complete, e⟩ := Option.map_eq_some_iff.1 completed
  obtain ⟨state, upload⟩ := Prod.mk.inj e
  exact ⟨p, s, opened, Outcome.result?_eq_some.1 run, state, Outcome.result?_eq_some.1 complete, upload⟩

theorem falseStarts_fidelity : ∃ p s, reached plainHost (.lit "--b") falseStarts 88 = .ok (p, s) ∧
    ∃ length, 76 + length + (delimiter (.lit "--b")).length ≤ 88 ∧
      FirstAt (delimiter (.lit "--b")) (falseStarts.flatten.drop 76) length ∧
        s.contentOf 0 = (falseStarts.flatten.drop 76).take length := by
  have evaluated : (reached plainHost (.lit "--b") falseStarts 88).result?.map (fun r => r.2.fp) =
      some none := by
    decide +kernel
  obtain ⟨⟨p, s⟩, run, closed⟩ := Option.map_eq_some_iff.1 evaluated
  have ok := Outcome.result?_eq_some.1 run
  change s.fp = none at closed
  refine ⟨p, s, ok, ?_⟩
  exact upload_fidelity plainHost (by decide +kernel) (by decide +kernel) falseStarts falseStarts_begins
    (by decide) (by decide +kernel) ok (by simp [closed])

end HvmlFpm.Multipart
