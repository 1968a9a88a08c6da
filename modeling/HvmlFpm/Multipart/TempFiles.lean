import HvmlFpm.Multipart.Reading
import HvmlFpm.Multipart.Sizes

/-!
# Temp files and the entries that name them

Every upload gets a temp file before it is clear that it gets an entry in `files`.
-/

namespace HvmlFpm.Multipart
open Library

def tmpName (files : Members) (key : CString) : Option (Option Variant) :=
  (files key).map (·.member (.lit "tmp_name"))

def NoOrphans (files : Members) (disk : List TempFile) : Prop :=
  ∀ path, (∃ file ∈ disk, file.name = path) ↔
    ∃ key entry, files key = some entry ∧ entry.member (.lit "tmp_name") = some (.string path)

/-- `mkstemp` makes a file that does not exist yet, under a name that PurC takes for a string. -/
structure Host.MakesTempFiles (host : Host) : Prop where
  fresh : ∀ n m path, host.mkstemp n = some path → host.mkstemp m = some path → n = m
  isUtf8 : ∀ n path, host.mkstemp n = some path → host.purc.isUtf8 path = true

def uploadOf (s : Session) : Option (Kvlist × CString) :=
  (fileHeader s).result?.bind fun s => s.headers.bind fun headers =>
    (kvlistGet headers (.lit "Content-Disposition")).bind fun contentDisposition =>
      if strStartsWith contentDisposition (.lit "form-data;") then
        (attrsMapParse .init (contentDisposition.drop 10)).bind fun attrs =>
          (kvlistGet attrs (.lit "name")).bind fun name =>
            (kvlistGet attrs (.lit "filename")).map fun _ => (headers, name)
      else none

/-- The temp file of an upload gets an entry, and takes nobody else's. -/
def Kept (host : Host) (s : Session) : Prop :=
  ∀ headers name, uploadOf s = some (headers, name) → (host.mkstemp s.disk.length).isSome →
    host.fdopen s.disk.length = true ∧ (kvlistGet headers (.lit "Content-Type")).isSome ∧ s.files name = none

@[ext] structure Names where
  disk : List CString
  files : CString → Option (Option Variant)

def Session.names (s : Session) : Names := ⟨s.disk.map TempFile.name, tmpName s.files⟩

def Names.upload (names : Names) (name path : CString) (entered : Bool) : Names :=
  ⟨names.disk ++ [path], if entered then Function.update names.files name (some (some (.string path))) else names.files⟩

def Made (host : Host) (s t : Session) : Prop :=
  match uploadOf s, host.mkstemp s.disk.length with
  | some (headers, name), some path =>
      t.names = s.names.upload name path
        (host.fdopen s.disk.length && (kvlistGet headers (.lit "Content-Type")).isSome)
  | _, _ => t.names = s.names

section Callbacks
variable {host : Host}

theorem fileObject_tmpName {filename contentType path : CString} {file : Members}
    (utf8 : host.purc.isUtf8 path = true) (made : fileObject host.purc filename contentType path = some file) :
    file (.lit "tmp_name") = some (.string path) := by
  obtain ⟨front, -, last⟩ := Option.bind_eq_some_iff.1 made
  rw [Purc.makeString, if_pos utf8] at last
  cases last
  exact Members.set_same ..

theorem tmpName_set (files : Members) (name : CString) (entry : Variant) :
    tmpName (files.set name entry) =
      Function.update (tmpName files) name (some (entry.member (.lit "tmp_name"))) := by
  funext key
  by_cases same : key = name
  · subst same
    simp [tmpName]
  · simp [tmpName, Members.set_other _ _ same, Function.update_of_ne same]

theorem openUpload_names (makes : host.MakesTempFiles) (headers : Kvlist) (name filename : CString) (s : Session) :
    (openUpload host headers name filename s).All
      (fun t => ∃ path, host.mkstemp s.disk.length = some path ∧ t.names = s.names.upload name path true ∧
        host.fdopen s.disk.length = true ∧ (kvlistGet headers (.lit "Content-Type")).isSome = true)
      (fun t => host.mkstemp s.disk.length = none ∧ t.names = s.names ∨
        ∃ path, host.mkstemp s.disk.length = some path ∧ t.names = s.names.upload name path false ∧
          (host.fdopen s.disk.length && (kvlistGet headers (.lit "Content-Type")).isSome) = false)
      (fun _ _ => True) := by
  unfold openUpload
  cases made : host.mkstemp s.disk.length with
  | none => exact .inl ⟨rfl, rfl⟩
  | some path =>
      simp only
      cases opened : host.fdopen s.disk.length with
      | false => exact .inr ⟨path, rfl, by simp [Session.names, Names.upload], rfl⟩
      | true =>
          simp only [Bool.not_true, Bool.false_eq_true, if_false]
          cases typed : kvlistGet headers (.lit "Content-Type") with
          | none => exact .inr ⟨path, rfl, by simp [Session.names, Names.upload], rfl⟩
          | some contentType =>
              simp only
              cases object : fileObject host.purc filename contentType path with
              | none => trivial
              | some file =>
                  have entry := fileObject_tmpName (makes.isUtf8 _ _ made) object
                  refine ⟨path, rfl, ?_, trivial, rfl⟩
                  simp [Session.names, Names.upload, tmpName_set, Variant.member, entry]

theorem HeaderFrame.names {s t : Session} (frame : HeaderFrame s t) : t.names = s.names := by
  rw [Session.names, Session.names, frame.disk, frame.files]

theorem headersMapDelete_names (s : Session) :
    (headersMapDelete s).All (fun t => t.names = s.names) (fun _ => False) (fun _ _ => True) := by
  unfold headersMapDelete
  split_ifs
  · trivial
  · exact rfl

theorem headersComplete_made (makes : host.MakesTempFiles) (s : Session) :
    (headersCompleteCb host s).All (Made host s) (Made host s) (fun _ _ => True) := by
  have filed := fileHeader_spec s
  unfold headersCompleteCb Made uploadOf
  cases filing : fileHeader s with
  | fail t => rw [filing] at filed; exact filed.elim
  | stop why t => trivial
  | ok t =>
      rw [filing] at filed
      have frame : HeaderFrame s t := filed
      simp only [Outcome.ok_bind, Outcome.result?, Option.bind_some]
      cases headers : t.headers with
      | none => trivial
      | some map =>
          simp only [Option.bind_some]
          cases disposition : kvlistGet map (.lit "Content-Disposition") with
          | none => exact frame.names
          | some contentDisposition =>
              simp only [Option.bind_some]
              split_ifs
              · cases attributes : attrsMapParse .init (contentDisposition.drop 10) with
                | none => trivial
                | some attrs =>
                    simp only [Option.bind_some]
                    cases fieldName : kvlistGet attrs (.lit "name") with
                    | none => exact frame.names
                    | some name =>
                        simp only [Option.bind_some]
                        cases fileName : kvlistGet attrs (.lit "filename") with
                        | none =>
                            apply (headersMapDelete_names _).mono
                            · intro u deleted
                              have unchanged : u.names = t.names := by
                                rw [deleted]
                                rfl
                              exact unchanged.trans frame.names
                            · exact fun _ h => h.elim
                            · exact fun _ _ _ => trivial
                        | some filename =>
                            simp only [Option.map_some]
                            rw [← frame.names, ← frame.disk]
                            have opened := openUpload_names makes map name (strSanitize filename) t
                            refine Outcome.All.bind (opened.mono (fun _ h => h) ?_ fun _ _ h => h) ?_
                            · rintro u (⟨unmade, same⟩ | ⟨path, made, names, refused⟩)
                              · simp only [unmade]
                                exact same
                              · simp only [made, refused]
                                exact names
                            · rintro u ⟨path, made, names, fdopen, typed⟩
                              apply (headersMapDelete_names _).mono
                              · intro v deleted
                                simp only [made, fdopen, typed]
                                exact deleted.trans names
                              · exact fun _ h => h.elim
                              · exact fun _ _ h => h
              · exact frame.names

theorem setSize_tmpName (entry : Variant) (size : Nat) :
    (setSize entry size).member (.lit "tmp_name") = entry.member (.lit "tmp_name") := by
  cases entry with
  | object file => exact Members.set_other _ _ (by decide +kernel)
  | _ => rfl

theorem call_names {k : Call} (other : k ≠ .headersComplete) (s : Session) :
    ((settings host).call k s).All (fun t => t.names = s.names) (fun t => t.names = s.names) (fun _ _ => True) := by
  cases k with
  | headerField run =>
      exact (headerFieldCb_spec run s).mono (fun _ frame => frame.names) (fun _ h => h.elim) (fun _ _ _ => trivial)
  | headerValue run =>
      exact (headerValueCb_spec run s).mono (fun _ frame => frame.names) (fun _ frame => frame.names) (fun _ _ _ => trivial)
  | headersComplete => exact absurd rfl other
  | partData run =>
      have written (fd n : Nat) : (s.disk.modify fd (·.write (run.take n))).map TempFile.name = s.disk.map TempFile.name := by
        apply List.ext_getElem?
        intro m
        rw [List.getElem?_map, List.getElem?_map, List.getElem?_modify]
        split_ifs
        · cases s.disk[m]? <;> rfl
        · simp
      change (partDataCb host run s).All _ _ _
      unfold partDataCb
      split_ifs
      · trivial
      · split
        · simp only
          split_ifs
          · exact Names.ext (written _ _) rfl
          · exact Names.ext (written _ _) rfl
        · exact rfl
        · exact rfl
  | partDataBegin =>
      change (headersMapNew s).All _ _ _
      unfold headersMapNew
      split_ifs
      · trivial
      · exact rfl
  | partDataEnd =>
      change (partDataEndCb host s).All _ _ _
      unfold partDataEndCb
      split
      · trivial
      next name _ =>
      split
      · split
        · trivial
        next file entry =>
        have same : tmpName (s.files.set name (setSize file s.dataLen)) = tmpName s.files := by
          rw [tmpName_set, setSize_tmpName, Function.update_eq_self_iff, tmpName, entry]
          rfl
        exact Names.ext rfl same
      · split
        · trivial
        · exact rfl
      · exact rfl
  | bodyEnd => exact rfl

end Callbacks

/-! ## Orphans -/

structure Filed (host : Host) (names : Names) : Prop where
  made : ∀ (n : Nat) path, names.disk[n]? = some path → host.mkstemp n = some path
  onDisk : ∀ key v, names.files key = some v → ∃ path ∈ names.disk, v = some (.string path)
  once : ∀ key key' v, names.files key = some v → names.files key' = some v → key = key'

def Names.Matched (names : Names) : Prop :=
  ∀ path, path ∈ names.disk ↔ ∃ key, names.files key = some (some (.string path))

theorem noOrphans_iff_matched (s : Session) : NoOrphans s.files s.disk ↔ s.names.Matched := by
  simp [NoOrphans, Names.Matched, Session.names, tmpName]

section Upload
variable {host : Host} {names : Names} {path : CString}

theorem init_filed (host : Host) : Filed host Session.init.names where
  made := by simp [Session.init, Session.names]
  onDisk := by simp [Session.init, Session.names, tmpName, Members.empty]
  once := by simp [Session.init, Session.names, tmpName, Members.empty]

theorem Filed.fresh (filed : Filed host names) (makes : host.MakesTempFiles)
    (made : host.mkstemp names.disk.length = some path) : path ∉ names.disk := by
  intro mem
  obtain ⟨n, bound, at_n⟩ := List.getElem_of_mem mem
  have earlier := filed.made n path (by rw [List.getElem?_eq_getElem bound, at_n])
  have same := makes.fresh _ _ _ earlier made
  omega

theorem Filed.path_onDisk (filed : Filed host names) {key : CString}
    (entry : names.files key = some (some (.string path))) : path ∈ names.disk := by
  obtain ⟨path', mem, same⟩ := filed.onDisk key _ entry
  cases same
  exact mem

theorem upload_files_same (names : Names) (name path : CString) :
    (names.upload name path true).files name = some (some (.string path)) :=
  Function.update_self ..

theorem upload_files_other (names : Names) {key name : CString} (path : CString) (entered : Bool) (other : key ≠ name) :
    (names.upload name path entered).files key = names.files key := by
  cases entered with
  | false => rfl
  | true => exact Function.update_of_ne other ..

theorem upload_files_cases {name key : CString} {entered : Bool} {v : Option Variant}
    (entry : (names.upload name path entered).files key = some v) :
    entered = true ∧ key = name ∧ v = some (.string path) ∨ names.files key = some v := by
  by_cases same : key = name
  · subst same
    cases entered with
    | false => exact .inr entry
    | true =>
        rw [upload_files_same] at entry
        exact .inl ⟨rfl, rfl, (Option.some.inj entry).symm⟩
  · rw [upload_files_other names path entered same] at entry
    exact .inr entry

theorem Filed.upload (filed : Filed host names) (makes : host.MakesTempFiles)
    (made : host.mkstemp names.disk.length = some path) (name : CString) (entered : Bool) :
    Filed host (names.upload name path entered) := by
  have fresh := filed.fresh makes made
  constructor
  · intro n path' at_n
    rcases Nat.lt_trichotomy n names.disk.length with lt | same | gt
    · apply filed.made n path'
      rwa [Names.upload, List.getElem?_append_left lt] at at_n
    · subst same
      simp only [Names.upload, List.getElem?_concat_length, Option.some.injEq] at at_n
      exact at_n ▸ made
    · rw [Names.upload, List.getElem?_eq_none (by simp; omega)] at at_n
      cases at_n
  · intro key v entry
    rcases upload_files_cases entry with ⟨-, -, rfl⟩ | entry
    · exact ⟨path, by simp [Names.upload], rfl⟩
    · obtain ⟨path', mem, same⟩ := filed.onDisk key v entry
      exact ⟨path', List.mem_append_left _ mem, same⟩
  · intro key key' v entry entry'
    rcases upload_files_cases entry with ⟨-, rfl, rfl⟩ | old
    · rcases upload_files_cases entry' with ⟨-, rfl, -⟩ | old'
      · rfl
      · exact absurd (filed.path_onDisk old') fresh
    · rcases upload_files_cases entry' with ⟨-, rfl, rfl⟩ | old'
      · exact absurd (filed.path_onDisk old) fresh
      · exact filed.once key key' v old old'

theorem matched_upload (filed : Filed host names) (makes : host.MakesTempFiles)
    (made : host.mkstemp names.disk.length = some path) (name : CString) (entered : Bool) :
    (names.upload name path entered).Matched ↔ names.Matched ∧ entered = true ∧ names.files name = none := by
  have fresh := filed.fresh makes made
  constructor
  · intro matched
    obtain ⟨key, entry⟩ := (matched path).1 (by simp [Names.upload])
    rcases upload_files_cases entry with ⟨rfl, rfl, -⟩ | entry
    · have named {path'} (mem : path' ∈ names.disk) : ∃ key' ≠ key, names.files key' = some (some (.string path')) := by
        obtain ⟨key', entry'⟩ := (matched path').1 (List.mem_append_left _ mem)
        have other : key' ≠ key := by
          rintro rfl
          rw [upload_files_same] at entry'
          cases entry'
          exact fresh mem
        rw [upload_files_other names path true other] at entry'
        exact ⟨key', other, entry'⟩
      refine ⟨fun path' => ⟨?_, ?_⟩, rfl, ?_⟩
      · intro mem
        obtain ⟨key', -, entry'⟩ := named mem
        exact ⟨key', entry'⟩
      · rintro ⟨key', entry'⟩
        exact filed.path_onDisk entry'
      · -- The entry that stood there was the only one of its temp file.
        rw [Option.eq_none_iff_forall_ne_some]
        intro v before
        obtain ⟨path', mem, rfl⟩ := filed.onDisk key v before
        obtain ⟨key', other, entry'⟩ := named mem
        exact other (filed.once key' key _ entry' before)
    · exact absurd (filed.path_onDisk entry) fresh
  · rintro ⟨matched, rfl, free⟩ path'
    change path' ∈ names.disk ++ [path] ↔ _
    rw [List.mem_append, List.mem_singleton, matched path']
    constructor
    · rintro (⟨key, entry⟩ | rfl)
      · have other : key ≠ name := by
          rintro rfl
          rw [free] at entry
          cases entry
        exact ⟨key, by rw [upload_files_other names path true other, entry]⟩
      · exact ⟨name, upload_files_same ..⟩
    · rintro ⟨key, entry⟩
      rcases upload_files_cases entry with ⟨-, -, same⟩ | old
      · cases same
        exact .inr rfl
      · exact .inl ⟨key, old⟩

theorem Made.matched {s t : Session} (made : Made host s t) (filed : Filed host s.names) (makes : host.MakesTempFiles) :
    Filed host t.names ∧ (t.names.Matched ↔ s.names.Matched ∧ Kept host s) := by
  have length : s.names.disk.length = s.disk.length := List.length_map ..
  have entry (name : CString) : s.names.files name = none ↔ s.files name = none := Option.map_eq_none_iff
  unfold Made at made
  unfold Kept
  cases upload : uploadOf s with
  | none =>
      rw [upload] at made
      simp [made, filed]
  | some found =>
      obtain ⟨headers, name⟩ := found
      cases making : host.mkstemp s.disk.length with
      | none =>
          rw [upload, making] at made
          simp [made, filed]
      | some path =>
          rw [upload, making] at made
          rw [← length] at making
          rw [made]
          refine ⟨filed.upload makes making name _, ?_⟩
          rw [matched_upload filed makes making, entry, Bool.and_eq_true]
          constructor
          · rintro ⟨matched, ⟨opened, typed⟩, free⟩
            refine ⟨matched, ?_⟩
            intro headers' name' same _
            cases same
            exact ⟨opened, typed, free⟩
          · rintro ⟨matched, kept⟩
            obtain ⟨opened, typed, free⟩ := kept headers name rfl rfl
            exact ⟨matched, ⟨opened, typed⟩, free⟩

end Upload

/-! ## Whole runs -/

section Run
variable {host : Host}

def UploadsKept (host : Host) (log : List (Call × Session)) : Prop :=
  ∀ s, (.headersComplete, s) ∈ log → Kept host s

structure Tracked (host : Host) (t : Traced Session) : Prop where
  filed : Filed host t.state.names
  matched : t.state.names.Matched ↔ UploadsKept host t.log

theorem call_tracked (makes : host.MakesTempFiles) (k : Call) {t : Traced Session} (tracked : Tracked host t) :
    ((traced (settings host)).call k t).All (Tracked host) (Tracked host) (fun _ _ => True) := by
  obtain ⟨filed, matched⟩ := tracked
  by_cases complete : k = .headersComplete
  · subst complete
    have record {s : Session} (made : Made host t.state s) : Tracked host (t.record .headersComplete s) := by
      obtain ⟨filed', matched'⟩ := made.matched filed makes
      refine ⟨filed', matched'.trans ?_⟩
      rw [matched]
      simp [UploadsKept, Traced.record, or_imp, forall_and]
    exact traced_all (headersComplete_made makes t.state) (fun _ made => record made) (fun _ made => record made)
      (fun _ _ _ => trivial)
  · have record {s : Session} (same : s.names = t.state.names) : Tracked host (t.record k s) := by
      refine ⟨same ▸ filed, ?_⟩
      change s.names.Matched ↔ _
      rw [same, matched]
      simp [UploadsKept, Traced.record, Ne.symm complete]
    exact traced_all (call_names complete t.state) (fun _ same => record same) (fun _ same => record same)
      (fun _ _ _ => trivial)

theorem run_tracked (makes : host.MakesTempFiles) (boundary : CString) (chunks : List Bytes) :
    (executeChunks (traced (settings host)) chunks (multipartParserInit boundary, .start .init)).All
      (fun r => Tracked host r.2) (Tracked host) (fun _ _ => True) := by
  have start : Tracked host (.start .init) := by
    refine ⟨init_filed host, ?_⟩
    simp [Names.Matched, Traced.start, Session.init, Session.names, tmpName, Members.empty, UploadsKept]
  apply (executeChunks_rule (J := fun _ => Tracked host) (fun _ _ k _ _ tracked => call_tracked makes k tracked)
    (fun _ _ tracked => tracked) (fun _ _ _ => trivial) boundary chunks start).mono
  · rintro r ⟨-, -, tracked⟩
    exact tracked
  · exact fun _ tracked => tracked
  · exact fun _ _ _ => trivial

theorem run_noOrphans (makes : host.MakesTempFiles) (boundary : CString) (chunks : List Bytes) :
    (executeChunks (settings host) chunks (multipartParserInit boundary, .init)).All
      (fun r => NoOrphans r.2.files r.2.disk ↔ UploadsKept host (tracedRun host boundary chunks).log)
      (fun s => NoOrphans s.files s.disk ↔ UploadsKept host (tracedRun host boundary chunks).log) (fun _ _ => True) := by
  have law {s : Session} (tracked : Tracked host ⟨s, (tracedRun host boundary chunks).log⟩) :
      NoOrphans s.files s.disk ↔ UploadsKept host (tracedRun host boundary chunks).log := by
    rw [noOrphans_iff_matched]
    exact tracked.matched
  apply (tracedRun_all (I := fun _ => Tracked host) (run_tracked makes boundary chunks)).mono
  · exact fun _ tracked => law tracked
  · exact fun _ tracked => law tracked
  · exact fun _ _ _ => trivial

/-- What is on disk is what the entries name exactly where every upload of the run is kept. -/
theorem noOrphans_iff (host : Host) (makes : host.MakesTempFiles) (boundary : CString) :
    (∀ chunks, (executeChunks (settings host) chunks (multipartParserInit boundary, .init)).All
      (fun r => NoOrphans r.2.files r.2.disk ↔ UploadsKept host (tracedRun host boundary chunks).log)
      (fun s => NoOrphans s.files s.disk ↔ UploadsKept host (tracedRun host boundary chunks).log) (fun _ _ => True)) ∧
    ∀ contentLength stdin decoded, parseContentAsMultipartFormData host contentLength boundary stdin = .ok decoded →
      (NoOrphans decoded.files decoded.disk ↔ UploadsKept host (tracedRun host boundary (reads stdin)).log) := by
  refine ⟨run_noOrphans makes boundary, ?_⟩
  intro contentLength stdin decoded parsed
  exact parse_all (P := fun _ files disk => NoOrphans files disk ↔ _) (run_noOrphans makes boundary (reads stdin)) parsed

/-! An upload without a `Content-Type`. -/

def roomyHost : Host :=
  { plainHost with
    mkstemp := fun n => if n < 26 then some (.ofBuffer (ascii "/var/tmp/hvml-AAAAA" ++ [65 + n.toUInt8])) else none }

theorem roomyHost_makesTempFiles : roomyHost.MakesTempFiles where
  fresh := by
    intro n m path first second
    simp only [roomyHost, Option.ite_none_right_eq_some] at first second
    obtain ⟨small, made⟩ := first
    obtain ⟨small', made'⟩ := second
    have distinct : ∀ n < 26, ∀ m < 26, CString.ofBuffer (ascii "/var/tmp/hvml-AAAAA" ++ [65 + m.toUInt8]) =
        .ofBuffer (ascii "/var/tmp/hvml-AAAAA" ++ [65 + n.toUInt8]) → n = m := by
      decide +kernel
    exact distinct n small m small' (Option.some.inj (made'.trans made.symm))
  isUtf8 := fun _ _ _ => rfl

def untypedUpload : Bytes :=
  ascii "--b\r\nContent-Disposition: form-data; name=f; filename=x\r\n\r\nabc\r\n--b--\r\n"

theorem untypedUpload_noOrphans_iff :
    (executeChunks (settings roomyHost) [untypedUpload] (multipartParserInit (.lit "--b"), .init)).All
      (fun r => NoOrphans r.2.files r.2.disk ↔ UploadsKept roomyHost (tracedRun roomyHost (.lit "--b") [untypedUpload]).log)
      (fun s => NoOrphans s.files s.disk ↔ UploadsKept roomyHost (tracedRun roomyHost (.lit "--b") [untypedUpload]).log)
      (fun _ _ => True) :=
  (noOrphans_iff roomyHost roomyHost_makesTempFiles (.lit "--b")).1 [untypedUpload]

theorem untypedUpload_orphan : ∃ decoded,
    parseContentAsMultipartFormData roomyHost 71 (.lit "--b") untypedUpload = .ok decoded ∧
      ¬ NoOrphans decoded.files decoded.disk := by
  have one : reads untypedUpload = [untypedUpload] := reads_short (by decide +kernel)
  have lost : ∃ e ∈ (tracedRun roomyHost (.lit "--b") [untypedUpload]).log, e.1 = .headersComplete ∧
      (uploadOf e.2).map (fun found => kvlistGet found.1 (.lit "Content-Type")) = some none ∧
        (roomyHost.mkstemp e.2.disk.length).isSome = true := by
    decide +kernel
  have notKept : ¬ UploadsKept roomyHost (tracedRun roomyHost (.lit "--b") [untypedUpload]).log := by
    obtain ⟨⟨k, s⟩, mem, rfl, untyped, made⟩ := lost
    obtain ⟨⟨headers, name⟩, upload, absent⟩ := Option.map_eq_some_iff.1 untyped
    intro kept
    have typed := (kept s mem headers name upload made).2.1
    rw [absent] at typed
    cases typed
  have goes_on : (executeChunks (settings roomyHost) [untypedUpload] (multipartParserInit (.lit "--b"), .init)).stopped? =
      none := by
    decide +kernel
  rw [← one] at goes_on notKept
  obtain ⟨decoded, parsed⟩ := parse_returns goes_on
  have law := run_noOrphans roomyHost_makesTempFiles (.lit "--b") (reads untypedUpload)
  have matched := parse_all (P := fun _ files disk => NoOrphans files disk ↔ _) law parsed
  exact ⟨decoded, parsed, fun noOrphans => notKept (matched.1 noOrphans)⟩

end Run
end HvmlFpm.Multipart
