import HvmlFpm.Multipart.Parser
import HvmlFpm.Multipart.Attributes

/-!
# The multipart body processor

`mpart-body-processor.c`: the callbacks of the parser, and the loop that reads the body for it.
-/

namespace HvmlFpm.Multipart
open Library

structure TempFile where
  name : CString
  content : Bytes
deriving DecidableEq

/-- The libraries and the system below the processor. The `n`-th temp file gets what `mkstemp n` and
`fdopen n` answer; `fwrite n old buf` is how much of `buf` is written behind `old`. -/
structure Host where
  purc : Purc
  mkstemp : Nat → Option CString
  fdopen : Nat → Bool
  fwrite : Nat → Bytes → Bytes → Nat

/-- `struct mpart_body_processor`, and the temp files made so far; `fp` is a file by its number. -/
structure Session where
  post : Members
  files : Members
  headers : Option Kvlist
  lastHeaderName : Option CString
  lastHeaderNameLen : Nat
  lastHeaderValue : Option CString
  lastHeaderValueLen : Nat
  name : Option CString
  data : Option CString
  dataLen : Nat
  fp : Option Nat
  disk : List TempFile

def Session.init : Session :=
  { post := .empty, files := .empty, headers := none, lastHeaderName := none, lastHeaderNameLen := 0
    lastHeaderValue := none, lastHeaderValueLen := 0, name := none, data := none, dataLen := 0
    fp := none, disk := [] }

abbrev Step := Outcome Stop Session Session

def addNewHeader (s : Session) : Step :=
  match s.lastHeaderName, s.lastHeaderValue with
  | some name, some value =>
      match s.headers with
      | some headers =>
          .ok { s with headers := some (kvlistSet headers name value), lastHeaderName := none
                       lastHeaderValue := none, lastHeaderNameLen := 0, lastHeaderValueLen := 0 }
      | none => .stop .nullDereference s
  | _, _ => .stop (.assertion .addNewHeader) s

def fileHeader (s : Session) : Step :=
  if s.lastHeaderName.isSome ∧ s.lastHeaderValue.isSome then addNewHeader s else .ok s

def headerFieldCb (buf : Bytes) (s : Session) : Step :=
  (fileHeader s).map fun s =>
    match s.lastHeaderName with
    | none => { s with lastHeaderName := some (.ofBuffer buf), lastHeaderNameLen := buf.length }
    | some name =>
        { s with lastHeaderName := some (name ++ .ofBuffer buf)
                 lastHeaderNameLen := s.lastHeaderNameLen + buf.length }

def headerValueCb (buf : Bytes) (s : Session) : Step :=
  match s.lastHeaderName, s.lastHeaderValue with
  | none, _ => .fail s
  | some _, none =>
      .ok { s with lastHeaderValue := some (.ofBuffer buf), lastHeaderValueLen := buf.length }
  | some _, some value =>
      .ok { s with lastHeaderValue := some (value ++ .ofBuffer buf)
                   lastHeaderValueLen := s.lastHeaderValueLen + buf.length }

def headersMapNew (s : Session) : Step :=
  if s.headers.isSome then .stop (.assertion .headersMapNew) s
  else .ok { s with headers := some .init }

def headersMapDelete (s : Session) : Step :=
  if s.headers.isNone then .stop (.assertion .headersMapDelete) s
  else .ok { s with headers := none }

def fileObject (purc : Purc) (filename contentType path : CString) : Option Members :=
  ((purc.setByCkey (.lit "name") (purc.makeString filename) .empty).bind
    (purc.setByCkey (.lit "type") (purc.makeString contentType))).bind
    (purc.setByCkey (.lit "tmp_name") (purc.makeString path))

def openUpload (host : Host) (headers : Kvlist) (name filename : CString) (s : Session) : Step :=
  match host.mkstemp s.disk.length with
  | none => .fail s
  | some path =>
      let fd := s.disk.length
      let s : Session := { s with disk := s.disk ++ [⟨path, []⟩] }
      if !host.fdopen fd then .fail { s with fp := none }
      else
        let s := { s with fp := some fd }
        match kvlistGet headers (.lit "Content-Type") with
        | none => .fail s
        | some contentType =>
            match fileObject host.purc filename contentType path with
            | none => .stop .invalidVariant s
            | some file => .ok { s with files := s.files.set name (.object file) }

def headersCompleteCb (host : Host) (s : Session) : Step :=
  (fileHeader s).bind fun s =>
    match s.headers with
    | none => .stop .nullDereference s
    | some headers =>
        match kvlistGet headers (.lit "Content-Disposition") with
        | none => .fail s
        | some contentDisposition =>
            if strStartsWith contentDisposition (.lit "form-data;") then
              match attrsMapParse .init (contentDisposition.drop 10) with
              | none => .stop .nullDereference s
              | some attrs =>
                  match kvlistGet attrs (.lit "name") with
                  | none => .fail s
                  | some name =>
                      let named : Step :=
                        match kvlistGet attrs (.lit "filename") with
                        | some filename => openUpload host headers name (strSanitize filename) s
                        | none => .ok { s with post := s.post.set name .null, fp := none }
                      named.bind fun s => headersMapDelete { s with name := some name }
            else .fail s

def TempFile.write (file : TempFile) (buf : Bytes) : TempFile :=
  { file with content := file.content ++ buf }

def Session.contentOf (s : Session) (fd : Nat) : Bytes := (s.disk[fd]?.map TempFile.content).getD []

def partDataCb (host : Host) (buf : Bytes) (s : Session) : Step :=
  if s.name.isNone then .stop (.assertion .partDataName) s
  else
    match s.fp, s.data with
    | some fd, _ =>
        let n := host.fwrite fd (s.contentOf fd) buf
        let s := { s with disk := s.disk.modify fd (·.write (buf.take n)) }
        if n < buf.length then .fail s else .ok { s with dataLen := s.dataLen + buf.length }
    | none, none => .ok { s with data := some (.ofBuffer buf), dataLen := buf.length }
    | none, some data =>
        .ok { s with data := some (data ++ .ofBuffer buf), dataLen := s.dataLen + buf.length }

def partDataBeginCb (s : Session) : Step := headersMapNew s

def setSize (entry : Variant) (size : Nat) : Variant :=
  match entry with
  | .object file => .object (Members.set file (.lit "size") (.ulongint size))
  | v => v

def partDataEndCb (host : Host) (s : Session) : Step :=
  match s.name with
  | none => .stop (.assertion .partDataEndName) s
  | some name =>
      match s.fp, s.data with
      | some _, _ =>
          match s.files name with
          | none => .stop (.assertion .partDataEndFile) s
          | some file =>
              .ok { s with files := s.files.set name (setSize file s.dataLen), fp := none, name := none }
      | none, some data =>
          match host.purc.setByCkey name (host.purc.makeString data) s.post with
          | none => .stop .invalidVariant s
          | some post => .ok { s with post := post, data := none, name := none }
      | none, none => .ok { s with name := none }

def bodyEndCb (s : Session) : Step := .ok s

def settings (host : Host) : Settings Session where
  onHeaderField := headerFieldCb
  onHeaderValue := headerValueCb
  onPartData := partDataCb host
  onPartDataBegin := partDataBeginCb
  onHeadersComplete := headersCompleteCb host
  onPartDataEnd := partDataEndCb host
  onBodyEnd := bodyEndCb

def mpartBodyProcessorRelease (s : Session) : Step :=
  (if s.headers.isSome then headersMapDelete s else .ok s).map fun s =>
    { Session.init with disk := s.disk }

structure BodyRead where
  refused : Bool
  parser : Parser
  session : Session
  nrBytes : Nat

def readBody (host : Host) (p : Parser) (s : Session) (nrBytes : Nat) (stdin : Bytes) :
    Outcome Stop Session BodyRead :=
  match multipartParserExecute (settings host) p (stdin.take 256) s with
  | .stopped why s => .stop why s
  | .returned consumed p s =>
      if consumed < (stdin.take 256).length then .ok ⟨true, p, s, nrBytes⟩
      else if _full : (stdin.take 256).length < 256 then
        .ok ⟨false, p, s, nrBytes + (stdin.take 256).length⟩
      else readBody host p s (nrBytes + (stdin.take 256).length) (stdin.drop 256)
termination_by stdin.length
decreasing_by
  simp only [List.length_take, List.length_drop] at _full ⊢
  omega

/-- What the caller of `parse_content_as_multipart_form_data` gets; the function returns 0 however
the reading ended. -/
structure Decoded where
  post : Members
  files : Members
  disk : List TempFile
  /-- Logged, and not told to the caller. -/
  mismatched : Bool

def parseContentAsMultipartFormData (host : Host) (contentLength : Nat) (boundary : CString)
    (stdin : Bytes) : Outcome Stop Session Decoded :=
  (readBody host (multipartParserInit boundary) .init 0 stdin).bind fun result =>
    (mpartBodyProcessorRelease result.session).map fun s =>
      ⟨result.session.post, result.session.files, s.disk, result.nrBytes < contentLength⟩

def plainHost : Host :=
  { purc := { isUtf8 := fun _ => true, abortsOnInvalid := false }
    mkstemp := fun _ => some (.lit "/tmp/hvml-fpm-XXXXXX")
    fdopen := fun _ => true
    fwrite := fun _ _ buf => buf.length }

end HvmlFpm.Multipart
