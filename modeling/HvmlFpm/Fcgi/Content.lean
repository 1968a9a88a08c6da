import HvmlFpm.Fcgi.Requests
import HvmlFpm.Request.MakeRequest

/-!
# The content of a request

The decoders of `hvml-executor.c` read the content of a request with `fread`, which is `FCGI_fread`. Over a stream of
records they get what `readContent` gets of the bytes.
-/

namespace HvmlFpm.Fcgi
open Library

section Content
variable {Vdom : Type} {request : Request} {type : UInt8} {r e : Reader} {bytes : Bytes} {c : Connection}

def readContentFrom (host : Request.RequestHost Vdom) (contentLength : Nat) (r : Reader) : Option CString × Reader :=
  if host.malloc (contentLength + 1) then
    let ((content, n), r) := fread fillBuffProc 1 contentLength r
    (if n = contentLength then some (.ofBuffer content) else none, r)
  else (none, r)

theorem fread_bytes (serves : r.Serves request type) (yields : Yields (getChar fillBuffProc) r bytes e)
    (contentLength : Nat) :
    (fread fillBuffProc 1 contentLength r).1 =
      (bytes.take (itemBytes 1 contentLength), (bytes.take (itemBytes 1 contentLength)).length) := by
  have holds : Holds fillBuffProc (Reader.Serves request type) e r ⟨bytes, r.isClosed⟩ := ⟨serves, yields, rfl⟩
  have answer : (fread fillBuffProc 1 contentLength r).1 = ((ReadCall.fread 1 contentLength).read ⟨bytes, r.isClosed⟩).1 :=
    (holds.perform (feeds_fillBuffProc request type) (.fread 1 contentLength)).1
  have taken (n : Nat) : (Unread.take ⟨bytes, r.isClosed⟩ n).1 = bytes.take n := by
    rw [Unread.take]
    by_cases within : n ≤ bytes.length
    · rw [if_pos within]
    · rw [if_neg within, List.take_of_length_le (Nat.le_of_not_le within)]
  rw [answer, ReadCall.read, ReadCall.asks, ReadCall.answers, taken, Nat.div_one]

theorem itemBytes_one (n : Nat) : itemBytes 1 n = (toInt n).toNat := by
  rw [itemBytes, Nat.one_mul, toInt]
  split_ifs with small
  · omega
  · omega

theorem readContentFrom_eq (serves : r.Serves request type) (yields : Yields (getChar fillBuffProc) r bytes e)
    (host : Request.RequestHost Vdom) (contentLength : Nat) :
    (readContentFrom host contentLength r).1 = Request.readContent host contentLength bytes := by
  rw [readContentFrom, Request.readContent]
  by_cases room : host.malloc (contentLength + 1) = true
  · have read := fread_bytes serves yields contentLength
    rw [itemBytes_one] at read
    rw [if_pos room, if_pos room]
    generalize fread fillBuffProc 1 contentLength r = x at read ⊢
    obtain ⟨⟨content, n⟩, r'⟩ := x
    dsimp only at read ⊢
    rw [(Prod.mk.inj read).1, (Prod.mk.inj read).2]
  · rw [if_neg room, if_neg room]

/-- Of a request that is sent in whatever records and pieces, the decoders get the input that was sent. -/
theorem submission_content (env : Settings) (request : Request) (sub : Submission)
    (arriving : c.arriving.flatten = encodeAll sub.records) :
    ∃ params z, tryRequest env request c = (some params, z) ∧
      ∀ (host : Request.RequestHost Vdom) (contentLength : Nat),
        (readContentFrom host contentLength z).1 = Request.readContent host contentLength sub.stdin := by
  obtain ⟨params, z, tried, -, between, ahead, -, -, skip, -⟩ := tryRequest_submission env request sub arriving
  have taken : demux (sub.begun request).requestId RecordType.stdin z.stack z.connection.ending z.skip
      (sub.input ++ [sub.inputEnd]) = ⟨sub.stdin, [], 0, true, sub.inputEnd.padding ++ encodeAll []⟩ := by
    rw [skip]
    exact demux_own sub.id (by decide) sub.input [] sub.input_of sub.inputEnd_of.1 sub.inputEnd_of.2
  obtain ⟨e, yields, -⟩ := demux_yields (sub.input ++ [sub.inputEnd]) between
    (.inr (congrArg Demuxed.replies taken)) ahead
  rw [taken] at yields
  exact ⟨params, z, tried, readContentFrom_eq between.serves yields⟩

theorem hi_submission_content :
    ∃ params z, tryRequest plainSettings ⟨0, 0, false, false, 0, 0⟩ hiConnection = (some params, z) ∧
      ∀ (host : Request.RequestHost Unit) (contentLength : Nat),
        (readContentFrom host contentLength z).1 = Request.readContent host contentLength hiSubmission.stdin :=
  submission_content plainSettings ⟨0, 0, false, false, 0, 0⟩ hiSubmission hiConnection_arriving

end Content

end HvmlFpm.Fcgi
