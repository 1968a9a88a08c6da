import Mathlib.Data.List.Chain
import HvmlFpm.Fcgi.Demux

/-!
# Records of other requests

A connection may carry records of other requests between those of the request that is served. Their contents are
skipped. But the skipping of a record without content is only over behind the next content.
-/

namespace HvmlFpm.Fcgi
open Library

/-- A record that is neither of the request nor for the library. -/
def Record.Foreign (requestId : Nat) (record : Record) : Prop :=
  record.requestId ≠ requestId ∧ record.requestId ≠ 0 ∧ record.type ≠ RecordType.beginRequest

def Record.Data (type : UInt8) (requestId : Nat) (record : Record) : Prop :=
  record.Of type requestId ∧ record.content ≠ []

/-- A record of another request without content, and one of the request directly behind it. -/
def Swallows (requestId : Nat) (x y : Record) : Prop :=
  x.requestId ≠ requestId ∧ x.content = [] ∧ y.requestId = requestId

def ownContent (requestId : Nat) (records : List Record) : Bytes :=
  (records.filter (·.requestId = requestId)).flatMap Record.content

def keptContent (requestId : Nat) : Bool → List Record → Bytes
  | _, [] => []
  | skip, record :: records =>
      if record.requestId = requestId then (if skip then [] else record.content) ++ keptContent requestId false records
      else keptContent requestId (decide (record.content = [])) records

section Foreign
variable {requestId : Nat} {type : UInt8} {stack : Nat → UInt8} {ending : Ending}

theorem demux_mixed {last : Record} (some : requestId ≠ 0) (stream : type ≠ RecordType.beginRequest) (skip : Bool)
    (body later : List Record) (mixed : ∀ record ∈ body, record.Data type requestId ∨ record.Foreign requestId)
    (ends : last.Of type requestId) (none : last.content = []) :
    demux requestId type stack ending skip (body ++ last :: later) =
      ⟨keptContent requestId skip body, [], 0, true, last.padding ++ encodeAll later⟩ := by
  induction body generalizing skip with
  | nil =>
      obtain ⟨type_eq, id_eq⟩ := ends
      rw [List.nil_append, demux]
      simp [type_eq, id_eq, some, stream, none, Demuxed.stop, keptContent]
  | cons record body ih =>
      have rest (skip : Bool) := ih skip fun record member => mixed record (List.mem_cons_of_mem _ member)
      rw [List.cons_append, demux, keptContent]
      rcases mixed record List.mem_cons_self with ⟨⟨type_eq, id_eq⟩, content⟩ | ⟨other, management, begins⟩
      · simp [type_eq, id_eq, some, stream, content, rest, Demuxed.give]
      · simp [begins, management, other, rest]

theorem keptContent_sublist (requestId : Nat) (skip : Bool) (records : List Record) :
    (keptContent requestId skip records).Sublist (ownContent requestId records) := by
  induction records generalizing skip with
  | nil => exact List.nil_sublist []
  | cons record records ih =>
      rw [keptContent, ownContent]
      by_cases own : record.requestId = requestId
      · rw [if_pos own, List.filter_cons_of_pos (by simpa using own), List.flatMap_cons]
        refine List.Sublist.append ?_ (ih false)
        split_ifs
        · exact List.nil_sublist _
        · exact List.Sublist.refl _
      · rw [if_neg own, List.filter_cons_of_neg (by simpa using own)]
        exact ih _

theorem keptContent_eq (skip : Bool) (body : List Record)
    (mixed : ∀ record ∈ body, record.Data type requestId ∨ record.Foreign requestId) :
    keptContent requestId skip body = ownContent requestId body ↔
      (skip = true → ∀ record ∈ body.head?, record.requestId ≠ requestId) ∧
        body.IsChain fun x y => ¬ Swallows requestId x y := by
  induction body generalizing skip with
  | nil => simp [keptContent, ownContent]
  | cons record body ih =>
      have rest (skip : Bool) := ih skip fun record member => mixed record (List.mem_cons_of_mem _ member)
      rw [List.isChain_cons, keptContent, ownContent]
      rcases mixed record List.mem_cons_self with ⟨⟨-, own⟩, content⟩ | ⟨other, -, -⟩
      · rw [if_pos own, List.filter_cons_of_pos (by simpa using own), List.flatMap_cons]
        have harmless : ∀ y ∈ body.head?, ¬ Swallows requestId record y := fun y _ swallows => swallows.1 own
        cases skip with
        | true =>
            have short := (keptContent_sublist requestId false body).length_le
            constructor
            · intro same
              have lengths := congrArg List.length same
              rw [if_pos rfl, List.nil_append, List.length_append] at lengths
              rw [ownContent] at short
              have pos := List.length_pos_iff.2 content
              omega
            · intro ⟨alone, _⟩
              exact absurd own (alone rfl record rfl)
        | false =>
            rw [if_neg Bool.false_ne_true, List.append_cancel_left_eq]
            have later := rest false
            rw [ownContent] at later
            rw [later]
            exact ⟨fun ⟨_, chain⟩ => ⟨fun idle => absurd idle Bool.false_ne_true, harmless, chain⟩,
              fun ⟨_, _, chain⟩ => ⟨fun idle => absurd idle Bool.false_ne_true, chain⟩⟩
      · rw [if_neg other, List.filter_cons_of_neg (by simpa using other)]
        have later := rest (decide (record.content = []))
        rw [ownContent] at later
        rw [later]
        constructor
        · intro ⟨alone, chain⟩
          refine ⟨fun _ first member => ?_, fun y member swallows => ?_, chain⟩
          · obtain rfl := Option.mem_some.1 member
            exact other
          · exact alone (decide_eq_true swallows.2.1) y member swallows.2.2
        · intro ⟨_, harmless, chain⟩
          exact ⟨fun empty y member own => harmless y member ⟨other, of_decide_eq_true empty, own⟩, chain⟩

/-- Between the records of other requests the application finds what was sent for its own, unless a record of theirs
without content is directly before one of its own. -/
theorem foreign_records {request : Request} {r : Reader} {last : Record} (body later : List Record)
    (between : r.Between request type) (taken : r.skip = false) (some : request.requestId ≠ 0)
    (stream : type ≠ RecordType.beginRequest) (ahead : r.ahead = encodeAll (body ++ last :: later))
    (mixed : ∀ record ∈ body, record.Data type request.requestId ∨ record.Foreign request.requestId)
    (ends : last.Of type request.requestId) (none : last.content = []) :
    ∃ bytes e, Yields (getChar fillBuffProc) r bytes e ∧ e.errno = 0 ∧ e.connection.written = r.connection.written ∧
      e.ahead = last.padding ++ encodeAll later ∧ bytes.Sublist (ownContent request.requestId body) ∧
      (bytes = ownContent request.requestId body ↔ body.IsChain fun x y => ¬ Swallows request.requestId x y) := by
  have whole : demux request.requestId type r.stack r.connection.ending r.skip (body ++ last :: later) = _ :=
    demux_mixed some stream r.skip body later mixed ends none
  obtain ⟨e, yields, left⟩ := demux_yields _ between (.inr (congrArg Demuxed.replies whole)) ahead
  rw [whole, taken] at yields left
  refine ⟨_, e, yields, left.errno, left.written.trans (List.append_nil _), left.rest rfl, keptContent_sublist _ _ _, ?_⟩
  rw [keptContent_eq false body mixed]
  exact ⟨And.right, fun chain => ⟨fun idle => absurd idle Bool.false_ne_true, chain⟩⟩

def swallowedRecords : List Record :=
  [.brief RecordType.stdin 7 (ascii "h") [], .brief RecordType.stdin 9 [] [], .brief RecordType.stdin 7 (ascii "i") []]

def swallowedReader : Reader :=
  newReader ⟨7, 1, false, true, 0, 2⟩
    ⟨[encodeAll (swallowedRecords ++ [.brief RecordType.stdin 7 [] []])], .closed, [], []⟩ (fun _ => 0) RecordType.stdin

theorem swallowed_foreign_records :
    ∃ bytes e, Yields (getChar fillBuffProc) swallowedReader bytes e ∧ e.errno = 0 ∧
      e.connection.written = swallowedReader.connection.written ∧ e.ahead = [] ∧
      bytes.Sublist (ownContent 7 swallowedRecords) ∧
      (bytes = ownContent 7 swallowedRecords ↔ swallowedRecords.IsChain fun x y => ¬ Swallows 7 x y) :=
  have between : swallowedReader.Between swallowedReader.request RecordType.stdin :=
    ⟨rfl, rfl, rfl, rfl, rfl, ⟨rfl, rfl, rfl⟩, rfl⟩
  have ends : (Record.brief RecordType.stdin 7 [] []).Of RecordType.stdin swallowedReader.request.requestId := ⟨rfl, rfl⟩
  foreign_records swallowedRecords [] between rfl (by decide) (by decide)
    (by simp [Reader.ahead, swallowedReader, newReader])
    (by
      simp [swallowedRecords, swallowedReader, newReader, Record.Data, Record.Of, Record.Foreign, Record.brief, ascii]
      decide)
    ends rfl

example : keptContent 7 false swallowedRecords = ascii "h" := by decide

end Foreign

end HvmlFpm.Fcgi
