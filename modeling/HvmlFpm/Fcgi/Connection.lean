import HvmlFpm.Library.CString

/-!
# Connections

A connection as `OS_Read` and `OS_Write` of `os_unix.c` see it. The bytes of the web server arrive in pieces, and
a read gives what there is of the first one; a write may take a part of what it is given.
-/

namespace HvmlFpm.Fcgi
open Library

abbrev Errno := {n : Nat // 0 < n}

/-- What a read finds behind the last piece. No connection stays open and silent. -/
inductive Ending
  | closed
  | failed (errno : Errno)
deriving DecidableEq

/-- `took n` takes `n + 1` bytes, or all of them where there are fewer. -/
inductive OsWrite
  | took (n : Nat)
  | failed (errno : Errno)
deriving DecidableEq

/-- `writes` are the next writes; those behind them take everything. -/
structure Connection where
  arriving : List Bytes
  ending : Ending
  writes : List OsWrite
  written : Bytes
deriving DecidableEq

def readPieces (len : Nat) : List Bytes → Option (Bytes × List Bytes)
  | [] => none
  | [] :: pieces => readPieces len pieces
  | (b :: piece) :: pieces => some ((b :: piece).take len, (b :: piece).drop len :: pieces)

def writeItAll : List OsWrite → Bytes → Option Errno × Bytes × List OsWrite
  | writes, [] => (none, [], writes)
  | [], buf => (none, buf, [])
  | .took n :: writes, buf =>
      let (error, sent, left) := writeItAll writes (buf.drop (n + 1))
      (error, buf.take (n + 1) ++ sent, left)
  | .failed errno :: writes, _ => (some errno, [], writes)

def Connection.write (c : Connection) (buf : Bytes) : Option Errno × Connection :=
  let (error, sent, left) := writeItAll c.writes buf
  (error, { c with writes := left, written := c.written ++ sent })

section Read
variable {len : Nat} {pieces pieces' : List Bytes} {buf : Bytes}

theorem readPieces_none : readPieces len pieces = none ↔ pieces.flatten = [] := by
  induction pieces with
  | nil => simp [readPieces]
  | cons piece pieces ih =>
      cases piece with
      | nil => simpa [readPieces] using ih
      | cons b piece => simp [readPieces]

theorem readPieces_flatten (read : readPieces len pieces = some (buf, pieces')) :
    buf ++ pieces'.flatten = pieces.flatten := by
  induction pieces with
  | nil => simp [readPieces] at read
  | cons piece pieces ih =>
      cases piece with
      | nil => exact ih read
      | cons b piece =>
          rw [readPieces, Option.some.injEq, Prod.mk.injEq] at read
          obtain ⟨rfl, rfl⟩ := read
          rw [List.flatten_cons, List.flatten_cons, ← List.append_assoc, List.take_append_drop]

theorem readPieces_ne_nil (pos : 0 < len) (read : readPieces len pieces = some (buf, pieces')) : buf ≠ [] := by
  induction pieces with
  | nil => simp [readPieces] at read
  | cons piece pieces ih =>
      cases piece with
      | nil => exact ih read
      | cons b piece =>
          rw [readPieces, Option.some.injEq, Prod.mk.injEq] at read
          obtain ⟨rfl, -⟩ := read
          cases len with
          | zero => exact absurd pos (Nat.lt_irrefl 0)
          | succ len => simp

end Read

section Write
variable {c : Connection}

def Connection.Writable (c : Connection) : Prop := ∀ errno, .failed errno ∉ c.writes

theorem writeItAll_writable {writes : List OsWrite} (writable : ∀ errno, .failed errno ∉ writes) (buf : Bytes) :
    ∃ left, writeItAll writes buf = (none, buf, left) ∧ ∀ errno, .failed errno ∉ left := by
  induction writes generalizing buf with
  | nil =>
      cases buf with
      | nil => exact ⟨[], rfl, writable⟩
      | cons b buf => exact ⟨[], rfl, writable⟩
  | cons write writes ih =>
      have later : ∀ errno, .failed errno ∉ writes := fun errno member => writable errno (List.mem_cons_of_mem _ member)
      cases buf with
      | nil => exact ⟨write :: writes, rfl, writable⟩
      | cons b buf =>
          cases write with
          | failed errno => exact absurd List.mem_cons_self (writable errno)
          | took n =>
              obtain ⟨left, goes, succeed⟩ := ih later ((b :: buf).drop (n + 1))
              refine ⟨left, ?_, succeed⟩
              rw [writeItAll]
              · simp only [goes, List.take_append_drop]
              · exact List.cons_ne_nil b buf

theorem Connection.Writable.write (writable : c.Writable) (buf : Bytes) :
    ∃ c', c.write buf = (none, c') ∧ c'.Writable ∧ c'.written = c.written ++ buf ∧ c'.arriving = c.arriving ∧
      c'.ending = c.ending := by
  obtain ⟨left, goes, succeed⟩ := writeItAll_writable writable buf
  refine ⟨{ c with writes := left, written := c.written ++ buf }, ?_, succeed, rfl, rfl, rfl⟩
  rw [Connection.write, goes]

end Write

end HvmlFpm.Fcgi
