import HvmlFpm.Fcgi.Session

/-!
# Output in pieces

In what pieces an application puts its bytes on a stream leaves no trace, on the wire as in the buffers, and whether
the connection takes them or fails.
-/

namespace HvmlFpm.Fcgi
open Library

def Writer.Sound (w : Writer) : Prop := w.isClosed = true ∨ headerLen < w.stop

def Writer.with (w : Writer) (str : Bytes) : Writer := { w with buffered := w.buffered ++ str }

section Loop
variable {requestId fuel : Nat} {w : Writer} {c : Connection} {str : Bytes} {b : UInt8}

theorem with_with (str str' : Bytes) : (w.with str).with str' = w.with (str ++ str') := by
  simp [Writer.with]

theorem room_with (str : Bytes) : (w.with str).room = w.room - str.length := by
  rw [Writer.room, Writer.room, Writer.wrNext, Writer.wrNext]
  change w.stop - ((if w.rawWrite then 0 else headerLen) + (w.buffered ++ str).length) = _
  rw [List.length_append]
  omega

theorem room_full (long : w.room < str.length) : (w.with (str.take w.room)).room = 0 := by
  rw [room_with, List.length_take, Nat.min_eq_left (Nat.le_of_lt long), Nat.sub_self]

theorem emptyBuff_stop : (w.emptyBuff requestId c).1.stop = w.stop := by
  rw [Writer.emptyBuff]
  by_cases empty : w.encapsulated requestId = []
  · rw [if_pos empty]
  · rw [if_neg empty]
    cases c.write (w.encapsulated requestId) with
    | mk error c' => cases error <;> rfl

theorem putStrLoop_short (short : str.length ≤ w.room) :
    w.putStrLoop requestId (fuel + 1) str c = (true, w.with str, c) := putStrLoop_room str short

theorem putStrLoop_long (long : w.room < str.length) :
    w.putStrLoop requestId (fuel + 1) str c =
      if w.isClosed then (false, w.with (str.take w.room), c)
      else
        let emptied := (w.with (str.take w.room)).emptyBuff requestId c
        emptied.1.putStrLoop requestId fuel (str.drop w.room) emptied.2 := by
  rw [Writer.putStrLoop, if_neg (Nat.not_le_of_lt long)]
  rfl

def Writer.turns (w : Writer) (str : Bytes) : Nat := str.length + (if w.room = 0 then 2 else 1)

theorem Writer.Sound.more (sound : w.Sound) (open' : w.isClosed ≠ true) : headerLen < w.stop :=
  sound.resolve_left open'

theorem emptyBuff_full (requestId : Nat) (c : Connection) (sound : w.Sound) (open' : w.isClosed ≠ true)
    (long : w.room < str.length) :
    ((w.with (str.take w.room)).emptyBuff requestId c).1.Sound ∧
      (((w.with (str.take w.room)).emptyBuff requestId c).1.room ≠ 0 ∨
        ((w.with (str.take w.room)).emptyBuff requestId c).1.isClosed = true ∧
          ((w.with (str.take w.room)).emptyBuff requestId c).1.room = 0) := by
  have more : headerLen < (w.with (str.take w.room)).stop := sound.more open'
  refine ⟨.inr ?_, emptyBuff_room more (room_full long)⟩
  rw [emptyBuff_stop]
  exact more

theorem putStrLoop_enough (sound : w.Sound) (enough : w.turns str ≤ fuel) :
    w.putStrLoop requestId (fuel + 1) str c = w.putStrLoop requestId fuel str c := by
  rw [Writer.turns] at enough
  induction fuel generalizing w str c with
  | zero => split_ifs at enough <;> omega
  | succ fuel ih =>
      by_cases short : str.length ≤ w.room
      · rw [putStrLoop_short short, putStrLoop_short short]
      · have long := Nat.lt_of_not_le short
        rw [putStrLoop_long long, putStrLoop_long long]
        by_cases closed : w.isClosed = true
        · rw [if_pos closed, if_pos closed]
        · rw [if_neg closed, if_neg closed]
          obtain ⟨sound', some | ⟨closed', none⟩⟩ :=
            emptyBuff_full requestId c sound closed long
          · refine ih sound' ?_
            rw [if_neg some, List.length_drop]
            split_ifs at enough <;> omega
          · have rest : str.drop w.room ≠ [] := List.ne_nil_of_length_pos (by
              rw [List.length_drop]
              omega)
            obtain ⟨fuel', rfl⟩ : ∃ fuel', fuel = fuel' + 1 := ⟨fuel - 1, by
              split_ifs at enough <;> omega⟩
            dsimp only
            rw [putStrLoop_full none rest, if_pos closed', putStrLoop_full none rest, if_pos closed']

theorem putStrLoop_add (sound : w.Sound) (more : Nat) :
    w.putStrLoop requestId (w.turns str + more) str c = w.putStrLoop requestId (w.turns str) str c := by
  induction more with
  | zero => rfl
  | succ more ih => rw [← Nat.add_assoc, putStrLoop_enough sound (Nat.le_add_right _ more), ih]

theorem putStrLoop_eq (sound : w.Sound) (enough : w.turns str ≤ fuel) :
    w.putStrLoop requestId fuel str c = w.putStr requestId str c := by
  have most : w.turns str ≤ str.length + 2 := by
    rw [Writer.turns]
    split_ifs <;> omega
  obtain ⟨more, rfl⟩ := Nat.exists_eq_add_of_le enough
  obtain ⟨more', same⟩ := Nat.exists_eq_add_of_le most
  rw [Writer.putStr, same, putStrLoop_add sound, putStrLoop_add sound]

theorem putStr_long (sound : w.Sound) (long : w.room < str.length) :
    w.putStr requestId str c =
      if w.isClosed then (false, w.with (str.take w.room), c)
      else
        let emptied := (w.with (str.take w.room)).emptyBuff requestId c
        emptied.1.putStr requestId (str.drop w.room) emptied.2 := by
  rw [Writer.putStr, putStrLoop_long long]
  by_cases closed : w.isClosed = true
  · rw [if_pos closed, if_pos closed]
  · rw [if_neg closed, if_neg closed]
    obtain ⟨sound', some | ⟨closed', none⟩⟩ := emptyBuff_full requestId c sound closed long
    · refine putStrLoop_eq sound' ?_
      rw [Writer.turns, if_neg some, List.length_drop]
      omega
    · have rest : str.drop w.room ≠ [] := List.ne_nil_of_length_pos (by
        rw [List.length_drop]
        omega)
      dsimp only
      rw [Writer.putStr, putStrLoop_full none rest, if_pos closed', putStrLoop_full none rest, if_pos closed']

theorem putStr_short (short : str.length ≤ w.room) : w.putStr requestId str c = (true, w.with str, c) :=
  putStrLoop_short short

theorem Writer.Sound.emptyBuff (sound : w.Sound) : (w.emptyBuff requestId c).1.Sound := by
  rw [Writer.emptyBuff]
  by_cases empty : w.encapsulated requestId = []
  · rw [if_pos empty]
    exact sound
  · rw [if_neg empty]
    cases c.write (w.encapsulated requestId) with
    | mk error c' =>
        cases error with
        | none => exact sound
        | some errno => exact .inl rfl

theorem Writer.Sound.putChar (sound : w.Sound) : (w.putChar requestId b c).2.1.Sound := by
  have emptied : (w.emptyBuff requestId c).1.Sound := sound.emptyBuff
  rw [Writer.putChar]
  by_cases room : w.room ≠ 0
  · rw [if_pos room]
    exact sound
  · rw [if_neg room]
    by_cases closed : w.isClosed = true
    · rw [if_pos closed]
      exact sound
    · rw [if_neg closed]
      dsimp only
      split_ifs
      · exact emptied
      · exact emptied

theorem putStr_first (sound : w.Sound) (room : w.room ≠ 0) :
    w.putStr requestId (b :: str) c = (w.with [b]).putStr requestId str c := by
  have less : (w.with [b]).room = w.room - 1 := room_with [b]
  by_cases short : (b :: str).length ≤ w.room
  · have short' : str.length ≤ (w.with [b]).room := by
      rw [less]
      rw [List.length_cons] at short
      omega
    rw [putStr_short short, putStr_short short', with_with, List.singleton_append]
  · have long := Nat.lt_of_not_le short
    have long' : (w.with [b]).room < str.length := by
      rw [less]
      rw [List.length_cons] at long
      omega
    have sound' : (w.with [b]).Sound := sound
    obtain ⟨k, some⟩ : ∃ k, w.room = k + 1 := ⟨w.room - 1, by omega⟩
    rw [putStr_long sound long, putStr_long sound' long', less, some, List.take_succ_cons, List.drop_succ_cons, with_with,
      List.singleton_append]
    rfl

end Loop

def Both (x : Bool × Writer × Connection) (next : Writer → Connection → Bool × Writer × Connection) :
    Bool × Writer × Connection :=
  (x.1 && (next x.2.1 x.2.2).1, (next x.2.1 x.2.2).2)

section Append
variable {requestId : Nat} {w : Writer} {c : Connection} {b : UInt8}

theorem with_nil : w.with [] = w := by simp [Writer.with]

theorem putStr_nil : w.putStr requestId [] c = (true, w, c) := by
  rw [putStr_short (Nat.zero_le _), with_nil]

theorem putStr_cons (sound : w.Sound) (str : Bytes) :
    w.putStr requestId (b :: str) c = Both (w.putChar requestId b c) (Writer.putStr requestId str) := by
  by_cases room : w.room = 0
  · have full : w.room < (b :: str).length := by simp [room]
    have closedEnd {v : Writer} {d : Connection} (closed : v.isClosed = true) (none : v.room = 0) :
        v.putStr requestId (b :: str) d = Both (false, v, d) (Writer.putStr requestId str) := by
      rw [Both, putStr_closed closed none, putStr_closed closed none]
      rfl
    by_cases closed : w.isClosed = true
    · rw [closedEnd closed room, Writer.putChar, if_neg (not_not.2 room), if_pos closed]
    · rw [putStr_long sound full, if_neg closed, room, List.take_zero, List.drop_zero, with_nil, Writer.putChar,
        if_neg (not_not.2 room), if_neg closed]
      dsimp only
      have emptied : (w.emptyBuff requestId c).1.room ≠ 0 ∨
          ((w.emptyBuff requestId c).1.isClosed = true ∧ (w.emptyBuff requestId c).1.room = 0) :=
        emptyBuff_room (sound.more closed) room
      rcases emptied with some | ⟨closed', none⟩
      · rw [if_pos some, putStr_first sound.emptyBuff some]
        rfl
      · rw [if_neg (not_not.2 none), closedEnd closed' none]
  · rw [putStr_first sound room, Writer.putChar, if_pos room]
    rfl

theorem putStr_append (sound : w.Sound) (x y : Bytes) :
    w.putStr requestId (x ++ y) c = Both (w.putStr requestId x c) (Writer.putStr requestId y) := by
  induction x generalizing w c with
  | nil => rw [List.nil_append, putStr_nil, Both, Bool.true_and]
  | cons b x ih =>
      rw [List.cons_append, putStr_cons sound, putStr_cons sound, Both, ih sound.putChar]
      simp only [Both, Bool.and_assoc]

theorem Writer.Sound.putStr (sound : w.Sound) (str : Bytes) : (w.putStr requestId str c).2.1.Sound := by
  induction str generalizing w c with
  | nil =>
      rw [putStr_nil]
      exact sound
  | cons b str ih =>
      rw [putStr_cons sound]
      exact ih sound.putChar

theorem Writer.Sound.fflush (sound : w.Sound) : (w.fflush requestId c).2.1.Sound := by
  rw [Writer.fflush]
  by_cases closed : w.isClosed = true
  · rw [if_pos closed]
    exact sound
  · rw [if_neg closed]
    exact sound.emptyBuff

theorem Writer.Sound.fclose {request : Request} (sound : w.Sound) : (w.fclose request c).2.1.Sound := by
  rw [Writer.fclose]
  by_cases closed : w.wasFCloseCalled = true
  · rw [if_pos closed]
    exact sound
  · rw [if_neg closed]
    exact .inl rfl

end Append

def WriteCall.before (side : Side) (str : Bytes) : List WriteCall → List WriteCall
  | .putStr side' more :: calls =>
      if side' = side then .putStr side (str ++ more) :: calls else .putStr side str :: .putStr side' more :: calls
  | calls => .putStr side str :: calls

/-- The calls, with the bytes that are put on a stream without another call between them put at once. -/
def joined : List WriteCall → List WriteCall
  | [] => []
  | .putChar side b :: calls => WriteCall.before side [b] (joined calls)
  | .putStr side str :: calls => WriteCall.before side str (joined calls)
  | call :: calls => call :: joined calls

def Output.Sound (o : Output) : Prop := ∀ side, (o.writer side).Sound

section Joined
variable {o : Output} {side : Side}

theorem Output.Sound.withWriter (sound : o.Sound) {w : Writer} {c : Connection} (kept : w.Sound) :
    (o.withWriter side w c).Sound := by
  intro s
  by_cases same : s = side
  · rw [same, Output.writer_withWriter]
    exact kept
  · rw [Output.writer_other same]
    exact sound s

theorem Output.Sound.perform (sound : o.Sound) (call : WriteCall) : (o.perform call).2.Sound := by
  cases call with
  | putStr side str => exact sound.withWriter ((sound side).putStr str)
  | putChar side b => exact sound.withWriter (sound side).putChar
  | fflush side => exact sound.withWriter (sound side).fflush
  | fclose side => exact sound.withWriter (sound side).fclose
  | setExitStatus status => exact sound

theorem perform_putChar (sound : o.Sound) (b : UInt8) : o.perform (.putChar side b) = o.perform (.putStr side [b]) := by
  rw [Output.perform, Output.perform, putChar_eq_putStr (sound side)]

theorem perform_append (sound : o.Sound) (x y : Bytes) :
    (o.perform (.putStr side (x ++ y))).2 = ((o.perform (.putStr side x)).2.perform (.putStr side y)).2 := by
  have performs (o : Output) (str : Bytes) : (o.perform (.putStr side str)).2 =
      o.withWriter side ((o.writer side).putStr o.request.requestId str o.connection).2.1
        ((o.writer side).putStr o.request.requestId str o.connection).2.2 := rfl
  rw [performs, performs, performs, putStr_append (sound side), Output.writer_withWriter, Output.withWriter_connection,
    Output.withWriter_request, Both]
  cases side with
  | out => rfl
  | err => rfl

theorem performAll_before (sound : o.Sound) (str : Bytes) (calls : List WriteCall) :
    o.performAll (WriteCall.before side str calls) = (o.perform (.putStr side str)).2.performAll calls := by
  cases calls with
  | nil => rfl
  | cons call calls =>
      cases call with
      | putStr side' more =>
          by_cases same : side' = side
          · rw [WriteCall.before, if_pos same, same, Output.performAll, Output.performAll, perform_append sound]
          · rw [WriteCall.before, if_neg same]
            rfl
      | putChar side b => rfl
      | fflush side => rfl
      | fclose side => rfl
      | setExitStatus status => rfl

theorem Output.Sound.joined (sound : o.Sound) (calls : List WriteCall) :
    o.performAll (Fcgi.joined calls) = o.performAll calls := by
  induction calls generalizing o with
  | nil => rfl
  | cons call calls ih =>
      have rest := ih (sound.perform call)
      cases call with
      | putStr side str => exact (performAll_before sound str (Fcgi.joined calls)).trans rest
      | putChar side b =>
          rw [perform_putChar sound] at rest
          rw [Output.performAll, perform_putChar sound]
          exact (performAll_before sound [b] (Fcgi.joined calls)).trans rest
      | fflush side => exact rest
      | fclose side => exact rest
      | setExitStatus status => exact rest

end Joined

theorem newOutput_sound (request : Request) (c : Connection) : (newOutput request c).Sound := by
  intro side
  cases side with
  | out => exact .inr (show headerLen < bufferSize 8192 by decide)
  | err => exact .inr (show headerLen < bufferSize 512 by decide)

/-- In what pieces the bytes are put on the streams of a request makes no difference to the connection and to what is
in the buffers. -/
theorem performAll_joined (request : Request) (c : Connection) (calls : List WriteCall) :
    (newOutput request c).performAll (joined calls) = (newOutput request c).performAll calls :=
  (newOutput_sound request c).joined calls

example : joined [.putStr .out (ascii "Sta"), .putChar .out 116, .putStr .err (ascii "e"), .putStr .out (ascii "us")] =
    [.putStr .out (ascii "Stat"), .putStr .err (ascii "e"), .putStr .out (ascii "us")] := rfl

end HvmlFpm.Fcgi
