import HvmlFpm.Fcgi.Filling

/-!
# Pulling bytes

`FCGX_GetChar` makes a reader a source of bytes, in which the pieces have no part; `FCGX_GetStr`, which moves whole
fragments of the buffer, takes the same bytes as one `FCGX_GetChar` after the other would.
-/

namespace HvmlFpm.Fcgi
open Library

structure Alike (r r' : Reader) : Prop where
  whole : r.whole = r'.whole
  left : r.Sound
  right : r'.Sound

theorem Alike.symm {r r' : Reader} (alike : Alike r r') : Alike r' r := ⟨alike.whole.symm, alike.right, alike.left⟩

theorem Alike.trans {r s t : Reader} (first : Alike r s) (second : Alike s t) : Alike r t :=
  ⟨first.whole.trans second.whole, first.left, second.right⟩

theorem alike_whole {r : Reader} (sound : r.Sound) : Alike r r.whole := ⟨r.whole_whole.symm, sound, r.sound_whole⟩

def Reader.behindByte (w : Reader) : Reader := { w with rest := w.rest.tail, contentLen := w.contentLen - 1 }

def fromBuffer (r : Reader) : Option UInt8 × Reader :=
  match r.avail with
  | c :: avail => (some c, { r with avail })
  | [] => (none, r)

section Buffer
variable {r r' : Reader} {c : UInt8} {avail : Bytes}

theorem whole_behind (available : r.avail = c :: avail) : { r with avail }.whole = r.whole.behindByte := by
  simp [Reader.whole, Reader.behindByte, Reader.ahead, available]

theorem Reader.Sound.behind (sound : r.Sound) (available : r.avail = c :: avail) : { r with avail }.Sound := by
  rcases sound with none | taken
  · rw [available] at none
    cases none
  · exact .inr taken

theorem fromBuffer_alike (alike : Alike r r') (available : r.avail = [] ↔ r'.avail = []) :
    (fromBuffer r).1 = (fromBuffer r').1 ∧ Alike (fromBuffer r).2 (fromBuffer r').2 := by
  unfold fromBuffer
  cases here : r.avail with
  | nil =>
      rw [available.1 here]
      exact ⟨rfl, alike⟩
  | cons c avail =>
      cases there : r'.avail with
      | nil => simp [here, there] at available
      | cons c' avail' =>
          have same : r.ahead = r'.ahead := congrArg Reader.rest alike.whole
          rw [Reader.ahead, Reader.ahead, here, there, List.cons_append, List.cons_append, List.cons.injEq] at same
          refine ⟨by rw [same.1], ?_, alike.left.behind here, alike.right.behind there⟩
          rw [whole_behind here, whole_behind there, alike.whole]

end Buffer

section GetChar
variable {fill : Reader → Reader} {r r' : Reader}

theorem getChar_closed (closed : r.isClosed = true) : getChar fill r = (none, r) := if_pos closed

theorem getChar_avail (open' : r.isClosed = false) (available : r.avail ≠ []) : getChar fill r = fromBuffer r := by
  rw [getChar, if_neg (by simp [open']), fromBuffer]
  cases some : r.avail with
  | nil => exact absurd some available
  | cons c avail => rfl

theorem getChar_fill (open' : r.isClosed = false) (empty : r.avail = []) :
    getChar fill r = if (fill r).isClosed then (none, fill r) else fromBuffer (fill r) := by
  rw [getChar, if_neg (by simp [open']), empty]
  rfl

end GetChar

section Lawful
variable {process : Header → Reader → Status × Reader} (lawful : Lawful process) {r r' : Reader}

theorem getChar_ready (process : Header → Reader → Status × Reader) {c : UInt8} {more : Bytes} (sound : r.Sound)
    (open' : r.isClosed = false) (taken : r.skip = false) (some : 0 < r.whole.contentLen) (next : r.ahead = c :: more) :
    ∃ s, getChar (fillBuff process) r = (.some c, s) ∧ s.whole = r.whole.behindByte ∧ s.Sound := by
  have here {f : Reader} (same : f.whole = r.whole) (sound : f.Sound) (available : f.avail ≠ []) :
      ∃ s, fromBuffer f = (.some c, s) ∧ s.whole = r.whole.behindByte ∧ s.Sound := by
    have ahead : f.ahead = c :: more := (congrArg Reader.rest same).trans next
    cases first : f.avail with
    | nil => exact absurd first available
    | cons c' avail =>
        rw [Reader.ahead, first, List.cons_append, List.cons.injEq] at ahead
        refine ⟨{ f with avail }, ?_, (whole_behind first).trans (congrArg _ same), sound.behind first⟩
        rw [fromBuffer, first, ahead.1]
  by_cases empty : r.avail = []
  · have content : 0 < r.contentLen := by simpa [Reader.whole, empty] using some
    obtain ⟨same, available⟩ := fillBuff_ready process empty taken content (by simp [next])
    have still : (fillBuff process r).isClosed = false := (congrArg Reader.isClosed same).trans open'
    have skips : (fillBuff process r).skip = false := (congrArg Reader.skip same).trans taken
    rw [getChar_fill open' empty, if_neg (by simp [still])]
    exact here same (.inr ⟨skips, still⟩) available
  · rw [getChar_avail open' empty]
    exact here rfl sound empty

include lawful

theorem getChar_alike (alike : Alike r r') :
    (getChar (fillBuff process) r).1 = (getChar (fillBuff process) r').1 ∧
      Alike (getChar (fillBuff process) r).2 (getChar (fillBuff process) r').2 := by
  have same := alike.whole
  have closed : r.isClosed = r'.isClosed := (congrArg Reader.isClosed same :)
  have skips : r.skip = r'.skip := (congrArg Reader.skip same :)
  have ahead : r.ahead = r'.ahead := congrArg Reader.rest same
  cases now : r.isClosed with
  | true =>
      rw [getChar_closed now, getChar_closed (closed ▸ now)]
      exact ⟨rfl, alike⟩
  | false =>
      have open' : r'.isClosed = false := closed ▸ now
      by_cases ready : r.skip = false ∧ 0 < r.whole.contentLen ∧ r.ahead ≠ []
      · obtain ⟨taken, some, more⟩ := ready
        cases next : r.ahead with
        | nil => exact absurd next more
        | cons c more =>
            obtain ⟨s, first, behind, sound⟩ := getChar_ready process alike.left now taken some next
            obtain ⟨s', first', behind', sound'⟩ :=
              getChar_ready process alike.right open' (skips ▸ taken) (same ▸ some) (ahead ▸ next)
            rw [first, first']
            exact ⟨rfl, by rw [behind, behind', same], sound, sound'⟩
      · have unready {s : Reader} (sound : s.Sound) (same : s.whole = r.whole) : s.avail = [] := by
          rcases sound with empty | ⟨taken, -⟩
          · exact empty
          · cases available : s.avail with
            | nil => rfl
            | cons c avail =>
                have ahead : s.ahead = r.ahead := congrArg Reader.rest same
                refine absurd ⟨(congrArg Reader.skip same).symm.trans taken, ?_, ?_⟩ ready
                · rw [← same, Reader.whole_contentLen, available]
                  simp
                · rw [← ahead, Reader.ahead, available]
                  simp
        have empty := unready alike.left rfl
        have empty' := unready alike.right same.symm
        obtain ⟨filled, sound, available⟩ := fillBuff_alike lawful empty empty' now same
        obtain ⟨-, sound', -⟩ := fillBuff_alike lawful empty' empty open' same.symm
        have ends : (fillBuff process r).isClosed = (fillBuff process r').isClosed :=
          (congrArg Reader.isClosed filled :)
        have filled : Alike (fillBuff process r) (fillBuff process r') := ⟨filled, sound, sound'⟩
        rw [getChar_fill now empty, getChar_fill open' empty', ← ends]
        split_ifs
        · exact ⟨rfl, filled⟩
        · exact fromBuffer_alike filled available

end Lawful

/-- A procedure that makes bytes available or closes the stream, of readers with `P`. -/
structure Feeds (fill : Reader → Reader) (P : Reader → Prop) : Prop where
  moves : ∀ r n, P r → P { r with avail := r.avail.drop n }
  keeps : ∀ r, P r → r.avail = [] → r.isClosed = false → P (fill r)
  fed : ∀ r, P r → r.avail = [] → r.isClosed = false → (fill r).isClosed = true ∨ (fill r).avail ≠ []
  less : ∀ r, P r → r.avail = [] → r.isClosed = false →
    (fill r).ahead.length ≤ r.left ∧ ((fill r).isClosed = false → (fill r).left < r.left)

section Fragments
variable {fill : Reader → Reader} {P : Reader → Prop} {r : Reader} {n : Nat}

theorem pulls_avail (open' : r.isClosed = false) (within : n ≤ r.avail.length) :
    pulls (getChar fill) n r = (r.avail.take n, { r with avail := r.avail.drop n }) := by
  induction n generalizing r with
  | zero => rfl
  | succ n ih =>
      cases available : r.avail with
      | nil => simp [available] at within
      | cons c avail =>
          rw [available] at within
          rw [pulls, getChar_avail open' (by simp [available]), fromBuffer, available]
          simp only [ih (r := { r with avail }) open' (Nat.le_of_succ_le_succ within), List.take_succ_cons,
            List.drop_succ_cons]

theorem pulls_past (open' : r.isClosed = false) (past : r.avail.length ≤ n) :
    pulls (getChar fill) n r =
      (r.avail ++ (pulls (getChar fill) (n - r.avail.length) { r with avail := [] }).1,
        (pulls (getChar fill) (n - r.avail.length) { r with avail := [] }).2) := by
  induction n generalizing r with
  | zero =>
      have none := List.eq_nil_of_length_eq_zero (Nat.le_zero.1 past)
      cases r
      simp_all [pulls]
  | succ n ih =>
      cases available : r.avail with
      | nil =>
          have same : { r with avail := [] } = r := by
            cases r
            simp_all
          simp [same]
      | cons c avail =>
          rw [available] at past
          rw [pulls, getChar_avail open' (by simp [available]), fromBuffer, available]
          simp only [ih (r := { r with avail }) open' (Nat.le_of_succ_le_succ past), List.length_cons,
            Nat.add_sub_add_right, List.cons_append]

variable (feeds : Feeds fill P)
include feeds

theorem getChar_keeps (holds : P r) : P (getChar fill r).2 := by
  have after {f : Reader} (holds : P f) : P (fromBuffer f).2 := by
    have moved := feeds.moves f 1 holds
    rw [fromBuffer]
    cases available : f.avail with
    | nil => exact holds
    | cons c avail => rwa [available] at moved
  cases now : r.isClosed with
  | true => rwa [getChar_closed now]
  | false =>
      by_cases empty : r.avail = []
      · have filled := feeds.keeps r holds empty now
        rw [getChar_fill now empty]
        split_ifs
        · exact filled
        · exact after filled
      · rw [getChar_avail now empty]
        exact after holds

theorem getChar_less {c : UInt8} {s : Reader} (holds : P r) (gives : getChar fill r = (some c, s)) :
    s.ahead.length < r.ahead.length := by
  have after {f : Reader} (le : f.ahead.length ≤ r.ahead.length) (gives : fromBuffer f = (some c, s)) :
      s.ahead.length < r.ahead.length := by
    rw [fromBuffer] at gives
    cases available : f.avail with
    | nil => simp [available] at gives
    | cons c' avail =>
        rw [available] at gives
        obtain ⟨-, rfl⟩ := Prod.mk.inj gives
        rw [Reader.ahead, available, List.cons_append, List.length_cons] at le
        exact le
  cases now : r.isClosed with
  | true => simp [getChar_closed now] at gives
  | false =>
      by_cases empty : r.avail = []
      · rw [getChar_fill now empty] at gives
        split_ifs at gives
        · cases (Prod.mk.inj gives).1
        · exact after (Reader.left_of_empty empty ▸ (feeds.less r holds empty now).1) gives
      · rw [getChar_avail now empty] at gives
        exact after (Nat.le_refl _) gives

theorem Feeds.within (n : Nat) : Feeds fill fun r => P r ∧ r.ahead.length ≤ n where
  moves := by
    rintro r k ⟨holds, le⟩
    refine ⟨feeds.moves r k holds, Nat.le_trans ?_ le⟩
    rw [Reader.length_ahead, Reader.length_ahead]
    exact Nat.add_le_add_right (by simp) _
  keeps := by
    rintro r ⟨holds, le⟩ empty open'
    refine ⟨feeds.keeps r holds empty open', Nat.le_trans ?_ le⟩
    exact Reader.left_of_empty empty ▸ (feeds.less r holds empty open').1
  fed := fun r holds => feeds.fed r holds.1
  less := fun r holds => feeds.less r holds.1

theorem pulls_keeps (holds : P r) (n : Nat) : P (pulls (getChar fill) n r).2 := by
  induction n generalizing r with
  | zero => exact holds
  | succ n ih =>
      have next := getChar_keeps feeds holds
      rw [pulls]
      cases pulled : getChar fill r with
      | mk given s =>
          rw [pulled] at next
          cases given with
          | none => exact next
          | some c => exact ih next

theorem getStrLoop_eq_pulls {fuel : Nat} (holds : P r) (open' : r.isClosed = false) (enough : r.left < fuel) :
    getStrLoop fill fuel n r = pulls (getChar fill) n r := by
  induction fuel generalizing r n with
  | zero => simp at enough
  | succ fuel ih =>
      rw [getStrLoop]
      by_cases within : n ≤ r.avail.length
      · rw [if_pos within, pulls_avail open' within]
      · have past : r.avail.length ≤ n := by omega
        obtain ⟨k, more⟩ : ∃ k, n - r.avail.length = k + 1 := ⟨n - r.avail.length - 1, by omega⟩
        rw [if_neg within, pulls_past open' past]
        dsimp only
        rw [if_neg (by simp [open'])]
        cases still : (fill { r with avail := [] }).isClosed with
        | true =>
            rw [more, pulls, getChar_fill (r := { r with avail := [] }) open' rfl, if_pos still]
            simp
        | false =>
            have holds' : P { r with avail := [] } := by
              have moved := feeds.moves r r.avail.length holds
              rwa [List.drop_length] at moved
            have filled := feeds.keeps _ holds' rfl open'
            have less := (feeds.less _ holds' rfl open').2 still
            have available := (feeds.fed _ holds' rfl open').resolve_left (by simp [still])
            have onwards : pulls (getChar fill) (n - r.avail.length) { r with avail := [] } =
                pulls (getChar fill) (n - r.avail.length) (fill { r with avail := [] }) := by
              rw [more, pulls, pulls, getChar_fill (r := { r with avail := [] }) open' rfl, if_neg (by simp [still]),
                getChar_avail still available]
            have short : (fill { r with avail := [] }).left < fuel := by
              have same : { r with avail := [] }.left = r.left := rfl
              omega
            rw [onwards, ih filled still short]
            simp

theorem getStr_eq_pulls (holds : P r) : getStr fill n r = pulls (getChar fill) n r := by
  rw [getStr]
  cases now : r.isClosed with
  | true =>
      rw [if_pos (.inl rfl)]
      cases n with
      | zero => rfl
      | succ n => rw [pulls, getChar_closed now]
  | false =>
      by_cases none : n = 0
      · subst none
        rw [if_pos (.inr rfl), pulls]
      · rw [if_neg (by simp [none])]
        exact getStrLoop_eq_pulls feeds holds now (Nat.lt_succ_self _)

theorem getChar_none (holds : P r) (ends : (getChar fill r).1 = none) : (getChar fill r).2.isClosed = true := by
  have some {f : Reader} (available : f.avail ≠ []) : (fromBuffer f).1 ≠ none := by
    rw [fromBuffer]
    cases first : f.avail with
    | nil => exact absurd first available
    | cons c avail => exact Option.some_ne_none c
  cases now : r.isClosed with
  | true => rwa [getChar_closed now]
  | false =>
      by_cases empty : r.avail = []
      · rw [getChar_fill now empty] at ends ⊢
        cases still : (fill r).isClosed with
        | true => exact still
        | false =>
            have available := (feeds.fed r holds empty now).resolve_left (by simp [still])
            rw [if_neg (by simp [still])] at ends
            exact absurd ends (some available)
      · rw [getChar_avail now empty] at ends
        exact absurd ends (some empty)

end Fragments

/-! ## What a reader yields -/

section Yields
variable {fill : Reader → Reader} {P : Reader → Prop} {r e : Reader} {bs : Bytes}

theorem Alike.ahead {r r' : Reader} (alike : Alike r r') : r.ahead = r'.ahead := congrArg Reader.rest alike.whole

theorem Alike.isClosed {r r' : Reader} (alike : Alike r r') : r.isClosed = r'.isClosed :=
  (congrArg Reader.isClosed alike.whole :)

theorem Feeds.yields (feeds : Feeds fill P) (holds : P r) : ∃ bs e, Yields (getChar fill) r bs e :=
  exists_yields (fun r => r.ahead.length) (fun _ => getChar_keeps feeds) (fun _ _ _ => getChar_less feeds) r holds

theorem Feeds.ends_closed (feeds : Feeds fill P) (holds : P r) (yields : Yields (getChar fill) r bs e) :
    e.isClosed = true := by
  induction yields with
  | nil ends =>
      have closed := getChar_none feeds holds
      rw [ends] at closed
      exact closed rfl
  | cons gives rest ih =>
      have kept := getChar_keeps feeds holds
      rw [gives] at kept
      exact ih kept

theorem Feeds.keeps_end (feeds : Feeds fill P) (holds : P r) (yields : Yields (getChar fill) r bs e) : P e :=
  yields.keeps (fun _ => getChar_keeps feeds) holds

theorem Feeds.yields_le (feeds : Feeds fill P) (holds : P r) (yields : Yields (getChar fill) r bs e) :
    bs.length ≤ r.ahead.length :=
  yields.length_le (fun r => r.ahead.length) (fun _ => getChar_keeps feeds) (fun _ _ _ => getChar_less feeds) holds

theorem Feeds.getStr_within (feeds : Feeds fill P) (holds : P r) (yields : Yields (getChar fill) r bs e) {n : Nat}
    (within : n ≤ bs.length) : ∃ s, getStr fill n r = (bs.take n, s) ∧ P s ∧ Yields (getChar fill) s (bs.drop n) e := by
  obtain ⟨s, taken, rest⟩ := yields.pulls_within within
  have kept := pulls_keeps feeds holds n
  rw [taken] at kept
  exact ⟨s, (getStr_eq_pulls feeds holds).trans taken, kept, rest⟩

theorem Feeds.getStr_beyond (feeds : Feeds fill P) (holds : P r) (yields : Yields (getChar fill) r bs e) {n : Nat}
    (beyond : bs.length < n) : getStr fill n r = (bs, e) :=
  (getStr_eq_pulls feeds holds).trans (yields.pulls_beyond beyond)

theorem Alike.yields {process : Header → Reader → Status × Reader} (lawful : Lawful process) {r r' : Reader}
    (alike : Alike r r') (yields : Yields (getChar (fillBuff process)) r bs e) :
    ∃ e', Yields (getChar (fillBuff process)) r' bs e' ∧ Alike e e' :=
  yields.simulated alike fun _ _ alike => getChar_alike lawful alike

end Yields

end HvmlFpm.Fcgi
