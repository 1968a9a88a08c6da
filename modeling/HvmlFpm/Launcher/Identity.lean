import HvmlFpm.Strtol

/-!
# Users and groups

`find_user_group` of `hvml-fpm.c`: the ids for the names or numbers of a command line.
-/

namespace HvmlFpm.Launcher
open Library

structure Passwd where
  pwName : CString
  pwUid : Nat
  pwGid : Nat

structure Group where
  grGid : Nat

/-- `nameBehind` is what a later search, for the user that is given, leaves of a name in the storage of `getpwuid`. -/
structure Databases where
  getpwnam : CString → Option Passwd
  getpwuid : Nat → Option Passwd
  getgrnam : CString → Option Group
  nameBehind : Option CString → CString → CString

structure Identity where
  uid : Nat
  gid : Nat
  username : Option CString

/-- A `uid_t` or `gid_t` that is assigned from `strtol`. -/
def numericId (text : CString) : Nat := toUnsigned 32 (strtol text 10).1

/-- `my_uid <= 0 || *endptr`, of an unsigned `my_uid`. -/
def byName (text : CString) : Prop := numericId text ≤ 0 ∨ (strtol text 10).2 ≠ []

instance (text : CString) : Decidable (byName text) := inferInstanceAs (Decidable (_ ∨ _))

def findUser (db : Databases) (user : CString) : Option (Nat × Option Passwd × Option CString) :=
  if byName user then
    match db.getpwnam user with
    | none => none
    | some pwd => if pwd.pwUid = 0 then none else some (pwd.pwUid, some pwd, some user)
  else
    let pwd := db.getpwuid (numericId user)
    some (numericId user, pwd, pwd.map Passwd.pwName)

def findGroup (db : Databases) (group : Option CString) (pwd : Option Passwd) : Option Nat :=
  match group with
  | some group =>
      if byName group then
        match db.getgrnam group with
        | none => none
        | some grp => if grp.grGid = 0 then none else some grp.grGid
      else some (numericId group)
  | none =>
      match pwd with
      | some pwd => if pwd.pwGid = 0 then none else some pwd.pwGid
      | none => some 0

def findUserGroup (db : Databases) (user group : Option CString) : Option Identity :=
  match user with
  | some user =>
      (findUser db user).bind fun (uid, pwd, username) =>
        (findGroup db group pwd).map fun gid => ⟨uid, gid, username⟩
  | none => (findGroup db group none).map fun gid => ⟨0, gid, none⟩

/-- The name that goes with a number stands in storage that the search for the user of the socket may fill again. -/
def Identity.behind (identity : Identity) (db : Databases) (user sockuser : Option CString) : Identity :=
  { identity with
    username := if user.any (fun user => byName user) then identity.username
                else identity.username.map (db.nameBehind sockuser) }

def HasEntry (db : Databases) (user : CString) : Prop :=
  if byName user then (db.getpwnam user).isSome = true else (db.getpwuid (numericId user)).isSome = true

section Found
variable {db : Databases} {user : CString} {group : Option CString}

theorem findUser_some {found : Nat × Option Passwd × Option CString} (finds : findUser db user = some found) :
    found.1 ≠ 0 ∧ (HasEntry db user ↔ found.2.1.isSome = true) ∧ (¬ byName user → found.1 = numericId user) := by
  rw [findUser] at finds
  rw [HasEntry]
  by_cases named : byName user
  · rw [if_pos named] at finds ⊢
    cases entry : db.getpwnam user with
    | none => simp [entry] at finds
    | some pwd =>
        simp only [entry] at finds
        split_ifs at finds with zero
        obtain rfl := Option.some.inj finds
        exact ⟨zero, by simp, fun numeric => absurd named numeric⟩
  · rw [if_neg named] at finds ⊢
    obtain rfl := Option.some.inj finds
    have positive : numericId user ≠ 0 := by
      intro zero
      exact named (.inl zero.le)
    exact ⟨positive, Iff.rfl, fun _ => rfl⟩

theorem findGroup_some {pwd : Option Passwd} {gid : Nat} (finds : findGroup db group pwd = some gid) :
    (group.isSome = true ∨ pwd.isSome = true → gid ≠ 0) ∧
      ∀ text, group = some text → ¬ byName text → gid = numericId text := by
  unfold findGroup at finds
  cases group with
  | some text =>
      simp only at finds
      by_cases named : byName text
      · rw [if_pos named] at finds
        cases entry : db.getgrnam text with
        | none => simp [entry] at finds
        | some grp =>
            simp only [entry] at finds
            split_ifs at finds with zero
            obtain rfl := Option.some.inj finds
            refine ⟨fun _ => zero, ?_⟩
            rintro _ same numeric
            obtain rfl := Option.some.inj same
            exact absurd named numeric
      · rw [if_neg named] at finds
        obtain rfl := Option.some.inj finds
        refine ⟨fun _ zero => named (.inl zero.le), ?_⟩
        rintro _ same _
        obtain rfl := Option.some.inj same
        rfl
  | none =>
      cases pwd with
      | none => simp
      | some pwd =>
          simp only at finds
          split_ifs at finds with zero
          obtain rfl := Option.some.inj finds
          exact ⟨fun _ => zero, by simp⟩

theorem findUserGroup_user {identity : Identity} (finds : findUserGroup db (some user) group = some identity) :
    identity.uid ≠ 0 ∧ (group.isSome = true ∨ HasEntry db user → identity.gid ≠ 0) := by
  obtain ⟨⟨uid, pwd, username⟩, finding, rest⟩ := Option.bind_eq_some_iff.1 finds
  obtain ⟨gid, grouping, rfl⟩ := Option.map_eq_some_iff.1 rest
  obtain ⟨positive, entry, _⟩ := findUser_some finding
  exact ⟨positive, fun given => (findGroup_some grouping).1 (given.imp_right entry.1)⟩

theorem findUserGroup_none {user group : Option CString} {identity : Identity}
    (finds : findUserGroup db user group = some identity) :
    (user = none → identity.uid = 0) ∧
      (group = none → (∀ text, user = some text → ¬ HasEntry db text) → identity.gid = 0) := by
  cases user with
  | none =>
      obtain ⟨gid, grouping, rfl⟩ := Option.map_eq_some_iff.1 finds
      refine ⟨fun _ => rfl, ?_⟩
      rintro rfl _
      exact (Option.some.inj grouping).symm
  | some user =>
      obtain ⟨⟨uid, pwd, username⟩, finding, rest⟩ := Option.bind_eq_some_iff.1 finds
      obtain ⟨gid, grouping, rfl⟩ := Option.map_eq_some_iff.1 rest
      refine ⟨by simp, ?_⟩
      rintro rfl absent
      have noEntry := (findUser_some finding).2.1
      cases pwd with
      | some pwd => exact absurd (noEntry.2 rfl) (absent user rfl)
      | none => exact (Option.some.inj grouping).symm

theorem findUserGroup_numeric {user group : Option CString} {identity : Identity}
    (finds : findUserGroup db user group = some identity) :
    (∀ text, user = some text → ¬ byName text → identity.uid = numericId text) ∧
      ∀ text, group = some text → ¬ byName text → identity.gid = numericId text := by
  cases user with
  | some user =>
      obtain ⟨⟨uid, pwd, username⟩, finding, rest⟩ := Option.bind_eq_some_iff.1 finds
      obtain ⟨gid, grouping, rfl⟩ := Option.map_eq_some_iff.1 rest
      refine ⟨?_, (findGroup_some grouping).2⟩
      rintro _ same numeric
      obtain rfl := Option.some.inj same
      exact (findUser_some finding).2.2 numeric
  | none =>
      obtain ⟨gid, grouping, rfl⟩ := Option.map_eq_some_iff.1 finds
      exact ⟨by simp, (findGroup_some grouping).2⟩

end Found

end HvmlFpm.Launcher
