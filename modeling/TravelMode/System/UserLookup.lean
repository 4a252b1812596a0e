import TravelMode.Daemon.Procs
import TravelMode.Lib.Loops

/-!
# Looking a user up

A line of `/etc/passwd` that cannot be parsed ends the search for a user, as if the file ended
there.

- `finding`: what the search makes of a line; `findUserInLines_eq`: the search is the library's.
- `findUser_iff`: the first line of the user is found exactly if every line before it can be
  parsed.
-/

namespace TravelMode

namespace UserLookup

open TextScan Loops

/-- The user that a line is about: it has at least three fields, the first is the name and the
third the user id. -/
def userOf (line : List Char) : Option (String × UInt32) :=
  match line.splitOn ':' with
  | name :: _password :: field :: _ => (parseUid field).map fun uid => (.ofList name, uid)
  | _ => none

/-- The name in a line of this user. -/
def nameIn (uid : UInt32) (line : List Char) : Option String :=
  (userOf line).bind fun user => if user.2 = uid then some user.1 else none

/-- No line before the first line of the user is malformed. -/
def NotHidden (text : List Char) (uid : UInt32) : Prop :=
  ∀ before line after, lines text = before ++ line :: after → nameIn uid line ≠ none →
    (∀ l ∈ before, nameIn uid l = none) → ∀ l ∈ before, userOf l ≠ none

/-- What the search makes of a line. -/
def finding (uid : UInt32) (line : List Char) : Finding String :=
  match userOf line with
  | none => .giveUp
  | some user => if user.2 = uid then .found user.1 else .pass

theorem answer?_finding (uid : UInt32) (line : List Char) :
    (finding uid line).answer? = nameIn uid line := by
  unfold finding nameIn
  cases userOf line with
  | none => rfl
  | some user =>
    dsimp only
    rw [Option.bind_some]
    split <;> rfl

theorem finding_eq_giveUp {uid : UInt32} {line : List Char} :
    finding uid line = .giveUp ↔ userOf line = none := by
  unfold finding
  cases userOf line with
  | none => exact iff_of_true rfl rfl
  | some user =>
    dsimp only
    split <;> exact iff_of_false (fun h => nomatch h) (fun h => nomatch h)

theorem findUserInLines_cons (uid : UInt32) (line : List Char) (ls : List (List Char)) :
    findUserInLines uid (line :: ls) = (userOf line).bind fun user =>
      if user.2 = uid then some user.1 else findUserInLines uid ls := by
  rw [findUserInLines, userOf]
  rcases line.splitOn ':' with _ | ⟨name, _ | ⟨_password, _ | ⟨field, _⟩⟩⟩
  · rfl
  · rfl
  · rfl
  · dsimp only
    cases parseUid field <;> rfl

/-- The search gives up at the first line that cannot be parsed. -/
theorem findUserInLines_eq (uid : UInt32) (ls : List (List Char)) :
    findUserInLines uid ls = search (finding uid) ls := by
  induction ls with
  | nil => rfl
  | cons line ls ih =>
    rw [findUserInLines_cons, search, finding, ih]
    cases userOf line with
    | none => rfl
    | some user =>
      rw [Option.bind_some]
      dsimp only
      split <;> rfl

/-- **User lookup**: the name of the first line of the user is found, and none exactly if there
is no such line, if and only if no line before it is malformed. -/
theorem findUser_iff (text : List Char) (uid : UInt32) :
    findUserInPasswd text uid = (lines text).findSome? (nameIn uid) ↔ NotHidden text uid := by
  have hiff := @search_eq_findSome?_iff _ _ (finding uid) (lines text)
  simp only [answer?_finding] at hiff
  rw [findUserInPasswd, findUserInLines_eq, hiff]
  simp only [Patient, NotHidden, answer?_finding, ne_eq, finding_eq_giveUp]

/-! ### A compatibility entry -/

/-- A user after an entry that stands for those of the network. -/
def compatPasswd : List Char := unlines ["root:x:0:0:root:/root:/bin/bash".toList,
  "+::::::".toList, "james:x:1000:1000:James:/home/james:/bin/zsh".toList]

/-- The user is in the file, is not found, and is known by its id. -/
theorem compat_entry_hides :
    (lines compatPasswd).findSome? (nameIn 1000) = some "james" ∧
    findUserInPasswd compatPasswd 1000 = none ∧
    (UserCache.new.name (some compatPasswd) 1000).1 = "1000" := by
  decide +kernel

end UserLookup

end TravelMode
