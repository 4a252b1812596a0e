import TravelMode.Core.Ipc
import TravelMode.Lib.UnixFs
import TravelMode.Lib.Utf8Paths

/-!
# The command line

What `travelmode block` and `travelmode allow` make of their target: `resolveExe` finds the
executable, by its path, in `PATH` or among the daemon's processes, and `resolveRule` makes
the rule that is sent.
-/

namespace TravelMode

namespace Cli

open UnixFs (FileSystem Location Node)

/-- What a command finds when it runs. -/
structure Env where
  fs : FileSystem
  cwd : Location
  /-- The variable `PATH`. -/
  pathVar : Option (List UInt8)
  /-- What the system says of a path that it cannot resolve. -/
  osError : PathBuf → String
  /-- What the daemon answers to `GetProcesses`, or why it does not. -/
  processes : Except String Response

namespace Env

variable (env : Env)

/-! ## Targets -/

/-- `std::env::split_paths`, at every `:`. -/
def splitPaths (pathVar : List UInt8) : List PathBuf := (pathVar.splitOn 58).map PathBuf.mk

/-- The directories of `PATH`. -/
def dirs : List PathBuf := (env.pathVar.map splitPaths).getD []

/-- A file that somebody may execute. -/
def isExecutable (path : PathBuf) : Bool :=
  env.fs.isFile env.cwd path &&
    ((env.fs.metadata env.cwd path).map fun m => decide (m.mode &&& 0o111 ≠ 0)).getD false

/-- which-style lookup of an executable in PATH. -/
def which (name : String) : Option PathBuf :=
  (env.dirs.map fun dir => dir.join (.ofString name)).find? env.isExecutable

/-- The executable of the only process with this name, if the daemon tells of it. -/
def running (name : String) : Option PathBuf :=
  match env.processes with
  | .ok (.processes procs) =>
    match procs.filter fun p => decide (p.name = name) with
    | [p] => p.exe
    | _ => none
  | _ => none

/-- `resolve_exe`: an explicit path, a name in `PATH`, or a process of the daemon's. -/
def resolveExe (target : String) : Except String PathBuf :=
  if '/' ∈ target.toList then
    let path := PathBuf.ofString target
    if env.fs.existsAt env.cwd path then
      match env.fs.canonicalize env.cwd path with
      | some exe => .ok exe
      | none => .error ("cannot resolve " ++ path.display ++ ": " ++ env.osError path)
    else .error ("no such file: " ++ target)
  else
    match env.which target with
    | some path => .ok path
    | none =>
      match env.running target with
      | some exe => .ok exe
      | none => .error ("cannot resolve '" ++ target ++
          "' to an executable (not in PATH, not a unique running process)")

/-- The rule for a target that resolved to `exe`. -/
def ruleInput (target : String) (action : RuleAction) (temp : Option UInt64) (noPersist : Bool)
    (exe : PathBuf) : RuleInput where
  name := (exe.fileName.map fun name => String.ofList (PathBuf.utf8Lossy name)).getD target
  exePath := exe
  action := action
  persistent := !noPersist && temp.isNone
  ttlSecs := temp

/-- `resolve_rule`. -/
def resolveRule (target : String) (action : RuleAction) (temp : Option UInt64)
    (noPersist : Bool) : Except String RuleInput :=
  (env.resolveExe target).map (ruleInput target action temp noPersist)

variable {env}

/-! ## Names -/

/-- What `which` finds: in the first directory that has an executable of this name. -/
theorem which_eq_some {name : String} {c : PathBuf} (h : env.which name = some c) :
    env.isExecutable c = true ∧ ∃ before dir after, env.dirs = before ++ dir :: after ∧
      c = dir.join (.ofString name) ∧
        ∀ d ∈ before, env.isExecutable (d.join (.ofString name)) = false := by
  obtain ⟨hexec, before, after, hdirs, hbefore⟩ := List.find?_eq_some_iff_append.mp h
  obtain ⟨ds, rest, hds, rfl, hrest⟩ := List.map_eq_append_iff.mp hdirs
  obtain ⟨dir, ds', rfl, rfl, -⟩ := List.map_eq_cons_iff.mp hrest
  refine ⟨hexec, ds, dir, ds', hds, rfl, fun d hd => ?_⟩
  simpa using hbefore _ (List.mem_map_of_mem hd)

/-- From absolute directories it finds absolute paths. -/
theorem head?_which {name : String} {c : PathBuf} (h : env.which name = some c)
    (hdirs : ∀ dir ∈ env.dirs, dir.bytes.head? = some PathBuf.slash) :
    c.bytes.head? = some PathBuf.slash := by
  obtain ⟨-, before, dir, after, hmem, rfl, -⟩ := which_eq_some h
  refine PathBuf.head?_join (hdirs dir ?_)
  rw [hmem]
  exact List.mem_append_right _ List.mem_cons_self

theorem resolveExe_of_which {name : String} {c : PathBuf} (hname : '/' ∉ name.toList)
    (h : env.which name = some c) : env.resolveExe name = .ok c := by
  rw [resolveExe, if_neg hname, h]

/-! ## Paths -/

/-- An executable is somewhere. -/
theorem resolve_of_isExecutable {path : PathBuf} (h : env.isExecutable path = true) :
    ∃ loc, env.fs.resolve env.cwd path = some loc ∧ env.fs.existsAt env.cwd path = true := by
  have hfile := (Bool.and_eq_true_iff.mp h).1
  unfold FileSystem.isFile at hfile
  split at hfile
  · rename_i mode hmeta
    obtain ⟨loc, hloc, -⟩ := Option.bind_eq_some_iff.mp hmeta
    exact ⟨loc, hloc, Option.isSome_of_eq_some hmeta⟩
  · cases hfile

/-- A path that leads somewhere resolves to its canonical path. -/
theorem resolveExe_of_resolve {path : String} {loc : Location} (hslash : '/' ∈ path.toList)
    (hloc : env.fs.resolve env.cwd (.ofString path) = some loc)
    (hexists : env.fs.existsAt env.cwd (.ofString path) = true) :
    env.resolveExe path = .ok (FileSystem.render loc) := by
  rw [resolveExe, if_pos hslash]
  dsimp only
  rw [if_pos hexists, FileSystem.canonicalize_of_resolve hloc]

end Env

end Cli

end TravelMode
