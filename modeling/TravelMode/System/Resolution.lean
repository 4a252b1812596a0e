import TravelMode.Cli.Main
import TravelMode.Daemon.Rules

/-!
# Names and paths

`travelmode block` takes a name or a path. A path resolves to its canonical path, which is
what `/proc/<pid>/exe` reports; a name resolves to what `PATH` has under it, as it stands
there.

- `isBlocked_add_congr`: two spellings of one path make rules that block the same.
- `names_agree_iff`: a name and the path that it was found at make such rules exactly if that
  path is direct; `awk_disagrees` is a name that is found at a link.
- `not_blocks_of_not_direct`: otherwise the rule by name spares the process.
-/

namespace TravelMode

open UnixFs (FileSystem)

/-- Under two spellings of its path, an added rule blocks the same. -/
theorem Inner.isBlocked_add_congr {st : Inner} {r r' : RuleInput}
    (hpath : r.exePath.pathEq r'.exePath = true) (haction : r.action = r'.action)
    (httl : r.ttlSecs = r'.ttlSecs) (now later : DateTime) (exe : PathBuf) :
    (st.add r now).map (fun added => added.2.isBlocked exe later) =
      (st.add r' now).map fun added => added.2.isBlocked exe later := by
  unfold Inner.add
  rw [httl]
  cases ruleExpiry r'.ttlSecs now with
  | none => rfl
  | some expiresAt =>
    dsimp only
    split
    · rw [Option.map_some, Option.map_some]
      congr 1
      -- both replace the same rules, and what they put there blocks the same
      have hkept : ∀ s : Rule, sameTarget s (st.newRule r now expiresAt) =
          sameTarget s (st.newRule r' now expiresAt) := by
        intro s
        show (s.exePath.pathEq r.exePath && decide (s.action = r.action)) =
          (s.exePath.pathEq r'.exePath && decide (s.action = r'.action))
        rw [PathBuf.pathEq_congr_right hpath, haction]
      have hnew : (st.newRule r now expiresAt).blocks exe =
          (st.newRule r' now expiresAt).blocks exe := by
        show (decide (r.action = .block) && r.exePath.pathEq exe) =
          (decide (r'.action = .block) && r'.exePath.pathEq exe)
        rw [PathBuf.pathEq_congr_left hpath, haction]
      simp only [Inner.isBlocked, List.any_append, List.any_cons, List.any_nil, hkept, hnew]
      rfl
    · rfl

namespace Cli

namespace Env

variable {env : Env}

/-- A name and a path resolve alike: to equal paths, the canonical one of the path, so that
the rules that are made of them block the same. -/
structure Agree (env : Env) (name path : String) : Prop where
  same : ∃ p q, env.resolveExe name = .ok p ∧ env.resolveExe path = .ok q ∧
    p.pathEq q = true ∧ env.fs.canonicalize env.cwd (.ofString path) = some q
  rules : ∀ action temp noPersist, ∃ r r',
    env.resolveRule name action temp noPersist = .ok r ∧
      env.resolveRule path action temp noPersist = .ok r' ∧
        ∀ (st : Inner) now later exe,
          (st.add r now).map (fun added => added.2.isBlocked exe later) =
            (st.add r' now).map fun added => added.2.isBlocked exe later

/-- What a name and the path that it was found at resolve to. -/
theorem resolveExe_which {name path : String} (hname : '/' ∉ name.toList)
    (hdirs : ∀ dir ∈ env.dirs, dir.bytes.head? = some PathBuf.slash)
    (hwhich : env.which name = some (.ofString path)) :
    ∃ loc, env.fs.resolve env.cwd (.ofString path) = some loc ∧
      env.resolveExe name = .ok (.ofString path) ∧
        env.resolveExe path = .ok (FileSystem.render loc) := by
  have habs := head?_which hwhich hdirs
  have hslash : '/' ∈ path.toList :=
    PathBuf.slash_mem_ofString.mp (List.mem_of_head? habs)
  obtain ⟨loc, hloc, hexists⟩ := resolve_of_isExecutable (which_eq_some hwhich).1
  exact ⟨loc, hloc, resolveExe_of_which hname hwhich, resolveExe_of_resolve hslash hloc hexists⟩

/-- **Name and path** agree exactly if the path that the name was found at is direct. -/
theorem names_agree_iff {name path : String} (hname : '/' ∉ name.toList)
    (hdirs : ∀ dir ∈ env.dirs, dir.bytes.head? = some PathBuf.slash)
    (hwhich : env.which name = some (.ofString path)) :
    env.Agree name path ↔ env.fs.Direct (.ofString path) := by
  obtain ⟨loc, hloc, hresName, hresPath⟩ := resolveExe_which hname hdirs hwhich
  have hcanonical := FileSystem.canonicalize_of_resolve hloc
  rw [← FileSystem.canonical_iff (head?_which hwhich hdirs) hloc]
  constructor
  · rintro ⟨⟨p, q, hp, hq, hpath, -⟩, -⟩
    cases hresName.symm.trans hp
    cases hresPath.symm.trans hq
    exact hpath
  · intro hpath
    refine ⟨⟨_, _, hresName, hresPath, hpath, hcanonical⟩, fun action temp noPersist => ?_⟩
    have hrules : (ruleInput name action temp noPersist (.ofString path)).exePath.pathEq
        (ruleInput path action temp noPersist (FileSystem.render loc)).exePath = true := hpath
    refine ⟨_, _, ?_, ?_, fun st now later exe =>
      Inner.isBlocked_add_congr hrules rfl rfl now later exe⟩
    · rw [resolveRule, hresName]
      rfl
    · rw [resolveRule, hresPath]
      rfl

/-- The bytes of a text. -/
def bytes (s : String) : List UInt8 := (PathBuf.ofString s).bytes

/-- A machine where `curl` is a file, and `awk` is one of the alternatives. -/
def debian : Env where
  fs := .ofEntries
    [([], .dir 0o755 true),
     ([bytes "usr"], .dir 0o755 true),
     ([bytes "usr", bytes "bin"], .dir 0o755 true),
     ([bytes "usr", bytes "bin", bytes "curl"], .file 0o755),
     ([bytes "usr", bytes "bin", bytes "mawk"], .file 0o755),
     ([bytes "usr", bytes "bin", bytes "awk"], .symlink (bytes "/etc/alternatives/awk")),
     ([bytes "etc"], .dir 0o755 true),
     ([bytes "etc", bytes "alternatives"], .dir 0o755 true),
     ([bytes "etc", bytes "alternatives", bytes "awk"], .symlink (bytes "/usr/bin/mawk"))]
    (by decide +kernel)
  cwd := []
  pathVar := some (bytes "/usr/local/bin:/usr/bin")
  osError _ := "No such file or directory (os error 2)"
  processes := .ok (.processes [])

theorem names_agree_iff_curl : debian.Agree "curl" "/usr/bin/curl" :=
  (names_agree_iff (by decide) (by decide +kernel) (by decide +kernel)).mpr (by decide +kernel)

/-- `awk` is blocked where it stands in `PATH`, and runs as `/usr/bin/mawk`. -/
theorem awk_disagrees :
    ('/' ∉ "awk".toList ∧ ∀ dir ∈ debian.dirs, dir.bytes.head? = some PathBuf.slash) ∧
      debian.which "awk" = some (.ofString "/usr/bin/awk") ∧
      debian.resolveExe "awk" = .ok (.ofString "/usr/bin/awk") ∧
      debian.resolveExe "/usr/bin/awk" = .ok (.ofString "/usr/bin/mawk") ∧
      ¬ debian.Agree "awk" "/usr/bin/awk" := by
  have hname : '/' ∉ "awk".toList := by decide
  have hwhich : debian.which "awk" = some (.ofString "/usr/bin/awk") := by decide +kernel
  have hresName := resolveExe_of_which hname hwhich
  have hresPath : debian.resolveExe "/usr/bin/awk" = .ok (.ofString "/usr/bin/mawk") := rfl
  refine ⟨⟨hname, by decide +kernel⟩, hwhich, hresName, hresPath, fun h => ?_⟩
  obtain ⟨p, q, hp, hq, hpq, -⟩ := h.same
  cases hresName.symm.trans hp
  cases hresPath.symm.trans hq
  revert hpq
  decide +kernel

/-- A rule by a name that was found at an indirect path spares the process of it. -/
theorem not_blocks_of_not_direct {name path : String} (hname : '/' ∉ name.toList)
    (hdirs : ∀ dir ∈ env.dirs, dir.bytes.head? = some PathBuf.slash)
    (hwhich : env.which name = some (.ofString path))
    (hdirect : ¬ env.fs.Direct (.ofString path)) {r : RuleInput} {action : RuleAction}
    {temp : Option UInt64} {noPersist : Bool}
    (hr : env.resolveRule name action temp noPersist = .ok r) {st st' : Inner} {now : DateTime}
    {rule : Rule} (hadd : st.add r now = some (rule, st')) {exe : PathBuf}
    (hexe : env.fs.canonicalize env.cwd (.ofString path) = some exe) :
    rule.blocks exe = false := by
  obtain ⟨loc, hloc, hresName, -⟩ := resolveExe_which hname hdirs hwhich
  obtain ⟨expiresAt, -, -, rfl, -⟩ := Inner.add_eq_some.mp hadd
  rw [FileSystem.canonicalize_of_resolve hloc] at hexe
  rw [resolveRule, hresName] at hr
  cases hexe
  cases hr
  rw [← FileSystem.canonical_iff (head?_which hwhich hdirs) hloc] at hdirect
  rw [Bool.eq_false_iff]
  intro hblocks
  exact hdirect (Rule.blocks_iff.mp hblocks).2

end Env

end Cli

end TravelMode
