import Mathlib.Data.List.Infix
import TravelMode.Lib.UnixPath

/-!
# Path resolution

A tree of directories, files and symbolic links, and what the kernel makes of a path in it:
one segment after the other, `..` by the directory that was reached and not by the text, a
link replaced by its target. `canonicalize` is the path of the place that was reached.

`canonical_iff` says which absolute paths are canonical already, up to the equality of the
standard library: those without `..` and without a link on the way.
-/

namespace UnixFs

open PathBuf (slash Component)

/-- A place in the tree: the names from the root. -/
abbrev Location := List (List UInt8)

/-- What stands at a place, with its permission bits. -/
inductive Node where
  | file (mode : Nat)
  /-- A directory, and whether the caller may search it. -/
  | dir (mode : Nat) (searchable : Bool)
  | symlink (target : List UInt8)
  /-- A device, a socket or a pipe. -/
  | other (mode : Nat)
deriving DecidableEq, Repr

/-- The permission bits; those of a link are all set. -/
def Node.mode : Node → Nat
  | .file mode | .dir mode _ | .other mode => mode
  | .symlink _ => 0o777

/-- A tree: the root is a directory, and everything else has a proper name in one. -/
structure FileSystem where
  node : Location → Option Node
  root : ∃ mode searchable, node [] = some (.dir mode searchable)
  parent : ∀ here name, (node (here ++ [name])).isSome →
    ∃ mode searchable, node here = some (.dir mode searchable)
  named : ∀ here name, (node (here ++ [name])).isSome →
    PathBuf.segment name = some (.normal name) ∧ slash ∉ name

/-- What a walk along segments comes to. -/
inductive Walk where
  | done (here : Location)
  /-- A link was met: where, what it says, and what is left to walk. -/
  | link (here : Location) (target : List UInt8) (rest : List (List UInt8))
  | fail
deriving DecidableEq

namespace FileSystem

variable (fs : FileSystem)

/-! ## Resolution -/

/-- Walk along segments up to the first link. Every segment stands behind a directory, and one
that is not empty is looked up in it, `.` too. -/
def walk : Location → List (List UInt8) → Walk
  | here, [] => .done here
  | here, name :: rest =>
    match fs.node here with
    | some (.dir _ searchable) =>
      if name = [] then walk here rest
      else if searchable = false then .fail
      else if name = [46] then walk here rest
      else if name = [46, 46] then walk here.dropLast rest
      else
        match fs.node (here ++ [name]) with
        | none => .fail
        | some (.symlink target) => .link here target rest
        | some _ => walk (here ++ [name]) rest
    | _ => .fail

/-- Follow links, as many as are allowed. A target is walked in place of its link, from the
root if it is absolute. -/
def follow (links : Nat) (here : Location) (segments : List (List UInt8)) : Option Location :=
  match fs.walk here segments with
  | .done loc => some loc
  | .fail => none
  | .link dir target rest =>
    match links with
    | 0 => none
    | links + 1 =>
      if target = [] then none
      else follow links (if target.head? = some slash then [] else dir)
        (target.splitOn slash ++ rest)
termination_by structural links

/-- Links that one resolution may follow. -/
def maxLinks : Nat := 40

/-- The place that a path leads to, from the working directory. The empty path leads nowhere. -/
def resolve (cwd : Location) (path : PathBuf) : Option Location :=
  if path.bytes = [] then none
  else fs.follow maxLinks (if path.bytes.head? = some slash then [] else cwd)
    (path.bytes.splitOn slash)

/-- The absolute path that spells a place. -/
def render (loc : Location) : PathBuf := ⟨slash :: [slash].intercalate loc⟩

/-- `fs::canonicalize`. -/
def canonicalize (cwd : Location) (path : PathBuf) : Option PathBuf :=
  (fs.resolve cwd path).map render

/-- What stands where a path leads to: `fs::metadata`. -/
def metadata (cwd : Location) (path : PathBuf) : Option Node :=
  (fs.resolve cwd path).bind fs.node

/-- `Path::exists`. -/
def existsAt (cwd : Location) (path : PathBuf) : Bool := (fs.metadata cwd path).isSome

/-- `Path::is_file`. -/
def isFile (cwd : Location) (path : PathBuf) : Bool :=
  match fs.metadata cwd path with
  | some (.file _) => true
  | _ => false

/-- A symbolic link stands at this place. -/
def IsLink (loc : Location) : Prop := ∃ target, fs.node loc = some (.symlink target)

theorem isLink_iff {loc : Location} :
    fs.IsLink loc ↔ (match fs.node loc with | some (.symlink _) => true | _ => false) = true := by
  constructor
  · rintro ⟨target, h⟩
    rw [h]
  · intro h
    split at h
    · exact ⟨_, ‹_›⟩
    · cases h

instance (loc : Location) : Decidable (fs.IsLink loc) := decidable_of_iff' _ fs.isLink_iff

/-! ## What is reached -/

/-- A place where something other than a link stands. -/
def Settled (loc : Location) : Prop :=
  ∃ n, fs.node loc = some n ∧ ∀ target, n ≠ .symlink target

variable {fs}

theorem settled_of_dir {loc : Location} {mode : Nat} {searchable : Bool}
    (h : fs.node loc = some (.dir mode searchable)) : fs.Settled loc :=
  ⟨_, h, fun _ hlink => (nomatch hlink)⟩

theorem settled_root : fs.Settled [] := by
  obtain ⟨mode, searchable, h⟩ := fs.root
  exact settled_of_dir h

theorem not_isLink_of_settled {loc : Location} (h : fs.Settled loc) : ¬ fs.IsLink loc := by
  rintro ⟨target, htarget⟩
  obtain ⟨n, hn, hne⟩ := h
  exact hne target (Option.some.inj (hn.symm.trans htarget))

theorem settled_dropLast {loc : Location} (h : fs.Settled loc) : fs.Settled loc.dropLast := by
  rcases List.eq_nil_or_concat loc with rfl | ⟨here, name, rfl⟩
  · exact h
  · rw [List.concat_eq_append, List.dropLast_concat]
    obtain ⟨n, hn, -⟩ := h
    rw [List.concat_eq_append] at hn
    obtain ⟨mode, searchable, hdir⟩ := fs.parent here name (Option.isSome_of_eq_some hn)
    exact settled_of_dir hdir

/-- Above something settled there is no link. -/
theorem settled_of_isPrefix {pre loc : Location} (h : fs.Settled loc) (hpre : pre <+: loc) :
    fs.Settled pre := by
  induction loc using List.reverseRecOn with
  | nil => rwa [List.prefix_nil.mp hpre]
  | append_singleton here name ih =>
    rcases List.prefix_concat_iff.mp hpre with rfl | hpre
    · exact h
    · have hdir := settled_dropLast h
      rw [List.dropLast_concat] at hdir
      exact ih hdir hpre

/-- **Walking**: from a settled place one comes to settled places, link or not. -/
theorem walk_settled {here : Location} {segments : List (List UInt8)} (h : fs.Settled here) :
    (∀ loc, fs.walk here segments = .done loc → fs.Settled loc) ∧
      ∀ dir target rest, fs.walk here segments = .link dir target rest → fs.Settled dir := by
  induction segments generalizing here with
  | nil =>
    refine ⟨fun loc hdone => ?_, fun dir target rest hlink => (nomatch hlink)⟩
    cases hdone
    exact h
  | cons name segments ih =>
    rw [walk]
    split
    · split_ifs with hempty hdenied hdot hparent
      · exact ih h
      · exact ⟨fun _ hdone => (nomatch hdone), fun _ _ _ hlink => (nomatch hlink)⟩
      · exact ih h
      · exact ih (settled_dropLast h)
      · split
        · exact ⟨fun _ hdone => (nomatch hdone), fun _ _ _ hlink => (nomatch hlink)⟩
        · refine ⟨fun _ hdone => (nomatch hdone), fun dir target rest hlink => ?_⟩
          cases hlink
          exact h
        · rename_i n hne hn
          exact ih ⟨n, hn, fun target heq => hne target heq⟩
    · exact ⟨fun _ hdone => (nomatch hdone), fun _ _ _ hlink => (nomatch hlink)⟩

/-- Resolution walks to its end, or to a link that it may follow. -/
theorem follow_eq_some {links : Nat} {here loc : Location} {segments : List (List UInt8)}
    (h : fs.follow links here segments = some loc) :
    fs.walk here segments = .done loc ∨
      ∃ more dir target rest, links = more + 1 ∧ fs.walk here segments = .link dir target rest ∧
        fs.follow more (if target.head? = some slash then [] else dir)
          (target.splitOn slash ++ rest) = some loc := by
  unfold follow at h
  cases hwalk : fs.walk here segments with
  | done loc' =>
    rw [hwalk] at h
    exact .inl (congrArg Walk.done (Option.some.inj h))
  | link dir target rest =>
    rw [hwalk] at h
    cases links with
    | zero => cases h
    | succ more =>
      refine .inr ⟨more, dir, target, rest, rfl, rfl, ?_⟩
      dsimp only at h
      split at h
      · cases h
      · exact h
  | fail =>
    rw [hwalk] at h
    cases h

/-- Resolution ends at something, and never at a link: the last one is followed too. -/
theorem follow_settled {links : Nat} {here loc : Location} {segments : List (List UInt8)}
    (h : fs.Settled here) (hloc : fs.follow links here segments = some loc) : fs.Settled loc := by
  induction links generalizing here segments with
  | zero =>
    rcases follow_eq_some hloc with hdone | ⟨more, dir, target, rest, hlinks, -⟩
    · exact (walk_settled h).1 _ hdone
    · cases hlinks
  | succ links ih =>
    rcases follow_eq_some hloc with hdone | ⟨more, dir, target, rest, hlinks, hlink, hmore⟩
    · exact (walk_settled h).1 _ hdone
    · cases hlinks
      refine ih ?_ hmore
      split
      · exact settled_root
      · exact (walk_settled h).2 _ _ _ hlink

theorem resolve_settled {cwd loc : Location} {path : PathBuf}
    (habs : path.bytes.head? = some slash) (h : fs.resolve cwd path = some loc) :
    fs.Settled loc := by
  rw [resolve, if_pos habs] at h
  split at h
  · cases h
  · exact follow_settled settled_root h

/-! ## Canonical paths -/

theorem canonicalize_of_resolve {cwd loc : Location} {path : PathBuf}
    (h : fs.resolve cwd path = some loc) : fs.canonicalize cwd path = some (render loc) := by
  rw [canonicalize, h]
  rfl

/-- The names in what exists are proper ones. -/
theorem proper_of_settled {loc : Location} (h : fs.Settled loc) {name : List UInt8}
    (hname : name ∈ loc) : PathBuf.segment name = some (.normal name) ∧ slash ∉ name := by
  obtain ⟨before, after, rfl⟩ := List.append_of_mem hname
  obtain ⟨n, hn, -⟩ : fs.Settled (before ++ [name]) :=
    settled_of_isPrefix h ⟨after, by rw [List.append_assoc, List.singleton_append]⟩
  exact fs.named before name (Option.isSome_of_eq_some hn)

theorem filterMap_segment_proper {loc : Location}
    (h : ∀ name ∈ loc, PathBuf.segment name = some (.normal name)) :
    loc.filterMap PathBuf.segment = loc.map .normal := by
  induction loc with
  | nil => rfl
  | cons name loc ih =>
    rw [List.filterMap_cons, h name List.mem_cons_self, List.map_cons,
      ih fun name' hname' => h name' (List.mem_cons_of_mem _ hname')]

/-- The path that spells a place has its names as components. -/
theorem components_render {loc : Location}
    (h : ∀ name ∈ loc, PathBuf.segment name = some (.normal name) ∧ slash ∉ name) :
    (render loc).components = .rootDir :: loc.map .normal := by
  have hsplit : (render loc).bytes.splitOn slash =
      [] :: ([slash].intercalate loc).splitOn slash := by
    rw [render, List.splitOn_cons_eq_if_modifyHead, if_pos (beq_self_eq_true slash)]
  rw [PathBuf.components, hsplit]
  simp only [render, List.head?_cons, if_true]
  congr 1
  rw [List.filterMap_cons]
  show (([slash].intercalate loc).splitOn slash).filterMap PathBuf.segment = loc.map .normal
  cases loc with
  | nil => rfl
  | cons name loc =>
    rw [List.splitOn_intercalate _ (fun s hs => (h s hs).2) (List.cons_ne_nil name loc)]
    exact filterMap_segment_proper fun name hname => (h name hname).1

/-- Segments without `..` that meet no link are walked by their names. -/
theorem walk_names {here names : Location} {segments : List (List UInt8)}
    (hsegments : segments.filterMap PathBuf.segment = names.map .normal)
    (hlinks : ∀ pre, pre <+: names → ¬ fs.IsLink (here ++ pre)) :
    fs.walk here segments = .done (here ++ names) ∨ fs.walk here segments = .fail := by
  induction segments generalizing here names with
  | nil =>
    cases names with
    | nil => exact .inl (by rw [walk, List.append_nil])
    | cons name names => cases hsegments
  | cons s segments ih =>
    rw [walk]
    split
    · rw [List.filterMap_cons, PathBuf.segment] at hsegments
      split_ifs with hempty hdenied hdot hparent
      · rw [if_pos (.inl hempty)] at hsegments
        exact ih hsegments hlinks
      · exact .inr rfl
      · rw [if_pos (.inr hdot)] at hsegments
        exact ih hsegments hlinks
      · rw [if_neg (not_or.mpr ⟨hempty, hdot⟩), if_pos hparent] at hsegments
        cases names with
        | nil => cases hsegments
        | cons name names => cases hsegments
      · rw [if_neg (not_or.mpr ⟨hempty, hdot⟩), if_neg hparent] at hsegments
        cases names with
        | nil => cases hsegments
        | cons name names =>
          -- a name: it is looked up, and it is no link
          obtain ⟨rfl, hrest⟩ :
              s = name ∧ segments.filterMap PathBuf.segment = names.map .normal := by
            simpa using hsegments
          split
          · exact .inr rfl
          · rename_i target htarget
            exact absurd ⟨target, htarget⟩ (hlinks [s] ⟨names, rfl⟩)
          · rw [List.append_cons here s names]
            refine ih hrest fun pre hpre => ?_
            rw [List.append_assoc, List.singleton_append]
            exact hlinks (s :: pre) (List.cons_prefix_cons.mpr ⟨rfl, hpre⟩)
    · exact .inr rfl

end FileSystem

/-- The names in a path, from the left. -/
def names (path : PathBuf) : Location :=
  path.components.filterMap fun c =>
    match c with
    | .normal name => some name
    | _ => none

theorem names_of_components {path : PathBuf} {loc : Location}
    (h : path.components = .rootDir :: loc.map .normal) : names path = loc := by
  rw [names, h, List.filterMap_cons, List.filterMap_map]
  exact List.filterMap_some

/-- The components of an absolute path, by its segments. -/
theorem components_of_absolute {path : PathBuf} (habs : path.bytes.head? = some slash) :
    path.components = .rootDir :: (path.bytes.splitOn slash).filterMap PathBuf.segment := by
  rw [PathBuf.components, if_pos habs]

/-- An absolute path without `..` is the root and its names. -/
theorem components_eq_names {path : PathBuf} (habs : path.bytes.head? = some slash)
    (hparent : Component.parentDir ∉ path.components) :
    path.components = .rootDir :: (names path).map .normal := by
  have hbody : ∀ c ∈ (path.bytes.splitOn slash).filterMap PathBuf.segment,
      ∃ name, c = Component.normal name := by
    intro c hc
    obtain ⟨s, -, hs⟩ := List.mem_filterMap.mp hc
    unfold PathBuf.segment at hs
    split_ifs at hs
    · cases hs
      rw [components_of_absolute habs] at hparent
      exact absurd (List.mem_cons_of_mem _ hc) hparent
    · exact ⟨s, (Option.some.inj hs).symm⟩
  rw [names, components_of_absolute habs]
  congr 1
  generalize (path.bytes.splitOn slash).filterMap PathBuf.segment = body at hbody
  rw [List.filterMap_cons]
  induction body with
  | nil => rfl
  | cons c body ih =>
    obtain ⟨name, rfl⟩ := hbody c List.mem_cons_self
    have hrest := ih fun c hc => hbody c (List.mem_cons_of_mem _ hc)
    exact congrArg (Component.normal name :: ·) hrest

namespace FileSystem

variable (fs : FileSystem)

/-- A path that says where it leads: no `..` in it and no link on the way. -/
def Direct (path : PathBuf) : Prop :=
  Component.parentDir ∉ path.components ∧ ∀ pre, pre <+: names path → ¬ fs.IsLink pre

instance (path : PathBuf) : Decidable (fs.Direct path) :=
  decidable_of_iff (Component.parentDir ∉ path.components ∧
      ∀ pre ∈ (names path).inits, ¬ fs.IsLink pre)
    (and_congr_right' (forall_congr' fun pre => by rw [List.mem_inits]))

variable {fs}

/-- **Canonical paths**: an absolute path that leads somewhere equals the path of where it
leads exactly when it is direct. -/
theorem canonical_iff {cwd loc : Location} {path : PathBuf}
    (habs : path.bytes.head? = some slash) (h : fs.resolve cwd path = some loc) :
    path.pathEq (render loc) = true ↔ fs.Direct path := by
  have hloc : fs.Settled loc := resolve_settled habs h
  rw [PathBuf.pathEq_iff, components_render fun name hname => proper_of_settled hloc hname]
  constructor
  · intro hpath
    refine ⟨fun hparent => ?_, fun pre hpre => ?_⟩
    · simp [hpath] at hparent
    · rw [names_of_components hpath] at hpre
      exact not_isLink_of_settled (settled_of_isPrefix hloc hpre)
  · rintro ⟨hparent, hlinks⟩
    have hnames := components_eq_names habs hparent
    have hsegments :
        (path.bytes.splitOn slash).filterMap PathBuf.segment = (names path).map .normal :=
      (List.cons.inj ((components_of_absolute habs).symm.trans hnames)).2
    have hwalk : fs.walk [] (path.bytes.splitOn slash) = .done (names path) ∨
        fs.walk [] (path.bytes.splitOn slash) = .fail := walk_names hsegments hlinks
    rw [resolve, if_pos habs] at h
    split at h
    · cases h
    · -- the walk meets no link, so it is the whole resolution
      rcases follow_eq_some h with hdone | ⟨more, dir, target, rest, -, hlink, -⟩
      · rw [hdone] at hwalk
        rcases hwalk with hdone | hfail
        · cases hdone
          exact hnames
        · cases hfail
      · rw [hlink] at hwalk
        rcases hwalk with hdone | hfail
        · cases hdone
        · cases hfail

/-! ## Trees given by their entries -/

/-- The entry is a directory. -/
def isDir : Option Node → Bool
  | some (.dir _ _) => true
  | _ => false

theorem isDir_iff {n : Option Node} :
    isDir n = true ↔ ∃ mode searchable, n = some (.dir mode searchable) := by
  constructor
  · intro h
    unfold isDir at h
    split at h
    · exact ⟨_, _, rfl⟩
    · cases h
  · rintro ⟨mode, searchable, rfl⟩
    rfl

/-- The root is listed as a directory, and every other entry is a proper name in one. -/
def WellFormed (entries : List (Location × Node)) : Prop :=
  isDir (entries.lookup []) = true ∧ ∀ e ∈ entries, ∀ name ∈ e.1.getLast?,
    isDir (entries.lookup e.1.dropLast) = true ∧
      PathBuf.segment name = some (.normal name) ∧ slash ∉ name

instance (entries : List (Location × Node)) : Decidable (WellFormed entries) :=
  inferInstanceAs (Decidable (_ ∧ _))

theorem WellFormed.entry {entries : List (Location × Node)} (h : WellFormed entries)
    {here : Location} {name : List UInt8} (hsome : (entries.lookup (here ++ [name])).isSome) :
    isDir (entries.lookup here) = true ∧
      PathBuf.segment name = some (.normal name) ∧ slash ∉ name := by
  obtain ⟨n, hn⟩ := Option.isSome_iff_exists.mp hsome
  obtain ⟨before, after, hentries, -⟩ := List.lookup_eq_some_iff.mp hn
  have hmem : (here ++ [name], n) ∈ entries := by
    rw [hentries]
    exact List.mem_append_right _ List.mem_cons_self
  simpa using h.2 _ hmem name (by simp)

/-- The tree of the listed entries. -/
def ofEntries (entries : List (Location × Node)) (h : WellFormed entries) : FileSystem where
  node loc := entries.lookup loc
  root := isDir_iff.mp h.1
  parent _ _ hsome := isDir_iff.mp (h.entry hsome).1
  named _ _ hsome := (h.entry hsome).2

end FileSystem

end UnixFs
