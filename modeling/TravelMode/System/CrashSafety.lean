import TravelMode.Daemon.RuleFile
import TravelMode.Lib.KeyedMap

/-!
# Saving through failures and crashes

`save_locked` in its steps: serialize, create the directory, write the temporary file,
rename it over the rules file. Each of them may fail, and the daemon may be killed before
and after each, and in the middle of the write.

- `Machine`: the disk, and the daemon if one runs.
- `Inv`: the rules file is as it was at first, or holds the whole of the store that was
  last renamed; a save in progress has its text, or has it in the temporary file.
- `save_crash_atomic`: so it is at every instant of every run.
- `refines_storeFile`: without failures, these are the steps that `StoreFile` takes at once, and
  so for whole histories (`histories_refined`).
-/

namespace TravelMode

namespace CrashSafety

open PathBuf

/-! ## The steps of a save -/

/-- The files by their paths. -/
abbrev Disk := KeyedMap (List Component) ByteArray

/-- `path.with_extension("json.tmp")` -/
def tmpPath (path : PathBuf) : PathBuf := path.withExtension (ofString "json.tmp").bytes

/-- `read_to_string` and `from_str`. -/
def readRules (J : RulesJson) (disk : Disk) (path : PathBuf) : Option Persisted :=
  (disk.get? path.components).bind fun bytes => (String.fromUTF8? bytes).bind J.fromStr

/-- Where a thread that holds the store's mutex is in `save_locked`. -/
inductive Phase where
  /-- No save is in progress. -/
  | idle
  | serialize
  | createDir (text : String)
  | write (text : String)
  | rename
deriving DecidableEq

/-- A daemon that runs. -/
structure Running where
  store : Inner
  phase : Phase
deriving DecidableEq

structure Machine where
  disk : Disk
  daemon : Option Running
  /-- The stores that `save_locked` was called on, oldest first. -/
  saves : List Persisted
  /-- The store whose rename was the last to succeed. -/
  renamed : Option Persisted

inductive Step where
  /-- The daemon starts, and loads its rules. -/
  | start (now : DateTime)
  /-- A call changes the store; if it changed, the same critical section goes on to save. -/
  | call (now : DateTime) (op : RuleOp)
  /-- The save on shutdown. -/
  | save
  | serialize
  | createDir
  /-- The temporary file is created, truncated, or written in part. -/
  | writePart (bytes : ByteArray)
  | write
  | rename
  /-- The step at hand fails, and `save_locked` returns. -/
  | fail
  | kill

/-- A machine whose daemon has not started yet. -/
def off (disk : Disk) : Machine := ⟨disk, none, [], none⟩

/-- The phase after the store was serialized. -/
def Phase.afterSerialize (path : PathBuf) : Option String → Phase
  | none => .idle
  | some text => if path.parent.isSome then .createDir text else .write text

/-- One step of a machine whose daemon keeps its rules at `path`. -/
def step (J : RulesJson) (path : PathBuf) (m : Machine) : Step → Option Machine
  | .start now =>
    match m.daemon with
    | none =>
      (Inner.load path (readRules J m.disk path) now).map fun store =>
        { m with daemon := some ⟨store, .idle⟩ }
    | some _ => none
  | .call now op =>
    match m.daemon with
    | some ⟨store, .idle⟩ =>
      let out := store.exec now op
      if out.saves then
        some { m with
          daemon := some ⟨out.store, .serialize⟩
          saves := m.saves ++ [out.store.persisted] }
      else some { m with daemon := some ⟨out.store, .idle⟩ }
    | _ => none
  | .save =>
    match m.daemon with
    | some ⟨store, .idle⟩ =>
      some { m with daemon := some ⟨store, .serialize⟩, saves := m.saves ++ [store.persisted] }
    | _ => none
  | .serialize =>
    match m.daemon with
    | some ⟨store, .serialize⟩ =>
      some { m with
        daemon := some ⟨store, .afterSerialize store.path (J.toStringPretty store.persisted)⟩ }
    | _ => none
  | .createDir =>
    match m.daemon with
    | some ⟨store, .createDir text⟩ => some { m with daemon := some ⟨store, .write text⟩ }
    | _ => none
  | .writePart bytes =>
    match m.daemon with
    | some ⟨store, .write _⟩ =>
      some { m with disk := m.disk.insert (tmpPath store.path).components bytes }
    | _ => none
  | .write =>
    match m.daemon with
    | some ⟨store, .write text⟩ =>
      some { m with
        disk := m.disk.insert (tmpPath store.path).components text.toUTF8
        daemon := some ⟨store, .rename⟩ }
    | _ => none
  | .rename =>
    match m.daemon with
    | some ⟨store, .rename⟩ =>
      (m.disk.get? (tmpPath store.path).components).map fun bytes =>
        { m with
          disk := (m.disk.erase (tmpPath store.path).components).insert store.path.components bytes
          daemon := some ⟨store, .idle⟩
          renamed := some store.persisted }
    | _ => none
  | .fail =>
    match m.daemon with
    | some ⟨_, .idle⟩ | none => none
    | some ⟨store, _⟩ => some { m with daemon := some ⟨store, .idle⟩ }
  | .kill => some { m with daemon := none }

/-! ## What holds at every instant -/

/-- What the rules file holds, given the last store renamed: the whole of that store, and
before the first rename what it held from the start. -/
def Holds (J : RulesJson) (initial : Option ByteArray) (m : Machine)
    (content : Option ByteArray) : Prop :=
  match m.renamed with
  | none => content = initial
  | some p => p ∈ m.saves ∧ ∃ text, J.toStringPretty p = some text ∧ content = some text.toUTF8

/-- What a save in progress has done so far. -/
def SaveOk (J : RulesJson) (m : Machine) (d : Running) : Prop :=
  match d.phase with
  | .idle => True
  | .serialize => d.store.persisted ∈ m.saves
  | .createDir text | .write text =>
    d.store.persisted ∈ m.saves ∧ J.toStringPretty d.store.persisted = some text
  | .rename =>
    d.store.persisted ∈ m.saves ∧ ∃ text, J.toStringPretty d.store.persisted = some text ∧
      m.disk.get? (tmpPath d.store.path).components = some text.toUTF8

structure Inv (J : RulesJson) (path : PathBuf) (disk : Disk) (m : Machine) : Prop where
  place : ∀ d, m.daemon = some d → d.store.path = path
  content : Holds J (disk.get? path.components) m (m.disk.get? path.components)
  save : ∀ d, m.daemon = some d → SaveOk J m d

variable {J : RulesJson} {path : PathBuf} {disk : Disk}

/-- The temporary file is another one. -/
theorem tmpPath_ne (h : path.fileName.isSome = true) :
    (tmpPath path).components ≠ path.components := by
  have hne := withExtension_pathEq h (show dot ∈ (ofString "json.tmp").bytes by decide)
    (show slash ∉ (ofString "json.tmp").bytes by decide)
  intro heq
  rw [tmpPath] at heq
  rw [pathEq_iff.mpr heq] at hne
  cases hne

theorem load_path {persisted : Option Persisted} {now : DateTime} {store : Inner}
    (h : Inner.load path persisted now = some store) : store.path = path := by
  unfold Inner.load at h
  dsimp only at h
  split at h
  · cases h
    rfl
  · cases h

theorem exec_path (store : Inner) (now : DateTime) (op : RuleOp) :
    (store.exec now op).store.path = store.path := by
  rcases Inner.exec_cases store now op with ⟨_, _, st, -, h, he⟩ | ⟨_, -, -, he⟩ |
    ⟨_, _, st, -, h, he⟩ | ⟨_, -, -, he⟩ | ⟨-, he⟩ <;> rw [he]
  · obtain ⟨_, -, -, -, rfl⟩ := Inner.add_eq_some.mp h
    rfl
  · obtain ⟨-, -, rfl⟩ := Inner.remove_eq_some h
    rfl
  · rfl

/-- A step that leaves the rules file alone, renames nothing and forgets no save. -/
theorem Inv.of_kept {m m' : Machine} (h : Inv J path disk m)
    (hrenamed : m'.renamed = m.renamed) (hsaves : ∀ p ∈ m.saves, p ∈ m'.saves)
    (hcontent : m'.disk.get? path.components = m.disk.get? path.components)
    (hdaemon : ∀ d, m'.daemon = some d → d.store.path = path ∧ SaveOk J m' d) :
    Inv J path disk m' where
  place d hd := (hdaemon d hd).1
  content := by
    have hold := h.content
    rw [hcontent]
    unfold Holds at hold ⊢
    rw [hrenamed]
    cases hr : m.renamed with
    | none =>
      rw [hr] at hold
      exact hold
    | some p =>
      rw [hr] at hold
      exact ⟨hsaves p hold.1, hold.2⟩
  save d hd := (hdaemon d hd).2

/-- A step of the daemon that touches no file. -/
theorem Inv.of_daemon {m : Machine} {d : Running} (h : Inv J path disk m)
    (hpath : d.store.path = path) (hsave : SaveOk J m d) :
    Inv J path disk { m with daemon := some d } :=
  h.of_kept rfl (fun _ hp => hp) rfl fun d' hd' => by
    cases hd'
    exact ⟨hpath, hsave⟩

/-- A save begins. -/
theorem Inv.begin_save {m : Machine} {store : Inner} (h : Inv J path disk m)
    (hpath : store.path = path) :
    Inv J path disk
      { m with daemon := some ⟨store, .serialize⟩, saves := m.saves ++ [store.persisted] } :=
  h.of_kept rfl (fun _ hp => List.mem_append_left _ hp) rfl fun d hd => by
    cases hd
    exact ⟨hpath, List.mem_append_right _ (List.mem_singleton.mpr rfl)⟩

/-- A step that writes the temporary file. -/
theorem Inv.write_tmp {m : Machine} {d : Running} {bytes : ByteArray} (h : Inv J path disk m)
    (hname : path.fileName.isSome = true) (hpath : d.store.path = path)
    (hsave : SaveOk J { m with disk := m.disk.insert (tmpPath path).components bytes } d) :
    Inv J path disk
      { m with disk := m.disk.insert (tmpPath path).components bytes, daemon := some d } :=
  h.of_kept rfl (fun _ hp => hp)
    (KeyedMap.get?_insert_of_ne (tmpPath_ne hname).symm) fun d' hd' => by
      cases hd'
      exact ⟨hpath, hsave⟩

/-- The text of the store is at hand once it is serialized. -/
theorem saveOk_afterSerialize {m : Machine} {store : Inner} (hmem : store.persisted ∈ m.saves) :
    SaveOk J m ⟨store, .afterSerialize store.path (J.toStringPretty store.persisted)⟩ := by
  unfold Phase.afterSerialize
  cases htext : J.toStringPretty store.persisted with
  | none => trivial
  | some text =>
    dsimp only
    cases store.path.parent.isSome with
    | true => exact ⟨hmem, htext⟩
    | false => exact ⟨hmem, htext⟩

/-- The rename puts the whole text in place, which is what the temporary file holds. -/
theorem Inv.finish_save {m : Machine} {store : Inner} {bytes : ByteArray} (h : Inv J path disk m)
    (hd : m.daemon = some ⟨store, .rename⟩)
    (hbytes : m.disk.get? (tmpPath store.path).components = some bytes) :
    Inv J path disk { m with
      disk := (m.disk.erase (tmpPath store.path).components).insert store.path.components bytes
      daemon := some ⟨store, .idle⟩
      renamed := some store.persisted } := by
  have hpath : store.path = path := h.place _ hd
  obtain ⟨hmem, text, htext, htmp⟩ : _ ∧ _ := h.save _ hd
  rw [hbytes] at htmp
  cases htmp
  refine ⟨?_, ⟨hmem, text, htext, ?_⟩, ?_⟩
  · intro d hd'
    cases hd'
    exact hpath
  · rw [← hpath]
    exact KeyedMap.get?_insert_self _ _ _
  · intro d hd'
    cases hd'
    trivial

/-- **Step lemma.** -/
theorem inv_step (hname : path.fileName.isSome = true) {m m' : Machine} {a : Step}
    (h : Inv J path disk m) (hs : step J path m a = some m') : Inv J path disk m' := by
  cases a with
  | start now =>
    simp only [step] at hs
    split at hs
    · obtain ⟨store, hload, rfl⟩ := Option.map_eq_some_iff.mp hs
      exact h.of_daemon (load_path hload) trivial
    · cases hs
  | call now op =>
    simp only [step] at hs
    split at hs
    · rename_i store hd
      have hpath := (exec_path store now op).trans (h.place _ hd)
      split at hs
      · cases hs
        exact h.begin_save hpath
      · cases hs
        exact h.of_daemon hpath trivial
    · cases hs
  | save =>
    simp only [step] at hs
    split at hs
    · rename_i store hd
      cases hs
      exact h.begin_save (h.place _ hd)
    · cases hs
  | serialize =>
    simp only [step] at hs
    split at hs
    · rename_i store hd
      cases hs
      have hpath : store.path = path := h.place _ hd
      exact h.of_daemon hpath (saveOk_afterSerialize (h.save _ hd))
    · cases hs
  | createDir =>
    simp only [step] at hs
    split at hs
    · rename_i store text hd
      cases hs
      have hpath : store.path = path := h.place _ hd
      have hsave : SaveOk J m ⟨store, .createDir text⟩ := h.save _ hd
      exact h.of_daemon hpath hsave
    · cases hs
  | writePart bytes =>
    simp only [step] at hs
    split at hs
    · rename_i store text hd
      cases hs
      have hpath : store.path = path := h.place _ hd
      have hsave : SaveOk J m ⟨store, .write text⟩ := h.save _ hd
      -- a torn write is in the temporary file, and promises nothing of it
      have hkept := @Inv.write_tmp _ _ _ m ⟨store, .write text⟩ bytes h hname hpath hsave
      rw [hpath]
      rwa [← hd] at hkept
    · cases hs
  | write =>
    simp only [step] at hs
    split at hs
    · rename_i store text hd
      cases hs
      have hpath : store.path = path := h.place _ hd
      obtain ⟨hmem, htext⟩ : _ ∧ _ := h.save _ hd
      rw [hpath]
      refine h.write_tmp hname hpath ⟨hmem, text, htext, ?_⟩
      show (m.disk.insert _ _).get? (tmpPath store.path).components = _
      rw [hpath, KeyedMap.get?_insert_self]
    · cases hs
  | rename =>
    simp only [step] at hs
    split at hs
    · rename_i store hd
      obtain ⟨bytes, hbytes, rfl⟩ := Option.map_eq_some_iff.mp hs
      exact h.finish_save hd hbytes
    · cases hs
  | fail =>
    simp only [step] at hs
    split at hs
    · cases hs
    · cases hs
    · rename_i store phase _ hd
      cases hs
      have hpath : store.path = path := h.place _ hd
      -- whatever the save had done, the daemon is idle again
      exact h.of_daemon hpath trivial
  | kill =>
    cases hs
    exact h.of_kept rfl (fun _ hp => hp) rfl fun d hd => nomatch hd

theorem inv_off (disk : Disk) : Inv J path disk (off disk) where
  place _ hd := nomatch hd
  content := rfl
  save _ hd := nomatch hd

/-- **Run lemma.** -/
theorem inv_run (hname : path.fileName.isSome = true) {sched : List Step} {m : Machine}
    (h : Runs.run (step J path) (off disk) sched = some m) : Inv J path disk m :=
  Runs.run_invariant (fun hi hs => inv_step hname hi hs) (inv_off disk) h

@[simp] theorem fromUTF8?_toUTF8 (text : String) : String.fromUTF8? text.toUTF8 = some text :=
  dif_pos text.isValidUTF8

/-- **Crash safety**: the temporary file is not the rules file; at every instant the rules
file is as it was at first, or holds the whole of a store that was saved, the last one
renamed; and that is what a start then reads. -/
theorem save_crash_atomic (hJ : J.RoundTrip) (hname : path.fileName.isSome = true)
    {sched : List Step} {m : Machine}
    (h : Runs.run (step J path) (off disk) sched = some m) :
    (tmpPath path).pathEq path = false ∧
    Holds J (disk.get? path.components) m (m.disk.get? path.components) ∧
    readRules J m.disk path =
      match m.renamed with
      | none => readRules J disk path
      | some p => some p := by
  have hcontent := (inv_run hname h).content
  refine ⟨decide_eq_false (tmpPath_ne hname), hcontent, ?_⟩
  unfold Holds at hcontent
  cases hrenamed : m.renamed with
  | none =>
    rw [hrenamed] at hcontent
    rw [readRules, hcontent]
    rfl
  | some p =>
    rw [hrenamed] at hcontent
    obtain ⟨-, text, htext, hfile⟩ := hcontent
    rw [readRules, hfile, Option.bind_some, fromUTF8?_toUTF8]
    exact hJ p text htext

/-- The daemon is killed in the middle of the first write; started again, it saves the
rule, and the save after its removal fails. -/
def tornWrites : List Step :=
  [.start .epoch, .call .epoch (.add StoreFile.sessionBlock), .serialize, .createDir,
    .writePart "\x7b\n  \"next".toUTF8, .kill,
    .start .epoch, .call .epoch (.add StoreFile.sessionBlock), .serialize, .createDir,
    .writePart "\x7b".toUTF8, .write, .rename,
    .call .epoch (.remove 1), .serialize]

theorem tornWrites_runs :
    (Runs.run (step StoreFile.sessionJson StoreFile.rulesFile) (off .empty) tornWrites).isSome =
      true := by
  decide +kernel

theorem save_crash_atomic_torn :
    let m := (Runs.run (step StoreFile.sessionJson StoreFile.rulesFile) (off .empty)
      tornWrites).get tornWrites_runs
    m.renamed = some ⟨2, [StoreFile.sessionRule]⟩ ∧
    (tmpPath StoreFile.rulesFile).pathEq StoreFile.rulesFile = false ∧
    Holds StoreFile.sessionJson none m (m.disk.get? StoreFile.rulesFile.components) ∧
    readRules StoreFile.sessionJson m.disk StoreFile.rulesFile =
      some ⟨2, [StoreFile.sessionRule]⟩ :=
  ⟨by decide +kernel,
    save_crash_atomic (RulesJson.just_roundTrip _ _) (by decide +kernel)
      (Option.some_get tornWrites_runs).symm⟩

/-! ## Without failures -/

/-- The machine's daemon is between two calls, on this store, and its file is this one. -/
structure Agrees (path : PathBuf) (m : Machine) (w : StoreFile) : Prop where
  daemon : m.daemon = some ⟨w.store, .idle⟩
  file : m.disk.get? path.components = w.text.map String.toUTF8
  place : w.store.path = path

/-- The last two steps of a save that succeeds. -/
theorem write_completes (disk : Disk) (saves : List Persisted) (renamed : Option Persisted)
    {store : Inner} (text : String) (hplace : store.path = path) (issued : List Rule) :
    ∃ m', Runs.run (step J path) ⟨disk, some ⟨store, .write text⟩, saves, renamed⟩
        [.write, .rename] = some m' ∧ Agrees path m' ⟨store, some text, issued⟩ := by
  let written := disk.insert (tmpPath store.path).components text.toUTF8
  have hwrite : step J path ⟨disk, some ⟨store, .write text⟩, saves, renamed⟩ .write =
      some ⟨written, some ⟨store, .rename⟩, saves, renamed⟩ := rfl
  have hrename : step J path ⟨written, some ⟨store, .rename⟩, saves, renamed⟩ .rename =
      some ⟨(written.erase (tmpPath store.path).components).insert store.path.components
        text.toUTF8, some ⟨store, .idle⟩, saves, some store.persisted⟩ := by
    show Option.map _ (written.get? (tmpPath store.path).components) = _
    rw [KeyedMap.get?_insert_self]
    rfl
  refine ⟨_, Runs.run_cons_eq_some.mpr ⟨_, hwrite, Runs.run_cons_eq_some.mpr ⟨_, hrename, rfl⟩⟩,
    rfl, ?_, hplace⟩
  rw [← hplace]
  exact KeyedMap.get?_insert_self _ _ _

/-- A save whose steps all succeed. -/
theorem save_completes (disk : Disk) (saves : List Persisted) (renamed : Option Persisted)
    {store : Inner} {text : String} (hplace : store.path = path)
    (htext : J.toStringPretty store.persisted = some text) (issued : List Rule) :
    ∃ sched m', Runs.run (step J path) ⟨disk, some ⟨store, .serialize⟩, saves, renamed⟩ sched =
        some m' ∧ Agrees path m' ⟨store, some text, issued⟩ := by
  have hserialize : step J path ⟨disk, some ⟨store, .serialize⟩, saves, renamed⟩ .serialize =
      some ⟨disk, some ⟨store, .afterSerialize store.path (some text)⟩, saves, renamed⟩ := by
    rw [← htext]
    rfl
  obtain ⟨m', hrun, hagrees⟩ := @write_completes J _ disk saves renamed _ text hplace issued
  cases hparent : store.path.parent.isSome with
  | false =>
    rw [Phase.afterSerialize, hparent] at hserialize
    exact ⟨_, m', Runs.run_cons_eq_some.mpr ⟨_, hserialize, hrun⟩, hagrees⟩
  | true =>
    rw [Phase.afterSerialize, hparent] at hserialize
    have hdir : step J path ⟨disk, some ⟨store, .createDir text⟩, saves, renamed⟩ .createDir =
        some ⟨disk, some ⟨store, .write text⟩, saves, renamed⟩ := rfl
    exact ⟨_, m', Runs.run_cons_eq_some.mpr ⟨_, hserialize,
      Runs.run_cons_eq_some.mpr ⟨_, hdir, hrun⟩⟩, hagrees⟩

/-- **Refinement**: what `StoreFile` does in one step, the machine does in a run. -/
theorem refines_storeFile {m : Machine} {w w' : StoreFile} {op : StoreOp}
    (h : Agrees path m w) (hs : StoreFile.step J w op = some w') :
    ∃ sched m', Runs.run (step J path) m sched = some m' ∧ Agrees path m' w' := by
  cases op with
  | call now op =>
    have hplace := (exec_path w.store now op).trans h.place
    simp only [StoreFile.step] at hs
    split at hs
    · rename_i hsaves
      obtain ⟨text, htext, rfl⟩ := Option.map_eq_some_iff.mp hs
      have hcall : step J path m (.call now op) = some { m with
          daemon := some ⟨(w.store.exec now op).store, .serialize⟩
          saves := m.saves ++ [(w.store.exec now op).store.persisted] } := by
        simp only [step, h.daemon]
        rw [if_pos hsaves]
      -- a call that saves goes through all the steps of the save
      obtain ⟨sched, m', hrun, hagrees⟩ := save_completes m.disk _ m.renamed hplace htext _
      exact ⟨_, m', Runs.run_cons_eq_some.mpr ⟨_, hcall, hrun⟩, hagrees⟩
    · rename_i hsaves
      cases hs
      have hcall : step J path m (.call now op) =
          some { m with daemon := some ⟨(w.store.exec now op).store, .idle⟩ } := by
        simp only [step, h.daemon]
        rw [if_neg hsaves]
      exact ⟨_, _, Runs.run_cons_eq_some.mpr ⟨_, hcall, Runs.run_nil _⟩, ⟨rfl, h.file, hplace⟩⟩
  | save =>
    obtain ⟨text, htext, rfl⟩ := Option.map_eq_some_iff.mp hs
    have hsave : step J path m .save = some { m with
        daemon := some ⟨w.store, .serialize⟩, saves := m.saves ++ [w.store.persisted] } := by
      simp only [step, h.daemon]
    obtain ⟨sched, m', hrun, hagrees⟩ := save_completes m.disk _ m.renamed h.place htext _
    exact ⟨_, m', Runs.run_cons_eq_some.mpr ⟨_, hsave, hrun⟩, hagrees⟩
  | restart now =>
    obtain ⟨store, hload, rfl⟩ := Option.map_eq_some_iff.mp hs
    -- a restart is a kill and a start, which reads what the last save has written
    have hread : readRules J m.disk path = w.text.bind J.fromStr := by
      rw [readRules, h.file]
      cases w.text with
      | none => rfl
      | some text => rw [Option.map_some, Option.bind_some, fromUTF8?_toUTF8]
    have hstart : step J path { m with daemon := none } (.start now) =
        some { m with daemon := some ⟨store, .idle⟩ } := by
      simp only [step]
      rw [hread, ← h.place, hload]
      rfl
    have hkill : step J path m .kill = some { m with daemon := none } := rfl
    exact ⟨_, _, Runs.run_cons_eq_some.mpr ⟨_, hkill,
      Runs.run_cons_eq_some.mpr ⟨_, hstart, Runs.run_nil _⟩⟩,
      ⟨rfl, h.file, (load_path hload).trans h.place⟩⟩

/-- **Histories**: whatever calls, saves and restarts `StoreFile` goes through, the machine that is
switched on with an empty disk can go through in its steps, to the same store and the same file. -/
theorem histories_refined {ops : List StoreOp} {w : StoreFile}
    (hrun : Runs.run (StoreFile.step J) (.start path) ops = some w) :
    ∃ sched m, Runs.run (step J path) (off .empty) sched = some m ∧ Agrees path m w := by
  induction ops using List.reverseRecOn generalizing w with
  | nil =>
    cases hrun
    exact ⟨[.start .epoch], _, rfl, rfl, rfl, rfl⟩
  | append_singleton ops op ih =>
    obtain ⟨w₀, hrun₀, hstep⟩ := Runs.run_snoc.mp hrun
    obtain ⟨sched, m, hsched, hagrees⟩ := ih hrun₀
    obtain ⟨sched', m', hsched', hagrees'⟩ := refines_storeFile hagrees hstep
    exact ⟨sched ++ sched', m', Runs.run_append_eq_some.mpr ⟨m, hsched, hsched'⟩, hagrees'⟩

/-- A rule is stored, and the daemon restarted. -/
theorem histories_refined_session : ∃ sched m,
    Runs.run (step StoreFile.sessionJson StoreFile.rulesFile) (off .empty) sched = some m ∧
      Agrees StoreFile.rulesFile m StoreFile.sessionFile :=
  histories_refined StoreFile.sessionFile_run

end CrashSafety

end TravelMode
