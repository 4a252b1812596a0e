import Mathlib.Data.List.Basic
import Mathlib.Data.List.Induction

/-!
# Unix paths

A path on Unix is an arbitrary byte string. Two notions of it disagree, and
programs use both:

- `PathBuf.pathEq` is the equality of the standard library: it compares
  *components*, so `/usr//bin/./curl` and `/usr/bin/curl` are equal;
- `PathBuf.display` is the rendering: the bytes as text, every maximal invalid
  UTF-8 sequence replaced by U+FFFD. Equal paths may render differently, and
  different paths may render alike.

`withExtension` is the path of a sibling file. `components_withExtension` says which one,
and `withExtension_pathEq` when it is another one.
-/

/-- A path: the bytes of its `OsString`. -/
structure PathBuf where
  bytes : List UInt8
deriving DecidableEq, Repr

namespace PathBuf

/-- The path with the given text. -/
def ofString (s : String) : PathBuf := ⟨s.toList.flatMap String.utf8EncodeChar⟩

/-! ## Components -/

/-- A component of a path, as `Path::components` yields it. -/
inductive Component where
  | rootDir
  | curDir
  | parentDir
  | normal (name : List UInt8)
deriving DecidableEq, Repr

/-- The byte `/`. -/
def slash : UInt8 := 47

/-- The component of one segment between slashes: empty segments and `.` vanish. -/
def segment (name : List UInt8) : Option Component :=
  if name = [] ∨ name = [46] then none
  else if name = [46, 46] then some .parentDir
  else some (.normal name)

/-- `Path::components`. A leading `.` of a relative path is the one `.` that is kept. -/
def components (p : PathBuf) : List Component :=
  let segments := p.bytes.splitOn slash
  let body := segments.filterMap segment
  if p.bytes.head? = some slash then .rootDir :: body
  else if segments.head? = some [46] then .curDir :: body
  else body

/-- `PartialEq` for paths: equal components. -/
def pathEq (p q : PathBuf) : Bool := decide (p.components = q.components)

theorem pathEq_iff {p q : PathBuf} : p.pathEq q = true ↔ p.components = q.components :=
  decide_eq_true_iff

@[simp] theorem pathEq_refl (p : PathBuf) : p.pathEq p = true := pathEq_iff.mpr rfl

theorem pathEq_comm (p q : PathBuf) : p.pathEq q = q.pathEq p := by
  rw [Bool.eq_iff_iff, pathEq_iff, pathEq_iff]
  exact eq_comm

theorem pathEq_trans {p q r : PathBuf} (h : p.pathEq q = true) (h' : q.pathEq r = true) :
    p.pathEq r = true :=
  pathEq_iff.mpr ((pathEq_iff.mp h).trans (pathEq_iff.mp h'))

/-- Equal paths are interchangeable on the left of `pathEq`. -/
theorem pathEq_congr_left {p q : PathBuf} (h : p.pathEq q = true) (r : PathBuf) :
    p.pathEq r = q.pathEq r := by
  rw [Bool.eq_iff_iff, pathEq_iff, pathEq_iff, pathEq_iff.mp h]

/-- Equal paths are interchangeable on the right of `pathEq`. -/
theorem pathEq_congr_right {p q : PathBuf} (h : p.pathEq q = true) (r : PathBuf) :
    r.pathEq p = r.pathEq q := by
  rw [pathEq_comm r p, pathEq_comm r q, pathEq_congr_left h]

example : (ofString "/usr//bin/./curl").pathEq (ofString "/usr/bin/curl") = true := by decide

/-- `Path::join`: an absolute path replaces the other one, and a separator is put in unless
one stands there or there is nothing to separate. -/
def join (p q : PathBuf) : PathBuf :=
  if q.bytes.head? = some slash then q
  else
    match p.bytes.getLast? with
    | none => q
    | some b => if b = slash then ⟨p.bytes ++ q.bytes⟩ else ⟨p.bytes ++ slash :: q.bytes⟩

/-- What is joined to an absolute path is absolute. -/
theorem head?_join {p q : PathBuf} (h : p.bytes.head? = some slash) :
    (p.join q).bytes.head? = some slash := by
  obtain ⟨rest, hrest⟩ := List.head?_eq_some_iff.mp h
  unfold join
  split
  · assumption
  · split
    · rename_i hlast
      rw [List.getLast?_eq_none_iff.mp hlast] at h
      cases h
    · rw [hrest]
      split
      · rfl
      · rfl

/-! ## File names -/

/-- `Path::file_name`: the last component, where that is a name. -/
def fileName (p : PathBuf) : Option (List UInt8) :=
  match p.components.getLast? with
  | some (.normal name) => some name
  | _ => none

/-- The components of `Path::parent`; the root and the empty path have none. -/
def parent (p : PathBuf) : Option (List Component) :=
  match p.components.getLast? with
  | none | some .rootDir => none
  | some _ => some p.components.dropLast

/-- The byte `.`. -/
def dot : UInt8 := 46

/-- What stands before and behind the last dot. -/
def rsplitAtDot : List UInt8 → Option (List UInt8 × List UInt8)
  | [] => none
  | b :: bs =>
    match rsplitAtDot bs with
    | some (before, after) => some (b :: before, after)
    | none => if b = dot then some ([], bs) else none

/-- `Path::file_stem` of a file with this name: a dot that starts it is no separator. -/
def fileStem (name : List UInt8) : List UInt8 :=
  match rsplitAtDot name with
  | some ([], _) | none => name
  | some (before, _) => before

/-- The stem with an extension; an empty one brings no dot. -/
def extended (stem ext : List UInt8) : List UInt8 :=
  if ext = [] then stem else stem ++ dot :: ext

/-- `Path::with_extension`: the path is cut behind the stem of its file name, and what
followed is replaced. A path without a file name is kept. -/
def withExtension (p : PathBuf) (ext : List UInt8) : PathBuf :=
  match p.fileName, (p.bytes.splitOn slash).reverse.dropWhile fun s => (segment s).isNone with
  | some _, name :: before =>
    ⟨[slash].intercalate (before.reverse ++ [extended (fileStem name) ext])⟩
  | _, _ => p

example : (ofString "/etc/travelmode/rules.json/").withExtension
    (ofString "json.tmp").bytes = ofString "/etc/travelmode/rules.json.tmp" := by
  decide +kernel

theorem rsplitAtDot_eq_none {name : List UInt8} : rsplitAtDot name = none ↔ dot ∉ name := by
  induction name with
  | nil => simp [rsplitAtDot]
  | cons b bs ih =>
    rw [rsplitAtDot, List.mem_cons, not_or]
    cases h : rsplitAtDot bs with
    | some parts =>
      rw [h] at ih
      simp only [reduceCtorEq, false_iff, not_and, not_not] at ih ⊢
      exact fun _ => ih
    | none =>
      dsimp only
      by_cases hb : b = dot
      · simp [hb]
      · rw [if_neg hb]
        exact iff_of_true rfl ⟨Ne.symm hb, ih.mp h⟩

theorem rsplitAtDot_eq_some {name before after : List UInt8}
    (h : rsplitAtDot name = some (before, after)) :
    name = before ++ dot :: after ∧ dot ∉ after := by
  induction name generalizing before with
  | nil => cases h
  | cons b bs ih =>
    rw [rsplitAtDot] at h
    cases hbs : rsplitAtDot bs with
    | some parts =>
      rw [hbs] at h
      cases h
      obtain ⟨rfl, hafter⟩ := ih hbs
      exact ⟨rfl, hafter⟩
    | none =>
      rw [hbs] at h
      dsimp only at h
      split at h
      · rename_i hb
        cases h
        exact ⟨by rw [hb]; rfl, rsplitAtDot_eq_none.mp hbs⟩
      · cases h

/-- The stem is a nonempty beginning of the name. -/
theorem fileStem_isPrefix {name : List UInt8} (h : name ≠ []) :
    fileStem name ≠ [] ∧ fileStem name <+: name := by
  unfold fileStem
  split
  · exact ⟨h, List.prefix_refl _⟩
  · exact ⟨h, List.prefix_refl _⟩
  · rename_i before after hne hsplit
    obtain ⟨rfl, -⟩ := rsplitAtDot_eq_some hsplit
    exact ⟨hne, List.prefix_append _ _⟩

/-- An extension with a dot in it makes a different name of every name. -/
theorem extended_fileStem_ne {name ext : List UInt8} (hext : dot ∈ ext) :
    extended (fileStem name) ext ≠ name := by
  have hlonger : name ++ dot :: ext ≠ name := fun h => by
    simpa using congrArg List.length h
  rw [extended, if_neg (List.ne_nil_of_mem hext)]
  unfold fileStem
  split
  · exact hlonger
  · exact hlonger
  · rename_i before after _ hsplit
    obtain ⟨hname, hafter⟩ := rsplitAtDot_eq_some hsplit
    intro h
    rw [hname] at h
    cases List.append_cancel_left h
    exact hafter hext

/-! ### Segments -/

/-- The component that a path's first segment decides on, besides being one. -/
def lead (segments : List (List UInt8)) : List Component :=
  if segments.head? = some [] ∧ segments.tail ≠ [] then [.rootDir]
  else if segments.head? = some [46] then [.curDir]
  else []

/-- The components of a path by its segments. -/
theorem components_eq (p : PathBuf) :
    p.components = lead (p.bytes.splitOn slash) ++ (p.bytes.splitOn slash).filterMap segment := by
  obtain ⟨bytes⟩ := p
  unfold components
  cases bytes with
  | nil => rfl
  | cons b bs =>
    obtain ⟨s, segments, hs⟩ := List.exists_cons_of_ne_nil (List.splitOn_ne_nil slash bs)
    by_cases hb : b = slash
    · simp [List.splitOn_cons_eq_if_modifyHead, hb, hs, lead]
    · -- the first segment is not empty, so it decides on the current directory alone
      simp only [List.splitOn_cons_eq_if_modifyHead, hb, hs, List.head?_cons, Option.some.injEq,
        beq_iff_eq, if_false, List.modifyHead_cons, lead, List.tail_cons, reduceCtorEq, false_and]
      split
      · rfl
      · rfl

theorem slash_not_mem {bytes s : List UInt8} (h : s ∈ bytes.splitOn slash) : slash ∉ s := by
  induction bytes generalizing s with
  | nil =>
    rw [List.splitOn_nil, List.mem_singleton] at h
    rw [h]
    exact List.not_mem_nil
  | cons b bs ih =>
    obtain ⟨t, segments, hs⟩ := List.exists_cons_of_ne_nil (List.splitOn_ne_nil slash bs)
    rw [List.splitOn_cons_eq_if_modifyHead] at h
    by_cases hb : b = slash
    · rw [if_pos (beq_iff_eq.mpr hb)] at h
      rcases List.mem_cons.mp h with rfl | h
      · exact List.not_mem_nil
      · exact ih h
    · rw [if_neg (by simpa using hb), hs, List.modifyHead_cons] at h
      rcases List.mem_cons.mp h with rfl | h
      · rw [List.mem_cons, not_or]
        exact ⟨Ne.symm hb, ih (hs ▸ List.mem_cons_self)⟩
      · exact ih (hs ▸ List.mem_cons_of_mem _ h)

/-- Segments that start with the same ones, and go on with a name. -/
theorem lead_append {before more more' : List (List UInt8)} {s t : List UInt8}
    (hs : s ≠ [] ∧ s ≠ [46]) (ht : t ≠ [] ∧ t ≠ [46]) :
    lead (before ++ s :: more) = lead (before ++ t :: more') := by
  cases before with
  | nil => simp [lead, hs, ht]
  | cons b before => simp [lead]

/-- A name with an extension is a name. -/
theorem segment_extended {name ext : List UInt8} (hname : name ≠ []) (hext : ext ≠ []) :
    segment (extended (fileStem name) ext) = some (.normal (extended (fileStem name) ext)) ∧
      extended (fileStem name) ext ≠ [] ∧ extended (fileStem name) ext ≠ [46] := by
  have hstem := List.length_pos_iff.mpr (fileStem_isPrefix hname).1
  have hpos := List.length_pos_iff.mpr hext
  have hlen : 2 < (extended (fileStem name) ext).length := by
    rw [extended, if_neg hext, List.length_append, List.length_cons]
    omega
  have hne : ∀ {short : List UInt8}, short.length ≤ 2 → extended (fileStem name) ext ≠ short := by
    rintro short hshort rfl
    omega
  refine ⟨?_, hne (by decide), hne (by decide)⟩
  rw [segment, if_neg (not_or.mpr ⟨hne (by decide), hne (by decide)⟩), if_neg (hne (by decide))]

/-- The last segment that is a component, and what `dropWhile` finds from the end. -/
theorem last_segment {segments : List (List UInt8)} {c : Component}
    (h : (segments.filterMap segment).getLast? = some c) :
    ∃ s before after, segments = before.reverse ++ s :: after ∧ segment s = some c ∧
      after.filterMap segment = [] ∧
      (segments.reverse.dropWhile fun s => (segment s).isNone) = s :: before := by
  induction segments using List.reverseRecOn with
  | nil => cases h
  | append_singleton segments t ih =>
    rw [List.filterMap_append] at h
    rw [List.reverse_append, List.reverse_singleton, List.singleton_append, List.dropWhile_cons]
    cases ht : segment t with
    | none =>
      simp only [List.filterMap_cons, ht, List.filterMap_nil, List.append_nil] at h
      obtain ⟨s, before, after, rfl, hs, hafter, hdrop⟩ := ih h
      refine ⟨s, before, after ++ [t], by simp, hs, ?_, by simpa using hdrop⟩
      rw [List.filterMap_append, hafter]
      simp [ht]
    | some c' =>
      simp only [List.filterMap_cons, ht, List.filterMap_nil, List.getLast?_append_cons,
        List.getLast?_singleton, Option.some.injEq] at h
      exact ⟨t, segments.reverse, [], by simp, by rw [ht, h], rfl, by simp⟩

/-- A segment that is a name is that name. -/
theorem segment_eq_normal {s name : List UInt8} (h : segment s = some (.normal name)) :
    s = name ∧ s ≠ [] ∧ s ≠ [46] := by
  unfold segment at h
  split at h
  · cases h
  · rename_i hs
    rw [not_or] at hs
    split at h
    · cases h
    · cases h
      exact ⟨rfl, hs⟩

theorem fileName_eq_some {p : PathBuf} {name : List UInt8} (h : p.fileName = some name) :
    p.components.getLast? = some (.normal name) := by
  unfold fileName at h
  split at h
  · rename_i heq
    rw [heq, Option.some.inj h]
  · cases h

/-- **Extension**: in the same directory, the file name with its extension replaced. -/
theorem components_withExtension {p : PathBuf} {name ext : List UInt8}
    (hname : p.fileName = some name) (hext : ext ≠ []) (hslash : slash ∉ ext) :
    ∃ dir, p.components = dir ++ [.normal name] ∧
      (p.withExtension ext).components = dir ++ [.normal (extended (fileStem name) ext)] := by
  have hlast := fileName_eq_some hname
  rw [components_eq] at hlast
  -- a path of the root or of the current directory alone has no file name
  have hlast : ((p.bytes.splitOn slash).filterMap segment).getLast? = some (.normal name) := by
    cases hbody : (p.bytes.splitOn slash).filterMap segment with
    | nil =>
      rw [hbody, List.append_nil, lead] at hlast
      split at hlast
      · cases hlast
      · split at hlast <;> cases hlast
    | cons c cs => rwa [hbody, List.getLast?_append_cons] at hlast
  obtain ⟨s, before, after, hsegments, hs, hafter, hdrop⟩ := last_segment hlast
  obtain ⟨rfl, hne⟩ := segment_eq_normal hs
  obtain ⟨hnew, hnew'⟩ := segment_extended hne.1 hext
  -- the new path is the old one up to the last segment, which is replaced
  have hbytes : (p.withExtension ext).bytes.splitOn slash =
      before.reverse ++ [extended (fileStem s) ext] := by
    rw [withExtension, hname, hdrop]
    refine List.splitOn_intercalate slash (fun t ht => ?_) (by simp)
    rcases List.mem_append.mp ht with ht | ht
    · exact slash_not_mem (hsegments ▸ List.mem_append_left _ ht)
    · have hstem : slash ∉ s :=
        slash_not_mem (hsegments ▸ List.mem_append_right _ List.mem_cons_self)
      rw [List.mem_singleton.mp ht, extended, if_neg hext, List.mem_append, List.mem_cons]
      rintro (h | h | h)
      · exact hstem ((fileStem_isPrefix hne.1).2.subset h)
      · cases h
      · exact hslash h
  refine ⟨lead (p.bytes.splitOn slash) ++ before.reverse.filterMap segment, ?_, ?_⟩
  · have hbody : (p.bytes.splitOn slash).filterMap segment =
        before.reverse.filterMap segment ++ [.normal s] := by
      rw [hsegments, List.filterMap_append, List.filterMap_cons, hs, hafter]
    rw [components_eq, hbody, List.append_assoc]
  · have hlead : lead (before.reverse ++ [extended (fileStem s) ext]) =
        lead (p.bytes.splitOn slash) := by
      rw [hsegments]
      exact lead_append hnew' hne
    rw [components_eq, hbytes, hlead, List.filterMap_append, List.append_assoc]
    simp [hnew]

/-- An extension with a dot in it leads to another file. -/
theorem withExtension_pathEq {p : PathBuf} {ext : List UInt8} (hname : p.fileName.isSome = true)
    (hdot : dot ∈ ext) (hslash : slash ∉ ext) : (p.withExtension ext).pathEq p = false := by
  obtain ⟨name, hname⟩ := Option.isSome_iff_exists.mp hname
  obtain ⟨dir, hp, hext⟩ := components_withExtension hname (List.ne_nil_of_mem hdot) hslash
  rw [← Bool.not_eq_true, pathEq_iff, hp, hext]
  intro h
  obtain ⟨-, h⟩ := List.append_inj' h rfl
  exact extended_fileStem_ne hdot (Component.normal.inj (List.singleton_inj.mp h))

/-! ## Lossy rendering -/

/-- What a UTF-8 lead byte announces: the number of continuation bytes and the
range of the first of them (narrowed to exclude overlong forms and surrogates).
`none` for a byte that starts no sequence. -/
def utf8Lead (b : UInt8) : Option (Nat × UInt8 × UInt8) :=
  if b < 0x80 then some (0, 0x80, 0xBF)
  else if b < 0xC2 then none
  else if b < 0xE0 then some (1, 0x80, 0xBF)
  else if b = 0xE0 then some (2, 0xA0, 0xBF)
  else if b = 0xED then some (2, 0x80, 0x9F)
  else if b < 0xF0 then some (2, 0x80, 0xBF)
  else if b = 0xF0 then some (3, 0x90, 0xBF)
  else if b < 0xF4 then some (3, 0x80, 0xBF)
  else if b = 0xF4 then some (3, 0x80, 0x8F)
  else none

/-- How many of the next `n` bytes are valid continuation bytes, the first one
being held to the range `lo`–`hi`. -/
def continuation : Nat → UInt8 → UInt8 → List UInt8 → Nat
  | 0, _, _, _ => 0
  | _ + 1, _, _, [] => 0
  | n + 1, lo, hi, b :: bs =>
    if lo ≤ b ∧ b ≤ hi then 1 + continuation n 0x80 0xBF bs else 0

/-- The scalar value of a lead byte and its continuation bytes. -/
def utf8Scalar (lead : UInt8) (cont : List UInt8) : Nat :=
  let payload := match cont.length with
    | 0 => lead.toNat
    | 1 => lead.toNat % 32
    | 2 => lead.toNat % 16
    | _ => lead.toNat % 8
  cont.foldl (fun acc b => acc * 64 + b.toNat % 64) payload

/-- The first character of a byte string and what follows it: a valid sequence is
decoded, otherwise the longest invalid prefix becomes one U+FFFD. -/
def utf8Head (b : UInt8) (bs : List UInt8) : Char × List UInt8 :=
  match utf8Lead b with
  | none => ('\uFFFD', bs)
  | some (n, lo, hi) =>
    let k := continuation n lo hi bs
    if k = n then (Char.ofNat (utf8Scalar b (bs.take n)), bs.drop n)
    else ('\uFFFD', bs.drop k)

/-- `String::from_utf8_lossy`, with fuel for the bytes left. -/
def utf8LossyAux : Nat → List UInt8 → List Char
  | 0, _ => []
  | _ + 1, [] => []
  | fuel + 1, b :: bs =>
    let (c, rest) := utf8Head b bs
    c :: utf8LossyAux fuel rest

/-- `String::from_utf8_lossy`: every byte consumes one unit of fuel at most. -/
def utf8Lossy (bs : List UInt8) : List Char := utf8LossyAux bs.length bs

/-- `Path::display().to_string()`. -/
def display (p : PathBuf) : String := String.ofList (utf8Lossy p.bytes)

example : (ofString "/usr/bin/caf\u00E9").display = "/usr/bin/caf\u00E9" := by decide

/-- An absolute path renders as one. -/
theorem head?_display {p : PathBuf} (h : p.bytes.head? = some slash) :
    p.display.toList.head? = some '/' := by
  obtain ⟨rest, hrest⟩ := List.head?_eq_some_iff.mp h
  rw [display, String.toList_ofList, hrest]
  rfl

/-- `str::from_utf8` succeeds, with fuel for the bytes left. -/
def utf8ValidAux : Nat → List UInt8 → Bool
  | _, [] => true
  | 0, _ :: _ => false
  | fuel + 1, b :: bs =>
    match utf8Lead b with
    | none => false
    | some (n, lo, hi) => continuation n lo hi bs == n && utf8ValidAux fuel (bs.drop n)

/-- `Path::to_str` succeeds: the bytes are UTF-8. -/
def isUtf8 (p : PathBuf) : Bool := utf8ValidAux p.bytes.length p.bytes

example : (ofString "/usr/bin/caf\u00E9").isUtf8 = true ∧ isUtf8 ⟨[47, 255]⟩ = false := by decide

end PathBuf
