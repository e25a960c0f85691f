import HotkeyScript.FileSystem
import Mathlib.Data.List.DropRight
namespace HotkeyScript

namespace Path

def Free (piece : List Char) : Prop := ∀ c ∈ piece, c ≠ '/'

theorem splitSlashes_slash (rest : List Char) :
    splitSlashes ('/' :: rest) = [] :: splitSlashes rest := rfl

theorem splitSlashes_ne_nil (text : List Char) : splitSlashes text ≠ [] := by
  rw [splitSlashes.eq_def]
  split
  · exact List.cons_ne_nil _ _
  · split <;> exact List.cons_ne_nil _ _

theorem splitSlashes_cons {c : Char} (ne : c ≠ '/') {rest piece : List Char}
    {others : List (List Char)} (begins : splitSlashes rest = piece :: others) :
    splitSlashes (c :: rest) = (c :: piece) :: others := by
  rw [splitSlashes.eq_def]
  simp only [begins]

theorem free_of_mem_splitSlashes (text : List Char) : ∀ piece ∈ splitSlashes text, Free piece := by
  induction text with
  | nil => simp [splitSlashes, Free]
  | cons c rest ih =>
    by_cases slash : c = '/'
    · subst slash
      simpa [splitSlashes, Free] using ih
    · cases begins : splitSlashes rest with
      | nil => exact absurd begins (splitSlashes_ne_nil rest)
      | cons piece others =>
        rw [begins] at ih
        obtain ⟨first, later⟩ := List.forall_mem_cons.mp ih
        rw [splitSlashes_cons slash begins]
        exact List.forall_mem_cons.mpr ⟨List.forall_mem_cons.mpr ⟨slash, first⟩, later⟩

theorem splitSlashes_append {piece : List Char} (free : Free piece) {text front : List Char}
    {others : List (List Char)} (begins : splitSlashes text = front :: others) :
    splitSlashes (piece ++ text) = (piece ++ front) :: others := by
  induction piece with
  | nil => exact begins
  | cons c rest ih =>
    obtain ⟨own, later⟩ := List.forall_mem_cons.mp free
    exact splitSlashes_cons own (ih later)

theorem splitSlashes_intercalate {names : List (List Char)} (some_name : names ≠ [])
    (free : ∀ name ∈ names, Free name) : splitSlashes (['/'].intercalate names) = names := by
  induction names with
  | nil => exact absurd rfl some_name
  | cons name rest ih =>
    obtain ⟨own, later⟩ := List.forall_mem_cons.mp free
    cases rest with
    | nil =>
      have alone : splitSlashes (name ++ []) = [name ++ []] := splitSlashes_append own rfl
      simpa using alone
    | cons next rest =>
      have further := ih (List.cons_ne_nil _ _) later
      rw [List.intercalate_cons_cons, List.append_assoc]
      have after : splitSlashes (['/'] ++ ['/'].intercalate (next :: rest)) = [] :: next :: rest :=
        (splitSlashes_slash _).trans (congrArg ([] :: ·) further)
      simpa using splitSlashes_append own after

theorem pieces_intercalate {names : List String} (some_name : names ≠ [])
    (free : ∀ name ∈ names, Free name.toList) : pieces ("/".intercalate names) = names := by
  have cut : splitSlashes (['/'].intercalate (names.map String.toList))
      = names.map String.toList :=
    splitSlashes_intercalate (by simpa using some_name) (by simpa using free)
  rw [pieces, String.toList_intercalate]
  exact (congrArg (List.map String.ofList) cut).trans (by simp [Function.comp_def])

theorem free_of_mem_pieces {path piece : String} (among : piece ∈ pieces path) :
    Free piece.toList := by
  obtain ⟨chars, own, rfl⟩ := List.mem_map.mp among
  simpa using free_of_mem_splitSlashes _ chars own

theorem splits_withoutIdleEnd (pieces : List String) :
    ∃ idle, (∀ piece ∈ idle, isIdle piece) ∧ pieces = withoutIdleEnd pieces ++ idle := by
  cases pieces with
  | nil => exact ⟨[], by simp, rfl⟩
  | cons first rest =>
    refine ⟨rest.rtakeWhile isIdle, fun piece among => List.mem_rtakeWhile_imp among, ?_⟩
    exact congrArg (first :: ·) List.rdropWhile_append_rtakeWhile.symm

theorem withoutIdleEnd_of_named {name : String} (named : ¬isIdle name) (front : List String) :
    withoutIdleEnd (front ++ [name]) = front ++ [name] := by
  cases front with
  | nil => rfl
  | cons first rest => simp [withoutIdleEnd, named]

theorem pieces_of_names {path : String} {names : List String}
    (own : withoutIdleEnd (withoutIdleEnd (pieces path)).dropLast = names) :
    ∃ back, back ≠ [] ∧ pieces path = names ++ back := by
  obtain ⟨idle, _, inner⟩ := splits_withoutIdleEnd (withoutIdleEnd (pieces path)).dropLast
  obtain ⟨trailing, _, outer⟩ := splits_withoutIdleEnd (pieces path)
  have some_piece : withoutIdleEnd (pieces path) ≠ [] := by
    cases begins : pieces path with
    | nil => exact absurd (List.map_eq_nil_iff.mp begins) (splitSlashes_ne_nil _)
    | cons first rest => exact List.cons_ne_nil _ _
  refine ⟨idle ++ [(withoutIdleEnd (pieces path)).getLast some_piece] ++ trailing, by simp, ?_⟩
  have parts := List.dropLast_append_getLast some_piece
  rw [own] at inner
  rw [← List.append_assoc, ← List.append_assoc, ← inner, parts, ← outer]

theorem parent_cases {path : String} {names : List String}
    (own : withoutIdleEnd (withoutIdleEnd (pieces path)).dropLast = names) :
    names = [] ∧ parent path = "" ∨ names = [""] ∧ parent path = "/" ∧ isAbsolute path ∨
      pieces (parent path) = names ∧ isAbsolute (parent path) = isAbsolute path := by
  obtain ⟨back, more, parts⟩ := pieces_of_names own
  rw [parent, own]
  split
  · cases back with
    | nil => exact absurd rfl more
    | cons => exact .inr (.inl ⟨rfl, rfl, by simp [isAbsolute, parts]⟩)
  · next several =>
    cases names with
    | nil => exact .inl ⟨rfl, rfl⟩
    | cons name rest =>
      have named : pieces ("/".intercalate (name :: rest)) = name :: rest := by
        refine pieces_intercalate (List.cons_ne_nil _ _) fun name among => ?_
        exact free_of_mem_pieces (parts ▸ List.mem_append_left back among)
      refine .inr (.inr ⟨named, ?_⟩)
      rw [isAbsolute, isAbsolute, named, parts]
      cases rest with
      | cons => rfl
      | nil =>
        cases back with
        | nil => exact absurd rfl more
        | cons =>
          refine Eq.symm (String.isEmpty_eq_false_iff.mpr ?_)
          rintro rfl
          exact several rfl

end Path

namespace FileSystem

section Put

variable (fs : FileSystem) {place other : List String} (entry : Entry)

theorem lookup_replaced (entries : List (List String × Entry)) :
    (entries.map fun e => if e.1 = place then (place, entry) else e).lookup place
      = (entries.lookup place).map fun _ => entry := by
  induction entries with
  | nil => rfl
  | cons e rest ih =>
    obtain ⟨key, old⟩ := e
    by_cases own : key = place
    · subst own
      simp
    · have other : (place == key) = false := beq_false_of_ne (Ne.symm own)
      simp only [List.map_cons, if_neg own, List.lookup_cons, other, ih]

theorem lookup_replaced_of_ne (ne : other ≠ place) (entries : List (List String × Entry)) :
    (entries.map fun e => if e.1 = place then (place, entry) else e).lookup other
      = entries.lookup other := by
  induction entries with
  | nil => rfl
  | cons e rest ih =>
    obtain ⟨key, old⟩ := e
    by_cases own : key = place
    · subst own
      have different : (other == key) = false := beq_false_of_ne ne
      simp only [List.map_cons, if_true, List.lookup_cons, different, ih]
    · simp only [List.map_cons, if_neg own, List.lookup_cons, ih]

theorem lookup_put : (fs.put place entry).entries.lookup place = some entry := by
  rw [put]
  split
  · next taken =>
    obtain ⟨old, found⟩ := Option.isSome_iff_exists.mp taken
    simp only [lookup_replaced, found, Option.map_some]
  · next free => simp [List.lookup_append, Option.not_isSome_iff_eq_none.mp free]

theorem lookup_put_of_ne (ne : other ≠ place) :
    (fs.put place entry).entries.lookup other = fs.entries.lookup other := by
  rw [put]
  split
  · exact lookup_replaced_of_ne entry ne _
  · have different : (other == place) = false := beq_false_of_ne ne
    simp [List.lookup_append, List.lookup_cons, different]

theorem readOnly_put : (fs.put place entry).readOnly = fs.readOnly := by
  rw [put]
  split <;> rfl

theorem workingDirectory_put : (fs.put place entry).workingDirectory = fs.workingDirectory := by
  rw [put]
  split <;> rfl

theorem entry?_put (outside : ¬place.isPrefixOf fs.workingDirectory) :
    entry? (fs.put place entry) place = some entry := by
  unfold entry?
  rw [workingDirectory_put, if_neg outside, lookup_put]

theorem entry?_put_of_ne (ne : other ≠ place) :
    entry? (fs.put place entry) other = fs.entry? other := by
  unfold entry?
  rw [workingDirectory_put, lookup_put_of_ne fs entry ne]

end Put

theorem isDirectory_iff {fs : FileSystem} {place : List String} :
    fs.isDirectory place ↔ fs.entry? place = some .directory := by
  rw [isDirectory]
  split <;> simp_all

theorem outside_of_free {fs : FileSystem} {place : List String} (free : fs.entry? place = none) :
    ¬place.isPrefixOf fs.workingDirectory := by
  intro within
  unfold entry? at free
  rw [if_pos within] at free
  cases free

theorem outside_of_not_directory {fs : FileSystem} {place : List String}
    (no_directory : ¬fs.isDirectory place) : ¬place.isPrefixOf fs.workingDirectory := by
  intro within
  exact no_directory (isDirectory_iff.2 (if_pos within))

theorem locate_congr {fs other : FileSystem}
    (same : ∀ place, fs.isDirectory place = other.isDirectory place) (pieces : List String)
    (place : List String) : fs.locate place pieces = other.locate place pieces := by
  induction pieces generalizing place with
  | nil => rfl
  | cons piece rest ih => simp only [locate, same, ih]

def along (place : List String) : List String → List (List String)
  | [] => []
  | piece :: rest => step place piece :: along (step place piece) rest

theorem along_append (place : List String) (first second : List String) :
    along place (first ++ second) = along place first ++ along (first.foldl step place) second := by
  induction first generalizing place with
  | nil => rfl
  | cons piece rest ih => simp only [List.cons_append, along, List.foldl_cons, ih]

theorem foldl_step_mem_along (place : List String) (pieces : List String) :
    pieces.foldl step place ∈ place :: along place pieces := by
  induction pieces generalizing place with
  | nil => exact List.mem_cons_self
  | cons piece rest ih => exact List.mem_cons_of_mem _ (ih _)

theorem eq_of_mem_along_idle {place other : List String} {pieces : List String}
    (idle : ∀ piece ∈ pieces, Path.isIdle piece) (among : other ∈ along place pieces) :
    other = place := by
  induction pieces with
  | nil => cases among
  | cons piece rest ih =>
    obtain ⟨own, later⟩ := List.forall_mem_cons.mp idle
    have stays : step place piece = place := if_pos own
    rw [along, stays] at among
    rcases List.mem_cons.mp among with here | further
    · exact here
    · exact ih later further

-- A name is found where its directory is and all directories on the way to it.
theorem locate_eq_some_iff {fs : FileSystem} {place found : List String} {front : List String}
    {name : String} : fs.locate place (front ++ [name]) = some found ↔
      (∀ p ∈ place :: along place front, fs.isDirectory p) ∧
        step (front.foldl step place) name = found := by
  induction front generalizing place with
  | nil => simp [locate, along]
  | cons piece rest ih =>
    rw [List.cons_append, locate, Option.ite_none_right_eq_some, ih]
    simp only [along, List.foldl_cons, List.forall_mem_cons, and_assoc]

-- Some of these places were free and are directories now. Nothing else differs.
structure Grown (before after : FileSystem) (places : List (List String)) : Prop where
  entry : ∀ place, after.entry? place = before.entry? place ∨
    before.entry? place = none ∧ after.entry? place = some .directory ∧ place ∈ places
  readOnly : after.readOnly = before.readOnly
  workingDirectory : after.workingDirectory = before.workingDirectory

theorem Grown.refl (fs : FileSystem) (places : List (List String)) : fs.Grown fs places :=
  ⟨fun _ => .inl rfl, rfl, rfl⟩

theorem Grown.mono {places more : List (List String)} {before after : FileSystem}
    (grown : before.Grown after places) (within : places ⊆ more) : before.Grown after more :=
  ⟨fun place => (grown.entry place).imp_right fun ⟨free, made, among⟩ =>
    ⟨free, made, within among⟩, grown.readOnly, grown.workingDirectory⟩

theorem Grown.trans {places : List (List String)} {before between after : FileSystem}
    (first : before.Grown between places) (second : between.Grown after places) :
    before.Grown after places := by
  refine ⟨fun place => ?_, second.readOnly.trans first.readOnly,
    second.workingDirectory.trans first.workingDirectory⟩
  obtain same | ⟨free, made, among⟩ := second.entry place
  · rw [same]
    exact first.entry place
  · obtain same | ⟨_, taken, _⟩ := first.entry place
    · exact .inr ⟨same ▸ free, made, among⟩
    · rw [taken] at free
      cases free

theorem grown_put_directory {fs : FileSystem} {place : List String}
    (free : fs.entry? place = none) : fs.Grown (fs.put place .directory) [place] := by
  refine ⟨fun other => ?_, readOnly_put fs _, workingDirectory_put fs _⟩
  by_cases own : other = place
  · subst own
    exact .inr ⟨free, entry?_put fs _ (outside_of_free free), List.mem_cons_self⟩
  · exact .inl (entry?_put_of_ne fs _ own)

theorem grown_createAlong (fs : FileSystem) (place : List String) (pieces : List String) :
    fs.Grown (fs.createAlong place pieces).1 (along place pieces) := by
  induction pieces generalizing fs place with
  | nil => exact .refl _ _
  | cons piece rest ih =>
    have further : along (step place piece) rest ⊆ along place (piece :: rest) :=
      List.subset_cons_self _ _
    simp only [createAlong]
    split
    · exact (ih fs _).mono further
    · exact .refl _ _
    · next free =>
      split
      · exact .refl _ _
      · refine Grown.trans ?_ ((ih _ _).mono further)
        exact (grown_put_directory free).mono (by simp [along])

theorem createAlong_of_locate {fs : FileSystem} {place found : List String}
    {front back : List String} (leads : fs.locate place (front ++ back) = some found)
    (more : back ≠ []) : fs.createAlong place front = (fs, true) := by
  induction front generalizing place with
  | nil => rfl
  | cons piece rest ih =>
    rw [List.cons_append, locate, Option.ite_none_right_eq_some] at leads
    have onward := leads.2
    have next : fs.isDirectory (step place piece) := by
      cases ahead : rest ++ back with
      | nil => exact absurd (List.append_eq_nil_iff.mp ahead).2 more
      | cons piece' rest' =>
        rw [ahead, locate, Option.ite_none_right_eq_some] at onward
        exact onward.1
    simp only [createAlong, isDirectory_iff.1 next]
    exact ih onward

def Passable (fs : FileSystem) (place : List String) : Prop :=
  fs.isDirectory place ∨ fs.entry? place = none ∧ ¬fs.readOnly place

theorem passable_put_directory {fs : FileSystem} {place : List String}
    (free : fs.entry? place = none) (writable : ¬fs.readOnly place) (other : List String) :
    (fs.put place .directory).Passable other ↔ fs.Passable other := by
  unfold Passable isDirectory
  by_cases own : other = place
  · subst own
    simp [entry?_put fs .directory (outside_of_free free), free, writable]
  · rw [entry?_put_of_ne fs .directory own, readOnly_put]

-- What is created on the way stays, so that no place that the path comes back to is in the way.
theorem createAlong_iff (fs : FileSystem) (place : List String) (pieces : List String) :
    (fs.createAlong place pieces).2 ↔ ∀ p ∈ along place pieces, fs.Passable p := by
  induction pieces generalizing fs place with
  | nil => simp [createAlong, along]
  | cons piece rest ih =>
    rw [along, List.forall_mem_cons, createAlong]
    split
    · next here => rw [ih, and_iff_right (.inl (isDirectory_iff.2 here))]
    · next here => simp [Passable, isDirectory, here]
    · next free =>
      by_cases refused : fs.readOnly (step place piece)
      · simp [Passable, isDirectory, free, refused]
      · rw [if_neg refused, ih, and_iff_right (.inr ⟨free, refused⟩)]
        simp only [passable_put_directory free refused]

theorem Grown.isDirectory {before after : FileSystem} {places : List (List String)}
    (grown : before.Grown after places) {place : List String} (there : before.isDirectory place) :
    after.isDirectory place := by
  rw [isDirectory_iff] at there ⊢
  rcases grown.entry place with same | ⟨free, _⟩
  · rw [same, there]
  · rw [there] at free
    cases free

theorem isDirectory_createAlong {fs : FileSystem} {place : List String} {pieces : List String}
    (made : (fs.createAlong place pieces).2) :
    ∀ p ∈ along place pieces, (fs.createAlong place pieces).1.isDirectory p := by
  induction pieces generalizing fs place with
  | nil => simp [along]
  | cons piece rest ih =>
    have onward {next : FileSystem} (there : next.isDirectory (step place piece))
        (made : (next.createAlong (step place piece) rest).2) :
        ∀ p ∈ step place piece :: along (step place piece) rest,
          (next.createAlong (step place piece) rest).1.isDirectory p :=
      List.forall_mem_cons.mpr ⟨(grown_createAlong next _ rest).isDirectory there, ih made⟩
    rw [createAlong] at made ⊢
    rw [along]
    split at made
    · next here => simpa only [here] using onward (isDirectory_iff.2 here) made
    · cases made
    · next free =>
      split at made
      · cases made
      · next writable =>
        rw [if_neg writable]
        refine onward (isDirectory_iff.2 ?_) made
        exact entry?_put fs .directory (outside_of_free free)

section Files

variable {fs : FileSystem} {path : String} {place : List String}

def parents (fs : FileSystem) (path : String) : List (List String) :=
  along (fs.start (Path.parent path)) (Path.pieces (Path.parent path))

theorem grown_makeParent (fs : FileSystem) (path : String) :
    fs.Grown (fs.makeParent path).1 (fs.parents path) := by
  rw [makeParent]
  split
  · exact .refl _ _
  · exact grown_createAlong fs _ _

theorem makeParent_of_found (found : fs.find? path = some place) :
    fs.makeParent path = (fs, true) := by
  have own := Eq.refl (Path.withoutIdleEnd (Path.withoutIdleEnd (Path.pieces path)).dropLast)
  obtain ⟨back, more, parts⟩ := Path.pieces_of_names own
  obtain ⟨_, here⟩ | ⟨_, root, _⟩ | ⟨names, begins⟩ := Path.parent_cases own
  · rw [makeParent, here]
    rfl
  · rw [makeParent, root]
    rfl
  · rw [find?, start, ← begins, ← start, parts, ← names] at found
    rw [makeParent, createDirectories, createAlong_of_locate found more, ite_self]

-- The system takes a file at a path: its directory is there or can be created, and its place is
-- neither a directory nor read-only.
def Receives (fs : FileSystem) (path : String) : Prop :=
  (fs.makeParent path).2 ∧ ∃ place, (fs.makeParent path).1.find? path = some place ∧
    ¬(fs.makeParent path).1.isDirectory place ∧ ¬fs.readOnly place

theorem isDirectory_start (fs : FileSystem) (path : String) : fs.isDirectory (fs.start path) := by
  refine isDirectory_iff.2 (if_pos ?_)
  rw [start]
  split
  · rfl
  · exact List.isPrefixOf_iff_prefix.mpr (List.prefix_refl _)

theorem parents_of_here (here : Path.parent path = "") : fs.parents path = [fs.start ""] := by
  rw [parents, here]
  rfl

theorem makeParent_iff : (fs.makeParent path).2 ↔ ∀ p ∈ fs.parents path, fs.Passable p := by
  rw [makeParent]
  split
  · next here =>
    rw [parents_of_here (String.isEmpty_iff.mp here), List.forall_mem_singleton]
    exact iff_of_true rfl (.inl (isDirectory_start fs _))
  · exact createAlong_iff fs _ _

theorem isDirectory_makeParent (made : (fs.makeParent path).2) :
    ∀ p ∈ fs.parents path, (fs.makeParent path).1.isDirectory p := by
  rw [makeParent] at made ⊢
  split at made
  · next here =>
    rw [if_pos here, parents_of_here (String.isEmpty_iff.mp here), List.forall_mem_singleton]
    exact isDirectory_start fs _
  · next named =>
    rw [if_neg named]
    exact isDirectory_createAlong made

theorem mem_parents_iff {front : List String} {name : String}
    (parts : Path.pieces path = front ++ [name]) (named : ¬Path.isIdle name)
    (other : List String) : other ∈ fs.start path :: along (fs.start path) front ↔
      other ∈ fs.start path :: fs.parents path := by
  have own : Path.withoutIdleEnd (Path.withoutIdleEnd (Path.pieces path)).dropLast
      = Path.withoutIdleEnd front := by
    rw [parts, Path.withoutIdleEnd_of_named named, List.dropLast_concat]
  obtain ⟨idle, stays, split⟩ := Path.splits_withoutIdleEnd front
  obtain ⟨none, here⟩ | ⟨only, root, absolute⟩ | ⟨names, begins⟩ := Path.parent_cases own
  · obtain rfl : front = [] := by
      cases front with
      | nil => rfl
      | cons => cases none
    have relative : fs.start path = fs.start "" := by
      rw [start, Path.isAbsolute, parts]
      rfl
    rw [parents_of_here here, relative]
    simp [along]
  · have at_root : fs.start path = [] := if_pos absolute
    rw [split, only, parents, root, at_root]
    have empty : ∀ piece ∈ "" :: idle, Path.isIdle piece :=
      List.forall_mem_cons.mpr ⟨rfl, stays⟩
    constructor
    · intro among
      rcases List.mem_cons.mp among with rfl | further
      · exact List.mem_cons_self
      · exact eq_of_mem_along_idle empty further ▸ List.mem_cons_self
    · intro among
      rcases List.mem_cons.mp among with rfl | further
      · exact List.mem_cons_self
      · have slashes : ∀ piece ∈ Path.pieces "/", Path.isIdle piece := by decide
        exact eq_of_mem_along_idle slashes further ▸ List.mem_cons_self
  · have same : fs.start (Path.parent path) = fs.start path := by rw [start, begins, ← start]
    rw [parents, same, names, split, along_append, ← split]
    constructor
    · intro among
      rcases List.mem_cons.mp among with rfl | further
      · exact List.mem_cons_self
      · rcases List.mem_append.mp further with own | idle
        · exact List.mem_cons_of_mem _ own
        · rw [eq_of_mem_along_idle stays idle]
          exact foldl_step_mem_along _ _
    · intro among
      rcases List.mem_cons.mp among with rfl | further
      · exact List.mem_cons_self
      · exact List.mem_cons_of_mem _ (List.mem_append_left _ further)

def destination (fs : FileSystem) (path : String) : List String :=
  (Path.pieces path).foldl step (fs.start path)

-- A path is received just when it ends in a name, every place on the way to its directory is one
-- or can become one, and where the file is to be nothing is refused and no directory is or comes
-- to be.
theorem receives_iff : fs.Receives path ↔
    (∀ place ∈ fs.parents path, fs.Passable place) ∧
      (∀ name ∈ (Path.pieces path).getLast?, ¬Path.isIdle name) ∧
        fs.destination path ∉ fs.parents path ∧ ¬fs.isDirectory (fs.destination path) ∧
          ¬fs.readOnly (fs.destination path) := by
  obtain ⟨front, name, parts⟩ : ∃ front name, Path.pieces path = front ++ [name] := by
    have some_piece : Path.pieces path ≠ [] := by
      simpa [Path.pieces] using Path.splitSlashes_ne_nil _
    exact ⟨_, _, (List.dropLast_append_getLast some_piece).symm⟩
  have grown := grown_makeParent fs path
  have start_same : (fs.makeParent path).1.start path = fs.start path := by
    rw [start, grown.workingDirectory, ← start]
  have leads : fs.destination path = step (front.foldl step (fs.start path)) name := by
    rw [destination, parts, List.foldl_concat]
  rw [Receives, makeParent_iff, find?, start_same, parts, List.getLast?_concat]
  simp only [locate_eq_some_iff, Option.mem_some_iff, forall_eq', ← leads]
  constructor
  · rintro ⟨passable, _, ⟨directories, rfl⟩, no_directory, writable⟩
    have named : ¬Path.isIdle name := by
      intro idle
      refine no_directory (directories _ ?_)
      rw [leads, step, if_pos idle]
      exact foldl_step_mem_along _ _
    refine ⟨passable, named, fun among => ?_, fun there => ?_, writable⟩
    · refine no_directory (directories _ ?_)
      exact (mem_parents_iff parts named _).mpr (List.mem_cons_of_mem _ among)
    · exact no_directory (grown.isDirectory there)
  · rintro ⟨passable, named, apart, no_directory, writable⟩
    refine ⟨passable, _, ⟨fun place among => ?_, rfl⟩, fun there => ?_, writable⟩
    · rcases List.mem_cons.mp ((mem_parents_iff parts named place).mp among) with rfl | further
      · exact grown.isDirectory (isDirectory_start fs path)
      · exact isDirectory_makeParent (makeParent_iff.2 passable) place further
    · rw [isDirectory_iff] at there no_directory
      rcases grown.entry (fs.destination path) with same | ⟨_, _, among⟩
      · exact no_directory (same ▸ there)
      · exact apart among

-- A file holds new content. Elsewhere only directories on the way to it may be new.
def Replaced (before after : FileSystem) (path : String) (content : ByteArray) : Prop :=
  ∃ place, after.find? path = some place ∧ after.entry? place = some (.file content) ∧
    ∀ other, other ≠ place → after.entry? other = before.entry? other ∨
      before.entry? other = none ∧ after.entry? other = some .directory ∧
        other ∈ before.parents path

theorem write?_of_found {content : ByteArray} (found : fs.find? path = some place)
    (no_directory : ¬fs.isDirectory place) (writable : ¬fs.readOnly place) :
    fs.write? path content = some (fs.put place (.file content)) := by
  rw [write?, found]
  simp [no_directory, writable]

theorem write?_of_not_found {content : ByteArray}
    (refuses : ∀ place, fs.find? path = some place → fs.isDirectory place ∨ fs.readOnly place) :
    fs.write? path content = none := by
  rw [write?]
  cases found : fs.find? path with
  | none => rfl
  | some place => simp [refuses place found]

theorem find?_put_file {content : ByteArray} (no_directory : ¬fs.isDirectory place)
    (path : String) :
    (fs.put place (.file content)).find? path = fs.find? path := by
  rw [find?, find?, start, start, workingDirectory_put]
  refine locate_congr (fun other => ?_) _ _
  by_cases own : other = place
  · subst own
    rw [Bool.eq_false_iff.mpr no_directory, isDirectory,
      entry?_put fs _ (outside_of_not_directory no_directory)]
  · rw [isDirectory, isDirectory, entry?_put_of_ne fs _ own]

theorem replaced_of_put {before : FileSystem} {content : ByteArray}
    (grown : before.Grown fs (before.parents path)) (found : fs.find? path = some place)
    (no_directory : ¬fs.isDirectory place) :
    Replaced before (fs.put place (.file content)) path content := by
  refine ⟨place, (find?_put_file no_directory path).trans found,
    entry?_put fs _ (outside_of_not_directory no_directory), fun other ne => ?_⟩
  rw [entry?_put_of_ne fs _ ne]
  exact grown.entry other

end Files

end FileSystem
end HotkeyScript
