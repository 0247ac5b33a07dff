import NovelScript.Files.Tree

/-!
# What accesses do to a file tree

Entries are put, taken away and looked up by location, and these three do not get in each other's
way (`find?_put`, `find?_erase`, `erase_put`). A temporary file is created where nothing stands
(`createTemporary_eq_ok`), so that putting it and taking it away again leaves the tree as it was.

Where a path leads depends on the directories of a tree alone. Files come and go without a change to
them (`SameDirectories.put`, `SameDirectories.erase`), so a path that was followed once leads to the
same place later (`SameDirectories.resolve`).
-/

set_option autoImplicit false

namespace NovelScript

namespace FileTree

variable {tree other : FileTree} {location place : Location} {entry : Entry}

/-! ## Entries -/

/-- Nothing is found at a location exactly when no entry is filed under it. -/
theorem lookup_eq_none_iff {entries : List (Location × Entry)} :
    entries.lookup location = none ↔ ∀ found ∈ entries, found.1 ≠ location := by
  simp only [List.lookup_eq_none_iff, bne_iff_ne]
  exact forall₂_congr fun found _ => ne_comm

/-- A place is empty exactly when it is no directory above the working directory and no entry is
filed there. -/
theorem find?_eq_none_iff :
    tree.find? location = none ↔
      location.isPrefixOf tree.workingDirectory = false ∧
        ∀ found ∈ tree.entries, found.1 ≠ location := by
  unfold find?
  rw [← lookup_eq_none_iff]
  cases location.isPrefixOf tree.workingDirectory with
  | true => simp
  | false => simp

/-- Without the entries of one location, all others are found as before. -/
theorem lookup_filter_ne (entries : List (Location × Entry)) (different : place ≠ location) :
    (entries.filter fun found => found.1 ≠ location).lookup place = entries.lookup place := by
  induction entries with
  | nil => rfl
  | cons first entries ih =>
    obtain ⟨here, entry⟩ := first
    by_cases same : here = location
    · have notHere : (place == here) = false := by simp [same, different]
      rw [List.filter_cons_of_neg (by simp [same]), ih, List.lookup_cons, notHere]
    · rw [List.filter_cons_of_pos (by simp [same]), List.lookup_cons, List.lookup_cons, ih]

/-- Without the entries of a location, nothing is found there. -/
theorem lookup_filter_self (entries : List (Location × Entry)) :
    (entries.filter fun found => found.1 ≠ location).lookup location = none := by
  rw [lookup_eq_none_iff]
  intro found member
  simpa using (List.mem_filter.mp member).2

/-- Taking an entry away empties its own location and no other. -/
theorem find?_erase (outside : location.isPrefixOf tree.workingDirectory = false) :
    (tree.erase location).find? place = if place = location then none else tree.find? place := by
  unfold find? erase
  by_cases same : place = location
  · subst same
    rw [if_pos rfl, outside]
    exact lookup_filter_self tree.entries
  · rw [if_neg same, lookup_filter_ne tree.entries same]

/-- When the entries of a location are replaced, only what is found there changes. -/
theorem lookup_map_put (entries : List (Location × Entry)) :
    (entries.map fun found => if found.1 = location then (location, entry) else found).lookup
        place =
      if place = location then (entries.lookup location).map fun _ => entry
      else entries.lookup place := by
  induction entries with
  | nil => simp
  | cons first entries ih =>
    obtain ⟨here, old⟩ := first
    by_cases same : here = location
    · subst same
      by_cases own : place = here
      · simp [own]
      · have notHere : (place == here) = false := by simp [own]
        simp [List.lookup_cons, notHere, ih, own]
    · rw [List.map_cons, if_neg same, List.lookup_cons, ih, List.lookup_cons, List.lookup_cons]
      by_cases own : place = location
      · subst own
        have notHere : (place == here) = false := by simpa using fun h => same h.symm
        simp [notHere]
      · simp [own]

/-- An entry that is put somewhere is found there, and everything else where it was. -/
theorem find?_put (outside : location.isPrefixOf tree.workingDirectory = false) :
    (tree.put location entry).find? place =
      if place = location then some entry else tree.find? place := by
  unfold put
  split
  case isTrue present =>
    have taken : tree.entries.lookup location ≠ none := by
      rw [ne_eq, lookup_eq_none_iff]
      simpa using present
    obtain ⟨old, found⟩ := Option.ne_none_iff_exists'.mp taken
    unfold find?
    rw [lookup_map_put]
    by_cases own : place = location
    · simp [own, outside, found]
    · simp [own]
  case isFalse absent =>
    have missing : tree.entries.lookup location = none := by
      rw [lookup_eq_none_iff]
      intro found member same
      exact absent (List.any_eq_true.mpr ⟨found, member, decide_eq_true same⟩)
    unfold find?
    rw [List.lookup_append]
    by_cases own : place = location
    · simp [own, outside, missing]
    · have notHere : (place == location) = false := by simp [own]
      simp [own, List.lookup_cons, notHere]

/-- What is put at an empty place is found there. -/
theorem find?_put_self (vacant : tree.find? location = none) :
    (tree.put location entry).find? location = some entry := by
  rw [find?_put (find?_eq_none_iff.mp vacant).1, if_pos rfl]

/-- There is nothing to take away from an empty place. -/
theorem erase_of_find?_eq_none (vacant : tree.find? location = none) :
    tree.erase location = tree := by
  have absent := (find?_eq_none_iff.mp vacant).2
  unfold erase
  rw [List.filter_eq_self.mpr]
  simpa using absent

/-- It does not matter which of two entries is taken away first. -/
theorem erase_erase_comm (tree : FileTree) (location place : Location) :
    (tree.erase location).erase place = (tree.erase place).erase location := by
  unfold erase
  simp only [List.filter_filter, Bool.and_comm]

/-- An entry that is replaced and then taken away might as well not have been replaced. -/
theorem filter_map_put (entries : List (Location × Entry)) :
    (entries.map fun found => if found.1 = location then (location, entry) else found).filter
        (fun found => found.1 ≠ location) =
      entries.filter fun found => found.1 ≠ location := by
  induction entries with
  | nil => rfl
  | cons first entries ih =>
    rw [List.map_cons]
    by_cases same : first.1 = location
    · rw [if_pos same, List.filter_cons_of_neg (by simp), List.filter_cons_of_neg (by simp [same]),
        ih]
    · rw [if_neg same, List.filter_cons_of_pos (by simp [same]),
        List.filter_cons_of_pos (by simp [same]), ih]

/-- What was put at a location goes with everything else there. -/
theorem erase_put (tree : FileTree) (location : Location) (entry : Entry) :
    (tree.put location entry).erase location = tree.erase location := by
  unfold put erase
  split
  case isTrue => rw [filter_map_put]
  case isFalse => simp

/-- Replacing one entry and taking away another one can be done in either order. -/
theorem filter_map_put_of_ne (entries : List (Location × Entry)) (different : place ≠ location) :
    (entries.map fun found => if found.1 = place then (place, entry) else found).filter
        (fun found => found.1 ≠ location) =
      (entries.filter fun found => found.1 ≠ location).map fun found =>
        if found.1 = place then (place, entry) else found := by
  rw [List.filter_map]
  congr 1
  apply List.filter_congr
  intro found _
  by_cases same : found.1 = place
  · simp [same, different]
  · simp [same]

/-- Entries at different locations are put and taken away in any order. -/
theorem erase_put_of_ne (tree : FileTree) (different : place ≠ location) (entry : Entry) :
    (tree.put place entry).erase location = (tree.erase location).put place entry := by
  have present : (tree.erase location).entries.any (fun found => found.1 = place) =
      tree.entries.any fun found => found.1 = place := by
    rw [erase, Bool.eq_iff_iff, List.any_eq_true, List.any_eq_true]
    constructor
    · rintro ⟨found, member, same⟩
      exact ⟨found, (List.mem_filter.mp member).1, same⟩
    · rintro ⟨found, member, same⟩
      refine ⟨found, List.mem_filter.mpr ⟨member, ?_⟩, same⟩
      simpa [of_decide_eq_true same] using different
  unfold put
  rw [present]
  split
  case isTrue =>
    unfold erase
    rw [filter_map_put_of_ne tree.entries different]
  case isFalse =>
    unfold erase
    simp [different]

/-! ## Directories -/

/-- Whether two trees have the same directories. -/
structure SameDirectories (tree other : FileTree) : Prop where
  /-- Paths begin at the same place. -/
  workingDirectory : other.workingDirectory = tree.workingDirectory
  /-- Directories stand at the same locations. -/
  directory : ∀ location,
    other.find? location = some .directory ↔ tree.find? location = some .directory

namespace SameDirectories

/-- Whether two trees have the same directories does not depend on which one comes first. -/
theorem symm (same : SameDirectories tree other) : SameDirectories other tree :=
  ⟨same.workingDirectory.symm, fun location => (same.directory location).symm⟩

/-- If two changes keep the directories, so do both together. -/
theorem trans {last : FileTree} (first : SameDirectories tree other)
    (second : SameDirectories other last) : SameDirectories tree last :=
  ⟨second.workingDirectory.trans first.workingDirectory,
    fun location => (second.directory location).trans (first.directory location)⟩

end SameDirectories

/-- What is no directory is not above the working directory. -/
theorem outside_of_not_directory (noDirectory : tree.find? location ≠ some .directory) :
    location.isPrefixOf tree.workingDirectory = false := by
  cases within : location.isPrefixOf tree.workingDirectory with
  | false => rfl
  | true => exact absurd (if_pos within) noDirectory

/-- Putting an entry somewhere does not move the working directory. -/
@[simp] theorem workingDirectory_put :
    (tree.put location entry).workingDirectory = tree.workingDirectory := by
  unfold put
  split <;> rfl

/-- A file that is put where no directory stands changes no directory. -/
theorem SameDirectories.put (noDirectory : tree.find? location ≠ some .directory)
    (bytes : Bytes) : SameDirectories tree (tree.put location (.file bytes)) := by
  refine ⟨workingDirectory_put, ?_⟩
  intro place
  rw [find?_put (outside_of_not_directory noDirectory)]
  by_cases own : place = location
  · simp [own, noDirectory]
  · rw [if_neg own]

/-- Taking away what is no directory changes no directory. -/
theorem SameDirectories.erase (noDirectory : tree.find? location ≠ some .directory) :
    SameDirectories tree (tree.erase location) := by
  refine ⟨rfl, ?_⟩
  intro place
  rw [find?_erase (outside_of_not_directory noDirectory)]
  by_cases own : place = location
  · simp [own, noDirectory]
  · rw [if_neg own]

/-- Steps that led through directories lead the same way wherever these are. -/
theorem SameDirectories.follow (same : SameDirectories tree other) {here : Location}
    {names : List String} (followed : tree.follow here names = .ok location) :
    other.follow here names = .ok location := by
  induction names generalizing here with
  | nil => exact followed
  | cons name names ih =>
    unfold FileTree.follow at followed ⊢
    split
    case isTrue dots =>
      rw [if_pos dots] at followed
      exact ih followed
    case isFalse dots =>
      rw [if_neg dots] at followed
      split
      case isTrue long => simp [long] at followed
      case isFalse long =>
        rw [if_neg long] at followed
        split at followed
        case h_1 => simp at followed
        case h_2 => simp at followed
        case h_3 found =>
          rw [(same.directory _).mpr found]
          exact ih followed

/-- A path leads to the same destination wherever the directories are the same. -/
theorem SameDirectories.resolve (same : SameDirectories tree other) {path : Path}
    {destination : Destination} (resolved : tree.resolve path = .ok destination) :
    other.resolve path = .ok destination := by
  unfold FileTree.resolve at resolved ⊢
  have origin : other.origin path = tree.origin path := by
    unfold FileTree.origin
    rw [same.workingDirectory]
  cases refused : refusal? path with
  | some fault => simp [refused] at resolved
  | none =>
    rw [refused] at resolved
    cases followed : tree.follow (tree.origin path) path.steps.dropLast with
    | error fault => simp [followed] at resolved
    | ok holder =>
      rw [followed] at resolved
      rw [origin, same.follow followed]
      exact resolved

/-! ## Paths and places -/

/-- A text without a slash is one part. -/
theorem splitSlashes_of_not_mem {text : List Char} (noSlash : '/' ∉ text) :
    Path.splitSlashes text = [text] := by
  induction text with
  | nil => rfl
  | cons c rest ih =>
    rw [List.mem_cons, not_or] at noSlash
    rw [Path.splitSlashes, if_neg (Ne.symm noSlash.1), ih noSlash.2]

/-- What is added to a text without a slash goes to its last part. -/
theorem splitSlashes_append {tail : List Char} (noSlash : '/' ∉ tail) (text : List Char) :
    ∃ front last, Path.splitSlashes text = front ++ [last] ∧
      Path.splitSlashes (text ++ tail) = front ++ [last ++ tail] ∧
      (last = [] → text = [] ∨ text.getLast? = some '/') := by
  induction text with
  | nil => exact ⟨[], [], rfl, splitSlashes_of_not_mem noSlash, fun _ => .inl rfl⟩
  | cons c rest ih =>
    obtain ⟨front, last, split, longer, empty⟩ := ih
    rw [List.cons_append, Path.splitSlashes, Path.splitSlashes, split, longer]
    by_cases slash : c = '/'
    · refine ⟨[] :: front, last, by simp [slash], by simp [slash], ?_⟩
      intro none
      right
      rcases empty none with rfl | ends
      · simp [slash]
      · rw [List.getLast?_cons, ends, Option.getD_some]
    · rw [if_neg slash, if_neg slash]
      cases front with
      | nil => exact ⟨[], c :: last, rfl, rfl, by simp⟩
      | cons part parts =>
        refine ⟨(c :: part) :: parts, last, rfl, rfl, ?_⟩
        intro none
        right
        rcases empty none with rfl | ends
        · simp [Path.splitSlashes] at split
        · rw [List.getLast?_cons, ends, Option.getD_some]

/-- The path of a debug report differs from that of its text stream in the last step. -/
theorem steps_debugReport {path : Path} (named : path.text ≠ "") (slash : path.endsInSlash = false) :
    ∃ front last, path.steps = front ++ [last] ∧
      path.debugReport.steps = front ++ [last ++ ".debug"] := by
  have noSlash : '/' ∉ ".debug".toList := by decide
  obtain ⟨front, last, split, longer, empty⟩ := splitSlashes_append noSlash path.text.toList
  have nonempty : last ≠ [] := by
    intro none
    rcases empty none with nothing | ends
    · exact named (String.toList_eq_nil_iff.mp nothing)
    · simp [Path.endsInSlash, ends] at slash
  refine ⟨(front.map String.ofList).filter fun part => part ≠ "", String.ofList last, ?_, ?_⟩
  · rw [Path.steps, Path.parts, split, List.map_append, List.filter_append]
    simp [nonempty]
  · have report : path.debugReport.text.toList = path.text.toList ++ ".debug".toList :=
      String.toList_append
    rw [Path.steps, Path.parts, report, longer, List.map_append, List.filter_append]
    simp [String.ofList_append]

/-- A place is a name in a directory, and the name is the last step of every path to it. -/
theorem resolve_eq_place {path : Path} (resolved : tree.resolve path = .ok (.place location)) :
    path.text ≠ "" ∧ ∃ holder last, path.steps.getLast? = some last ∧
      location = holder ++ [last] := by
  unfold resolve at resolved
  split at resolved
  case h_1 => simp at resolved
  case h_2 accepted =>
    have named : path.text ≠ "" := by
      intro empty
      rw [refusal?, if_pos empty] at accepted
      split at accepted <;> simp at accepted
    split at resolved
    case h_1 => simp at resolved
    case h_2 => simp at resolved
    case h_3 holder last _ ends =>
      split at resolved
      case isTrue => simp at resolved
      case isFalse dots =>
        rw [not_or] at dots
        split at resolved
        case isTrue => simp at resolved
        case isFalse =>
          rw [Except.ok.injEq, Destination.place.injEq] at resolved
          rw [Location.step, if_neg dots.1, if_neg dots.2] at resolved
          exact ⟨named, holder, last, ends, resolved.symm⟩

/-- A path and its debug report never lead to the same place, since their last steps differ. -/
theorem ne_of_resolve_debugReport {path : Path} (slash : path.endsInSlash = false)
    (resolved : tree.resolve path = .ok (.place location))
    (report : other.resolve path.debugReport = .ok (.place place)) : place ≠ location := by
  obtain ⟨named, holder, last, ends, rfl⟩ := resolve_eq_place resolved
  obtain ⟨-, reportHolder, reportLast, reportEnds, rfl⟩ := resolve_eq_place report
  obtain ⟨front, step, steps, reportSteps⟩ := steps_debugReport named slash
  rw [steps, List.getLast?_concat, Option.some.injEq] at ends
  rw [reportSteps, List.getLast?_concat, Option.some.injEq] at reportEnds
  subst ends reportEnds
  intro same
  have lengths := congrArg String.length (List.singleton_inj.mp (List.append_inj' same rfl).2)
  rw [String.length_append] at lengths
  have longer : 0 < ".debug".length := by decide
  omega

/-! ## Temporary files -/

/-- Where a temporary file goes that is created in a directory under a name, if the directory is
there. -/
def temporaryPlace? (tree : FileTree) (directory : Path) (name : String) : Option Location :=
  match tree.follow (tree.origin directory) directory.steps with
  | .ok holder => some (holder ++ [name])
  | .error _ => none

/-- A temporary file goes to the same place wherever the directories are the same. -/
theorem SameDirectories.temporaryPlace? (same : SameDirectories tree other) {directory : Path}
    {name : String} (goes : tree.temporaryPlace? directory name = some location) :
    other.temporaryPlace? directory name = some location := by
  unfold FileTree.temporaryPlace? at goes ⊢
  have origin : other.origin directory = tree.origin directory := by
    unfold FileTree.origin
    rw [same.workingDirectory]
  cases followed : tree.follow (tree.origin directory) directory.steps with
  | error fault => simp [followed] at goes
  | ok holder =>
    rw [followed] at goes
    rw [origin, same.follow followed]
    exact goes

/-! ## Accesses -/

section Accesses

variable {after : FileTree} {path : Path}

/-- A temporary file is created under the name given, where nothing stood before. -/
theorem createTemporary_eq_ok {name : String} {bytes : Bytes}
    (created : tree.createTemporary path name bytes = .ok (location, after)) :
    tree.temporaryPlace? path name = some location ∧ tree.find? location = none ∧
      after = tree.put location (.file bytes) := by
  unfold createTemporary at created
  unfold temporaryPlace?
  split at created
  case isTrue => simp at created
  case isFalse =>
    split at created
    case isTrue => simp at created
    case isFalse =>
      split at created
      case h_1 => simp at created
      case h_2 holder followed =>
        dsimp only at created
        split at created
        case h_1 => simp at created
        case h_2 vacant =>
          simp only [Except.ok.injEq, Prod.mk.injEq] at created
          obtain ⟨rfl, rfl⟩ := created
          exact ⟨by rw [followed], vacant, rfl⟩

/-- A temporary file is moved to the place that a path leads to, unless a directory stands there. -/
theorem rename_eq_ok {source : Location} (renamed : tree.rename source path = .ok after) :
    ∃ location entry, tree.resolve path = .ok (.place location) ∧ path.endsInSlash = false ∧
      tree.find? location ≠ some .directory ∧ tree.find? source = some entry ∧
      after = (tree.erase source).put location entry := by
  unfold rename at renamed
  split at renamed
  case h_1 => simp at renamed
  case h_2 => simp at renamed
  case h_3 location resolved =>
    split at renamed
    case isTrue => simp at renamed
    case isFalse slash =>
      split at renamed
      case h_1 => simp at renamed
      case h_2 entry found noDirectory =>
        rw [Except.ok.injEq] at renamed
        exact ⟨location, entry, resolved, Bool.eq_false_iff.mpr slash, noDirectory, found,
          renamed.symm⟩
      case h_3 => simp at renamed

/-- What a path leads to is gone after a removal, whether there was a file or nothing at all. -/
theorem remove_cases (resolved : tree.resolve path = .ok (.place location))
    (slash : path.endsInSlash = false) (noDirectory : tree.find? location ≠ some .directory) :
    tree.remove path = .ok (tree.erase location) ∨
      (∃ fault, tree.remove path = .error fault) ∧ tree.erase location = tree := by
  simp only [remove, resolved]
  cases found : tree.find? location with
  | none => exact .inr ⟨⟨_, rfl⟩, erase_of_find?_eq_none found⟩
  | some entry =>
    cases entry with
    | directory => exact absurd found noDirectory
    | file bytes => simp [slash]

end Accesses

end FileTree

end NovelScript
