import Mathlib.Data.List.Basic
import NovelScript.Proofs.TaskEffect

/-!
# What a failed dump leaves

A dump has two outputs. Both are staged before either is committed, and every failure up to the
first commit leaves the file tree as it was. When the second commit fails, the text stream has been
moved into place already, over whatever file stood there, and is taken away again. So a file that
stood at its path before is lost, and this is all that a failed dump can do (`tree_of_failed_dump`).
-/

set_option autoImplicit false

namespace NovelScript

namespace FileTree

variable {tree staged : FileTree} {first second location : Location}

/-- Whether a tree is another one with two temporary files in it. -/
structure Staging (tree staged : FileTree) (first second : Location) : Prop where
  /-- Without the temporary files it is the other tree. -/
  discarded : (staged.erase first).erase second = tree
  /-- The directories are the same. -/
  directories : SameDirectories tree staged
  /-- The first temporary file is there. -/
  firstFile : ∃ bytes, staged.find? first = some (.file bytes)
  /-- The second temporary file is there. -/
  secondFile : ∃ bytes, staged.find? second = some (.file bytes)

section Vacant

variable {text : Bytes} (debug : Bytes) (vacant : tree.find? first = none)
  (vacantNext : (tree.put first (.file text)).find? second = none)

include vacant vacantNext

/-- Two temporary files do not share a place, since the second place is free when the first is
taken. -/
theorem ne_of_vacant : first ≠ second := by
  rintro rfl
  rw [find?_put_self vacant] at vacantNext
  simp at vacantNext

/-- The first temporary file is still there when the second one has been created. -/
theorem find?_put_put :
    ((tree.put first (.file text)).put second (.file debug)).find? first = some (.file text) := by
  rw [find?_put (find?_eq_none_iff.mp vacantNext).1, if_neg (ne_of_vacant vacant vacantNext),
    find?_put_self vacant]

/-- With two temporary files where nothing stood, the tree is the old one but for these files. -/
theorem staging_of_vacant :
    Staging tree ((tree.put first (.file text)).put second (.file debug)) first second := by
  constructor
  case discarded =>
    rw [erase_erase_comm, erase_put, erase_of_find?_eq_none vacantNext, erase_put,
      erase_of_find?_eq_none vacant]
  case directories =>
    exact (SameDirectories.put (by simp [vacant]) text).trans
      (SameDirectories.put (by simp [vacantNext]) debug)
  case firstFile => exact ⟨text, find?_put_put debug vacant vacantNext⟩
  case secondFile => exact ⟨debug, find?_put_self vacantNext⟩

end Vacant

/-- The tree in which the first temporary file was moved to a location and the second is gone. -/
def halfCommitted (staged : FileTree) (first second location : Location) (entry : Entry) :
    FileTree :=
  ((staged.erase first).put location entry).erase second

namespace Staging

variable {entry : Entry}

/-- Taking back a text stream that was moved into place leaves the old tree without the file that
was there. -/
theorem erase_halfCommitted (staging : Staging tree staged first second) (location : Location)
    (entry : Entry) :
    (staged.halfCommitted first second location entry).erase location = tree.erase location := by
  unfold halfCommitted
  rw [erase_erase_comm, erase_put, erase_erase_comm, staging.discarded]

/-- Moving the text stream into place changes no directory. -/
theorem sameDirectories_halfCommitted (staging : Staging tree staged first second)
    (noDirectory : staged.find? location ≠ some .directory)
    (found : staged.find? first = some entry) :
    SameDirectories tree (staged.halfCommitted first second location entry) := by
  obtain ⟨text, isText⟩ := staging.firstFile
  obtain ⟨debug, isDebug⟩ := staging.secondFile
  obtain rfl : entry = .file text := by simpa [isText] using found.symm
  have erased : SameDirectories staged (staged.erase first) :=
    .erase (by simp [isText])
  have moved : SameDirectories staged ((staged.erase first).put location (.file text)) := by
    apply erased.trans
    apply SameDirectories.put
    rwa [ne_eq, erased.directory]
  apply (staging.directories.trans moved).trans
  apply SameDirectories.erase
  rw [ne_eq, moved.directory, isDebug]
  simp

end Staging

end FileTree

namespace Task

variable {tree : FileTree} {script text : Path} {rules : TagRules}

/-- How a dump ends when it fails: with the tree as it was, or without the file that the text stream
had taken the place of. -/
def DumpFailed (tree : FileTree) (text : Path) (failure : Failure) (after : FileTree) : Prop :=
  after = tree ∨
    ∃ location bytes fault, tree.resolve text = .ok (.place location) ∧
      tree.find? location = some (.file bytes) ∧
      failure = .access text.debugReport .debugOutput fault ∧ after = tree.erase location

/-- What remains when the text stream has been taken back is one of the ways in which a dump may
fail. -/
theorem dumpFailed_erase {location : Location} (fault : AccessFault)
    (resolved : tree.resolve text = .ok (.place location))
    (noDirectory : tree.find? location ≠ some .directory) :
    DumpFailed tree text (.access text.debugReport .debugOutput fault) (tree.erase location) := by
  cases present : tree.find? location with
  | none => exact .inl (FileTree.erase_of_find?_eq_none present)
  | some old =>
    cases old with
    | directory => exact absurd present noDirectory
    | file bytes => exact .inr ⟨location, bytes, fault, resolved, present, rfl, rfl⟩

section Commits

variable {staged : Storage} {first second : Location}

/-- A text stream is moved into place, or the tree is the one from before the dump. -/
theorem ensures_commit_text (staging : tree.Staging staged.tree first second) :
    (orElseDo (commit first text .textOutput) (Host.discard second) :
      Task (StateM Session) Unit).Ensures staged fun result after =>
        match result with
        | .ok () => Committed staged.tree first text .textOutput (.ok ()) after.tree
        | .error _ => after.tree = tree := by
  refine (ensures_commit first).orElseDo ?_ ?_
  · intro answer after committed
    exact committed
  · rintro failure session ⟨erased, -⟩
    show session.tree.erase second = tree
    rw [erased, staging.discarded]

/-- When the debug report cannot be committed, the text stream is found again where its commit has
put it, and taken away. -/
theorem ensures_commit_debug {committed : Storage} {location : Location} {entry : Entry}
    (staging : tree.Staging staged.tree first second)
    (resolved : staged.tree.resolve text = .ok (.place location))
    (slash : text.endsInSlash = false)
    (noDirectory : staged.tree.find? location ≠ some .directory)
    (found : staged.tree.find? first = some entry)
    (moved : committed.tree = (staged.tree.erase first).put location entry) :
    (orElseDo (commit second text.debugReport .debugOutput) (retract text) :
      Task (StateM Session) Unit).Ensures committed fun result after =>
        ∀ failure, result = .error failure → DumpFailed tree text failure after.tree := by
  -- Only files have come and gone, so the path still leads to where the text stream was moved.
  have directories := staging.sameDirectories_halfCommitted noDirectory found
  have resolvedBefore := staging.directories.symm.resolve resolved
  have noDirectoryBefore : tree.find? location ≠ some .directory := by
    rwa [ne_eq, ← staging.directories.directory]
  have noDirectoryAfter : (staged.tree.halfCommitted first second location entry).find? location ≠
      some .directory := by
    rwa [ne_eq, directories.directory]
  refine (ensures_commit second).orElseDo ?_ ?_
  · rintro answer after - failure ⟨⟩
  · rintro failure session ⟨erased, fault, rfl⟩ _ ⟨⟩
    have half : session.tree = staged.tree.halfCommitted first second location entry := by
      rw [erased, moved, FileTree.halfCommitted]
    rw [tree_retract (half ▸ directories.resolve resolvedBefore) slash (half ▸ noDirectoryAfter),
      half, staging.erase_halfCommitted]
    exact dumpFailed_erase fault resolvedBefore noDirectoryBefore

/-- A dump that fails while it moves its two files into place leaves the old tree, or that tree
without the file at its text path. -/
theorem ensures_commits (staging : tree.Staging staged.tree first second) (report : DumpReport) :
    (do
      orElseDo (commit first text .textOutput) (Host.discard second)
      orElseDo (commit second text.debugReport .debugOutput) (retract text)
      return report : Task (StateM Session) DumpReport).Ensures staged
        fun result after =>
          ∀ failure, result = .error failure → DumpFailed tree text failure after.tree := by
  refine (ensures_commit_text staging).bind ?_ ?_
  · rintro answer committed ⟨location, entry, resolved, slash, noDirectory, found, moved⟩
    refine (ensures_commit_debug staging resolved slash noDirectory found moved).bind ?_ ?_
    · rintro answer after -
      exact ensures_pure (by simp)
    · intro failure after failed
      simpa using failed
  · rintro failure after same _ -
    exact .inl same

end Commits

/-- When the debug report cannot be staged the text stream is not left behind either. -/
theorem ensures_stages {storage : Storage} {first : Location} {contents : Bytes}
    (vacant : tree.find? first = none) (put : storage.tree = tree.put first (.file contents))
    (path : Path) (bytes : Bytes) (purpose : Purpose) :
    (orElseDo (stage path bytes purpose) (Host.discard first) :
      Task (StateM Session) Location).Ensures storage fun result after =>
        match result with
        | .ok second => tree.Staging after.tree first second
        | .error _ => after.tree = tree := by
  refine (ensures_stage bytes).orElseDo ?_ ?_
  · rintro second _ ⟨-, vacantNext, rfl⟩
    rw [put] at vacantNext
    simp only [put]
    exact FileTree.staging_of_vacant bytes vacant vacantNext
  · rintro failure session ⟨unchanged, -⟩
    show session.tree.erase first = tree
    rw [unchanged, Storage.tree_named, put, FileTree.erase_put,
      FileTree.erase_of_find?_eq_none vacant]

/-- A dump that fails leaves the old tree, or that tree without the file at its text path. -/
theorem ensures_dumpFile (storage : Storage) (script text : Path) (rules : TagRules) :
    (dumpFile script text rules : Task (StateM Session) DumpReport).Ensures storage
      fun result after =>
        ∀ failure, result = .error failure → DumpFailed storage.tree text failure after.tree := by
  unfold dumpFile
  refine ensures_readInput.bind ?_ ?_
  · rintro data after ⟨-, rfl⟩
    refine (ensures_dump rules data).bind ?_ ?_
    · rintro dump after ⟨-, rfl⟩
      dsimp only
      refine (ensures_stage dump.text).bind ?_ ?_
      · rintro first _ ⟨-, vacant, rfl⟩
        refine (ensures_stages vacant rfl text.debugReport dump.debug .debugOutput).bind ?_ ?_
        · intro second staged staging
          exact ensures_commits staging _
        · rintro failure after same _ -
          exact .inl same
      · rintro failure _ ⟨rfl, -⟩ _ -
        exact .inl rfl
    · rintro failure after ⟨-, rfl⟩ _ -
      exact .inl rfl
  · rintro failure after ⟨-, rfl⟩ _ -
    exact .inl rfl

/-- A failed dump leaves the file tree as it was, or it could not move the debug report into place
and has taken away the file at the path of the text stream. -/
theorem tree_of_failed_dump {session after : Session} {failure : Failure}
    (failed : (dumpFile script text rules : Task (StateM Session) DumpReport).run session =
      (.error failure, after)) :
    DumpFailed session.tree text failure after.tree := by
  obtain ⟨storage, log⟩ := session
  have ended := (ensures_dumpFile storage script text rules).holds log
  rw [failed] at ended
  exact ended failure rfl

/-- A dump to a new text stream, with a directory where the debug report should go: the text stream
is not left behind. -/
theorem tree_of_failed_dump_to_new_text :
    let tree : FileTree :=
      { workingDirectory := ["work"]
        entries := [(["work", "s.bin"], .file [0x68, 0x69, 0x1A]),
          (["work", "t.txt.debug"], .directory)] }
    ∃ after, (dumpFile ⟨"s.bin"⟩ ⟨"t.txt"⟩ .standard : Task (StateM Session) DumpReport).run
        (.start tree) = (.error (.access ⟨"t.txt.debug"⟩ .debugOutput .isADirectory), after) ∧
      after.tree = tree := by
  intro tree
  have failed : ((dumpFile ⟨"s.bin"⟩ ⟨"t.txt"⟩ .standard : Task (StateM Session) DumpReport).run
      (.start tree)).1 = .error (.access ⟨"t.txt.debug"⟩ .debugOutput .isADirectory) := by
    decide +kernel
  have leads : tree.resolve ⟨"t.txt"⟩ = .ok (.place ["work", "t.txt"]) := by decide +kernel
  have vacant : tree.find? ["work", "t.txt"] = none := by decide +kernel
  rcases ran : (dumpFile ⟨"s.bin"⟩ ⟨"t.txt"⟩ .standard : Task (StateM Session) DumpReport).run
    (.start tree) with ⟨result, after⟩
  rw [ran] at failed
  subst failed
  refine ⟨after, rfl, ?_⟩
  rcases tree_of_failed_dump ran with same | ⟨location, bytes, fault, resolved, found, -⟩
  · exact same
  · simp only [Session.start] at resolved found
    rw [leads, Except.ok.injEq, FileTree.Destination.place.injEq] at resolved
    rw [← resolved, vacant] at found
    simp at found

/-- An older text stream does not survive a dump whose debug report cannot be moved into place. -/
theorem failed_dump_loses_text :
    let tree : FileTree :=
      { workingDirectory := ["work"]
        entries := [(["work", "s.bin"], .file [0x68, 0x69, 0x1A]),
          (["work", "t.txt"], .file [0x6F, 0x6C, 0x64]), (["work", "t.txt.debug"], .directory)] }
    let ended := (dumpFile ⟨"s.bin"⟩ ⟨"t.txt"⟩ .standard : Task (StateM Session) DumpReport).run
      (.start tree)
    ended.1 = .error (.access ⟨"t.txt.debug"⟩ .debugOutput .isADirectory) ∧
      ended.2.tree = tree.erase ["work", "t.txt"] ∧ ended.2.tree ≠ tree := by
  decide +kernel

end Task

end NovelScript
