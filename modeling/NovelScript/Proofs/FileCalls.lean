import NovelScript.Proofs.FailedDump

/-!
# What a sequence of calls leaves

A call is one task on files with its paths, and in a sequence of calls any paths may coincide: a new
script goes over the one it was made of, or a text stream over its own script. What each call then
does depends on two things. A task reads all its inputs before it writes, so what it writes is a
function of the tree before the call. And moving one output into place must not disturb another one
that is still waiting in its temporary file (`FileTree.Written.erase`). Only a dump has two outputs,
so this is asked of dumps alone: the text stream does not lead to where the debug report waits
(`FileCall.Clear`). Nothing else is asked of the names of temporary files.

So a call that succeeds has changed the places of its outputs and nothing else (`FileTree.Outputs`,
`FileCall.ensures_task`). Directories stay as they are, hence a path leads to the same place all along
a sequence, and a place that no output leads to is out of its reach (`confined_performAll`).
-/

set_option autoImplicit false

namespace NovelScript

namespace FileTree

variable {tree middle after : FileTree} {path : Path} {bytes : Bytes}

/-- Whether a tree differs from another one at most in files where one of some paths leads. -/
structure Confined (tree : FileTree) (paths : List Path) (after : FileTree) : Prop where
  /-- Where none of the paths leads, there is what was there before. -/
  elsewhere : ∀ location, (∀ path ∈ paths, tree.resolve path ≠ .ok (.place location)) →
    after.find? location = tree.find? location
  /-- Directories have neither come nor gone. -/
  directories : SameDirectories tree after

namespace Confined

/-- A tree does not differ from itself. -/
theorem refl (tree : FileTree) (paths : List Path) : tree.Confined paths tree :=
  ⟨fun _ _ => rfl, rfl, fun _ => .rfl⟩

/-- A path leads to the same place after the first change as before it. -/
theorem trans {paths others : List Path} (first : tree.Confined paths middle)
    (second : middle.Confined others after) : tree.Confined (paths ++ others) after := by
  refine ⟨?_, first.directories.trans second.directories⟩
  intro location elsewhere
  rw [List.forall_mem_append] at elsewhere
  rw [second.elsewhere, first.elsewhere location elsewhere.1]
  intro path member resolved
  exact elsewhere.2 path member (first.directories.symm.resolve resolved)

end Confined

/-- Whether a tree is another one with contents written where a path leads. -/
def Written (tree : FileTree) (path : Path) (bytes : Bytes) (after : FileTree) : Prop :=
  ∃ location, tree.resolve path = .ok (.place location) ∧ path.endsInSlash = false ∧
    tree.find? location ≠ some .directory ∧ after = tree.put location (.file bytes)

namespace Written

/-- Writing where a path leads changes nothing elsewhere. -/
theorem confined (written : tree.Written path bytes after) : tree.Confined [path] after := by
  obtain ⟨place, resolved, -, noDirectory, rfl⟩ := written
  refine ⟨?_, .put noDirectory bytes⟩
  intro location elsewhere
  rw [List.forall_mem_singleton] at elsewhere
  rw [find?_put (outside_of_not_directory noDirectory), if_neg]
  rintro rfl
  exact elsewhere resolved

/-- A place to which the path does not lead has kept what stood there. -/
theorem find?_of_elsewhere (written : tree.Written path bytes after) {location : Location}
    (elsewhere : tree.resolve path ≠ .ok (.place location)) :
    after.find? location = tree.find? location :=
  written.confined.elsewhere location (List.forall_mem_singleton.mpr elsewhere)

/-- What was written where a path leads can be read at that path. -/
theorem read_eq_ok (written : tree.Written path bytes after) : after.read path = .ok bytes := by
  have same := written.confined.directories
  obtain ⟨location, resolved, slash, noDirectory, rfl⟩ := written
  have found : (tree.put location (.file bytes)).find? location = some (.file bytes) := by
    rw [find?_put (outside_of_not_directory noDirectory), if_pos rfl]
  simp [read, same.resolve resolved, found, slash]

/-- What another path leads to can be read as before. -/
theorem read_of_elsewhere (written : tree.Written path bytes after) {other : Path}
    {location : Location} (resolved : tree.resolve other = .ok (.place location))
    (elsewhere : tree.resolve path ≠ .ok (.place location)) :
    after.read other = tree.read other := by
  unfold read
  rw [resolved, written.confined.directories.resolve resolved]
  dsimp only
  rw [written.find?_of_elsewhere elsewhere]

/-- A temporary file has no part in what is written where a path leads, if it is elsewhere. -/
theorem erase {temporary : Location} {contents : Bytes} (written : tree.Written path bytes after)
    (elsewhere : tree.resolve path ≠ .ok (.place temporary))
    (staged : tree.find? temporary = some (.file contents)) :
    (tree.erase temporary).Written path bytes (after.erase temporary) := by
  obtain ⟨location, resolved, slash, noDirectory, rfl⟩ := written
  have same : SameDirectories tree (tree.erase temporary) := .erase (by simp [staged])
  have different : location ≠ temporary := by
    rintro rfl
    exact elsewhere resolved
  refine ⟨location, same.resolve resolved, slash, ?_, erase_put_of_ne tree different _⟩
  rwa [ne_eq, same.directory]

end Written

/-- Whether outputs have been written and all else is as it was. A temporary file that is still there
would be a change where no output leads. -/
structure Outputs (tree : FileTree) (outputs : List (Path × Bytes)) (after : FileTree) : Prop where
  /-- Each output can be read at its path. -/
  contents : ∀ output ∈ outputs, after.read output.1 = .ok output.2
  /-- Nothing else has changed. -/
  confined : tree.Confined (outputs.map Prod.fst) after

/-- A single file that was written is the only output. -/
theorem Written.outputs (written : tree.Written path bytes after) :
    tree.Outputs [(path, bytes)] after :=
  ⟨List.forall_mem_singleton.mpr written.read_eq_ok, written.confined⟩

/-- A text stream and its debug report never go to the same place. -/
theorem Written.outputs_debugReport {debug : Bytes} (text : tree.Written path bytes middle)
    (report : middle.Written path.debugReport debug after) :
    tree.Outputs [(path, bytes), (path.debugReport, debug)] after := by
  refine ⟨?_, text.confined.trans report.confined⟩
  have kept : after.read path = .ok bytes := by
    rw [← text.read_eq_ok]
    have same := text.confined.directories
    obtain ⟨location, resolved, slash, -⟩ := text
    apply report.read_of_elsewhere (same.resolve resolved)
    intro coincides
    exact ne_of_resolve_debugReport slash resolved coincides rfl
  rw [List.forall_mem_cons, List.forall_mem_singleton]
  exact ⟨kept, report.read_eq_ok⟩

end FileTree

/-! ## Calls -/

/-- A task on files with what it is given. -/
inductive FileCall
  /-- Dumps a script. -/
  | dump (script text : Path) (rules : TagRules)
  /-- Injects lines into a script. -/
  | inject (script text output : Path)
  /-- Counts what a script contains. -/
  | inspect (script : Path)
  /-- Dumps a script in memory and injects the dump. -/
  | verify (script : Path) (rules : TagRules)
  /-- Loads a profile. -/
  | load (profile : Path)
  /-- Writes a file. -/
  | write (path : Path) (bytes : Bytes) (purpose : Purpose)

namespace FileCall

/-- What a call answers if it succeeds. -/
def Answer : FileCall → Type
  | dump .. => DumpReport
  | inject .. => Injection
  | inspect _ => Summary
  | verify .. => RoundTrip
  | load _ => TagRules
  | write .. => Unit

/-- The task of a call. -/
def task : (call : FileCall) → Task (StateM Session) call.Answer
  | dump script text rules => Task.dumpFile script text rules
  | inject script text output => Task.injectFile script text output
  | inspect script => Task.inspectFile script
  | verify script rules => Task.verifyFile script rules
  | load profile => Task.loadProfile profile
  | write path bytes purpose => Task.writeAtomically path bytes purpose

/-- The paths that a call may write to. -/
def targets : FileCall → List Path
  | dump _ text _ => [text, text.debugReport]
  | inject _ _ output => [output]
  | write path _ _ => [path]
  | inspect _ | verify .. | load _ => []

/-- What a call may do to a tree. What it writes is a function of what it reads before. -/
def Effect (tree : FileTree) : (call : FileCall) → Except Failure call.Answer → FileTree → Prop
  | dump script text rules, .ok report, after => ∃ data dumped,
    tree.read script = .ok data ∧ NovelScript.dump rules data = .ok dumped ∧
      report = ⟨text, text.debugReport, dumped.lines, dumped.units⟩ ∧
      tree.Outputs [(text, dumped.text), (text.debugReport, dumped.debug)] after
  | dump _ text _, .error failure, after => Task.DumpFailed tree text failure after
  | inject script text output, .ok injection, after => ∃ data contents,
    tree.read script = .ok data ∧ tree.read text = .ok contents ∧
      NovelScript.inject data (Line.split contents) = .ok injection ∧
      tree.Outputs [(output, injection.script)] after
  | write path bytes _, .ok _, after => tree.Outputs [(path, bytes)] after
  | inject .., .error _, after | write .., .error _, after => after = tree
  | inspect _, _, after | verify .., _, after | load _, _, after => after = tree

/-- Whether an output of a call stays clear of another one that waits in its temporary file. The debug
report of a dump gets the second name from now, and waits while the text stream is moved. -/
def Clear (storage : Storage) : FileCall → Prop
  | dump _ text _ =>
    ∀ location ∈ storage.tree.temporaryPlace? text.debugReport.directory (storage.names 1),
      storage.tree.resolve text ≠ .ok (.place location)
  | inject .. | inspect _ | verify .. | load _ | write .. => True

/-- Only a dump has to be looked at, and it has at most one place to avoid. -/
instance (storage : Storage) : (call : FileCall) → Decidable (call.Clear storage)
  | dump _ text _ => inferInstanceAs (Decidable (∀ location ∈
      storage.tree.temporaryPlace? text.debugReport.directory (storage.names 1),
        storage.tree.resolve text ≠ .ok (.place location)))
  | inject .. | inspect _ | verify .. | load _ | write .. => isTrue trivial

end FileCall

/-- The session after calls one after the other, whether they succeed or fail. -/
def performAll (calls : List FileCall) (session : Session) : Session :=
  calls.foldl (fun session call => (call.task.run session).2) session

/-- Whether each call of a sequence is clear on the storage that the ones before it have left. -/
def AllClear : List FileCall → Session → Prop
  | [], _ => True
  | call :: calls, session =>
    call.Clear session.toStorage ∧ AllClear calls (call.task.run session).2

/-- Whether a sequence is clear is found out by performing it. -/
instance AllClear.decidable : (calls : List FileCall) → (session : Session) →
    Decidable (AllClear calls session)
  | [], _ => isTrue trivial
  | call :: calls, session =>
    have := AllClear.decidable calls (call.task.run session).2
    inferInstanceAs (Decidable (call.Clear session.toStorage ∧ _))

/-! ## Calls that only read -/

namespace Task

section ReadOnly

variable {α β : Type} {task : Task (StateM Session) α}

/-- Whether a task leaves every storage as it is. -/
def ReadOnly (task : Task (StateM Session) α) : Prop :=
  ∀ storage, task.Ensures storage fun _ after => after = storage

/-- Two tasks that only read do so one after the other. -/
theorem ReadOnly.bind {next : α → Task (StateM Session) β} (first : task.ReadOnly)
    (rest : ∀ answer, (next answer).ReadOnly) : (task >>= next).ReadOnly := by
  intro storage
  refine (first storage).bind ?_ ?_
  · rintro answer after rfl
    exact rest answer after
  · rintro failure after rfl
    rfl

/-- An answer touches no file. -/
theorem readOnly_pure (answer : α) : (pure answer : Task (StateM Session) α).ReadOnly :=
  fun _ => ensures_pure rfl

/-- A failure touches no file. -/
theorem readOnly_throw (failure : Failure) :
    (throw failure : Task (StateM Session) α).ReadOnly :=
  fun _ => ensures_throw rfl

/-- Reading a file changes none. -/
theorem readOnly_readInput (path : Path) (purpose : Purpose) :
    (readInput path purpose : Task (StateM Session) Bytes).ReadOnly :=
  fun _ => ensures_readInput.imp fun _ _ => And.right

/-- Loading a profile changes no file, whether the profile is sound or not. -/
theorem readOnly_loadProfile (path : Path) :
    (loadProfile path : Task (StateM Session) TagRules).ReadOnly := by
  unfold loadProfile
  apply (readOnly_readInput path .profile).bind
  intro bytes
  split
  case h_1 => apply readOnly_throw
  case h_2 =>
    split
    case h_1 => apply readOnly_throw
    case h_2 => exact fun _ => Ensures.note_bind (ensures_pure rfl)

/-- Counting what a script contains changes no file. -/
theorem readOnly_inspectFile (script : Path) :
    (inspectFile script : Task (StateM Session) Summary).ReadOnly := by
  unfold inspectFile
  apply (readOnly_readInput script .scriptInput).bind
  intro data
  apply ReadOnly.bind fun _ => (ensures_decode data).imp fun _ _ => And.right
  intro commands
  apply readOnly_pure

/-- The dump and the injection of a check stay in memory. -/
theorem readOnly_verifyFile (script : Path) (rules : TagRules) :
    (verifyFile script rules : Task (StateM Session) RoundTrip).ReadOnly := by
  unfold verifyFile
  apply (readOnly_readInput script .scriptInput).bind
  intro data
  apply ReadOnly.bind fun _ => (ensures_dump rules data).imp fun _ _ => And.right
  intro dumped
  apply ReadOnly.bind fun _ => (ensures_inject data _).imp fun _ _ => And.right
  intro injection
  apply readOnly_pure

end ReadOnly

/-! ## Calls that write -/

section Writing

variable {storage : Storage} {tree after : FileTree}

/-- A commit that succeeds has written what was staged, as if there had been no temporary file. -/
theorem Committed.written {temporary : Location} {path : Path} {bytes : Bytes} {purpose : Purpose}
    (committed : Committed tree temporary path purpose (.ok ()) after)
    (staged : tree.find? temporary = some (.file bytes)) :
    (tree.erase temporary).Written path bytes after := by
  obtain ⟨location, entry, resolved, slash, noDirectory, found, rfl⟩ := committed
  obtain rfl : entry = .file bytes := by simpa [staged] using found.symm
  have same : tree.SameDirectories (tree.erase temporary) := .erase (by simp [staged])
  refine ⟨location, same.resolve resolved, slash, ?_, rfl⟩
  rwa [ne_eq, same.directory]

/-- A file is written whole, or the tree is as it was. -/
theorem ensures_writeAtomically (path : Path) (bytes : Bytes) (purpose : Purpose) :
    (writeAtomically path bytes purpose : Task (StateM Session) Unit).Ensures storage
      fun result after =>
        match result with
        | .ok () => storage.tree.Written path bytes after.tree
        | .error _ => after.tree = storage.tree := by
  unfold writeAtomically
  refine (ensures_stage bytes).bind ?_ ?_
  · rintro temporary _ ⟨-, vacant, rfl⟩
    have gone : (storage.tree.put temporary (.file bytes)).erase temporary = storage.tree :=
      (FileTree.erase_put _ temporary _).trans (FileTree.erase_of_find?_eq_none vacant)
    apply (ensures_commit temporary).imp
    rintro (failure | ⟨⟩) after committed
    · exact committed.1.trans gone
    · have written := committed.written (FileTree.find?_put_self vacant)
      rwa [gone] at written
  · rintro failure _ ⟨rfl, -⟩
    rfl

/-- An injection writes the new script, made of what its inputs held before, or changes nothing. -/
theorem ensures_injectFile (script text output : Path) :
    (injectFile script text output : Task (StateM Session) Injection).Ensures storage
      fun result after =>
        (FileCall.inject script text output).Effect storage.tree result after.tree := by
  unfold injectFile
  refine ensures_readInput.bind ?_ ?_
  · rintro data after ⟨readScript, rfl⟩
    refine ensures_readInput.bind ?_ ?_
    · rintro contents after ⟨readText, rfl⟩
      apply Ensures.note_bind
      refine (ensures_inject data (Line.split contents)).bind ?_ ?_
      · rintro injection after ⟨injected, rfl⟩
        refine (ensures_writeAtomically output injection.script .scriptOutput).bind ?_ ?_
        · intro answer after written
          exact ensures_pure ⟨data, contents, eq_ok_of_mapError readScript.symm,
            eq_ok_of_mapError readText.symm, eq_ok_of_mapError injected.symm, written.outputs⟩
        · intro failure after same
          exact same
      · rintro failure after ⟨-, rfl⟩
        rfl
    · rintro failure after ⟨-, rfl⟩
      rfl
  · rintro failure after ⟨-, rfl⟩
    rfl

/-- The debug report waits in its temporary file while the text stream is moved into place. -/
theorem outputs_of_committed {staged middle : FileTree} {first second : Location} {text : Path}
    {contents debug : Bytes} (staging : tree.Staging staged first second) (different : first ≠ second)
    (stagedText : staged.find? first = some (.file contents))
    (stagedReport : staged.find? second = some (.file debug))
    (elsewhere : tree.resolve text ≠ .ok (.place second))
    (committedText : Committed staged first text .textOutput (.ok ()) middle)
    (committedReport : Committed middle second text.debugReport .debugOutput (.ok ()) after) :
    tree.Outputs [(text, contents), (text.debugReport, debug)] after := by
  have waiting : (staged.erase first).find? second = some (.file debug) := by
    rw [FileTree.find?_erase (FileTree.outside_of_not_directory (by simp [stagedText])),
      if_neg different.symm, stagedReport]
  have writtenText := committedText.written stagedText
  -- The text stream still leads where it led before anything was staged, not to the waiting report.
  have directories : tree.SameDirectories (staged.erase first) :=
    staging.directories.trans (.erase (by simp [stagedText]))
  have stillElsewhere : (staged.erase first).resolve text ≠ .ok (.place second) :=
    fun leads => elsewhere (directories.symm.resolve leads)
  have stillWaiting : middle.find? second = some (.file debug) := by
    rw [writtenText.find?_of_elsewhere stillElsewhere, waiting]
  have writtenReport := committedReport.written stillWaiting
  -- With the waiting report left out, the first commit has written to the tree of the beginning.
  have withoutReport := writtenText.erase stillElsewhere waiting
  rw [staging.discarded] at withoutReport
  exact withoutReport.outputs_debugReport writtenReport

/-- A dump that succeeds has written its text stream and its debug report, and nothing else. -/
theorem yields_dumpFile {script text : Path} {rules : TagRules}
    (clear : (FileCall.dump script text rules).Clear storage) :
    (dumpFile script text rules : Task (StateM Session) DumpReport).Yields storage
      fun report after =>
        (FileCall.dump script text rules).Effect storage.tree (.ok report) after.tree := by
  unfold dumpFile
  apply ensures_readInput.yields.bind
  rintro data _ ⟨readScript, rfl⟩
  apply (ensures_dump rules data).yields.bind
  rintro dumped _ ⟨ofScript, rfl⟩
  apply (ensures_stage dumped.text).yields.bind
  rintro first _ ⟨-, vacant, rfl⟩
  apply (ensures_stage dumped.debug).yields.orElseDo.bind
  rintro second _ ⟨goes, vacantNext, rfl⟩
  -- The report was staged among the same directories as there were at the beginning.
  have elsewhere := clear second
    ((FileTree.SameDirectories.put (by simp [vacant]) dumped.text).symm.temporaryPlace? goes)
  apply (ensures_commit first).yields.orElseDo.bind
  intro _ middle committedText
  apply (ensures_commit second).yields.orElseDo.bind
  intro _ after committedReport
  apply yields_pure
  refine ⟨data, dumped, eq_ok_of_mapError readScript.symm, eq_ok_of_mapError ofScript.symm, rfl, ?_⟩
  exact outputs_of_committed (FileTree.staging_of_vacant dumped.debug vacant vacantNext)
    (FileTree.ne_of_vacant vacant vacantNext) (FileTree.find?_put_put dumped.debug vacant vacantNext)
    (FileTree.find?_put_self vacantNext) elsewhere committedText committedReport

/-- What a failed dump can lose stands where its text path leads. -/
theorem DumpFailed.confined {text : Path} {failure : Failure}
    (failed : DumpFailed tree text failure after) : tree.Confined [text, text.debugReport] after := by
  rcases failed with rfl | ⟨place, bytes, fault, resolved, found, -, rfl⟩
  · exact .refl after _
  · have noDirectory : tree.find? place ≠ some .directory := by simp [found]
    refine ⟨?_, .erase noDirectory⟩
    intro location elsewhere
    rw [FileTree.find?_erase (FileTree.outside_of_not_directory noDirectory), if_neg]
    rintro rfl
    exact elsewhere text List.mem_cons_self resolved

end Writing

end Task

/-! ## Sequences of calls -/

namespace FileCall

/-- Every call that is clear does what it may do, and nothing else. -/
theorem ensures_task {storage : Storage} {call : FileCall} (clear : call.Clear storage) :
    call.task.Ensures storage fun result after =>
      call.Effect storage.tree result after.tree := by
  cases call with
  | dump script text rules =>
    exact Task.Yields.ensures (Task.yields_dumpFile clear)
      (Task.ensures_dumpFile storage script text rules)
  | inject script text output => exact Task.ensures_injectFile script text output
  | inspect script =>
    exact (Task.readOnly_inspectFile script storage).imp fun _ _ => congrArg Storage.tree
  | verify script rules =>
    exact (Task.readOnly_verifyFile script rules storage).imp fun _ _ => congrArg Storage.tree
  | load profile =>
    exact (Task.readOnly_loadProfile profile storage).imp fun _ _ => congrArg Storage.tree
  | write path bytes purpose =>
    apply (Task.ensures_writeAtomically path bytes purpose).imp
    rintro (failure | ⟨⟩) after ended
    · exact ended
    · exact ended.outputs

/-- What a clear call does in a session. -/
theorem effect_run {session : Session} {call : FileCall} (clear : call.Clear session.toStorage) :
    call.Effect session.tree (call.task.run session).1 (call.task.run session).2.tree :=
  (ensures_task clear).holds session.log

end FileCall

/-- What a call may do, it does where its own paths lead. -/
theorem FileCall.Effect.confined {tree after : FileTree} {call : FileCall}
    {result : Except Failure call.Answer} (effect : call.Effect tree result after) :
    tree.Confined call.targets after := by
  cases call with
  | dump script text rules =>
    cases result with
    | error failure => exact Task.DumpFailed.confined effect
    | ok report =>
      obtain ⟨data, dumped, -, -, -, outputs⟩ := effect
      exact outputs.confined
  | inject script text output =>
    cases result with
    | error failure => exact effect ▸ .refl tree _
    | ok injection =>
      obtain ⟨data, contents, -, -, -, outputs⟩ := effect
      exact outputs.confined
  | inspect script => exact effect ▸ .refl tree _
  | verify script rules => exact effect ▸ .refl tree _
  | load profile => exact effect ▸ .refl tree _
  | write path bytes purpose =>
    cases result with
    | error failure => exact effect ▸ .refl tree _
    | ok answer => exact FileTree.Outputs.confined effect

/-- Every call of a clear sequence is clear where its turn comes. -/
theorem AllClear.clear {calls earlier later : List FileCall} {call : FileCall} {session : Session}
    (clear : AllClear calls session) (split : calls = earlier ++ call :: later) :
    call.Clear (performAll earlier session).toStorage := by
  subst split
  induction earlier generalizing session with
  | nil => exact clear.1
  | cons first earlier ih => exact ih clear.2

/-- A sequence of clear calls changes only places where a path of one of the calls leads. -/
theorem confined_performAll {calls : List FileCall} {session : Session}
    (clear : AllClear calls session) :
    session.tree.Confined (calls.flatMap FileCall.targets) (performAll calls session).tree := by
  induction calls generalizing session with
  | nil => exact .refl session.tree _
  | cons call calls ih =>
    exact (FileCall.effect_run clear.1).confined.trans (ih clear.2)

/-- Every call of a sequence does to the tree that the earlier ones have left what it may do, and
nothing else: a call that only reads changes nothing, and so does an injection or a write that fails;
one that succeeds changes the places of its outputs, and a failed dump can at most lose the file where
its text stream was to go. No call leaves a temporary file. After all of them, the tree differs from
the first one at most where an output of one of the calls leads. This holds whatever names the
temporary files are given, as long as no dump writes its text stream over its waiting debug report. -/
theorem calls_change_outputs_alone (session : Session) (calls : List FileCall)
    (clear : AllClear calls session) :
    (∀ earlier call later, calls = earlier ++ call :: later →
      let here := performAll earlier session
      call.Effect here.tree (call.task.run here).1 (call.task.run here).2.tree) ∧
    session.tree.Confined (calls.flatMap FileCall.targets) (performAll calls session).tree := by
  constructor
  · intro earlier call later split
    exact FileCall.effect_run (clear.clear split)
  · exact confined_performAll clear

/-- A dump over its own script, and then a write below a file: the first has read the script before it
writes, and the second changes nothing. -/
theorem calls_change_outputs_alone_over_script :
    let tree : FileTree :=
      { workingDirectory := ["work"]
        entries := [(["work", "s.bin"], .file [0x68, 0x69, 0x1A]), (["work", "old"], .file [0x2A])] }
    let dumping := FileCall.dump ⟨"s.bin"⟩ ⟨"s.bin"⟩ .standard
    let writing := FileCall.write ⟨"old/new"⟩ [0x2B] .textOutput
    let middle := performAll [dumping] (.start tree)
    AllClear [dumping, writing] (.start tree) ∧
      (∃ dumped, dump .standard [0x68, 0x69, 0x1A] = .ok dumped ∧
        tree.Outputs [(⟨"s.bin"⟩, dumped.text), (⟨"s.bin.debug"⟩, dumped.debug)] middle.tree) ∧
      (writing.task.run middle).2.tree = middle.tree ∧
      (performAll [dumping, writing] (.start tree)).tree.find? ["work", "old"] =
        some (.file [0x2A]) := by
  intro tree dumping writing middle
  have clear : AllClear [dumping, writing] (.start tree) := by decide +kernel
  obtain ⟨effects, confined⟩ := calls_change_outputs_alone (.start tree) [dumping, writing] clear
  refine ⟨clear, ?_, ?_, ?_⟩
  · have effect : dumping.Effect tree (dumping.task.run (.start tree)).1 middle.tree :=
      effects [] dumping [writing] rfl
    have succeeds : (dumping.task.run (.start tree)).1.isOk = true := by decide +kernel
    have script : tree.read ⟨"s.bin"⟩ = .ok [0x68, 0x69, 0x1A] := by decide +kernel
    generalize (dumping.task.run (.start tree)).1 = result at effect succeeds
    cases result with
    | error failure => simp [Except.isOk, Except.toBool] at succeeds
    | ok report =>
      obtain ⟨data, dumped, readScript, ofScript, -, outputs⟩ := effect
      obtain rfl : [0x68, 0x69, 0x1A] = data := by simpa [script] using readScript
      exact ⟨dumped, ofScript, outputs⟩
  · have effect := effects [dumping] writing [] rfl
    have fails : (writing.task.run middle).1.isOk = false := by decide +kernel
    dsimp only at effect
    generalize (writing.task.run middle).2.tree = after at effect ⊢
    generalize (writing.task.run middle).1 = result at effect fails
    cases result with
    | error failure => exact effect
    | ok answer => simp [Except.isOk, Except.toBool] at fails
  · exact confined.elsewhere ["work", "old"] (by decide +kernel)

/-- What is asked of a sequence cannot be left out: here the debug report waits where the text stream
is to go, and then the text stream is moved on in its place. -/
example :
    let tree : FileTree :=
      { workingDirectory := ["work"], entries := [(["work", "s.bin"], .file [0x68, 0x69, 0x1A])] }
    let session : Session :=
      { tree, names := fun index => if index = 1 then "t.txt" else "first", log := [] }
    let dumping := FileCall.dump ⟨"s.bin"⟩ ⟨"t.txt"⟩ .standard
    ¬ AllClear [dumping] session ∧ (dumping.task.run session).1.isOk = true ∧
      (performAll [dumping] session).tree.read ⟨"t.txt"⟩ = .error .notFound := by
  decide +kernel

end NovelScript
