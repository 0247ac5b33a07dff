import NovelScript.Files.Task
import NovelScript.Proofs.FileTree

/-!
# What tasks do to a file tree

`Task.Ensures` says of a task, started on a storage with any log, how it ends: with what answer or
failure, and with which storage. Tasks that follow each other are taken one at a time
(`Ensures.bind`), and so is a task with a last action for its failure (`Ensures.orElseDo`).
`Task.Yields` says what holds if the task succeeds, and its rules leave the failures out.

The steps of every output are settled here once: a staged file stands under the next name where
nothing stood (`ensures_stage`), a committed one where its path leads, and a failed commit takes the
staged file away (`ensures_commit`).
-/

set_option autoImplicit false

namespace NovelScript

namespace Task

variable {α β : Type} {storage : Storage}

/-- Whether a task ends as asked for when it starts on a storage, whatever is in the log. -/
structure Ensures (task : Task (StateM Session) α) (storage : Storage)
    (post : Except Failure α → Storage → Prop) : Prop where
  /-- What it answers and leaves is as asked for. -/
  holds : ∀ log, post (task.run { toStorage := storage, log }).1
    (task.run { toStorage := storage, log }).2.toStorage

/-! ## Putting tasks together -/

section Rules

variable {task : Task (StateM Session) α} {middle : Except Failure α → Storage → Prop}

/-- A task and the next one run one after the other, unless the first fails. -/
theorem run_bind (task : Task (StateM Session) α) (next : α → Task (StateM Session) β)
    (session : Session) :
    (task >>= next).run session =
      match task.run session with
      | (.ok answer, session) => (next answer).run session
      | (.error failure, session) => (.error failure, session) := by
  have unfolded : (task >>= next).run session =
      ExceptT.bindCont next (task.run session).1 (task.run session).2 := rfl
  rw [unfolded]
  rcases task.run session with ⟨failure | answer, after⟩
  · rfl
  · rfl

/-- The last action of a task is run if the task fails, and the failure remains. -/
theorem run_orElseDo (task : Task (StateM Session) α) (cleanUp : StateM Session Unit)
    (session : Session) :
    (task.orElseDo cleanUp).run session =
      match task.run session with
      | (.ok answer, session) => (.ok answer, session)
      | (.error failure, session) => (.error failure, (cleanUp session).2) := by
  unfold orElseDo
  simp only [tryCatch, tryCatchThe, MonadExceptOf.tryCatch, ExceptT.tryCatch, ExceptT.run,
    ExceptT.mk, bind, StateT.bind]
  rcases task session with ⟨failure | answer, after⟩
  · rfl
  · rfl

/-- What a task ensures may be weakened. -/
theorem Ensures.imp {post : Except Failure α → Storage → Prop} (first : task.Ensures storage middle)
    (implies : ∀ result after, middle result after → post result after) :
    task.Ensures storage post :=
  ⟨fun log => implies _ _ (first.holds log)⟩

/-- A task and the next one: a failure of the first is that of both. -/
theorem Ensures.bind {next : α → Task (StateM Session) β}
    {post : Except Failure β → Storage → Prop} (first : task.Ensures storage middle)
    (ok : ∀ answer after, middle (.ok answer) after → (next answer).Ensures after post)
    (error : ∀ failure after, middle (.error failure) after → post (.error failure) after) :
    (task >>= next).Ensures storage post := by
  constructor
  intro log
  have ended := first.holds log
  rw [run_bind]
  rcases run : task.run { toStorage := storage, log } with ⟨failure | answer, after, afterLog⟩
  · rw [run] at ended
    exact error failure after ended
  · rw [run] at ended
    exact (ok answer after ended).holds afterLog

/-- A task with a last action, which only a failure leads to. -/
theorem Ensures.orElseDo {cleanUp : StateM Session Unit}
    {post : Except Failure α → Storage → Prop} (first : task.Ensures storage middle)
    (ok : ∀ answer after, middle (.ok answer) after → post (.ok answer) after)
    (error : ∀ failure session, middle (.error failure) session.toStorage →
      post (.error failure) (cleanUp session).2.toStorage) :
    (task.orElseDo cleanUp).Ensures storage post := by
  constructor
  intro log
  have ended := first.holds log
  rw [run_orElseDo]
  rcases run : task.run { toStorage := storage, log } with ⟨failure | answer, after⟩
  · rw [run] at ended
    exact error failure after ended
  · rw [run] at ended
    exact ok answer after.toStorage ended

/-- An answer leaves the storage as it is. -/
theorem ensures_pure {post : Except Failure α → Storage → Prop} {answer : α}
    (holds : post (.ok answer) storage) :
    (pure answer : Task (StateM Session) α).Ensures storage post :=
  ⟨fun _ => holds⟩

/-- A failure leaves the storage as it is. -/
theorem ensures_throw {post : Except Failure α → Storage → Prop} {failure : Failure}
    (holds : post (.error failure) storage) :
    (throw failure : Task (StateM Session) α).Ensures storage post :=
  ⟨fun _ => holds⟩

/-- A note leaves the storage as it is. -/
theorem ensures_note {post : Except Failure Unit → Storage → Prop} {record : LogRecord}
    (holds : post (.ok ()) storage) :
    (note record : Task (StateM Session) Unit).Ensures storage post :=
  ⟨fun _ => holds⟩

/-- A note changes the log only, and the next task starts on any log. -/
theorem Ensures.note_bind {record : LogRecord} {next : Unit → Task (StateM Session) α}
    {post : Except Failure α → Storage → Prop} (ensures : (next ()).Ensures storage post) :
    (note record >>= next).Ensures storage post :=
  ⟨fun log => ensures.holds (log ++ [record])⟩

/-- Whether a task, if it succeeds, ends as asked for. -/
def Yields (task : Task (StateM Session) α) (storage : Storage) (post : α → Storage → Prop) :
    Prop :=
  task.Ensures storage fun result after => ∀ answer, result = .ok answer → post answer after

/-- What a task ensures holds in particular if it succeeds. -/
theorem Ensures.yields (ensures : task.Ensures storage middle) :
    task.Yields storage fun answer after => middle (.ok answer) after := by
  constructor
  intro log answer succeeded
  rw [← succeeded]
  exact ensures.holds log

/-- A task and the next one: both succeed if they succeed together. -/
theorem Yields.bind {next : α → Task (StateM Session) β} {reached : α → Storage → Prop}
    {post : β → Storage → Prop} (first : task.Yields storage reached)
    (ok : ∀ answer after, reached answer after → (next answer).Yields after post) :
    (task >>= next).Yields storage post := by
  refine Ensures.bind first ?_ ?_
  · intro answer after ended
    exact ok answer after (ended answer rfl)
  · simp

/-- An action for the case of failure has no part in success. -/
theorem Yields.orElseDo {cleanUp : StateM Session Unit} {post : α → Storage → Prop}
    (first : task.Yields storage post) : (task.orElseDo cleanUp).Yields storage post := by
  refine Ensures.orElseDo first ?_ ?_
  · intro answer after ended
    exact ended
  · simp

/-- Success and failure can be looked at apart. -/
theorem Yields.ensures {post : Except Failure α → Storage → Prop}
    (ok : task.Yields storage fun answer after => post (.ok answer) after)
    (error : task.Ensures storage fun result after =>
      ∀ failure, result = .error failure → post (.error failure) after) :
    task.Ensures storage post := by
  constructor
  intro log
  have succeeded := ok.holds log
  have failed := error.holds log
  rcases run : task.run { toStorage := storage, log } with ⟨failure | answer, after⟩
  · rw [run] at failed
    exact failed failure rfl
  · rw [run] at succeeded
    exact succeeded answer rfl

/-- An answer is a success on the same storage. -/
theorem yields_pure {post : α → Storage → Prop} {answer : α} (holds : post answer storage) :
    (pure answer : Task (StateM Session) α).Yields storage post :=
  ensures_pure (by simpa using holds)

end Rules

/-! ## Steps of a task -/

section Steps

variable {path : Path} {purpose : Purpose}

/-- An access runs its request, and names the path and the purpose if that fails. -/
theorem run_access (request : StateM Session (Except AccessFault α)) (session : Session) :
    (access path purpose request : Task (StateM Session) α).run session =
      ((request session).1.mapError (Failure.access path purpose), (request session).2) := by
  unfold access
  simp only [ExceptT.run, bind, ExceptT.bind, ExceptT.mk, StateT.bind, liftM, monadLift,
    MonadLift.monadLift, ExceptT.lift, Functor.map, StateT.map]
  rcases request session with ⟨fault | answer, after⟩
  · rfl
  · rfl

/-- Reading answers with the contents of the file, or says why there are none. -/
theorem ensures_readInput :
    (readInput path purpose : Task (StateM Session) Bytes).Ensures storage fun result after =>
      result = (storage.tree.read path).mapError (Failure.access path purpose) ∧
        after = storage := by
  constructor
  intro log
  unfold readInput
  rw [run_access]
  exact ⟨rfl, rfl⟩

/-- A success is not changed by naming failures. -/
theorem eq_ok_of_mapError {ε : Type} {result : Except ε α} {rename : ε → Failure} {answer : α}
    (succeeded : result.mapError rename = .ok answer) : result = .ok answer := by
  cases result with
  | error fault => cases succeeded
  | ok answer =>
    cases succeeded
    rfl

/-- Actions that leave the tree alone one by one do so together. -/
theorem ensures_forM {items : List α} {action : α → Task (StateM Session) Unit}
    (quiet : ∀ item, (action item).Ensures storage fun result after =>
      result = .ok () ∧ after = storage) :
    (items.forM action).Ensures storage fun result after => result = .ok () ∧ after = storage := by
  induction items with
  | nil => exact ensures_pure ⟨rfl, rfl⟩
  | cons item items ih =>
    show (action item >>= fun _ => items.forM action).Ensures storage _
    refine (quiet item).bind ?_ ?_
    · rintro answer after ⟨-, rfl⟩
      exact ih
    · rintro failure after ⟨failed, -⟩
      simp at failed

/-- Decoding in a task is decoding, with a note in the log. -/
theorem ensures_decode (data : Bytes) :
    (decode data : Task (StateM Session) (List Command)).Ensures storage fun result after =>
      result = (NovelScript.decode data).mapError (fun fault => .script (.fault fault)) ∧
        after = storage := by
  unfold decode
  split
  case h_1 commands decoded =>
    rw [decoded]
    exact Ensures.note_bind (ensures_pure ⟨rfl, rfl⟩)
  case h_2 fault failed =>
    rw [failed]
    exact ensures_throw ⟨rfl, rfl⟩

/-- Dumping in a task is dumping, with notes in the log. -/
theorem ensures_dump (rules : TagRules) (data : Bytes) :
    (dump rules data : Task (StateM Session) Dump).Ensures storage fun result after =>
      result = (NovelScript.dump rules data).mapError (fun fault => .script (.fault fault)) ∧
        after = storage := by
  unfold dump NovelScript.dump
  refine (ensures_decode data).bind ?_ ?_
  · rintro commands after ⟨decoded, rfl⟩
    rw [eq_ok_of_mapError decoded.symm]
    exact Ensures.note_bind (ensures_pure ⟨rfl, rfl⟩)
  · rintro failure after ⟨failed, rfl⟩
    cases ran : NovelScript.decode data with
    | error fault =>
      rw [ran] at failed
      cases failed
      exact ⟨rfl, rfl⟩
    | ok commands =>
      rw [ran] at failed
      cases failed

/-- Injecting in a task is injecting, with notes in the log. -/
theorem ensures_inject (data : Bytes) (lines : List Bytes) :
    (inject data lines : Task (StateM Session) Injection).Ensures storage fun result after =>
      result = (NovelScript.inject data lines).mapError Failure.script ∧ after = storage := by
  unfold inject NovelScript.inject
  refine (ensures_forM fun site => ensures_note ⟨rfl, rfl⟩).bind ?_ ?_
  · rintro answer after ⟨-, rfl⟩
    dsimp only
    split
    case h_1 injection injected =>
      rw [injected]
      refine (ensures_forM fun warning => ?_).bind ?_ ?_
      · exact ensures_note ⟨rfl, rfl⟩
      · rintro answer after ⟨-, rfl⟩
        exact Ensures.note_bind (ensures_pure ⟨rfl, rfl⟩)
      · rintro failure after ⟨failed, -⟩
        simp at failed
    case h_2 cause failed =>
      rw [failed]
      exact ensures_throw ⟨rfl, rfl⟩
  · rintro failure after ⟨failed, -⟩
    simp at failed

/-- How staging a file ends: under the next name the file stands where nothing stood, or the tree has
not changed. Either way the name is given away. -/
def Staged (storage : Storage) (path : Path) (bytes : Bytes) (purpose : Purpose) :
    Except Failure Location → Storage → Prop
  | .ok location, after =>
    storage.tree.temporaryPlace? path.directory (storage.names 0) = some location ∧
      storage.tree.find? location = none ∧
      after = { storage.named with tree := storage.tree.put location (.file bytes) }
  | .error failure, after =>
    after = storage.named ∧ ∃ fault, failure = .access path purpose fault

/-- Staging a file ends in one of its two ways. -/
theorem ensures_stage (bytes : Bytes) :
    (stage path bytes purpose : Task (StateM Session) Location).Ensures storage
      (Staged storage path bytes purpose) := by
  have created : (access path purpose (Host.createTemporary path.directory bytes) :
      Task (StateM Session) Location).Ensures storage (Staged storage path bytes purpose) := by
    constructor
    intro log
    rw [run_access]
    simp only [Host.createTemporary]
    cases made : storage.tree.createTemporary path.directory (storage.names 0) bytes with
    | error fault => exact ⟨rfl, fault, rfl⟩
    | ok made' =>
      obtain ⟨goes, vacant, after⟩ := FileTree.createTemporary_eq_ok made
      exact ⟨goes, vacant, by rw [← after]⟩
  unfold stage
  refine created.bind ?_ ?_
  · intro location after staged
    exact Ensures.note_bind (ensures_pure staged)
  · intro failure after staged
    exact staged

/-- How a commit ends: what was staged stands where its path leads, or it is gone. -/
def Committed (tree : FileTree) (temporary : Location) (path : Path) (purpose : Purpose) :
    Except Failure Unit → FileTree → Prop
  | .ok (), after => ∃ location entry,
    tree.resolve path = .ok (.place location) ∧ path.endsInSlash = false ∧
      tree.find? location ≠ some .directory ∧ tree.find? temporary = some entry ∧
      after = (tree.erase temporary).put location entry
  | .error failure, after =>
    after = tree.erase temporary ∧ ∃ fault, failure = .access path purpose fault

/-- Committing a file ends in one of its two ways, and the temporary file is gone in both. -/
theorem ensures_commit (temporary : Location) :
    (commit temporary path purpose : Task (StateM Session) Unit).Ensures storage
      fun result after => Committed storage.tree temporary path purpose result after.tree := by
  have renamed : (access path purpose (Host.rename temporary path) :
      Task (StateM Session) Unit).Ensures storage fun result after =>
        match result with
        | .ok () => Committed storage.tree temporary path purpose (.ok ()) after.tree
        | .error failure => after = storage ∧ ∃ fault, failure = .access path purpose fault := by
    constructor
    intro log
    rw [run_access]
    simp only [Host.rename]
    cases moved : storage.tree.rename temporary path with
    | error fault => exact ⟨rfl, fault, rfl⟩
    | ok after => exact FileTree.rename_eq_ok moved
  have tidied : ((access path purpose (Host.rename temporary path)).orElseDo
      (Host.discard temporary) : Task (StateM Session) Unit).Ensures storage
        fun result after => Committed storage.tree temporary path purpose result after.tree := by
    refine renamed.orElseDo ?_ ?_
    · intro answer after committed
      exact committed
    · rintro failure ⟨after, log⟩ ⟨rfl, refused⟩
      exact ⟨rfl, refused⟩
  unfold commit
  refine tidied.bind ?_ ?_
  · intro answer after committed
    exact ensures_note committed
  · intro failure after committed
    exact committed

/-- What stands where a path leads is gone when it was taken back, unless it is a directory. -/
theorem tree_retract {session : Session} {location : Location}
    (resolved : session.tree.resolve path = .ok (.place location))
    (slash : path.endsInSlash = false)
    (noDirectory : session.tree.find? location ≠ some .directory) :
    ((retract path : StateM Session Unit) session).2.tree = session.tree.erase location := by
  unfold retract
  simp only [Host.remove, bind, StateT.bind]
  rcases FileTree.remove_cases resolved slash noDirectory with removed | ⟨⟨fault, failed⟩, same⟩
  · rw [removed]
    rfl
  · rw [failed, same]
    rfl

end Steps

end Task

end NovelScript
