import NovelScript.Files.Tree
import NovelScript.Log

/-!
# Hosts

A host is what a task asks for files and tells what to log. The tasks are written for any host. One
host is the machine itself; the other, here, is a file tree with a log, so that what a task does to
files is a function.

A temporary file is known by a handle of the host. It exists from its creation until it is moved
into place or discarded. How it is named is up to the host. A session takes the names as they come,
from a supply that it was started with, and all that is known of a temporary file is that nothing
stood where it was created.
-/

set_option autoImplicit false

namespace NovelScript

/-- The services of a host; `Temporary` is its handle of a temporary file. -/
class Host (m : Type → Type) (Temporary : outParam Type) where
  /-- The contents of a file. -/
  read : Path → m (Except AccessFault Bytes)
  /-- Writes a temporary file into a directory. -/
  createTemporary : Path → Bytes → m (Except AccessFault Temporary)
  /-- Moves a temporary file over its target; when that fails the temporary file remains. -/
  rename : Temporary → Path → m (Except AccessFault Unit)
  /-- Removes a temporary file. -/
  discard : Temporary → m Unit
  /-- Removes a file. -/
  remove : Path → m (Except AccessFault Unit)
  /-- Notes a record in the log. -/
  note : LogRecord → m Unit

/-- A file tree, and the names that temporary files will be given in it. -/
structure Storage where
  /-- The files. -/
  tree : FileTree
  /-- The names for temporary files, the next one first. -/
  names : Nat → String

/-- The storage when the next name has been given away. -/
def Storage.named (storage : Storage) : Storage :=
  { storage with names := fun index => storage.names (index + 1) }

/-- Giving a name away changes no file. -/
@[simp] theorem Storage.tree_named (storage : Storage) : storage.named.tree = storage.tree := rfl

/-- A storage and the log of what was done to it, the first record first. -/
structure Session extends Storage where
  /-- The log. -/
  log : List LogRecord

namespace Session

/-- A session on a file tree before anything is logged, with names that are not in use there. -/
def start (tree : FileTree) : Session :=
  { tree, names := tree.unusedName, log := [] }

/-- Takes over the tree that an access leads to, if it succeeds. -/
def update (session : Session) :
    Except AccessFault FileTree → Except AccessFault Unit × Session
  | .ok tree => (.ok (), { session with tree })
  | .error fault => (.error fault, session)

/-- A file tree as a host. A name that is taken is refused, as by a host that has no attempt left. A
name that was given to a temporary file is not given again, whether the file could be created or
not. -/
instance : Host (StateM Session) Location where
  read path := fun session => (session.tree.read path, session)
  createTemporary directory bytes := fun session =>
    let next : Session := { session with toStorage := session.named }
    match session.tree.createTemporary directory (session.names 0) bytes with
    | .ok (location, tree) => (.ok location, { next with tree })
    | .error fault => (.error fault, next)
  rename source target := fun session => session.update (session.tree.rename source target)
  discard location := fun session => ((), { session with tree := session.tree.erase location })
  remove path := fun session => session.update (session.tree.remove path)
  note record := fun session => ((), { session with log := session.log ++ [record] })

end Session

end NovelScript
