import Panackelty.Packages.TarHeader

/-!
# Stages

`vm/filesystem_stage.c`: a private directory in which a package is put together.  A stage is given
by what is in it, each directory and each file under the components of its path; a handle that is
not live, a full disk, the file system's own limits such as `NAME_MAX` and other processes are left
out.

* `stageParent`: where an operation takes place; every directory on the way has to be there.
* `stageDirectory`, `stageWrite`: the operations.
-/

namespace Panackelty.Packages

/-- An entry of a stage. -/
inductive Node where
  | directory
  | file (data : Bytes)
  deriving DecidableEq

/-- What is in a stage, the latest first. -/
abbrev Stage := List (List Bytes × Node)

namespace Stage

/-- The entry at a path. -/
def get (stage : Stage) (components : List Bytes) : Option Node := stage.lookup components

/-- The stage itself is a directory too. -/
def isDirectory (stage : Stage) (components : List Bytes) : Bool :=
  components.isEmpty || stage.get components == some .directory

/-- What is at a path becomes this. -/
def put (stage : Stage) (components : List Bytes) (node : Node) : Stage :=
  (components, node) :: stage.filter fun entry => entry.1 != components

end Stage

/-- The loop of `stage_directory`, which opens one component after the other. -/
def stageWalk (stage : Stage) : List Bytes → List Bytes → Option (List Bytes)
  | [], current => some current
  | part :: rest, current =>
    if part = [] ∨ part = Str.asciiBytes "." then stageWalk stage rest current
    else if part = Str.asciiBytes ".." then none
    else if stage.isDirectory (current ++ [part]) then stageWalk stage rest (current ++ [part])
    else none

/-- `stage_path` and `stage_parent`: the directory of a path and its last component. -/
def stageParent (stage : Stage) (path : Bytes) : Except HostCode (List Bytes × Bytes) :=
  if path = [] ∨ path.length > 4096 ∨ 0 ∈ path then .error .invalidPath
  else if path.head? = some 47 ∨ 92 ∈ path then .error .invalidParent
  else
    let leaf := (segments path).getLastD []
    if leaf = [] ∨ leaf = Str.asciiBytes "." ∨ leaf = Str.asciiBytes ".." then .error .invalidParent
    else
      match stageWalk stage (segments path).dropLast [] with
      | none => .error .invalidParent
      | some parent => .ok (parent, leaf)

/-- `fs_stage_directory`. -/
def stageDirectory (stage : Stage) (path : Bytes) : Except HostCode Stage :=
  match stageParent stage path with
  | .error code => .error code
  | .ok (parent, leaf) =>
    match stage.get (parent ++ [leaf]) with
    | some _ => .error .filesystemError
    | none => .ok (stage.put (parent ++ [leaf]) .directory)

/-- `fs_stage_write`: the first write creates the file, and every other one continues it. -/
def stageWrite (stage : Stage) (path data : Bytes) (offset : ℕ) : Except HostCode Stage :=
  match stageParent stage path with
  | .error code => .error code
  | .ok (parent, leaf) =>
    if data.length > 65536 ∨ offset > 268435456 then .error .filesystemError
    else
      match stage.get (parent ++ [leaf]), offset with
      | none, 0 => .ok (stage.put (parent ++ [leaf]) (.file data))
      | some (.file written), offset + 1 =>
        if written.length = offset + 1 then
          .ok (stage.put (parent ++ [leaf]) (.file (written ++ data)))
        else .error .filesystemError
      | _, _ => .error .filesystemError

end Panackelty.Packages
