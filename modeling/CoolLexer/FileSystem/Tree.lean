import CoolLexer.FileSystem.Outlet
import CoolLexer.FileSystem.Path

/-!
# File trees

A file tree maps absolute paths to files and directories. Relative paths start at its working
directory. Looking up a path, every directory on the way must exist. Whatever is done at a place may
be refused there, for want of permission or of space, or because the disk is broken.
-/

namespace CoolLexer

inductive FileNode where
  | file (content : ByteArray)
  | directory
  /-- The file that is always empty, whatever is written to it. -/
  | nullDevice

/-- What is done at a place of a tree. -/
inductive Access where
  /-- Looking up what is there. -/
  | look
  | read
  | write
  /-- Making a directory. -/
  | make
deriving Repr, DecidableEq

/-- Files and directories by the parts of their absolute paths. -/
structure FileTree where
  nodes : List (List Text × FileNode) := [
    (["dev".toList], .directory),
    (["dev".toList, "null".toList], .nullDevice)]
  /-- The directory at which relative paths start. -/
  working : List Text := []
  /-- Why something cannot be done at a place, where it cannot. -/
  refusal : Access → List Text → Option FileError := fun _ _ => none

namespace FileTree

inductive Place where
  | directory (path : List Text)
  | file (path : List Text) (content : ByteArray)
  | nullDevice (path : List Text)
  /-- Nothing, in a directory that exists. -/
  | free (path : List Text)

/-- What there is at an absolute path; the root is a directory. -/
def node? (tree : FileTree) : List Text → Option FileNode
  | [] => some .directory
  | path => tree.nodes.lookup path

/-- Puts a file or a directory at an absolute path. -/
def put (tree : FileTree) (path : List Text) (node : FileNode) : FileTree :=
  { tree with nodes := (path, node) :: tree.nodes.filter fun entry => entry.1 ≠ path }

/-- The result of doing something at a place, unless it is refused. -/
def permit (tree : FileTree) (access : Access) (path : List Text) (result : α) :
    Except FileError α :=
  match tree.refusal access path with
  | some cause => .error cause
  | none => .ok result

/-- Looks up what there is at an absolute path. -/
def look (tree : FileTree) (path : List Text) : Except FileError (Option FileNode) :=
  tree.permit .look path (tree.node? path)

/-- Follows the parts of a path from a directory. A file to `create` cannot have a slash after its
name, which is seen before the name is looked up. -/
def follow (tree : FileTree) (create : Bool) (directory : List Text) :
    List Text → Except FileError Place
  | [] => .ok (.directory directory)
  | part :: rest =>
      if part = [] || part = ['.'] then follow tree create directory rest
      else if part = ['.', '.'] then follow tree create directory.dropLast rest
      else if create && !rest.isEmpty && rest.all List.isEmpty then .error .isADirectory
      else if 255 < Text.byteLength part then .error .nameTooLong
      else
        let path := directory ++ [part]
        match tree.look path with
        | .error cause => .error cause
        | .ok (some .directory) => follow tree create path rest
        | .ok (some (.file content)) =>
            if rest.isEmpty then .ok (.file path content) else .error .notADirectory
        | .ok (some .nullDevice) =>
            if rest.isEmpty then .ok (.nullDevice path) else .error .notADirectory
        | .ok none => if rest.isEmpty then .ok (.free path) else .error .notFound

/-- What a path leads to, whether it is to be used as it is or to `create` a file. -/
def locate (tree : FileTree) (create : Bool) (path : Text) : Except FileError Place :=
  if path.contains '\x00' then .error .nulInPath
  else if path.isEmpty then .error .notFound
  else if 4096 ≤ path.byteLength then .error .nameTooLong
  else follow tree create (if path.head? = some '/' then [] else tree.working) (path.splitOn '/')

def pathExists (tree : FileTree) (path : Text) : Bool :=
  match tree.locate false path with
  | .ok (.directory _) | .ok (.file _ _) | .ok (.nullDevice _) => true
  | _ => false

def isDirectory (tree : FileTree) (path : Text) : Bool :=
  match tree.locate false path with
  | .ok (.directory _) => true
  | _ => false

def read (tree : FileTree) (path : Text) : Except FileError ByteArray :=
  match tree.locate false path with
  | .ok (.file path content) => tree.permit .read path content
  | .ok (.nullDevice path) => tree.permit .read path .empty
  | .ok (.directory path) => tree.permit .read path () >>= fun _ => .error .isADirectory
  | .ok (.free _) => .error .notFound
  | .error e => .error e

def write (tree : FileTree) (path : Text) (content : ByteArray) : Except FileError FileTree :=
  match tree.locate true path with
  | .ok (.file path _) | .ok (.free path) =>
      tree.permit .write path (tree.put path (.file content))
  | .ok (.nullDevice path) => tree.permit .write path tree
  | .ok (.directory _) => .error .isADirectory
  | .error e => .error e

def makeDirectory (tree : FileTree) (path : Text) : Except FileError FileTree :=
  match tree.locate false path with
  | .ok (.free path) => tree.permit .make path (tree.put path .directory)
  | .ok _ => .error .alreadyExists
  | .error e => .error e

/-- Makes one directory, unless there is one already. -/
def ensureDirectory (tree : FileTree) (path : Text) : Except FileError Unit × FileTree :=
  match tree.makeDirectory path with
  | .ok tree => (.ok (), tree)
  | .error e => (if tree.isDirectory path then .ok () else .error e, tree)

/-- Makes the directory whose parts are given backwards. Only where it has no parent is the parent
made first. -/
def ensureAll (tree : FileTree) : List Text → Except FileError Unit × FileTree
  | [] => (.ok (), tree)
  | part :: parents =>
      let path := Path.ofComponents (part :: parents).reverse
      match tree.ensureDirectory path with
      | (.error .notFound, _) =>
          match ensureAll tree parents with
          | (.ok (), tree) => tree.ensureDirectory path
          | failed => failed
      | done => done

/-- Makes a directory, and those that lead to it. Those made stay even if a later one fails. -/
def makeDirectories (tree : FileTree) (path : Text) : Except FileError Unit × FileTree :=
  tree.ensureAll (Path.components path).reverse

end FileTree

/-- A file tree with an input, an output and what has been written to the output for messages. -/
structure Machine where
  files : FileTree := {}
  input : ByteArray := .empty
  /-- Why the input cannot be read, where it cannot. -/
  inputFault : Option FileError := none
  outlet : Outlet := {}
  messages : Text := []

/-- What has been written to the output, as a text. -/
def Machine.output (machine : Machine) : Text :=
  (Text.decode? ⟨machine.outlet.taken.toArray⟩).getD []

instance : Storage (StateM Machine) where
  pathExists path machine := (machine.files.pathExists path, machine)
  readFile path machine := (machine.files.read path, machine)
  writeFile path content machine :=
    match machine.files.write path content.encode with
    | .ok files => (.ok (), { machine with files })
    | .error e => (.error e, machine)
  makeDirectories path machine :=
    let (result, files) := machine.files.makeDirectories path
    (result, { machine with files })
  readInput machine :=
    match machine.inputFault with
    | some cause => (.error cause, machine)
    | none => (.ok machine.input, machine)
  write text machine :=
    let (result, outlet) := machine.outlet.write text.utf8
    (result, { machine with outlet })
  writeMessage text machine := ((), { machine with messages := machine.messages ++ text })

namespace Machine

variable {α β : Type} (machine : Machine)

/-- What an action returns. -/
def result (action : StateM Machine α) : α := (action machine).1

/-- What an action leaves behind. -/
def after (action : StateM Machine α) : Machine := (action machine).2

@[simp] theorem result_pure (a : α) : machine.result (pure a) = a := rfl

@[simp] theorem result_bind (action : StateM Machine α) (next : α → StateM Machine β) :
    machine.result (action >>= next) =
      (machine.after action).result (next (machine.result action)) := rfl

@[simp] theorem after_pure (a : α) : machine.after (pure a) = machine := rfl

@[simp] theorem after_bind (action : StateM Machine α) (next : α → StateM Machine β) :
    machine.after (action >>= next) =
      (machine.after action).after (next (machine.result action)) := rfl

theorem result_pathExists (path : Text) :
    machine.result (Storage.pathExists path) = machine.files.pathExists path := rfl

theorem after_pathExists (path : Text) : machine.after (Storage.pathExists path) = machine := rfl

theorem result_readText (path : Text) :
    machine.result (Storage.readText path) = machine.files.read path >>= FileError.decode := rfl

section
variable {machine}

theorem writeFile_of_ok {path content : Text} {files : FileTree}
    (h : machine.files.write path content.encode = .ok files) :
    machine.result (Storage.writeFile path content) = .ok () ∧
      machine.after (Storage.writeFile path content) = { machine with files } := by
  simp only [Machine.result, Machine.after, Storage.writeFile, h, and_self]

theorem writeFile_of_error {path content : Text} {cause : FileError}
    (h : machine.files.write path content.encode = .error cause) :
    machine.result (Storage.writeFile path content) = .error cause ∧
      machine.after (Storage.writeFile path content) = machine := by
  simp only [Machine.result, Machine.after, Storage.writeFile, h, and_self]

end

end Machine

end CoolLexer
