/-!
# `TokenGate.Launch.Files`: reading settings files from a directory

A node reads its settings and its seed from text files named by relative paths. A
`FileTree` is such a directory held in memory: the files by path, and every proper
prefix of a file's path is a directory.

`FileTree.read` follows a path one component at a time, as an operating system does:
empty and `.` components are skipped, `..` steps back to the parent, and every
component but the last must be a directory. Its faults carry the system's texts:

* a component that does not exist: `No such file or directory (os error 2)`;
* a file where a directory is needed (also a file named with a trailing `/` or `/.`):
  `Not a directory (os error 20)`;
* a directory where a file is read: `Is a directory (os error 21)`.

The empty path names nothing. A path that climbs out of the directory with `..`, or
starts at the system's root, reaches a directory outside the tree: it exists, but
nothing is known to be in it, so a name below it is missing.
-/

set_option autoImplicit false

namespace TokenGate

/-- Why a file could not be read. -/
inductive FileError where
  | notFound
  | notDirectory
  | isDirectory
  /-- Any other fault, with the system's text. -/
  | other (text : String)
  deriving DecidableEq

/-- The text of a file fault. -/
def FileError.message : FileError → String
  | .notFound => "No such file or directory (os error 2)"
  | .notDirectory => "Not a directory (os error 20)"
  | .isDirectory => "Is a directory (os error 21)"
  | .other t => t

/-- A directory of text files, by relative path. -/
structure FileTree where
  files : List (String × String)

/-- What a path leads to. -/
inductive Entry where
  | file (text : String)
  | directory
  | missing

namespace FileTree

/-- The components of a path: the parts between slashes, without empty or `.` parts. -/
def components (path : String) : List String :=
  (path.splitOn "/").filter fun c => c != "" && c != "."

/-- What stands at a list of components. -/
def entry (t : FileTree) (cs : List String) : Entry :=
  match t.files.find? (fun f => components f.1 == cs) with
  | some f => .file f.2
  | none =>
    if cs.isEmpty || t.files.any (fun f => let fc := components f.1; cs.isPrefixOf fc && fc != cs)
    then .directory else .missing

/-- Where a walk stands: at a place in the tree, given by the components reaching it,
or in a directory outside the tree. -/
inductive Place where
  | inside (cs : List String)
  | outside

/-- Follow the components of a path from a place: the place reached, or the fault. -/
def walk (t : FileTree) : Place → List String → Except FileError Place
  | here, [] => .ok here
  | .outside, c :: rest =>
    if c == ".." then walk t .outside rest else .error .notFound
  | .inside here, c :: rest =>
    match t.entry here with
    | .file _ => .error .notDirectory
    | .missing => .error .notFound
    | .directory =>
      if c == ".." then
        if here.isEmpty then walk t .outside rest else walk t (.inside here.dropLast) rest
      else walk t (.inside (here ++ [c])) rest

/-- Read a text file. -/
def read (t : FileTree) (path : String) : Except FileError String :=
  if path.isEmpty then .error .notFound
  else do
    let start : Place := if path.startsWith "/" then .outside else .inside []
    let place ← t.walk start ((path.splitOn "/").filter (· != "") |>.filter (· != "."))
    let last := (path.splitOn "/").getLast?
    let dirOnly := path.contains '/' && (last == some "" || last == some ".")
    match place with
    | .outside => .error .isDirectory
    | .inside cs =>
      match t.entry cs with
      | .file text => if dirOnly then .error .notDirectory else .ok text
      | .directory => .error .isDirectory
      | .missing => .error .notFound

end FileTree

end TokenGate
