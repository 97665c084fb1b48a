/-!
Disks: what the program needs of a file system. `FileTree` is a disk as a value: the files of a
directory by their paths within it. The segments of a path stand between slashes; empty segments and
single points count for nothing.
-/

namespace Marksmith.CommandLine

/-! ### Paths -/

namespace Path

/-- The segments of a path, with the one begun so far read from its end. -/
def segmentsFrom (begun : List Char) : List Char → List (List Char)
  | [] => [begun.reverse]
  | c :: s => if c = '/' then begun.reverse :: segmentsFrom [] s else segmentsFrom (c :: begun) s

/-- The texts between slashes. -/
def segments (path : String) : List String :=
  (segmentsFrom [] path.toList).map String.ofList

/-- Whether a path starts at the root of the file system. -/
def isAbsolute (path : String) : Bool := path.toList.head? == some '/'

/-- Whether a path goes up somewhere. -/
def goesUp (path : String) : Bool := (segments path).contains ".."

/-- A path seen from a directory. -/
def join (dir path : String) : String :=
  if isAbsolute path || dir.isEmpty then path
  else if dir.toList.getLast? == some '/' then dir ++ path
  else dir ++ "/" ++ path

/-- A path, read from its end, without slashes and points that count for nothing there. -/
def trimmedEnd : List Char → List Char
  | ['/'] => ['/']
  | '/' :: s => trimmedEnd s
  | ['.', '/'] => ['/']
  | '.' :: '/' :: s => trimmedEnd s
  | s => s

/-- The directory that a path lies in; a path that is empty or the root lies in none. -/
def parent? (path : String) : Option String :=
  match trimmedEnd path.toList.reverse with
  | [] | ['/'] => none
  | s => some (String.ofList (trimmedEnd (s.dropWhile (· != '/'))).reverse)

end Path

/-! ### Disks -/

/-- Why a directory or a file cannot be made. -/
inductive DiskError where
  | missing
  | exists
  | notDirectory
  | isDirectory
  /-- A segment, or the whole path, has more bytes than the system allows. -/
  | nameTooLong
  /-- The path holds the null character, which no path can. -/
  | nullByte
  /-- Anything else, in the words of the system. -/
  | other (message : String)
deriving DecidableEq, Repr

/-- The wording of a disk error. -/
def DiskError.message : DiskError → String
  | missing => "No such file or directory (os error 2)"
  | .exists => "File exists (os error 17)"
  | notDirectory => "Not a directory (os error 20)"
  | isDirectory => "Is a directory (os error 21)"
  | nameTooLong => "File name too long (os error 36)"
  | nullByte => "file name contained an unexpected NUL byte"
  | other message => message

/-- A file system as the program uses it. -/
structure Disk (m : Type → Type) where
  /-- The text of a file, if it can be read. -/
  read : String → m (Option String)
  /-- Makes a directory and those around it. -/
  makeDir : String → m (Except DiskError Unit)
  /-- Writes a file. -/
  write : String → String → m (Except DiskError Unit)

/-- The files of a directory by the segments of their paths, and further directories in it. -/
structure FileTree where
  files : List (List String × String) := []
  dirs : List (List String) := []
deriving Repr

namespace FileTree

/-- What a path leads to. -/
inductive Place where
  | file (path : List String)
  | dir (path : List String)
  /-- Nothing yet, in a directory that exists. -/
  | free (path : List String)
  /-- A directory on the way does not exist. -/
  | missing
  /-- A file stands on the way. -/
  | notDirectory
  /-- A segment on the way is too long for a name. -/
  | nameTooLong
  /-- Outside of the tree. -/
  | outside

/-- The segments of a path that lead somewhere. -/
def route (path : String) : List String := (Path.segments path).filter (· ≠ "")

/-- The bytes that a name may have. -/
def maxNameSize : Nat := 255

/-- The bytes that a path may have. -/
def maxPathSize : Nat := 4095

/-- What is wrong with a path wherever it leads to. -/
def pathFault? (path : String) : Option DiskError :=
  if path.toList.contains '\x00' then some .nullByte
  else if maxPathSize < path.utf8ByteSize then some .nameTooLong
  else none

variable (tree : FileTree)

/-- Whether a directory exists: the tree itself, one that has been made, and those around a file. -/
def hasDir (path : List String) : Bool :=
  path.isEmpty || tree.dirs.any (path.isPrefixOf ·) ||
    tree.files.any fun (file, _) => path.length < file.length && path.isPrefixOf file

/-- The text of a file. -/
def file? (path : List String) : Option String := tree.files.lookup path

/-- Follows the segments of a path from a directory of the tree. A point leads nowhere else, but
asks for a directory. -/
def follow (dir : List String) : List String → Place
  | [] => .dir dir
  | "." :: rest => follow dir rest
  | ".." :: rest => if dir.isEmpty then .outside else follow dir.dropLast rest
  | s :: rest =>
    let next := dir ++ [s]
    if maxNameSize < s.utf8ByteSize then .nameTooLong
    else if tree.hasDir next then follow next rest
    else if (tree.file? next).isSome then if rest.isEmpty then .file next else .notDirectory
    else if rest.isEmpty then .free next
    else .missing

/-- What a path leads to. A slash at its end asks for a directory, as a point does. -/
def place (path : String) : Place :=
  if path.isEmpty then .missing
  else if Path.isAbsolute path then .outside
  else tree.follow [] (route path ++ if path.toList.getLast? == some '/' then ["."] else [])

/-- The text of a file. -/
def read (path : String) : Option String :=
  if (pathFault? path).isSome then none
  else
    match tree.place path with
    | .file file => tree.file? file
    | _ => none

/-- Makes directories from one of the tree on. A point at the end makes nothing: it asks for a
directory that is there already. -/
def makeDirs (dir : List String) : List String → Except DiskError FileTree
  | [] => .ok { tree with dirs := dir :: tree.dirs }
  | "." :: rest =>
    if rest.isEmpty && !tree.hasDir dir then .error .missing else makeDirs dir rest
  | s :: rest =>
    let next := dir ++ [s]
    if maxNameSize < s.utf8ByteSize then .error .nameTooLong
    else if (tree.file? next).isSome then .error (if rest.isEmpty then .exists else .notDirectory)
    else makeDirs next rest

/-- Makes a directory and those around it. What lies outside of the tree is left alone. -/
def makeDir (path : String) : Except DiskError FileTree :=
  match pathFault? path with
  | some e => .error e
  | none =>
    if Path.isAbsolute path || Path.goesUp path then .ok tree else tree.makeDirs [] (route path)

/-- Writes a file. -/
def write (path text : String) : Except DiskError FileTree :=
  match pathFault? path with
  | some e => .error e
  | none =>
    match tree.place path with
    | .file file | .free file =>
      .ok { tree with files := tree.files.filter (·.1 != file) ++ [(file, text)] }
    | .dir _ => .error .isDirectory
    | .missing => .error .missing
    | .notDirectory => .error .notDirectory
    | .nameTooLong => .error .nameTooLong
    | .outside => .ok tree

/-- A change of a tree, kept if it succeeds. -/
def change (f : FileTree → Except DiskError FileTree) :
    StateM FileTree (Except DiskError Unit) := do
  match f (← get) with
  | .ok tree => set tree; return .ok ()
  | .error e => return .error e

/-- The tree that a computation runs over, as a disk. -/
def disk : Disk (StateM FileTree) where
  read path := do return (← get).read path
  makeDir path := change (·.makeDir path)
  write path text := change (·.write path text)

/-- The tree with these files. -/
def ofFiles (files : List (String × String)) : FileTree :=
  { files := files.map fun (path, text) => ((route path).filter (· ≠ "."), text) }

end FileTree

end Marksmith.CommandLine
