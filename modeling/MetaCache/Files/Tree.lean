import MetaCache.Files.Path
/-!
# A tree of files

Directories and files as a value. Paths are followed name by name, so that a path through something
that is no directory fails, and one through `..` leads back. Names and paths that are too long lead
nowhere.

* `FileTree`, `FileError`.
* `FileTree.follow`: where names lead.
* `FileTree.read`, `FileTree.write`, `FileTree.createAll`: the operations on files and directories.
-/

namespace MetaCache

/-- Why an operation on files fails. -/
inductive FileError where
  | notFound
  | notDirectory
  | isDirectory
  | alreadyThere
  /-- A name of the path, or the path as a whole. -/
  | tooLong
  /-- A name of the path holds the character number zero. -/
  | zeroInName
  /-- The content of a file is no text. -/
  | notText
deriving DecidableEq, Repr

/-- The text of a failure. -/
def FileError.message : FileError → String
  | notFound => "No such file or directory (os error 2)"
  | notDirectory => "Not a directory (os error 20)"
  | isDirectory => "Is a directory (os error 21)"
  | alreadyThere => "File exists (os error 17)"
  | tooLong => "File name too long (os error 36)"
  | zeroInName => "file name contained an unexpected NUL byte"
  | notText => "stream did not contain valid UTF-8"

/-- A file, or a directory with what it holds by name. -/
inductive FileTree where
  | file (content : ByteArray)
  | directory (entries : List (String × FileTree))

/-- Where a path leads. -/
inductive Place where
  | found (names : List String) (node : FileTree)
  /-- Only the last name is missing. -/
  | absent (names : List String)

namespace FileTree

/-- The tree of one empty directory below the root. -/
def ofDirectory (name : String) : FileTree := .directory [(name, .directory [])]

/-- The tree with `node` under the given names, in place of what was there. Nothing can be put below
a file. -/
def put (node : FileTree) : FileTree → List String → FileTree
  | _, [] => node
  | .file content, _ :: _ => .file content
  | .directory entries, n :: rest =>
    let below := (entries.lookup n).getD (.directory [])
    .directory ((n, put node below rest) :: entries.filter fun e => e.1 != n)

/-- How many bytes a name can have. -/
def nameLimit : Nat := 255

/-- How many bytes a path can have. -/
def pathLimit : Nat := 4095

/-- Whether names can stand on a path at all, wherever it leads. -/
def checkNames (names : List String) : Except FileError Unit :=
  if names.any fun n => n.toList.contains '\x00' then .error .zeroInName
  else if pathLimit < ("/".intercalate names).utf8ByteSize then .error .tooLong
  else .ok ()

/-- Follows names from the place `here`. Of the names that led there, the last one comes first, each
with the directory where it was followed. -/
def follow : List (String × FileTree) → FileTree → List String → Except FileError Place
  | trail, here, [] => .ok (.found (trail.reverse.map Prod.fst) here)
  | _, .file _, _ :: _ => .error .notDirectory
  | trail, .directory entries, n :: rest =>
    if Path.isIdle n then follow trail (.directory entries) rest
    else if n = ".." then
      match trail with
      | [] => follow [] (.directory entries) rest
      | (_, above) :: trail => follow trail above rest
    else if nameLimit < n.utf8ByteSize then .error .tooLong
    else
      match entries.lookup n with
      | some next => follow ((n, .directory entries) :: trail) next rest
      | none =>
        if rest.isEmpty then .ok (.absent (trail.reverse.map Prod.fst ++ [n]))
        else .error .notFound

/-- Where names lead from the root. -/
def locate (t : FileTree) (names : List String) : Except FileError Place := do
  checkNames names
  follow [] t names

/-- Whether there is anything under a path. -/
def exists? (t : FileTree) (path : String) : Bool :=
  match t.locate (Path.names path) with
  | .ok (.found ..) => true
  | _ => false

/-- Whether a path leads to a file. -/
def isFile (t : FileTree) (path : String) : Bool :=
  match t.locate (Path.names path) with
  | .ok (.found _ (.file _)) => true
  | _ => false

/-- Whether names lead to a directory. -/
def isDirectory (t : FileTree) (names : List String) : Bool :=
  match t.locate names with
  | .ok (.found _ (.directory _)) => true
  | _ => false

/-- The text of the file that a path leads to. -/
def read (t : FileTree) (path : String) : Except FileError String := do
  match ← t.locate (Path.names path) with
  | .absent .. => throw .notFound
  | .found _ (.directory _) => throw .isDirectory
  | .found _ (.file content) =>
    match String.fromUTF8? content with
    | some text => return text
    | none => throw .notText

/-- The tree with `content` in the file that a path leads to, which is made if it is missing. A path
that ends in a slash stands for a directory, whatever is there, so only the directory that it lies
in is looked for. -/
def write (t : FileTree) (path : String) (content : ByteArray) : Except FileError FileTree := do
  let names := Path.names path
  let entry := Path.dropSlashes names
  if entry = names then
    match ← t.locate names with
    | .found _ (.directory _) => throw .isDirectory
    | .absent there | .found there (.file _) => return put (.file content) t there
  else
    checkNames names
    match ← t.locate entry.dropLast with
    | .found _ (.directory _) => throw .isDirectory
    | .found _ (.file _) => throw .notDirectory
    | .absent _ => throw .notFound

/-- The tree with one new directory. Slashes at the end of its path do not count. -/
def create (t : FileTree) (names : List String) : Except FileError FileTree := do
  checkNames names
  match ← t.locate (Path.dropSlashes names) with
  | .found .. => throw .alreadyThere
  | .absent there => return put (.directory []) t there

theorem length_dropIdle_le (ns : List String) : (Path.dropIdle ns).length ≤ ns.length := by
  simpa [Path.dropIdle] using (List.dropWhile_sublist (l := ns.reverse) Path.isIdle).length_le

theorem length_parentNames_lt {ns : List String} (h : ns ≠ []) :
    (Path.parentNames ns).length < ns.length := by
  have h₁ := length_dropIdle_le ns
  have h₂ := length_dropIdle_le (Path.dropIdle ns).dropLast
  have hp := List.length_pos_iff.2 h
  simp only [List.length_dropLast] at h₂
  simp only [Path.parentNames]
  omega

/-- The tree with a directory under the given names, and with all directories on the way to it that
were missing. Nothing is done where a directory is there already. What was made on the way stays
even if the last step fails. -/
def createAll (t : FileTree) (names : List String) : FileTree × Except FileError Unit :=
  let settle (t : FileTree) (e : FileError) : FileTree × Except FileError Unit :=
    (t, if t.isDirectory names then .ok () else .error e)
  match t.create names with
  | .ok t => (t, .ok ())
  | .error .notFound =>
    if h : names = [] then settle t .notFound
    else
      have := length_parentNames_lt h
      match t.createAll (Path.parentNames names) with
      | (t, .error e) => (t, .error e)
      | (t, .ok ()) =>
        match t.create names with
        | .ok t => (t, .ok ())
        | .error e => settle t e
  | .error e => settle t e
termination_by names.length

end FileTree

end MetaCache
