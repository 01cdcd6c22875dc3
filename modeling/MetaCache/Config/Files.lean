import MetaCache.Config.Path
import MetaCache.Config.Toml
import MetaCache.Files.Tree
/-!
# Settings in files

Settings are read from a file, and written to one together with the directories it lies in. Where no
file is named, the default place is tried, and if there is no file the defaults hold.

* `Config.load`, `Config.loadOrDefault`: reading.
* `Config.save`: writing.
* `FileStep`: a sequence of these operations, and of others on files, step by step.
-/

namespace MetaCache

/-- Why settings could not be read or written. -/
inductive ConfigError where
  | file (e : FileError)
  /-- The text in the file named was refused. -/
  | refused (file : String) (r : Config.Refusal)
deriving DecidableEq, Repr

namespace Config

/-- The settings in a file. -/
def load (t : FileTree) (path : String) : Except ConfigError Config := do
  let text ← (t.read path).mapError .file
  (Config.parse text).mapError (.refused path)

/-- The settings in the default place, or the defaults if there is no file. -/
def loadOrDefault (env : Environment) (t : FileTree) : Except ConfigError Config :=
  if t.isFile env.defaultPath then load t env.defaultPath else .ok {}

/-- Writes settings to a file. The directories it lies in are made before. -/
def save (c : Config) (path : String) (t : FileTree) : FileTree × Except ConfigError Unit :=
  match t.createAll (Path.parentNames (Path.names path)) with
  | (t, .error e) => (t, .error (.file e))
  | (t, .ok ()) =>
    match t.write path c.write.toUTF8 with
    | .ok t => (t, .ok ())
    | .error e => (t, .error (.file e))

end Config

/-- An operation on a tree of files; paths start in a directory given once for all steps. -/
inductive FileStep where
  | write (path : String) (content : ByteArray)
  | makeDirectory (path : String)
  | exists (path : String)
  | read (path : String)
  | load (path : String)
  | save (path : String) (config : Config)
  | loadOrDefault (env : Environment)

/-- The result of an operation on files. -/
inductive FileAnswer where
  | flag (b : Bool)
  /-- The text of a file, if there is one. -/
  | text (s : Option String)
  | config (c : Config)
  | done
  | failure (e : ConfigError)
deriving DecidableEq, Repr

namespace FileStep

/-- The answer that reading settings gives. -/
def answerConfig : Except ConfigError Config → FileAnswer
  | .ok c => .config c
  | .error e => .failure e

/-- Runs one operation; `base` is the directory where its path starts. -/
def run (base : String) (t : FileTree) : FileStep → FileTree × FileAnswer
  | write path content =>
    match t.write (Path.push base path) content with
    | .ok t => (t, .flag true)
    | .error _ => (t, .flag false)
  | makeDirectory path =>
    let (t, r) := t.createAll (Path.names (Path.push base path))
    (t, .flag r.isOk)
  | .exists path => (t, .flag (t.exists? (Path.push base path)))
  | read path => (t, .text (t.read (Path.push base path)).toOption)
  | load path => (t, answerConfig (Config.load t (Path.push base path)))
  | save path c =>
    match c.save (Path.push base path) t with
    | (t, .ok ()) => (t, .done)
    | (t, .error e) => (t, .failure e)
  | loadOrDefault env => (t, answerConfig (Config.loadOrDefault env t))

/-- Runs operations one after another, in a tree whose one directory is `base`. -/
def runAll (base : String) (steps : List FileStep) : List FileAnswer :=
  go (FileTree.ofDirectory base) steps
where
  /-- Runs operations from the tree at hand. -/
  go (t : FileTree) : List FileStep → List FileAnswer
    | [] => []
    | s :: rest => (s.run base t).2 :: go (s.run base t).1 rest

end FileStep

end MetaCache
