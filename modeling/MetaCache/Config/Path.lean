import MetaCache.Files.Path
/-!
# The place of the settings

Where the settings are looked for when nobody says where: in the file that the environment names, or
else in a fixed place below the user's directory for settings.

* `Environment`: the variables of the environment that matter.
* `Environment.configPath`: the place of the settings.
-/

namespace MetaCache

/-- The variables of the environment that the place of the settings depends on. A variable that is
set to nothing is set all the same. -/
structure Environment where
  /-- The file of the settings itself. -/
  configPath : Option String := none
  /-- The user's directory for settings. -/
  configHome : Option String := none
  /-- The user's own directory. -/
  home : Option String := none
deriving DecidableEq, Repr, Inhabited

namespace Environment

/-- The directory, below that for settings, in which the settings lie. -/
def directoryName : String := "mopcache"

/-- The name of the file of the settings. -/
def fileName : String := "cache.toml"

/-- The user's directory for settings. Without any variable it is the running directory. -/
def settingsDirectory (env : Environment) : String :=
  match env.configHome, env.home with
  | some dir, _ => Path.push "" dir
  | none, some home => Path.push (Path.push "" home) ".config"
  | none, none => ""

/-- The path of the settings. -/
def defaultPath (env : Environment) : String :=
  match env.configPath with
  | some path => path
  | none => Path.push (Path.push env.settingsDirectory directoryName) fileName

end Environment

end MetaCache
