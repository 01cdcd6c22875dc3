import MetaCache.Text.Quoted
/-!
# Configuration

The settings of a cache: the layout of instance storage, what a request to weaken a slot does, the
class that instance metaobjects must derive from, and whether names go through the key table.

* `Config`: the settings, with their defaults.
* `Layout`, `WeakenPolicy`: the two enumerations among them, with their names.
-/

namespace MetaCache

/-- The physical layouts of instance storage. -/
inductive Layout where
  /-- An instance is a hash whose keys are slot names. -/
  | hash
deriving DecidableEq, Repr, Inhabited

/-- What a request to weaken a slot does. -/
inductive WeakenPolicy where
  /-- The stored reference becomes weak. -/
  | weaken
  /-- The request is accepted and the reference stays strong. -/
  | ignore
  /-- The request fails. -/
  | reject
deriving DecidableEq, Repr, Inhabited

namespace Layout

/-- The name of a layout in text and in configuration files. -/
def name : Layout → String
  | hash => "hash"

/-- The name of a layout inside the text of a structure. -/
def shown : Layout → String
  | hash => "Hash"

/-- All layouts, in order. -/
def all : List Layout := [hash]

/-- The layout of that name. -/
def ofName? (s : String) : Option Layout :=
  all.find? (·.name == s)

end Layout

namespace WeakenPolicy

/-- The name of a policy in text and in configuration files. -/
def name : WeakenPolicy → String
  | weaken => "weaken"
  | ignore => "ignore"
  | reject => "reject"

/-- The name of a policy inside the text of a structure. -/
def shown : WeakenPolicy → String
  | weaken => "Weaken"
  | ignore => "Ignore"
  | reject => "Reject"

/-- All policies, in order. -/
def all : List WeakenPolicy := [weaken, ignore, reject]

/-- The policy of that name. -/
def ofName? (s : String) : Option WeakenPolicy :=
  all.find? (·.name == s)

end WeakenPolicy

/-- The settings of a cache. -/
structure Config where
  /-- The layout that new shadows are compiled for. -/
  layout : Layout := .hash
  /-- What storage does when asked to weaken a slot. -/
  weakenPolicy : WeakenPolicy := .weaken
  /-- The class that instance metaobjects must derive from. -/
  instanceBaseClass : String := "mop::Instance"
  /-- Whether slot and init-arg names are shared through the key table. -/
  shareSlotKeys : Bool := true
deriving DecidableEq, Repr, Inhabited

/-- The text of a structure: its name, and its fields in order. -/
def Text.record (name : String) (fields : List (String × String)) : String :=
  name ++ " \x7b " ++ ", ".intercalate (fields.map fun f => f.1 ++ ": " ++ f.2) ++ " \x7d"

/-- The settings on one line. -/
def Config.shown (c : Config) : String :=
  Text.record "CacheConfig"
    [("layout", c.layout.shown), ("weaken_policy", c.weakenPolicy.shown),
      ("instance_base_class", Text.quote c.instanceBaseClass),
      ("share_slot_keys", toString c.shareSlotKeys)]

end MetaCache
