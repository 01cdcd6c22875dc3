import MetaCache.Shadow.Basic
/-!
# Notes

What the cache reports of its work, as data: each note has a level and one line of text.

* `Note`, `Note.level`, `Note.text`.
-/

namespace MetaCache

/-- The level of a note. -/
inductive Level where
  | trace
  | debug
  | info
deriving DecidableEq, Repr

/-- The name of a level. -/
def Level.name : Level → String
  | trace => "TRACE"
  | debug => "DEBUG"
  | info => "INFO"

/-- One thing that the cache reports. Cells are given by their text. -/
inductive Note where
  /-- A name got a new bucket in the key table. -/
  | newKey (name : String) (hash : UInt32)
  /-- A name joined the live names `others`, which have the same hash. -/
  | collision (name : String) (hash : UInt32) (others : List String)
  /-- The key table was swept. -/
  | swept (kept tracked : Nat)
  | compiledDescriptor (slot : Key) (default : DefaultKind) (flags : Flags)
  | destroyedDescriptor (slot : Key)
  | compiledShadow (className : String) (attributes generation : Nat) (layout : Layout)
  | destroyedShadow (className : String) (descriptors : Nat)
  | cacheHit (target : String) (generation : Nat)
  | discardedStale (target : String) (generation : Nat)
  | attached (target : String) (generation : Nat)
  | invalidated (target : String)
deriving Repr

namespace Note

/-- The level of a note. -/
def level : Note → Level
  | newKey .. | swept .. | destroyedDescriptor .. | destroyedShadow .. | cacheHit .. => .trace
  | compiledDescriptor .. | compiledShadow .. | discardedStale .. | attached ..
  | invalidated .. => .debug
  | collision .. => .info

/-- The text of a note. -/
def text : Note → String
  | newKey name hash =>
    "New shared key " ++ Text.quote name ++ " registered under hash 0x" ++ Text.hex8 hash
  | collision name hash others =>
    "Detected a key hash collision on hash 0x" ++ Text.hex8 hash ++ ": " ++ Text.quote name ++
      " collides with [" ++ ", ".intercalate (others.map Text.quote) ++ "]"
  | swept kept tracked =>
    "Swept shared keys: " ++ toString kept ++ " of " ++ toString tracked ++ " entries kept"
  | compiledDescriptor slot default flags =>
    "Compiled descriptor for slot " ++ slot.shown ++ " (default: " ++ default.name ++
      ", flags: " ++ flags.shown ++ ")"
  | destroyedDescriptor slot => "Destroying descriptor for slot " ++ slot.shown
  | compiledShadow className attributes generation layout =>
    "Compiled shadow of class " ++ className ++ " (" ++ toString attributes ++
      " attributes, generation " ++ toString generation ++ ", layout " ++ layout.name ++ ")"
  | destroyedShadow className descriptors =>
    "Destroying shadow of class " ++ className ++ " (" ++ toString descriptors ++ " descriptors)"
  | cacheHit target generation =>
    "Cache hit on " ++ target ++ " (generation " ++ toString generation ++ ")"
  | discardedStale target generation =>
    "Discarding stale attachment on " ++ target ++ " (generation " ++ toString generation ++ ")"
  | attached target generation =>
    "Attached compiled structure to " ++ target ++ " at generation " ++ toString generation
  | invalidated target => "Invalidated attachment on " ++ target

/-- A note as one line: its level and its text. -/
def line (n : Note) : String :=
  n.level.name ++ " " ++ n.text

end Note

end MetaCache
