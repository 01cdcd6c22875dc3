import MetaCache.Store.Basic
/-!
# The table of shared names

The table hands out keys so that, as long as someone holds a key of a name, every key of that name
shares its string. It does not keep names alive: an entry is dead once the last key is gone, and
dead entries are swept whenever the table holds twice as many as after the last sweep, and on
request.

* `KeyTable.intern`: the key of a name.
* `KeyTable.sweep`: removal of the dead entries.
* `KeyTable.liveCount`: the number of entries that somebody still holds.
-/

namespace MetaCache

/-- The number of entries below which no sweep is attempted. -/
def sweepFloor : Nat := 64

/-- The entries of the table, by hash; entries whose names have one hash share a bucket. -/
structure KeyTable where
  buckets : List (UInt32 × List SharedName) := []
  /-- The number of entries, dead ones included. -/
  tracked : Nat := 0
  /-- The number of entries at which the next name asked for causes a sweep. -/
  sweepAt : Nat := sweepFloor

namespace KeyTable

instance : Inhabited KeyTable := ⟨{}⟩

/-- The bucket of a hash. -/
def bucket? (t : KeyTable) (h : UInt32) : Option (List SharedName) :=
  t.buckets.lookup h

/-- The buckets with that of `h` replaced by `names`. -/
def replaceBucket (h : UInt32) (names : List SharedName) :
    List (UInt32 × List SharedName) → List (UInt32 × List SharedName)
  | [] => []
  | (g, b) :: rest =>
    if g = h then (g, names) :: rest else (g, b) :: replaceBucket h names rest

/-- The number of entries that somebody still holds. -/
def liveCount (t : KeyTable) (s : Store) : Nat :=
  sumOf (fun b => b.2.countP s.nameAlive) t.buckets

/-- The buckets without their dead entries, and without the buckets that are empty then. -/
def liveBuckets (t : KeyTable) (s : Store) : List (UInt32 × List SharedName) :=
  (t.buckets.map fun b => (b.1, b.2.filter s.nameAlive)).filter fun b => !b.2.isEmpty

/-- Removes the dead entries. The next sweep comes when the table has twice as many entries as were
kept, but not below the floor. -/
def sweep (t : KeyTable) (s : Store) : KeyTable × Store :=
  let buckets := t.liveBuckets s
  let kept := sumOf (fun b => b.2.length) buckets
  ({ buckets, tracked := kept, sweepAt := max (kept * 2) sweepFloor },
    s.note (.swept kept t.tracked))

/-- The table and the store after the sweep that asking for a name causes, if one is due. -/
def sweepIfDue (t : KeyTable) (s : Store) : KeyTable × Store :=
  if t.sweepAt ≤ t.tracked then t.sweep s else (t, s)

/-- The key of `name` in a table whose bucket for the name's hash is `bucket`. Dead entries of the
bucket are removed on the way. -/
def internInBucket (h : UInt32) (name : String) (bucket : List SharedName) (t : KeyTable)
    (s : Store) : Key × KeyTable × Store :=
  let live := bucket.filter s.nameAlive
  let tracked := t.tracked - (bucket.length - live.length)
  match live.find? fun n => n.text == name with
  | some shared =>
    (⟨shared, h⟩, { t with buckets := replaceBucket h live t.buckets, tracked },
      s.retain [.name shared.id])
  | none =>
    let (shared, s) := s.newName name
    let s := if live.isEmpty then s else s.note (.collision name h (live.map SharedName.text))
    (⟨shared, h⟩,
      { t with buckets := replaceBucket h (live ++ [shared]) t.buckets, tracked := tracked + 1 }, s)

/-- The key of `name`, whose hash `hash` gives: sharing the string of a live entry of that name if
there is one, and a new entry otherwise. -/
def intern (hash : String → UInt32) (name : String) (t : KeyTable) (s : Store) :
    Key × KeyTable × Store :=
  let (t, s) := t.sweepIfDue s
  let h := hash name
  match t.bucket? h with
  | some bucket => t.internInBucket h name bucket s
  | none =>
    let s := s.note (.newKey name h)
    let (shared, s) := s.newName name
    (⟨shared, h⟩, { t with buckets := (h, [shared]) :: t.buckets, tracked := t.tracked + 1 }, s)

end KeyTable

end MetaCache
