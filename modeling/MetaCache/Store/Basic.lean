import MetaCache.Note
import MetaCache.Store.Owned
import MetaCache.Store.Table
import MetaCache.Text.Address
/-!
# The counted store

The store holds every cell, shared name and payload with the number of its owners. A share is taken
with `retain` and given back with `release`; what loses its last owner is gone at once, and gives
back all that it held itself, in order, before anything else is released.

* `Store`: the tables, and a journal of what happened in them.
* `Store.retain`, `Store.release`: shares taken and given back.
* `Store.newCell`, `Store.newName`, `Store.newPayload`: new entries, with one owner.
-/

namespace MetaCache

/-- An entry with the number of its strong and of its weak owners. -/
structure Counted (α : Type) where
  content : α
  strong : Nat := 1
  weak : Nat := 0

namespace Counted

variable {α : Type}

/-- One strong owner more. -/
def addStrong (e : Counted α) : Counted α := { e with strong := e.strong + 1 }

/-- One strong owner less. -/
def dropStrong (e : Counted α) : Counted α := { e with strong := e.strong - 1 }

/-- One weak owner more. -/
def addWeak (e : Counted α) : Counted α := { e with weak := e.weak + 1 }

/-- One weak owner less. -/
def dropWeak (e : Counted α) : Counted α := { e with weak := e.weak - 1 }

end Counted

/-- What happens in the store in view of others. -/
inductive Event where
  /-- A note of the cache. -/
  | note (n : Note)
  /-- A tag payload was released. -/
  | dropped (tag : String)
deriving Repr

/-- Cells, shared names and payloads, with their counts. -/
structure Store where
  cells : Table (Counted Cell) := .empty
  /-- The number of keys that share each name. -/
  names : Table Nat := .empty
  payloads : Table (Counted Payload) := .empty
  /-- What happened, newest first. -/
  journal : List Event := []

namespace Store

instance : Inhabited Store := ⟨{}⟩

/-- The cell with that identity. -/
def cell? (s : Store) (c : CellId) : Option Cell :=
  (s.cells.find? c).map Counted.content

/-- The referent of a cell. -/
def referent? (s : Store) (c : CellId) : Option Referent :=
  (s.cell? c).map Cell.referent

/-- Whether the cell still has an owner. -/
def alive (s : Store) (c : CellId) : Bool :=
  s.cells.contains c

/-- The number of strong references to a cell. -/
def strongCount (s : Store) (c : CellId) : Nat :=
  ((s.cells.find? c).map Counted.strong).getD 0

/-- The number of weak references to a cell. -/
def weakCount (s : Store) (c : CellId) : Nat :=
  ((s.cells.find? c).map Counted.weak).getD 0

/-- The number of keys that share a name. -/
def nameCount (s : Store) (n : NameId) : Nat :=
  (s.names.find? n).getD 0

/-- Whether a shared name still has an owner. -/
def nameAlive (s : Store) (n : SharedName) : Bool :=
  s.names.contains n.id

/-- The payload with that identity. -/
def payload? (s : Store) (p : PayloadId) : Option Payload :=
  (s.payloads.find? p).map Counted.content

/-- The number of handles on a payload. -/
def payloadCount (s : Store) (p : PayloadId) : Nat :=
  ((s.payloads.find? p).map Counted.strong).getD 0

/-- The number of weak handles on a payload. -/
def weakPayloadCount (s : Store) (p : PayloadId) : Nat :=
  ((s.payloads.find? p).map Counted.weak).getD 0

/-- Writes an event into the journal. -/
def record (s : Store) (e : Event) : Store :=
  { s with journal := e :: s.journal }

/-- Writes a note into the journal. -/
def note (s : Store) (n : Note) : Store :=
  s.record (.note n)

/-- A new cell with one owner and an empty extension slot. -/
def newCell (s : Store) (r : Referent) : CellId × Store :=
  (s.cells.next, { s with cells := s.cells.insert { content := { referent := r } } })

/-- A new shared name with one owner. -/
def newName (s : Store) (text : String) : SharedName × Store :=
  (⟨s.names.next, text⟩, { s with names := s.names.insert 1 })

/-- A new payload with one handle. -/
def newPayload (s : Store) (p : Payload) : PayloadId × Store :=
  (s.payloads.next, { s with payloads := s.payloads.insert { content := p } })

/-- Changes what is in a cell. -/
def writeCell (s : Store) (c : CellId) (k : Cell → Cell) : Store :=
  { s with cells := s.cells.modify c fun e => { e with content := k e.content } }

/-- Replaces the referent of a cell. -/
def setReferent (s : Store) (c : CellId) (r : Referent) : Store :=
  s.writeCell c fun x => { x with referent := r }

/-- Replaces the content of a cell's extension slot. -/
def setExtension (s : Store) (c : CellId) (r : Option Record) : Store :=
  s.writeCell c fun x => { x with extension := r }

/-- Replaces a payload. -/
def setPayload (s : Store) (p : PayloadId) (content : Payload) : Store :=
  { s with payloads := s.payloads.modify p fun e => { e with content } }

/-- Takes a payload out of the store, to be held in place elsewhere. -/
def takePayload (s : Store) (p : PayloadId) : Store :=
  { s with payloads := s.payloads.erase p }

/-- The content of a cell's extension slot. -/
def extension? (s : Store) (c : CellId) : Option Record :=
  (s.cell? c).bind Cell.extension

/-- Takes one more share. A structure held in place cannot be shared. -/
def retainOne (s : Store) : Owned → Store
  | .cell c => { s with cells := s.cells.modify c Counted.addStrong }
  | .weakCell c => { s with cells := s.cells.modify c Counted.addWeak }
  | .name n => { s with names := s.names.modify n (· + 1) }
  | .payload p => { s with payloads := s.payloads.modify p Counted.addStrong }
  | .weakPayload p => { s with payloads := s.payloads.modify p Counted.addWeak }
  | .held _ => s

/-- Takes one more of each share. -/
def retain (s : Store) (os : List Owned) : Store :=
  os.foldl retainOne s

/-- What is seen of a payload as it goes. -/
def farewell : Payload → Event
  | .tag name => .dropped name
  | .descriptor d => .note (.destroyedDescriptor d.slot)
  | .shadow s => .note (.destroyedShadow s.className s.descriptors.length)

/-- Gives back one share; also the shares that have to be given back in consequence. -/
def releaseOne (s : Store) : Owned → List Owned × Store
  | .cell c =>
    match s.cells.find? c with
    | none => ([], s)
    | some e =>
      if e.strong ≤ 1 then (e.content.owned, { s with cells := s.cells.erase c })
      else ([], { s with cells := s.cells.modify c Counted.dropStrong })
  | .weakCell c => ([], { s with cells := s.cells.modify c Counted.dropWeak })
  | .name n =>
    match s.names.find? n with
    | none => ([], s)
    | some count =>
      if count ≤ 1 then ([], { s with names := s.names.erase n })
      else ([], { s with names := s.names.modify n (· - 1) })
  | .payload p =>
    match s.payloads.find? p with
    | none => ([], s)
    | some e =>
      if e.strong ≤ 1 then ([.held e.content], { s with payloads := s.payloads.erase p })
      else ([], { s with payloads := s.payloads.modify p Counted.dropStrong })
  | .weakPayload p => ([], { s with payloads := s.payloads.modify p Counted.dropWeak })
  | .held p => (p.owned, s.record (farewell p))

/-- The number of releases that freeing everything in the store would cause. -/
def weight (s : Store) : Nat :=
  s.cells.total (fun e => Owned.total e.content.owned) + s.payloads.total fun e => e.content.weight

/-- A release either passes on less than the share weighed, or takes what it passes on out of the
store. -/
theorem weight_releaseOne (s : Store) (o : Owned) :
    Owned.total (s.releaseOne o).1 + (s.releaseOne o).2.weight < o.weight + s.weight := by
  cases o with
  | cell c =>
    simp only [releaseOne]
    split
    · simp [Owned.weight]
    · rename_i e he
      split
      · have := Table.total_erase_add (fun e => Owned.total e.content.owned) he
        simp only [weight, Owned.weight]
        omega
      · have := Table.total_modify (fun e => Owned.total e.content.owned) s.cells c
          Counted.dropStrong fun _ => rfl
        simp only [weight, Owned.weight, Owned.total_nil]
        omega
  | weakCell c =>
    have := Table.total_modify (fun e => Owned.total e.content.owned) s.cells c
      Counted.dropWeak fun _ => rfl
    simp only [releaseOne, weight, Owned.weight, Owned.total_nil]
    omega
  | name n =>
    simp only [releaseOne]
    split
    · simp [Owned.weight]
    · split <;> simp [weight, Owned.weight]
  | payload p =>
    simp only [releaseOne]
    split
    · simp [Owned.weight]
    · rename_i e he
      split
      · have := Table.total_erase_add (fun e => e.content.weight) he
        simp only [weight, Owned.weight, Owned.total_cons, Owned.total_nil]
        omega
      · have := Table.total_modify (fun e => e.content.weight) s.payloads p
          Counted.dropStrong fun _ => rfl
        simp only [weight, Owned.weight, Owned.total_nil]
        omega
  | weakPayload p =>
    have := Table.total_modify (fun e => e.content.weight) s.payloads p
      Counted.dropWeak fun _ => rfl
    simp only [releaseOne, weight, Owned.weight, Owned.total_nil]
    omega
  | held p =>
    have := p.total_owned_lt
    simp only [releaseOne, record, weight, Owned.weight]
    omega

/-- Gives back shares in order; what one release causes comes before the rest. -/
def release (s : Store) : List Owned → Store
  | [] => s
  | o :: rest =>
    have := s.weight_releaseOne o
    (s.releaseOne o).2.release ((s.releaseOne o).1 ++ rest)
termination_by os => Owned.total os + s.weight
decreasing_by
  simp only [Owned.total_append, Owned.total_cons]
  omega

@[simp] theorem release_nil (s : Store) : s.release [] = s := by
  rw [release]

theorem release_cons (s : Store) (o : Owned) (rest : List Owned) :
    s.release (o :: rest) = (s.releaseOne o).2.release ((s.releaseOne o).1 ++ rest) := by
  rw [release]

/-- Gives back a weak reference and takes a strong one to the same cell in its place, or nothing if
the cell is gone; any other value stays as it is. -/
def upgrade (s : Store) : Value → Value × Store
  | .weak c =>
    if s.alive c then (.ref c, (s.retain [.cell c]).release [.weakCell c]) else (.undef, s)
  | v => (v, s)

/-- Whether a value is defined: a weak reference is, as long as its cell is there. -/
def isDefined (s : Store) : Value → Bool
  | .undef => false
  | .weak c => s.alive c
  | _ => true

/-- The truth of a value. -/
def isTrue (s : Store) (v : Value) : Bool :=
  match v with
  | .weak c => s.alive c
  | _ => v.isTrue

/-- The code that a value refers to, strongly. -/
def code? (s : Store) (v : Value) : Option Code := do
  let c ← v.strong?
  match ← s.referent? c with
  | .code code => some code
  | _ => none

/-- The object that a value refers to, strongly. -/
def object? (s : Store) (v : Value) : Option Object := do
  let c ← v.strong?
  match ← s.referent? c with
  | .object o => some o
  | _ => none

/-- The entries of the hash that a value refers to, strongly, with its cell. -/
def hash? (s : Store) (v : Value) : Option (CellId × List (Key × Value)) := do
  let c ← v.strong?
  match ← s.referent? c with
  | .hash es => some (c, es)
  | _ => none

/-- The text of a cell inside messages: its kind, with the class of an object or the name of
code. -/
def cellText (s : Store) (c : CellId) : String :=
  match s.referent? c with
  | none => "<dead>"
  | some r =>
    let owner := match r with
      | .object o => o.className ++ "="
      | .code { name := some n, .. } => "&" ++ n ++ "="
      | _ => ""
    owner ++ r.kindName ++ Text.anyAddress

/-- The text of a weak reference inside messages. -/
def weakText (s : Store) (c : CellId) : String :=
  "weak " ++ s.cellText c

/-- The text of a value inside messages. -/
def valueText (s : Store) : Value → String
  | .undef => "Undef"
  | .int n => "Int(" ++ toString n ++ ")"
  | .num x => "Num(" ++ x.shown ++ ")"
  | .str t => "Str(" ++ Text.quote t ++ ")"
  | .ref c => "Ref(" ++ s.cellText c ++ ")"
  | .weak c => "Weak(" ++ s.weakText c ++ ")"

end Store

end MetaCache
