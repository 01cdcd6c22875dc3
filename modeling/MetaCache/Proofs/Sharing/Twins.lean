import Mathlib.Order.Basic
import MetaCache.Proofs.Ownership.KeyNames
import MetaCache.Proofs.Sharing.Alike
import MetaCache.Proofs.Storage.Entries
/-!
# Twin worlds

Two runs that differ in whether names are shared give out identities of names in different ways.
Cells, payloads and all that is in them stay the same, up to the keys that occur there: these have
the same texts in both runs. Each run has a naming that tells what its identities stand for, and
both namings grow as the runs go on.

* `Naming`: what the identities of names stand for.
* `Key.Twin`: keys of one text, one of each run.
* `Store.Twin`, `World.Twin`: stores and worlds that are the same up to keys.
* `Key.Twin.mono`, `Cell.Twin.mono`, …: twins stay twins as the namings grow.
-/

namespace MetaCache

open Script (Binding Session)

/-- What the identities of names that were given out stand for. -/
structure Naming where
  label : NameId → String
  bound : NameId

/-- A naming grows by further identities. -/
instance : Preorder Naming where
  le n m := n.bound ≤ m.bound ∧ ∀ i < n.bound, m.label i = n.label i
  le_refl _ := ⟨Nat.le_refl _, fun _ _ => rfl⟩
  le_trans _ _ _ h h' :=
    ⟨Nat.le_trans h.1 h'.1, fun i hi => (h'.2 i (Nat.lt_of_lt_of_le hi h.1)).trans (h.2 i hi)⟩

/-- The namings of two runs. -/
abbrev Namings := Naming × Naming

/-- The name is one of the naming. -/
def Naming.Knows (n : Naming) (m : SharedName) : Prop := m.Known n.label n.bound

/-- The key has a name of the naming, and its hash. -/
def Naming.Has (n : Naming) (k : Key) : Prop := k.Proper Text.nameHash n.label n.bound

/-- Keys of one text. -/
structure Key.Twin (g : Namings) (k l : Key) : Prop where
  left : g.1.Has k
  right : g.2.Has l
  text : k.text = l.text

/-- Entries of hashes in the same order, under keys of the same texts. -/
def Entries.Twin (g : Namings) : List (Key × Value) → List (Key × Value) → Prop :=
  List.Forall₂ fun e f => Key.Twin g e.1 f.1 ∧ e.2 = f.2

structure Descriptor.Twin (g : Namings) (d e : Descriptor) : Prop where
  slot : d.slot.Twin g e.slot
  initArg : Option.Rel (Key.Twin g) d.initArg e.initArg
  default : d.default = e.default
  initializer : d.initializer = e.initializer
  origin : d.origin = e.origin

structure Shadow.Twin (g : Namings) (s t : Shadow) : Prop where
  cls : s.cls = t.cls
  className : s.className = t.className
  layout : s.layout = t.layout
  generation : s.generation = t.generation
  descriptors : List.Forall₂ (Descriptor.Twin g) s.descriptors t.descriptors

inductive Payload.Twin (g : Namings) : Payload → Payload → Prop
  | tag (name : String) : Twin g (.tag name) (.tag name)
  | descriptor {d e : Descriptor} (h : d.Twin g e) : Twin g (.descriptor d) (.descriptor e)
  | shadow {s t : Shadow} (h : s.Twin g t) : Twin g (.shadow s) (.shadow t)

inductive Referent.Twin (g : Namings) : Referent → Referent → Prop
  | scalar (v : Value) : Twin g (.scalar v) (.scalar v)
  | array (vs : List Value) : Twin g (.array vs) (.array vs)
  | hash {es fs : List (Key × Value)} (h : Entries.Twin g es fs) : Twin g (.hash es) (.hash fs)
  | code (c : Code) : Twin g (.code c) (.code c)
  | object (o : Object) : Twin g (.object o) (.object o)

structure Cell.Twin (g : Namings) (c d : Cell) : Prop where
  referent : c.referent.Twin g d.referent
  extension : c.extension = d.extension

/-- Entries with the same counts. -/
structure Counted.Twin {α : Type} (R : α → α → Prop) (e f : Counted α) : Prop where
  content : R e.content f.content
  strong : e.strong = f.strong
  weak : e.weak = f.weak

/-- Tables with the same identities. -/
structure Table.Twin {α : Type} (R : α → α → Prop) (t u : Table α) : Prop where
  next : t.next = u.next
  find? : ∀ i, Option.Rel R (t.find? i) (u.find? i)

/-- Whether an event is more than a note. -/
def Event.lasting : Event → Bool
  | note _ => false
  | dropped _ => true

/-- Stores with the same cells and payloads, in which the same has happened. The namings know all
identities that were given out. -/
structure Store.Twin (g : Namings) (s t : Store) : Prop where
  left : g.1.bound = s.names.next
  right : g.2.bound = t.names.next
  cells : s.cells.Twin (Counted.Twin (Cell.Twin g)) t.cells
  payloads : s.payloads.Twin (Counted.Twin (Payload.Twin g)) t.payloads
  journal : s.journal.filter Event.lasting = t.journal.filter Event.lasting

/-- The same shares, up to the identities of names. -/
inductive Owned.Twin (g : Namings) : Owned → Owned → Prop
  | cell (c : CellId) : Twin g (.cell c) (.cell c)
  | weakCell (c : CellId) : Twin g (.weakCell c) (.weakCell c)
  | name (m n : NameId) : Twin g (.name m) (.name n)
  | payload (p : PayloadId) : Twin g (.payload p) (.payload p)
  | weakPayload (p : PayloadId) : Twin g (.weakPayload p) (.weakPayload p)
  | held {p q : Payload} (h : p.Twin g q) : Twin g (.held p) (.held q)

/-- Caches with settings that are alike and with the same counters. What is in the key tables stands
for itself in each run. -/
structure Cache.Twin (g : Namings) (c d : Cache) : Prop where
  config : c.config.Alike d.config
  classifier : c.classifier = d.classifier
  hash : c.nameHash = Text.nameHash
  hash' : d.nameHash = Text.nameHash
  stats : c.stats = d.stats
  left : ∀ n ∈ c.keys.names, g.1.Knows n
  right : ∀ n ∈ d.keys.names, g.2.Knows n

inductive Script.Binding.Twin (g : Namings) : Binding → Binding → Prop
  | value (v : Value) : Twin g (.value v) (.value v)
  | key {k l : Key} (h : k.Twin g l) : Twin g (.key k) (.key l)
  | descriptor (p : PayloadId) : Twin g (.descriptor p) (.descriptor p)
  | shadow (p : PayloadId) : Twin g (.shadow p) (.shadow p)
  | weakHandle (p : PayloadId) : Twin g (.weakHandle p) (.weakHandle p)
  | record (r : Record) : Twin g (.record r) (.record r)

structure Script.Session.Twin (g : Namings) (s t : Session) : Prop where
  vars : List.Forall₂ (fun a b => a.1 = b.1 ∧ Binding.Twin g a.2 b.2) s.vars t.vars
  transcript : Entry.AllAlike s.transcript t.transcript
  successor : Option.Rel (Cache.Twin g) s.successor t.successor

/-- Worlds that are the same up to keys. -/
structure World.Twin (g : Namings) (w v : World) : Prop where
  store : w.store.Twin g v.store
  cache : w.cache.Twin g v.cache
  registry : w.registry = v.registry
  session : w.session.Twin g v.session

/-- Worlds that are the same up to keys, for some naming of these. -/
def World.Alike (w v : World) : Prop := ∃ g, World.Twin g w v

/-! ## Settings -/

namespace Config.Alike

variable {c d : Config} (h : c.Alike d)

include h

theorem layout : c.layout = d.layout := by rw [h]

theorem weakenPolicy : c.weakenPolicy = d.weakenPolicy := by rw [h]

theorem instanceBaseClass : c.instanceBaseClass = d.instanceBaseClass := by rw [h]

end Config.Alike

/-! ## Options and lists -/

section

variable {α β γ δ : Type} {R S : α → β → Prop} {T : γ → δ → Prop}

theorem rel_cases {a : Option α} {b : Option β} (h : Option.Rel R a b) :
    (a = none ∧ b = none) ∨ ∃ x y, a = some x ∧ b = some y ∧ R x y := by
  cases h with
  | some h => exact .inr ⟨_, _, rfl, rfl, h⟩
  | none => exact .inl ⟨rfl, rfl⟩

theorem rel_imp {a : Option α} {b : Option β} (h : Option.Rel R a b) (hRS : ∀ x y, R x y → S x y) :
    Option.Rel S a b := by
  cases h with
  | some h => exact .some (hRS _ _ h)
  | none => exact .none

theorem rel_map {f : α → γ} {f' : β → δ} {a : Option α} {b : Option β} (h : Option.Rel R a b)
    (hf : ∀ x y, R x y → T (f x) (f' y)) : Option.Rel T (a.map f) (b.map f') := by
  cases h with
  | some h => exact .some (hf _ _ h)
  | none => exact .none

theorem map_eq_of_rel {f : α → γ} {f' : β → γ} {a : Option α} {b : Option β} (h : Option.Rel R a b)
    (hf : ∀ x y, R x y → f x = f' y) : a.map f = b.map f' := by
  cases h with
  | some h => exact congrArg some (hf _ _ h)
  | none => rfl

theorem bind_eq_of_rel {f : α → Option γ} {f' : β → Option γ} {a : Option α} {b : Option β}
    (h : Option.Rel R a b) (hf : ∀ x y, R x y → f x = f' y) : a.bind f = b.bind f' := by
  cases h with
  | some h => exact hf _ _ h
  | none => rfl

theorem find?_of_forall₂ {p : α → Bool} {q : β → Bool} {as : List α} {bs : List β}
    (h : List.Forall₂ R as bs) (hpq : ∀ x y, R x y → p x = q y) :
    Option.Rel R (as.find? p) (bs.find? q) := by
  induction h with
  | nil => exact .none
  | cons h _ ih =>
    rw [List.find?_cons, List.find?_cons, hpq _ _ h]
    split
    · exact .some h
    · exact ih

theorem findIdx?_of_forall₂ {p : α → Bool} {q : β → Bool} {as : List α} {bs : List β}
    (h : List.Forall₂ R as bs) (hpq : ∀ x y, R x y → p x = q y) :
    as.findIdx? p = bs.findIdx? q := by
  induction h with
  | nil => rfl
  | cons h _ ih => rw [List.findIdx?_cons, List.findIdx?_cons, hpq _ _ h, ih]

theorem map_eq_of_forall₂ {f : α → γ} {f' : β → γ} {as : List α} {bs : List β}
    (h : List.Forall₂ R as bs) (hf : ∀ x y, R x y → f x = f' y) : as.map f = bs.map f' := by
  induction h with
  | nil => rfl
  | cons h _ ih => rw [List.map_cons, List.map_cons, hf _ _ h, ih]

end

/-! ## Growing namings -/

section

variable {g g' : Namings}

theorem Naming.Knows.mono {n n' : Naming} {m : SharedName} (h : n.Knows m) (hn : n ≤ n') :
    n'.Knows m :=
  SharedName.Known.mono h hn.1 hn.2

theorem Naming.Has.mono {n n' : Naming} {k : Key} (h : n.Has k) (hn : n ≤ n') : n'.Has k :=
  Key.Proper.mono h hn.1 hn.2

theorem Key.Twin.mono {k l : Key} (h : k.Twin g l) (hg : g ≤ g') : k.Twin g' l :=
  ⟨h.left.mono hg.1, h.right.mono hg.2, h.text⟩

theorem Entries.Twin.mono {es fs : List (Key × Value)} (h : Entries.Twin g es fs) (hg : g ≤ g') :
    Entries.Twin g' es fs :=
  List.Forall₂.imp (fun _ _ h => ⟨h.1.mono hg, h.2⟩) h

theorem Descriptor.Twin.mono {d e : Descriptor} (h : d.Twin g e) (hg : g ≤ g') : d.Twin g' e :=
  { h with
    slot := h.slot.mono hg
    initArg := rel_imp h.initArg fun _ _ h => h.mono hg }

theorem Shadow.Twin.mono {s t : Shadow} (h : s.Twin g t) (hg : g ≤ g') : s.Twin g' t :=
  { h with descriptors := h.descriptors.imp fun _ _ h => h.mono hg }

theorem Payload.Twin.mono {p q : Payload} (h : p.Twin g q) (hg : g ≤ g') : p.Twin g' q := by
  cases h with
  | tag name => exact .tag name
  | descriptor h => exact .descriptor (h.mono hg)
  | shadow h => exact .shadow (h.mono hg)

theorem Referent.Twin.mono {r q : Referent} (h : r.Twin g q) (hg : g ≤ g') : r.Twin g' q := by
  cases h with
  | hash h => exact .hash (h.mono hg)
  | scalar v => exact .scalar v
  | array vs => exact .array vs
  | code c => exact .code c
  | object o => exact .object o

theorem Cell.Twin.mono {c d : Cell} (h : c.Twin g d) (hg : g ≤ g') : c.Twin g' d :=
  ⟨h.referent.mono hg, h.extension⟩

theorem Table.Twin.imp {α : Type} {R S : α → α → Prop} {t u : Table (Counted α)}
    (h : t.Twin (Counted.Twin R) u) (hRS : ∀ a b, R a b → S a b) : t.Twin (Counted.Twin S) u :=
  ⟨h.next, fun i => rel_imp (h.find? i) fun _ _ h => { h with content := hRS _ _ h.content }⟩

theorem Cache.Twin.mono {c d : Cache} (h : c.Twin g d) (hg : g ≤ g') : c.Twin g' d :=
  { h with
    left := fun n hn => (h.left n hn).mono hg.1
    right := fun n hn => (h.right n hn).mono hg.2 }

theorem Script.Binding.Twin.mono {b c : Binding} (h : b.Twin g c) (hg : g ≤ g') : b.Twin g' c := by
  cases h with
  | key h => exact .key (h.mono hg)
  | value v => exact .value v
  | descriptor p => exact .descriptor p
  | shadow p => exact .shadow p
  | weakHandle p => exact .weakHandle p
  | record r => exact .record r

theorem Script.Session.Twin.mono {s t : Session} (h : s.Twin g t) (hg : g ≤ g') : s.Twin g' t :=
  ⟨h.vars.imp fun _ _ h => ⟨h.1, h.2.mono hg⟩, h.transcript,
    rel_imp h.successor fun _ _ h => h.mono hg⟩

end

end MetaCache
