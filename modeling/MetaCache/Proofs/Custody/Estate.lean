import MetaCache.Proofs.Custody.Exact
import MetaCache.Proofs.Storage.Refinement
/-!
# Runs, one share at a time

An estate is a store with its key table, together with what is held of it outside: by variables, by
callers, by structures that are being built. Whatever anybody does with it comes to acts of a few
kinds. A share that is given back goes in an act of its own, and so does each share that goes with
it, so that a cascade of finalizations is seen from the inside.

* `Estate`, `Estate.owners`: a store, and who has shares of what.
* `Estate.Act`, `Estate.after`: what is done, and what comes of it.
* `Estate.Allows`: what can be done; nobody gives away what he does not have, and what is being
  given back goes first.
* `Estate.Run`: acts in a row, with the moments before each of them.
-/

namespace MetaCache

/-- Whether the referent is a hash. -/
def Referent.isHash : Referent → Bool
  | hash _ => true
  | _ => false

namespace Store

/-- What the referent of a cell owns. -/
def ownedAt (s : Store) (c : CellId) : List Owned :=
  ((s.referent? c).map Referent.owned).getD []

/-- The entries of the hash in a cell. -/
def entriesAt (s : Store) (c : CellId) : List (Key × Value) :=
  match s.referent? c with
  | some (.hash es) => es
  | _ => []

end Store

/-- A store with its key table, and what is held of it outside. -/
structure Estate where
  store : Store := {}
  table : KeyTable := {}
  /-- The keys made so far, whether anybody still has them or not. -/
  keys : List Key := []
  /-- What is held outside of the store. -/
  hand : Holding := 0
  /-- What is being given back, in the order in which it goes. -/
  falling : List Owned := []

namespace Estate

/-- The shares of each entry, wherever they are. -/
def owners (e : Estate) : Holding := e.store.held + (holding e.falling + e.hand)

/-- What is done to an estate. -/
inductive Act where
  /-- A copy of each is made. -/
  | share (os : List Owned)
  /-- Shares are given up. -/
  | drop (os : List Owned)
  /-- The next share that is being given back goes. -/
  | fall
  | newCell (r : Referent)
  | newPayload (p : Payload)
  /-- A key is made of a new name. -/
  | newKey (name : String)
  /-- A key is made from the shared name of another one. -/
  | shareKey (k : Key)
  /-- The table is asked for the key of a name. -/
  | intern (name : String)
  | sweep
  /-- What is in a cell, and no hash, is replaced. -/
  | write (c : CellId) (r : Referent)
  /-- A value is put into a slot of a hash. -/
  | put (c : CellId) (slot : Key) (v : Value)
  /-- A slot of a hash is removed. -/
  | remove (c : CellId) (slot : Key)
  /-- A record is put into the extension slot of a cell, or the slot is emptied. What was in it is
  handed over. -/
  | attach (c : CellId) (r? : Option Record)
  | note (n : Note)

variable (hash : String → UInt32) (e : Estate)

/-- The referent of a cell is replaced, and what it owned is handed over. -/
def rewrite (c : CellId) (r : Referent) : Estate :=
  { e with
    store := e.store.setReferent c r
    hand := holding (e.store.ownedAt c) + e.hand - holding r.owned }

/-- The estate after an act. -/
def after : Act → Estate
  | .share os => { e with store := e.store.retain os, hand := holding os + e.hand }
  | .drop os => { e with hand := e.hand - holding os, falling := os }
  | .fall =>
    match e.falling with
    | [] => e
    | o :: rest => { e with
        store := (e.store.releaseOne o).2
        falling := (e.store.releaseOne o).1 ++ rest }
  | .newCell r => { e with
      store := (e.store.newCell r).2
      hand := holding [.cell e.store.cells.next] + (e.hand - holding r.owned) }
  | .newPayload p => { e with
      store := (e.store.newPayload p).2
      hand := holding [.payload e.store.payloads.next] + (e.hand - holding p.owned) }
  | .newKey name => { e with
      store := (e.store.newName name).2
      keys := ⟨(e.store.newName name).1, hash name⟩ :: e.keys
      hand := holding [.name e.store.names.next] + e.hand }
  | .shareKey k => { e with
      store := e.store.retain k.owned
      keys := ⟨k.name, hash k.text⟩ :: e.keys
      hand := holding k.owned + e.hand }
  | .intern name => { e with
      store := (e.table.intern hash name e.store).2.2
      table := (e.table.intern hash name e.store).2.1
      keys := (e.table.intern hash name e.store).1 :: e.keys
      hand := holding (e.table.intern hash name e.store).1.owned + e.hand }
  | .sweep => { e with store := (e.table.sweep e.store).2, table := (e.table.sweep e.store).1 }
  | .write c r => e.rewrite c r
  | .put c slot v => e.rewrite c (.hash (Entries.put slot v (e.store.entriesAt c)))
  | .remove c slot => e.rewrite c (.hash (Entries.remove slot (e.store.entriesAt c)))
  | .attach c r? => { e with
      store := e.store.setExtension c r?
      hand := holding (ownedByRecord? (e.store.extension? c)) +
        (e.hand - holding (ownedByRecord? r?)) }
  | .note n => { e with store := e.store.note n }

theorem after_fall {o : Owned} {rest : List Owned} (h : e.falling = o :: rest) :
    e.after hash .fall = { e with
      store := (e.store.releaseOne o).2
      falling := (e.store.releaseOne o).1 ++ rest } := by
  rw [after]
  simp only [h]

/-- All that is in the list is in the hand. -/
def Has (os : List Owned) : Prop := ∀ x, holding os x ≤ e.hand x

/-- The cell is there, and what the new referent owns is in the hand or was in the cell. -/
structure Affords (c : CellId) (r : Referent) : Prop where
  alive : e.store.alive c
  le : ∀ x, holding r.owned x ≤ holding (e.store.ownedAt c) x + e.hand x

/-- What is asked of an act. -/
def Fits : Act → Prop
  | .share os => ∀ o ∈ os, e.store.present o
  | .drop os => e.Has os
  | .newCell r => e.Has r.owned ∧ ∀ es, r = .hash es →
      (∀ p ∈ es, p.1 ∈ e.keys) ∧ (es.map fun p => p.1.text).Nodup
  | .newPayload p => e.Has p.owned
  | .shareKey k => k ∈ e.keys ∧ e.store.nameAlive k.name
  | .write c r => e.Affords c r ∧ r.isHash = false ∧ ∀ es, e.store.referent? c ≠ some (.hash es)
  | .put c slot v => (∃ es, e.store.referent? c = some (.hash es)) ∧ slot ∈ e.keys ∧
      e.Affords c (.hash (Entries.put slot v (e.store.entriesAt c)))
  | .remove c slot => (∃ es, e.store.referent? c = some (.hash es)) ∧ slot ∈ e.keys ∧
      e.Affords c (.hash (Entries.remove slot (e.store.entriesAt c)))
  | .attach c r? => e.store.alive c ∧ e.Has (ownedByRecord? r?)
  | .fall | .newKey _ | .intern _ | .sweep | .note _ => True

/-- The act can be done: it is a fall exactly if something is being given back. -/
structure Allows (a : Act) : Prop where
  turn : e.falling ≠ [] ↔ a = .fall
  fits : e.Fits a

/-- An act, with the moment before it. -/
structure Turn where
  before : Estate
  act : Act

/-- The moment after the act. -/
def Turn.after (t : Turn) : Estate := t.before.after hash t.act

/-- Acts in a row that lead from one estate to another. -/
inductive Run : List Turn → Estate → Prop where
  | refl : Run [] e
  | snoc {ts : List Turn} {d : Estate} {a : Act} : Run ts d → d.Allows a →
    Run (ts ++ [⟨d, a⟩]) (d.after hash a)

/-- Something holds at every moment of a run that has come to `d`. -/
def Throughout (P : Estate → Prop) (ts : List Turn) (d : Estate) : Prop :=
  (∀ t ∈ ts, P t.before) ∧ P d

variable {hash e} {d d' : Estate} {ts ts' : List Turn} {a : Act}

namespace Run

theorem single (h : e.Allows a) : e.Run hash [⟨e, a⟩] (e.after hash a) :=
  .snoc .refl h

theorem trans (h : e.Run hash ts d) (h' : d.Run hash ts' d') : e.Run hash (ts ++ ts') d' := by
  induction h' with
  | refl => rwa [List.append_nil]
  | snoc _ ha ih =>
    rw [← List.append_assoc]
    exact ih.snoc ha

end Run

/-- A run is what came before one of its turns, the turn, and what came after it. -/
theorem Run.split {t : Turn} {us : List Turn} (hr : e.Run hash (ts ++ t :: us) d) :
    e.Run hash ts t.before ∧ t.before.Allows t.act ∧ (t.after hash).Run hash us d := by
  generalize hts : ts ++ t :: us = vs at hr
  induction hr generalizing us with
  | refl => cases ts <;> cases hts
  | @snoc vs d a hr ha ih =>
    rcases us.eq_nil_or_concat with rfl | ⟨us', u, rfl⟩
    · obtain ⟨rfl, hlast⟩ := List.append_inj' hts rfl
      cases hlast
      exact ⟨hr, ha, .refl⟩
    · rw [List.concat_eq_append, ← List.cons_append, ← List.append_assoc] at hts
      obtain ⟨hinit, hlast⟩ := List.append_inj' hts rfl
      cases hlast
      obtain ⟨h₁, h₂, h₃⟩ := ih hinit
      rw [List.concat_eq_append]
      exact ⟨h₁, h₂, h₃.snoc ha⟩

/-- What holds at the beginning and after every act holds throughout. -/
theorem Run.throughout {P : Estate → Prop} (hr : e.Run hash ts d) (he : P e)
    (hP : ∀ {m a}, P m → m.Allows a → P (m.after hash a)) : Throughout P ts d := by
  induction hr with
  | refl => exact ⟨fun _ ht => (List.not_mem_nil ht).elim, he⟩
  | snoc _ ha ih =>
    refine ⟨fun t ht => ?_, hP ih.2 ha⟩
    rcases List.mem_append.1 ht with ht | ht
    · exact ih.1 t ht
    · rw [List.mem_singleton.1 ht]
      exact ih.2

/-- The acts of a run could be done. -/
theorem Run.allows (hr : e.Run hash ts d) : ∀ t ∈ ts, t.before.Allows t.act := by
  induction hr with
  | refl => exact fun _ ht => (List.not_mem_nil ht).elim
  | snoc _ ha ih =>
    intro t ht
    rcases List.mem_append.1 ht with ht | ht
    · exact ih t ht
    · rw [List.mem_singleton.1 ht]
      exact ha

/-- What no act brings about has held all the time if it holds in the end. -/
theorem Throughout.of_end {P : Estate → Prop} (h : e.Run hash ts d)
    (hP : ∀ {ts d a}, e.Run hash ts d → d.Allows a → P (d.after hash a) → P d) (hd : P d) :
    Throughout P ts d := by
  induction h with
  | refl => exact ⟨fun _ ht => (List.not_mem_nil ht).elim, hd⟩
  | snoc hr ha ih =>
    have hbefore := hP hr ha hd
    refine ⟨fun t ht => ?_, hd⟩
    rcases List.mem_append.1 ht with ht | ht
    · exact (ih hbefore).1 t ht
    · rw [List.mem_singleton.1 ht]
      exact hbefore

end Estate

end MetaCache
