import MetaCache.Proofs.Ownership.Release
import MetaCache.Proofs.Sharing.Twins
/-!
# What is left without hashes

A hash is stored in every key, and so in the entries of instances, in descriptors and in shadows.
What is left of a store when all hashes are forgotten, and the notes with them, tells everything but
the hashes: what is read from the store is read from what is left of it as well, and what is done to
the store is done to that.

* `Key.unhashed`, `Payload.unhashed`, `Store.unhashed`, …: the structures without their hashes.
* `Store.alive_unhashed`, `Store.valueText_unhashed`, …: what is read is the same.
* `Store.unhashed_retain`, `Store.release_of_unhashed_eq`, …: what is done is the same.
-/

namespace MetaCache

open Script (Binding Session)

/-- The table with `f` applied to every entry. -/
def Table.map {α : Type} (f : α → α) (t : Table α) : Table α where
  next := t.next
  entries := t.entries.map fun e => (e.1, f e.2)
  descending := by
    rw [List.map_map]
    exact t.descending

/-- The entry with `f` applied to its content. -/
def Counted.map {α : Type} (f : α → α) (e : Counted α) : Counted α :=
  { e with content := f e.content }

def Key.unhashed (k : Key) : Key := { k with hash := 0 }

def Entries.unhashed (es : List (Key × Value)) : List (Key × Value) :=
  es.map fun e => (e.1.unhashed, e.2)

def Descriptor.unhashed (d : Descriptor) : Descriptor :=
  { d with slot := d.slot.unhashed, initArg := d.initArg.map Key.unhashed }

def Shadow.unhashed (s : Shadow) : Shadow :=
  { s with descriptors := s.descriptors.map Descriptor.unhashed }

def Payload.unhashed : Payload → Payload
  | .tag name => .tag name
  | .descriptor d => .descriptor d.unhashed
  | .shadow s => .shadow s.unhashed

def Referent.unhashed : Referent → Referent
  | .hash es => .hash (Entries.unhashed es)
  | r => r

def Cell.unhashed (c : Cell) : Cell := { c with referent := c.referent.unhashed }

/-- What is held in place is a structure that may have hashes. -/
def Owned.unhashed : Owned → Owned
  | .held p => .held p.unhashed
  | o => o

/-- The store without hashes and without notes, in which hashes are shown. -/
def Store.unhashed (s : Store) : Store where
  cells := s.cells.map (Counted.map Cell.unhashed)
  names := s.names
  payloads := s.payloads.map (Counted.map Payload.unhashed)
  journal := s.journal.filter Event.lasting

def Script.Binding.unhashed : Binding → Binding
  | .key k => .key k.unhashed
  | b => b

/-- The variables without hashes. -/
def Script.Session.unhashed (s : Session) : Session where
  vars := s.vars.map fun v => (v.1, v.2.unhashed)

/-- The settings and the counters of a cache: not how it hashes, nor where names are filed. -/
def Cache.unhashed (c : Cache) : Cache := { c with nameHash := fun _ => 0, keys := {} }

/-- All of a world that has nothing to do with hashes. -/
def World.unhashed (w : World) : World where
  store := w.store.unhashed
  cache := w.cache.unhashed
  registry := w.registry
  session := w.session.unhashed

/-! ## Tables -/

/-- What is found among entries with `f` applied to every content. -/
theorem lookup_map_snd {κ α β : Type} [BEq κ] (f : α → β) (i : κ) (es : List (κ × α)) :
    (es.map fun e => (e.1, f e.2)).lookup i = (es.lookup i).map f := by
  induction es with
  | nil => rfl
  | cons e rest ih =>
    rw [List.map_cons, List.lookup_cons, List.lookup_cons]
    split
    · rfl
    · exact ih

namespace Table

variable {α : Type} (f : α → α) (t : Table α) (i : Nat)

theorem find?_map : (t.map f).find? i = (t.find? i).map f := lookup_map_snd f i t.entries

theorem contains_map : (t.map f).contains i = t.contains i := by
  rw [contains, contains, find?_map, Option.isSome_map]

theorem ext {t u : Table α} (hn : t.next = u.next) (he : t.entries = u.entries) : t = u := by
  obtain ⟨_, _, _⟩ := t
  obtain ⟨_, _, _⟩ := u
  cases hn
  cases he
  rfl

theorem map_erase : (t.erase i).map f = (t.map f).erase i :=
  ext rfl (List.filter_map (f := fun e : Nat × α => (e.1, f e.2)) (l := t.entries)
    (p := fun e => e.1 != i)).symm

theorem map_modify {k k' : α → α} (h : ∀ a, f (k a) = k' (f a)) :
    (t.modify i k).map f = (t.map f).modify i k' := by
  refine ext rfl ?_
  show (modifyEntries k i t.entries).map _ = modifyEntries k' i (t.entries.map _)
  induction t.entries with
  | nil => rfl
  | cons e rest ih =>
    rw [List.map_cons, modifyEntries, modifyEntries]
    split
    · rw [List.map_cons, h]
    · rw [List.map_cons, ih]

end Table

/-! ## Shares -/

theorem Key.owned_unhashed (k : Key) : k.unhashed.owned = k.owned := rfl

theorem Descriptor.owned_unhashed (d : Descriptor) : d.unhashed.owned = d.owned := by
  obtain ⟨slot, initArg, default, initializer, origin⟩ := d
  cases initArg <;> rfl

theorem Cell.owned_unhashed (c : Cell) : c.unhashed.owned = c.owned := by
  obtain ⟨r, x⟩ := c
  cases r with
  | hash es => exact congrArg (· ++ ownedByRecord? x) (List.flatMap_map _ _ es)
  | _ => rfl

theorem Script.Binding.owned_unhashed (b : Binding) : b.unhashed.owned = b.owned := by
  cases b <;> rfl

theorem Owned.held_of_unhashed_eq {o o' : Owned} (h : o.unhashed = o'.unhashed) :
    o = o' ∨ ∃ p q : Payload, o = .held p ∧ o' = .held q ∧ p.unhashed = q.unhashed := by
  cases o with
  | held p =>
    cases o' with
    | held q => exact .inr ⟨p, q, rfl, rfl, Owned.held.inj h⟩
    | _ => cases h
  | _ =>
    cases o' with
    | held q => cases h
    | _ => exact .inl h

/-- Payloads that are the same without hashes hold the same. -/
theorem Payload.owned_of_unhashed_eq {p q : Payload} (h : p.unhashed = q.unhashed) :
    p.owned.map Owned.unhashed = q.owned.map Owned.unhashed := by
  cases p with
  | tag _ => cases q <;> cases h; rfl
  | descriptor d =>
    cases q with
    | descriptor e =>
      have howned : d.owned = e.owned := by
        rw [← d.owned_unhashed, Payload.descriptor.inj h, e.owned_unhashed]
      rw [Payload.owned, Payload.owned, howned]
    | _ => cases h
  | shadow s =>
    cases q with
    | shadow t =>
      have hst : s.unhashed = t.unhashed := Payload.shadow.inj h
      have hcls : s.unhashed.cls = t.unhashed.cls := congrArg Shadow.cls hst
      have hheld (s : Shadow) : (s.descriptors.map fun d => Owned.held (.descriptor d)).map
          Owned.unhashed = s.unhashed.descriptors.map fun d => .held (.descriptor d) := by
        rw [List.map_map, Shadow.unhashed, List.map_map]
        rfl
      rw [Payload.owned, Payload.owned, List.map_cons, List.map_cons, hheld, hheld, hst]
      exact congrArg (Owned.cell · :: _) hcls
    | _ => cases h

/-! ## What is read -/

namespace Store

variable (s : Store)

theorem has_unhashed (x : Share) : s.unhashed.has x = s.has x := by
  cases x with
  | name n => rfl
  | _ => exact Table.contains_map _ _ _

theorem count_unhashed (x : Share) : s.unhashed.count x = s.count x := by
  have hmap {α : Type} (f : α → α) (t : Table (Counted α)) (i : Nat) (v : Counted α → Nat)
      (hv : ∀ e, v (e.map f) = v e) :
      (((t.map (Counted.map f)).find? i).map v).getD 0 = ((t.find? i).map v).getD 0 := by
    rw [Table.find?_map, Option.map_map]
    exact congrArg (fun w => ((t.find? i).map w).getD 0) (funext hv)
  cases x with
  | name n => rfl
  | _ => exact hmap _ _ _ _ fun _ => rfl

theorem alive_unhashed : s.unhashed.alive = s.alive :=
  funext fun c => s.has_unhashed (.cell c)

theorem cell?_unhashed (c : CellId) : s.unhashed.cell? c = (s.cell? c).map Cell.unhashed := by
  show ((s.cells.map _).find? c).map _ = ((s.cells.find? c).map _).map _
  rw [Table.find?_map, Option.map_map, Option.map_map]
  rfl

theorem payload?_unhashed (p : PayloadId) :
    s.unhashed.payload? p = (s.payload? p).map Payload.unhashed := by
  show ((s.payloads.map _).find? p).map _ = ((s.payloads.find? p).map _).map _
  rw [Table.find?_map, Option.map_map, Option.map_map]
  rfl

theorem referent?_unhashed (c : CellId) :
    s.unhashed.referent? c = (s.referent? c).map Referent.unhashed := by
  rw [referent?, cell?_unhashed, Option.map_map, referent?, Option.map_map]
  rfl

theorem extension?_unhashed (c : CellId) : s.unhashed.extension? c = s.extension? c := by
  rw [extension?, cell?_unhashed, extension?]
  cases s.cell? c <;> rfl

theorem code?_unhashed (v : Value) : s.unhashed.code? v = s.code? v := by
  cases v with
  | ref c =>
    simp only [code?, Value.strong?, Option.bind_eq_bind, Option.bind_some, referent?_unhashed]
    rcases s.referent? c with _ | r
    · rfl
    · cases r <;> rfl
  | _ => rfl

theorem hash?_unhashed (v : Value) :
    s.unhashed.hash? v = (s.hash? v).map fun e => (e.1, Entries.unhashed e.2) := by
  cases v with
  | ref c =>
    simp only [hash?, Value.strong?, Option.bind_eq_bind, Option.bind_some, referent?_unhashed]
    rcases s.referent? c with _ | r
    · rfl
    · cases r <;> rfl
  | _ => rfl

theorem cellText_unhashed (c : CellId) : s.unhashed.cellText c = s.cellText c := by
  rw [cellText, cellText, referent?_unhashed]
  rcases s.referent? c with _ | r
  · rfl
  · cases r <;> rfl

theorem valueText_unhashed (v : Value) : s.unhashed.valueText v = s.valueText v := by
  cases v <;> simp only [valueText, weakText, cellText_unhashed]

theorem isDefined_unhashed (v : Value) : s.unhashed.isDefined v = s.isDefined v := by
  cases v <;> simp only [isDefined, alive_unhashed]

theorem isTrue_unhashed (v : Value) : s.unhashed.isTrue v = s.isTrue v := by
  cases v <;> simp only [isTrue, alive_unhashed]

/-! ## What is done -/

theorem unhashed_newCell (r : Referent) :
    (s.newCell r).2.unhashed = (s.unhashed.newCell r.unhashed).2 := rfl

theorem unhashed_newPayload (p : Payload) :
    (s.newPayload p).2.unhashed = (s.unhashed.newPayload p.unhashed).2 := rfl

theorem unhashed_modifyCell (c : CellId) {k k' : Counted Cell → Counted Cell}
    (h : ∀ e, (k e).map Cell.unhashed = k' (e.map Cell.unhashed)) :
    ({ s with cells := s.cells.modify c k } : Store).unhashed =
      { s.unhashed with cells := s.unhashed.cells.modify c k' } :=
  congrArg (fun t => { s.unhashed with cells := t }) (Table.map_modify _ s.cells c h)

theorem unhashed_modifyPayload (p : PayloadId) {k k' : Counted Payload → Counted Payload}
    (h : ∀ e, (k e).map Payload.unhashed = k' (e.map Payload.unhashed)) :
    ({ s with payloads := s.payloads.modify p k } : Store).unhashed =
      { s.unhashed with payloads := s.unhashed.payloads.modify p k' } :=
  congrArg (fun t => { s.unhashed with payloads := t }) (Table.map_modify _ s.payloads p h)

theorem unhashed_writeCell (c : CellId) {k k' : Cell → Cell}
    (h : ∀ x, (k x).unhashed = k' x.unhashed) :
    (s.writeCell c k).unhashed = s.unhashed.writeCell c k' :=
  s.unhashed_modifyCell c fun e => congrArg (fun x => { e with content := x }) (h e.content)

theorem unhashed_setReferent (c : CellId) (r : Referent) :
    (s.setReferent c r).unhashed = s.unhashed.setReferent c r.unhashed :=
  s.unhashed_writeCell c fun _ => rfl

theorem unhashed_setExtension (c : CellId) (r : Option Record) :
    (s.setExtension c r).unhashed = s.unhashed.setExtension c r :=
  s.unhashed_writeCell c fun _ => rfl

theorem unhashed_adjust (k : Nat → Nat) (x : Share) :
    (s.adjust k x).unhashed = s.unhashed.adjust k x := by
  cases x with
  | name n => rfl
  | cell c | weakCell c => exact s.unhashed_modifyCell c fun _ => rfl
  | payload p | weakPayload p => exact s.unhashed_modifyPayload p fun _ => rfl

theorem unhashed_remove (x : Share) : (s.remove x).unhashed = s.unhashed.remove x := by
  cases x with
  | cell c =>
    exact congrArg (fun t => { s.unhashed with cells := t }) (Table.map_erase _ s.cells c)
  | payload p =>
    exact congrArg (fun t => { s.unhashed with payloads := t }) (Table.map_erase _ s.payloads p)
  | _ => rfl

theorem unhashed_retain (os : List Owned) :
    (s.retain os).unhashed = s.unhashed.retain os := by
  induction os generalizing s with
  | nil => rfl
  | cons o rest ih =>
    have hone : (s.retainOne o).unhashed = s.unhashed.retainOne o := by
      cases ho : o.plain? with
      | none =>
        obtain ⟨p, rfl⟩ := Owned.exists_of_plain?_eq_none ho
        rfl
      | some x => rw [retainOne_eq ho, retainOne_eq ho, unhashed_adjust]
    exact (ih (s.retainOne o)).trans (congrArg (fun t => t.retain rest) hone)

variable {s} {t : Store} (h : s.unhashed = t.unhashed)

include h

/-- What an entry holds that goes is the same without hashes. -/
theorem inside_of_unhashed_eq (x : Share) :
    (s.inside x).map Owned.unhashed = (t.inside x).map Owned.unhashed := by
  cases x with
  | cell c =>
    have hcell : (s.cell? c).map Cell.unhashed = (t.cell? c).map Cell.unhashed := by
      rw [← cell?_unhashed, h, cell?_unhashed]
    have howned : (s.cell? c).map Cell.owned = (t.cell? c).map Cell.owned := by
      have hcomp : Cell.owned = Cell.owned ∘ Cell.unhashed :=
        funext fun c => c.owned_unhashed.symm
      rw [hcomp, ← Option.map_map, hcell, Option.map_map]
    rw [inside, inside, howned]
  | payload p =>
    have hpayload : (s.payload? p).map Payload.unhashed = (t.payload? p).map Payload.unhashed := by
      rw [← payload?_unhashed, h, payload?_unhashed]
    have hmap (s : Store) : (s.inside (.payload p)).map Owned.unhashed =
        (((s.payload? p).map Payload.unhashed).map fun x => [.held x]).getD [] := by
      rw [inside]
      cases s.payload? p <;> rfl
    rw [hmap, hmap, hpayload]
  | _ => rfl

theorem record_farewell_of_unhashed_eq {p q : Payload} (hpq : p.unhashed = q.unhashed) :
    (s.record (farewell p)).unhashed = (t.record (farewell q)).unhashed := by
  cases p with
  | tag name =>
    cases q <;> cases hpq
    exact congrArg (fun t => { t with journal := .dropped name :: t.journal }) h
  | _ => cases q <;> first | exact h | cases hpq

theorem releaseOne_of_unhashed_eq {o o' : Owned} (ho : o.unhashed = o'.unhashed) :
    (s.releaseOne o).1.map Owned.unhashed = (t.releaseOne o').1.map Owned.unhashed ∧
      (s.releaseOne o).2.unhashed = (t.releaseOne o').2.unhashed := by
  have hheld {p q : Payload} (hpq : p.unhashed = q.unhashed) :
      (s.releaseOne (.held p)).1.map Owned.unhashed =
        (t.releaseOne (.held q)).1.map Owned.unhashed ∧
      (s.releaseOne (.held p)).2.unhashed = (t.releaseOne (.held q)).2.unhashed :=
    ⟨Payload.owned_of_unhashed_eq hpq, record_farewell_of_unhashed_eq h hpq⟩
  rcases Owned.held_of_unhashed_eq ho with rfl | ⟨p, q, rfl, rfl, hpq⟩
  · cases hx : o.plain? with
    | none =>
      obtain ⟨p, rfl⟩ := Owned.exists_of_plain?_eq_none hx
      exact hheld rfl
    | some x =>
      have hhas : s.has x = t.has x := by rw [← has_unhashed, h, has_unhashed]
      have hcount : s.count x = t.count x := by rw [← count_unhashed, h, count_unhashed]
      rw [releaseOne_eq s hx, releaseOne_eq t hx, hhas, hcount]
      split
      · exact ⟨inside_of_unhashed_eq h x, by rw [unhashed_remove, unhashed_remove, h]⟩
      · exact ⟨rfl, by rw [unhashed_adjust, unhashed_adjust, h]⟩
  · exact hheld hpq

/-- Releases go the same way, however far they spread. -/
theorem release_of_unhashed_eq {os os' : List Owned}
    (ho : os.map Owned.unhashed = os'.map Owned.unhashed) :
    (s.release os).unhashed = (t.release os').unhashed := by
  induction s, os using Store.release.induct generalizing t os' with
  | case1 s =>
    rw [List.map_eq_nil_iff.1 ho.symm, release_nil, release_nil]
    exact h
  | case2 s o rest _ ih =>
    obtain ⟨o', rest', rfl⟩ : ∃ o' rest', os' = o' :: rest' := by
      cases os' with
      | nil => cases ho
      | cons o' rest' => exact ⟨o', rest', rfl⟩
    obtain ⟨ho, hrest⟩ := List.cons.inj ho
    obtain ⟨howned, hstore⟩ := releaseOne_of_unhashed_eq h ho
    rw [release_cons, release_cons]
    exact ih hstore (by rw [List.map_append, List.map_append, howned, hrest])

end Store

end MetaCache
