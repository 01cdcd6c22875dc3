import MetaCache.Proofs.Sharing.Twins
import MetaCache.Proofs.Storage.Writes
/-!
# Twin stores

What is read from twin stores is the same up to keys, and what is done to both of them leaves twins.
Shares of names are the exception: they come and go in each store for itself, and nothing else
depends on them.

* `Key.Twin.sameSlot_eq`: comparing keys comes to comparing texts.
* `Owned.Twins`: the shares that twins hold.
* `Store.Twin.release`: shares given back, down to the end of every cascade.
* `Store.Twin.hash?`, `Store.Twin.valueText_eq`, …: what is read.
-/

namespace MetaCache

variable {g : Namings}

/-! ## Keys -/

namespace Key.Twin

variable {k l k' l' : Key}

theorem hash (h : k.Twin g l) : k.hash = l.hash := by
  rw [h.left.hash, h.right.hash, h.text]

theorem view_eq (h : k.Twin g l) : k.view = l.view := by
  rw [Key.view, Key.view, h.text, h.hash]

theorem shown_eq (h : k.Twin g l) : k.shown = l.shown := by
  rw [Key.shown, Key.shown, h.text, h.hash]

/-- In each run, two keys denote the same slot exactly if their texts are equal. -/
theorem sameSlot_eq (h : k.Twin g l) (h' : k'.Twin g l') : k.sameSlot k' = l.sameSlot l' := by
  rw [Bool.eq_iff_iff, Key.sameSlot_iff h.left h'.left, Key.sameSlot_iff h.right h'.right, h.text,
    h'.text]

theorem keyMatches_eq (h : k.Twin g l) (hash : UInt32) (name : String) :
    Shadow.keyMatches hash name k = Shadow.keyMatches hash name l := by
  rw [Shadow.keyMatches, Shadow.keyMatches, h.hash, h.text]

end Key.Twin

/-! ## Tables -/

namespace Table.Twin

variable {α : Type} {R : α → α → Prop} {t u : Table α}

theorem contains_eq (h : t.Twin R u) (i : Nat) : t.contains i = u.contains i := by
  rw [contains, contains]
  rcases rel_cases (h.find? i) with ⟨ht, hu⟩ | ⟨_, _, ht, hu, -⟩ <;> rw [ht, hu]
  rfl

theorem insert (h : t.Twin R u) {a b : α} (hab : R a b) : (t.insert a).Twin R (u.insert b) := by
  refine ⟨congrArg (· + 1) h.next, fun i => ?_⟩
  by_cases hi : i = t.next
  · have hu : (u.insert b).find? i = some b := by rw [hi, h.next, find?_insert_self]
    rw [hu, hi, find?_insert_self]
    exact .some hab
  · rw [find?_insert_of_ne t a hi, find?_insert_of_ne u b fun hu => hi (hu.trans h.next.symm)]
    exact h.find? i

theorem modify (h : t.Twin R u) (i : Nat) {f f' : α → α} (hf : ∀ a b, R a b → R (f a) (f' b)) :
    (t.modify i f).Twin R (u.modify i f') := by
  refine ⟨h.next, fun j => ?_⟩
  rw [find?_modify, find?_modify]
  split
  · exact rel_map (h.find? j) hf
  · exact h.find? j

theorem erase (h : t.Twin R u) (i : Nat) : (t.erase i).Twin R (u.erase i) := by
  refine ⟨h.next, fun j => ?_⟩
  rw [find?_erase, find?_erase]
  split
  · exact .none
  · exact h.find? j

end Table.Twin

/-! ## Shares -/

/-- The same shares in the same order, up to the identities of names. -/
def Owned.Twins (g : Namings) : List Owned → List Owned → Prop := List.Forall₂ (Owned.Twin g)

namespace Owned

variable {os os' ps ps' : List Owned}

theorem Twins.append (h : Twins g os os') (h' : Twins g ps ps') :
    Twins g (os ++ ps) (os' ++ ps') := List.rel_append h h'

theorem twins_self (h : ∀ o ∈ os, o.plain?.isSome) : Twins g os os := by
  refine List.forall₂_same.2 fun o ho => ?_
  have hplain := h o ho
  cases o with
  | held p => cases hplain
  | cell c => exact .cell c
  | weakCell c => exact .weakCell c
  | name n => exact .name n n
  | payload p => exact .payload p
  | weakPayload p => exact .weakPayload p

theorem twins_value (v : Value) : Twins g v.owned v.owned := by
  refine twins_self fun o ho => ?_
  cases v with
  | ref c | weak c => rw [List.mem_singleton.1 ho]; rfl
  | _ => cases ho

theorem twins_values (vs : List Value) : Twins g (ownedByAll vs) (ownedByAll vs) := by
  induction vs with
  | nil => exact .nil
  | cons v rest ih => exact (twins_value v).append ih

theorem twins_cell? (c : Option CellId) : Twins g (ownedByCell? c) (ownedByCell? c) := by
  cases c with
  | none => exact .nil
  | some c => exact .cons (.cell c) .nil

theorem twins_record (r : Record) : Twins g r.owned r.owned :=
  .cons (.payload r.payload) (.cons (.weakCell r.governor) .nil)

theorem twins_record? (r : Option Record) : Twins g (ownedByRecord? r) (ownedByRecord? r) := by
  cases r with
  | none => exact .nil
  | some r => exact twins_record r

theorem twins_behavior (b : Behavior) : Twins g b.owned b.owned := by
  cases b with
  | reply vs => exact twins_values vs
  | _ => exact .nil

theorem twins_behaviors (bs : Behaviors) :
    Twins g (bs.flatMap fun b => b.2.owned) (bs.flatMap fun b => b.2.owned) := by
  induction bs with
  | nil => exact .nil
  | cons b rest ih => exact (twins_behavior b.2).append ih

theorem twins_object (o : Object) : Twins g o.owned o.owned := by
  cases o with
  | attributeMeta bs | instanceMeta _ bs => exact twins_behaviors bs
  | classMeta _ _ attrs => exact twins_values attrs
  | plain _ _ => exact .nil

end Owned

open Owned (Twins)

theorem Owned.twins_key (k l : Key) : Twins g k.owned l.owned :=
  .cons (.name k.name.id l.name.id) .nil

theorem Owned.twins_key? {k l : Option Key} {R : Key → Key → Prop} (h : Option.Rel R k l) :
    Twins g (ownedByKey? k) (ownedByKey? l) := by
  cases h with
  | some _ => exact twins_key _ _
  | none => exact .nil

theorem DefaultStrategy.twins_owned (d : DefaultStrategy) : Twins g d.owned d.owned := by
  cases d with
  | value v => exact Owned.twins_value v
  | _ => exact .nil

theorem Descriptor.Twin.owned {d e : Descriptor} (h : d.Twin g e) : Twins g d.owned e.owned := by
  have hdefault : Twins g d.default.owned e.default.owned := h.default ▸ d.default.twins_owned
  have hcell : Twins g (ownedByCell? d.initializer) (ownedByCell? e.initializer) :=
    h.initializer ▸ Owned.twins_cell? d.initializer
  have horigin : Twins g [.weakCell d.origin] [.weakCell e.origin] :=
    h.origin ▸ .cons (.weakCell d.origin) .nil
  have hkeys : Twins g (d.slot.owned ++ ownedByKey? d.initArg)
      (e.slot.owned ++ ownedByKey? e.initArg) :=
    (Owned.twins_key d.slot e.slot).append (Owned.twins_key? h.initArg)
  exact ((hkeys.append hdefault).append hcell).append horigin

theorem Payload.Twin.owned {p q : Payload} (h : p.Twin g q) : Twins g p.owned q.owned := by
  cases h with
  | tag _ => exact .nil
  | descriptor h => exact h.owned
  | shadow h =>
    refine .cons (h.cls ▸ .cell _) ?_
    exact List.rel_map (fun _ _ h => .held (.descriptor h)) h.descriptors

theorem Entries.Twin.owned {es fs : List (Key × Value)} (h : Entries.Twin g es fs) :
    Twins g (Referent.hash es).owned (Referent.hash fs).owned := by
  induction h with
  | nil => exact .nil
  | @cons e f es fs hef _ ih =>
    have hvalue : Twins g e.2.owned f.2.owned := hef.2 ▸ Owned.twins_value e.2
    exact ((Owned.twins_key e.1 f.1).append hvalue).append ih

theorem Cell.Twin.owned {c d : Cell} (h : c.Twin g d) : Twins g c.owned d.owned := by
  have hrecord : Twins g (ownedByRecord? c.extension) (ownedByRecord? d.extension) :=
    h.extension ▸ Owned.twins_record? c.extension
  refine Owned.Twins.append ?_ hrecord
  obtain ⟨r, x⟩ := c
  obtain ⟨q, y⟩ := d
  cases h.referent with
  | scalar v => exact Owned.twins_value v
  | array vs => exact Owned.twins_values vs
  | hash hes => exact hes.owned
  | code _ => exact .nil
  | object o => exact Owned.twins_object o

theorem Script.Binding.Twin.owned {b c : Script.Binding} (h : b.Twin g c) :
    Twins g b.owned c.owned := by
  cases h with
  | value v => exact Owned.twins_value v
  | key _ => exact Owned.twins_key _ _
  | descriptor p | shadow p => exact .cons (.payload p) .nil
  | weakHandle p => exact .cons (.weakPayload p) .nil
  | record r => exact Owned.twins_record r

theorem Error.twins_owned (e : Error) : Twins g e.owned e.owned := by
  cases e with
  | host e => exact Owned.twins_value e.thrown
  | _ => exact .nil

/-! ## Changes of stores -/

namespace Store.Twin

variable {s t : Store} (h : s.Twin g t)

include h

theorem modifyCell (c : CellId) {f f' : Counted Cell → Counted Cell}
    (hf : ∀ a b, Counted.Twin (Cell.Twin g) a b → Counted.Twin (Cell.Twin g) (f a) (f' b)) :
    Twin g { s with cells := s.cells.modify c f } { t with cells := t.cells.modify c f' } :=
  { h with cells := h.cells.modify c hf }

theorem modifyPayload (p : PayloadId) {f f' : Counted Payload → Counted Payload}
    (hf : ∀ a b, Counted.Twin (Payload.Twin g) a b → Counted.Twin (Payload.Twin g) (f a) (f' b)) :
    Twin g { s with payloads := s.payloads.modify p f }
      { t with payloads := t.payloads.modify p f' } :=
  { h with payloads := h.payloads.modify p hf }

theorem record (e : Event) : Twin g (s.record e) (t.record e) :=
  have hjournal :
      (e :: s.journal).filter Event.lasting = (e :: t.journal).filter Event.lasting := by
    rw [List.filter_cons, List.filter_cons, h.journal]
  { h with journal := hjournal }

/-- Notes make no difference, whatever they say. -/
theorem note (n m : Note) : Twin g (s.note n) (t.note m) := { h with journal := h.journal }

theorem newCell {r q : Referent} (hr : r.Twin g q) :
    (s.newCell r).1 = (t.newCell q).1 ∧ Twin g (s.newCell r).2 (t.newCell q).2 :=
  ⟨h.cells.next, { h with cells := h.cells.insert ⟨⟨hr, rfl⟩, rfl, rfl⟩ }⟩

theorem newPayload {p q : Payload} (hp : p.Twin g q) :
    (s.newPayload p).1 = (t.newPayload q).1 ∧ Twin g (s.newPayload p).2 (t.newPayload q).2 :=
  ⟨h.payloads.next, { h with payloads := h.payloads.insert ⟨hp, rfl, rfl⟩ }⟩

theorem setReferent (c : CellId) {r q : Referent} (hr : r.Twin g q) :
    Twin g (s.setReferent c r) (t.setReferent c q) :=
  h.modifyCell c fun _ _ hab => { hab with content := ⟨hr, hab.content.extension⟩ }

theorem setExtension (c : CellId) (r : Option Record) :
    Twin g (s.setExtension c r) (t.setExtension c r) :=
  h.modifyCell c fun _ _ hab => { hab with content := ⟨hab.content.referent, rfl⟩ }

theorem setPayload (p : PayloadId) {a b : Payload} (hab : a.Twin g b) :
    Twin g (s.setPayload p a) (t.setPayload p b) :=
  h.modifyPayload p fun _ _ h => { h with content := hab }

theorem takePayload (p : PayloadId) : Twin g (s.takePayload p) (t.takePayload p) :=
  { h with payloads := h.payloads.erase p }

theorem retainOne {o o' : Owned} (ho : o.Twin g o') : Twin g (s.retainOne o) (t.retainOne o') := by
  cases ho with
  | cell c => exact h.modifyCell c fun _ _ hab => { hab with strong := congrArg (· + 1) hab.strong }
  | weakCell c => exact h.modifyCell c fun _ _ hab => { hab with weak := congrArg (· + 1) hab.weak }
  | name m n => exact { h with left := h.left, right := h.right }
  | payload p =>
    exact h.modifyPayload p fun _ _ hab => { hab with strong := congrArg (· + 1) hab.strong }
  | weakPayload p =>
    exact h.modifyPayload p fun _ _ hab => { hab with weak := congrArg (· + 1) hab.weak }
  | held _ => exact h

theorem retain {os os' : List Owned} (ho : Twins g os os') :
    Twin g (s.retain os) (t.retain os') := by
  induction ho generalizing s t with
  | nil => exact h
  | cons ho _ ih => exact ih (h.retainOne ho)

/-- What a share held is given back in both stores. -/
theorem releaseOne {o o' : Owned} (ho : o.Twin g o') :
    Twins g (s.releaseOne o).1 (t.releaseOne o').1 ∧
      Twin g (s.releaseOne o).2 (t.releaseOne o').2 := by
  cases ho with
  | cell c =>
    simp only [Store.releaseOne]
    rcases rel_cases (h.cells.find? c) with ⟨hs, ht⟩ | ⟨e, f, hs, ht, hef⟩
    · rw [hs, ht]
      exact ⟨.nil, h⟩
    · simp only [hs, ht, hef.strong]
      split
      · exact ⟨hef.content.owned, { h with cells := h.cells.erase c }⟩
      · exact ⟨.nil, h.modifyCell c fun _ _ hab =>
          { hab with strong := congrArg (· - 1) hab.strong }⟩
  | weakCell c =>
    exact ⟨.nil, h.modifyCell c fun _ _ hab => { hab with weak := congrArg (· - 1) hab.weak }⟩
  | name m n =>
    have hname (s : Store) (n : NameId) : (s.releaseOne (.name n)).1 = [] ∧
        (s.releaseOne (.name n)).2.cells = s.cells ∧
        (s.releaseOne (.name n)).2.payloads = s.payloads ∧
        (s.releaseOne (.name n)).2.journal = s.journal := by
      simp only [Store.releaseOne]
      split
      · exact ⟨rfl, rfl, rfl, rfl⟩
      · split <;> exact ⟨rfl, rfl, rfl, rfl⟩
    obtain ⟨hs, hsc, hsp, hsj⟩ := hname s m
    obtain ⟨ht, htc, htp, htj⟩ := hname t n
    refine ⟨by rw [hs, ht]; exact .nil, ?_, ?_, ?_, ?_, ?_⟩
    · exact h.left.trans (s.names_next_releaseOne _).symm
    · exact h.right.trans (t.names_next_releaseOne _).symm
    · exact hsc ▸ htc ▸ h.cells
    · exact hsp ▸ htp ▸ h.payloads
    · exact hsj ▸ htj ▸ h.journal
  | payload p =>
    simp only [Store.releaseOne]
    rcases rel_cases (h.payloads.find? p) with ⟨hs, ht⟩ | ⟨e, f, hs, ht, hef⟩
    · rw [hs, ht]
      exact ⟨.nil, h⟩
    · simp only [hs, ht, hef.strong]
      split
      · exact ⟨.cons (.held hef.content) .nil, { h with payloads := h.payloads.erase p }⟩
      · exact ⟨.nil, h.modifyPayload p fun _ _ hab =>
          { hab with strong := congrArg (· - 1) hab.strong }⟩
  | weakPayload p =>
    exact ⟨.nil, h.modifyPayload p fun _ _ hab => { hab with weak := congrArg (· - 1) hab.weak }⟩
  | held hp =>
    refine ⟨hp.owned, ?_⟩
    cases hp with
    | tag name => exact h.record (.dropped name)
    | descriptor _ | shadow _ => exact h.note _ _

omit h in
theorem release (h : s.Twin g t) {os os' : List Owned} (ho : Twins g os os') :
    Twin g (s.release os) (t.release os') := by
  induction s, os using Store.release.induct generalizing t os' with
  | case1 s =>
    cases ho
    rw [release_nil, release_nil]
    exact h
  | case2 s o rest _ ih =>
    cases ho with
    | cons ho hrest =>
      obtain ⟨howned, hstore⟩ := h.releaseOne ho
      rw [release_cons, release_cons]
      exact ih hstore (howned.append hrest)

/-! ## What is read from stores -/

theorem alive_eq (c : CellId) : s.alive c = t.alive c := h.cells.contains_eq c

theorem cell? (c : CellId) : Option.Rel (Cell.Twin g) (s.cell? c) (t.cell? c) :=
  rel_map (h.cells.find? c) fun _ _ h => h.content

theorem referent? (c : CellId) : Option.Rel (Referent.Twin g) (s.referent? c) (t.referent? c) :=
  rel_map (h.cell? c) fun _ _ h => h.referent

theorem payload? (p : PayloadId) : Option.Rel (Payload.Twin g) (s.payload? p) (t.payload? p) :=
  rel_map (h.payloads.find? p) fun _ _ h => h.content

theorem strongCount_eq (c : CellId) : s.strongCount c = t.strongCount c :=
  congrArg (Option.getD · 0) (map_eq_of_rel (h.cells.find? c) fun _ _ h => h.strong)

theorem weakCount_eq (c : CellId) : s.weakCount c = t.weakCount c :=
  congrArg (Option.getD · 0) (map_eq_of_rel (h.cells.find? c) fun _ _ h => h.weak)

theorem payloadCount_eq (p : PayloadId) : s.payloadCount p = t.payloadCount p :=
  congrArg (Option.getD · 0) (map_eq_of_rel (h.payloads.find? p) fun _ _ h => h.strong)

theorem weakPayloadCount_eq (p : PayloadId) : s.weakPayloadCount p = t.weakPayloadCount p :=
  congrArg (Option.getD · 0) (map_eq_of_rel (h.payloads.find? p) fun _ _ h => h.weak)

theorem extension?_eq (c : CellId) : s.extension? c = t.extension? c :=
  bind_eq_of_rel (h.cell? c) fun _ _ h => h.extension

theorem code?_eq (v : Value) : s.code? v = t.code? v := by
  cases v with
  | ref c => exact bind_eq_of_rel (h.referent? c) fun _ _ hrq => by cases hrq <;> rfl
  | _ => rfl

theorem object?_eq (v : Value) : s.object? v = t.object? v := by
  cases v with
  | ref c => exact bind_eq_of_rel (h.referent? c) fun _ _ hrq => by cases hrq <;> rfl
  | _ => rfl

theorem hash? (v : Value) :
    Option.Rel (fun a b => a.1 = b.1 ∧ Entries.Twin g a.2 b.2) (s.hash? v) (t.hash? v) := by
  cases v with
  | ref c =>
    simp only [Store.hash?, Value.strong?, Option.bind_eq_bind, Option.bind_some]
    rcases rel_cases (h.referent? c) with ⟨hs, ht⟩ | ⟨r, q, hs, ht, hrq⟩
    · rw [hs, ht]
      exact .none
    · rw [hs, ht]
      cases hrq with
      | hash hes => exact .some ⟨rfl, hes⟩
      | _ => exact .none
  | _ => exact .none

theorem cellText_eq (c : CellId) : s.cellText c = t.cellText c := by
  rw [cellText, cellText]
  rcases rel_cases (h.referent? c) with ⟨hs, ht⟩ | ⟨r, q, hs, ht, hrq⟩
  · rw [hs, ht]
  · rw [hs, ht]
    cases hrq <;> rfl

theorem weakText_eq (c : CellId) : s.weakText c = t.weakText c :=
  congrArg ("weak " ++ ·) (h.cellText_eq c)

theorem valueText_eq (v : Value) : s.valueText v = t.valueText v := by
  cases v with
  | ref c => rw [valueText, valueText, h.cellText_eq]
  | weak c => rw [valueText, valueText, h.weakText_eq]
  | _ => rfl

theorem isDefined_eq (v : Value) : s.isDefined v = t.isDefined v := by
  cases v with
  | weak c => exact h.alive_eq c
  | _ => rfl

theorem isTrue_eq (v : Value) : s.isTrue v = t.isTrue v := by
  cases v with
  | weak c => exact h.alive_eq c
  | _ => rfl

theorem upgrade (v : Value) :
    (s.upgrade v).1 = (t.upgrade v).1 ∧ Twin g (s.upgrade v).2 (t.upgrade v).2 := by
  cases v with
  | weak c =>
    simp only [Store.upgrade, h.alive_eq]
    split
    · exact ⟨rfl, (h.retain (.cons (.cell c) .nil)).release (.cons (.weakCell c) .nil)⟩
    · exact ⟨rfl, h⟩
  | _ => exact ⟨rfl, h⟩

end Store.Twin

end MetaCache
