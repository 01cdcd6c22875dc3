import MetaCache.Proofs.Sharing.Stores
/-!
# Parallel stores

Where one run replaces code that its classifier recognises by the kind of container that the code
makes, the other one captures the code and calls it. Everything else comes about in both runs in the
same way. So their stores are the same but for the owners and the calls of such code, the defaults
of the descriptors that are made of it, and the notes.

* `Generators`, `Store.generators`: the code that is recognised.
* `Descriptor.Parallel`, `Payload.Parallel`, `Cell.Parallel`, `Store.Parallel`: what corresponds in
  the two runs.
* `Owned.Parallel`: shares that are given back in the two runs at the same time.
* `Store.Callee`: what is called where a value is called in the two runs.
* `Store.Parallel.alive_eq`, `Store.Parallel.valueText_eq`, …: what is read from parallel stores.
-/

namespace MetaCache

/-- The cells with code that is recognised, and the kind of container that each makes. -/
def Generators : Type := CellId → Option ContainerKind

namespace Generators

/-- Generators stay what they are, and there may come more. -/
instance : Preorder Generators where
  le G H := ∀ c k, G c = some k → H c = some k
  le_refl _ _ _ h := h
  le_trans _ _ _ h h' c k hc := h' c k (h c k hc)

/-- Each generator is among what is held, and so is each cell of which `K` holds. -/
def KeptBy (G : Generators) (K : CellId → Prop) (P : Holding) : Prop :=
  ∀ c, (G c).isSome ∨ K c → 0 < P (.cell c)

end Generators

/-- The code in the store that the classifier recognises. -/
def Store.generators (κ : Classifier) (s : Store) : Generators :=
  fun c => (s.code? (.ref c)).bind κ

/-! ## What corresponds -/

/-- The same default, or a kind of container on the one side and code that makes such containers on
the other. -/
inductive DefaultStrategy.Parallel (G : Generators) : DefaultStrategy → DefaultStrategy → Prop
  | same (d : DefaultStrategy) : Parallel G d d
  | generator {c : CellId} {k : ContainerKind} (h : G c = some k) :
    Parallel G (.container k) (.value (.ref c))

/-- Descriptors that differ in their defaults at most. -/
structure Descriptor.Parallel (G : Generators) (d e : Descriptor) : Prop where
  slot : d.slot = e.slot
  initArg : d.initArg = e.initArg
  default : d.default.Parallel G e.default
  initializer : d.initializer = e.initializer
  origin : d.origin = e.origin

structure Shadow.Parallel (G : Generators) (s t : Shadow) : Prop where
  cls : s.cls = t.cls
  className : s.className = t.className
  layout : s.layout = t.layout
  generation : s.generation = t.generation
  descriptors : List.Forall₂ (Descriptor.Parallel G) s.descriptors t.descriptors

inductive Payload.Parallel (G : Generators) : Payload → Payload → Prop
  | tag (name : String) : Parallel G (.tag name) (.tag name)
  | descriptor {d e : Descriptor} (h : d.Parallel G e) : Parallel G (.descriptor d) (.descriptor e)
  | shadow {s t : Shadow} (h : s.Parallel G t) : Parallel G (.shadow s) (.shadow t)

/-- The same cell, or code that makes containers of one kind, however often it is owned and was
called. -/
inductive Cell.Parallel (κ : Classifier) : Counted Cell → Counted Cell → Prop
  | same (e : Counted Cell) : Parallel κ e e
  | generator {a b : Code} {k : ContainerKind} (ha : κ a = some k) (hb : κ b = some k)
    (hname : a.name = b.name) (hroutine : a.routine = b.routine) (x : Option Record)
    (m n weak : Nat) : Parallel κ ⟨⟨.code a, x⟩, m, weak⟩ ⟨⟨.code b, x⟩, n, weak⟩

/-- Stores that are the same but for `G`, which is the recognised code of both, and for notes. -/
structure Store.Parallel (κ : Classifier) (G : Generators) (s t : Store) : Prop where
  generators : s.generators κ = G
  cells : s.cells.Twin (Cell.Parallel κ) t.cells
  names : s.names = t.names
  payloads : s.payloads.Twin (Counted.Twin (Payload.Parallel G)) t.payloads
  journal : s.journal.filter Event.lasting = t.journal.filter Event.lasting

/-- Shares that correspond in order. Either side may have further shares of generators. -/
inductive Owned.Parallel (G : Generators) : List Owned → List Owned → Prop
  | nil : Parallel G [] []
  | same {o : Owned} {x : Share} {os os' : List Owned} (ho : o.plain? = some x)
    (h : Parallel G os os') : Parallel G (o :: os) (o :: os')
  | held {p q : Payload} {os os' : List Owned} (hp : p.Parallel G q) (h : Parallel G os os') :
    Parallel G (.held p :: os) (.held q :: os')
  | left {c : CellId} {os os' : List Owned} (hc : (G c).isSome) (h : Parallel G os os') :
    Parallel G (.cell c :: os) os'
  | right {c : CellId} {os os' : List Owned} (hc : (G c).isSome) (h : Parallel G os os') :
    Parallel G os (.cell c :: os')

variable {κ : Classifier} {G H : Generators}

/-! ## What stays parallel -/

theorem DefaultStrategy.Parallel.mono {d e : DefaultStrategy} (h : d.Parallel G e) (hG : G ≤ H) :
    d.Parallel H e := by
  cases h with
  | same d => exact .same d
  | generator h => exact .generator (hG _ _ h)

theorem Descriptor.Parallel.mono {d e : Descriptor} (h : d.Parallel G e) (hG : G ≤ H) :
    d.Parallel H e :=
  { h with default := h.default.mono hG }

theorem Descriptor.Parallel.refl (d : Descriptor) : d.Parallel G d := ⟨rfl, rfl, .same _, rfl, rfl⟩

theorem Shadow.Parallel.mono {s t : Shadow} (h : s.Parallel G t) (hG : G ≤ H) : s.Parallel H t :=
  { h with descriptors := h.descriptors.imp fun _ _ h => h.mono hG }

theorem Shadow.Parallel.refl (s : Shadow) : s.Parallel G s :=
  ⟨rfl, rfl, rfl, rfl, List.forall₂_same.2 fun d _ => .refl d⟩

theorem Payload.Parallel.mono {p q : Payload} (h : p.Parallel G q) (hG : G ≤ H) :
    p.Parallel H q := by
  cases h with
  | tag name => exact .tag name
  | descriptor h => exact .descriptor (h.mono hG)
  | shadow h => exact .shadow (h.mono hG)

theorem Payload.Parallel.refl (p : Payload) : p.Parallel G p := by
  cases p with
  | tag name => exact .tag name
  | descriptor d => exact .descriptor (.refl d)
  | shadow s => exact .shadow (.refl s)

/-- A store is parallel to itself. -/
theorem Store.Parallel.refl (κ : Classifier) (s : Store) : s.Parallel κ (s.generators κ) s where
  generators := rfl
  cells := ⟨rfl, fun i => by
    cases s.cells.find? i with
    | none => exact .none
    | some e => exact .some (.same e)⟩
  names := rfl
  payloads := ⟨rfl, fun i => by
    cases s.payloads.find? i with
    | none => exact .none
    | some e => exact .some ⟨.refl e.content, rfl, rfl⟩⟩
  journal := rfl

/-! ## Shares -/

namespace Owned.Parallel

variable {os os' ps ps' : List Owned}

theorem append (h : Parallel G os os') (h' : Parallel G ps ps') :
    Parallel G (os ++ ps) (os' ++ ps') := by
  induction h with
  | nil => exact h'
  | same ho _ ih => exact .same ho ih
  | held hp _ ih => exact .held hp ih
  | left hc _ ih => exact .left hc ih
  | right hc _ ih => exact .right hc ih

theorem mono (h : Parallel G os os') (hG : G ≤ H) : Parallel H os os' := by
  have hsome {c : CellId} (hc : (G c).isSome) : (H c).isSome := by
    obtain ⟨k, hk⟩ := Option.isSome_iff_exists.1 hc
    rw [hG c k hk]
    rfl
  induction h with
  | nil => exact .nil
  | same ho _ ih => exact .same ho ih
  | held hp _ ih => exact .held (hp.mono hG) ih
  | left hc _ ih => exact .left (hsome hc) ih
  | right hc _ ih => exact .right (hsome hc) ih

theorem refl (os : List Owned) : Parallel G os os := by
  induction os with
  | nil => exact .nil
  | cons o rest ih =>
    cases ho : o.plain? with
    | some x => exact .same ho ih
    | none =>
      obtain ⟨p, rfl⟩ := Owned.exists_of_plain?_eq_none ho
      exact .held (.refl p) ih

end Owned.Parallel

theorem DefaultStrategy.Parallel.owned {d e : DefaultStrategy} (h : d.Parallel G e) :
    Owned.Parallel G d.owned e.owned := by
  cases h with
  | same d => exact .refl _
  | generator hc => exact .right (by rw [hc]; rfl) .nil

theorem Descriptor.Parallel.owned {d e : Descriptor} (h : d.Parallel G e) :
    Owned.Parallel G d.owned e.owned := by
  rw [Descriptor.owned, Descriptor.owned, h.slot, h.initArg, h.initializer, h.origin]
  exact (((Owned.Parallel.refl _).append h.default.owned).append (.refl _)).append (.refl _)

theorem Owned.Parallel.descriptors {ds es : List Descriptor}
    (h : List.Forall₂ (Descriptor.Parallel G) ds es) :
    Owned.Parallel G (ds.map fun d => .held (.descriptor d))
      (es.map fun d => .held (.descriptor d)) := by
  induction h with
  | nil => exact .nil
  | cons hd _ ih => exact .held (.descriptor hd) ih

theorem Payload.Parallel.owned {p q : Payload} (h : p.Parallel G q) :
    Owned.Parallel G p.owned q.owned := by
  cases h with
  | tag _ => exact .nil
  | descriptor h => exact h.owned
  | shadow h =>
    rw [Payload.owned, Payload.owned, h.cls]
    exact .same rfl (.descriptors h.descriptors)

namespace Cell.Parallel

variable {e f : Counted Cell} (h : Cell.Parallel κ e f)

include h

theorem owned : e.content.owned = f.content.owned := by
  cases h <;> rfl

theorem symm : Cell.Parallel κ f e := by
  cases h with
  | same e => exact .same e
  | generator ha hb hname hroutine x m n weak =>
    exact .generator hb ha hname.symm hroutine.symm x n m weak

/-- Recognised code may be owned by any number. -/
theorem withStrong {a : Code} {k : ContainerKind} (he : e.content.referent = .code a)
    (ha : κ a = some k) (m n : Nat) :
    Cell.Parallel κ { e with strong := m } { f with strong := n } := by
  cases h with
  | same e =>
    obtain ⟨⟨r, x⟩, _, weak⟩ := e
    cases he
    exact .generator ha ha rfl rfl x m n weak
  | generator ha hb hname hroutine x _ _ weak => exact .generator ha hb hname hroutine x m n weak

theorem withWeak (k : Nat → Nat) :
    Cell.Parallel κ { e with weak := k e.weak } { f with weak := k f.weak } := by
  cases h with
  | same e => exact .same _
  | generator ha hb hname hroutine x m n weak =>
    exact .generator ha hb hname hroutine x m n (k weak)

/-- Recognised code may have been called any number of times. -/
theorem withRuns {b : Code} {n : Nat} {k : ContainerKind} (hf : f.content.referent = .code b)
    (hb : κ b = some k) (hn : κ { b with runs := n } = some k) :
    Cell.Parallel κ e
      { f with content := { f.content with referent := .code { b with runs := n } } } := by
  cases h with
  | same e =>
    obtain ⟨⟨r, x⟩, m, weak⟩ := e
    cases hf
    exact .generator hb hn rfl rfl x m m weak
  | generator ha hb' hname hroutine x m l weak =>
    cases hf
    rw [hb'] at hb
    exact .generator (hb ▸ ha) hn hname hroutine x m l weak

/-- Cells that are not the same hold recognised code. -/
theorem eq_or : e = f ∨ ∃ a b k, e.content.referent = .code a ∧ f.content.referent = .code b ∧
    κ a = some k ∧ κ b = some k ∧ a.name = b.name := by
  cases h with
  | same e => exact .inl rfl
  | generator ha hb hname _ _ _ _ _ => exact .inr ⟨_, _, _, rfl, rfl, ha, hb, hname⟩

end Cell.Parallel

/-! ## What is read from stores -/

namespace Store

theorem code?_ref (s : Store) (c : CellId) :
    s.code? (.ref c) = (s.referent? c).bind fun
      | .code code => some code
      | _ => none := rfl

/-- Recognised code is found in its cell. -/
theorem generators_eq_some {s : Store} {c : CellId} {k : ContainerKind} :
    s.generators κ c = some k ↔ ∃ a, s.referent? c = some (.code a) ∧ κ a = some k := by
  rw [generators, Option.bind_eq_some_iff]
  refine exists_congr fun a => and_congr_left fun _ => ?_
  rw [code?_ref, Option.bind_eq_some_iff]
  constructor
  · rintro ⟨r, hr, hm⟩
    split at hm
    · cases hm
      exact hr
    · cases hm
  · exact fun hr => ⟨_, hr, rfl⟩

/-- What is no code, and code of another kind, is not recognised. -/
theorem generators_eq_none {s : Store} {c : CellId}
    (h : ∀ a, s.referent? c = some (.code a) → κ a = none) : s.generators κ c = none := by
  by_contra hsome
  obtain ⟨k, hk⟩ := Option.ne_none_iff_exists'.1 hsome
  obtain ⟨a, ha, hka⟩ := generators_eq_some.1 hk
  rw [h a ha] at hka
  cases hka

theorem generators_congr {s s' : Store} {c : CellId} (h : s'.referent? c = s.referent? c) :
    s'.generators κ c = s.generators κ c := by
  have hcode : s'.code? (.ref c) = s.code? (.ref c) := by rw [code?_ref, code?_ref, h]
  exact congrArg (Option.bind · κ) hcode

/-- What is called in two parallel stores where a value is called: recognised code, nothing, or the
same code, which is not recognised. -/
inductive Callee (κ : Classifier) (G : Generators) (s t : Store) : Value → Prop
  | recognised {c : CellId} {a b : Code} {k : ContainerKind} (hc : G c = some k)
    (ha : s.referent? c = some (.code a)) (hb : t.referent? c = some (.code b))
    (hka : κ a = some k) (hkb : κ b = some k) : Callee κ G s t (.ref c)
  | none {v : Value} (hs : s.code? v = none) (ht : t.code? v = none) : Callee κ G s t v
  | unrecognised {c : CellId} {a : Code} (hs : s.code? (.ref c) = some a)
    (ht : t.code? (.ref c) = some a) (hκ : κ a = none) : Callee κ G s t (.ref c)

namespace Parallel

variable {s t : Store} (h : s.Parallel κ G t)

include h

theorem alive_eq (c : CellId) : s.alive c = t.alive c := by
  rw [alive, alive, Table.contains, Table.contains]
  rcases rel_cases (h.cells.find? c) with ⟨hs, ht⟩ | ⟨_, _, hs, ht, -⟩ <;> rw [hs, ht]
  rfl

/-- The referents of a cell are the same, or they are recognised code. -/
theorem referent?_cases (c : CellId) : s.referent? c = t.referent? c ∨
    ∃ a b k, s.referent? c = some (.code a) ∧ t.referent? c = some (.code b) ∧ κ a = some k ∧
      κ b = some k ∧ a.name = b.name := by
  rw [referent?, referent?, cell?, cell?]
  rcases rel_cases (h.cells.find? c) with ⟨hs, ht⟩ | ⟨e, f, hs, ht, hef⟩
  · exact .inl (by rw [hs, ht])
  · rw [hs, ht]
    rcases hef.eq_or with rfl | ⟨a, b, k, he, hf, ha, hb, hname⟩
    · exact .inl rfl
    · exact .inr ⟨a, b, k, congrArg some he, congrArg some hf, ha, hb, hname⟩

/-- Outside of recognised code the referents are the same. -/
theorem referent?_eq {c : CellId} (hc : G c = none) : s.referent? c = t.referent? c := by
  rcases h.referent?_cases c with heq | ⟨a, b, k, hs, -, ha, -⟩
  · exact heq
  · rw [← h.generators, generators_eq_some.2 ⟨a, hs, ha⟩] at hc
    cases hc

/-- Both stores have the same recognised code. -/
theorem generators_right : t.generators κ = G := by
  rw [← h.generators]
  funext c
  rcases h.referent?_cases c with heq | ⟨a, b, k, hs, ht, ha, hb, -⟩
  · exact generators_congr heq.symm
  · rw [generators_eq_some.2 ⟨a, hs, ha⟩, generators_eq_some.2 ⟨b, ht, hb⟩]

/-- Outside of recognised code the code behind a reference is the same. -/
theorem code?_eq {c : CellId} (hc : G c = none) : s.code? (.ref c) = t.code? (.ref c) := by
  rw [code?_ref, code?_ref, h.referent?_eq hc]

theorem callee (v : Value) : Callee κ G s t v := by
  cases v with
  | ref c =>
    cases hc : G c with
    | some k =>
      obtain ⟨a, ha, hka⟩ := generators_eq_some.1 (h.generators ▸ hc)
      obtain ⟨b, hb, hkb⟩ := generators_eq_some.1 (h.generators_right ▸ hc)
      exact .recognised hc ha hb hka hkb
    | none =>
      have hcode := h.code?_eq hc
      cases hs : s.code? (.ref c) with
      | none => exact .none hs (hcode ▸ hs)
      | some a =>
        rw [← h.generators, Store.generators, hs] at hc
        exact .unrecognised hs (hcode ▸ hs) hc
  | _ => exact .none rfl rfl

theorem object?_eq (v : Value) : s.object? v = t.object? v := by
  cases v with
  | ref c =>
    simp only [object?, Value.strong?, Option.bind_eq_bind, Option.bind_some]
    rcases h.referent?_cases c with heq | ⟨a, b, k, hs, ht, -⟩
    · rw [heq]
    · rw [hs, ht]
      rfl
  | _ => rfl

theorem hash?_eq (v : Value) : s.hash? v = t.hash? v := by
  cases v with
  | ref c =>
    simp only [hash?, Value.strong?, Option.bind_eq_bind, Option.bind_some]
    rcases h.referent?_cases c with heq | ⟨a, b, k, hs, ht, -⟩
    · rw [heq]
    · rw [hs, ht]
      rfl
  | _ => rfl

theorem cellText_eq (c : CellId) : s.cellText c = t.cellText c := by
  rw [cellText, cellText]
  rcases h.referent?_cases c with heq | ⟨⟨name, _, _⟩, ⟨name', _, _⟩, k, hs, ht, -, -, hname⟩
  · rw [heq]
  · cases hname
    rw [hs, ht]
    cases name <;> rfl

theorem valueText_eq (v : Value) : s.valueText v = t.valueText v := by
  cases v with
  | ref c => rw [valueText, valueText, h.cellText_eq]
  | weak c => rw [valueText, valueText, weakText, weakText, h.cellText_eq]
  | _ => rfl

theorem isDefined_eq (v : Value) : s.isDefined v = t.isDefined v := by
  cases v with
  | weak c => exact h.alive_eq c
  | _ => rfl

theorem isTrue_eq (v : Value) : s.isTrue v = t.isTrue v := by
  cases v with
  | weak c => exact h.alive_eq c
  | _ => rfl

end Parallel

end Store

end MetaCache
