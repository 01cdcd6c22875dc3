import MetaCache.Proofs.History.Quiet
/-!
# What a compiled structure captures

A descriptor has a share of its default, one of its initializer, and a weak one of the attribute
metaobject it was compiled from; a shadow has those of its descriptors and one of its class. What is
captured as a default is never a weak reference, because replies are made strong first.

* `Payload.captures`, `Payload.compiledFrom`: how often a cell was captured.
* `Payload.holding_cell`, `Payload.holding_weakCell`: these are the shares that a structure has.
* `Shadow.spec_of_compileAttributes`: one descriptor for each attribute, in order.
-/

namespace MetaCache

/-! ## What a result captures -/

/-- The descriptors of a compiled structure. -/
def Payload.descriptors : Payload → List Descriptor
  | .tag _ => []
  | .descriptor d => [d]
  | .shadow s => s.descriptors

/-- Whether the structure is a shadow of the class. -/
def Payload.describes (c : CellId) : Payload → Bool
  | .shadow s => s.cls = c
  | _ => false

/-- How often the structure has captured the cell: as defaults, as initializers, and as the class
that it describes. -/
def Payload.captures (x : Payload) (c : CellId) : Nat :=
  x.descriptors.countP (·.default = .value (.ref c)) +
    x.descriptors.countP (·.initializer = some c) + if x.describes c then 1 else 0

/-- How many of the descriptors were compiled from the cell. -/
def Payload.compiledFrom (x : Payload) (c : CellId) : Nat :=
  x.descriptors.countP (·.origin = c)

theorem holding_key (k : Key) (c : CellId) :
    holding k.owned (.cell c) = 0 ∧ holding k.owned (.weakCell c) = 0 := ⟨rfl, rfl⟩

theorem holding_key? (k : Option Key) (c : CellId) :
    holding (ownedByKey? k) (.cell c) = 0 ∧ holding (ownedByKey? k) (.weakCell c) = 0 := by
  cases k <;> exact ⟨rfl, rfl⟩

/-- A descriptor has a share of its default and one of its initializer. -/
theorem Descriptor.holding_owned_cell (d : Descriptor) (c : CellId) :
    holding d.owned (.cell c) =
      (if d.default = .value (.ref c) then 1 else 0) + if d.initializer = some c then 1 else 0 := by
  have hcell : ∀ e : CellId, holding [.cell e] (.cell c) = if e = c then 1 else 0 := fun e => by
    rw [holding_plain rfl]
    simp only [Share.cell.injEq, eq_comm]
  have hdefault : holding d.default.owned (.cell c) =
      if d.default = .value (.ref c) then 1 else 0 := by
    cases d.default with
    | value v =>
      cases v with
      | ref e => simp only [DefaultStrategy.owned, Value.owned, hcell,
          DefaultStrategy.value.injEq, Value.ref.injEq]
      | _ => rfl
    | _ => rfl
  have hinit : holding (ownedByCell? d.initializer) (.cell c) =
      if d.initializer = some c then 1 else 0 := by
    cases d.initializer with
    | none => rfl
    | some e => simp only [ownedByCell?, hcell, Option.some.injEq]
  have horigin : holding [.weakCell d.origin] (.cell c) = 0 := rfl
  simp only [Descriptor.owned, holding_append, Pi.add_apply, (holding_key _ c).1,
    (holding_key? _ c).1, hdefault, hinit, horigin, zero_add, add_zero]

/-- A descriptor whose default is no weak reference has one weak share, of what it was compiled
from. -/
theorem Descriptor.holding_owned_weakCell {d : Descriptor}
    (h : ∀ e, d.default ≠ .value (.weak e)) (c : CellId) :
    holding d.owned (.weakCell c) = if d.origin = c then 1 else 0 := by
  have hdefault : holding d.default.owned (.weakCell c) = 0 := by
    cases hd : d.default with
    | value v =>
      cases v with
      | weak e => exact absurd hd (h e)
      | _ => rfl
    | _ => rfl
  have hinit : holding (ownedByCell? d.initializer) (.weakCell c) = 0 := by
    cases d.initializer <;> rfl
  have horigin : holding [.weakCell d.origin] (.weakCell c) = if d.origin = c then 1 else 0 := by
    rw [holding_plain rfl]
    simp only [Share.weakCell.injEq, eq_comm]
  simp only [Descriptor.owned, holding_append, Pi.add_apply, (holding_key _ c).2,
    (holding_key? _ c).2, hdefault, hinit, horigin, zero_add]

theorem holding_descriptors_cell (ds : List Descriptor) (c : CellId) :
    holding (ds.map fun d => .held (.descriptor d)) (.cell c) =
      ds.countP (·.default = .value (.ref c)) + ds.countP (·.initializer = some c) := by
  induction ds with
  | nil => rfl
  | cons d rest ih =>
    simp only [List.map_cons, List.countP_cons, decide_eq_true_eq]
    rw [holding_cons, Pi.add_apply, holding_held, Payload.owned, d.holding_owned_cell, ih]
    omega

theorem holding_descriptors_weakCell {ds : List Descriptor}
    (h : ∀ d ∈ ds, ∀ e, d.default ≠ .value (.weak e)) (c : CellId) :
    holding (ds.map fun d => .held (.descriptor d)) (.weakCell c) =
      ds.countP (·.origin = c) := by
  induction ds with
  | nil => rfl
  | cons d rest ih =>
    simp only [List.map_cons, List.countP_cons, decide_eq_true_eq]
    rw [holding_cons, Pi.add_apply, holding_held, Payload.owned,
      Descriptor.holding_owned_weakCell (h d List.mem_cons_self),
      ih fun d hd => h d (List.mem_cons_of_mem _ hd)]
    omega

/-- The strong shares of cells that a structure has are those of what it captured. -/
theorem Payload.holding_cell (x : Payload) (c : CellId) :
    holding [.held x] (.cell c) = x.captures c := by
  rw [holding_held]
  cases x with
  | tag name => rfl
  | descriptor d =>
    simp only [Payload.owned, d.holding_owned_cell, captures, descriptors, describes,
      List.countP_singleton, decide_eq_true_eq, Bool.false_eq_true, if_false, add_zero]
  | shadow s =>
    have hcls : holding [.cell s.cls] (.cell c) = if s.cls = c then 1 else 0 := by
      rw [holding_plain rfl]
      simp only [Share.cell.injEq, eq_comm]
    rw [Payload.owned, holding_cons, Pi.add_apply, holding_descriptors_cell, hcls, add_comm]
    simp only [captures, descriptors, describes, decide_eq_true_eq]

theorem Payload.holding_weakCell {x : Payload}
    (h : ∀ d ∈ x.descriptors, ∀ e, d.default ≠ .value (.weak e)) (c : CellId) :
    holding [.held x] (.weakCell c) = x.compiledFrom c := by
  rw [holding_held]
  cases x with
  | tag name => rfl
  | descriptor d =>
    simp only [Payload.owned, Descriptor.holding_owned_weakCell (h d List.mem_cons_self),
      compiledFrom, descriptors, List.countP_singleton, decide_eq_true_eq]
  | shadow s =>
    have hds : ∀ d ∈ s.descriptors, ∀ e, d.default ≠ .value (.weak e) := h
    have hcls : holding [.cell s.cls] (.weakCell c) = 0 := rfl
    rw [Payload.owned, holding_cons, Pi.add_apply, holding_descriptors_weakCell hds, hcls, zero_add]
    rfl

/-! ## What is captured is no weak reference -/

theorem Store.upgrade_ne_weak (s : Store) (v : Value) (c : CellId) : (s.upgrade v).1 ≠ .weak c := by
  cases v with
  | weak d =>
    rw [Store.upgrade]
    split <;> exact fun h => by cases h
  | _ => exact fun h => by cases h

variable {host : Host} {w w' : World}

theorem Descriptor.readDefault_ne_weak {attr : Value} {d : DefaultStrategy}
    (h : readDefault host attr w = .ok (.ok d, w')) (c : CellId) : d ≠ .value (.weak c) := by
  rintro rfl
  rcases readDefault_eq_ok h with ⟨v, w₁, w₂, hv, hcaptured⟩ | ⟨name, h⟩ | h
  · obtain ⟨y, w₃, -, rfl⟩ := Host.askOne_eq_ok hv
    exact w₃.store.upgrade_ne_weak y c (captureDefault_eq_ok hcaptured).1.symm
  · cases h
  · cases h

/-- A descriptor tells what it was compiled from, and captures no weak reference. -/
theorem Descriptor.spec_of_compile {attr : Value} {d : Descriptor}
    (h : compile host attr w = .ok (.ok d, w')) :
    attr = .ref d.origin ∧ ∀ c, d.default ≠ .value (.weak c) := by
  obtain ⟨horigin, _, _, _, hdefault, -⟩ := compile_eq_ok h
  exact ⟨horigin, readDefault_ne_weak hdefault⟩

theorem Shadow.spec_of_compileAttributes {s s' : Shadow} {attrs : List Value}
    (h : compileAttributes host s attrs w = .ok (.ok s', w')) :
    s'.descriptors.map (Value.ref ·.origin) = s.descriptors.map (Value.ref ·.origin) ++ attrs ∧
      ((∀ d ∈ s.descriptors, ∀ c, d.default ≠ .value (.weak c)) →
        ∀ d ∈ s'.descriptors, ∀ c, d.default ≠ .value (.weak c)) := by
  induction attrs generalizing s w with
  | nil =>
    cases h
    exact ⟨(List.append_nil _).symm, id⟩
  | cons attr rest ih =>
    obtain ⟨d, w₁, hd, h⟩ := Build.bind_eq_ok h
    obtain ⟨_, w₂, -, h⟩ := Build.bind_eq_ok h
    obtain ⟨horigin, hstrong⟩ := Descriptor.spec_of_compile (Build.guarding_eq_ok hd)
    obtain ⟨hmap, hall⟩ := ih h
    refine ⟨?_, fun hs => hall fun e he => ?_⟩
    · rw [hmap, Shadow.append, List.map_append, List.append_assoc, horigin]
      rfl
    · rcases List.mem_append.1 he with he | he
      · exact hs e he
      · rw [List.mem_singleton.1 he]
        exact hstrong

theorem Lookup.strong_of_fresh {l : Lookup} {x : Payload} (h : l.fresh host w = .ok (.ok x, w')) :
    ∀ d ∈ x.descriptors, ∀ c, d.default ≠ .value (.weak c) := by
  cases l with
  | shadow inst =>
    obtain ⟨s, w₁, hs, h⟩ := Build.bind_eq_ok h
    cases h
    obtain ⟨empty, w₂, hempty, hs⟩ := Build.bind_eq_ok hs
    obtain ⟨_, _, _, -, -, hclass⟩ := Shadow.exists_of_resolve hempty
    obtain ⟨attrs, w₃, -, hs⟩ := Build.bind_eq_ok hs
    obtain ⟨s', w₄, hattrs, hs⟩ := Build.bind_eq_ok hs
    obtain ⟨_, w₅, -, hs⟩ := Build.bind_eq_ok hs
    cases hs
    refine (Shadow.spec_of_compileAttributes hattrs).2 fun d hd => ?_
    rw [(Shadow.ofClassName_spec hclass).2] at hd
    cases hd
  | descriptor attr cls =>
    obtain ⟨d, w₁, hd, h⟩ := Build.bind_eq_ok h
    cases h
    intro e he
    rw [List.mem_singleton.1 he]
    exact (Descriptor.spec_of_compile hd).2

end MetaCache
