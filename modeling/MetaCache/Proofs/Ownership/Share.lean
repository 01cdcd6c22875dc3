import Mathlib.Algebra.Group.Pi.Basic
import Mathlib.Algebra.GroupWithZero.Nat
import MetaCache.Store.Basic
/-!
# Shares, counted

Who holds what is counted per entry of the store: a `Holding` says how many shares of each entry
someone has. The store covers a holding if every entry has at least as many owners as it has shares
in what the store itself holds and in the holding together. What is covered cannot be gone.

* `Share`, `Holding`, `holding`: shares, and the shares in a list of owned things.
* `Store.held`, `Store.Covers`: what the store holds, and that its counts are high enough.
* `Store.Covers.alive`, `Store.Covers.payload_isSome`: what is held is still there.
-/

namespace MetaCache

/-- A share in one entry of the store. -/
inductive Share where
  | cell (c : CellId)
  | weakCell (c : CellId)
  | name (n : NameId)
  | payload (p : PayloadId)
  | weakPayload (p : PayloadId)
deriving DecidableEq

/-- Whether the share keeps its entry alive. -/
def Share.isStrong : Share → Bool
  | cell _ | name _ | payload _ => true
  | weakCell _ | weakPayload _ => false

/-- How many shares of each entry someone holds. -/
abbrev Holding := Share → Nat

/-- The share that is no structure held in place. -/
def Owned.plain? : Owned → Option Share
  | cell c => some (.cell c)
  | weakCell c => some (.weakCell c)
  | name n => some (.name n)
  | payload p => some (.payload p)
  | weakPayload p => some (.weakPayload p)
  | held _ => none

/-- The shares a descriptor holds. -/
def Descriptor.units (d : Descriptor) : List Share :=
  d.owned.filterMap Owned.plain?

/-- The shares in one owned thing, those inside a structure held in place included. -/
def Owned.units : Owned → List Share
  | held (.tag _) => []
  | held (.descriptor d) => d.units
  | held (.shadow s) => .cell s.cls :: s.descriptors.flatMap Descriptor.units
  | o => o.plain?.toList

/-- The shares in a list of owned things. -/
def holding (os : List Owned) : Holding :=
  fun x => (os.flatMap Owned.units).count x

@[simp] theorem holding_nil : holding [] = 0 := rfl

@[simp] theorem holding_append (xs ys : List Owned) :
    holding (xs ++ ys) = holding xs + holding ys := by
  funext x
  simp [holding]

theorem holding_cons (o : Owned) (os : List Owned) :
    holding (o :: os) = holding [o] + holding os :=
  holding_append [o] os

theorem ownedByAll_cons (v : Value) (vs : List Value) :
    ownedByAll (v :: vs) = v.owned ++ ownedByAll vs :=
  List.flatMap_cons

theorem ownedByAll_singleton (v : Value) : ownedByAll [v] = v.owned := by
  rw [ownedByAll_cons]
  exact List.append_nil _

theorem Owned.units_of_plain? {o : Owned} {x : Share} (h : o.plain? = some x) : o.units = [x] := by
  cases o with
  | held p => cases h
  | _ => simp only [plain?, Option.some.injEq] at h; subst h; rfl

theorem holding_plain {o : Owned} {x : Share} (h : o.plain? = some x) (y : Share) :
    holding [o] y = if y = x then 1 else 0 := by
  simp only [holding, List.flatMap_cons, List.flatMap_nil, List.append_nil,
    Owned.units_of_plain? h, List.count_singleton, beq_iff_eq]
  simp only [eq_comm]

theorem holding_pos {o : Owned} {x : Share} {os : List Owned} (hx : o.plain? = some x)
    (ho : o ∈ os) : 0 < holding os x := by
  refine List.count_pos_iff.2 (List.mem_flatMap.2 ⟨o, ho, ?_⟩)
  rw [Owned.units_of_plain? hx]
  exact List.mem_singleton.2 rfl

/-- A descriptor holds nothing in place. -/
theorem Descriptor.plain?_isSome (d : Descriptor) : ∀ o ∈ d.owned, o.plain?.isSome := by
  have hd : ∀ s : DefaultStrategy, ∀ o ∈ s.owned, o.plain?.isSome := by
    intro s o ho
    cases s with
    | value v => cases v <;> simp_all [DefaultStrategy.owned, Value.owned, Owned.plain?]
    | _ => simp [DefaultStrategy.owned] at ho
  have hk : ∀ k : Option Key, ∀ o ∈ ownedByKey? k, o.plain?.isSome := by
    intro k o ho
    cases k <;> simp_all [ownedByKey?, Key.owned, Owned.plain?]
  have hc : ∀ c : Option CellId, ∀ o ∈ ownedByCell? c, o.plain?.isSome := by
    intro c o ho
    cases c <;> simp_all [ownedByCell?, Owned.plain?]
  intro o ho
  simp only [Descriptor.owned, List.mem_append, Key.owned, List.mem_singleton] at ho
  rcases ho with (((rfl | ho) | ho) | ho) | rfl
  · rfl
  · exact hk _ o ho
  · exact hd _ o ho
  · exact hc _ o ho
  · rfl

theorem flatMap_units_of_plain {os : List Owned} (h : ∀ o ∈ os, o.plain?.isSome) :
    os.flatMap Owned.units = os.filterMap Owned.plain? := by
  induction os with
  | nil => rfl
  | cons o rest ih =>
    obtain ⟨x, hx⟩ := Option.isSome_iff_exists.1 (h o List.mem_cons_self)
    rw [List.flatMap_cons, List.filterMap_cons_some hx, Owned.units_of_plain? hx,
      ih fun o ho => h o (List.mem_cons_of_mem _ ho), List.singleton_append]

theorem Descriptor.flatMap_units_owned (d : Descriptor) : d.owned.flatMap Owned.units = d.units :=
  flatMap_units_of_plain d.plain?_isSome

/-- A structure held in place holds what it owns. -/
theorem holding_held (p : Payload) : holding [.held p] = holding p.owned := by
  cases p with
  | tag _ => rfl
  | descriptor d =>
    funext x
    simp [holding, Payload.owned, Owned.units, Descriptor.flatMap_units_owned]
  | shadow s =>
    funext x
    simp [holding, Payload.owned, Owned.units, Owned.plain?, List.flatMap_map]

/-- A longer shadow holds what the new descriptor owns in addition. -/
theorem holding_append_descriptor (s : Shadow) (d : Descriptor) :
    holding [.held (.shadow (s.append d))] =
      holding [.held (.shadow s)] + holding d.owned := by
  funext x
  simp only [holding, List.flatMap_cons, List.flatMap_nil, List.append_nil, Owned.units,
    Shadow.append, List.flatMap_append, Pi.add_apply, Descriptor.flatMap_units_owned,
    List.count_append, List.count_cons]
  omega

/-- A descriptor goes from the hand into the shadow, and what it was compiled from is left over. -/
theorem holding_handOn (s : Shadow) (d : Descriptor) (as bs : List Owned) :
    holding d.owned + holding (as ++ bs ++ [.held (.shadow s)]) =
      holding as + (holding bs + holding [.held (.shadow (s.append d))]) := by
  funext x
  simp only [holding_append_descriptor, holding_append, Pi.add_apply]
  omega

namespace Store

/-- What the cells and the payloads of the store hold. -/
def held (s : Store) : Holding := fun x =>
  s.cells.total (fun e => holding e.content.owned x) +
    s.payloads.total fun e => holding e.content.owned x

/-- The number of owners of an entry, by the kind of share. -/
def count (s : Store) : Share → Nat
  | .cell c => s.strongCount c
  | .weakCell c => s.weakCount c
  | .name n => s.nameCount n
  | .payload p => s.payloadCount p
  | .weakPayload p => s.weakPayloadCount p

/-- Every entry has an owner counted for each strong share that the store or the holding has. -/
def Covers (s : Store) (f : Holding) : Prop :=
  ∀ x, x.isStrong → s.held x + f x ≤ s.count x

variable {s s' : Store} {f g : Holding}

theorem Covers.mono (h : s.Covers f) (hle : ∀ x, g x ≤ f x) : s.Covers g := fun x hx =>
  Nat.le_trans (Nat.add_le_add_left (hle x) _) (h x hx)

theorem Covers.of_add (h : s.Covers (f + g)) : s.Covers g :=
  h.mono fun x => Nat.le_add_left (g x) (f x)

theorem alive_of_strongCount_pos {c : CellId} (h : 0 < s.strongCount c) : s.alive c := by
  unfold strongCount at h
  unfold alive Table.contains
  cases hf : s.cells.find? c with
  | none => rw [hf] at h; cases h
  | some _ => rfl

theorem payload?_isSome_of_payloadCount_pos {p : PayloadId} (h : 0 < s.payloadCount p) :
    (s.payload? p).isSome := by
  unfold payloadCount at h
  unfold payload?
  cases hf : s.payloads.find? p with
  | none => rw [hf] at h; cases h
  | some _ => rfl

/-- A cell of which someone holds a strong share is there. -/
theorem Covers.alive (h : s.Covers f) {c : CellId} (hc : 0 < s.held (.cell c) + f (.cell c)) :
    s.alive c :=
  alive_of_strongCount_pos (Nat.lt_of_lt_of_le hc (h (.cell c) rfl))

/-- The store holds what one of its cells holds. -/
theorem holding_owned_le_held {c : CellId} {x : Cell} (h : s.cell? c = some x) (y : Share) :
    holding x.owned y ≤ s.held y := by
  obtain ⟨e, he, rfl⟩ := Option.map_eq_some_iff.1 h
  have := Table.total_erase_add (fun e => holding e.content.owned y) he
  simp only [held]
  omega

/-- The store holds what one of its payloads holds. -/
theorem holding_payload_le_held {p : PayloadId} {x : Payload} (h : s.payload? p = some x)
    (y : Share) : holding x.owned y ≤ s.held y := by
  obtain ⟨e, he, rfl⟩ := Option.map_eq_some_iff.1 h
  have := Table.total_erase_add (fun e => holding e.content.owned y) he
  simp only [held]
  omega

/-- The payload in an extension slot is there. -/
theorem Covers.payload_isSome (h : s.Covers f) {c : CellId} {r : Record}
    (hr : s.extension? c = some r) : (s.payload? r.payload).isSome := by
  obtain ⟨x, hx, hxr⟩ := Option.bind_eq_some_iff.1 hr
  refine payload?_isSome_of_payloadCount_pos (Nat.lt_of_lt_of_le ?_ (h (.payload r.payload) rfl))
  refine Nat.add_pos_left (Nat.lt_of_lt_of_le ?_ (holding_owned_le_held hx _)) _
  have : holding x.owned = holding x.referent.owned + holding r.owned := by
    rw [Cell.owned, hxr, holding_append]; rfl
  rw [this, Pi.add_apply, Record.owned, holding_cons, Pi.add_apply, holding_plain rfl, if_pos rfl]
  omega

/-- The class of a shadow that is in the store is there. -/
theorem Covers.alive_cls (h : s.Covers f) {p : PayloadId} {d : Shadow}
    (hp : s.payload? p = some (.shadow d)) : s.alive d.cls := by
  refine h.alive (Nat.add_pos_left (Nat.lt_of_lt_of_le ?_ (holding_payload_le_held hp _)) _)
  rw [Payload.owned, holding_cons, Pi.add_apply, holding_plain rfl, if_pos rfl]
  omega

end Store

end MetaCache
