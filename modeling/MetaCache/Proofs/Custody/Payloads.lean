import MetaCache.Proofs.Custody.Steps
/-!
# Who has a handle on a payload

Handles are held by the extension slots of cells, by whoever has one in hand, and by whoever is
giving one back. Neither what a cell refers to nor a payload holds any. So it can be told from the
slots and the hands whether a payload is there, and in which turn it goes.

* `Estate.Handled`, `Estate.Exact.there_iff`: somebody has a handle.
* `Estate.Turn.Releases`, `Estate.Run.releases_add`: how often a payload goes in a run.
* `Estate.lastPut?`, `Estate.Run.extension?_eq`: what was put into a slot last is in it.
-/

namespace MetaCache

variable {p : PayloadId}

/-! ## Handles -/

/-- Handles are in the open: a structure held in place has none inside. -/
theorem holding_payload_pos {os : List Owned} :
    0 < holding os (.payload p) ↔ .payload p ∈ os := by
  constructor
  · intro h
    obtain ⟨o, ho, hp⟩ := List.mem_flatMap.1 (List.count_pos_iff.1 h)
    have hunits (d : Descriptor) : .payload p ∉ d.units := fun hmem => by
      obtain ⟨q, hq, hplain⟩ := List.mem_filterMap.1 hmem
      cases q <;> cases hplain
      simp only [Descriptor.owned, Key.owned, List.mem_append, List.mem_singleton] at hq
      rcases hq with (((hq | hq) | hq) | hq) | hq
      · cases hq
      · cases hk : d.initArg <;> rw [hk] at hq <;> simp [ownedByKey?, Key.owned] at hq
      · cases hv : d.default with
        | value v => rw [hv] at hq; cases v <;> simp [DefaultStrategy.owned, Value.owned] at hq
        | _ => rw [hv] at hq; cases hq
      · cases hc : d.initializer <;> rw [hc] at hq <;> simp [ownedByCell?] at hq
      · cases hq
    cases o with
    | payload q =>
      cases List.mem_singleton.1 hp
      exact ho
    | held x =>
      cases x with
      | tag _ => cases hp
      | descriptor d => exact absurd hp (hunits d)
      | shadow s =>
        rcases List.mem_cons.1 hp with hp | hp
        · cases hp
        · obtain ⟨d, -, hd⟩ := List.mem_flatMap.1 hp
          exact absurd hd (hunits d)
    | _ => cases List.mem_singleton.1 hp
  · exact fun h => holding_pos rfl h

theorem payload_notMem_values {vs : List Value} : .payload p ∉ ownedByAll vs := by
  intro h
  obtain ⟨v, -, hv⟩ := List.mem_flatMap.1 h
  cases v <;> simp [Value.owned] at hv

/-- What a cell refers to holds no handle. -/
theorem payload_notMem_referent (r : Referent) : .payload p ∉ r.owned := by
  intro h
  have hb {bs : Behaviors} : .payload p ∉ bs.flatMap fun b => b.2.owned := fun h => by
    obtain ⟨⟨m, b⟩, -, hb⟩ := List.mem_flatMap.1 h
    cases b with
    | reply vs => exact payload_notMem_values hb
    | _ => cases hb
  cases r with
  | scalar v => cases v <;> simp [Referent.owned, Value.owned] at h
  | array vs => exact payload_notMem_values h
  | hash es =>
    obtain ⟨⟨k, v⟩, -, he⟩ := List.mem_flatMap.1 h
    cases v <;> simp [Key.owned, Value.owned] at he
  | code c => cases h
  | object o =>
    cases o with
    | attributeMeta bs => exact hb h
    | instanceMeta name bs => exact hb h
    | classMeta name generation attrs => exact payload_notMem_values h
    | plain name isa => cases h

/-- A payload holds no handle. -/
theorem holding_payload_eq_zero (x : Payload) : holding x.owned (.payload p) = 0 := by
  rw [← holding_held]
  refine Nat.eq_zero_of_not_pos fun h => ?_
  cases List.mem_singleton.1 (holding_payload_pos.1 h)

/-- A cell holds a handle if its slot does. -/
theorem payload_mem_cell {y : Cell} :
    .payload p ∈ y.owned ↔ ∃ r, y.extension = some r ∧ r.payload = p := by
  rw [Cell.owned, List.mem_append, or_iff_right (payload_notMem_referent y.referent)]
  cases y.extension with
  | none => simp [ownedByRecord?]
  | some r => simp [ownedByRecord?, Record.owned, eq_comm]

namespace Table

variable {α : Type}

/-- Something weighs in a table if one of its entries does. -/
theorem total_pos_iff {weight : α → Nat} {t : Table α} :
    0 < t.total weight ↔ ∃ i a, t.find? i = some a ∧ 0 < weight a := by
  have hsum (es : List (Nat × α)) :
      0 < sumOf (fun e => weight e.2) es ↔ ∃ e ∈ es, 0 < weight e.2 := by
    induction es with
    | nil => simp
    | cons e rest ih =>
      rw [sumOf_cons, Nat.add_pos_iff_pos_or_pos, ih]
      simp
  rw [total, hsum]
  constructor
  · rintro ⟨⟨i, a⟩, hmem, hpos⟩
    exact ⟨i, a, find?_eq_some_iff.2 hmem, hpos⟩
  · rintro ⟨i, a, hfind, hpos⟩
    exact ⟨(i, a), find?_eq_some_iff.1 hfind, hpos⟩

end Table

/-- Inside of the store handles are held by extension slots alone. -/
theorem Store.held_payload_pos {s : Store} :
    0 < s.held (.payload p) ↔ ∃ c r, s.extension? c = some r ∧ r.payload = p := by
  have hnone : s.payloads.total (fun e => holding e.content.owned (.payload p)) = 0 := by
    refine Nat.eq_zero_of_not_pos fun h => ?_
    obtain ⟨_, e, -, hpos⟩ := Table.total_pos_iff.1 h
    rw [holding_payload_eq_zero] at hpos
    exact Nat.lt_irrefl 0 hpos
  have hcell (c : CellId) (r : Record) : s.extension? c = some r ↔
      ∃ e, s.cells.find? c = some e ∧ e.content.extension = some r := by
    simp only [extension?, cell?, Option.bind_eq_some_iff, Option.map_eq_some_iff]
    constructor
    · rintro ⟨_, ⟨e, he, rfl⟩, hr⟩
      exact ⟨e, he, hr⟩
    · rintro ⟨e, he, hr⟩
      exact ⟨_, ⟨e, he, rfl⟩, hr⟩
  rw [held, hnone, Nat.add_zero, Table.total_pos_iff]
  simp only [holding_payload_pos, payload_mem_cell, hcell]
  constructor
  · rintro ⟨c, e, he, r, hr, hp⟩
    exact ⟨c, r, ⟨e, he, hr⟩, hp⟩
  · rintro ⟨c, r, ⟨e, he, hr⟩, hp⟩
    exact ⟨c, e, he, r, hr, hp⟩

namespace Estate

variable {hash : String → UInt32} {e d : Estate} {ts : List Turn} {t : Turn} {a : Act}

/-- Somebody has a handle on the payload: the extension slot of a cell that is there, or whoever has
it in hand, or whoever is giving it back. -/
def Handled (e : Estate) (p : PayloadId) : Prop :=
  (∃ c r, e.store.extension? c = some r ∧ r.payload = p) ∨ 0 < e.hand (.payload p) ∨
    .payload p ∈ e.falling

theorem handled_iff : e.Handled p ↔ 0 < e.owners (.payload p) := by
  rw [Handled, ← Store.held_payload_pos, ← holding_payload_pos, owners]
  simp only [Pi.add_apply]
  omega

/-- Whether the payload is there. -/
def There (e : Estate) (p : PayloadId) : Prop := e.store.has (.payload p)

instance : Decidable (e.There p) := inferInstanceAs (Decidable (_ = true))

/-- A payload is there as long as somebody has a handle on it. -/
theorem Exact.there_iff (h : e.Exact) (p : PayloadId) : e.There p ↔ e.Handled p := by
  rw [handled_iff]
  exact h.has_iff rfl

/-! ## Releases in a run -/

/-- The payload was made between two moments. -/
def Makes (e d : Estate) (p : PayloadId) : Prop :=
  e.store.payloads.next ≤ p ∧ p < d.store.payloads.next

instance : Decidable (e.Makes d p) := inferInstanceAs (Decidable (_ ∧ _))

/-- The payload is there before the turn and gone after it. -/
def Turn.Releases (hash : String → UInt32) (p : PayloadId) (t : Turn) : Prop :=
  t.before.There p ∧ ¬ (t.after hash).There p

instance : DecidablePred (Turn.Releases hash p) := fun _ => inferInstanceAs (Decidable (_ ∧ _))

theorem lt_next_of_there (h : e.There p) : p < e.store.payloads.next :=
  Store.oldIn_of_has (x := .payload p) h

theorem payloads_next_le (hash : String → UInt32) (e : Estate) (a : Act) :
    e.store.payloads.next ≤ (e.after hash a).store.payloads.next := by
  by_contra hlt
  exact Nat.lt_irrefl _ ((Estate.ages hash e a).old (.payload _) (Nat.lt_of_not_le hlt))

/-- What a turn makes is there after it. -/
theorem there_of_makes (h : e.Makes (e.after hash a) p) : (e.after hash a).There p := by
  obtain ⟨hle, hlt⟩ := h
  -- where no payload is made nothing is to be shown
  have none_made (hn : (e.after hash a).store.payloads.next = e.store.payloads.next) :
      (e.after hash a).There p :=
    absurd (hn ▸ hlt) (Nat.not_lt_of_le hle)
  cases a with
  | share os | shareKey k => exact none_made (e.store.sheds_retain _).payloads_next
  | fall =>
    refine none_made ?_
    rw [after]
    split
    · rfl
    · exact (e.store.sheds_releaseOne _).payloads_next
  | newPayload x =>
    have hpx : p = e.store.payloads.next := Nat.le_antisymm (Nat.le_of_lt_succ hlt) hle
    rw [hpx]
    exact congrArg Option.isSome (Table.find?_insert_self e.store.payloads _)
  | intern name =>
    exact none_made (KeyTable.sheds_intern hash name e.table e.store).payloads_next
  | _ => exact none_made rfl

/-- What goes in a turn was there before; what is there afterwards was there before or was made. -/
theorem Turn.releases_add (hash : String → UInt32) (p : PayloadId) (t : Turn) :
    (if t.Releases hash p then 1 else 0) + (if (t.after hash).There p then 1 else 0) =
      (if t.before.There p then 1 else 0) + if t.before.Makes (t.after hash) p then 1 else 0 := by
  have hstays : (t.after hash).There p → p < t.before.store.payloads.next → t.before.There p :=
    fun ha hp => (Estate.ages hash t.before t.act).has (.payload p) hp ha
  have hmade : t.before.Makes (t.after hash) p → (t.after hash).There p := there_of_makes
  by_cases hb : t.before.There p
  · have hno : ¬ t.before.Makes (t.after hash) p := fun h =>
      Nat.not_lt_of_le h.1 (lt_next_of_there hb)
    by_cases ha : (t.after hash).There p <;> simp [Turn.Releases, ha, hb, hno]
  · have hiff : t.before.Makes (t.after hash) p ↔ (t.after hash).There p :=
      ⟨hmade, fun ha => ⟨Nat.le_of_not_lt fun hp => hb (hstays ha hp), lt_next_of_there ha⟩⟩
    simp [Turn.Releases, hb, hiff]

/-- In a run a payload goes as often as it was there or was made, and is not there any more. -/
theorem Run.releases_add (hr : e.Run hash ts d) (p : PayloadId) :
    ts.countP (Turn.Releases hash p) + (if d.There p then 1 else 0) =
      (if e.There p then 1 else 0) + if e.Makes d p then 1 else 0 := by
  induction hr with
  | refl =>
    have hno : ¬ e.Makes e p := fun h => Nat.not_lt_of_le h.1 h.2
    simp [hno]
  | @snoc ts d a hr ha ih =>
    have hstep := Turn.releases_add hash p ⟨d, a⟩
    have h1 : e.store.payloads.next ≤ d.store.payloads.next := by
      by_contra hlt
      exact Nat.lt_irrefl _ (hr.ages.old (.payload _) (Nat.lt_of_not_le hlt))
    have h2 := payloads_next_le hash d a
    have hmade : (if e.Makes (d.after hash a) p then 1 else 0) =
        (if e.Makes d p then 1 else 0) + if d.Makes (d.after hash a) p then 1 else 0 := by
      by_cases hp : p < d.store.payloads.next
      · have hold : e.Makes (d.after hash a) p ↔ e.Makes d p :=
          and_congr_right fun _ => iff_of_true (Nat.lt_of_lt_of_le hp h2) hp
        have hno : ¬ d.Makes (d.after hash a) p := fun h => Nat.not_lt_of_le h.1 hp
        simp [hold, hno]
      · have hle := Nat.le_of_not_lt hp
        have hnew : e.Makes (d.after hash a) p ↔ d.Makes (d.after hash a) p :=
          and_congr_left fun _ => iff_of_true (Nat.le_trans h1 hle) hle
        have hno : ¬ e.Makes d p := fun h => hp h.2
        simp [hnew, hno]
    rw [List.countP_append, List.countP_singleton, hmade]
    simp only [decide_eq_true_eq]
    change _ + ite ((d.after hash a).There p) _ _ =
      ite (d.There p) _ _ + ite (d.Makes (d.after hash a) p) _ _ at hstep
    omega

/-! ## Extension slots -/

/-- What an act puts into the extension slot of a cell, if it does. -/
def Act.puts? (c : CellId) : Act → Option (Option Record)
  | attach d r? => if d = c then some r? else none
  | _ => none

/-- What was put into the extension slot of a cell last in a run, if anything was. -/
def lastPut? (c : CellId) (ts : List Turn) : Option (Option Record) :=
  (ts.filterMap fun t => t.act.puts? c).getLast?

theorem lastPut?_concat (c : CellId) (ts : List Turn) (t : Turn) :
    lastPut? c (ts ++ [t]) = (t.act.puts? c).or (lastPut? c ts) := by
  rw [lastPut?, List.filterMap_append, List.getLast?_append]
  cases h : t.act.puts? c <;> simp [h, lastPut?]

/-- An extension slot holds what an act puts into it, and otherwise what it held. -/
theorem extension?_after {c : CellId} (hc : (e.after hash a).store.alive c) :
    (e.after hash a).store.extension? c = (a.puts? c).getD (e.store.extension? c) := by
  have of_cell {s' : Store} (h : s'.cell? c = e.store.cell? c) :
      s'.extension? c = e.store.extension? c := by
    rw [Store.extension?, Store.extension?, h]
  cases a with
  | share os | shareKey k => exact of_cell (e.store.cell?_retain _ c)
  | drop os => rfl
  | fall =>
    rw [after] at hc ⊢
    split at hc
    · rfl
    · exact of_cell ((e.store.sheds_releaseOne _).cell?_eq hc)
  | newCell r => exact e.store.extension?_newCell r c
  | intern name => exact of_cell ((KeyTable.sheds_intern hash name e.table e.store).cell?_eq hc)
  | write d r => exact e.store.extension?_setReferent d c r
  | put d slot v | remove d slot => exact e.store.extension?_setReferent d c _
  | attach d r? =>
    have hold : e.store.alive c := (Store.alive_writeCell _ d c _).symm.trans hc
    show (e.store.setExtension d r?).extension? c = _
    rw [Store.extension?_setExtension hold, Act.puts?]
    by_cases hcd : c = d
    · rw [if_pos hcd, if_pos hcd.symm]
      rfl
    · rw [if_neg hcd, if_neg fun h => hcd h.symm]
      rfl
  | _ => rfl

/-- An extension slot holds what was put into it last, and otherwise what it held in the
beginning. A cell that was made meanwhile began with an empty slot. -/
theorem Run.extension?_eq (hr : e.Run hash ts d) {c : CellId} (hc : d.store.alive c) :
    d.store.extension? c = (lastPut? c ts).getD (e.store.extension? c) := by
  -- also of a cell that is yet to come
  suffices h : d.store.alive c ∨ ¬ c < d.store.cells.next →
      d.store.extension? c = (lastPut? c ts).getD (e.store.extension? c) from h (.inl hc)
  clear hc
  induction hr with
  | refl => exact fun _ => rfl
  | @snoc ts d a hr ha ih =>
    intro hc
    have hages := Estate.ages hash d a
    have hbefore : d.store.alive c ∨ ¬ c < d.store.cells.next := by
      by_cases hold : c < d.store.cells.next
      · exact .inl <| hc.elim (hages.has (.cell c) hold) fun h =>
          absurd (hages.old (.cell c) hold) h
      · exact .inr hold
    have hputs : ¬ (d.after hash a).store.alive c → a.puts? c = none := by
      intro hdead
      cases a with
      | attach b r? =>
        by_cases hb : b = c
        · subst hb
          exact absurd ((Store.alive_writeCell _ b b _).trans ha.fits.1) hdead
        · exact if_neg hb
      | _ => rfl
    rw [lastPut?_concat]
    by_cases halive : (d.after hash a).store.alive c
    · rw [extension?_after halive]
      cases a.puts? c with
      | none => exact ih hbefore
      | some r? => rfl
    · have hdead : ¬ d.store.alive c := fun h =>
        (hc.resolve_left halive) (hages.old (.cell c) (Store.oldIn_of_has (x := .cell c) h))
      rw [hputs halive, Option.none_or, ← ih hbefore, Store.extension?_of_dead halive,
        Store.extension?_of_dead hdead]

end Estate

end MetaCache
