import MetaCache.Proofs.Ownership.Update
/-!
# Stores in which all is counted

What is there has an owner in every store that a run can come to, and each operation keeps it so.
Shares taken and given back in turn leave no trace then.

* `Store.Attended`: what is there has an owner.
* `Store.Attended.release_retain`: a share of a cell taken and given back.
* `Store.covers_of_units`: only what someone has a share of needs to be counted.
-/

namespace MetaCache

namespace Store

variable {s : Store} {x : Share}

/-! ## New entries -/

theorem has_newName_of_ne (text : String) (h : x ≠ .name s.names.next) :
    (s.newName text).2.has x = s.has x := by
  cases x with
  | name n =>
    exact congrArg Option.isSome
      (Table.find?_insert_of_ne s.names 1 fun hn => h (congrArg Share.name hn))
  | _ => rfl

theorem has_newCell_of_ne (r : Referent) (hx : x.isStrong) (h : x ≠ .cell s.cells.next) :
    (s.newCell r).2.has x = s.has x := by
  cases x with
  | cell c =>
    exact congrArg Option.isSome
      (Table.find?_insert_of_ne s.cells _ fun hc => h (congrArg Share.cell hc))
  | weakCell _ => cases hx
  | _ => rfl

theorem has_newPayload_of_ne (p : Payload) (hx : x.isStrong) (h : x ≠ .payload s.payloads.next) :
    (s.newPayload p).2.has x = s.has x := by
  cases x with
  | payload q =>
    exact congrArg Option.isSome
      (Table.find?_insert_of_ne s.payloads _ fun hq => h (congrArg Share.payload hq))
  | weakPayload _ => cases hx
  | _ => rfl

/-! ## What is there has an owner -/

/-- Every entry that is there has an owner. -/
def Attended (s : Store) : Prop :=
  ∀ x, x.isStrong → s.has x → 0 < s.count x

namespace Attended

theorem empty : Attended {} := by
  intro x _ h
  cases x <;> cases h

theorem adjust (h : s.Attended) {k : Nat → Nat}
    (hk : x.isStrong → s.has x → 0 < k (s.count x)) : (s.adjust k x).Attended := by
  intro y hy hhas
  rw [has_adjust] at hhas
  by_cases hyx : y = x
  · subst hyx
    rw [count_adjust_self k hhas]
    exact hk hy hhas
  · rw [count_adjust_of_ne s k hyx]
    exact h y hy hhas

theorem retain (h : s.Attended) (os : List Owned) : (s.retain os).Attended :=
  retain_induction (fun _ _ h => h.adjust fun _ _ => Nat.succ_pos _) h os

theorem releaseOne (h : s.Attended) (o : Owned) : (s.releaseOne o).2.Attended := by
  cases hx : o.plain? with
  | none =>
    obtain ⟨p, rfl⟩ := Owned.exists_of_plain?_eq_none hx
    exact h
  | some x =>
    rcases releaseOne_cases hx s with ⟨hr, -⟩ | ⟨hr, hone⟩ | ⟨hr, hstrong, -⟩
    · rw [hr]
      exact h
    · rw [hr]
      exact h.adjust fun hs _ => Nat.sub_pos_of_lt (hone hs)
    · rw [hr]
      intro y hy hhas
      obtain ⟨hhas, hcount⟩ := has_of_has_remove hstrong hhas
      exact Nat.lt_of_lt_of_eq (h y hy hhas) hcount.symm

theorem release (h : s.Attended) (os : List Owned) : (s.release os).Attended := by
  induction s, os using Store.release.induct with
  | case1 s => rwa [release_nil]
  | case2 s o rest _ ih => rw [release_cons]; exact ih (h.releaseOne o)

theorem upgrade (h : s.Attended) (v : Value) : (s.upgrade v).2.Attended := by
  unfold Store.upgrade
  split
  · split
    · exact (h.retain _).release _
    · exact h
  · exact h

theorem writeCell (h : s.Attended) (c : CellId) (k : Cell → Cell) :
    (s.writeCell c k).Attended := by
  intro x hx hhas
  rw [count_writeCell]
  refine h x hx ?_
  cases x with
  | cell d | weakCell d => exact (Table.contains_modify s.cells c d _).symm.trans hhas
  | _ => exact hhas

/-- One entry more, of which its maker has a share. -/
theorem grow {s' : Store} {o : Owned} {y : Share} (h : s.Attended) (ho : o.plain? = some y)
    (hhas : ∀ x : Share, x.isStrong → x ≠ y → s'.has x = s.has x)
    (hcount : ∀ x, s'.count x = s.count x + holding [o] x) : s'.Attended := by
  intro x hx hh
  rw [hcount, holding_plain ho]
  by_cases hxy : x = y
  · rw [if_pos hxy]
    exact Nat.succ_pos _
  · rw [hhas x hx hxy] at hh
    exact Nat.add_pos_left (h x hx hh) _

theorem newCell (h : s.Attended) (r : Referent) : (s.newCell r).2.Attended :=
  h.grow rfl (fun _ hx hne => has_newCell_of_ne r hx hne) (s.count_newCell r)

theorem newName (h : s.Attended) (text : String) : (s.newName text).2.Attended :=
  h.grow rfl (fun _ _ hne => has_newName_of_ne text hne) (s.count_newName text)

theorem newPayload (h : s.Attended) (p : Payload) : (s.newPayload p).2.Attended :=
  h.grow rfl (fun _ hx hne => has_newPayload_of_ne p hx hne) (s.count_newPayload p)

/-- A share of a cell taken and given back. -/
theorem release_retain (h : s.Attended) (v : Value) :
    (s.retain v.owned).release v.owned = s := by
  cases v with
  | ref c =>
    show Store.release (s.adjust (· + 1) (.cell c)) [.cell c] = s
    rw [release_cons]
    have hback : (s.adjust (· + 1) (.cell c)).adjust (· - 1) (.cell c) = s := by
      show { s with cells := (s.cells.modify c _).modify c _ } = s
      rw [Table.modify_modify fun _ => rfl]
    rcases releaseOne_cases (o := .cell c) rfl (s.adjust (· + 1) (.cell c)) with
      ⟨hr, hhas⟩ | ⟨hr, -⟩ | ⟨-, -, hhas, hcount⟩
    · rw [has_adjust] at hhas
      rw [hr]
      have hnone : s.cells.find? c = none := Option.not_isSome_iff_eq_none.1 hhas
      show Store.release { s with cells := s.cells.modify c _ } [] = s
      rw [release_nil, Table.modify_of_find?_eq_none hnone]
    · rw [hr]
      exact (release_nil _).trans hback
    · rw [has_adjust] at hhas
      rw [count_adjust_self _ hhas] at hcount
      have := h (.cell c) rfl hhas
      omega
  | weak c =>
    show Store.release { s with cells := s.cells.modify c Counted.addWeak } [.weakCell c] = s
    rw [release_cons]
    refine (release_nil _).trans ?_
    show { s with cells := (s.cells.modify c _).modify c _ } = s
    rw [Table.modify_modify fun _ => rfl]
  | _ => exact release_nil s

end Attended

/-! ## Stores in which all is counted, entry by entry -/

theorem Attended.of_entries (hc : ∀ e ∈ s.cells.entries, 0 < e.2.strong)
    (hn : ∀ e ∈ s.names.entries, 0 < e.2) (hp : ∀ e ∈ s.payloads.entries, 0 < e.2.strong) :
    s.Attended := by
  have hpos {α : Type} {t : Table α} {v : α → Nat} {i : Nat} (ht : ∀ e ∈ t.entries, 0 < v e.2)
      (h : t.contains i) : 0 < ((t.find? i).map v).getD 0 := by
    obtain ⟨a, ha⟩ := Option.isSome_iff_exists.1 h
    rw [ha]
    exact ht (i, a) (mem_of_lookup ha)
  intro x hx h
  cases x with
  | cell c => exact hpos hc h
  | name n =>
    have := hpos (v := id) hn h
    rwa [Option.map_id] at this
  | payload p => exact hpos hp h
  | _ => cases hx

/-- The shares that the store holds, one by one. -/
def units (s : Store) : List Share :=
  (s.cells.entries.flatMap fun e => e.2.content.owned.flatMap Owned.units) ++
    s.payloads.entries.flatMap fun e => e.2.content.owned.flatMap Owned.units

/-- Only what someone has a share of needs to be counted. -/
theorem covers_of_units {os : List Owned}
    (h : ∀ x ∈ s.units ++ os.flatMap Owned.units, s.held x + holding os x ≤ s.count x) :
    s.Covers (holding os) := by
  have hzero {α : Type} {t : Table α} {v : α → List Owned} {x : Share}
      (ht : x ∉ t.entries.flatMap fun e => (v e.2).flatMap Owned.units) :
      t.total (fun a => holding (v a) x) = 0 := by
    unfold Table.total
    revert ht
    induction t.entries with
    | nil => exact fun _ => rfl
    | cons e rest ih =>
      intro ht
      rw [List.flatMap_cons, List.mem_append, not_or] at ht
      rw [sumOf_cons, ih ht.2]
      exact List.count_eq_zero.2 ht.1
  intro x _
  by_cases hx : x ∈ s.units ++ os.flatMap Owned.units
  · exact h x hx
  · rw [List.mem_append, units, List.mem_append, not_or, not_or] at hx
    have hheld : s.held x = 0 := by
      rw [held, hzero hx.1.1, hzero hx.1.2]
    rw [hheld, holding, List.count_eq_zero.2 hx.2]
    exact Nat.zero_le _

end Store

end MetaCache
