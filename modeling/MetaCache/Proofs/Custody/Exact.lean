import MetaCache.Proofs.Ownership.Counts
/-!
# Stores in which nothing is counted that nobody holds

Coverage says that no count is too low. Here no count is too high either: each entry has as many
owners counted as there are strong shares of it, and is there only as long as there is one. So what
is there can be told from who holds what.

* `Store.Exact`: the counts are those of the shares that the store and a holding have.
* `Store.Exact.has_iff`: an entry is there exactly if somebody has a strong share of it.
* `Store.Exact.retain`, `Store.Exact.releaseOne`, `Store.Exact.newCell`, …: what the operations of
  the store make of it.
-/

namespace MetaCache.Store

variable {s s' : Store} {f g : Holding} {x : Share}

/-- Each strong share that the store or the holding has is counted, and no other is; and what is
there has an owner. -/
structure Exact (s : Store) (f : Holding) : Prop where
  count : ∀ x, x.isStrong → s.count x = s.held x + f x
  attended : s.Attended

namespace Exact

theorem empty : Exact {} 0 where
  count x hx := by
    cases x with
    | weakCell _ | weakPayload _ => cases hx
    | _ => rfl
  attended := .empty

theorem covers (h : s.Exact f) : s.Covers f := fun x hx => Nat.le_of_eq (h.count x hx).symm

/-- An entry is there exactly if somebody has a strong share of it. -/
theorem has_iff (h : s.Exact f) (hx : x.isStrong) : s.has x ↔ 0 < s.held x + f x := by
  rw [← h.count x hx]
  constructor
  · exact h.attended x hx
  · intro hpos
    by_contra hgone
    rw [count_of_not_has hgone] at hpos
    exact Nat.lt_irrefl 0 hpos

/-- What is held may be held by another one. -/
theorem congr (h : s.Exact f) (hfg : ∀ x, x.isStrong → g x = f x) : s.Exact g where
  count x hx := by rw [h.count x hx, hfg x hx]
  attended := h.attended

/-- Exactness is kept if what is held grows as much as the counts do. -/
theorem transfer (h : s.Exact f) (hat : s'.Attended)
    (heq : ∀ x, x.isStrong → s'.held x + g x + s.count x = s.held x + f x + s'.count x) :
    s'.Exact g where
  count x hx := by
    have h1 := h.count x hx
    have h2 := heq x hx
    omega
  attended := hat

theorem retainOne (h : s.Exact f) {o : Owned} (ho : s.present o) :
    (s.retainOne o).Exact (holding [o] + f) := by
  obtain ⟨y, hy, hhas⟩ := exists_of_present ho
  refine h.transfer (h.attended.retain [o]) fun x hx => ?_
  rw [held_retainOne, count_retainOne hy fun hxy => hxy ▸ hhas (hxy ▸ hx), Pi.add_apply]
  omega

/-- Shares taken of what is there are counted. -/
theorem retain (h : s.Exact f) {os : List Owned} (ho : ∀ o ∈ os, s.present o) :
    (s.retain os).Exact (holding os + f) := by
  induction os generalizing s f with
  | nil => rw [holding_nil, zero_add]; exact h
  | cons o rest ih =>
    have h1 := h.retainOne (ho o List.mem_cons_self)
    have h2 := ih h1 fun p hp => present_retainOne (ho p (List.mem_cons_of_mem _ hp))
    rw [holding_cons, add_assoc, add_left_comm]
    exact h2

end Exact

/-- A share that somebody has is taken from its count when it is given back, and no other is. -/
theorem count_releaseOne {o : Owned} (hx : x.isStrong) (hpos : o.plain? = some x → 0 < s.count x) :
    s.count x = (s.releaseOne o).2.count x + if o.plain? = none then 0 else holding [o] x := by
  cases ho : o.plain? with
  | none =>
    obtain ⟨p, rfl⟩ := Owned.exists_of_plain?_eq_none ho
    rfl
  | some y =>
    rw [if_neg (Option.some_ne_none y), holding_plain ho]
    by_cases hxy : x = y
    · subst hxy
      have hpos := hpos ho
      have hhas : s.has x := by
        by_contra hgone
        rw [count_of_not_has hgone] at hpos
        exact Nat.lt_irrefl 0 hpos
      rw [if_pos rfl]
      rcases releaseOne_cases ho s with ⟨-, hgone⟩ | ⟨hr, -⟩ | ⟨hr, -, -, hone⟩
      · exact absurd hhas hgone
      · rw [hr, count_adjust_self _ hhas]
        omega
      · rw [hr, count_of_not_has (not_has_remove_self hx)]
        omega
    · rw [if_neg hxy, Nat.add_zero]
      rcases releaseOne_cases ho s with ⟨hr, -⟩ | ⟨hr, -⟩ | ⟨hr, -⟩
      · rw [hr]
      · rw [hr, count_adjust_of_ne _ _ hxy]
      · have hkept := (remove_of_ne (s := s) (x := y) (y := x) <| by
          rwa [Share.entry_of_isStrong hx]).2
        rw [hr, hkept]

namespace Exact

/-- One release: the share goes, and what has to be released in consequence is held by whoever
releases it. -/
theorem releaseOne {o : Owned} (h : s.Exact (holding [o] + f)) :
    (s.releaseOne o).2.Exact (holding (s.releaseOne o).1 + f) := by
  refine h.transfer (h.attended.releaseOne o) fun x hx => ?_
  have hheld := held_releaseOne s o x
  have hcount := count_releaseOne (s := s) (o := o) hx fun ho => by
    have hself : holding [o] x = 1 := by rw [holding_plain ho, if_pos rfl]
    rw [h.count x hx, Pi.add_apply, hself]
    omega
  rw [Pi.add_apply, Pi.add_apply]
  by_cases ho : o.plain? = none <;> simp only [ho, if_true, if_false] at hheld hcount <;> omega

/-- A new cell holds what its maker put into it. -/
theorem newCell {r : Referent} (h : s.Exact (holding r.owned + f)) :
    (s.newCell r).2.Exact (holding [.cell s.cells.next] + f) := by
  refine h.transfer (h.attended.newCell r) fun x _ => ?_
  rw [held_newCell, count_newCell, Pi.add_apply, Pi.add_apply]
  omega

/-- A new name has one owner. -/
theorem newName (h : s.Exact f) (text : String) :
    (s.newName text).2.Exact (holding [.name s.names.next] + f) := by
  refine h.transfer (h.attended.newName text) fun x _ => ?_
  rw [count_newName, Pi.add_apply]
  show s.held x + (_ + f x) + _ = _
  omega

/-- A new payload holds what its maker put into it. -/
theorem newPayload {p : Payload} (h : s.Exact (holding p.owned + f)) :
    (s.newPayload p).2.Exact (holding [.payload s.payloads.next] + f) := by
  refine h.transfer (h.attended.newPayload p) fun x _ => ?_
  rw [held_newPayload, count_newPayload, Pi.add_apply, Pi.add_apply]
  omega

/-- What a cell is given it takes from whoever writes it, who gets what it had. -/
theorem writeCell {c : CellId} {y : Cell} {k : Cell → Cell} (hc : s.cell? c = some y)
    (h : s.Exact f) (heq : ∀ x, holding (k y).owned x + g x = holding y.owned x + f x) :
    (s.writeCell c k).Exact g := by
  refine h.transfer (h.attended.writeCell c k) fun x _ => ?_
  have h1 := held_writeCell hc k x
  have h2 := heq x
  rw [count_writeCell]
  omega

end Exact

end MetaCache.Store
