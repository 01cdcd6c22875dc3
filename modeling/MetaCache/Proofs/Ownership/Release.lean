import Mathlib.Algebra.Group.Basic
import Mathlib.Algebra.Group.Nat.Defs
import MetaCache.Proofs.Ownership.Entries
/-!
# Taking shares and giving them back

Giving back what one holds keeps the rest covered: whatever else is held, by the store or by anyone
outside it, is still there when the release has come to its end, however far it has spread.

* `Store.Covers.retain`: shares taken of what is there are covered.
* `Store.Covers.release`: after a release the remaining holding is covered.
* `Store.Sheds`: entries may be gone and counts may differ, but no content has changed;
  `Store.sheds_retain`, `Store.sheds_release`.
-/

namespace MetaCache

namespace Store

variable {s s' s'' : Store} {f g : Holding}

/-- Whether a share can be taken. -/
def present (s : Store) : Owned → Bool
  | .cell c => s.alive c
  | .name n => s.names.contains n
  | .payload p => s.payloads.contains p
  | .weakCell _ | .weakPayload _ => true
  | .held _ => false

/-! ## Entries that go, and contents that stay -/

/-- Cells and payloads may be gone and be counted anew, but none is new or has changed. -/
structure Sheds (s s' : Store) : Prop where
  cells_next : s'.cells.next = s.cells.next
  payloads_next : s'.payloads.next = s.payloads.next
  cell? : ∀ c x, s'.cell? c = some x → s.cell? c = some x
  payload? : ∀ p x, s'.payload? p = some x → s.payload? p = some x

namespace Sheds

theorem refl (s : Store) : s.Sheds s := ⟨rfl, rfl, fun _ _ h => h, fun _ _ h => h⟩

theorem trans (h : s.Sheds s') (h' : s'.Sheds s'') : s.Sheds s'' :=
  ⟨h'.cells_next.trans h.cells_next, h'.payloads_next.trans h.payloads_next,
    fun c x hx => h.cell? c x (h'.cell? c x hx),
    fun p x hx => h.payload? p x (h'.payload? p x hx)⟩

/-- Changing the counts of entries is shedding none of them. -/
theorem of_eq (hc : s'.cells.next = s.cells.next) (hp : s'.payloads.next = s.payloads.next)
    (hcell : ∀ c, s'.cell? c = s.cell? c) (hpayload : ∀ p, s'.payload? p = s.payload? p) :
    s.Sheds s' :=
  ⟨hc, hp, fun c _ h => hcell c ▸ h, fun p _ h => hpayload p ▸ h⟩

end Sheds

theorem alive_iff_cell? {c : CellId} : s.alive c ↔ ∃ x, s.cell? c = some x := by
  simp only [alive, Table.contains, cell?, Option.isSome_iff_exists, Option.map_eq_some_iff]
  constructor
  · rintro ⟨e, he⟩
    exact ⟨_, e, he, rfl⟩
  · rintro ⟨_, e, he, -⟩
    exact ⟨e, he⟩

theorem Sheds.alive (h : s.Sheds s') {c : CellId} (hc : s'.alive c) : s.alive c := by
  obtain ⟨x, hx⟩ := alive_iff_cell?.1 hc
  exact alive_iff_cell?.2 ⟨x, h.cell? c x hx⟩

/-- What is still there is as it was. -/
theorem Sheds.cell?_eq (h : s.Sheds s') {c : CellId} (hc : s'.alive c) :
    s'.cell? c = s.cell? c := by
  obtain ⟨x, hx⟩ := alive_iff_cell?.1 hc
  rw [hx, h.cell? c x hx]

theorem sheds_adjust (s : Store) (k : Nat → Nat) (x : Share) : s.Sheds (s.adjust k x) :=
  .of_eq (by cases x <;> rfl) (by cases x <;> rfl) (s.cell?_adjust k x) (s.payload?_adjust k x)

theorem sheds_remove (s : Store) (x : Share) : s.Sheds (s.remove x) where
  cells_next := by cases x <;> rfl
  payloads_next := by cases x <;> rfl
  cell? c y h := by
    cases x with
    | cell d => exact map_content_erase h
    | _ => exact h
  payload? p y h := by
    cases x with
    | payload q => exact map_content_erase h
    | _ => exact h

theorem sheds_retain (s : Store) (os : List Owned) : s.Sheds (s.retain os) :=
  retain_induction (P := s.Sheds) (fun t x h => h.trans (t.sheds_adjust _ x)) (.refl s) os

theorem sheds_releaseOne (s : Store) (o : Owned) : s.Sheds (s.releaseOne o).2 := by
  cases ho : o.plain? with
  | none =>
    obtain ⟨p, rfl⟩ := Owned.exists_of_plain?_eq_none ho
    exact .of_eq rfl rfl (fun _ => rfl) fun _ => rfl
  | some x =>
    rcases releaseOne_cases ho s with ⟨hr, -⟩ | ⟨hr, -⟩ | ⟨hr, -⟩
    · rw [hr]
      exact .refl s
    · rw [hr]
      exact s.sheds_adjust (· - 1) x
    · rw [hr]
      exact s.sheds_remove x

theorem sheds_release (s : Store) (os : List Owned) : s.Sheds (s.release os) := by
  induction s, os using release.induct with
  | case1 s => rw [release_nil]; exact .refl s
  | case2 s o rest _ ih => rw [release_cons]; exact (s.sheds_releaseOne o).trans ih

/-! ## What stays covered -/

/-- What can be taken is there. -/
theorem exists_of_present {o : Owned} (h : s.present o) :
    ∃ x, o.plain? = some x ∧ (x.isStrong → s.has x) := by
  cases o with
  | held p => cases h
  | weakCell _ | weakPayload _ => exact ⟨_, rfl, fun hx => by cases hx⟩
  | cell _ | name _ | payload _ => exact ⟨_, rfl, fun _ => h⟩

theorem held_retainOne (s : Store) (o : Owned) : (s.retainOne o).held = s.held := by
  cases ho : o.plain? with
  | none =>
    obtain ⟨p, rfl⟩ := Owned.exists_of_plain?_eq_none ho
    rfl
  | some x => rw [retainOne_eq ho, held_adjust]

theorem Covers.retainOne (h : s.Covers f) {o : Owned} (ho : s.present o) :
    (s.retainOne o).Covers (holding [o] + f) := by
  intro x hx
  have hcov := h x hx
  obtain ⟨y, hy, hhas⟩ := exists_of_present ho
  rw [held_retainOne, count_retainOne hy fun hxy => hxy ▸ hhas (hxy ▸ hx), Pi.add_apply]
  omega

theorem present_retainOne {o p : Owned} (hp : s.present p) : (s.retainOne o).present p := by
  cases p with
  | cell c => exact (s.has_retain [o] (.cell c)).trans hp
  | name n => exact (s.has_retain [o] (.name n)).trans hp
  | payload p => exact (s.has_retain [o] (.payload p)).trans hp
  | _ => exact hp

/-- Shares taken of what is there are covered. -/
theorem Covers.retain (h : s.Covers f) {os : List Owned} (ho : ∀ o ∈ os, s.present o) :
    (s.retain os).Covers (holding os + f) := by
  induction os generalizing s f with
  | nil => rw [holding_nil, zero_add]; exact h
  | cons o rest ih =>
    have h1 := h.retainOne (ho o List.mem_cons_self)
    have h2 := ih h1 fun p hp => present_retainOne (ho p (List.mem_cons_of_mem _ hp))
    rw [holding_cons, add_assoc, add_left_comm]
    exact h2

/-- What an entry held that goes is passed on. -/
theorem held_releaseOne (s : Store) (o : Owned) (x : Share) :
    (s.releaseOne o).2.held x + holding (s.releaseOne o).1 x =
      s.held x + if o.plain? = none then holding [o] x else 0 := by
  cases ho : o.plain? with
  | none =>
    obtain ⟨p, rfl⟩ := Owned.exists_of_plain?_eq_none ho
    rw [if_pos rfl, holding_held]
    rfl
  | some y =>
    rw [if_neg (Option.some_ne_none y)]
    rcases releaseOne_cases ho s with ⟨hr, -⟩ | ⟨hr, -⟩ | ⟨hr, hy, hhas, -⟩
    · rw [hr]
      rfl
    · rw [hr, held_adjust]
      rfl
    · rw [hr]
      exact held_remove hy hhas x

/-- A release takes no more from a count than the share released. -/
theorem count_le_releaseOne (s : Store) (o : Owned) {x : Share} (hx : x.isStrong) :
    s.count x ≤ (s.releaseOne o).2.count x + if o.plain? = none then 0 else holding [o] x := by
  cases ho : o.plain? with
  | none =>
    obtain ⟨p, rfl⟩ := Owned.exists_of_plain?_eq_none ho
    exact Nat.le_add_right _ _
  | some y =>
    rw [if_neg (Option.some_ne_none y), holding_plain ho]
    rcases releaseOne_cases ho s with ⟨hr, -⟩ | ⟨hr, -⟩ | ⟨hr, -, -, hone⟩
    · rw [hr]
      exact Nat.le_add_right _ _
    · rw [hr]
      by_cases hxy : x = y
      · subst hxy
        by_cases hhas : s.has x
        · rw [count_adjust_self _ hhas, if_pos rfl]
          omega
        · rw [count_of_not_has hhas]
          exact Nat.zero_le _
      · rw [count_adjust_of_ne _ _ hxy]
        exact Nat.le_add_right _ _
    · rw [hr]
      by_cases hxy : x = y
      · rw [if_pos hxy, hxy]
        exact Nat.le_add_left_of_le hone
      · have hkept := (remove_of_ne (s := s) (x := y) (y := x) <| by
          rwa [Share.entry_of_isStrong hx]).2
        rw [hkept]
        exact Nat.le_add_right _ _

/-- One release: the share goes, and what has to be released in consequence is held by whoever
releases it. -/
theorem Covers.releaseOne {o : Owned} (h : s.Covers (holding [o] + f)) :
    (s.releaseOne o).2.Covers (holding (s.releaseOne o).1 + f) := by
  intro x hx
  have hcov := h x hx
  have hheld := held_releaseOne s o x
  have hcount := count_le_releaseOne s o hx
  rw [Pi.add_apply] at hcov ⊢
  by_cases ho : o.plain? = none <;> simp only [ho, if_true, if_false] at hheld hcount <;> omega

/-- After a release the remaining holding is covered. -/
theorem Covers.release {os : List Owned} (h : s.Covers (holding os + f)) :
    (s.release os).Covers f := by
  induction s, os using Store.release.induct with
  | case1 s =>
    rw [release_nil]
    simpa only [holding_nil, zero_add] using h
  | case2 s o rest _ ih =>
    rw [release_cons]
    rw [holding_cons, add_assoc] at h
    refine ih ?_
    rw [holding_append, add_assoc]
    exact h.releaseOne

end Store

end MetaCache
