import MetaCache.Proofs.Shortcut.Stores
/-!
# Shares in parallel stores

As long as a share of each generator is kept for good, none of them can go, whoever gives back how
many shares. So parallel stores stay parallel when corresponding shares are given back, even if one
run gives back further shares of generators.

* `Store.Abreast`: parallel stores that count what is held in each run.
* `Store.Abreast.release`, `Store.Abreast.retain`, `Store.Abreast.upgrade`: shares.
* `Store.Abreast.newCell`: new cells.
-/

namespace MetaCache

variable {κ : Classifier} {K : CellId → Prop} {G : Generators} {s s' t : Store} {P f g : Holding}

/-- Parallel stores that count all that is held: what the stores hold themselves, what is kept for
good, among which there is a share of each generator and of each cell of which `K` holds, and `f` in
the one run and `g` in the other. -/
structure Store.Abreast (κ : Classifier) (K : CellId → Prop) (G : Generators) (P f g : Holding)
    (s t : Store) : Prop where
  kept : G.KeptBy K P
  parallel : s.Parallel κ G t
  left : s.Covers (P + f)
  right : t.Covers (P + g)

namespace Store

/-! ## Shares of generators -/

/-- A share of a generator is never the last one. -/
theorem Covers.releaseOne_generator {c : CellId} (h : s.Covers (P + (holding [.cell c] + f)))
    (hc : 0 < P (.cell c)) :
    s.releaseOne (.cell c) = ([], s.adjust (· - 1) (.cell c)) := by
  have hcount : 1 < s.count (.cell c) := by
    have hcov := h (.cell c) rfl
    rw [Pi.add_apply, Pi.add_apply, holding_plain rfl, if_pos rfl] at hcov
    omega
  rcases releaseOne_cases (o := .cell c) rfl s with ⟨-, hhas⟩ | ⟨hr, -⟩ | ⟨-, -, -, hone⟩
  · rw [count_of_not_has hhas] at hcount
    cases hcount
  · exact hr
  · omega

/-! ## Giving back -/

/-- An operation of the store, next to what is kept for good. -/
theorem Covers.pinned {h h' : Holding} (hs : s.Covers (P + (h + f)))
    (hstep : ∀ k, s.Covers (h + k) → s'.Covers (h' + k)) : s'.Covers (P + (h' + f)) := by
  rw [add_left_comm] at hs ⊢
  exact hstep _ hs

namespace Abreast

theorem releaseOne {o : Owned} {x : Share} (hx : o.plain? = some x)
    (h : Abreast κ K G P (holding [o] + f) (holding [o] + g) s t) :
    Owned.Parallel G (s.releaseOne o).1 (t.releaseOne o).1 ∧
      Abreast κ K G P (holding (s.releaseOne o).1 + f) (holding (t.releaseOne o).1 + g)
        (s.releaseOne o).2 (t.releaseOne o).2 := by
  have hl := h.left.pinned fun _ hk => hk.releaseOne
  have hr := h.right.pinned fun _ hk => hk.releaseOne
  suffices hpar : Owned.Parallel G (s.releaseOne o).1 (t.releaseOne o).1 ∧
      (s.releaseOne o).2.Parallel κ G (t.releaseOne o).2 from ⟨hpar.1, h.kept, hpar.2, hl, hr⟩
  by_cases hgen : ∃ c, o = .cell c ∧ (G c).isSome
  · obtain ⟨c, rfl, hc⟩ := hgen
    have hkept := h.kept c (.inl hc)
    rw [h.left.releaseOne_generator hkept, h.right.releaseOne_generator hkept]
    exact ⟨.nil, h.parallel.adjust (· - 1) (.cell c)⟩
  · have hnone : ∀ c, x = .cell c → G c = none := by
      rintro c rfl
      refine Option.not_isSome_iff_eq_none.1 fun hc => hgen ⟨c, ?_, hc⟩
      cases o <;> cases hx
      rfl
    rw [s.releaseOne_eq hx, t.releaseOne_eq hx, ← h.parallel.has_eq, ← h.parallel.count_eq hnone]
    split
    · rename_i hlast
      exact ⟨h.parallel.inside x, h.parallel.remove hlast.1 hnone⟩
    · exact ⟨.nil, h.parallel.adjust (· - 1) x⟩

/-- A share of a generator that is given back in one run only. -/
theorem releaseOne_left {c : CellId} (hc : (G c).isSome)
    (h : Abreast κ K G P (holding [.cell c] + f) g s t) :
    (s.releaseOne (.cell c)).1 = [] ∧ Abreast κ K G P f g (s.releaseOne (.cell c)).2 t := by
  have hl := h.left.pinned fun _ hk => hk.releaseOne
  have hpar := h.parallel.adjust_generator hc (· - 1) fun n => n
  rw [show t.adjust (fun n => n) (.cell c) = t by rw [adjust, Table.modify_id]] at hpar
  rw [h.left.releaseOne_generator (h.kept c (.inl hc))] at hl ⊢
  rw [holding_nil, zero_add] at hl
  exact ⟨rfl, h.kept, hpar, hl, h.right⟩

theorem releaseOne_right {c : CellId} (hc : (G c).isSome)
    (h : Abreast κ K G P f (holding [.cell c] + g) s t) :
    (t.releaseOne (.cell c)).1 = [] ∧ Abreast κ K G P f g s (t.releaseOne (.cell c)).2 := by
  have hr := h.right.pinned fun _ hk => hk.releaseOne
  have hpar := h.parallel.adjust_generator hc (fun n => n) (· - 1)
  rw [show s.adjust (fun n => n) (.cell c) = s by rw [adjust, Table.modify_id]] at hpar
  rw [h.right.releaseOne_generator (h.kept c (.inl hc))] at hr ⊢
  rw [holding_nil, zero_add] at hr
  exact ⟨rfl, h.kept, hpar, h.left, hr⟩

theorem releaseOne_held {p q : Payload} (hp : p.Parallel G q)
    (h : Abreast κ K G P (holding [.held p] + f) (holding [.held q] + g) s t) :
    Abreast κ K G P (holding p.owned + f) (holding q.owned + g) (s.releaseOne (.held p)).2
      (t.releaseOne (.held q)).2 where
  kept := h.kept
  parallel := h.parallel.record (by cases hp <;> rfl)
  left := h.left.pinned fun _ hk => hk.releaseOne
  right := h.right.pinned fun _ hk => hk.releaseOne

/-- Corresponding shares are given back in both runs. -/
theorem release {os os' : List Owned} (ho : Owned.Parallel G os os')
    (h : Abreast κ K G P (holding os + f) (holding os' + g) s t) :
    Abreast κ K G P f g (s.release os) (t.release os') := by
  -- every release makes the shares and the stores weigh less, in one run at least
  induction hn : Owned.total os + s.weight + (Owned.total os' + t.weight)
    using Nat.strongRecOn generalizing os os' s t with
  | ind n ih =>
  cases ho with
  | nil =>
    rw [release_nil, release_nil]
    rwa [holding_nil, zero_add, zero_add] at h
  | @same o x os os' hx ho =>
    rw [holding_cons, holding_cons o os', add_assoc, add_assoc] at h
    obtain ⟨hown, hnext⟩ := h.releaseOne hx
    have hs := s.weight_releaseOne o
    have ht := t.weight_releaseOne o
    rw [release_cons, release_cons]
    refine ih _ ?_ (hown.append ho) ?_ rfl
    · simp only [Owned.total_append, Owned.total_cons] at hn ⊢
      omega
    · rwa [holding_append, holding_append, add_assoc, add_assoc]
  | @held p q os os' hp ho =>
    rw [holding_cons, holding_cons (.held q), add_assoc, add_assoc] at h
    have hs := s.weight_releaseOne (.held p)
    have ht := t.weight_releaseOne (.held q)
    rw [release_cons, release_cons]
    refine ih _ ?_ (hp.owned.append ho) ?_ rfl
    · simp only [Owned.total_append, Owned.total_cons] at hn ⊢
      omega
    · rw [holding_append, holding_append, add_assoc, add_assoc]
      exact h.releaseOne_held hp
  | @left c os os' hc ho =>
    rw [holding_cons, add_assoc] at h
    obtain ⟨hnone, hnext⟩ := h.releaseOne_left hc
    have hs := s.weight_releaseOne (.cell c)
    rw [release_cons, hnone, List.nil_append]
    refine ih _ ?_ ho hnext rfl
    simp only [hnone, Owned.total_nil, Owned.total_cons] at hn hs ⊢
    omega
  | @right c os os' hc ho =>
    rw [holding_cons, add_assoc] at h
    obtain ⟨hnone, hnext⟩ := h.releaseOne_right hc
    have ht := t.weight_releaseOne (.cell c)
    rw [release_cons (s := t), hnone, List.nil_append]
    refine ih _ ?_ ho hnext rfl
    simp only [hnone, Owned.total_nil, Owned.total_cons] at hn ht ⊢
    omega

/-! ## Taking -/

/-- The same shares are taken in both runs. -/
theorem retain {os : List Owned} (hos : ∀ o ∈ os, s.present o) (h : Abreast κ K G P f g s t) :
    Abreast κ K G P (holding os + f) (holding os + g) (s.retain os) (t.retain os) := by
  refine ⟨h.kept, h.parallel.retain os, ?_, ?_⟩
  · rw [add_left_comm]
    exact h.left.retain hos
  · rw [add_left_comm]
    exact h.right.retain fun o ho => (h.parallel.present_eq o).symm.trans (hos o ho)

/-- A weak reference is given back for a strong one in both runs, or for nothing. -/
theorem upgrade {v : Value} (h : Abreast κ K G P (holding v.owned + f) (holding v.owned + g) s t) :
    (s.upgrade v).1 = (t.upgrade v).1 ∧
      Abreast κ K G P (holding (s.upgrade v).1.owned + f) (holding (t.upgrade v).1.owned + g)
        (s.upgrade v).2 (t.upgrade v).2 := by
  cases v with
  | weak c =>
    have halive := h.parallel.alive_eq c
    simp only [Store.upgrade, ← halive]
    split
    · rename_i hc
      refine ⟨rfl, release (Owned.Parallel.refl [.weakCell c]) ?_⟩
      rw [add_left_comm, add_left_comm _ _ g]
      exact retain (fun o ho => by rw [List.mem_singleton.1 ho]; exact hc) h
    · refine ⟨rfl, h.kept, h.parallel, h.left.mono fun x => ?_, h.right.mono fun x => ?_⟩ <;>
        simp only [Pi.add_apply, Value.owned, holding_nil, Pi.zero_apply] <;> omega
  | _ => exact ⟨rfl, h⟩

/-- A new cell, which holds what its maker put into it. -/
theorem newCell {r : Referent} (hr : ∀ a, r = .code a → κ a = none)
    (h : Abreast κ K G P (holding r.owned + f) (holding r.owned + g) s t) :
    (s.newCell r).1 = (t.newCell r).1 ∧
      Abreast κ K G P (holding [.cell (s.newCell r).1] + f) (holding [.cell (t.newCell r).1] + g)
        (s.newCell r).2 (t.newCell r).2 := by
  obtain ⟨hc, hpar⟩ := h.parallel.newCell hr
  have hl := h.left.pinned fun _ hk => hk.newCell
  have hright := h.right.pinned fun _ hk => hk.newCell
  exact ⟨hc, h.kept, hpar, hl, hright⟩

end Abreast

end Store

end MetaCache
