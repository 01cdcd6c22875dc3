import MetaCache.Proofs.Compile.Captures
import MetaCache.Proofs.Dialogue.Relations
import MetaCache.Proofs.Introspection.View
import MetaCache.Proofs.Play.Hands
import MetaCache.Proofs.Play.Steps
import MetaCache.Proofs.Storage.Refinement
/-!
# Captured code stays code

A default that is captured is code at that moment. Host code is asked for the initializer after
that, and may do anything then; but a cell of code never comes to be a cell of another kind, and the
descriptor under way has a share of it. So it is code when the descriptor is complete, and as long
as the descriptor is there.

* `Store.CodeStays`: a store and a later one in which code has stayed code.
* `Host.PreservesCode`, `preservingCode`: such hosts, and the ledger of what is done on them.
* `Descriptor.code_of_compile`: what a compiled descriptor has captured.
-/

namespace MetaCache

namespace Store

variable {s s' s'' : Store}

/-- A store and a later one: cells that are gone do not come back, and code that is still there is
still code. -/
structure CodeStays (s s' : Store) : Prop where
  cells_next : s.cells.next ≤ s'.cells.next
  alive : ∀ c < s.cells.next, s'.alive c → s.alive c
  code? : ∀ c, (s.code? (.ref c)).isSome → s'.alive c → (s'.code? (.ref c)).isSome

theorem alive_of_code? {c : CellId} (h : (s.code? (.ref c)).isSome) : s.alive c := by
  rw [alive_iff_referent?]
  cases hx : s.referent? c with
  | some x => exact ⟨x, rfl⟩
  | none => simp [Store.code?, Value.strong?, hx] at h

namespace CodeStays

theorem refl (s : Store) : s.CodeStays s :=
  ⟨Nat.le_refl _, fun _ _ h => h, fun _ h _ => h⟩

theorem trans (h : s.CodeStays s') (h' : s'.CodeStays s'') : s.CodeStays s'' where
  cells_next := Nat.le_trans h.cells_next h'.cells_next
  alive c hc ha := h.alive c hc (h'.alive c (Nat.lt_of_lt_of_le hc h.cells_next) ha)
  code? c hc ha := by
    have hlt := lt_next_of_alive (alive_of_code? hc)
    exact h'.code? c (h.code? c hc (h'.alive c (Nat.lt_of_lt_of_le hlt h.cells_next) ha)) ha

/-- What the cache does on its own changes no referent. -/
theorem of_keeps (h : s.Keeps s') : s.CodeStays s' where
  cells_next := Nat.le_of_eq h.cells_next.symm
  alive _ _ ha := h.alive ha
  code? c hc ha := by
    rwa [h.code?_eq (v := .ref c) fun d hd => by cases hd; exact ha]

end CodeStays

end Store

variable {host : Host} {w w' w'' : World} {f f' f'' : Holding}

/-! ## Hosts -/

/-- From `w` to `w'` code stays code and nobody loses what he holds, while the holder of `f` comes
to hold `f'`. -/
structure World.Preserves (w : World) (f : Holding) (w' : World) (f' : Holding) : Prop where
  code : w.store.CodeStays w'.store
  covers : ∀ g, w.Covers (f + g) → w'.Covers (f' + g)

theorem World.Preserves.trans (h : w.Preserves f w' f') (h' : w'.Preserves f' w'' f'') :
    w.Preserves f w'' f'' :=
  ⟨h.code.trans h'.code, fun g hg => h'.covers g (h.covers g hg)⟩

theorem World.Preserves.frame (h : w.Preserves f w' f') (g : Holding) :
    w.Preserves (f + g) w' (f' + g) where
  code := h.code
  covers k hk := by
    rw [add_assoc] at hk ⊢
    exact h.covers _ hk

/-- What metaobjects are asked preserves code. Apart from that it may have any side effects. -/
structure Host.PreservesCode (host : Host) : Prop where
  answers : ∀ {q : Query}, host.Answers q →
    q.before.Preserves 0 q.after (holding (ownedByReply q.reply))

/-- What a compilation does on its own preserves code. -/
theorem Work.preserves {β : Type} (ho : host.Orderly) (x : Work β) (w : World) :
    w.Preserves x.takes (x.apply host w).2 (x.gives (x.apply host w).1) where
  code := .of_keeps (x.sheds host w).keeps
  covers _ hg := Work.covers ho hg

/-- The ledger of what preserves code. -/
def preservingCode (ho : host.Orderly) (hp : host.PreservesCode) : Ledger host :=
  .ofWork (fun w _ => ⟨.refl w.store, fun _ h => h⟩) .trans (fun g h => h.frame g)
    (fun x w => x.preserves ho w) hp.answers

/-! ## What is captured -/

namespace Descriptor

/-- A default that is captured as a reference is code. -/
theorem code_of_readDefault {attr : Value} {c : CellId}
    (h : readDefault host attr w = .ok (.ok (.value (.ref c)), w')) :
    (w'.store.code? (.ref c)).isSome := by
  rcases readDefault_eq_ok h with ⟨v, w₁, w₂, -, hcaptured⟩ | ⟨name, h⟩ | h
  · obtain ⟨rfl, hcode⟩ := captureDefault_eq_ok hcaptured
    exact hcode rfl
  · cases h
  · cases h

/-- A descriptor that is complete has what it captured in hand, and what it captured as a reference
is code. -/
theorem code_of_compile (ho : host.Orderly) (hp : host.PreservesCode) {attr : Value}
    {d : Descriptor} {k : Holding} (hw : w.Covers k)
    (h : compile host attr w = .ok (.ok d, w')) :
    w'.Covers (holding d.owned + k) ∧
      ∀ c, d.default = .value (.ref c) → (w'.store.code? (.ref c)).isSome := by
  have hstep :=
    (Ledger.meets_compile (L := preservingCode ho hp) attr w).done _ _ h
  have hcov : w'.Covers (holding d.owned + k) := hstep.covers k (by rwa [zero_add])
  refine ⟨hcov, fun c hdef => ?_⟩
  have halive : w'.store.alive c := by
    refine hcov.alive (Nat.add_pos_left ?_ _)
    rw [d.holding_owned_cell, if_pos hdef]
    exact Nat.add_pos_left Nat.one_pos _
  obtain ⟨-, w₁, w₂, w₃, hdefault, hinit, rfl⟩ := compile_eq_ok h
  rw [hdef] at hdefault
  have hcode := code_of_readDefault hdefault
  -- host code is asked for the initializer in between
  rw [← Dialogue.run_initializer] at hinit
  have hlast := ((Dialogue.balanced_initializer attr).meets
    (L := preservingCode ho hp) w₂).done _ _ hinit
  have hrest : w₃.store.Keeps ((w₃.store.retain [.weakCell d.origin]).note
      (.compiledDescriptor d.slot d.default.kind d.flags)) :=
    ((w₃.store.sheds_retain _).trans (Store.sheds_record _ _)).keeps
  exact (hlast.code.trans (.of_keeps hrest)).code? c hcode halive

end Descriptor

end MetaCache
