import MetaCache.Proofs.Compile.Books
import MetaCache.Proofs.Ownership.Counts
import MetaCache.Proofs.Ownership.KeyNames
/-!
# A compilation under way

While something is compiled, all that was there before stays as it was and is counted as before but
for the shares that the compilation has in hand. What is made on the way, by the compilation or for
the replies to its questions, holds nothing that was there before, and nobody else holds the names
that are interned. So what is counted in the end is told by what is in hand in the end.

* `Store.Extends`: a store and a later one in which nothing that was there has changed;
  `Store.extends_retain`, `Store.extends_newName`.
* `World.Lends`, `Host.Lends`: answers without side effects.
* `Ongoing`: the invariant of a compilation.
* `Ongoing.step`, `Ongoing.adjust`, `Ongoing.remove`: contents left alone, a count changed, and an
  entry gone.
* `Ongoing.retainOne`, `Ongoing.release`, `Ongoing.upgrade`: what shares taken and given back make
  of it.
-/

namespace MetaCache

namespace Store

variable {s s' s'' : Store} {x : Share}

/-- Nothing that was there is gone or has changed, and nothing that was gone has come back. -/
structure Extends (s s' : Store) : Prop where
  old : ∀ x : Share, x.OldIn s → x.OldIn s'
  has : ∀ x : Share, x.OldIn s → s'.has x = s.has x
  cell? : ∀ c < s.cells.next, s'.cell? c = s.cell? c
  payload? : ∀ p < s.payloads.next, s'.payload? p = s.payload? p

namespace Extends

theorem refl (s : Store) : s.Extends s :=
  ⟨fun _ h => h, fun _ _ => rfl, fun _ _ => rfl, fun _ _ => rfl⟩

theorem trans (h : s.Extends s') (h' : s'.Extends s'') : s.Extends s'' where
  old x hx := h'.old x (h.old x hx)
  has x hx := (h'.has x (h.old x hx)).trans (h.has x hx)
  cell? c hc := (h'.cell? c (h.old (.cell c) hc)).trans (h.cell? c hc)
  payload? p hp := (h'.payload? p (h.old (.payload p) hp)).trans (h.payload? p hp)

theorem inside_eq (h : s.Extends s') (hx : x.OldIn s) : s'.inside x = s.inside x :=
  inside_congr (fun c hc => h.cell? c (by rw [hc] at hx; exact hx))
    fun p hp => h.payload? p (by rw [hp] at hx; exact hx)

end Extends

theorem extends_retain (s : Store) (os : List Owned) : s.Extends (s.retain os) where
  old x hx := retain_induction (P := fun t => x.OldIn t)
    (fun t y h => (t.oldIn_adjust _ y x).2 h) hx os
  has x _ := s.has_retain os x
  cell? c _ := s.cell?_retain os c
  payload? p _ := s.payload?_retain os p

theorem extends_newName (s : Store) (text : String) : s.Extends (s.newName text).2 where
  old x hx := by
    cases x with
    | name n => exact Nat.lt_succ_of_lt hx
    | _ => exact hx
  has x hx := by
    refine has_newName_of_ne text ?_
    rintro rfl
    exact Nat.lt_irrefl _ hx
  cell? _ _ := rfl
  payload? _ _ := rfl

end Store

/-! ## Answers without side effects -/

/-- From `w` to `w'` a reply was given and nothing else done: all that was there is as it was, and
has the shares that the reply gives and no others in addition. What is new, the reply may have been
made of, and it holds new things only. -/
structure World.Lends (w : World) (reply : Except HostError (List Value)) (w' : World) : Prop
    extends w.store.Extends w'.store where
  keys : w'.cache.keys = w.cache.keys
  count : ∀ x, w.store.has x →
    w'.store.count x = w.store.count x + holding (ownedByReply reply) x
  young : ∀ x, ¬ x.OldIn w.store → ∀ y, 0 < holding (w'.store.inside x) y →
    ¬ y.OldIn w.store ∧ y.OldIn w'.store
  attended : w.store.Attended → w'.store.Attended
  covers : ∀ f, w.Covers f → w'.Covers (holding (ownedByReply reply) + f)

/-- What metaobjects are asked has no side effects. -/
def Host.Lends (host : Host) : Prop :=
  ∀ {q : Query} {f : Holding}, host.Answers q → q.before.Covers f → q.before.Lends q.reply q.after

/-! ## The invariant -/

/-- The share is of something that was there in `w₀`, or of a name in the table of `w`. -/
def World.Watches (w₀ w : World) (x : Share) : Prop :=
  w₀.store.has x ∨ ∃ n ∈ w.cache.keys.names, x = .name n.id

/-- A compilation that began in `w₀`, where its caller and others held `k`, has come to `w` with `f`
in hand. -/
structure Ongoing (w₀ : World) (k : Holding) (w : World) (f : Holding) : Prop
    extends w₀.store.Extends w.store where
  covers : w.Covers (f + k)
  attended : w.store.Attended
  /-- What is watched is counted as before but for what is in hand. -/
  count : ∀ x, w₀.Watches w x → w.store.count x = w₀.store.count x + f x
  /-- What is new holds nothing that is watched. -/
  young : ∀ x, ¬ x.OldIn w₀.store → ∀ y, 0 < holding (w.store.inside x) y →
    y.OldIn w.store ∧ ¬ w₀.Watches w y
  known : ∀ n ∈ w.cache.keys.names, (Share.name n.id).OldIn w.store
  /-- The names that were held before are in the table as they were. -/
  table : w.cache.keys.names.filter w₀.store.nameAlive =
    w₀.cache.keys.names.filter w₀.store.nameAlive

variable {host : Host} {w₀ w w' : World} {k f f' g : Holding} {x : Share}

namespace Ongoing

theorem start (hcov : w₀.Covers k) (hat : w₀.store.Attended)
    (hknown : ∀ n ∈ w₀.cache.keys.names, (Share.name n.id).OldIn w₀.store) :
    Ongoing w₀ k w₀ 0 where
  toExtends := .refl _
  covers := by rwa [zero_add]
  attended := hat
  count _ _ := rfl
  young x hx y hy := by
    rw [Store.inside_of_not_has fun hh => hx (Store.oldIn_of_has hh)] at hy
    cases hy
  known := hknown
  table := rfl

/-- What is in hand may be told in another way. -/
theorem recast (h : Ongoing w₀ k w f) (hcov : w.Covers (f' + k))
    (hhand : ∀ x, w₀.Watches w x → f x = f' x) : Ongoing w₀ k w f' :=
  { h with
    covers := hcov
    count := fun x hx => (h.count x hx).trans (congrArg _ (hhand x hx)) }

/-- A step that leaves the key table and all contents as they are, but that something new may
go. -/
theorem step (h : Ongoing w₀ k w f) (hkeys : w'.cache.keys = w.cache.keys)
    (hold : ∀ x : Share, x.OldIn w.store → x.OldIn w'.store)
    (hhas : ∀ x : Share, x.OldIn w₀.store → w'.store.has x = w.store.has x)
    (hcell : ∀ c < w₀.store.cells.next, w'.store.cell? c = w.store.cell? c)
    (hpayload : ∀ p < w₀.store.payloads.next, w'.store.payload? p = w.store.payload? p)
    (hinside : ∀ x y, 0 < holding (w'.store.inside x) y → 0 < holding (w.store.inside x) y)
    (hcov : w'.Covers (f' + k)) (hat : w'.store.Attended)
    (hcount : ∀ x, w₀.Watches w x → w'.store.count x + f x = w.store.count x + f' x) :
    Ongoing w₀ k w' f' where
  old x hx := hold x (h.old x hx)
  has x hx := (hhas x hx).trans (h.has x hx)
  cell? c hc := (hcell c hc).trans (h.cell? c hc)
  payload? p hp := (hpayload p hp).trans (h.payload? p hp)
  covers := hcov
  attended := hat
  count x hx := by
    rw [World.Watches, hkeys] at hx
    have h₁ := hcount x hx
    have h₂ := h.count x hx
    omega
  young x hx y hy := by
    obtain ⟨hyold, hyw⟩ := h.young x hx y (hinside x y hy)
    refine ⟨hold y hyold, ?_⟩
    rwa [World.Watches, hkeys]
  known n hn := by
    rw [hkeys] at hn
    exact hold _ (h.known n hn)
  table := by
    rw [hkeys]
    exact h.table

/-- What is seen changes nothing. -/
theorem record (h : Ongoing w₀ k w f) (e : Event) : Ongoing w₀ k (w.onStore (·.record e)) f :=
  h.step rfl (fun _ hx => hx) (fun _ _ => rfl) (fun _ _ => rfl) (fun _ _ => rfl)
    (fun _ _ hy => hy) h.covers h.attended fun _ _ => rfl

/-- A count that changes. -/
theorem adjust (h : Ongoing w₀ k w f) (m : Nat → Nat) (x : Share)
    (hcov : (w.onStore (·.adjust m x)).Covers (f' + k)) (hat : (w.store.adjust m x).Attended)
    (hcount : ∀ y, w₀.Watches w y →
      (w.store.adjust m x).count y + f y = w.store.count y + f' y) :
    Ongoing w₀ k (w.onStore (·.adjust m x)) f' := by
  refine h.step rfl (fun y hy => (w.store.oldIn_adjust m x y).2 hy)
    (fun y _ => w.store.has_adjust m x y)
    (fun c _ => w.store.cell?_adjust m x c) (fun p _ => w.store.payload?_adjust m x p)
    (fun y z hz => ?_) hcov hat hcount
  have hinside : (w.store.adjust m x).inside y = w.store.inside y :=
    Store.inside_congr (fun c _ => w.store.cell?_adjust m x c)
      fun p _ => w.store.payload?_adjust m x p
  exact hinside ▸ hz

theorem has_of_watches (h : Ongoing w₀ k w f) (hx : w₀.store.has x) : w.store.has x :=
  (h.has x (Store.oldIn_of_has hx)).trans hx

/-- What is watched and in hand is there. -/
theorem has_of_pos (h : Ongoing w₀ k w f) (hx : w₀.Watches w x) (hpos : 0 < f x) :
    w.store.has x := by
  by_contra hno
  have hcount := h.count x hx
  rw [Store.count_of_not_has hno] at hcount
  omega

/-- What is not there is in nobody's hand. -/
theorem hand_eq_zero (h : Ongoing w₀ k w f) (hs : x.isStrong) (hno : ¬ w.store.has x) :
    f x = 0 := by
  have hcov := h.covers x hs
  rw [Store.count_of_not_has hno, Pi.add_apply, Pi.add_apply] at hcov
  omega

/-- What is counted no more often than it is in hand was not there in the beginning, or else it
would have another owner. -/
theorem not_oldIn (hat₀ : w₀.store.Attended) (h : Ongoing w₀ k w f) (hs : x.isStrong)
    (hhas : w.store.has x) (hle : w.store.count x ≤ f x) : ¬ x.OldIn w₀.store := by
  intro hold
  have hhas₀ : w₀.store.has x := (h.has x hold).symm.trans hhas
  have hcount := h.count x (.inl hhas₀)
  have hpos := hat₀ x hs hhas₀
  omega

/-- A share taken. -/
theorem retainOne (h : Ongoing w₀ k w f) {o : Owned} (ho : o.plain? = some x)
    (hx : x.isStrong → w.store.has x) :
    Ongoing w₀ k (w.onStore (·.retainOne o)) (holding [o] + f) := by
  have hpres : w.store.present o := by
    cases o with
    | held _ => cases ho
    | weakCell _ | weakPayload _ => rfl
    | cell _ | name _ | payload _ => cases ho; exact hx rfl
  have hcov : (w.onStore (·.retainOne o)).Covers (holding [o] + f + k) := by
    rw [add_assoc]
    have hone : (w.onStore (·.retain [o])).Covers (holding [o] + (f + k)) :=
      h.covers.retain fun p hp => by rw [List.mem_singleton.1 hp]; exact hpres
    exact hone
  have hcount : ∀ y, w₀.Watches w y →
      (w.store.retainOne o).count y = w.store.count y + holding [o] y := fun y hy =>
    Store.count_retainOne ho fun hyx => by
      rcases hy with hy | ⟨n, -, rfl⟩
      · exact h.has_of_watches hy
      · subst hyx
        exact hx rfl
  have hat : (w.store.retainOne o).Attended := h.attended.retain [o]
  rw [World.onStore] at hcov ⊢
  rw [Store.retainOne_eq ho] at hat hcov hcount ⊢
  refine h.adjust _ x hcov hat fun y hy => ?_
  rw [hcount y hy, Pi.add_apply]
  omega

/-- A share given back of what others hold as well. -/
theorem lower {o : Owned} (ho : o.plain? = some x) (h : Ongoing w₀ k w (holding [o] + f))
    (hcov : (w.onStore (·.adjust (· - 1) x)).Covers (f + k))
    (hat : (w.store.adjust (· - 1) x).Attended) :
    Ongoing w₀ k (w.onStore (·.adjust (· - 1) x)) f := by
  refine h.adjust _ x hcov hat fun y hy => ?_
  have hcount := h.count y hy
  rw [Pi.add_apply, holding_plain ho] at hcount ⊢
  by_cases hyx : y = x
  · subst hyx
    rw [if_pos rfl] at hcount ⊢
    have hpos : 0 < (holding [o] + f) y := by
      rw [Pi.add_apply, holding_plain ho, if_pos rfl]
      exact Nat.add_pos_left Nat.one_pos _
    rw [Store.count_adjust_self _ (h.has_of_pos hy hpos)]
    omega
  · rw [if_neg hyx, Store.count_adjust_of_ne _ _ hyx, zero_add]

/-- The last share given back: the entry goes, and what it held is in hand. -/
theorem remove (hat₀ : w₀.store.Attended) {o : Owned} (ho : o.plain? = some x)
    (h : Ongoing w₀ k w (holding [o] + f)) (hs : x.isStrong) (hhas : w.store.has x)
    (hone : w.store.count x ≤ 1)
    (hcov : (w.onStore (·.remove x)).Covers (holding (w.store.inside x) + f + k))
    (hat : (w.store.remove x).Attended) :
    Ongoing w₀ k (w.onStore (·.remove x)) (holding (w.store.inside x) + f) := by
  have hhand : (holding [o] + f) x = 1 + f x := by
    rw [Pi.add_apply, holding_plain ho, if_pos rfl]
  have hnew : ¬ x.OldIn w₀.store := h.not_oldIn hat₀ hs hhas (by omega)
  have hne : ∀ y : Share, y.OldIn w₀.store → y.entry ≠ x := fun y hy hyx =>
    hnew (hyx ▸ (y.oldIn_entry _).2 hy)
  refine h.step rfl (fun y hy => ?_) (fun y hy => (Store.remove_of_ne (hne y hy)).1)
    (fun c hc => Store.cell?_remove_of_ne (hne (.cell c) hc))
    (fun p hp => Store.payload?_remove_of_ne (hne (.payload p) hp)) (fun y z hz => ?_) hcov hat
    fun y hy => ?_
  · cases x <;> cases y <;> exact hy
  · have hz : 0 < holding ((w.store.remove x).inside y) z := hz
    rw [Store.inside_remove hs] at hz
    split at hz
    · cases hz
    · exact hz
  · -- what is new holds nothing that is watched
    have hinside : holding (w.store.inside x) y = 0 := by
      by_contra hpos
      exact (h.young x hnew y (Nat.pos_of_ne_zero hpos)).2 hy
    rw [Pi.add_apply, Pi.add_apply, holding_plain ho, hinside]
    show (w.store.remove x).count y + _ = w.store.count y + _
    by_cases hyx : y = x
    · subst hyx
      have hcount := h.count y hy
      rw [if_pos rfl, Store.count_of_not_has (Store.not_has_remove_self hs)]
      omega
    · have hyne : y.entry ≠ x := by
        rcases hy with hy | ⟨n, -, rfl⟩
        · exact hne y (Store.oldIn_of_has hy)
        · exact hyx
      rw [if_neg hyx, (Store.remove_of_ne hyne).2, zero_add]

/-- A share given back; what has to be given back in consequence is in hand then. -/
theorem releaseOne (hat₀ : w₀.store.Attended) {o : Owned} (h : Ongoing w₀ k w (holding [o] + f)) :
    Ongoing w₀ k (w.onStore fun s => (s.releaseOne o).2)
      (holding (w.store.releaseOne o).1 + f) := by
  have hcov : (w.onStore fun s => (s.releaseOne o).2).Covers
      (holding (w.store.releaseOne o).1 + f + k) := by
    have hc := h.covers
    rw [add_assoc] at hc ⊢
    rw [World.Covers, add_left_comm] at hc ⊢
    exact hc.releaseOne
  have hat := h.attended.releaseOne o
  rw [World.onStore] at hcov ⊢
  cases ho : o.plain? with
  | none =>
    obtain ⟨p, rfl⟩ := Owned.exists_of_plain?_eq_none ho
    refine (h.recast hcov fun y _ => ?_).record (Store.farewell p)
    rw [holding_held]
    rfl
  | some x =>
    rcases Store.releaseOne_cases ho w.store with ⟨hr, hno⟩ | ⟨hr, -⟩ | ⟨hr, hs, hhas, hone⟩
    · rw [hr] at hcov ⊢
      refine h.recast hcov fun y hy => ?_
      have hyx : y ≠ x := by
        rintro rfl
        refine hno (h.has_of_pos hy ?_)
        rw [Pi.add_apply, holding_plain ho, if_pos rfl]
        exact Nat.add_pos_left Nat.one_pos _
      rw [Pi.add_apply, Pi.add_apply, holding_plain ho, if_neg hyx, holding_nil]
      rfl
    · rw [hr] at hcov hat ⊢
      rw [holding_nil, zero_add] at hcov ⊢
      exact h.lower ho hcov hat
    · rw [hr] at hcov hat ⊢
      exact h.remove hat₀ ho hs hhas hone hcov hat

theorem release (hat₀ : w₀.store.Attended) {os : List Owned}
    (h : Ongoing w₀ k w (holding os + f)) : Ongoing w₀ k (w.onStore (·.release os)) f := by
  suffices H : ∀ (s : Store) (os : List Owned) (w : World), w.store = s →
      Ongoing w₀ k w (holding os + f) →
      Ongoing w₀ k { w with store := s.release os } f from H w.store os w rfl h
  intro s os
  induction s, os using Store.release.induct with
  | case1 s =>
    rintro w rfl h
    rw [holding_nil, zero_add] at h
    rw [Store.release_nil]
    exact h
  | case2 s o rest _ ih =>
    rintro w rfl h
    rw [holding_cons, add_assoc] at h
    rw [Store.release_cons]
    refine ih (w.onStore fun s => (s.releaseOne o).2) rfl ?_
    rw [holding_append, add_assoc]
    exact h.releaseOne hat₀

/-- A weak reference made strong, or given up for nothing. -/
theorem upgrade (hat₀ : w₀.store.Attended) {v : Value}
    (h : Ongoing w₀ k w (holding v.owned + f)) :
    Ongoing w₀ k { w with store := (w.store.upgrade v).2 }
      (holding (w.store.upgrade v).1.owned + f) := by
  cases v with
  | weak c =>
    simp only [Store.upgrade]
    split
    · rename_i hc
      have hstrong := h.retainOne (o := .cell c) rfl fun _ => hc
      rw [add_left_comm] at hstrong
      exact hstrong.release hat₀
    · rename_i hc
      refine h.recast ?_ fun y hy => ?_
      · have hcov := h.covers
        rw [add_assoc] at hcov
        show w.Covers (0 + f + k)
        rw [zero_add]
        exact hcov.of_add
      · have hyc : y ≠ .weakCell c := by
          rintro rfl
          rcases hy with hy | ⟨n, -, hn⟩
          · exact hc (h.has_of_watches hy)
          · cases hn
        rw [Pi.add_apply, Value.owned, holding_plain rfl, if_neg hyc]
        rfl
  | _ => exact h

end Ongoing

end MetaCache
