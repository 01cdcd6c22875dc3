import MetaCache.Proofs.Ownership.Update
import MetaCache.Proofs.Shortcut.Parallel
/-!
# Operations on parallel stores

Operations that do the same to both stores keep them parallel, as long as no generator goes and none
is written over. What concerns the owners and the calls of a generator may happen in one run only.

* `Store.Sheds.generators`: generators that are still there stay what they are.
* `Store.Parallel.adjust`, `Store.Parallel.remove`, `Store.Parallel.inside`: counts, and entries
  that go.
* `Store.Parallel.adjust_generator`, `Store.Parallel.recall_left`, `Store.Parallel.recall_right`:
  generators.
* `Store.Parallel.setReferent`, `Store.Parallel.newCell`: cells.
* `Store.Parallel.intern`: keys.
-/

namespace MetaCache

variable {κ : Classifier} {G : Generators} {s s' t : Store}

/-- Entries that correspond may be changed to others that do. -/
theorem Table.Twin.modify_at {α : Type} {R : α → α → Prop} {t u : Table α} (h : t.Twin R u)
    (i : Nat) {m m' : α → α}
    (hm : ∀ a b, t.find? i = some a → u.find? i = some b → R a b → R (m a) (m' b)) :
    (t.modify i m).Twin R (u.modify i m') := by
  refine ⟨h.next, fun j => ?_⟩
  rw [find?_modify, find?_modify]
  split
  · subst j
    rcases rel_cases (h.find? i) with ⟨ht, hu⟩ | ⟨a, b, ht, hu, hab⟩
    · rw [ht, hu]
      exact .none
    · rw [ht, hu]
      exact .some (hm a b ht hu hab)
  · exact h.find? j

theorem Table.modify_id {α : Type} (t : Table α) (i : Nat) : t.modify i (fun a => a) = t := by
  simp only [modify, modifyEntries_id]

namespace Store

/-! ## Generators that stay -/

/-- What is shed is no recognised code, if all such code is still there. -/
theorem Sheds.generators (h : s.Sheds s') (hc : ∀ c, (s.generators κ c).isSome → s'.alive c) :
    s'.generators κ = s.generators κ := by
  funext c
  by_cases halive : s'.alive c
  · exact generators_congr (congrArg (Option.map Cell.referent) (h.cell?_eq halive))
  · have hs : s.generators κ c = none := by
      by_contra hsome
      exact halive (hc c (Option.ne_none_iff_isSome.1 hsome))
    have hs' : s'.generators κ c = none := generators_eq_none fun a ha => by
      obtain ⟨x, hx, -⟩ := Option.map_eq_some_iff.1 ha
      exact (halive (alive_iff_cell?.2 ⟨x, hx⟩)).elim
    exact hs'.trans hs.symm

/-! ## Parallel stores -/

namespace Parallel

variable (h : s.Parallel κ G t)

include h

/-- Outside of recognised code the cells are the same. -/
theorem cell_find?_eq {c : CellId} (hc : G c = none) : s.cells.find? c = t.cells.find? c := by
  have href := h.generators ▸ hc
  rcases rel_cases (h.cells.find? c) with ⟨hs, ht⟩ | ⟨e, f, hs, ht, hef⟩
  · rw [hs, ht]
  · rcases hef.eq_or with rfl | ⟨a, _, k, he, -, ha, -⟩
    · rw [hs, ht]
    · have hsome : s.generators κ c = some k :=
        generators_eq_some.2 ⟨a, by rw [referent?, cell?, hs]; exact congrArg some he, ha⟩
      rw [hsome] at href
      cases href

theorem has_eq (x : Share) : s.has x = t.has x := by
  cases x with
  | cell c | weakCell c => exact h.alive_eq c
  | name n => exact congrArg (Table.contains · n) h.names
  | payload p | weakPayload p =>
    rw [has, has, Table.contains, Table.contains]
    rcases rel_cases (h.payloads.find? p) with ⟨hs, ht⟩ | ⟨_, _, hs, ht, -⟩ <;> rw [hs, ht]
    rfl

/-- Only generators have different numbers of owners. -/
theorem count_eq {x : Share} (hx : ∀ c, x = .cell c → G c = none) : s.count x = t.count x := by
  cases x with
  | cell c =>
    exact congrArg (fun e => (e.map Counted.strong).getD 0) (h.cell_find?_eq (hx c rfl))
  | weakCell c =>
    refine congrArg (Option.getD · 0) (map_eq_of_rel (h.cells.find? c) fun e f hef => ?_)
    cases hef <;> rfl
  | name n => exact congrArg (fun names => (Table.find? names n).getD 0) h.names
  | payload p =>
    exact congrArg (Option.getD · 0) (map_eq_of_rel (h.payloads.find? p) fun _ _ hef => hef.strong)
  | weakPayload p =>
    exact congrArg (Option.getD · 0) (map_eq_of_rel (h.payloads.find? p) fun _ _ hef => hef.weak)

/-- What is in an entry is given back in both runs. -/
theorem inside (x : Share) : Owned.Parallel G (s.inside x) (t.inside x) := by
  cases x with
  | cell c =>
    rw [Store.inside, Store.inside, cell?, cell?]
    rcases rel_cases (h.cells.find? c) with ⟨hs, ht⟩ | ⟨e, f, hs, ht, hef⟩
    · rw [hs, ht]
      exact .nil
    · rw [hs, ht]
      show Owned.Parallel G e.content.owned f.content.owned
      rw [hef.owned]
      exact .refl _
  | payload p =>
    rw [Store.inside, Store.inside, payload?, payload?]
    rcases rel_cases (h.payloads.find? p) with ⟨hs, ht⟩ | ⟨e, f, hs, ht, hef⟩
    · rw [hs, ht]
      exact .nil
    · rw [hs, ht]
      exact .held hef.content .nil
  | _ => exact .nil

theorem adjust (k : Nat → Nat) (x : Share) : (s.adjust k x).Parallel κ G (t.adjust k x) where
  generators := by
    rw [← h.generators]
    exact funext fun c =>
      generators_congr (congrArg (Option.map Cell.referent) (cell?_adjust s k x c))
  cells := by
    cases x with
    | cell c =>
      refine h.cells.modify c fun e f hef => ?_
      cases hef with
      | same e => exact .same _
      | generator ha hb hname hroutine x m n weak =>
        exact .generator ha hb hname hroutine x (k m) (k n) weak
    | weakCell c => exact h.cells.modify c fun e f hef => hef.withWeak k
    | _ => exact h.cells
  names := by
    cases x with
    | name n => exact congrArg (Table.modify · n k) h.names
    | _ => exact h.names
  payloads := by
    cases x with
    | payload p =>
      exact h.payloads.modify p fun e f hef => { hef with strong := congrArg k hef.strong }
    | weakPayload p =>
      exact h.payloads.modify p fun e f hef => { hef with weak := congrArg k hef.weak }
    | _ => exact h.payloads
  journal := by cases x <;> exact h.journal

/-- The entries of a generator in the two runs may be changed to others with such code. -/
theorem modifyGenerator {c : CellId} {k : ContainerKind} (hc : G c = some k)
    (m m' : Counted Cell → Counted Cell)
    (hm : ∀ e f, s.cells.find? c = some e → t.cells.find? c = some f → Cell.Parallel κ e f →
      (∃ a, e.content.referent = .code a ∧ κ a = some k) →
      Cell.Parallel κ (m e) (m' f) ∧ ∃ a, (m e).content.referent = .code a ∧ κ a = some k) :
    Store.Parallel κ G { s with cells := s.cells.modify c m }
      { t with cells := t.cells.modify c m' } := by
  have hat (e : Counted Cell) (he : s.cells.find? c = some e) :
      ∃ a, e.content.referent = .code a ∧ κ a = some k := by
    rw [← h.generators, generators_eq_some] at hc
    obtain ⟨a, hs, ha⟩ := hc
    rw [referent?, cell?, he] at hs
    exact ⟨a, Option.some.inj hs, ha⟩
  refine { h with generators := ?_, cells := ?_ }
  · rw [← h.generators]
    funext d
    by_cases hd : d = c
    · subst d
      rw [h.generators, hc, generators_eq_some]
      rcases rel_cases (h.cells.find? c) with ⟨hnone, -⟩ | ⟨e, f, he, hf, hef⟩
      · rw [← h.generators, generators_eq_some, referent?, cell?, hnone] at hc
        obtain ⟨_, hs, -⟩ := hc
        cases hs
      · obtain ⟨-, a, ha, hk⟩ := hm e f he hf hef (hat e he)
        refine ⟨a, ?_, hk⟩
        rw [referent?, cell?, Table.find?_modify_self, he]
        exact congrArg some ha
    · refine generators_congr ?_
      rw [referent?, cell?, Table.find?_modify_of_ne _ _ hd, referent?, cell?]
  · exact h.cells.modify_at c fun e f he hf hef => (hm e f he hf hef (hat e he)).1

/-- A generator is owned in each run by any number. -/
theorem adjust_generator {c : CellId} (hc : (G c).isSome) (k k' : Nat → Nat) :
    (s.adjust k (.cell c)).Parallel κ G (t.adjust k' (.cell c)) := by
  obtain ⟨kind, hkind⟩ := Option.isSome_iff_exists.1 hc
  exact h.modifyGenerator hkind _ _ fun e f _ _ hef hcode =>
    have ⟨_, he, ha⟩ := hcode
    ⟨hef.withStrong he ha _ _, hcode⟩

/-- A generator was called once more in the second run. -/
theorem recall_right {c : CellId} {b : Code} {k : ContainerKind} {n : Nat}
    (hb : t.referent? c = some (.code b)) (hk : κ b = some k)
    (hn : κ { b with runs := n } = some k) :
    s.Parallel κ G (t.setReferent c (.code { b with runs := n })) := by
  have hc : G c = some k := h.generators_right ▸ generators_eq_some.2 ⟨b, hb, hk⟩
  have hpar := h.modifyGenerator hc (fun e => e) (fun f =>
    { f with content := { f.content with referent := .code { b with runs := n } } })
    fun e f _ hf hef hcode => by
      rw [referent?, cell?, hf] at hb
      exact ⟨hef.withRuns (Option.some.inj hb) hk hn, hcode⟩
  rw [Table.modify_id] at hpar
  exact hpar

/-- A generator was called once more in the first run. -/
theorem recall_left {c : CellId} {a : Code} {k : ContainerKind} {n : Nat}
    (ha : s.referent? c = some (.code a)) (hk : κ a = some k)
    (hn : κ { a with runs := n } = some k) :
    (s.setReferent c (.code { a with runs := n })).Parallel κ G t := by
  have hc : G c = some k := h.generators ▸ generators_eq_some.2 ⟨a, ha, hk⟩
  have hpar := h.modifyGenerator hc (fun e =>
    { e with content := { e.content with referent := .code { a with runs := n } } }) (fun e => e)
    fun e f he _ hef _ => by
      rw [referent?, cell?, he] at ha
      exact ⟨(hef.symm.withRuns (Option.some.inj ha) hk hn).symm, _, rfl, hn⟩
  rw [Table.modify_id] at hpar
  exact hpar

/-- Outside of recognised code a cell gets another such referent in both runs. -/
theorem setReferent {c : CellId} (hc : G c = none) {r : Referent}
    (hr : ∀ a, r = .code a → κ a = none) :
    (s.setReferent c r).Parallel κ G (t.setReferent c r) := by
  refine { h with generators := ?_, cells := ?_ }
  · rw [← h.generators] at hc ⊢
    funext d
    by_cases hd : d = c
    · subst d
      rw [hc]
      refine generators_eq_none fun a ha => ?_
      obtain ⟨x, hx, hxa⟩ := Option.map_eq_some_iff.1 ha
      rw [Store.setReferent, cell?_writeCell, if_pos rfl] at hx
      obtain ⟨y, -, rfl⟩ := Option.map_eq_some_iff.1 hx
      exact hr a hxa
    · refine generators_congr ?_
      rw [referent?, Store.setReferent, cell?_writeCell, if_neg hd, referent?]
  · refine h.cells.modify_at c fun e f he hf _ => ?_
    rw [Option.some.inj (he.symm.trans ((h.cell_find?_eq hc).trans hf))]
    exact .same _

theorem newName (text : String) :
    (s.newName text).1 = (t.newName text).1 ∧ (s.newName text).2.Parallel κ G (t.newName text).2 :=
  ⟨congrArg (fun names : Table Nat => (⟨names.next, text⟩ : SharedName)) h.names,
    { h with names := congrArg (Table.insert · 1) h.names }⟩

theorem present_eq (o : Owned) : s.present o = t.present o := by
  cases o with
  | cell c => exact h.alive_eq c
  | name n => exact h.has_eq (.name n)
  | payload p => exact h.has_eq (.payload p)
  | _ => rfl

omit h in
theorem retain (h : s.Parallel κ G t) (os : List Owned) :
    (s.retain os).Parallel κ G (t.retain os) := by
  induction os generalizing s t with
  | nil => exact h
  | cons o rest ih =>
    refine ih ?_
    cases hx : o.plain? with
    | some x =>
      rw [retainOne_eq hx, retainOne_eq hx]
      exact h.adjust (· + 1) x
    | none =>
      obtain ⟨p, rfl⟩ := Owned.exists_of_plain?_eq_none hx
      exact h

/-- A new cell, unless it is one of recognised code. -/
theorem newCell {r : Referent} (hr : ∀ a, r = .code a → κ a = none) :
    (s.newCell r).1 = (t.newCell r).1 ∧ (s.newCell r).2.Parallel κ G (t.newCell r).2 := by
  refine ⟨h.cells.next, { h with generators := ?_, cells := h.cells.insert (.same _) }⟩
  rw [← h.generators]
  funext d
  by_cases hd : d = s.cells.next
  · subst d
    have hold : s.referent? s.cells.next = none := by
      rw [referent?, cell?, Table.find?_next]
      rfl
    have hnew : (s.newCell r).2.referent? s.cells.next = some r :=
      (s.referent?_newCell r _).trans (if_pos rfl)
    rw [generators_eq_none (s := s) fun a ha => by rw [hold] at ha; cases ha]
    exact generators_eq_none fun a ha => hr a (Option.some.inj (hnew.symm.trans ha))
  · refine generators_congr ?_
    rw [referent?_newCell, if_neg hd]

theorem remove {x : Share} (hx : x.isStrong) (hc : ∀ c, x = .cell c → G c = none) :
    (s.remove x).Parallel κ G (t.remove x) where
  generators := by
    rw [← h.generators]
    refine (s.sheds_remove x).generators fun c hsome => ?_
    obtain ⟨k, hk⟩ := Option.isSome_iff_exists.1 hsome
    obtain ⟨a, ha, -⟩ := generators_eq_some.1 hk
    obtain ⟨y, hy, -⟩ := Option.map_eq_some_iff.1 ha
    have hne : Share.cell c ≠ x := by
      rintro rfl
      rw [h.generators, hc c rfl] at hsome
      cases hsome
    exact alive_iff_cell?.2 ⟨y, (cell?_remove_of_ne hne).trans hy⟩
  cells := by
    cases x with
    | cell c => exact h.cells.erase c
    | _ => exact h.cells
  names := by
    cases x with
    | name n => exact congrArg (Table.erase · n) h.names
    | _ => exact h.names
  payloads := by
    cases x with
    | payload p => exact h.payloads.erase p
    | _ => exact h.payloads
  journal := by cases x <;> exact h.journal

theorem record {e e' : Event}
    (he : [e].filter Event.lasting = [e'].filter Event.lasting) :
    (s.record e).Parallel κ G (t.record e') where
  generators := h.generators
  cells := h.cells
  names := h.names
  payloads := h.payloads
  journal := by
    show ([e] ++ s.journal).filter _ = ([e'] ++ t.journal).filter _
    rw [List.filter_append, List.filter_append, he, h.journal]

/-! ## Keys -/

theorem nameAlive_eq : s.nameAlive = t.nameAlive :=
  funext fun n => congrArg (Table.contains · n.id) h.names

theorem sweepIfDue (keys : KeyTable) : (keys.sweepIfDue s).1 = (keys.sweepIfDue t).1 ∧
    (keys.sweepIfDue s).2.Parallel κ G (keys.sweepIfDue t).2 := by
  unfold KeyTable.sweepIfDue
  split
  · have hlive : keys.liveBuckets s = keys.liveBuckets t := by
      rw [KeyTable.liveBuckets, KeyTable.liveBuckets, h.nameAlive_eq]
    rw [KeyTable.sweep, KeyTable.sweep, hlive]
    exact ⟨rfl, h.record rfl⟩
  · exact ⟨rfl, h⟩

theorem internInBucket (hash : UInt32) (name : String) (bucket : List SharedName)
    (keys : KeyTable) :
    (keys.internInBucket hash name bucket s).1 = (keys.internInBucket hash name bucket t).1 ∧
      (keys.internInBucket hash name bucket s).2.1 =
        (keys.internInBucket hash name bucket t).2.1 ∧
      (keys.internInBucket hash name bucket s).2.2.Parallel κ G
        (keys.internInBucket hash name bucket t).2.2 := by
  obtain ⟨hname, hnew⟩ := h.newName name
  simp only [KeyTable.internInBucket, h.nameAlive_eq, hname]
  split
  · exact ⟨rfl, rfl, h.retain _⟩
  · refine ⟨rfl, rfl, ?_⟩
    split
    · exact hnew
    · exact hnew.record rfl

/-- The same key is made in both runs. -/
theorem intern (hash : String → UInt32) (name : String) (keys : KeyTable) :
    (keys.intern hash name s).1 = (keys.intern hash name t).1 ∧
      (keys.intern hash name s).2.1 = (keys.intern hash name t).2.1 ∧
      (keys.intern hash name s).2.2.Parallel κ G (keys.intern hash name t).2.2 := by
  obtain ⟨hkeys, hswept⟩ := h.sweepIfDue keys
  simp only [KeyTable.intern, hkeys]
  split
  · exact hswept.internInBucket _ _ _ _
  · obtain ⟨hname, hnew⟩ :=
      (hswept.record (e := .note (.newKey name (hash name))) rfl).newName name
    exact ⟨by rw [Store.note, hname]; rfl, by rw [Store.note, hname]; rfl, hnew⟩

end Parallel

end Store

end MetaCache
