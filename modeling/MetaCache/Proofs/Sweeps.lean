import MetaCache.Proofs.Custody.Hosts
import MetaCache.Proofs.Custody.Sizes
/-!
# What sweeping the key table costs

The key table is swept when a name is asked for and the table has twice as many entries as the
latest sweep kept, or 64 if these are more. So the table is never larger than that, however the keys
die and whenever it is swept on request; and what it grew by since the latest sweep pays for the
next one. A sweep that a name causes looks at no more than twice the names that were asked for since
the sweep before.

* `Estate.kept`: what the latest sweep of a run kept.
* `Estate.examined`, `Estate.asked`: what the sweeps looked at, and how often a name was asked for.
* `Estate.Noted`: the table has noted just these sweeps, and these numbers; `Estate.Turn.sweeps_eq`.
* `Estate.Paid`: the account of a run; `Estate.Paid.turn`, `Estate.Run.paid`.
* `Estate.sweep_bound`: the two bounds.
-/

namespace MetaCache.Estate

variable {hash : String → UInt32} {e d : Estate} {ts : List Turn} {a : Act} {t : Turn}

/-- A name is asked for in a turn. -/
def Turn.asks (t : Turn) : Bool :=
  match t.act with
  | .intern _ => true
  | _ => false

/-- The table is swept in a turn, on request or because a name is asked for. -/
def Turn.sweeps (t : Turn) : Bool :=
  match t.act with
  | .sweep => true
  | .intern _ => t.before.table.Due
  | _ => false

/-- The number of entries that a sweep looks at which a name causes: all there are. -/
def Turn.examined (t : Turn) : Nat :=
  if t.asks ∧ t.sweeps then t.before.table.names.length else 0

/-- The number of live entries at the latest sweep of a run, 0 if there was none. -/
def kept (ts : List Turn) : Nat :=
  (((ts.filter Turn.sweeps).getLast?).map fun t => t.before.table.liveCount t.before.store).getD 0

/-- The number of entries that the sweeps of a run looked at, those on request apart. -/
def examined (ts : List Turn) : Nat := sumOf Turn.examined ts

/-- How often a name was asked for. -/
def asked (ts : List Turn) : Nat := ts.countP Turn.asks

/-- The sweep of a turn, if there is one: how many entries are kept, of how many. -/
def Turn.told (t : Turn) : Option (Nat × Nat) :=
  if t.sweeps then some (t.before.table.liveCount t.before.store, t.before.table.tracked) else none

/-- The sweeps of a run are those that the table has noted, and what they kept and looked at is what
was noted. -/
structure Noted (hash : String → UInt32) (ts : List Turn) : Prop where
  /-- Whatever is done, but for writing a note, no sweep is noted except that of the turn. -/
  notes : ∀ t ∈ ts, (∀ n, t.act ≠ .note n) →
    (t.after hash).store.sweeps = t.told.toList ++ t.before.store.sweeps
  kept : kept ts = ((ts.filterMap Turn.told).getLast?.map Prod.fst).getD 0
  examined : examined ts = (((ts.filter Turn.asks).filterMap Turn.told).map Prod.snd).sum

theorem kept_snoc_of_sweeps (ts : List Turn) (h : t.sweeps) :
    kept (ts ++ [t]) = t.before.table.liveCount t.before.store := by
  rw [kept, List.filter_append, List.filter_cons_of_pos h, List.filter_nil, List.getLast?_concat]
  rfl

theorem kept_snoc_of_not_sweeps (ts : List Turn) (h : ¬ t.sweeps) : kept (ts ++ [t]) = kept ts := by
  rw [kept, List.filter_append, List.filter_cons_of_neg h, List.filter_nil, List.append_nil, kept]

theorem examined_snoc (ts : List Turn) (t : Turn) :
    examined (ts ++ [t]) = examined ts + t.examined := by
  simp [examined]

theorem asked_snoc (ts : List Turn) (t : Turn) :
    asked (ts ++ [t]) = asked ts + if t.asks then 1 else 0 := by
  rw [asked, List.countP_append, List.countP_singleton, asked]

/-- The account of a run that has come to `d`: each name that is asked for pays for two entries, and
what the table grew by since the latest sweep has not been spent. -/
structure Paid (ts : List Turn) (d : Estate) : Prop where
  tallied : d.table.Tallied
  sweepAt : d.table.sweepAt = max (2 * kept ts) sweepFloor
  tracked_le : d.table.tracked ≤ d.table.sweepAt
  paid : examined ts ≤ 2 * asked ts
  saved : examined ts + 2 * d.table.tracked ≤ 2 * asked ts + 2 * kept ts

namespace Paid

/-- A sweep on request costs nothing and keeps no more than there was. -/
theorem sweep (h : Paid ts d) : Paid (ts ++ [⟨d, .sweep⟩]) (d.after hash .sweep) := by
  have hkept : kept (ts ++ [⟨d, .sweep⟩]) = d.table.liveCount d.store :=
    kept_snoc_of_sweeps ts rfl
  have hexamined : examined (ts ++ [⟨d, .sweep⟩]) = examined ts := examined_snoc ts _
  have hasked : asked (ts ++ [⟨d, .sweep⟩]) = asked ts := asked_snoc ts _
  have htracked := KeyTable.tracked_sweep d.table d.store
  have hsweepAt := KeyTable.sweepAt_sweep d.table d.store
  have hpaid := h.paid
  constructor
  case tallied => exact KeyTable.tallied_sweep d.table d.store
  case sweepAt => rw [hkept]; exact hsweepAt
  case tracked_le =>
    show (d.table.sweep d.store).1.tracked ≤ (d.table.sweep d.store).1.sweepAt
    omega
  case paid => omega
  case saved =>
    show _ + 2 * (d.table.sweep d.store).1.tracked ≤ _
    omega

/-- A name that is asked for while there is room for it. -/
theorem intern_of_not_due (h : Paid ts d) (hdue : ¬ d.table.Due) (name : String) :
    Paid (ts ++ [⟨d, .intern name⟩]) (d.after hash (.intern name)) := by
  have hsweeps : ¬ (⟨d, .intern name⟩ : Turn).sweeps := by simpa [Turn.sweeps] using hdue
  have hcost : (⟨d, .intern name⟩ : Turn).examined = 0 := if_neg fun hc => hsweeps hc.2
  have hkept := kept_snoc_of_not_sweeps ts hsweeps
  have hexamined := examined_snoc ts ⟨d, .intern name⟩
  have hasked : asked (ts ++ [⟨d, .intern name⟩]) = asked ts + 1 := asked_snoc ts _
  obtain ⟨htallied, htracked, hsweepAt⟩ := KeyTable.grows_intern h.tallied hash name d.store
  rw [KeyTable.sweepIfDue_of_not_due hdue] at htracked hsweepAt
  have hroom : d.table.tracked < d.table.sweepAt := Nat.lt_of_not_le hdue
  have hpaid := h.paid
  have hsaved := h.saved
  constructor
  case tallied => exact htallied
  case sweepAt => rw [hkept]; exact hsweepAt.trans h.sweepAt
  case tracked_le =>
    show (d.table.intern hash name d.store).2.1.tracked ≤ _
    exact hsweepAt ▸ Nat.le_trans htracked hroom
  case paid => omega
  case saved =>
    show _ + 2 * (d.table.intern hash name d.store).2.1.tracked ≤ _
    dsimp only at htracked
    omega

/-- A name that causes a sweep. The table has as many entries then as its next sweep waits for; half
of them at least have come since the latest sweep, and pay for this one. -/
theorem intern_of_due (h : Paid ts d) (hdue : d.table.Due) (name : String) :
    Paid (ts ++ [⟨d, .intern name⟩]) (d.after hash (.intern name)) := by
  have hsweeps : (⟨d, .intern name⟩ : Turn).sweeps := by simpa [Turn.sweeps] using hdue
  have hcost : (⟨d, .intern name⟩ : Turn).examined = d.table.tracked :=
    (if_pos ⟨rfl, hsweeps⟩).trans h.tallied.symm
  have hkept : kept (ts ++ [⟨d, .intern name⟩]) = d.table.liveCount d.store :=
    kept_snoc_of_sweeps ts hsweeps
  have hexamined := examined_snoc ts ⟨d, .intern name⟩
  have hasked : asked (ts ++ [⟨d, .intern name⟩]) = asked ts + 1 := asked_snoc ts _
  obtain ⟨htallied, htracked, hsweepAt⟩ := KeyTable.grows_intern h.tallied hash name d.store
  rw [KeyTable.sweepIfDue_of_due hdue, KeyTable.tracked_sweep] at htracked
  rw [KeyTable.sweepIfDue_of_due hdue, KeyTable.sweepAt_sweep] at hsweepAt
  have hfull : d.table.tracked = max (2 * kept ts) sweepFloor :=
    (Nat.le_antisymm h.tracked_le hdue).trans h.sweepAt
  have hfloor : 0 < sweepFloor := by decide
  have hsaved := h.saved
  constructor
  case tallied => exact htallied
  case sweepAt => rw [hkept]; exact hsweepAt
  case tracked_le =>
    show (d.table.intern hash name d.store).2.1.tracked ≤
      (d.table.intern hash name d.store).2.1.sweepAt
    omega
  case paid => omega
  case saved =>
    show _ + 2 * (d.table.intern hash name d.store).2.1.tracked ≤ _
    omega

/-- An act that does not concern the table. -/
theorem aside (h : Paid ts d) (ha : (⟨d, a⟩ : Turn).asks = false)
    (hsweeps : (⟨d, a⟩ : Turn).sweeps = false) (ht : (d.after hash a).table = d.table) :
    Paid (ts ++ [⟨d, a⟩]) (d.after hash a) := by
  have hcost : (⟨d, a⟩ : Turn).examined = 0 := if_neg fun hc => Bool.eq_false_iff.1 ha hc.1
  have hkept : kept (ts ++ [⟨d, a⟩]) = kept ts :=
    kept_snoc_of_not_sweeps ts (Bool.eq_false_iff.1 hsweeps)
  have hexamined : examined (ts ++ [⟨d, a⟩]) = examined ts := by
    rw [examined_snoc, hcost, Nat.add_zero]
  have hasked : asked (ts ++ [⟨d, a⟩]) = asked ts := by
    rw [asked_snoc, ha]
    rfl
  constructor
  case tallied => rw [ht]; exact h.tallied
  case sweepAt => rw [ht, hkept]; exact h.sweepAt
  case tracked_le => rw [ht]; exact h.tracked_le
  case paid => rw [hexamined, hasked]; exact h.paid
  case saved => rw [hexamined, hasked, hkept, ht]; exact h.saved

/-- The account stays right, whatever is done. -/
theorem turn (h : Paid ts d) (a : Act) : Paid (ts ++ [⟨d, a⟩]) (d.after hash a) := by
  cases a with
  | intern name =>
    by_cases hdue : d.table.Due
    · exact h.intern_of_due hdue name
    · exact h.intern_of_not_due hdue name
  | sweep => exact h.sweep
  | fall =>
    refine h.aside rfl rfl ?_
    rw [Estate.after]
    split <;> rfl
  | _ => exact h.aside rfl rfl rfl

end Paid

/-- A run that began with a new table. -/
theorem Run.paid (hr : e.Run hash ts d) (ht : e.table = {}) : Paid ts d := by
  induction hr with
  | refl =>
    refine ⟨?_, ?_, ?_, Nat.zero_le _, ?_⟩ <;> rw [ht]
    · exact KeyTable.tallied_empty
    · rfl
    · exact Nat.zero_le _
    · exact Nat.le_refl _
  | snoc _ _ ih => exact ih.turn _

/-! ## What is noted -/

/-- A sweep is noted in the turn in which the table is swept, and in no other one. -/
theorem Turn.sweeps_eq (t : Turn) (h : ∀ n, t.act ≠ .note n) :
    (t.after hash).store.sweeps = t.told.toList ++ t.before.store.sweeps := by
  obtain ⟨d, a⟩ := t
  cases a with
  | note n => exact absurd rfl (h n)
  | sweep => exact d.table.sweeps_sweep d.store
  | intern name =>
    refine (KeyTable.sweeps_intern hash name d.table d.store).trans ?_
    by_cases hdue : d.table.Due
    · have hsweeps : (⟨d, .intern name⟩ : Turn).sweeps := by simpa [sweeps] using hdue
      rw [KeyTable.sweepIfDue_of_due hdue, KeyTable.sweeps_sweep, told, if_pos hsweeps]
      rfl
    · have hsweeps : ¬ (⟨d, .intern name⟩ : Turn).sweeps := by simpa [sweeps] using hdue
      rw [KeyTable.sweepIfDue_of_not_due hdue, told, if_neg hsweeps]
      rfl
  | share os | shareKey k => exact d.store.sweeps_retain _
  | fall =>
    show (d.after hash .fall).store.sweeps = d.store.sweeps
    rw [Estate.after]
    split
    · rfl
    · exact d.store.sweeps_releaseOne _
  | _ => rfl

theorem kept_eq (ts : List Turn) :
    kept ts = ((ts.filterMap Turn.told).getLast?.map Prod.fst).getD 0 := by
  have htold : ts.filterMap Turn.told = (ts.filter Turn.sweeps).map fun t =>
      (t.before.table.liveCount t.before.store, t.before.table.tracked) := by
    rw [← List.filterMap_eq_map, List.filterMap_filter]
    rfl
  rw [htold, List.getLast?_map, Option.map_map]
  rfl

/-- In a table that counts its entries the number that a sweep notes is that of all there are. -/
theorem examined_eq (ht : ∀ t ∈ ts, t.before.table.Tallied) :
    examined ts = (((ts.filter Turn.asks).filterMap Turn.told).map Prod.snd).sum := by
  induction ts with
  | nil => rfl
  | cons t ts ih =>
    obtain ⟨hfirst, hrest⟩ := List.forall_mem_cons.1 ht
    have hsum : examined (t :: ts) = t.examined + examined ts := sumOf_cons ..
    rw [hsum, ih hrest]
    by_cases hasks : t.asks
    · rw [List.filter_cons_of_pos hasks]
      by_cases hsweeps : t.sweeps
      · have htold : t.told = some (t.before.table.liveCount t.before.store,
          t.before.table.tracked) := if_pos hsweeps
        rw [Turn.examined, if_pos ⟨hasks, hsweeps⟩, List.filterMap_cons_some htold, List.map_cons,
          List.sum_cons, hfirst]
      · have htold : t.told = none := if_neg hsweeps
        rw [Turn.examined, if_neg fun hc => hsweeps hc.2, List.filterMap_cons_none htold,
          Nat.zero_add]
    · rw [Turn.examined, if_neg fun hc => hasks hc.1, List.filter_cons_of_neg hasks, Nat.zero_add]

/-- The table has no more entries than 64 or twice what the latest sweep kept, and the sweeps that
names caused have looked at two entries at most for each name asked for. As the beginning of a run
is a run, this has been so all the time. The sweeps are those that the table has noted. -/
theorem sweep_bound (ht : e.table = {}) (hr : e.Run hash ts d) :
    d.table.tracked ≤ max 64 (2 * kept ts) ∧ d.table.tracked = d.table.names.length ∧
      examined ts ≤ 2 * asked ts ∧ Noted hash ts := by
  have h := hr.paid ht
  refine ⟨?_, h.tallied, h.paid, fun t _ => t.sweeps_eq, kept_eq ts, examined_eq fun t hmem => ?_⟩
  · rw [Nat.max_comm]
    exact h.sweepAt ▸ h.tracked_le
  · obtain ⟨us, vs, rfl⟩ := List.append_of_mem hmem
    exact (hr.split.1.paid ht).tallied

/-- The turns in which names are asked for, one after the other. -/
def asking (hash : String → UInt32) : List String → Estate → List Turn
  | [], _ => []
  | name :: names, e => ⟨e, .intern name⟩ :: asking hash names (e.after hash (.intern name))

/-- The estate after that. -/
def askedFor (hash : String → UInt32) (names : List String) (e : Estate) : Estate :=
  names.foldl (fun e name => e.after hash (.intern name)) e

theorem run_asking (names : List String) (he : e.falling = []) :
    e.Run hash (asking hash names e) (askedFor hash names e) ∧
      (askedFor hash names e).falling = [] := by
  induction names generalizing e with
  | nil => exact ⟨.refl, he⟩
  | cons name names ih =>
    obtain ⟨hr, hf⟩ := ih (e := e.after hash (.intern name)) he
    exact ⟨(Run.single (allows_of_rest (a := .intern name) he (by simp) trivial)).trans hr, hf⟩

/-- The key of a name that is asked for. -/
def keyOf (hash : String → UInt32) (name : String) (e : Estate) : Key :=
  (e.table.intern hash name e.store).1

/-- The estate after a name was asked for, with its key given up. -/
def passedOn (hash : String → UInt32) (name : String) (e : Estate) : Estate :=
  (e.after hash (.intern name)).after hash (.drop (keyOf hash name e).owned)

/-- The turns in which a name is asked for and its key is dropped. -/
def passing (hash : String → UInt32) (name : String) (e : Estate) : List Turn :=
  [⟨e, .intern name⟩, ⟨e.after hash (.intern name), .drop (keyOf hash name e).owned⟩,
    ⟨passedOn hash name e, .fall⟩]

theorem run_passing (name : String) (he : e.falling = []) :
    e.Run hash (passing hash name e) ((passedOn hash name e).after hash .fall) ∧
      ((passedOn hash name e).after hash .fall).falling = [] := by
  have hasks : e.Allows (.intern name) := allows_of_rest he (by simp) trivial
  have hdrop : (e.after hash (.intern name)).Allows (.drop (keyOf hash name e).owned) :=
    allows_of_rest he (by simp) fun _ => Nat.le_add_right ..
  have hfall : (passedOn hash name e).Allows .fall :=
    ⟨⟨fun _ => rfl, fun _ => List.cons_ne_nil _ []⟩, trivial⟩
  refine ⟨((Run.single hasks).snoc hdrop).snoc hfall, ?_⟩
  have hone : (passedOn hash name e).falling = .name (keyOf hash name e).name.id :: [] := rfl
  rw [after_fall hash (passedOn hash name e) hone, List.append_nil]
  simp only [Store.releaseOne]
  split
  · rfl
  · split <;> rfl

/-- The estate after 63 different names. -/
def manyNames : Estate := askedFor (fun _ => 0) ((List.range 63).map toString) {}

/-- Of 64 names the last is dropped, and the next one that is asked for causes a sweep. -/
theorem sweep_bound_manyNames : ∃ ts d, ({} : Estate).Run (fun _ => 0) ts d ∧
    (kept ts = 63 ∧ examined ts = 64 ∧ asked ts = 65) ∧
      d.table.tracked ≤ max 64 (2 * kept ts) ∧ d.table.tracked = d.table.names.length ∧
        examined ts ≤ 2 * asked ts ∧ Noted (fun _ => 0) ts := by
  obtain ⟨hmany, hrest⟩ := @run_asking (fun _ => 0) {} ((List.range 63).map toString) rfl
  obtain ⟨hlast, hrest⟩ := run_passing "last" hrest
  have hr := (hmany.trans hlast).snoc
    (a := .intern "another") (allows_of_rest hrest (by simp) trivial)
  exact ⟨_, _, hr, by decide +kernel, sweep_bound rfl hr⟩

end MetaCache.Estate
