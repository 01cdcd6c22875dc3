import MetaCache.Proofs.Custody.Misses
import MetaCache.Proofs.Dialogue.Relations
import MetaCache.Proofs.Play.Steps
/-!
# Lookups that fail

A lookup that finds nothing fresh empties the slot before it compiles anything. If compiling fails,
at whatever query of whatever attribute, all that was obtained by then is given back. So what is
left is what the emptied slot alone would have left: no count differs from that, but for what the
value thrown refers to.

* `Host.OnlyReplies`: hosts whose methods give replies and do nothing else.
* `World.CleanAfter`: what a failed lookup leaves.
* `failed_lookup_clean`: this is what it leaves.
-/

namespace MetaCache

variable {host : Host} {w w' : World} {k : Holding} {l : Lookup}

/-- What metaobjects are asked has no side effects: nothing that is there changes, but for the
shares that a reply gives, and the cache stays as it is. -/
structure Host.OnlyReplies (host : Host) : Prop where
  lends : host.Lends
  cache : ∀ {q : Query}, host.Answers q → q.after.cache = q.before.cache

/-- Compiling does not touch the counters. -/
theorem Lookup.stats_of_fresh (hh : host.OnlyReplies) {r : Except Error Payload}
    (h : l.fresh host w = .ok (r, w')) : w'.cache.stats = w.cache.stats := by
  let L : Ledger host := .ofRelation (R := fun w w' => w'.cache.stats = w.cache.stats)
    (fun _ => rfl) (fun h h' => h'.trans h) (fun x w => x.stats_eq host w)
    fun hq => congrArg Cache.stats (hh.cache hq)
  exact (Lookup.meets_fresh (L := L) l w).done r w' h

/-- A lookup that fails has found nothing fresh, and has failed to compile its object. -/
theorem Lookup.failed_cases {e : Error} {c : CellId} (hl : l.object = .ref c)
    (h : l.run host w = .ok (.error e, w')) : ∃ w₁,
      w.cached? host l.wanted c = (none, w₁) ∧ l.fresh host w₁ = .ok (.error e, w') := by
  rw [Lookup.run_eq hl] at h
  cases hc : w.cached? host l.wanted c with
  | mk o w₁ =>
    rw [hc] at h
    cases o with
    | some p => cases h
    | none =>
      refine ⟨w₁, rfl, ?_⟩
      rcases Lookup.build_cases host l c w₁ with
        ⟨_, -, hb⟩ | ⟨e', w₂, hf, hb⟩ | ⟨_, _, _, _, -, -, hb⟩
      · cases hb.symm.trans h
      · cases hb.symm.trans h
        exact hf
      · cases hb.symm.trans h

/-- What a lookup of the cell `c` leaves that was made in `w` and failed with `e`. -/
structure World.CleanAfter (c : CellId) (w : World) (e : Error) (w' : World) : Prop where
  /-- The object is there, and its slot is empty. -/
  alive : w'.store.alive c
  slot : w'.store.extension? c = none
  hits : w'.cache.stats.hits = w.cache.stats.hits
  builds : w'.cache.stats.builds = w.cache.stats.builds
  /-- One record has been discarded if there was one. -/
  invalidations : w'.cache.stats.invalidations =
    w.cache.stats.invalidations + (w.store.extension? c).isSome.toNat
  /-- The slots of all others that are still there are as they were. -/
  others : ∀ d ≠ c, w.store.alive d → w'.store.alive d →
    w'.store.extension? d = w.store.extension? d
  /-- Of what there was that is still there which the emptied slot alone would have left. -/
  left : ∀ x : Share, x.OldIn w.store → w'.store.has x = (w.emptied c).has x
  /-- It is counted as that would have left it, but for what the value thrown refers to. -/
  counts : ∀ x, (w.emptied c).has x →
    w'.store.count x = (w.emptied c).count x + holding e.owned x
  /-- As many names of the key table are alive. -/
  liveNames : w'.liveNames = w.cache.keys.liveCount (w.emptied c)

/-- A failed lookup leaves a clean slot, whatever was in it, and nothing else. A lookup of anything
but a strong reference leaves everything as it was. -/
theorem failed_lookup_clean (ho : host.Orderly) (hh : host.OnlyReplies)
    (hw : w.WellCounted (holding l.owned + k)) {e : Error}
    (h : l.run host w = .ok (.error e, w')) :
    ((∀ c, l.object ≠ .ref c) → w' = w) ∧ ∀ c, l.object = .ref c → w.CleanAfter c e w' := by
  refine ⟨fun hl => (Lookup.eq_of_no_ref hl h).1, fun c hl => ?_⟩
  obtain ⟨w₁, hmiss, hfresh⟩ := Lookup.failed_cases hl h
  obtain ⟨hm, hcounted⟩ := World.missed_of_cached? (k := holding l.owned + k) hmiss
  have hw₁ := hcounted hw
  -- compiling is a transaction that begins with the slot empty
  have hstep := (Lookup.meets_fresh
    (L := transacting ho hh.lends w₁ (holding l.owned + k) hw₁.attended) l w₁).done _ _ hfresh
  have hend : Ongoing w₁ (holding l.owned + k) w' (holding e.owned) := by
    have hend := hstep 0 (by
      rw [add_zero]
      exact .start hw₁.covers hw₁.attended hw₁.known)
    rwa [add_zero] at hend
  have hstats := (Lookup.stats_of_fresh hh hfresh).trans hm.stats
  have hnames : ∀ n, holding e.owned (.name n) = 0 := fun n => by
    cases e with
    | host e => exact holding_ownedByReply_name (.error e) n
    | _ => rfl
  have halive₁ : w₁.store.alive c :=
    hw₁.covers.alive (Nat.add_pos_left (Lookup.object_pos hl) _)
  have halive : w'.store.alive c := hend.has_of_watches (x := .cell c) halive₁
  have hslot {d : CellId} (hd : w₁.store.alive d) :
      w'.store.extension? d = w₁.store.extension? d :=
    congrArg (Option.bind · Cell.extension) (hend.cell? d (Store.lt_next_of_alive hd))
  constructor
  case alive => exact halive
  case slot => rw [hslot halive₁, hm.slots c halive₁, if_pos rfl]
  case hits => rw [hstats]
  case builds => rw [hstats]
  case invalidations => rw [hstats]
  case others =>
    intro d hdc hd hd'
    have hd₁ : w₁.store.alive d := (hend.has (.cell d)
      (hm.old (.cell d) (Store.lt_next_of_alive hd))).symm.trans hd'
    rw [hslot hd₁, hm.slots d hd₁, if_neg hdc]
  case left =>
    intro x hx
    rw [hend.has x (hm.old x hx), hm.store.has_eq]
  case counts =>
    intro x hx
    rw [hend.count x (.inl ((hm.store.has_eq x).trans hx)), hm.store.count_eq]
  case liveNames => rw [hend.liveNames hnames, hm.liveNames]

/-! ## A class that comes to have an attribute that cannot be compiled -/

theorem onlyReplies_plainHost : plainHost.OnlyReplies where
  lends := lends_plainHost
  cache hq := by
    rw [(answers_plain hq).2]
    rfl

/-- The shadow of a class is in the slot of its instance metaobject. Then the class is redefined,
with something among its attributes that is none. -/
def outdatedWorld : World :=
  let w := ((Lookup.shadow (.ref 2)).run plainHost).leaves (codedWorld [])
  let w := w.onStore fun s => (s.release [.payload 0]).retain [.cell 0, .cell 2]
  (w.defineClass "Point" [.ref 0, .ref 2]).2.onStore (·.release [.cell 1])

theorem wellCounted_outdatedWorld :
    outdatedWorld.WellCounted (holding (Lookup.shadow (.ref 2)).owned + holding [.cell 1]) := by
  rw [← holding_append]
  exact World.wellCounted_of_entries (by decide +kernel) (by decide +kernel) (by decide +kernel)
    (by decide +kernel) (by decide +kernel)

/-- The shadow goes, with its share of the code that it had captured, and nothing comes in its
place. -/
theorem failed_lookup_clean_outdatedWorld :
    (outdatedWorld.store.extension? 2).isSome ∧ ∃ e,
      (Lookup.shadow (.ref 2)).run plainHost outdatedWorld =
        .ok (.error e, ((Lookup.shadow (.ref 2)).run plainHost).leaves outdatedWorld) ∧
      outdatedWorld.CleanAfter 2 e
        (((Lookup.shadow (.ref 2)).run plainHost).leaves outdatedWorld) := by
  have ho : plainHost.Orderly := (registered_scriptedHost _ : plainHost.Registered).orderly
  have hfails : (((Lookup.shadow (.ref 2)).run plainHost).failure? outdatedWorld).isSome := by
    decide +kernel
  obtain ⟨e, he⟩ := Option.isSome_iff_exists.1 hfails
  have hrun := Build.eq_of_failure? he
  exact ⟨by decide +kernel, e, hrun, (failed_lookup_clean ho onlyReplies_plainHost
    wellCounted_outdatedWorld hrun).2 2 rfl⟩

end MetaCache
