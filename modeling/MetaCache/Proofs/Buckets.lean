import MetaCache.Proofs.Sweeps
/-!
# The buckets of the key table

The count of entries is kept by hand beside the buckets. Asking for a name takes the dead entries of
one bucket away from it and may add one entry to it, a sweep makes it anew, and entries die without
the table being told. It stays right all the same, so that nothing is ever taken away from it that
is not in it.

* `KeyTable.Filed`, `KeyTable.WellKept`: what is so of the buckets, and of the table, at every
  moment.
* `KeyTable.WellKept.sweep`, `KeyTable.WellKept.intern`: the operations keep it so, whatever has
  died.
* `KeyTable.Prunable`: what asking for a name takes away from the count is in it.
* `KeyTable.Swept`: what is so right after a sweep.
* `Estate.buckets_well_kept`: all this at every moment of a run.
-/

namespace MetaCache

namespace KeyTable

variable {hash : String → UInt32} {t : KeyTable} {s : Store} {name : String} {h : UInt32}
  {bucket names : List SharedName} {bs : List (UInt32 × List SharedName)}

/-- There is one bucket for a hash, with entries in it, all of them of that hash. -/
structure Filed (hash : String → UInt32) (bs : List (UInt32 × List SharedName)) : Prop where
  hashes : (bs.map Prod.fst).Nodup
  filled : ∀ b ∈ bs, b.2 ≠ []
  filed : ∀ b ∈ bs, ∀ n ∈ b.2, hash n.text = b.1

/-- The entries are filed and counted, dead ones included, and there are no more than the next sweep
waits for. -/
structure WellKept (hash : String → UInt32) (t : KeyTable) : Prop extends
    Filed hash t.buckets where
  total : t.tracked = sumOf (fun b => b.2.length) t.buckets
  floor : 64 ≤ t.sweepAt
  room : t.tracked ≤ t.sweepAt

/-- The dead entries of a bucket, which are taken away from the count when a name of its hash is
asked for, are in it. -/
def Prunable (t : KeyTable) (s : Store) : Prop :=
  ∀ h bucket, t.bucket? h = some bucket → (bucket.filter s.nameAlive).length ≤ bucket.length ∧
    bucket.length - (bucket.filter s.nameAlive).length ≤ t.tracked

/-- Somebody holds each entry, they are counted, and no sweep is due. -/
structure Swept (t : KeyTable) (s : Store) : Prop where
  alive : ∀ n ∈ t.names, s.nameAlive n
  tracked : t.tracked = t.liveCount s
  below : t.tracked < t.sweepAt

/-! ## Buckets -/

namespace Filed

theorem live (hf : Filed hash t.buckets) (s : Store) : Filed hash (t.liveBuckets s) where
  hashes := nodup_hashes_liveBuckets hf.hashes s
  filled b hb hempty := by
    have hfull := (List.mem_filter.1 hb).2
    rw [hempty] at hfull
    cases hfull
  filed := filed_liveBuckets hf.filed s

theorem replaceBucket (hf : Filed hash bs) (hne : names ≠ [])
    (hnames : ∀ n ∈ names, hash n.text = h) : Filed hash (KeyTable.replaceBucket h names bs) where
  hashes := by
    rw [map_fst_replaceBucket]
    exact hf.hashes
  filled b hb := by
    rcases mem_replaceBucket hb with rfl | hold
    · exact hne
    · exact hf.filled b hold
  filed := filed_replaceBucket hf.filed hnames

/-- A bucket for a hash that has none. -/
theorem cons (hf : Filed hash bs) (hb : bs.lookup h = none) (hne : names ≠ [])
    (hnames : ∀ n ∈ names, hash n.text = h) : Filed hash ((h, names) :: bs) where
  hashes := by
    rw [List.map_cons, List.nodup_cons]
    refine ⟨fun hmem => ?_, hf.hashes⟩
    obtain ⟨b, hbmem, hfst⟩ := List.mem_map.1 hmem
    have hno := List.lookup_eq_none_iff.1 hb b hbmem
    simp [hfst] at hno
  filled b hb := by
    rcases List.mem_cons.1 hb with rfl | hold
    · exact hne
    · exact hf.filled b hold
  filed b hb := by
    rcases List.mem_cons.1 hb with rfl | hold
    · exact hnames
    · exact hf.filed b hold

/-- The names in the bucket of a hash have that hash. -/
theorem hash_of_bucket? (hf : Filed hash t.buckets) (hb : t.bucket? h = some bucket) :
    ∀ n ∈ bucket, hash n.text = h :=
  hf.filed (h, bucket) (mem_of_lookup hb)

/-- What asking for a name leaves of the buckets, if it has one: the live entries, and a new one if
none of them is of that name. -/
theorem internInBucket (hf : Filed hash t.buckets) (hb : t.bucket? (hash name) = some bucket)
    (s : Store) : Filed hash (t.internInBucket (hash name) name bucket s).2.1.buckets := by
  have hlive : ∀ n ∈ bucket.filter s.nameAlive, hash n.text = hash name := fun n hn =>
    hf.hash_of_bucket? hb n (List.mem_filter.1 hn).1
  rw [KeyTable.internInBucket]
  dsimp only
  split
  · rename_i n hn
    exact hf.replaceBucket (List.ne_nil_of_mem (List.mem_of_find?_eq_some hn)) hlive
  · refine hf.replaceBucket (List.append_ne_nil_of_right_ne_nil _ (List.cons_ne_nil _ _)) ?_
    intro n hn
    rcases List.mem_append.1 hn with hn | hn
    · exact hlive n hn
    · rw [List.mem_singleton.1 hn]
      rfl

end Filed

/-! ## Sweeps -/

/-- A sweep leaves fewer entries than the next one waits for. -/
theorem tracked_sweep_lt (t : KeyTable) (s : Store) :
    (t.sweep s).1.tracked < (t.sweep s).1.sweepAt := by
  have hfloor : 0 < sweepFloor := by decide
  rw [sweepAt_sweep, tracked_sweep]
  omega

theorem swept_sweep (t : KeyTable) (s : Store) : (t.sweep s).1.Swept (t.sweep s).2 where
  alive n hn := by
    rw [names_sweep] at hn
    exact (List.mem_filter.1 hn).2
  tracked := (tracked_sweep t s).trans (liveCount_sweep t s).symm
  below := tracked_sweep_lt t s

/-- There is room for a name that is asked for, after the sweep it may cause. -/
theorem tracked_sweepIfDue_lt (t : KeyTable) (s : Store) :
    (t.sweepIfDue s).1.tracked < (t.sweepIfDue s).1.sweepAt := by
  by_cases hdue : t.Due
  · rw [sweepIfDue_of_due hdue]
    exact tracked_sweep_lt t s
  · rw [sweepIfDue_of_not_due hdue]
    exact Nat.lt_of_not_le hdue

/-! ## The table -/

theorem wellKept_empty (hash : String → UInt32) : WellKept hash {} where
  hashes := List.nodup_nil
  filled _ hb := (List.not_mem_nil hb).elim
  filed _ hb := (List.not_mem_nil hb).elim
  total := rfl
  floor := Nat.le_refl _
  room := Nat.zero_le _

namespace WellKept

theorem tallied (hk : t.WellKept hash) : t.Tallied :=
  hk.total.trans (sumOf_length t.buckets)

theorem prunable (hk : t.WellKept hash) (s : Store) : t.Prunable s := fun _ _ hb =>
  ⟨List.length_filter_le .., Nat.le_trans (Nat.sub_le ..) (hk.tallied.length_le hb)⟩

theorem sweep (hk : t.WellKept hash) (s : Store) : (t.sweep s).1.WellKept hash where
  toFiled := hk.live s
  total := rfl
  floor := by
    rw [sweepAt_sweep]
    exact Nat.le_max_right ..
  room := Nat.le_of_lt (tracked_sweep_lt t s)

theorem sweepIfDue (hk : t.WellKept hash) (s : Store) : (t.sweepIfDue s).1.WellKept hash := by
  by_cases hdue : t.Due
  · rw [sweepIfDue_of_due hdue]
    exact hk.sweep s
  · rw [sweepIfDue_of_not_due hdue]
    exact hk

/-- Asking for a name adds one entry at most, for which the sweep before has made room. -/
theorem intern (hk : t.WellKept hash) (name : String) (s : Store) :
    (t.intern hash name s).2.1.WellKept hash := by
  have hk' := hk.sweepIfDue s
  have hroom := tracked_sweepIfDue_lt t s
  obtain ⟨htallied, htracked, hsweepAt⟩ := grows_intern hk.tallied hash name s
  constructor
  case toFiled =>
    simp only [KeyTable.intern]
    split
    · rename_i bucket hb
      exact hk'.internInBucket hb _
    · rename_i hb
      refine hk'.cons hb (List.cons_ne_nil _ _) fun n hn => ?_
      rw [List.mem_singleton.1 hn]
      rfl
  case total => exact htallied.trans (sumOf_length _).symm
  case floor => exact hsweepAt ▸ hk'.floor
  case room => omega

end WellKept

end KeyTable

namespace Estate

variable {hash : String → UInt32} {e d : Estate} {ts : List Turn}

/-- Nothing but a sweep and a name that is asked for concerns the table. -/
theorem wellKept_after (h : d.table.WellKept hash) (a : Act) :
    (d.after hash a).table.WellKept hash := by
  cases a with
  | intern name => exact h.intern name d.store
  | sweep => exact h.sweep d.store
  | fall =>
    rw [Estate.after]
    split <;> exact h
  | _ => exact h

theorem Run.wellKept (hr : e.Run hash ts d) (ht : e.table = {}) : d.table.WellKept hash := by
  induction hr with
  | refl => exact ht ▸ KeyTable.wellKept_empty hash
  | snoc _ _ ih => exact wellKept_after ih _

/-- In a run that began with a new table, the table is well kept at every moment, whatever keys were
cloned and dropped: no more entries are live than are counted; what asking for a name would take
away from the count, after the sweep it may cause, is in it; and a sweep would leave live entries
alone, fewer than the next sweep waits for. As the beginning of a run is a run, this has been so all
the time. -/
theorem buckets_well_kept (ht : e.table = {}) (hr : e.Run hash ts d) :
    d.table.WellKept hash ∧ d.table.liveCount d.store ≤ d.table.tracked ∧
      (d.table.sweepIfDue d.store).1.Prunable (d.table.sweepIfDue d.store).2 ∧
      (d.after hash .sweep).table.Swept (d.after hash .sweep).store := by
  have h := hr.wellKept ht
  exact ⟨h, h.tallied.liveCount_le d.store, (h.sweepIfDue d.store).prunable _,
    KeyTable.swept_sweep d.table d.store⟩

/-- The estate after two names of one hash, the second of which nobody has kept. -/
def halfKept : Estate :=
  (passedOn (fun _ => 0) "lost" (askedFor (fun _ => 0) ["kept"] {})).after (fun _ => 0) .fall

/-- One of the two entries that are counted is dead, and would be taken away from the count. -/
theorem buckets_well_kept_halfKept : ∃ ts, ({} : Estate).Run (fun _ => 0) ts halfKept ∧
    (halfKept.table.tracked = 2 ∧ halfKept.table.liveCount halfKept.store = 1) ∧
      halfKept.table.WellKept (fun _ => 0) ∧
      halfKept.table.liveCount halfKept.store ≤ halfKept.table.tracked ∧
      (halfKept.table.sweepIfDue halfKept.store).1.Prunable
        (halfKept.table.sweepIfDue halfKept.store).2 ∧
      (halfKept.after (fun _ => 0) .sweep).table.Swept
        (halfKept.after (fun _ => 0) .sweep).store := by
  obtain ⟨hkept, hrest⟩ := @run_asking (fun _ => 0) {} ["kept"] rfl
  obtain ⟨hlost, -⟩ := run_passing "lost" hrest
  have hr := hkept.trans hlost
  exact ⟨_, hr, by decide +kernel, buckets_well_kept rfl hr⟩

end Estate

end MetaCache
