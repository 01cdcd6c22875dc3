import MetaCache.Proofs.Custody.Table
/-!
# How many entries the key table has

The table counts its entries, dead ones included. A sweep brings the count down to the live entries,
and a name that is asked for adds one entry at most after the sweep that it may cause.

* `KeyTable.Tallied`: the count is right.
* `KeyTable.tracked_sweep`, `KeyTable.sweepAt_sweep`: what a sweep leaves.
* `KeyTable.Grows`, `KeyTable.grows_intern`: what asking for a name leaves.
* `Store.sweeps`: the sweeps that have been noted; `KeyTable.sweeps_sweep`,
  `KeyTable.sweeps_intern`.
-/

namespace MetaCache.KeyTable

variable {hash : String → UInt32} {t : KeyTable} {s : Store} {name : String}

/-- The next name that is asked for causes a sweep. -/
def Due (t : KeyTable) : Prop := t.sweepAt ≤ t.tracked

instance : Decidable t.Due := inferInstanceAs (Decidable (t.sweepAt ≤ t.tracked))

/-- The table counts its entries. -/
def Tallied (t : KeyTable) : Prop := t.tracked = t.names.length

/-- The names in some buckets, bucket by bucket. -/
theorem sumOf_length (bs : List (UInt32 × List SharedName)) :
    sumOf (fun b => b.2.length) bs = (bs.flatMap Prod.snd).length := by
  induction bs with
  | nil => rfl
  | cons b rest ih => rw [sumOf_cons, ih, List.flatMap_cons, List.length_append]

theorem tallied_empty : ({} : KeyTable).Tallied := rfl

/-- Somebody holds no more entries than there are. -/
theorem Tallied.liveCount_le (h : t.Tallied) (s : Store) : t.liveCount s ≤ t.tracked := by
  rw [liveCount_eq, h]
  exact List.countP_le_length

/-! ## Sweeps -/

theorem tallied_sweep (t : KeyTable) (s : Store) : (t.sweep s).1.Tallied :=
  sumOf_length (t.liveBuckets s)

/-- A sweep leaves the entries that somebody holds. -/
theorem tracked_sweep (t : KeyTable) (s : Store) : (t.sweep s).1.tracked = t.liveCount s := by
  rw [tallied_sweep t s, names_sweep, liveCount_eq, List.countP_eq_length_filter]

theorem sweepAt_sweep (t : KeyTable) (s : Store) :
    (t.sweep s).1.sweepAt = max (2 * t.liveCount s) sweepFloor := by
  rw [← tracked_sweep t s, Nat.mul_comm]
  rfl

/-- Somebody holds the same entries before and after a sweep. -/
theorem liveCount_sweep (t : KeyTable) (s : Store) :
    (t.sweep s).1.liveCount (t.sweep s).2 = t.liveCount s := by
  simp only [liveCount_eq, List.countP_eq_length_filter]
  exact congrArg List.length (live_sweep t s)

theorem sweepIfDue_of_due (h : t.Due) : t.sweepIfDue s = t.sweep s := if_pos h

theorem sweepIfDue_of_not_due (h : ¬ t.Due) : t.sweepIfDue s = (t, s) := if_neg h

theorem Tallied.sweepIfDue (h : t.Tallied) (s : Store) : (t.sweepIfDue s).1.Tallied := by
  by_cases hdue : t.Due
  · rw [sweepIfDue_of_due hdue]
    exact tallied_sweep t s
  · rw [sweepIfDue_of_not_due hdue]
    exact h

/-! ## Names that are asked for -/

/-- A replaced bucket brings its own entries and takes those of the former one away. -/
theorem length_names_replaceBucket {h : UInt32} {bucket : List SharedName}
    (names : List SharedName) {bs : List (UInt32 × List SharedName)}
    (hb : bs.lookup h = some bucket) :
    ((replaceBucket h names bs).flatMap Prod.snd).length + bucket.length =
      (bs.flatMap Prod.snd).length + names.length := by
  induction bs with
  | nil => cases hb
  | cons x rest ih =>
    obtain ⟨g, b⟩ := x
    rw [replaceBucket]
    rw [List.lookup_cons] at hb
    by_cases hg : g = h
    · subst hg
      rw [BEq.rfl] at hb
      cases hb
      rw [if_pos rfl]
      simp only [List.flatMap_cons, List.length_append]
      omega
    · have hne : (h == g) = false := beq_false_of_ne fun hc => hg hc.symm
      rw [hne] at hb
      have := ih hb
      rw [if_neg hg]
      simp only [List.flatMap_cons, List.length_append]
      omega

/-- A bucket replaced, and the count brought up to date. -/
theorem Tallied.replaceBucket (ht : t.Tallied) {h : UInt32} {bucket names : List SharedName}
    {n : Nat} (hb : t.bucket? h = some bucket)
    (hn : n + bucket.length = t.tracked + names.length) :
    Tallied { t with buckets := replaceBucket h names t.buckets, tracked := n } := by
  have hlen := length_names_replaceBucket names hb
  have htotal : t.tracked = (t.buckets.flatMap Prod.snd).length := ht
  show n = ((KeyTable.replaceBucket h names t.buckets).flatMap Prod.snd).length
  omega

/-- The entries of a bucket are among those counted. -/
theorem Tallied.length_le (ht : t.Tallied) {h : UInt32} {bucket : List SharedName}
    (hb : t.bucket? h = some bucket) : bucket.length ≤ t.tracked := by
  have hlen := length_names_replaceBucket [] hb
  have htotal : t.tracked = (t.buckets.flatMap Prod.snd).length := ht
  rw [List.length_nil] at hlen
  omega

/-- A table that has one entry more at most, all of them counted, and the same next sweep. -/
structure Grows (t t' : KeyTable) : Prop where
  tallied : t'.Tallied
  tracked_le : t'.tracked ≤ t.tracked + 1
  sweepAt : t'.sweepAt = t.sweepAt

/-- The dead entries of the bucket go. -/
theorem grows_internInBucket (ht : t.Tallied) {h : UInt32} {bucket : List SharedName}
    (hb : t.bucket? h = some bucket) : t.Grows (t.internInBucket h name bucket s).2.1 := by
  have hle := ht.length_le hb
  have hlive : (bucket.filter s.nameAlive).length ≤ bucket.length := List.length_filter_le ..
  rw [internInBucket]
  dsimp only
  split
  · refine ⟨ht.replaceBucket hb (by omega), ?_, rfl⟩
    exact Nat.le_succ_of_le (Nat.sub_le ..)
  · refine ⟨ht.replaceBucket hb ?_, Nat.succ_le_succ (Nat.sub_le ..), rfl⟩
    rw [List.length_append, List.length_singleton]
    omega

/-- The sweep that a name may cause comes first; then there is one entry more at most. -/
theorem grows_intern (ht : t.Tallied) (hash : String → UInt32) (name : String) (s : Store) :
    (t.sweepIfDue s).1.Grows (t.intern hash name s).2.1 := by
  have ht' := ht.sweepIfDue s
  simp only [intern]
  split
  · rename_i bucket hb
    exact grows_internInBucket ht' hb
  · exact ⟨congrArg (· + 1) ht', Nat.le_refl _, rfl⟩

end MetaCache.KeyTable

/-! ## Sweeps that are noted -/

namespace MetaCache

/-- What an event tells of a sweep: how many entries were kept, of how many. -/
def Event.sweep? : Event → Option (Nat × Nat)
  | note (.swept kept tracked) => some (kept, tracked)
  | _ => none

namespace Store

variable {s : Store}

/-- The sweeps that were noted, the latest one first. -/
def sweeps (s : Store) : List (Nat × Nat) := s.journal.filterMap Event.sweep?

theorem sweeps_record {e : Event} (he : e.sweep? = none) (s : Store) :
    (s.record e).sweeps = s.sweeps :=
  List.filterMap_cons_none he

theorem sweeps_retain (s : Store) (os : List Owned) : (s.retain os).sweeps = s.sweeps :=
  retain_induction (P := fun t => t.sweeps = s.sweeps)
    (fun _ x h => Eq.trans (by cases x <;> rfl) h) rfl os

/-- No release sweeps the key table. -/
theorem sweeps_releaseOne (s : Store) (o : Owned) : (s.releaseOne o).2.sweeps = s.sweeps := by
  cases o with
  | held p => exact sweeps_record (by cases p <;> rfl) s
  | _ =>
    rw [releaseOne]
    repeat' split
    all_goals rfl

end Store

namespace KeyTable

theorem sweeps_sweep (t : KeyTable) (s : Store) :
    (t.sweep s).2.sweeps = (t.liveCount s, t.tracked) :: s.sweeps := by
  rw [← tracked_sweep t s]
  rfl

theorem sweeps_internInBucket (t : KeyTable) (h : UInt32) (name : String)
    (bucket : List SharedName) (s : Store) :
    (t.internInBucket h name bucket s).2.2.sweeps = s.sweeps := by
  rw [internInBucket]
  dsimp only
  split
  · exact Store.sweeps_retain s _
  · dsimp only
    split <;> rfl

/-- The only sweep that a name causes is the one that is due. -/
theorem sweeps_intern (hash : String → UInt32) (name : String) (t : KeyTable) (s : Store) :
    (t.intern hash name s).2.2.sweeps = (t.sweepIfDue s).2.sweeps := by
  simp only [intern]
  split
  · exact sweeps_internInBucket ..
  · exact Store.sweeps_record rfl _

end KeyTable

end MetaCache
