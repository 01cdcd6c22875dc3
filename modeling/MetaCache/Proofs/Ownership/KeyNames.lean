import MetaCache.KeyTable
/-!
# The names in the key table

* `KeyTable.names`: the names in the table, dead ones included.
* `KeyTable.liveCount_eq`, `KeyTable.names_sweep`: what is counted and what is swept, by names.
* `KeyTable.filter_names_replaceBucket`: a bucket replaced by one with the same names of a kind.
-/

namespace MetaCache.KeyTable

variable {t : KeyTable} {s : Store}

/-- The names in the table. -/
def names (t : KeyTable) : List SharedName := t.buckets.flatMap Prod.snd

theorem mem_names {n : SharedName} : n ∈ t.names ↔ ∃ e ∈ t.buckets, n ∈ e.2 := List.mem_flatMap

theorem liveCount_eq (t : KeyTable) (s : Store) : t.liveCount s = t.names.countP s.nameAlive := by
  rw [liveCount, names]
  induction t.buckets with
  | nil => rfl
  | cons b rest ih => rw [sumOf_cons, ih, List.flatMap_cons, List.countP_append]

/-- A sweep keeps the names that somebody holds. -/
theorem names_sweep (t : KeyTable) (s : Store) :
    (t.sweep s).1.names = t.names.filter s.nameAlive := by
  show (t.liveBuckets s).flatMap Prod.snd = t.names.filter s.nameAlive
  rw [liveBuckets, names]
  induction t.buckets with
  | nil => rfl
  | cons b rest ih =>
    rw [List.map_cons, List.flatMap_cons, List.filter_append, ← ih, List.filter_cons]
    cases hb : b.2.filter s.nameAlive with
    | nil => rfl
    | cons n live => rfl

theorem mem_replaceBucket {h : UInt32} {names : List SharedName}
    {bs : List (UInt32 × List SharedName)} {e : UInt32 × List SharedName}
    (he : e ∈ replaceBucket h names bs) : e = (h, names) ∨ e ∈ bs := by
  induction bs with
  | nil => exact .inr he
  | cons x rest ih =>
    obtain ⟨g, b⟩ := x
    rw [replaceBucket] at he
    split at he
    · rename_i hg
      rcases List.mem_cons.1 he with rfl | he
      · exact .inl (by rw [hg])
      · exact .inr (List.mem_cons_of_mem _ he)
    · rcases List.mem_cons.1 he with rfl | he
      · exact .inr List.mem_cons_self
      · exact (ih he).imp id (List.mem_cons_of_mem _)

theorem mem_names_of_bucket? {h : UInt32} {bucket : List SharedName}
    (hb : t.bucket? h = some bucket) {n : SharedName} (hn : n ∈ bucket) : n ∈ t.names :=
  mem_names.2 ⟨(h, bucket), mem_of_lookup hb, hn⟩

/-- The names of a table one of whose buckets is replaced. -/
theorem mem_names_replaceBucket {h : UInt32} {bucket : List SharedName} {tracked : Nat}
    {n : SharedName}
    (hn : n ∈ names { t with buckets := replaceBucket h bucket t.buckets, tracked }) :
    n ∈ bucket ∨ n ∈ t.names := by
  obtain ⟨e, he, hn⟩ := mem_names.1 hn
  rcases mem_replaceBucket he with rfl | he
  · exact .inl hn
  · exact .inr (mem_names.2 ⟨e, he, hn⟩)

/-- A bucket replaced by one that has the same names of a kind. -/
theorem filter_names_replaceBucket {h : UInt32} {bucket bucket' : List SharedName}
    {P : SharedName → Bool} {bs : List (UInt32 × List SharedName)}
    (hb : bs.lookup h = some bucket) (hP : bucket'.filter P = bucket.filter P) :
    ((replaceBucket h bucket' bs).flatMap Prod.snd).filter P =
      (bs.flatMap Prod.snd).filter P := by
  induction bs with
  | nil => cases hb
  | cons x rest ih =>
    obtain ⟨g, b⟩ := x
    rw [replaceBucket]
    rw [List.lookup_cons] at hb
    split
    · rename_i hg
      subst hg
      rw [BEq.rfl] at hb
      cases hb
      simp only [List.flatMap_cons, List.filter_append, hP]
    · rename_i hg
      have hne : (h == g) = false := beq_false_of_ne fun hc => hg hc.symm
      rw [hne] at hb
      simp only [List.flatMap_cons, List.filter_append, ih hb]

end MetaCache.KeyTable
