import Mathlib.Logic.Function.Basic
import MetaCache.Proofs.Ownership.KeyNames
import MetaCache.Proofs.Storage.Writes
/-!
# Where keys come from

A key is made of a new name, or is asked of the key table, or shares the name of another one. All
such keys are explained by one labelling of identities, which grows with every name that is new.

* `SharedName.Known.update`, `Key.proper_newName`: new names.
* `KeyTable.Interned`, `KeyTable.interned`: what asking the table for a name gives.
-/

namespace MetaCache

variable {hash : String → UInt32} {label : NameId → String} {bound : NameId}

theorem update_of_lt (label : NameId → String) {i : NameId} (h : i < bound) (name : String) :
    Function.update label bound name i = label i :=
  Function.update_of_ne (Nat.ne_of_lt h) name label

/-- What is known stays known when the next identity gets its text. -/
theorem SharedName.Known.update {n : SharedName} (h : n.Known label bound) (name : String) :
    n.Known (Function.update label bound name) (bound + 1) :=
  h.mono (Nat.le_succ bound) fun _ hi => update_of_lt label hi name

theorem SharedName.known_new (label : NameId → String) (bound : NameId) (name : String) :
    (⟨bound, name⟩ : SharedName).Known (Function.update label bound name) (bound + 1) :=
  ⟨Nat.lt_succ_self bound, (Function.update_self bound name label).symm⟩

/-- The key of a new name. -/
theorem Key.proper_newName (hash : String → UInt32) (label : NameId → String) (s : Store)
    (name : String) : (⟨(s.newName name).1, hash name⟩ : Key).Proper hash
      (Function.update label s.names.next name) (s.newName name).2.names.next :=
  ⟨SharedName.known_new label s.names.next name, rfl⟩

namespace KeyTable

variable {t : KeyTable} {s : Store}

theorem mem_names_sweep {n : SharedName} (h : n ∈ (t.sweep s).1.names) : n ∈ t.names := by
  rw [names_sweep] at h
  exact (List.mem_filter.1 h).1

theorem mem_names_sweepIfDue {n : SharedName} (h : n ∈ (t.sweepIfDue s).1.names) :
    n ∈ t.names := by
  unfold sweepIfDue at h
  split at h
  · exact mem_names_sweep h
  · exact h

theorem names_next_sweepIfDue (t : KeyTable) (s : Store) :
    (t.sweepIfDue s).2.names.next = s.names.next := by
  unfold sweepIfDue
  split <;> rfl

theorem attended_sweepIfDue (t : KeyTable) (h : s.Attended) : (t.sweepIfDue s).2.Attended := by
  unfold sweepIfDue
  split <;> exact h

/-- What asking the table for a name gives, the store having given identities below `bound`. -/
structure Interned (hash : String → UInt32) (label label' : NameId → String) (bound : NameId)
    (done : Key × KeyTable × Store) : Prop where
  agrees : ∀ i < bound, label' i = label i
  le : bound ≤ done.2.2.names.next
  key : done.1.Proper hash label' done.2.2.names.next
  table : ∀ n ∈ done.2.1.names, n.Known label' done.2.2.names.next

theorem interned_internInBucket {name : String} {bucket : List SharedName}
    (hb : ∀ n ∈ bucket, n.Known label s.names.next)
    (ht : ∀ n ∈ t.names, n.Known label s.names.next) :
    ∃ label', Interned hash label label' s.names.next
      (t.internInBucket (hash name) name bucket s) := by
  have hlive : ∀ n ∈ bucket.filter s.nameAlive, n.Known label s.names.next :=
    fun n hn => hb n (List.mem_filter.1 hn).1
  simp only [internInBucket]
  split
  · rename_i shared hf
    have htext : shared.text = name := by simpa using List.find?_some hf
    have hn : (s.retain [.name shared.id]).names.next = s.names.next := s.names_next_retain _
    have hkey : shared.Known label (s.retain [.name shared.id]).names.next :=
      hn.symm ▸ hlive shared (List.mem_of_find?_eq_some hf)
    refine ⟨label, fun _ _ => rfl, Nat.le_of_eq hn.symm,
      ⟨hkey, congrArg hash htext.symm⟩, fun n hmem => ?_⟩
    rw [hn]
    exact (mem_names_replaceBucket hmem).elim (hlive n) (ht n)
  · have hnew : ∀ n ∈ bucket.filter s.nameAlive ++ [(s.newName name).1],
        n.Known (Function.update label s.names.next name) (s.names.next + 1) := by
      intro n hn
      rcases List.mem_append.1 hn with hn | hn
      · exact (hlive n hn).update name
      · rw [List.mem_singleton.1 hn]
        exact SharedName.known_new label _ name
    have hnext : ∀ b : Bool, ∀ n : Note, (if b then (s.newName name).2
        else (s.newName name).2.note n).names.next = s.names.next + 1 := by
      intro b n
      cases b <;> rfl
    refine ⟨Function.update label s.names.next name, fun _ hi => update_of_lt label hi name,
      ?_, ?_, fun n hmem => ?_⟩
    · exact Nat.le_of_lt (Nat.lt_of_lt_of_eq (Nat.lt_succ_self _) (hnext _ _).symm)
    · exact (hnext _ _).symm ▸ Key.proper_newName hash label s name
    · rw [hnext]
      exact (mem_names_replaceBucket hmem).elim (hnew n) fun hold => (ht n hold).update name

/-- A key asked for is proper, and the names in the table stay known. -/
theorem interned (hash : String → UInt32) (ht : ∀ n ∈ t.names, n.Known label s.names.next)
    (name : String) :
    ∃ label', Interned hash label label' s.names.next (t.intern hash name s) := by
  have hn := t.names_next_sweepIfDue s
  have hswept : ∀ n ∈ (t.sweepIfDue s).1.names, n.Known label (t.sweepIfDue s).2.names.next :=
    fun n hmem => hn ▸ ht n (mem_names_sweepIfDue hmem)
  rw [← hn]
  simp only [intern]
  split
  · rename_i bucket hbucket
    exact interned_internInBucket
      (fun n hmem => hswept n (mem_names_of_bucket? hbucket hmem)) hswept
  · refine ⟨Function.update label (t.sweepIfDue s).2.names.next name,
      fun _ hi => update_of_lt label hi name, Nat.le_succ _,
      Key.proper_newName hash label _ name, fun n hmem => ?_⟩
    rcases List.mem_append.1 hmem with hmem | hmem
    · rw [List.mem_singleton.1 hmem]
      exact SharedName.known_new label _ name
    · exact (hswept n hmem).update name

theorem attended_intern (h : s.Attended) (name : String) (t : KeyTable) :
    (t.intern hash name s).2.2.Attended := by
  have hs := attended_sweepIfDue t h
  simp only [intern, internInBucket]
  split
  · split
    · exact hs.retain _
    · split <;> exact hs.newName name
  · exact hs.newName name

end KeyTable

end MetaCache
