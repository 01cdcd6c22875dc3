import Mathlib.Data.Finset.Card
import MetaCache.Proofs.Custody.Sizes
import MetaCache.Proofs.Custody.Steps
import MetaCache.Proofs.Hashing.Names
/-!
# A key table in order

However names come and go, the table stays tidy, counts its entries, and has one entry for an
identity. Whoever asks for a name does not remove entries that somebody holds.

* `KeyTable.Ordered`: the invariant.
* `KeyTable.Ordered.sweep`, `KeyTable.Ordered.ages`, `KeyTable.Ordered.intern`: what sweeps, other
  work and names that are asked for leave of it.
* `KeyTable.Ordered.tracked_eq`, `KeyTable.Ordered.card_texts`: the size of a table without dead
  entries.
-/

namespace MetaCache.KeyTable

variable {hash : String → UInt32} {t : KeyTable} {s s' : Store} {n : SharedName}

/-- The table is tidy and counts its entries, and no two of them have one identity. -/
structure Ordered (hash : String → UInt32) (t : KeyTable) (s : Store) : Prop where
  tidy : t.Tidy hash s
  tallied : t.Tallied
  known : ∀ n ∈ t.names, (Share.name n.id).OldIn s
  ids : ∀ n ∈ t.names, ∀ m ∈ t.names, n.id = m.id → n = m

namespace Ordered

theorem empty (hash : String → UInt32) (s : Store) : Ordered hash {} s :=
  ⟨.empty hash s, tallied_empty, fun _ hn => (List.not_mem_nil hn).elim,
    fun _ hn => (List.not_mem_nil hn).elim⟩

/-- Names may die, and time may pass. -/
theorem ages (h : t.Ordered hash s) (ha : s.Ages s') : t.Ordered hash s' where
  tidy := h.tidy.of_alive fun n hn => ha.has _ (h.known n hn)
  tallied := h.tallied
  known n hn := ha.old _ (h.known n hn)
  ids := h.ids

theorem sweep (h : t.Ordered hash s) : (t.sweep s).1.Ordered hash (t.sweep s).2 where
  tidy := h.tidy.sweep
  tallied := tallied_sweep t s
  known n hn := h.known n (mem_names_sweep hn)
  ids n hn m hm := h.ids n (mem_names_sweep hn) m (mem_names_sweep hm)

theorem gives (h : t.Ordered hash s) (name : String) :
    Gives hash name t s (t.intern hash name s) :=
  gives_intern h.known h.tidy name

/-- The name of a key that is asked for is one of the table, or it is new. -/
theorem mem_or_new (h : t.Ordered hash s) (name : String) :
    (t.intern hash name s).1.name ∈ t.names ∨
      (t.intern hash name s).1.name.id = s.names.next := by
  by_cases hex : ∃ n ∈ t.live s, n.text = name
  · exact .inl (mem_live.1 ((h.gives name).shared hex).1).1
  · exact .inr ((h.gives name).fresh fun n hn hname => hex ⟨n, hn, hname⟩).1

/-- Whoever asks for a name has it in the table, next to the names that somebody held. -/
theorem mem_intern (h : t.Ordered hash s) (name : String)
    (hn : n = (t.intern hash name s).1.name ∨ n ∈ t.names ∧ s.nameAlive n) :
    n ∈ (t.intern hash name s).2.1.names :=
  (mem_live.1 ((h.gives name).mem_live.2 (hn.imp id mem_live.2))).1

theorem intern (h : t.Ordered hash s) (name : String) :
    (t.intern hash name s).2.1.Ordered hash (t.intern hash name s).2.2 := by
  have hages := ages_intern hash name t s
  have hself := (h.gives name).mem_live.2 (.inl rfl)
  -- a new name has an identity that no other one had
  have hnew : ∀ n ∈ t.names, n.id = (t.intern hash name s).1.name.id →
      n = (t.intern hash name s).1.name := by
    intro n hn heq
    rcases h.mem_or_new name with hold | hnext
    · exact h.ids n hn _ hold heq
    · exact absurd (heq.trans hnext) (Nat.ne_of_lt (h.known n hn))
  constructor
  case tidy => exact (h.gives name).tidy
  case tallied => exact (grows_intern h.tallied hash name s).tallied
  case known =>
    intro n hn
    rcases mem_names_intern hn with hold | rfl
    · exact hages.old _ (h.known n hold)
    · exact Store.oldIn_of_has (x := .name _) (mem_live.1 hself).2
  case ids =>
    intro n hn m hm heq
    rcases mem_names_intern hn with hn | rfl <;> rcases mem_names_intern hm with hm | rfl
    · exact h.ids n hn m hm heq
    · exact hnew n hn heq
    · exact (hnew m hm heq.symm).symm
    · rfl

/-- A table that has names alone that somebody holds has them all counted. -/
theorem tracked_eq (h : t.Ordered hash s) (hlive : ∀ n ∈ t.names, s.nameAlive n) :
    t.tracked = t.liveCount s := by
  rw [h.tallied, liveCount_eq, List.countP_eq_length.2 hlive]

/-- They have as many texts. -/
theorem card_texts (h : t.Ordered hash s) (hlive : ∀ n ∈ t.names, s.nameAlive n) :
    (t.names.map SharedName.text).toFinset.card = t.liveCount s := by
  have hall : t.live s = t.names := List.filter_eq_self.2 hlive
  have hnodup := h.tidy.texts
  rw [hall] at hnodup
  rw [List.toFinset_card_of_nodup hnodup, List.length_map, ← h.tracked_eq hlive, h.tallied]

end Ordered

end MetaCache.KeyTable
