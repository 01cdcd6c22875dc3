import MetaCache.Proofs.Custody.Steps
/-!
# Slots in a run

All keys that are made in a run are explained by one labelling of identities, which grows with them.
So the entries of every hash are a map from names to values all the time, and what is in a slot
stays there until an act names the slot.

* `Estate.Sound`: keys, names and entries that one labelling explains; `Estate.Sound.after`,
  `Estate.Sound.run`.
* `Estate.Act.Touches`: the slot that an act names.
* `Estate.Run.slot?_eq`: a slot that no act of a run names.
-/

namespace MetaCache

theorem Store.slots?_of_hash {s : Store} {c : CellId} {es : List (Key × Value)}
    (h : s.referent? c = some (.hash es)) : s.slots? c = some (Entries.slots es) := by
  rw [slots?, h]

theorem Store.slots?_of_ne {s : Store} {c : CellId}
    (h : ∀ es, s.referent? c ≠ some (.hash es)) : s.slots? c = none := by
  unfold slots?
  split
  · exact absurd ‹_› (h _)
  · rfl

theorem Store.slot?_of_hash {s : Store} {c : CellId} {es : List (Key × Value)}
    (h : s.referent? c = some (.hash es)) (name : String) :
    s.slot? c name = Entries.slots es name := by
  rw [slot?, slots?_of_hash h]
  rfl

theorem Store.slot?_of_referent? {s s' : Store} {c : CellId} (h : s'.referent? c = s.referent? c)
    (name : String) : s'.slot? c name = s.slot? c name := by
  rw [slot?, slot?, slots?, slots?, h]

namespace Estate

variable {hash : String → UInt32} {e d : Estate} {ts : List Turn} {a : Act}

/-! ## Keys by name -/

/-- One labelling explains the keys made so far, the names in the table and the entries of all
hashes. -/
structure Sound (hash : String → UInt32) (label : NameId → String) (e : Estate) : Prop where
  keys : ∀ k ∈ e.keys, k.Proper hash label e.store.names.next
  table : ∀ n ∈ e.table.names, n.Known label e.store.names.next
  entries : ∀ c es, e.store.referent? c = some (.hash es) →
    Entries.Proper hash label e.store.names.next es

namespace Sound

variable {label label' : NameId → String}

theorem empty (hash : String → UInt32) (label : NameId → String) : Sound hash label {} :=
  ⟨fun _ h => (List.not_mem_nil h).elim, fun _ h => (List.not_mem_nil h).elim,
    fun _ _ h => by cases h⟩

/-- What is there besides what was there is explained as well. -/
theorem grow (h : e.Sound hash label) (hn : e.store.names.next ≤ d.store.names.next)
    (hl : ∀ i < e.store.names.next, label' i = label i)
    (hk : ∀ k ∈ d.keys, k ∈ e.keys ∨ k.Proper hash label' d.store.names.next)
    (ht : ∀ n ∈ d.table.names, n ∈ e.table.names ∨ n.Known label' d.store.names.next)
    (he : ∀ c es, d.store.referent? c = some (.hash es) →
      e.store.referent? c = some (.hash es) ∨
        Entries.Proper hash label' d.store.names.next es) : d.Sound hash label' where
  keys k hmem := (hk k hmem).elim (fun hold => (h.keys k hold).mono hn hl) id
  table n hmem := (ht n hmem).elim (fun hold => (h.table n hold).mono hn hl) id
  entries c es hes := (he c es hes).elim (fun hold => (h.entries c es hold).mono hn hl) id

/-- Nothing is there but what was there. -/
theorem of_sheds (h : e.Sound hash label) (hs : e.store.Sheds d.store)
    (hn : d.store.names.next = e.store.names.next) (hk : d.keys = e.keys)
    (ht : ∀ n ∈ d.table.names, n ∈ e.table.names) : d.Sound hash label :=
  h.grow (Nat.le_of_eq hn.symm) (fun _ _ => rfl) (fun _ hmem => .inl (hk ▸ hmem))
    (fun n hmem => .inl (ht n hmem)) fun c _ hes => .inl (hs.keeps.referent? c _ hes)

/-- A cell that is written, with proper entries if with any. -/
theorem rewrite (h : e.Sound hash label) (c : CellId) {r : Referent}
    (hr : ∀ es, r = .hash es → Entries.Proper hash label e.store.names.next es) :
    (e.rewrite c r).Sound hash label :=
  h.grow (Nat.le_refl _) (fun _ _ => rfl) (fun _ => .inl) (fun _ => .inl) fun d es hes => by
    rw [Estate.rewrite, Store.referent?_setReferent] at hes
    split at hes
    · obtain ⟨r', -, hr'⟩ := Option.map_eq_some_iff.1 hes
      exact .inr (hr es hr')
    · exact .inl hes

/-- The entries of a hash are proper. -/
theorem entriesAt (h : e.Sound hash label) {c : CellId}
    (hc : ∃ es, e.store.referent? c = some (.hash es)) :
    Entries.Proper hash label e.store.names.next (e.store.entriesAt c) := by
  obtain ⟨es, hes⟩ := hc
  rw [Store.entriesAt, hes]
  exact h.entries c es hes

/-- Entries under keys that were made, with a name each, are proper. -/
theorem entries_of_keys (h : e.Sound hash label) {es : List (Key × Value)}
    (hk : ∀ p ∈ es, p.1 ∈ e.keys) (hd : (es.map fun p => p.1.text).Nodup) :
    Entries.Proper hash label e.store.names.next es :=
  ⟨fun p hp => h.keys p.1 (hk p hp), hd⟩

/-- Every act leaves things explained. -/
theorem after (h : e.Sound hash label) (ha : e.Allows a) : ∃ label',
    (∀ i < e.store.names.next, label' i = label i) ∧ (e.after hash a).Sound hash label' := by
  have same {d : Estate} (hd : d.Sound hash label) : ∃ label',
      (∀ i < e.store.names.next, label' i = label i) ∧ d.Sound hash label' :=
    ⟨label, fun _ _ => rfl, hd⟩
  have hfits := ha.fits
  cases a with
  | share os =>
    exact same (h.of_sheds (e.store.sheds_retain os) (e.store.names_next_retain os) rfl
      fun _ => id)
  | drop os => exact same (h.of_sheds (.refl _) rfl rfl fun _ => id)
  | fall =>
    refine same ?_
    rw [Estate.after]
    split
    · exact h
    · exact h.of_sheds (e.store.sheds_releaseOne _) (e.store.names_next_releaseOne _) rfl
        fun _ => id
  | newCell r =>
    refine same (h.grow (Nat.le_refl _) (fun _ _ => rfl) (fun _ => .inl) (fun _ => .inl)
      fun c es hes => ?_)
    have hes : (e.store.newCell r).2.referent? c = some (.hash es) := hes
    rw [Store.referent?_newCell] at hes
    split at hes
    · obtain ⟨hkeys, hdistinct⟩ := hfits.2 es (Option.some.inj hes)
      exact .inr (h.entries_of_keys hkeys hdistinct)
    · exact .inl hes
  | newPayload p =>
    exact same (h.grow (Nat.le_refl _) (fun _ _ => rfl) (fun _ => .inl) (fun _ => .inl)
      fun _ _ => .inl)
  | newKey name =>
    refine ⟨_, fun _ hi => update_of_lt label hi name, h.grow (Nat.le_succ _)
      (fun _ hi => update_of_lt label hi name) (fun k hk => ?_) (fun _ => .inl) fun _ _ => .inl⟩
    rcases List.mem_cons.1 hk with rfl | hk
    · exact .inr (Key.proper_newName hash label e.store name)
    · exact .inl hk
  | shareKey k =>
    have hn := e.store.names_next_retain k.owned
    refine same (h.grow (Nat.le_of_eq hn.symm) (fun _ _ => rfl) (fun k' hk' => ?_)
      (fun _ => .inl) fun c es hes => .inl ((e.store.sheds_retain _).keeps.referent? c _ hes))
    rcases List.mem_cons.1 hk' with rfl | hk'
    · exact .inr ⟨(h.keys k hfits.1).known.mono (Nat.le_of_eq hn.symm) fun _ _ => rfl, rfl⟩
    · exact .inl hk'
  | intern name =>
    obtain ⟨label', hi⟩ := KeyTable.interned hash h.table name
    refine ⟨label', hi.agrees, h.grow hi.le hi.agrees (fun k hk => ?_)
      (fun n hn => .inr (hi.table n hn)) fun c es hes => .inl
        ((KeyTable.sheds_intern hash name e.table e.store).keeps.referent? c _ hes)⟩
    rcases List.mem_cons.1 hk with rfl | hk
    · exact .inr hi.key
    · exact .inl hk
  | sweep =>
    exact same (h.of_sheds (e.store.sheds_record _) rfl rfl fun _ => KeyTable.mem_names_sweep)
  | write c r =>
    refine same (h.rewrite c fun es hes => ?_)
    have hno := hfits.2.1
    rw [hes] at hno
    cases hno
  | put c slot v =>
    refine same (h.rewrite c fun es hes => ?_)
    cases hes
    exact (h.entriesAt hfits.1).put (h.keys slot hfits.2.1) v
  | remove c slot =>
    refine same (h.rewrite c fun es hes => ?_)
    cases hes
    exact (h.entriesAt hfits.1).remove
  | attach c r? =>
    refine same (h.grow (Nat.le_refl _) (fun _ _ => rfl) (fun _ => .inl) (fun _ => .inl)
      fun d es hes => .inl ?_)
    have hes : (e.store.setExtension c r?).referent? d = some (.hash es) := hes
    rwa [Store.referent?_setExtension] at hes
  | note n => exact same (h.of_sheds (e.store.sheds_record _) rfl rfl fun _ => id)

theorem run (h : e.Sound hash label) (hr : e.Run hash ts d) : ∃ label',
    (∀ i < e.store.names.next, label' i = label i) ∧ d.Sound hash label' := by
  induction hr with
  | refl => exact ⟨label, fun _ _ => rfl, h⟩
  | snoc hr ha ih =>
    obtain ⟨label₁, hl₁, h₁⟩ := ih
    obtain ⟨label₂, hl₂, h₂⟩ := h₁.after ha
    exact ⟨label₂, fun i hi => (hl₂ i (hr.ages.old (.name i) hi)).trans (hl₁ i hi), h₂⟩

end Sound

/-! ## Slots -/

/-- The act writes or removes the slot of that name of a hash. -/
def Act.Touches (c : CellId) (name : String) : Act → Prop
  | put d slot _ | remove d slot => d = c ∧ slot.text = name
  | _ => False

/-- Of a hash that is rewritten, the slots are those of its new entries. -/
theorem slot?_rewrite (e : Estate) {c d : CellId} {es es' : List (Key × Value)}
    (hc : e.store.referent? c = some (.hash es)) {name : String}
    (hes : d = c → Entries.slots es' name = Entries.slots es name) :
    (e.rewrite c (.hash es')).store.slot? d name = e.store.slot? d name := by
  have href := e.store.referent?_setReferent c d (.hash es')
  by_cases hd : d = c
  · subst hd
    rw [if_pos rfl, hc, Option.map_some] at href
    rw [Store.slot?_of_hash hc, ← hes rfl]
    exact Store.slot?_of_hash href name
  · rw [if_neg hd] at href
    exact Store.slot?_of_referent? href name

/-- An act that does not name a slot leaves it, as long as the cell is there. -/
theorem slot?_after {label : NameId → String} (h : e.Sound hash label) (ha : e.Allows a)
    {c : CellId} (hold : c < e.store.cells.next) (hc : (e.after hash a).store.alive c)
    {name : String} (hname : ¬ a.Touches c name) :
    (e.after hash a).store.slot? c name = e.store.slot? c name := by
  have hfits := ha.fits
  have of_sheds {s' : Store} (hs : e.store.Sheds s') (hc : s'.alive c) :
      s'.slot? c name = e.store.slot? c name := Store.slot?_congr (hs.cell?_eq hc) name
  cases a with
  | share os => exact of_sheds (e.store.sheds_retain os) hc
  | drop os => rfl
  | fall =>
    rw [Estate.after] at hc ⊢
    split at hc
    · rfl
    · exact of_sheds (e.store.sheds_releaseOne _) hc
  | newCell r => exact Store.slot?_congr (e.store.cell?_newCell_of_ne r (Nat.ne_of_lt hold)) name
  | newPayload p | newKey text => rfl
  | shareKey k => exact of_sheds (e.store.sheds_retain _) hc
  | intern text => exact of_sheds (KeyTable.sheds_intern hash text e.table e.store) hc
  | sweep | note n => exact of_sheds (e.store.sheds_record _) hc
  | write d r =>
    obtain ⟨-, hr, hd⟩ := hfits
    have href := e.store.referent?_setReferent d c r
    by_cases hcd : c = d
    · -- neither what was in the cell nor what is in it now has slots
      subst hcd
      have hnone : e.store.slots? c = none := Store.slots?_of_ne hd
      have hnone' : (e.store.setReferent c r).slots? c = none := by
        refine Store.slots?_of_ne fun es hes => ?_
        rw [href, if_pos rfl] at hes
        obtain ⟨-, -, rfl⟩ := Option.map_eq_some_iff.1 hes
        cases hr
      show (e.store.setReferent c r).slot? c name = _
      rw [Store.slot?, Store.slot?, hnone, hnone']
    · rw [if_neg hcd] at href
      exact Store.slot?_of_referent? href name
  | put d slot v =>
    obtain ⟨⟨es, hes⟩, hslot, -⟩ := hfits
    have hproper := h.entriesAt ⟨es, hes⟩
    have hat : e.store.entriesAt d = es := by rw [Store.entriesAt, hes]
    rw [hat] at hproper
    show (e.rewrite d (.hash (Entries.put slot v (e.store.entriesAt d)))).store.slot? c name = _
    rw [hat]
    refine e.slot?_rewrite hes fun hcd => ?_
    rw [Entries.slots_put (h.keys slot hslot) hproper]
    exact Slots.assign_of_ne _ (fun hn => hname ⟨hcd.symm, hn.symm⟩) _
  | remove d slot =>
    obtain ⟨⟨es, hes⟩, hslot, -⟩ := hfits
    have hproper := h.entriesAt ⟨es, hes⟩
    have hat : e.store.entriesAt d = es := by rw [Store.entriesAt, hes]
    rw [hat] at hproper
    show (e.rewrite d (.hash (Entries.remove slot (e.store.entriesAt d)))).store.slot? c name = _
    rw [hat]
    refine e.slot?_rewrite hes fun hcd => ?_
    rw [Entries.slots_remove (h.keys slot hslot) hproper]
    exact Slots.assign_of_ne _ (fun hn => hname ⟨hcd.symm, hn.symm⟩) _
  | attach d r? => exact Store.slot?_of_referent? (e.store.referent?_setExtension d c r?) name

/-- What is in a slot stays there as long as the cell is there and no act names the slot. -/
theorem Run.slot?_eq {label : NameId → String} (hr : e.Run hash ts d) (h : e.Sound hash label)
    {c : CellId} (hc : d.store.alive c) (hold : c < e.store.cells.next) {name : String}
    (hname : ∀ t ∈ ts, ¬ t.act.Touches c name) : d.store.slot? c name = e.store.slot? c name := by
  induction hr with
  | refl => rfl
  | @snoc ts d a hr ha ih =>
    obtain ⟨label', -, hd⟩ := h.run hr
    have hold' : c < d.store.cells.next := hr.ages.old (.cell c) hold
    have hcd : d.store.alive c := (Estate.ages hash d a).has (.cell c) hold' hc
    rw [slot?_after hd ha hold' hc (hname ⟨d, a⟩ (List.mem_append_right _ List.mem_cons_self))]
    exact ih hcd fun t ht => hname t (List.mem_append_left _ ht)

end Estate

end MetaCache
