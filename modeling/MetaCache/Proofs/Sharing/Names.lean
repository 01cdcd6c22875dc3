import MetaCache.Proofs.Introspection.Compile
import MetaCache.Proofs.Sharing.Agreement
import MetaCache.Proofs.Storage.Keys
import MetaCache.Script.Steps.Keys
/-!
# New keys in twin worlds

A key may come from the key table or be made of a new name, and what has to be swept is swept on the
way. In every case the run gets a key of the name that was asked for, and nothing changes but its
names and its key table. So the keys of two runs have the same text, whichever way each of them got
its own.

* `Naming.Grants`: a key obtained in one run.
* `World.Twin.granted`: a key obtained in each of two runs.
* `agree_key`, `agree_interned`, `agree_freshKey`: the ways to obtain a key.
-/

namespace MetaCache

/-- Nothing is changed but names, and nothing happened but notes. -/
structure Store.Renamed (s s' : Store) : Prop where
  cells : s'.cells = s.cells
  payloads : s'.payloads = s.payloads
  journal : s'.journal.filter Event.lasting = s.journal.filter Event.lasting

theorem Store.Renamed.trans {s s' s'' : Store} (h : s.Renamed s') (h' : s'.Renamed s'') :
    s.Renamed s'' :=
  ⟨h'.cells.trans h.cells, h'.payloads.trans h.payloads, h'.journal.trans h.journal⟩

theorem KeyTable.renamed_intern (hash : String → UInt32) (name : String) (t : KeyTable)
    (s : Store) : s.Renamed (t.intern hash name s).2.2 := by
  have hswept : s.Renamed (t.sweepIfDue s).2 := by
    unfold sweepIfDue
    split <;> exact ⟨rfl, rfl, rfl⟩
  refine hswept.trans ?_
  simp only [intern, internInBucket]
  split
  · split
    · exact ⟨rfl, rfl, rfl⟩
    · split <;> exact ⟨rfl, rfl, rfl⟩
  · exact ⟨rfl, rfl, rfl⟩

theorem KeyTable.text_intern (hash : String → UInt32) (name : String) (t : KeyTable) (s : Store) :
    (t.intern hash name s).1.text = name := by
  simp only [intern]
  split
  · exact congrArg Key.text (bare_internInBucket _ _ _ _ _)
  · rfl

/-- The key of a name is obtained in a run, whose naming has grown from `n` to `n'`. -/
structure Naming.Grants (n n' : Naming) (w : World) (name : String)
    (done : Key × World) : Prop where
  le : n ≤ n'
  key : n'.Has done.1
  text : done.1.text = name
  bound : n'.bound = done.2.store.names.next
  renamed : w.store.Renamed done.2.store
  table : ∀ m ∈ done.2.cache.keys.names, n'.Knows m
  rest : done.2 =
    { w with store := done.2.store, cache := { w.cache with keys := done.2.cache.keys } }

namespace World

variable {n : Naming} {w : World}

theorem granted_new (hb : n.bound = w.store.names.next) (ht : ∀ m ∈ w.cache.keys.names, n.Knows m)
    (name : String) : ∃ n', n.Grants n' w name
      (⟨(w.store.newName name).1, Text.nameHash name⟩,
        { w with store := (w.store.newName name).2 }) := by
  have hle : n ≤ ⟨Function.update n.label n.bound name, n.bound + 1⟩ :=
    ⟨Nat.le_succ _, fun _ hi => update_of_lt n.label hi name⟩
  refine ⟨_, hle, ?_, rfl, ?_, ⟨rfl, rfl, rfl⟩, fun m hm => (ht m hm).mono hle, rfl⟩
  · show Key.Proper _ _ _ _
    rw [hb]
    exact Key.proper_newName Text.nameHash n.label w.store name
  · exact congrArg (· + 1) hb

theorem granted_intern (hb : n.bound = w.store.names.next)
    (ht : ∀ m ∈ w.cache.keys.names, n.Knows m) (name : String) :
    let done := w.cache.keys.intern Text.nameHash name w.store
    ∃ n', n.Grants n' w name
      (done.1, { w with cache := { w.cache with keys := done.2.1 }, store := done.2.2 }) := by
  have hknown : ∀ m ∈ w.cache.keys.names, m.Known n.label w.store.names.next := hb ▸ ht
  obtain ⟨label', h⟩ := KeyTable.interned Text.nameHash hknown name
  refine ⟨⟨label', (w.cache.keys.intern Text.nameHash name w.store).2.2.names.next⟩,
    ⟨hb ▸ h.le, fun i hi => h.agrees i (hb ▸ hi)⟩, h.key, KeyTable.text_intern _ _ _ _, rfl,
    KeyTable.renamed_intern _ _ _ _, h.table, rfl⟩

theorem granted_key (hb : n.bound = w.store.names.next) (ht : ∀ m ∈ w.cache.keys.names, n.Knows m)
    (hh : w.cache.nameHash = Text.nameHash) (name : String) :
    ∃ n', n.Grants n' w name (w.key name) := by
  unfold World.key
  rw [hh]
  split
  · exact granted_intern hb ht name
  · exact granted_new hb ht name

end World

variable {g : Namings}

theorem Store.Twin.renamed {g' : Namings} {s t s' t' : Store} (h : s.Twin g t) (hg : g ≤ g')
    (hs : s.Renamed s') (ht : t.Renamed t') (hl : g'.1.bound = s'.names.next)
    (hr : g'.2.bound = t'.names.next) : s'.Twin g' t' := by
  refine ⟨hl, hr, ?_, ?_, ?_⟩
  · rw [hs.cells, ht.cells]
    exact h.cells.imp fun _ _ h => h.mono hg
  · rw [hs.payloads, ht.payloads]
    exact h.payloads.imp fun _ _ h => h.mono hg
  · rw [hs.journal, ht.journal, h.journal]

/-- Each run gets a key of the same name. -/
theorem World.Twin.granted {w v : World} (h : w.Twin g v) {l r : Naming} {name : String}
    {done done' : Key × World} (hl : g.1.Grants l w name done) (hr : g.2.Grants r v name done') :
    ∃ g', g ≤ g' ∧ done.1.Twin g' done'.1 ∧ done.2.Twin g' done'.2 := by
  have hg : g ≤ (l, r) := ⟨hl.le, hr.le⟩
  have hcache := h.cache.mono hg
  refine ⟨(l, r), hg, ⟨hl.key, hr.key, hl.text.trans hr.text.symm⟩, ?_⟩
  rw [hl.rest, hr.rest]
  exact {
    store := h.store.renamed hg hl.renamed hr.renamed hl.bound hr.bound
    cache := { hcache with left := hl.table, right := hr.table }
    registry := h.registry
    session := h.session.mono hg }

theorem agree_key (name : String) :
    Action.Agree g Key.Twin (modifyGet (World.key name)) (modifyGet (World.key name)) := by
  refine .modifyGet fun w v h => ?_
  obtain ⟨_, hl⟩ := World.granted_key h.store.left h.cache.left h.cache.hash name
  obtain ⟨_, hr⟩ := World.granted_key h.store.right h.cache.right h.cache.hash' name
  exact h.granted hl hr

namespace Script

theorem agree_interned (name : String) :
    Action.Agree g Key.Twin (interned name) (interned name) := by
  refine .modifyGet fun w v h => ?_
  obtain ⟨_, hl⟩ := World.granted_intern h.store.left h.cache.left name
  obtain ⟨_, hr⟩ := World.granted_intern h.store.right h.cache.right name
  rw [h.cache.hash, h.cache.hash']
  exact h.granted hl hr

theorem agree_freshKey (name : String) :
    Action.Agree g Key.Twin (freshKey name) (freshKey name) := by
  have hfresh : freshKey name = modifyGet fun w =>
      (⟨(w.store.newName name).1, w.cache.nameHash name⟩,
        { w with store := (w.store.newName name).2 }) := rfl
  rw [hfresh]
  refine .modifyGet fun w v h => ?_
  obtain ⟨_, hl⟩ := World.granted_new h.store.left h.cache.left name
  obtain ⟨_, hr⟩ := World.granted_new h.store.right h.cache.right name
  rw [h.cache.hash, h.cache.hash']
  exact h.granted hl hr

end Script

/-- The key tables are swept in each run for itself. -/
theorem World.Twin.sweepKeys {w v : World} (h : w.Twin g v) :
    w.sweepKeys.Twin g v.sweepKeys :=
  { h with
    store := h.store.renamed le_rfl ⟨rfl, rfl, rfl⟩ ⟨rfl, rfl, rfl⟩ h.store.left h.store.right
    cache := { h.cache with
      left := fun n hn => h.cache.left n (KeyTable.mem_names_sweep hn)
      right := fun n hn => h.cache.right n (KeyTable.mem_names_sweep hn) } }

end MetaCache
