import MetaCache.Proofs.Hashing.Matches
import MetaCache.Proofs.Sharing.Names
/-!
# New keys in matching worlds

Where names are looked for depends on their hashes, but what is found does not: the live entry of a
name is found if there is one, in whatever bucket it is and whatever else is in that bucket. So two
runs that differ in their hashes get keys with the same shared name, and the same names are alive in
their tables afterwards.

* `KeyTable.names_intern`, `KeyTable.mem_names_intern`: what asking for a name does to the names.
* `Store.Matches.name_intern`: both tables give the same name.
* `Store.Matches.intern`, `Store.Matches.newName`, `Store.Matches.sweep`: keys from the table, keys
  of their own, and sweeps.
* `Store.Matches.liveCount_eq`: as many names are alive.
* `World.Matches.key`, `World.Matches.sweepKeys`: the same in worlds.
-/

namespace MetaCache

namespace KeyTable

variable {hash : String → UInt32} {t : KeyTable} {s : Store} {name : String}

/-- The name of the key is one of the table, and has one owner more, or it is new. -/
theorem names_intern (hash : String → UInt32) (name : String) (t : KeyTable) (s : Store) :
    ((t.intern hash name s).1.name ∈ t.names ∧ (t.intern hash name s).2.2.names =
        s.names.modify (t.intern hash name s).1.name.id (· + 1)) ∨
      ((t.intern hash name s).1.name = ⟨s.names.next, name⟩ ∧
        (t.intern hash name s).2.2.names = s.names.insert 1) := by
  have hn : (t.sweepIfDue s).2.names = s.names := by
    unfold sweepIfDue
    split <;> rfl
  have hnew : (⟨(t.sweepIfDue s).2.names.next, name⟩ : SharedName) = ⟨s.names.next, name⟩ ∧
      (t.sweepIfDue s).2.names.insert 1 = s.names.insert 1 := by
    rw [hn]
    exact ⟨rfl, rfl⟩
  simp only [intern, internInBucket]
  split
  · rename_i bucket hb
    split
    · rename_i m hm
      have hmem : m ∈ bucket := (List.mem_filter.1 (List.mem_of_find?_eq_some hm)).1
      exact .inl ⟨mem_names_sweepIfDue (mem_names_of_bucket? hb hmem),
        congrArg (fun u => u.modify m.id (· + 1)) hn⟩
    · split <;> exact .inr hnew
  · exact .inr hnew

/-- The names of the table afterwards are among those before, or that of the key. -/
theorem mem_names_intern {m : SharedName} (h : m ∈ (t.intern hash name s).2.1.names) :
    m ∈ t.names ∨ m = (t.intern hash name s).1.name := by
  simp only [intern, internInBucket] at h ⊢
  split at h
  · rename_i bucket hb
    have hlive {m : SharedName} (hm : m ∈ bucket.filter (t.sweepIfDue s).2.nameAlive) :
        m ∈ t.names :=
      mem_names_sweepIfDue (mem_names_of_bucket? hb (List.mem_filter.1 hm).1)
    split at h
    · exact .inl ((mem_names_replaceBucket h).elim hlive mem_names_sweepIfDue)
    · rcases mem_names_replaceBucket h with h | h
      · rcases List.mem_append.1 h with h | h
        · exact .inl (hlive h)
        · exact .inr (List.mem_singleton.1 h)
      · exact .inl (mem_names_sweepIfDue h)
  · rcases List.mem_append.1 h with h | h
    · exact .inr (List.mem_singleton.1 h)
    · exact .inl (mem_names_sweepIfDue h)

end KeyTable

/-! ## Namings that grow -/

/-- The naming with a text for the next identity. -/
def Naming.add (n : Naming) (name : String) : Naming :=
  ⟨Function.update n.label n.bound name, n.bound + 1⟩

theorem Naming.le_add (n : Naming) (name : String) : n ≤ n.add name :=
  ⟨Nat.le_succ _, fun _ hi => update_of_lt n.label hi name⟩

theorem Naming.knows_add (n : Naming) (name : String) : (n.add name).Knows ⟨n.bound, name⟩ :=
  SharedName.known_new n.label n.bound name

/-- The hashings with a text for the next identity. -/
def Hashings.add (g : Hashings) (name : String) : Hashings :=
  { g with naming := g.naming.add name }

theorem Hashings.le_add (g : Hashings) (name : String) : g ≤ g.add name :=
  ⟨rfl, rfl, g.naming.le_add name⟩

/-! ## Keys -/

theorem SharedName.eq_of_text {m n : SharedName} (hid : m.id = n.id) (ht : m.text = n.text) :
    m = n := by
  cases m
  cases n
  cases hid
  cases ht
  rfl

/-- A key of a name that is known, with the hash of each run. -/
theorem Key.matches_of_knows {g : Hashings} {m : SharedName} (h : g.naming.Knows m) :
    Key.Matches g ⟨m, g.left m.text⟩ ⟨m, g.right m.text⟩ where
  unhashed := rfl
  left k hk := by
    rw [List.mem_singleton.1 hk]
    exact ⟨h, rfl⟩
  right k hk := by
    rw [List.mem_singleton.1 hk]
    exact ⟨h, rfl⟩

namespace Store

variable {g g' : Hashings} {a a' b b' : KeyTable} {s s' t t' : Store} {k : Key}

theorem Renamed.mentions (h : s.Renamed s') (hk : s'.Mentions k) : s.Mentions k := by
  obtain ⟨cells, names, payloads, journal⟩ := s
  obtain ⟨cells', names', payloads', journal'⟩ := s'
  obtain ⟨rfl, rfl, -⟩ := h
  exact hk

theorem Renamed.unhashed (h : s.Renamed s') :
    s'.unhashed = { s.unhashed with names := s'.names } := by
  rw [Store.unhashed, h.cells, h.payloads, h.journal]
  rfl

/-- Nothing has changed but names and how they are filed. -/
theorem Keyed.renamed {hash : String → UInt32} {n n' : Naming} (h : s.Keyed hash n a)
    (hn : n ≤ n') (hs : s.Renamed s') (hb : n'.bound = s'.names.next)
    (htable : ∀ m ∈ a'.names, n'.Knows m) (htidy : a'.Tidy hash s') : s'.Keyed hash n' a' where
  bound := hb
  keys k hk := (h.keys k (hs.mentions hk)).mono hn.1 hn.2
  table := htable
  tidy := htidy

/-- The key of a name in one run. -/
theorem Keyed.gives {hash : String → UInt32} {n : Naming} (h : s.Keyed hash n a) (name : String) :
    KeyTable.Gives hash name a s (a.intern hash name s) :=
  KeyTable.gives_intern (fun m hm => h.bound ▸ (h.table m hm).lt) h.tidy name

theorem Keyed.intern {hash : String → UInt32} {n n' : Naming} (h : s.Keyed hash n a)
    (name : String) (hn : n ≤ n') (hk : n'.Knows (a.intern hash name s).1.name)
    (hb : n'.bound = (a.intern hash name s).2.2.names.next) :
    n'.Fits hash (a.intern hash name s).1 ∧
      (a.intern hash name s).2.2.Keyed hash n' (a.intern hash name s).2.1 := by
  have hgives := h.gives name
  refine ⟨⟨hk, hgives.hashed.trans (congrArg hash hgives.text.symm)⟩, ?_⟩
  refine h.renamed hn (KeyTable.renamed_intern _ _ _ _) hb (fun m hm => ?_) hgives.tidy
  rcases KeyTable.mem_names_intern hm with hm | rfl
  · exact (h.table m hm).mono hn
  · exact hk

namespace Matches

variable (h : s.Matches g a b t)

include h

theorem unhashed_renamed (hs : s.Renamed s') (ht : t.Renamed t') (hnames : s'.names = t'.names) :
    s'.unhashed = t'.unhashed := by
  rw [hs.unhashed, ht.unhashed, h.unhashed, hnames]

/-- The tables may be swept, in each run for itself. -/
theorem sweep : (a.sweep s).2.Matches g (a.sweep s).1 (b.sweep t).1 (b.sweep t).2 where
  unhashed := h.unhashed
  left := h.left.renamed le_rfl ⟨rfl, rfl, rfl⟩ h.left.bound
    (fun m hm => h.left.table m (KeyTable.mem_names_sweep hm)) h.left.tidy.sweep
  right := h.right.renamed le_rfl ⟨rfl, rfl, rfl⟩ h.right.bound
    (fun m hm => h.right.table m (KeyTable.mem_names_sweep hm)) h.right.tidy.sweep
  live m := by
    rw [KeyTable.live_sweep, KeyTable.live_sweep]
    exact h.live m

/-- A key of its own for a name. -/
theorem newName (name : String) : ∃ g', g ≤ g' ∧
    Key.Matches g' ⟨(s.newName name).1, g.left name⟩ ⟨(t.newName name).1, g.right name⟩ ∧
      (s.newName name).2.Matches g' a b (t.newName name).2 := by
  have hnext : s.names.next = t.names.next := by rw [h.names]
  have hleft : ∀ m ∈ a.names, m.id < s.names.next := fun m hm =>
    h.left.bound ▸ (h.left.table m hm).lt
  have hright : ∀ m ∈ b.names, m.id < t.names.next := fun m hm =>
    h.right.bound ▸ (h.right.table m hm).lt
  refine ⟨g.add name, g.le_add name, ?_, ?_⟩
  · rw [Store.newName, Store.newName, ← hnext, ← h.left.bound]
    exact Key.matches_of_knows (g := g.add name) (g.naming.knows_add name)
  · refine ⟨h.unhashed_renamed ⟨rfl, rfl, rfl⟩ ⟨rfl, rfl, rfl⟩ ?_,
      h.left.renamed (g.naming.le_add name) ⟨rfl, rfl, rfl⟩ ?_
        (fun m hm => (h.left.table m hm).mono (g.naming.le_add name)) ?_,
      h.right.renamed (g.naming.le_add name) ⟨rfl, rfl, rfl⟩ ?_
        (fun m hm => (h.right.table m hm).mono (g.naming.le_add name)) ?_, fun m => ?_⟩
    · exact congrArg (fun u => u.insert 1) h.names
    · exact congrArg (· + 1) h.left.bound
    · exact h.left.tidy.of_alive fun m hm halive =>
        (KeyTable.nameAlive_newName_of_lt (hleft m hm) name).symm.trans halive
    · exact congrArg (· + 1) h.right.bound
    · exact h.right.tidy.of_alive fun m hm halive =>
        (KeyTable.nameAlive_newName_of_lt (hright m hm) name).symm.trans halive
    · rw [KeyTable.live, KeyTable.filter_newName hleft fun _ hm => hm, KeyTable.live,
        KeyTable.filter_newName hright fun _ hm => hm]
      exact h.live m

/-- Both tables give the same name: the live one of that text, or a new one. -/
theorem name_intern (name : String) :
    (a.intern g.left name s).1.name = (b.intern g.right name t).1.name := by
  have hl := h.left.gives name
  have hr := h.right.gives name
  have htext : (a.intern g.left name s).1.name.text = (b.intern g.right name t).1.name.text :=
    hl.text.trans hr.text.symm
  by_cases hex : ∃ m ∈ a.live s, m.text = name
  · have hex' : ∃ m ∈ b.live t, m.text = name :=
      hex.imp fun m hm => ⟨(h.live m).1 hm.1, hm.2⟩
    exact h.left.tidy.eq_of_text (hl.shared hex).1 ((h.live _).2 (hr.shared hex').1) htext
  · have hno : ∀ m ∈ a.live s, m.text ≠ name := fun m hm hname => hex ⟨m, hm, hname⟩
    have hid := (hl.fresh hno).1
    have hid' := (hr.fresh fun m hm => hno m ((h.live m).2 hm)).1
    rw [← h.names, ← hid] at hid'
    exact SharedName.eq_of_text hid'.symm htext

/-- The key of a name from each table. -/
theorem intern (name : String) : ∃ g', g ≤ g' ∧
    Key.Matches g' (a.intern g.left name s).1 (b.intern g.right name t).1 ∧
      (a.intern g.left name s).2.2.Matches g' (a.intern g.left name s).2.1
        (b.intern g.right name t).2.1 (b.intern g.right name t).2.2 := by
  have hname := h.name_intern name
  -- the naming may grow, but it knows the name of the keys and the same names are counted
  have hdone {g' : Hashings} (hg : g ≤ g') (hleft : g'.left = g.left) (hright : g'.right = g.right)
      (hk : g'.naming.Knows (a.intern g.left name s).1.name)
      (hb : g'.naming.bound = (a.intern g.left name s).2.2.names.next)
      (hnames : (a.intern g.left name s).2.2.names = (b.intern g.right name t).2.2.names) :
      Key.Matches g' (a.intern g.left name s).1 (b.intern g.right name t).1 ∧
        (a.intern g.left name s).2.2.Matches g' (a.intern g.left name s).2.1
          (b.intern g.right name t).2.1 (b.intern g.right name t).2.2 := by
    obtain ⟨hkey, hstore⟩ := h.left.intern name hg.2.2 hk hb
    obtain ⟨hkey', hstore'⟩ := h.right.intern name hg.2.2 (hname ▸ hk) (hnames ▸ hb)
    refine ⟨⟨congrArg (Key.mk · 0) hname, fun k hk => ?_, fun k hk => ?_⟩, ?_⟩
    · rw [List.mem_singleton.1 hk, hleft]
      exact hkey
    · rw [List.mem_singleton.1 hk, hright]
      exact hkey'
    · refine ⟨h.unhashed_renamed (KeyTable.renamed_intern _ _ _ _)
        (KeyTable.renamed_intern _ _ _ _) hnames, hleft ▸ hstore, hright ▸ hstore', fun m => ?_⟩
      rw [(h.left.gives name).mem_live, (h.right.gives name).mem_live, hname]
      exact or_congr_right (h.live m)
  have hold {hash : String → UInt32} {u : Store} {c : KeyTable} (hu : u.Keyed hash g.naming c)
      {m : SharedName} (hm : m ∈ c.names) : m.id ≠ u.names.next :=
    hu.bound ▸ Nat.ne_of_lt (hu.table m hm).lt
  rcases KeyTable.names_intern g.left name a s with ⟨hmem, hnames⟩ | ⟨hnew, hnames⟩
  · rcases KeyTable.names_intern g.right name b t with ⟨-, hnames'⟩ | ⟨hnew', -⟩
    · refine ⟨g, le_rfl, hdone le_rfl rfl rfl (h.left.table _ hmem) ?_ ?_⟩
      · rw [hnames]
        exact h.left.bound
      · rw [hnames, hnames', hname, h.names]
    · exact absurd (by rw [hname, hnew', h.names]) (hold h.left hmem)
  · rcases KeyTable.names_intern g.right name b t with ⟨hmem', -⟩ | ⟨-, hnames'⟩
    · exact absurd (by rw [← hname, hnew, h.names]) (hold h.right hmem')
    · refine ⟨g.add name, g.le_add name, hdone (g.le_add name) rfl rfl ?_ ?_ ?_⟩
      · rw [hnew, ← h.left.bound]
        exact g.naming.knows_add name
      · rw [hnames]
        exact congrArg (· + 1) h.left.bound
      · rw [hnames, hnames', h.names]

theorem liveCount_eq : a.liveCount s = b.liveCount t := by
  rw [KeyTable.liveCount_eq, KeyTable.liveCount_eq, List.countP_eq_length_filter,
    List.countP_eq_length_filter]
  refine List.Perm.length_eq ?_
  exact (List.perm_ext_iff_of_nodup (.of_map _ h.left.tidy.texts)
    (.of_map _ h.right.tidy.texts)).2 h.live

end Matches

end Store

namespace World.Matches

variable {g g' : Hashings} {w v : World} (h : w.Matches g v)

include h

theorem config : w.cache.config = v.cache.config := by
  have hconfig : w.cache.unhashed.config = v.cache.unhashed.config :=
    congrArg Cache.config h.cache
  exact hconfig

theorem classifier : w.cache.classifier = v.cache.classifier := by
  have hclassifier : w.cache.unhashed.classifier = v.cache.unhashed.classifier :=
    congrArg Cache.classifier h.cache
  exact hclassifier

theorem unhashed : w.unhashed = v.unhashed := by
  rw [World.unhashed, World.unhashed, h.store.unhashed, h.cache, h.registry, h.session.unhashed]

/-- The stores and the key tables may be others. -/
theorem filed {a b : KeyTable} {s t : Store} (hg : g ≤ g') (hst : s.Matches g' a b t) :
    World.Matches g' { w with cache := { w.cache with keys := a }, store := s }
      { v with cache := { v.cache with keys := b }, store := t } where
  store := hst
  cache := h.cache
  left := h.left.trans hg.1
  right := h.right.trans hg.2.1
  registry := h.registry
  session := h.session.mono hg

theorem withStore {s t : Store} (hst : s.Matches g w.cache.keys v.cache.keys t) :
    World.Matches g { w with store := s } { v with store := t } :=
  h.filed le_rfl hst

theorem sweepKeys : w.sweepKeys.Matches g v.sweepKeys :=
  h.filed le_rfl h.store.sweep

theorem interned (name : String) :
    let done := w.cache.keys.intern w.cache.nameHash name w.store
    let done' := v.cache.keys.intern v.cache.nameHash name v.store
    ∃ g', g ≤ g' ∧ Key.Matches g' done.1 done'.1 ∧
      World.Matches g' { w with cache := { w.cache with keys := done.2.1 }, store := done.2.2 }
        { v with cache := { v.cache with keys := done'.2.1 }, store := done'.2.2 } := by
  obtain ⟨g', hg, hk, hst⟩ := h.store.intern name
  rw [← h.left, ← h.right] at hk hst
  exact ⟨g', hg, hk, h.filed hg hst⟩

theorem newName (name : String) : ∃ g', g ≤ g' ∧
    Key.Matches g' ⟨(w.store.newName name).1, w.cache.nameHash name⟩
      ⟨(v.store.newName name).1, v.cache.nameHash name⟩ ∧
      World.Matches g' { w with store := (w.store.newName name).2 }
        { v with store := (v.store.newName name).2 } := by
  obtain ⟨g', hg, hk, hst⟩ := h.store.newName name
  rw [← h.left, ← h.right] at hk
  exact ⟨g', hg, hk, h.filed hg hst⟩

/-- The key of a slot or of an init-arg, from the table or of its own. -/
theorem key (name : String) : ∃ g', g ≤ g' ∧ Key.Matches g' (w.key name).1 (v.key name).1 ∧
    (w.key name).2.Matches g' (v.key name).2 := by
  rw [World.key, World.key, h.config]
  split
  · exact h.interned name
  · exact h.newName name

end World.Matches

end MetaCache
