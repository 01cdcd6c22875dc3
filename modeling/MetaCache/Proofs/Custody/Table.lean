import Mathlib.Data.List.Nodup
import MetaCache.Proofs.Storage.Keys
/-!
# The key table by its live names

Each bucket of the key table has the names of one hash, dead ones among them, and there is one
bucket for a hash. So a name that is asked for is looked for where it would be, whatever hashes
collide, and as dead entries are passed over, a name has one live entry at most.

* `KeyTable.live`: the names in the table that somebody holds.
* `KeyTable.Tidy`: the invariant.
* `KeyTable.Gives`, `KeyTable.gives_intern`: what asking for a name gives.
-/

namespace MetaCache.KeyTable

variable {hash : String → UInt32} {t : KeyTable} {s s' : Store} {name : String}

/-- The names in the table that somebody holds. -/
def live (t : KeyTable) (s : Store) : List SharedName := t.names.filter s.nameAlive

theorem mem_live {n : SharedName} : n ∈ t.live s ↔ n ∈ t.names ∧ s.nameAlive n :=
  List.mem_filter

/-- There is one bucket for a hash, it has names of that hash alone, and no two live names have the
same text. -/
structure Tidy (hash : String → UInt32) (t : KeyTable) (s : Store) : Prop where
  hashes : (t.buckets.map Prod.fst).Nodup
  filed : ∀ b ∈ t.buckets, ∀ n ∈ b.2, hash n.text = b.1
  texts : ((t.live s).map SharedName.text).Nodup

namespace Tidy

theorem empty (hash : String → UInt32) (s : Store) : Tidy hash {} s :=
  ⟨List.nodup_nil, fun _ hb => (List.not_mem_nil hb).elim, List.nodup_nil⟩

/-- Live names with the same text are the same. -/
theorem eq_of_text (h : t.Tidy hash s) {n m : SharedName} (hn : n ∈ t.live s) (hm : m ∈ t.live s)
    (ht : n.text = m.text) : n = m :=
  List.inj_on_of_nodup_map h.texts hn hm ht

/-- A live name is in the bucket of its hash. -/
theorem mem_bucket (h : t.Tidy hash s) {n : SharedName} (hn : n ∈ t.names) :
    ∃ b, t.bucket? (hash n.text) = some b ∧ n ∈ b := by
  obtain ⟨⟨g, b⟩, hb, hnb⟩ := mem_names.1 hn
  have hg : hash n.text = g := h.filed _ hb n hnb
  rw [hg]
  exact ⟨b, lookup_of_mem h.hashes hb, hnb⟩

/-- Names may die. -/
theorem of_alive (h : t.Tidy hash s)
    (halive : ∀ n ∈ t.names, s'.nameAlive n → s.nameAlive n) : t.Tidy hash s' where
  hashes := h.hashes
  filed := h.filed
  texts := by
    refine h.texts.sublist (List.Sublist.map _ ?_)
    have hfilter : t.live s' = (t.live s).filter s'.nameAlive := by
      rw [live, live, List.filter_filter]
      refine List.filter_congr fun n hn => ?_
      rw [Bool.eq_iff_iff, Bool.and_eq_true_iff]
      exact ⟨fun hl => ⟨hl, halive n hn hl⟩, And.left⟩
    rw [hfilter]
    exact List.filter_sublist

end Tidy

theorem live_sweep (t : KeyTable) (s : Store) : (t.sweep s).1.live (t.sweep s).2 = t.live s := by
  show (t.sweep s).1.names.filter s.nameAlive = t.live s
  rw [names_sweep, live, List.filter_filter]
  simp only [Bool.and_self]

/-- A sweep leaves one bucket for a hash. -/
theorem nodup_hashes_liveBuckets (h : (t.buckets.map Prod.fst).Nodup) (s : Store) :
    ((t.liveBuckets s).map Prod.fst).Nodup := by
  refine h.sublist ?_
  have hmap : (t.buckets.map fun b => (b.1, b.2.filter s.nameAlive)).map Prod.fst =
      t.buckets.map Prod.fst := by
    rw [List.map_map]
    rfl
  rw [← hmap]
  exact List.filter_sublist.map _

/-- A sweep leaves names where they are. -/
theorem filed_liveBuckets (h : ∀ b ∈ t.buckets, ∀ n ∈ b.2, hash n.text = b.1) (s : Store) :
    ∀ b ∈ t.liveBuckets s, ∀ n ∈ b.2, hash n.text = b.1 := by
  intro b hb n hn
  obtain ⟨b', hb', rfl⟩ := List.mem_map.1 (List.mem_filter.1 hb).1
  exact h b' hb' n (List.mem_filter.1 hn).1

/-- A sweep takes dead names and empty buckets away. -/
theorem Tidy.sweep (h : t.Tidy hash s) : (t.sweep s).1.Tidy hash (t.sweep s).2 where
  hashes := nodup_hashes_liveBuckets h.hashes s
  filed := filed_liveBuckets h.filed s
  texts := by
    rw [live_sweep]
    exact h.texts

theorem live_sweepIfDue (t : KeyTable) (s : Store) :
    (t.sweepIfDue s).1.live (t.sweepIfDue s).2 = t.live s := by
  unfold sweepIfDue
  split
  · exact t.live_sweep s
  · rfl

/-! ## Buckets that are replaced -/

theorem map_fst_replaceBucket (h : UInt32) (names : List SharedName)
    (bs : List (UInt32 × List SharedName)) :
    (replaceBucket h names bs).map Prod.fst = bs.map Prod.fst := by
  induction bs with
  | nil => rfl
  | cons b rest ih =>
    rw [replaceBucket]
    split
    · rfl
    · rw [List.map_cons, ih, List.map_cons]

/-- A bucket replaced by names of its hash. -/
theorem filed_replaceBucket {bs : List (UInt32 × List SharedName)}
    (h : ∀ b ∈ bs, ∀ n ∈ b.2, hash n.text = b.1) {g : UInt32} {names : List SharedName}
    (hnames : ∀ n ∈ names, hash n.text = g) :
    ∀ b ∈ replaceBucket g names bs, ∀ n ∈ b.2, hash n.text = b.1 := by
  intro b hb n hn
  rcases mem_replaceBucket hb with rfl | hold
  · exact hnames n hn
  · exact h b hold n hn

/-- A bucket replaced by one that has more names of a kind. -/
theorem perm_names_replaceBucket (more : List SharedName) {h : UInt32}
    {bucket bucket' : List SharedName} {P : SharedName → Bool}
    {bs : List (UInt32 × List SharedName)}
    (hb : bs.lookup h = some bucket) (hP : (bucket'.filter P).Perm (more ++ bucket.filter P)) :
    (((replaceBucket h bucket' bs).flatMap Prod.snd).filter P).Perm
      (more ++ (bs.flatMap Prod.snd).filter P) := by
  induction bs with
  | nil => cases hb
  | cons x rest ih =>
    obtain ⟨g, b⟩ := x
    rw [replaceBucket]
    rw [List.lookup_cons] at hb
    split
    · rename_i hg
      subst hg
      rw [BEq.rfl] at hb
      cases hb
      rw [List.flatMap_cons, List.flatMap_cons, List.filter_append, List.filter_append,
        ← List.append_assoc]
      exact hP.append_right _
    · rename_i hg
      have hne : (h == g) = false := beq_false_of_ne fun hc => hg hc.symm
      rw [hne] at hb
      rw [List.flatMap_cons, List.flatMap_cons, List.filter_append, List.filter_append]
      exact ((ih hb).append_left _).trans (List.perm_append_comm_assoc ..)

/-! ## Asking for a name -/

/-- What asking for a name gives: the live name of that text, or a new one if there is none. -/
structure Gives (hash : String → UInt32) (name : String) (t : KeyTable) (s : Store)
    (done : Key × KeyTable × Store) : Prop where
  text : done.1.text = name
  hashed : done.1.hash = hash name
  tidy : done.2.1.Tidy hash done.2.2
  shared : (∃ n ∈ t.live s, n.text = name) →
    done.1.name ∈ t.live s ∧ (done.2.1.live done.2.2).Perm (t.live s)
  fresh : (∀ n ∈ t.live s, n.text ≠ name) → done.1.name.id = s.names.next ∧
    (done.2.1.live done.2.2).Perm (done.1.name :: t.live s)

theorem Gives.congr {t₁ : KeyTable} {s₁ : Store} {done : Key × KeyTable × Store}
    (h : Gives hash name t₁ s₁ done) (hl : t₁.live s₁ = t.live s)
    (hn : s₁.names.next = s.names.next) : Gives hash name t s done where
  text := h.text
  hashed := h.hashed
  tidy := h.tidy
  shared := hl ▸ h.shared
  fresh := hn ▸ hl ▸ h.fresh

/-- The live names afterwards are those before and the name of the key. -/
theorem Gives.mem_live {done : Key × KeyTable × Store} (h : Gives hash name t s done)
    {n : SharedName} : n ∈ done.2.1.live done.2.2 ↔ n = done.1.name ∨ n ∈ t.live s := by
  by_cases hex : ∃ m ∈ t.live s, m.text = name
  · obtain ⟨hkey, hperm⟩ := h.shared hex
    rw [hperm.mem_iff]
    exact ⟨.inr, fun hn => hn.elim (fun heq => heq ▸ hkey) id⟩
  · have hno : ∀ m ∈ t.live s, m.text ≠ name := fun m hm hname => hex ⟨m, hm, hname⟩
    rw [(h.fresh hno).2.mem_iff, List.mem_cons]

/-- The live name of that text. -/
theorem gives_shared {n : SharedName} {t' : KeyTable} (hn : n ∈ t.live s) (hname : n.text = name)
    (ht : t'.Tidy hash s') (hperm : (t'.live s').Perm (t.live s)) :
    Gives hash name t s (⟨n, hash name⟩, t', s') where
  text := hname
  hashed := rfl
  tidy := ht
  shared _ := ⟨hn, hperm⟩
  fresh h := absurd hname (h n hn)

/-- A new name, where there is no live one of that text. -/
theorem gives_fresh {t' : KeyTable} (ht : t.Tidy hash s) (hno : ∀ n ∈ t.live s, n.text ≠ name)
    (hhashes : (t'.buckets.map Prod.fst).Nodup)
    (hfiled : ∀ b ∈ t'.buckets, ∀ n ∈ b.2, hash n.text = b.1)
    (hperm : (t'.live s').Perm (⟨s.names.next, name⟩ :: t.live s)) :
    Gives hash name t s (⟨⟨s.names.next, name⟩, hash name⟩, t', s') where
  text := rfl
  hashed := rfl
  tidy := by
    refine ⟨hhashes, hfiled, ((hperm.map SharedName.text).nodup_iff).2 ?_⟩
    rw [List.map_cons, List.nodup_cons]
    refine ⟨fun hmem => ?_, ht.texts⟩
    obtain ⟨n, hn, hname⟩ := List.mem_map.1 hmem
    exact hno n hn hname
  shared := fun ⟨n, hn, hname⟩ => absurd hname (hno n hn)
  fresh _ := ⟨rfl, hperm⟩

/-- The live names of a bucket have its hash. -/
theorem Tidy.hash_of_mem_filter (ht : t.Tidy hash s) {g : UInt32} {bucket : List SharedName}
    (hb : t.bucket? g = some bucket) : ∀ n ∈ bucket.filter s.nameAlive, hash n.text = g :=
  fun n hn => ht.filed _ (mem_of_lookup hb) n (List.mem_filter.1 hn).1

/-- There is one bucket for a hash still where one of them is replaced. -/
theorem Tidy.nodup_hashes_replaceBucket (ht : t.Tidy hash s) (g : UInt32)
    (names : List SharedName) : ((replaceBucket g names t.buckets).map Prod.fst).Nodup := by
  rw [map_fst_replaceBucket]
  exact ht.hashes

/-- A live name that its bucket has. The dead names of the bucket are taken away. -/
theorem gives_held (ht : t.Tidy hash s) {bucket : List SharedName}
    (hb : t.bucket? (hash name) = some bucket) {n : SharedName}
    (hn : n ∈ bucket.filter s.nameAlive) (hname : n.text = name) (tracked : Nat) :
    Gives hash name t s (⟨n, hash name⟩, { t with
      buckets := replaceBucket (hash name) (bucket.filter s.nameAlive) t.buckets, tracked },
      s.retain [.name n.id]) := by
  obtain ⟨hinside, halive⟩ := List.mem_filter.1 hn
  have hretain : (s.retain [.name n.id]).nameAlive = s.nameAlive :=
    funext fun m => s.has_retain [.name n.id] (.name m.id)
  have hsame : ((replaceBucket (hash name) (bucket.filter s.nameAlive) t.buckets).flatMap
      Prod.snd).filter s.nameAlive = t.live s :=
    filter_names_replaceBucket hb (by rw [List.filter_filter]; simp only [Bool.and_self])
  have hkept : live { t with
      buckets := replaceBucket (hash name) (bucket.filter s.nameAlive) t.buckets, tracked }
      (s.retain [.name n.id]) = t.live s := by
    rw [live, hretain]
    exact hsame
  refine gives_shared (mem_live.2 ⟨mem_names_of_bucket? hb hinside, halive⟩) hname
    ⟨ht.nodup_hashes_replaceBucket _ _,
      filed_replaceBucket ht.filed (ht.hash_of_mem_filter hb), ?_⟩ (.of_eq hkept)
  rw [hkept]
  exact ht.texts

theorem nameAlive_newName_of_lt {n : SharedName} (h : n.id < s.names.next) (text : String) :
    (s.newName text).2.nameAlive n = s.nameAlive n :=
  Store.has_newName_of_ne (x := .name n.id) text fun hn =>
    Nat.ne_of_lt h (Share.name.inj hn)

theorem nameAlive_newName_self (s : Store) (text : String) :
    (s.newName text).2.nameAlive (s.newName text).1 :=
  congrArg Option.isSome (Table.find?_insert_self s.names 1)

section

variable (hknown : ∀ n ∈ t.names, n.id < s.names.next) (ht : t.Tidy hash s)

include hknown

/-- The names that a new name leaves alive are those that were. -/
theorem filter_newName {ns : List SharedName} (hns : ∀ n ∈ ns, n ∈ t.names) (text : String) :
    ns.filter (s.newName text).2.nameAlive = ns.filter s.nameAlive :=
  List.filter_congr fun n hn => nameAlive_newName_of_lt (hknown n (hns n hn)) text

include ht

/-- A name that its bucket does not have. The name is added, and the dead ones are taken away. -/
theorem gives_added {bucket : List SharedName} (hb : t.bucket? (hash name) = some bucket)
    (hf : ∀ n ∈ bucket.filter s.nameAlive, n.text ≠ name) (tracked : Nat)
    (hs : s'.nameAlive = (s.newName name).2.nameAlive) :
    Gives hash name t s (⟨(s.newName name).1, hash name⟩, { t with
      buckets := replaceBucket (hash name) (bucket.filter s.nameAlive ++ [(s.newName name).1])
        t.buckets
      tracked }, s') := by
  have hinside : ∀ n ∈ bucket, n ∈ t.names := fun n hn => mem_names_of_bucket? hb hn
  have hno : ∀ n ∈ t.live s, n.text ≠ name := by
    intro n hn hname
    obtain ⟨hnames, halive⟩ := mem_live.1 hn
    obtain ⟨b, hb', hnb⟩ := ht.mem_bucket hnames
    rw [hname, hb] at hb'
    cases hb'
    exact hf n (List.mem_filter.2 ⟨hnb, halive⟩) hname
  refine gives_fresh ht hno (ht.nodup_hashes_replaceBucket _ _)
    (filed_replaceBucket ht.filed fun n hn => ?_) ?_
  · rcases List.mem_append.1 hn with hn | hn
    · exact ht.hash_of_mem_filter hb n hn
    · rw [List.mem_singleton.1 hn]
      rfl
  · rw [live, hs]
    refine (perm_names_replaceBucket [⟨s.names.next, name⟩] hb ?_).trans ?_
    · -- the live names of the bucket stay where they are
      have hself := nameAlive_newName_self s name
      rw [List.filter_append,
        filter_newName hknown (fun n hn => hinside n (List.mem_filter.1 hn).1),
        filter_newName hknown hinside, List.filter_filter]
      simp only [Bool.and_self, List.filter_cons, hself, if_true, List.filter_nil]
      exact List.perm_append_comm
    · show ([_] ++ t.names.filter _).Perm _
      rw [filter_newName hknown fun _ hn => hn]
      exact .refl _

theorem gives_internInBucket {bucket : List SharedName}
    (hb : t.bucket? (hash name) = some bucket) :
    Gives hash name t s (t.internInBucket (hash name) name bucket s) := by
  rw [internInBucket]
  dsimp only
  split
  · rename_i n hf
    exact gives_held ht hb (List.mem_of_find?_eq_some hf) (by simpa using List.find?_some hf) _
  · rename_i hf
    have hnone : ∀ n ∈ bucket.filter s.nameAlive, n.text ≠ name := fun n hn hname =>
      List.find?_eq_none.1 hf n hn (by simpa using hname)
    have halive (b : Bool) (note : Note) : (if b then (s.newName name).2
        else (s.newName name).2.note note).nameAlive = (s.newName name).2.nameAlive := by
      cases b <;> rfl
    exact gives_added hknown ht hb hnone _ (halive _ _)

theorem gives_newBucket (hb : t.bucket? (hash name) = none) (tracked : Nat) :
    Gives hash name t s (⟨(s.newName name).1, hash name⟩,
      { t with buckets := (hash name, [(s.newName name).1]) :: t.buckets, tracked },
      (s.newName name).2) := by
  refine gives_fresh ht (fun n hn hname => ?_) ?_ (fun b hbmem n hn => ?_) ?_
  · obtain ⟨b, hb', -⟩ := ht.mem_bucket (mem_live.1 hn).1
    rw [hname, hb] at hb'
    cases hb'
  · rw [List.map_cons, List.nodup_cons]
    refine ⟨fun hmem => ?_, ht.hashes⟩
    obtain ⟨b, hbmem, hfst⟩ := List.mem_map.1 hmem
    have hne := List.lookup_eq_none_iff.1 hb b hbmem
    simp [hfst] at hne
  · rcases List.mem_cons.1 hbmem with rfl | hbmem
    · rw [List.mem_singleton.1 hn]
      rfl
    · exact ht.filed b hbmem n hn
  · show (((s.newName name).1 :: t.names).filter (s.newName name).2.nameAlive).Perm _
    rw [List.filter_cons_of_pos (nameAlive_newName_self s name),
      filter_newName hknown fun _ hn => hn]
    exact .refl _

/-- Asking for a name gives its live entry if it has one, and a new entry otherwise, whether the
table is swept before or not. -/
theorem gives_intern (name : String) : Gives hash name t s (t.intern hash name s) := by
  have hn := t.names_next_sweepIfDue s
  have hl := t.live_sweepIfDue s
  have hknown' : ∀ n ∈ (t.sweepIfDue s).1.names, n.id < (t.sweepIfDue s).2.names.next :=
    fun n hmem => hn ▸ hknown n (mem_names_sweepIfDue hmem)
  have ht' : (t.sweepIfDue s).1.Tidy hash (t.sweepIfDue s).2 := by
    unfold sweepIfDue
    split
    · exact ht.sweep
    · exact ht
  simp only [intern]
  split
  · rename_i bucket hb
    exact (gives_internInBucket hknown' ht' hb).congr hl hn
  · rename_i hb
    exact (gives_newBucket (s := (t.sweepIfDue s).2.note _) hknown' ⟨ht'.hashes, ht'.filed,
      ht'.texts⟩ hb _).congr hl hn

end

end MetaCache.KeyTable
