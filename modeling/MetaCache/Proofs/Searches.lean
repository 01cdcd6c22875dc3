import MetaCache.Proofs.Dialogue.Keys
import MetaCache.Proofs.Dialogue.Relations
import MetaCache.Proofs.History.Answers
import MetaCache.Proofs.Introspection.Compile
/-!
# Searches in shadows

A search compares hashes before it compares names. So it finds what it should only because each key
that a descriptor has carries the hash of its own name: a key is made for a compilation that asked
for it by name, in the key table or not, and no other key comes into a descriptor.

* `Key.Hashed`: a key with the hash of its name; `World.hashed_key`.
* `Dialogue.Keeps.hashed`: the keys of what is compiled; `Shadow.Built.hashed`.
* `Shadow.Built`: shadows, by what they can be built from.
* `Shadow.First`, `Shadow.search_first`: what a search finds, whatever names are repeated and
  whatever hashes collide.
-/

namespace MetaCache

variable {hash : String → UInt32} {host : Host}

/-- The key carries the hash of its name. -/
def Key.Hashed (hash : String → UInt32) (k : Key) : Prop := k.hash = hash k.text

/-- A key that is asked for carries the hash of its name, from the table or not. -/
theorem World.hashed_key (w : World) (name : String) : (w.key name).1.Hashed w.cache.nameHash := by
  have hbare := w.bare_key name
  have htext : (w.key name).1.text = name := congrArg Key.text hbare
  have hhash : (w.key name).1.hash = w.cache.nameHash name := congrArg Key.hash hbare
  rw [Key.Hashed, hhash, htext]

/-- Host code leaves the hash function alone, which is one for the whole program. -/
def Host.KeepsHash (host : Host) : Prop :=
  ∀ {q : Query}, host.Answers q → q.after.cache.nameHash = q.before.cache.nameHash

/-! ## What is compiled -/

theorem Work.nameHash_apply {β : Type} (x : Work β) (w : World) :
    (x.apply host w).2.cache.nameHash = w.cache.nameHash := by
  cases x with
  | key name => exact congrArg (·.2.2) (World.Upkeep.key w name).settings
  | _ => rfl

/-- Work gives keys with the hash of their name. -/
theorem Work.hashed_keys {β : Type} (x : Work β) (w : World) :
    ∀ k ∈ x.keys (x.apply host w).1, k.Hashed w.cache.nameHash := by
  intro k hk
  cases x with
  | key name =>
    rw [List.mem_singleton.1 hk]
    exact w.hashed_key name
  | _ => exact (List.not_mem_nil hk).elim

/-- A dialogue that ends well has given its outcome keys with the hash of their name. -/
theorem Dialogue.Keeps.hashed {α : Type} {d : Dialogue α} {ks : List Key} {got : α → List Key}
    {w w' : World} {a : α} (hh : host.KeepsHash) (hd : d.Keeps ks got)
    (hks : ∀ k ∈ ks, k.Hashed hash) (hw : w.cache.nameHash = hash)
    (hrun : d.run host w = .ok (.ok a, w')) : ∀ k ∈ got a, k.Hashed hash := by
  induction d generalizing ks w with
  | ends r =>
    cases hrun
    rw [← show ks = got a from hd]
    exact hks
  | does x next ih =>
    refine ih _ (hd _) (fun k hk => ?_) ((x.nameHash_apply w).trans hw) hrun
    rcases List.mem_append.1 hk with hk | hk
    · exact hks k hk
    · exact hw ▸ x.hashed_keys w k hk
  | asks v m next ih =>
    rw [run_asks] at hrun
    cases hc : host.callMethod v m.name w with
    | error e =>
      rw [hc] at hrun
      cases hrun
    | ok p =>
      rw [hc] at hrun
      exact ih p.1 (hd p.1) hks ((hh (q := ⟨v, m, w, p.1, p.2⟩) hc).trans hw) hrun

/-- Compiling leaves the hash function alone. -/
theorem Descriptor.nameHash_of_compile (hh : host.KeepsHash) {attr : Value} {w w' : World}
    {r : Except Error Descriptor} (hrun : compile host attr w = .ok (r, w')) :
    w'.cache.nameHash = w.cache.nameHash := by
  let L : Ledger host := .ofRelation (R := fun w w' => w'.cache.nameHash = w.cache.nameHash)
    (fun _ => rfl) (fun h h' => h'.trans h) (fun x w => x.nameHash_apply w) hh
  rw [← Dialogue.run_descriptor] at hrun
  exact ((Dialogue.balanced_descriptor attr).meets (L := L) w).done r w' hrun

/-- What an attribute metaobject is compiled into. -/
theorem Descriptor.hashed_of_compile (hh : host.KeepsHash) {attr : Value} {w w' : World}
    {d : Descriptor} (hw : w.cache.nameHash = hash)
    (hrun : compile host attr w = .ok (.ok d, w')) : ∀ k ∈ d.keys, k.Hashed hash := by
  rw [← Dialogue.run_descriptor] at hrun
  exact (Dialogue.keeps_descriptor [] attr).hashed hh (fun _ hk => (List.not_mem_nil hk).elim)
    hw hrun

namespace Shadow

/-- What an instance metaobject is compiled into. -/
theorem hashed_of_compile (hh : host.KeepsHash) {inst : Value} {w w' : World} {s : Shadow}
    (hw : w.cache.nameHash = hash) (hrun : compile host inst w = .ok (.ok s, w')) :
    ∀ k ∈ s.keys, k.Hashed hash := by
  rw [← Dialogue.run_shadow] at hrun
  exact (Dialogue.keeps_shadow host inst).hashed hh (fun _ hk => (List.not_mem_nil hk).elim)
    hw hrun

/-! ## Shadows -/

/-- Shadows built where names are hashed by `hash`: new ones, compiled ones, and those with one more
descriptor, each of them compiled on any host and in any world. -/
inductive Built (hash : String → UInt32) : Shadow → Prop where
  | new (cls : CellId) (className : String) (layout : Layout) (generation : Nat) :
    Built hash { cls, className, layout, generation }
  | compiled {host : Host} {inst : Value} {w w' : World} {s : Shadow} :
    host.KeepsHash → w.cache.nameHash = hash → compile host inst w = .ok (.ok s, w') →
    Built hash s
  | append {host : Host} {attr : Value} {w w' : World} {s : Shadow} {d : Descriptor} :
    Built hash s → host.KeepsHash → w.cache.nameHash = hash →
    Descriptor.compile host attr w = .ok (.ok d, w') → Built hash (s.append d)

theorem Built.hashed {s : Shadow} (hs : s.Built hash) : ∀ k ∈ s.keys, k.Hashed hash := by
  induction hs with
  | new => exact fun _ hk => (List.not_mem_nil hk).elim
  | compiled hh hw hrun => exact hashed_of_compile hh hw hrun
  | append _ hh hw hrun ih =>
    intro k hk
    rw [keys_append] at hk
    rcases List.mem_append.1 hk with hk | hk
    · exact ih k hk
    · exact Descriptor.hashed_of_compile hh hw hrun k hk

/-! ## Searches -/

/-- A key with the hash of its name is that of a name exactly if it has this name. -/
theorem keyMatches_iff {k : Key} (hk : k.Hashed hash) (name : String) :
    keyMatches (hash name) name k = true ↔ k.text = name := by
  rw [keyMatches, hk, Bool.and_eq_true, beq_iff_eq, beq_iff_eq]
  exact and_iff_right_of_imp (congrArg hash)

/-- The descriptor `d` has a property, and none of those before it has. -/
def Leads (p : Descriptor → Prop) (before : List Descriptor) (d : Descriptor) : Prop :=
  p d ∧ ∀ e ∈ before, ¬ p e

/-- What was found, at some position, is the first of the descriptors that have a property; nothing
was found exactly if none has it. -/
structure First (p : Descriptor → Prop) (ds : List Descriptor) (index : Option Nat)
    (found : Option Descriptor) : Prop where
  missing : found = none ↔ ∀ d ∈ ds, ¬ p d
  first : ∀ d, found = some d ↔ ∃ before after, ds = before ++ d :: after ∧ Leads p before d
  position : ∀ i, index = some i ↔
    ∃ before d after, ds = before ++ d :: after ∧ before.length = i ∧ Leads p before d

/-- A search by a test of the property. -/
theorem first_find? {p : Descriptor → Prop} {test : Descriptor → Bool} {ds : List Descriptor}
    (htest : ∀ d ∈ ds, test d = true ↔ p d) : First p ds (ds.findIdx? test) (ds.find? test) where
  missing := by
    rw [List.find?_eq_none]
    exact forall₂_congr fun d hd => not_congr (htest d hd)
  first d := by
    rw [List.find?_eq_some_iff_append]
    constructor
    · rintro ⟨hd, before, after, rfl, hbefore⟩
      refine ⟨before, after, rfl, (htest d (by simp)).1 hd, fun e he hp => ?_⟩
      have hno := hbefore e he
      rw [(htest e (List.mem_append_left _ he)).2 hp] at hno
      cases hno
    · rintro ⟨before, after, rfl, hd, hbefore⟩
      refine ⟨(htest d (by simp)).2 hd, before, after, rfl, fun e he => ?_⟩
      rw [Bool.not_eq_true', Bool.eq_false_iff]
      exact fun ht => hbefore e he ((htest e (List.mem_append_left _ he)).1 ht)
  position i := by
    rw [List.findIdx?_eq_some_iff_getElem]
    constructor
    · rintro ⟨hi, hd, hbefore⟩
      refine ⟨ds.take i, ds[i], ds.drop (i + 1), by simp, by simp; omega,
        (htest _ (List.getElem_mem hi)).1 hd, fun e he hp => ?_⟩
      obtain ⟨j, hj, rfl⟩ := List.getElem_of_mem he
      rw [List.length_take] at hj
      rw [List.getElem_take] at hp
      exact hbefore j (by omega) ((htest _ (List.getElem_mem _)).2 hp)
    · rintro ⟨before, d, after, rfl, rfl, hd, hbefore⟩
      refine ⟨by simp, by simpa using (htest d (by simp)).2 hd, fun j hj ht => ?_⟩
      rw [List.getElem_append_left hj] at ht
      have hmem : before[j] ∈ before := List.getElem_mem hj
      exact hbefore _ hmem ((htest _ (List.mem_append_left _ hmem)).1 ht)

/-- A search in a shadow finds the first descriptor of that slot, or of that init-arg, by name
alone: whatever names are repeated, whatever hashes collide, and whether or not the keys came from
the key table. -/
theorem search_first {s : Shadow} (hs : s.Built hash) (name : String) :
    First (fun d => d.slot.text = name) s.descriptors (s.index? hash name) (s.find? hash name) ∧
      First (fun d => d.initArg.map Key.text = some name) s.descriptors (s.initArgIndex? hash name)
        (s.findInitArg? hash name) := by
  have hkeys {d : Descriptor} (hd : d ∈ s.descriptors) {k : Key} (hk : k ∈ d.keys) :
      keyMatches (hash name) name k = true ↔ k.text = name :=
    keyMatches_iff (hs.hashed k (List.mem_flatMap.2 ⟨d, hd, hk⟩)) name
  constructor
  · exact first_find? fun d hd => hkeys hd List.mem_cons_self
  · refine first_find? fun d hd => ?_
    obtain ⟨slot, initArg, default, initializer, origin⟩ := d
    cases initArg with
    | none => simp
    | some k =>
      have hk := hkeys hd (List.mem_cons_of_mem _ (List.mem_singleton_self k))
      simpa using hk

end Shadow

/-! ## Namesakes -/

theorem keepsHash_plainHost : plainHost.KeepsHash := by
  intro q hq
  rw [(answers_plain hq).2]
  rfl

/-- A world in which all hashes are the same, with three attribute metaobjects: for a slot `x`, for
a slot `y` with the init-arg `x`, and for another slot `x` with an init-arg of that name. -/
def namesakeWorld : World :=
  (Script.Expr.evalAll [] [.attributeMeta "x" none none none none none [],
    .attributeMeta "y" none (some (.str "x")) none none none [],
    .attributeMeta "x" none (some (.str "x")) none none none []]
      { cache := { nameHash := fun _ => 0 } }).toOption.elim {} Prod.snd

/-- A shadow of the three attributes, with the keys that the key table gives. -/
def namesakeShadow : Shadow where
  cls := 3
  className := "Namesakes"
  layout := .hash
  generation := 0
  descriptors :=
    [{ slot := ⟨⟨0, "x"⟩, 0⟩, initArg := none, default := .none, initializer := none, origin := 0 },
      { slot := ⟨⟨1, "y"⟩, 0⟩, initArg := some ⟨⟨0, "x"⟩, 0⟩, default := .none
        initializer := none, origin := 1 },
      { slot := ⟨⟨0, "x"⟩, 0⟩, initArg := some ⟨⟨0, "x"⟩, 0⟩, default := .none
        initializer := none, origin := 2 }]

theorem Shadow.built_namesakeShadow : namesakeShadow.Built fun _ => 0 := by
  have h₀ : Descriptor.compile plainHost (.ref 0) namesakeWorld =
      .ok (.ok namesakeShadow.descriptors[0], _) := Build.eq_of_answer? (by decide +kernel)
  have h₁ : Descriptor.compile plainHost (.ref 1)
      ((Descriptor.compile plainHost (.ref 0)).leaves namesakeWorld) =
      .ok (.ok namesakeShadow.descriptors[1], _) := Build.eq_of_answer? (by decide +kernel)
  have h₂ : Descriptor.compile plainHost (.ref 2) ((Descriptor.compile plainHost (.ref 1)).leaves
      ((Descriptor.compile plainHost (.ref 0)).leaves namesakeWorld)) =
      .ok (.ok namesakeShadow.descriptors[2], _) := Build.eq_of_answer? (by decide +kernel)
  have hw₁ := Descriptor.nameHash_of_compile keepsHash_plainHost h₀
  have hw₂ := (Descriptor.nameHash_of_compile keepsHash_plainHost h₁).trans hw₁
  exact (((Built.new 3 "Namesakes" .hash 0).append keepsHash_plainHost rfl h₀).append
    keepsHash_plainHost hw₁ h₁).append keepsHash_plainHost hw₂ h₂

/-- The slot `x` is that of the first descriptor, and the init-arg `x` that of the second. -/
theorem Shadow.search_first_namesakeShadow : namesakeShadow.Built (fun _ => 0) ∧
    namesakeShadow.index? (fun _ => 0) "x" = some 0 ∧
    namesakeShadow.initArgIndex? (fun _ => 0) "x" = some 1 ∧
    First (fun d => d.slot.text = "x") namesakeShadow.descriptors
      (namesakeShadow.index? (fun _ => 0) "x") (namesakeShadow.find? (fun _ => 0) "x") ∧
    First (fun d => d.initArg.map Key.text = some "x") namesakeShadow.descriptors
      (namesakeShadow.initArgIndex? (fun _ => 0) "x")
      (namesakeShadow.findInitArg? (fun _ => 0) "x") :=
  ⟨built_namesakeShadow, by decide, by decide, search_first built_namesakeShadow "x"⟩

end MetaCache
