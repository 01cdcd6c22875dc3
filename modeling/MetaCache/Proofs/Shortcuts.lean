import MetaCache.Proofs.Shortcut.Errands
import MetaCache.Proofs.Shortcut.Hosts
/-!
# The shortcut for containers is not seen

Where the default of an attribute is code that does no more than make an empty container, a
classifier may tell so, and the descriptor keeps the kind of container in place of the code. If the
classifier is sound, nothing but the descriptor differs from a run in which no code is recognised:
whatever is compiled, asked for, stored and dropped, the errors and the values are the same, down to
the cells that are made, and so are the contents of all cells and the calls of the host.

* `World.Keeps`: what is kept alive.
* `Descriptor.Akin`, `Outcome.Akin`: what descriptors and errands in the two runs have in common.
* `ShortcutUnseen`, `RunsUnseen`: what the runs have in common.
* `shortcut_unseen`: this holds of all errands.
-/

namespace MetaCache

variable {κ : Classifier} {G : Generators} {host : Host} {w v : World} {es : List Errand}
  {f : Holding}

/-- The world with another classifier. -/
def World.classifying (κ : Classifier) (w : World) : World :=
  { w with cache := { w.cache with classifier := κ } }

/-- Whoever runs the errands keeps each generator, and what the errands name, alive. Both are held
in the registry, by a variable or elsewhere; what is held elsewhere is `f`. -/
structure World.Keeps (κ : Classifier) (es : List Errand) (f : Holding) (w : World) : Prop where
  covers : w.Covers f
  generators : ∀ c, (w.store.generators κ c).isSome → 0 < (holding w.roots + f) (.cell c)
  given : ∀ e ∈ es, ∀ c, Value.ref c ∈ e.given → 0 < (holding w.roots + f) (.cell c)

/-! ## What the runs have in common -/

/-- The referent without the number of calls that code has had. -/
def Referent.uncounted : Referent → Referent
  | .code a => .code { a with runs := 0 }
  | r => r

/-- The descriptors differ in the default at most, and so in whether they capture one: the first may
have a kind of container where the second has captured code that is recognised as making it. -/
structure Descriptor.Akin (G : Generators) (d e : Descriptor) : Prop where
  default : d.default = e.default ∨
    ∃ c k, d.default = .container k ∧ e.default = .value (.ref c) ∧ G c = some k
  others : { d with default := .none } = { e with default := .none }
  flags : { d.flags with capturesDefault := false } = { e.flags with capturesDefault := false }

/-- The same error, the same value, or descriptors that have everything but the default in
common. -/
inductive Outcome.Akin (G : Generators) : Except Error Yield → Except Error Yield → Prop
  | error (e : Error) : Akin G (.error e) (.error e)
  | value (a : Option Value) : Akin G (.ok (.value a)) (.ok (.value a))
  | descriptor {d e : Descriptor} (h : d.Akin G e) :
    Akin G (.ok (.descriptor d)) (.ok (.descriptor e))

/-- What came of the errands is the same but for defaults of descriptors. Each cell is the same, but
that a generator may have had other numbers of owners and of calls. The host has been called as
often, and has the same classes, methods and variables. -/
structure ShortcutUnseen (κ : Classifier) (ys zs : Yields) (w v : World) : Prop where
  outcomes : List.Forall₂ (Outcome.Akin (w.store.generators κ)) ys zs
  generators : w.store.generators κ = v.store.generators κ
  next : w.store.cells.next = v.store.cells.next
  contents : ∀ c, (w.store.referent? c).map Referent.uncounted =
    (v.store.referent? c).map Referent.uncounted
  cells : ∀ c, w.store.generators κ c = none → w.store.cells.find? c = v.store.cells.find? c
  registry : w.registry = v.registry
  session : w.session = v.session
  cache : { w.cache with classifier := .never } = v.cache

/-- Both runs stop for the same reason, or they end and have this in common. -/
inductive RunsUnseen (κ : Classifier) :
    Except Halt (Yields × World) → Except Halt (Yields × World) → Prop
  | halt (h : Halt) : RunsUnseen κ (.error h) (.error h)
  | done {ys zs : Yields} {w v : World} (h : ShortcutUnseen κ ys zs w v) :
    RunsUnseen κ (.ok (ys, w)) (.ok (zs, v))

theorem Descriptor.Parallel.akin {d e : Descriptor} (h : d.Parallel G e) : d.Akin G e where
  default := by
    have hdefault := h.default
    generalize d.default = dd, e.default = ee at hdefault ⊢
    cases hdefault with
    | same dd => exact .inl rfl
    | generator hc => exact .inr ⟨_, _, rfl, rfl, hc⟩
  others := by rw [h.slot, h.initArg, h.initializer, h.origin]
  flags := by rw [Descriptor.flags, Descriptor.flags, h.initArg, h.initializer]

theorem Yields.Parallel.akin {ys zs : Yields} (h : ys.Parallel G zs) :
    List.Forall₂ (Outcome.Akin G) ys zs :=
  h.imp fun _ _ hyz => by
    cases hyz with
    | error e => exact .error e
    | ok hyz =>
      cases hyz with
      | descriptor h => exact .descriptor h.akin
      | value a => exact .value a

theorem Store.Parallel.uncounted {s t : Store} (h : s.Parallel κ G t) (c : CellId) :
    (s.referent? c).map Referent.uncounted = (t.referent? c).map Referent.uncounted := by
  rw [referent?, referent?, cell?, cell?]
  rcases rel_cases (h.cells.find? c) with ⟨hs, ht⟩ | ⟨e, e', hs, ht, hee⟩
  · rw [hs, ht]
  · rw [hs, ht]
    cases hee with
    | same e => rfl
    | generator _ _ hname hroutine =>
      simp only [Option.map_some, Referent.uncounted, hname, hroutine]

/-! ## The two runs -/

/-- Worlds abreast have this in common. -/
theorem Errand.Finished.unseen {K : CellId → Prop} {x y : Except Halt (Yields × World)}
    (h : Errand.Finished κ K G x y) : RunsUnseen κ x y := by
  cases h with
  | halt h => exact .halt h
  | done _ hyz hend =>
    obtain ⟨_, hw⟩ := hend
    have hgen := hw.parallel.generators
    exact .done
      { outcomes := hgen ▸ hyz.akin
        generators := hgen.trans hw.parallel.generators_right.symm
        next := hw.parallel.cells.next
        contents := hw.parallel.uncounted
        cells := fun c hc => hw.parallel.cell_find?_eq (hgen ▸ hc)
        registry := hw.registry
        session := hw.session
        cache := hw.cache.symm }

/-- A world is abreast of itself, with the classifier and without. -/
theorem World.Keeps.abreast (h : w.Keeps κ es f) :
    World.Abreast κ (fun c => ∃ e ∈ es, Value.ref c ∈ e.given) (w.store.generators κ)
      (holding w.roots + f) 0 0 (w.classifying κ) (w.classifying .never) where
  classifier := rfl
  cache := rfl
  registry := rfl
  session := rfl
  roots := ⟨f, rfl⟩
  store := by
    refine ⟨?_, .refl κ w.store, h.covers, h.covers⟩
    rintro c (hgen | ⟨e, he, hc⟩)
    · exact h.generators c hgen
    · exact h.given e he c hc

/-- With a sound classifier errands come to the same as without one, on a host whose code does not
look at the classifier, or at the owners of generators. -/
theorem shortcut_unseen (hκ : κ.Sound host) (hh : host.Neutral κ) (hw : w.Keeps κ es f) :
    RunsUnseen κ (Errand.runAll host [] es (w.classifying κ))
      (Errand.runAll host [] es (w.classifying .never)) :=
  (Errand.finished_runAll hκ hh (fun e he _ hc => ⟨e, he, hc⟩) .nil hw.abreast).unseen

/-! ## Lists -/

namespace Script

/-- Host code that makes a container or else answers its arguments. -/
def making (kinds : Routine → Option ContainerKind) : Interpreter := fun r _ args =>
  match kinds r with
  | some k => do return [← Action.withStore k.produce]
  | none => do
    Action.retain (ownedByAll args)
    return args

theorem neutral_making (kinds : Routine → Option ContainerKind) :
    (making kinds).Neutral fun a => kinds a.routine where
  runs _ _ := rfl
  generator n args hk := by
    rw [making]
    simp only [hk]
  routine r n args hargs hw := by
    unfold making
    cases kinds r with
    | some k => exact hw.produced (fun a => [a]) (fun a => by rw [ownedByAll_singleton]) hw.store
    | none => exact .ok le_rfl rfl (hw.retain hargs)

/-- Lists are made by the routine of this name. -/
def listRoutines (r : Routine) : Option ContainerKind :=
  if r.name = some "list" then some .array else none

end Script

/-- A world with code that makes lists, an attribute with this default, and an instance without
slots. -/
def listWorld : World :=
  let list : Script.Routine := .mk (some "list") [] none none none [.array []]
  let has (q : AttributeQuery) (a : Value) (bs : Behaviors) := putNamed q.method (.reply [a]) bs
  let attr := has .hasDefault (.int 1) (has .default (.ref 0) (Script.bareAttribute "items"))
  World.onStore (fun s =>
    let s := (s.newCell (.code { name := some "list", routine := list })).2.retain [.cell 0]
    ((s.newCell (.object (.attributeMeta attr))).2.newCell (.hash [])).2) {}

/-- An attribute is compiled, and an instance gets its initial value, which is dropped then. -/
def listErrands : List Errand :=
  [.compile (.ref 1), .initialValue 0 (.given (.ref 2)), .store 0 (.given (.ref 2)) 1, .drop 1]

theorem keeps_listWorld (κ : Classifier) :
    listWorld.Keeps κ listErrands (holding [.cell 0, .cell 1, .cell 2]) := by
  have hheld : ∀ c < 3, 0 < (holding listWorld.roots + holding [.cell 0, .cell 1, .cell 2])
      (.cell c) := by decide +kernel
  constructor
  case covers =>
    have hcov : listWorld.store.Covers
        (holding (listWorld.roots ++ [.cell 0, .cell 1, .cell 2])) :=
      Store.covers_of_units (by decide +kernel)
    rwa [holding_append] at hcov
  case generators =>
    intro c hc
    obtain ⟨k, hk⟩ := Option.isSome_iff_exists.1 hc
    obtain ⟨a, ha, -⟩ := Store.generators_eq_some.1 hk
    obtain ⟨x, hx, -⟩ := Option.map_eq_some_iff.1 ha
    exact hheld c (Store.lt_next_of_alive (Store.alive_iff_cell?.2 ⟨x, hx⟩))
  case given =>
    have hgiven : ∀ e ∈ listErrands, ∀ a ∈ e.given, a = .ref 1 ∨ a = .ref 2 := by decide
    intro e he c hc
    rcases hgiven e he _ hc with h | h <;> cases h <;> exact hheld _ (by decide)

/-- The list is made at once in the one run, and by a call in the other. -/
theorem shortcut_unseen_listWorld :
    let κ : Classifier := fun a => Script.listRoutines a.routine
    let host := Script.scriptedHost (Script.making Script.listRoutines)
    let run (κ : Classifier) := Errand.runAll host [] listErrands (listWorld.classifying κ)
    (run κ).toOption.map (fun p => (p.1.descriptor? 0).map Descriptor.default) =
        some (some (.container .array)) ∧
      (run .never).toOption.map (fun p => (p.1.descriptor? 0).map Descriptor.default) =
        some (some (.value (.ref 0))) ∧
      RunsUnseen κ (run κ) (run .never) := by
  have h := Script.neutral_making Script.listRoutines
  exact ⟨by decide +kernel, by decide +kernel,
    shortcut_unseen h.sound h.neutral_scriptedHost (keeps_listWorld _)⟩

end MetaCache
