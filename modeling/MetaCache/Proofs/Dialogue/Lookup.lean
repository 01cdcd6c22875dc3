import MetaCache.Lookup
import MetaCache.Proofs.Dialogue.Protocol
import MetaCache.Proofs.Dialogue.Queries
/-!
# Lookups as dialogues

A lookup goes by the extension slot first. If it finds nothing there that answers it, it compiles,
and its compilation is a dialogue: so it can be said what the lookup asks of its host, one query
after another. These are all the calls of host code that it makes. A host that replies to them in
the same way leads it to the same end, and it cannot do without any of them.

* `Lookup`: a lookup, with what its caller passes; `Lookup.run_eq`.
* `Lookup.compilation`: what a lookup compiles, as a dialogue; `Lookup.build_eq`,
  `Lookup.run_of_miss`.
* `Lookup.queries`: what a lookup asks; `Lookup.run_eq_of_answers`, `Lookup.run_of_unanswered`.
-/

namespace MetaCache

/-- What a lookup makes of a slot does not depend on the methods of the host. -/
theorem World.cached?_congr {host host' : Host} (h : host'.Reads host) (wanted : Wanted)
    (target : CellId) :
    World.cached? host' wanted target = World.cached? host wanted target := by
  have hf : World.isFresh host' = World.isFresh host := by
    funext wanted r w
    rw [World.isFresh, World.isFresh, h.generation]
  funext w
  rw [World.cached?, World.cached?, hf]

theorem cachedOr_ref (host : Host) (wanted : Wanted) (c : CellId)
    (build : CellId → Build PayloadId) : cachedOr host wanted (.ref c) build = (do
      match ← modifyGet (World.cached? host wanted c) with
      | some p => return p
      | none => build c) := rfl

theorem cachedOr_apply (host : Host) (wanted : Wanted) (c : CellId)
    (build : CellId → Build PayloadId) (w : World) :
    cachedOr host wanted (.ref c) build w = match w.cached? host wanted c with
      | (some p, w') => .ok (.ok p, w')
      | (none, w') => build c w' := by
  have hslot : (modifyGet (World.cached? host wanted c) : Build (Option PayloadId)) w =
      .ok (.ok (w.cached? host wanted c).1, (w.cached? host wanted c).2) := rfl
  rw [cachedOr_ref, Build.bind_apply, hslot]
  generalize w.cached? host wanted c = a
  obtain ⟨o, w'⟩ := a
  cases o <;> rfl

/-- The generation of the class is read before anything is compiled. -/
theorem buildDescriptor_apply (host : Host) (attr : Value) (cls target : CellId) (w : World) :
    buildDescriptor host attr cls target w = (do
      let d ← Descriptor.compile host attr
      modifyGet (World.publish target (.descriptor d) (host.generation w cls) cls) :
        Build PayloadId) w := by
  rw [buildDescriptor, Build.bind_apply]
  rfl

/-- A lookup: of an instance metaobject, or of an attribute metaobject under a class. -/
inductive Lookup where
  | shadow (inst : Value)
  | descriptor (attr : Value) (cls : CellId)

/-- What a lookup has compiled, with the generation and the class under which it goes into the
slot. -/
structure Compiled where
  content : Payload
  generation : Nat
  governor : CellId

namespace Lookup

/-- The value looked up. -/
def object : Lookup → Value
  | shadow inst => inst
  | descriptor attr _ => attr

/-- What the lookup wants. -/
def wanted : Lookup → Wanted
  | shadow _ => .shadow
  | descriptor .. => .descriptor

/-- What the lookup does if there is nothing fresh in the slot of `target`. -/
def build (host : Host) : Lookup → CellId → Build PayloadId
  | shadow inst => buildShadow host inst
  | descriptor attr cls => buildDescriptor host attr cls

/-- What the lookup does. -/
def run (host : Host) (l : Lookup) : Build PayloadId :=
  cachedOr host l.wanted l.object (l.build host)

/-- What the caller passes, and holds until the lookup has ended. -/
def owned : Lookup → List Owned
  | shadow inst => inst.owned
  | descriptor attr cls => attr.owned ++ [.cell cls]

/-- The caller holds the object. -/
theorem object_pos {l : Lookup} {c : CellId} (hl : l.object = .ref c) :
    0 < holding l.owned (.cell c) := by
  cases l with
  | shadow inst =>
    cases hl
    exact holding_pos rfl List.mem_cons_self
  | descriptor attr cls =>
    cases hl
    exact holding_pos rfl List.mem_cons_self

/-- The caller holds the class that is named. -/
theorem class_pos (attr : Value) (cls : CellId) :
    0 < holding (descriptor attr cls).owned (.cell cls) :=
  holding_pos rfl (List.mem_append_right _ (List.mem_singleton.2 rfl))

theorem run_shadow (host : Host) (inst : Value) :
    (shadow inst).run host = shadowFor host inst := rfl

theorem run_descriptor (host : Host) (attr : Value) (cls : CellId) :
    (descriptor attr cls).run host = descriptorFor host attr cls := rfl

/-- A lookup goes by the slot first. -/
theorem run_eq {l : Lookup} {c : CellId} (hl : l.object = .ref c) (host : Host) (w : World) :
    l.run host w = match w.cached? host l.wanted c with
      | (some p, w') => .ok (.ok p, w')
      | (none, w') => l.build host c w' := by
  rw [run, hl]
  exact cachedOr_apply ..

/-- The lookup of anything but a strong reference is refused. -/
theorem run_of_no_ref {l : Lookup} (hl : ∀ c, l.object ≠ .ref c) (inner : Host) (w : World) :
    l.run inner w = .ok (.error (.mismatch (.notAttachable (w.store.valueText l.object))), w) := by
  rw [run]
  generalize l.object = v at hl
  cases v with
  | ref c => exact absurd rfl (hl c)
  | _ => rfl

/-! ## Compilations -/

variable (host : Host)

/-- What a lookup compiles when its slot has no answer. -/
def compilation : Lookup → Dialogue Compiled
  | shadow inst => do
    let s ← Dialogue.shadow host inst
    return ⟨.shadow s, s.generation, s.cls⟩
  | descriptor attr cls => do
    let w ← Dialogue.work (.read id)
    let d ← Dialogue.descriptor attr
    return ⟨.descriptor d, host.generation w cls, cls⟩

/-- A lookup whose slot has no answer compiles, and puts what it has compiled into the slot. -/
theorem build_eq (l : Lookup) (target : CellId) : l.build host target = (do
      let x ← (l.compilation host).run host
      modifyGet (World.publish target x.content x.generation x.governor)) := by
  cases l with
  | shadow inst =>
    rw [compilation, Dialogue.run_bind, Dialogue.run_shadow, bind_assoc]
    rfl
  | descriptor attr cls =>
    rw [compilation, Dialogue.run_bind, bind_assoc]
    refine bind_congr fun w => ?_
    rw [Dialogue.run_bind, Dialogue.run_descriptor, bind_assoc]
    rfl

theorem compilation_congr {host host' : Host} (h : host'.Reads host) (l : Lookup) :
    l.compilation host' = l.compilation host := by
  cases l with
  | shadow inst => simp only [compilation, Dialogue.shadow, Dialogue.resolve_congr h]
  | descriptor attr cls => simp only [compilation, h.generation]

/-- Compiling ends with the structure in hand. -/
theorem balanced_compilation (l : Lookup) :
    (l.compilation host).Balanced 0 fun x => holding [.held x.content] := by
  cases l with
  | shadow inst => exact (Dialogue.balanced_shadow host inst).bind fun s => rfl
  | descriptor attr cls =>
    exact (Dialogue.Balanced.read _ _).bind fun w =>
      (Dialogue.balanced_descriptor attr).bind fun d => (holding_held (.descriptor d)).symm

section

variable {host} {P : World → Prop} {w w' : World} {qs : List Query} {x : Compiled}

/-- What the lookup of an attribute metaobject has compiled goes by the class that was named. -/
theorem comesIn_descriptor {attr : Value} {cls : CellId}
    (h : ((descriptor attr cls).compilation host).ComesIn P host w qs (.ends (.ok x)) w') :
    ∃ d, x = ⟨.descriptor d, host.generation w cls, cls⟩ ∧
      (Dialogue.descriptor attr).ComesIn P host w qs (.ends (.ok d)) w' := by
  obtain ⟨_, _, qs₁, qs₂, rfl, hread, hcompile⟩ := Dialogue.ComesIn.of_bind_ok h
  obtain ⟨rfl, -, rfl, rfl⟩ := hread.of_work_ok
  obtain ⟨d, _, qs₃, qs₄, rfl, hd, hend⟩ := hcompile.of_bind_ok
  obtain ⟨rfl, he, rfl⟩ := hend.of_ends
  cases he
  rw [List.nil_append, List.append_nil]
  exact ⟨d, rfl, hd⟩

/-- What the lookup of an instance metaobject has compiled goes by the class of the shadow. -/
theorem comesIn_shadow {inst : Value}
    (h : ((shadow inst).compilation host).ComesIn P host w qs (.ends (.ok x)) w') :
    ∃ s, x = ⟨.shadow s, s.generation, s.cls⟩ ∧
      (Dialogue.shadow host inst).ComesIn P host w qs (.ends (.ok s)) w' := by
  obtain ⟨s, _, qs₁, qs₂, rfl, hs, hend⟩ := Dialogue.ComesIn.of_bind_ok h
  obtain ⟨rfl, he, rfl⟩ := hend.of_ends
  cases he
  rw [List.append_nil]
  exact ⟨s, rfl, hs⟩

end

variable {host} {inner : Host} {l : Lookup} {c : CellId} {w w' : World}

/-- A lookup that finds nothing in its slot compiles. -/
theorem run_of_miss (hr : inner.Reads host) (hl : l.object = .ref c)
    (hc : w.cached? host l.wanted c = (none, w')) :
    l.run inner w = ((l.compilation host).run inner >>= fun x =>
      modifyGet (World.publish c x.content x.generation x.governor) : Build PayloadId) w' := by
  rw [run_eq hl, World.cached?_congr hr, hc, build_eq, compilation_congr hr]

/-! ## Queries -/

/-- The queries that a lookup in `w` makes of its host, in order: those of its compilation, if it
compiles. One that is never replied to is not among them. -/
def queries (inner : Host) (l : Lookup) (w : World) : List Query :=
  match l.object with
  | .ref c =>
    match w.cached? inner l.wanted c with
    | (some _, _) => []
    | (none, w') => (l.compilation inner).queries inner w'
  | _ => []

theorem queries_of_no_ref (hl : ∀ c, l.object ≠ .ref c) : l.queries inner w = [] := by
  rw [queries]
  split
  · rename_i c hc
    exact absurd hc (hl c)
  · rfl

theorem queries_of_hit {p : PayloadId} (hr : inner.Reads host) (hl : l.object = .ref c)
    (hc : w.cached? host l.wanted c = (some p, w')) : l.queries inner w = [] := by
  simp only [queries, hl, World.cached?_congr hr, hc]

theorem queries_of_miss (hr : inner.Reads host) (hl : l.object = .ref c)
    (hc : w.cached? host l.wanted c = (none, w')) :
    l.queries inner w = (l.compilation host).queries inner w' := by
  simp only [queries, hl, World.cached?_congr hr, hc, compilation_congr hr]

/-- The host has replied to them. -/
theorem answers_of_mem_queries {q : Query} (h : q ∈ l.queries inner w) : inner.Answers q := by
  unfold queries at h
  split at h
  · split at h
    · cases h
    · exact Dialogue.answers_of_mem_queries h
  · cases h

/-- A lookup depends on its host by the replies to its queries alone. -/
theorem run_eq_of_answers {r : Except Error PayloadId} (hr : inner.Reads host)
    (h : l.run host w = .ok (r, w')) (hq : ∀ q ∈ l.queries host w, inner.Answers q) :
    l.run inner w = .ok (r, w') := by
  by_cases hl : ∃ c, l.object = .ref c
  · obtain ⟨c, hl⟩ := hl
    cases hc : w.cached? host l.wanted c with
    | mk o w₁ =>
      cases o with
      | some p =>
        rw [run_eq hl, hc] at h
        rwa [run_eq hl, World.cached?_congr hr, hc]
      | none =>
        rw [queries_of_miss (.refl host) hl hc] at hq
        rw [run_of_miss (.refl host) hl hc, Build.bind_apply] at h
        rw [run_of_miss hr hl hc, Build.bind_apply]
        cases hx : (l.compilation host).run host w₁ with
        | error e =>
          rw [hx] at h
          cases h
        | ok a =>
          have hrun : (l.compilation host).run inner w₁ = .ok a :=
            (Dialogue.comes_queries hx).run_eq hr hq
          rw [hx] at h
          rwa [hrun]
  · have hl : ∀ c, l.object ≠ .ref c := fun c hc => hl ⟨c, hc⟩
    rw [run_of_no_ref hl] at h
    rwa [run_of_no_ref hl]

/-- A lookup makes every one of its queries: if the host does not reply to one of them, the lookup
does not end. -/
theorem run_of_unanswered {qs rest : List Query} {q : Query} {e : Halt} (hr : inner.Reads host)
    (h : l.queries host w = qs ++ q :: rest) (hqs : ∀ p ∈ qs, inner.Answers p)
    (he : inner.callMethod q.invocant q.method.name q.before = .error e) :
    l.run inner w = .error e := by
  by_cases hl : ∃ c, l.object = .ref c
  · obtain ⟨c, hl⟩ := hl
    cases hc : w.cached? host l.wanted c with
    | mk o w₁ =>
      cases o with
      | some p =>
        rw [queries_of_hit (.refl host) hl hc] at h
        cases qs <;> cases h
      | none =>
        rw [queries_of_miss (.refl host) hl hc] at h
        rw [run_of_miss hr hl hc, Build.bind_apply, Dialogue.run_of_unanswered hr h hqs he]
  · rw [queries_of_no_ref fun c hc => hl ⟨c, hc⟩] at h
    cases qs <;> cases h

end Lookup

end MetaCache
