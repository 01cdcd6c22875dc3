import MetaCache.Proofs.History.Answers
import MetaCache.Proofs.Play.Hands
/-!
# Runs as plays

Every run is told by a play, deed for deed. A lookup that has ended is a miss and a compilation, or
a hit, or a refusal; what it asks and what it is replied in the play is what it asks and is replied
in the run, and what a method does before it replies is told while the lookup waits. A lookup that
never ends is told up to the call that does not come back.

* `Tells`, `Plays`: steps with these deeds; host code that is at work may do this, whatever builds
  wait for it.
* `Dialogue.plays`, `Lookup.plays_returns`: a compilation and a lookup.
* `Activity.plays`, `Reaches.plays`: runs that have come to their end, and runs that have not.
* `Activity.covers`: a run leaves everyone what he holds.
* `Host.nesting`, `reaches_nestedWorld`: metaobjects that look themselves up when they are asked.
-/

namespace MetaCache

variable {host inner : Host} {w w' w'' : World} {f f' f'' g : Holding} {n : Nat}
  {ds ds' : List Deed} {told : Query → List Deed}

theorem Steps.trans {x y z : Stage} {ts us : List Turn} (h : Steps host n x ts y)
    (h' : Steps host (n + ts.length) y us z) : Steps host n x (ts ++ us) z := by
  induction h' with
  | refl =>
    rw [List.append_nil]
    exact h
  | snoc _ hs ih =>
    rw [← List.append_assoc]
    refine .snoc ih ?_
    rw [List.length_append, ← Nat.add_assoc]
    exact hs

/-- Steps that tell the deeds. -/
structure Tells (host : Host) (n : Nat) (x : Stage) (ts : List Turn) (ds : List Deed) (y : Stage) :
    Prop where
  steps : Steps host n x ts y
  deeds : deeds ts = ds

namespace Tells

variable {x y z : Stage} {ts us : List Turn}

theorem refl (x : Stage) : Tells host n x [] [] x := ⟨.refl, rfl⟩

theorem single {a : Act} (h : Step host n x a y) :
    Tells host n x [⟨a, x.world, y.world⟩] (Turn.deeds ⟨a, x.world, y.world⟩) y :=
  ⟨.snoc .refl h, List.append_nil _⟩

theorem trans (h : Tells host n x ts ds y) (h' : Tells host (n + ts.length) y us ds' z) :
    Tells host n x (ts ++ us) (ds ++ ds') z :=
  ⟨h.steps.trans h'.steps, by rw [deeds_append, h.deeds, h'.deeds]⟩

end Tells

/-- Whatever builds wait for it, host code that holds `f` may come from `w` to `w'`, where it holds
`f'`, by steps that tell the deeds. -/
def Plays (host : Host) (w : World) (f : Holding) (ds : List Deed) (w' : World) (f' : Holding) :
    Prop :=
  ∀ n frames, ∃ ts, Tells host n ⟨w, frames, .code f⟩ ts ds ⟨w', frames, .code f'⟩

theorem Plays.trans (h : Plays host w f ds w' f') (h' : Plays host w' f' ds' w'' f'') :
    Plays host w f (ds ++ ds') w'' f'' := by
  intro n frames
  obtain ⟨ts, hts⟩ := h n frames
  obtain ⟨us, hus⟩ := h' (n + ts.length) frames
  exact ⟨ts ++ us, hts.trans hus⟩

namespace Dialogue

variable {d : Dialogue Compiled}

/-- A method that a compilation calls is played while the compilation waits. -/
theorem plays_ask {q : Query} (next : Except HostError (List Value) → Dialogue Compiled)
    (hq : Plays host q.before 0 (told q) q.after (holding (ownedByReply q.reply))) (n : Nat)
    (t : Task) (frames : List Frame) :
    ∃ ts s, Tells host n ⟨q.before, frames, .cache t (.asks q.invocant q.method next)⟩ ts
      (q.deeds told) ⟨q.after, frames,
        .cache { t with queries := t.queries ++ [q], spans := t.spans ++ [s] } (next q.reply)⟩ := by
  let fr : Frame := ⟨t, q.invocant, q.method, q.before, n, next⟩
  have hasked : Tells host n ⟨q.before, frames, .cache t (.asks q.invocant q.method next)⟩
      [⟨.asked q.invocant q.method, q.before, q.before⟩] [.asked q.invocant q.method q.before]
      ⟨q.before, fr :: frames, .code 0⟩ :=
    .single (.asked q.before frames t q.invocant q.method next)
  obtain ⟨ts, hcall⟩ := hq (n + 1) (fr :: frames)
  have hreplied : Tells host (n + 1 + ts.length) _ _ _ _ :=
    .single (.replied q.after fr frames q.reply)
  exact ⟨_, _, hasked.trans (hcall.trans hreplied)⟩

variable (hr : inner.Reads host)

include hr

/-- A compilation that ends is played to its end, and what it asks in the play is what it asks of
its host. -/
theorem plays {r : Except Error Compiled} (h : d.run inner w = .ok (r, w'))
    (hq : ∀ q ∈ d.queries inner w,
      Plays host q.before 0 (told q) q.after (holding (ownedByReply q.reply)))
    (n : Nat) (t : Task) (frames : List Frame) :
    ∃ ts ss, Tells host n ⟨w, frames, .cache t d⟩ ts
      ((d.queries inner w).flatMap (Query.deeds told)) ⟨w', frames,
        .cache { t with queries := t.queries ++ d.queries inner w, spans := t.spans ++ ss }
          (.ends r)⟩ := by
  induction d generalizing w n t with
  | ends r =>
    cases h
    refine ⟨[], [], ?_⟩
    rw [queries, List.append_nil, List.append_nil]
    exact .refl _
  | does x next ih =>
    rw [run, x.apply_congr hr] at h
    rw [queries, x.apply_congr hr] at hq ⊢
    obtain ⟨ts, ss, hrest⟩ := ih _ h hq (n + 1) t
    exact ⟨_, ss, (Tells.single (.worked w frames t x next)).trans hrest⟩
  | asks v m next ih =>
    rw [run_asks] at h
    cases hc : inner.callMethod v m.name w with
    | error e =>
      rw [hc] at h
      cases h
    | ok p =>
      rw [hc] at h
      rw [queries_asks hc] at hq ⊢
      obtain ⟨hfirst, hq⟩ := List.forall_mem_cons.1 hq
      obtain ⟨ts, s, hasked⟩ := plays_ask next hfirst n t frames
      obtain ⟨us, ss, hrest⟩ := ih p.1 h hq (n + ts.length)
        { t with queries := t.queries ++ [⟨v, m, w, p.1, p.2⟩], spans := t.spans ++ [s] }
      refine ⟨ts ++ us, s :: ss, ?_⟩
      rw [List.append_cons, List.append_cons t.spans]
      exact hasked.trans hrest

/-- A compilation that does not end is played up to the call that does not. -/
theorem plays_stuck {e : Halt} (h : d.run inner w = .error e)
    (hq : ∀ q ∈ d.queries inner w,
      Plays host q.before 0 (told q) q.after (holding (ownedByReply q.reply)))
    (n : Nat) (t : Task) (frames : List Frame) :
    ∃ ts v m w' fr, inner.callMethod v m.name w' = .error e ∧
      Tells host n ⟨w, frames, .cache t d⟩ ts
        ((d.queries inner w).flatMap (Query.deeds told) ++ [.asked v m w'])
        ⟨w', fr :: frames, .code 0⟩ := by
  induction d generalizing w n t with
  | ends r => cases h
  | does x next ih =>
    rw [run, x.apply_congr hr] at h
    rw [queries, x.apply_congr hr] at hq ⊢
    obtain ⟨ts, v, m, w', fr, hc, hrest⟩ := ih _ h hq (n + 1) t
    exact ⟨_, v, m, w', fr, hc, (Tells.single (.worked w frames t x next)).trans hrest⟩
  | asks v m next ih =>
    rw [run_asks] at h
    cases hc : inner.callMethod v m.name w with
    | error e' =>
      rw [hc] at h
      cases h
      rw [queries_asks_of_error hc]
      exact ⟨_, v, m, w, _, hc, .single (.asked w frames t v m next)⟩
    | ok p =>
      rw [hc] at h
      rw [queries_asks hc] at hq ⊢
      obtain ⟨hfirst, hq⟩ := List.forall_mem_cons.1 hq
      obtain ⟨ts, s, hasked⟩ := plays_ask next hfirst n t frames
      obtain ⟨us, v', m', w', fr, hc', hrest⟩ := ih p.1 h hq (n + ts.length)
        { t with queries := t.queries ++ [⟨v, m, w, p.1, p.2⟩], spans := t.spans ++ [s] }
      refine ⟨ts ++ us, v', m', w', fr, hc', ?_⟩
      rw [List.flatMap_cons, List.append_assoc]
      exact hasked.trans hrest

end Dialogue

namespace Lookup

variable {l : Lookup} {c : CellId}

/-- The moment at which a lookup has found nothing in its slot. -/
theorem plays_miss (hl : l.object = .ref c) (hc : w.cached? host l.wanted c = (none, w'))
    (f : Holding) (n : Nat) (frames : List Frame) :
    Tells host n ⟨w, frames, .code (holding l.owned + f)⟩ [⟨.missed l, w, w'⟩] [.called l w]
      ⟨w', frames, .cache ⟨n, l, c, w', holding l.owned + f, [], []⟩ (l.compilation host)⟩ :=
  .single (.missed frames f hl hc)

variable (hr : inner.Reads host)
  (hq : ∀ q ∈ l.queries inner w,
    Plays host q.before 0 (told q) q.after (holding (ownedByReply q.reply)))

include hr hq

/-- A lookup that finds nothing in its slot, and whose compilation ends, is played to the end of the
compilation. -/
theorem plays_compiles {r : Except Error Compiled} {w₁ : World} (hl : l.object = .ref c)
    (hc : w.cached? host l.wanted c = (none, w₁))
    (h : (l.compilation host).run inner w₁ = .ok (r, w')) (f : Holding) (n : Nat)
    (frames : List Frame) :
    ∃ ts ss, Tells host n ⟨w, frames, .code (holding l.owned + f)⟩ ts (l.deeds inner w told)
      ⟨w', frames, .cache ⟨n, l, c, w₁, holding l.owned + f, l.queries inner w, ss⟩ (.ends r)⟩ := by
  have hqueries := queries_of_miss hr hl hc
  rw [hqueries] at hq
  obtain ⟨ts, ss, hcompile⟩ := Dialogue.plays hr h hq (n + 1)
    ⟨n, l, c, w₁, holding l.owned + f, [], []⟩ frames
  refine ⟨⟨.missed l, w, w₁⟩ :: ts, ss, ?_⟩
  rw [deeds, hqueries]
  exact (plays_miss hl hc f n frames).trans hcompile

/-- A lookup that finds nothing in its slot, and whose compilation ends well, is played to its end,
which is that of a build. -/
theorem plays_built {x : Compiled} {w₁ : World} (hl : l.object = .ref c)
    (hc : w.cached? host l.wanted c = (none, w₁))
    (h : (l.compilation host).run inner w₁ = .ok (.ok x, w')) (f : Holding) (n : Nat)
    (frames : List Frame) :
    ∃ us b, Tells host n ⟨w, frames, .code (holding l.owned + f)⟩
        (us ++ [⟨.built b, w', (w'.publish c x.content x.generation x.governor).2⟩])
        (l.deeds inner w told ++ [.returned l (.ok w'.store.payloads.next)
          (w'.publish c x.content x.generation x.governor).2])
        ⟨(w'.publish c x.content x.generation x.governor).2, frames,
          .code (holding [.payload w'.store.payloads.next] + (holding l.owned + f))⟩ ∧
      b.lookup = l ∧ b.target = c ∧ b.began = w₁ ∧ b.queries = l.queries inner w ∧
      b.compiled = x ∧ b.ended = w' := by
  obtain ⟨us, ss, hcompile⟩ := plays_compiles hr hq hl hc h f n frames
  exact ⟨us, _, hcompile.trans (.single (.built w' frames _ x)), rfl, rfl, rfl, rfl, rfl, rfl⟩

/-- A lookup that ends is played to its end. -/
theorem plays_returns {r : Except Error PayloadId} (h : l.run inner w = .ok (r, w'))
    (f : Holding) : Plays host w (holding l.owned + f) (l.deeds inner w told ++ [.returned l r w'])
      w' (outcome (fun p => holding [.payload p]) r + (holding l.owned + f)) := by
  intro n frames
  by_cases hl : ∃ c, l.object = .ref c
  · obtain ⟨c, hl⟩ := hl
    cases hc : w.cached? host l.wanted c with
    | mk o w₁ =>
      cases o with
      | some p =>
        rw [run_eq hl, World.cached?_congr hr, hc] at h
        cases h
        rw [deeds, queries_of_hit hr hl hc]
        exact ⟨_, .single (.hit frames f hl hc)⟩
      | none =>
        rw [run_of_miss hr hl hc, Build.bind_apply] at h
        cases hx : (l.compilation host).run inner w₁ with
        | error e =>
          rw [hx] at h
          cases h
        | ok a =>
          obtain ⟨r₁, w₂⟩ := a
          rw [hx] at h
          cases r₁ with
          | error e =>
            cases h
            obtain ⟨ts, ss, hcompile⟩ := plays_compiles hr hq hl hc hx f n frames
            exact ⟨_, hcompile.trans (.single (.failed w' frames _ e))⟩
          | ok x =>
            cases h
            obtain ⟨us, b, hbuilt, -⟩ := plays_built hr hq hl hc hx f n frames
            exact ⟨_, hbuilt⟩
  · have hl : ∀ c, l.object ≠ .ref c := fun c hc => hl ⟨c, hc⟩
    rw [run_of_no_ref hl] at h
    cases h
    -- an error of this kind owns nothing
    have hnone (e : Mismatch) :
        outcome (fun p => holding [.payload p]) (.error (.mismatch e)) = 0 := rfl
    rw [hnone, zero_add, deeds, queries_of_no_ref hl]
    exact ⟨_, .single (.refused w frames _ hl)⟩

/-- A lookup that does not end is played up to the call that does not. -/
theorem plays_stuck {e : Halt} (h : l.run inner w = .error e) (f : Holding) (n : Nat)
    (frames : List Frame) : ∃ ts v m w' fr, inner.callMethod v m.name w' = .error e ∧
      Tells host n ⟨w, frames, .code (holding l.owned + f)⟩ ts
        (l.deeds inner w told ++ [.asked v m w']) ⟨w', fr :: frames, .code 0⟩ := by
  by_cases hl : ∃ c, l.object = .ref c
  · obtain ⟨c, hl⟩ := hl
    cases hc : w.cached? host l.wanted c with
    | mk o w₁ =>
      cases o with
      | some p =>
        rw [run_eq hl, World.cached?_congr hr, hc] at h
        cases h
      | none =>
        rw [run_of_miss hr hl hc, Build.bind_apply] at h
        cases hx : (l.compilation host).run inner w₁ with
        | error e' =>
          rw [hx] at h
          cases h
          have hqueries := queries_of_miss hr hl hc
          rw [hqueries] at hq
          obtain ⟨ts, v, m, w', fr, hcall, hcompile⟩ := Dialogue.plays_stuck hr hx hq (n + 1)
            ⟨n, l, c, w₁, holding l.owned + f, [], []⟩ frames
          refine ⟨⟨.missed l, w, w₁⟩ :: ts, v, m, w', fr, hcall, ?_⟩
          rw [deeds, hqueries]
          exact (plays_miss hl hc f n frames).trans hcompile
        | ok a =>
          obtain ⟨r₁, w₂⟩ := a
          rw [hx] at h
          cases r₁ <;> cases h
  · rw [run_of_no_ref fun c hc => hl ⟨c, hc⟩] at h
    cases h

end Lookup

/-! ## Runs -/

/-- A run that has come to its end is a play. -/
theorem Activity.plays (h : Activity host w f ds w' f') : Plays host w f ds w' f' := by
  induction h with
  | change hch => exact fun n frames => ⟨_, .single (.changed hch)⟩
  | trans _ _ ih ih' => exact ih.trans ih'
  | invalidate w f v => exact fun n frames => ⟨_, .single (.invalidated w frames f v)⟩
  | lookup f hr _ hrun ih => exact Lookup.plays_returns hr ih hrun f

/-- A method has one name. -/
theorem Introspection.name_inj {m m' : Introspection} (h : m.name = m'.name) : m = m' := by
  cases m with
  | ofAttribute q => cases m' with
    | ofAttribute q' => cases q <;> cases q' <;> first | rfl | exact absurd h (by decide)
    | ofInstance q' => cases q <;> cases q' <;> exact absurd h (by decide)
  | ofInstance q => cases m' with
    | ofAttribute q' => cases q <;> cases q' <;> exact absurd h (by decide)
    | ofInstance q' => cases q <;> cases q' <;> first | rfl | exact absurd h (by decide)

/-- Every moment of a run at which host code is at work is a moment of a play, which tells the same
deeds. -/
theorem Reaches.plays (h : Reaches host w f ds w') (n : Nat) (frames : List Frame) :
    ∃ ts frames' f', Tells host n ⟨w, frames, .code f⟩ ts ds ⟨w', frames', .code f'⟩ := by
  induction h generalizing n frames with
  | here => exact ⟨[], frames, _, .refl _⟩
  | after ha _ ih =>
    obtain ⟨ts, hts⟩ := ha.plays n frames
    obtain ⟨us, frames', f', hus⟩ := ih (n + ts.length) frames
    exact ⟨_, frames', f', hts.trans hus⟩
  | inside hr hq hrun honly _ ih =>
    obtain ⟨ts, v, m, w₁, fr, hc, hts⟩ :=
      Lookup.plays_stuck hr (fun q hm => (hq q hm).plays) hrun _ n frames
    obtain ⟨rfl, hm, rfl⟩ := honly v m.name w₁ hc
    obtain rfl := Introspection.name_inj hm
    obtain ⟨us, frames', f', hus⟩ := ih (n + ts.length) (fr :: frames)
    refine ⟨ts ++ us, frames', f', ?_⟩
    rw [List.append_cons]
    exact hts.trans hus

/-- A run from the beginning is told by a play. -/
theorem Reaches.play (h : Reaches host w f ds w') :
    ∃ ts frames g, Play host w f ts ⟨w', frames, .code g⟩ ∧ deeds ts = ds := by
  obtain ⟨ts, frames, g, hts⟩ := h.plays 0 []
  exact ⟨ts, frames, g, hts.steps, hts.deeds⟩

/-- A run leaves everyone what he holds. -/
theorem Activity.covers (ho : host.Orderly) (h : Activity host w f ds w' f')
    (hcov : w.Covers (f + g)) : w'.Covers (f' + g) := by
  obtain ⟨ts, hts⟩ := (h.frame g).plays 0 []
  exact hts.steps.backed ho hcov

/-! ## Metaobjects that look themselves up -/

/-- The shares that come with what a lookup answers, or with the value thrown. -/
def ownedByAnswer : Except Error PayloadId → List Owned
  | .ok p => [.payload p]
  | .error e => e.owned

/-- The world that is left when a value has been looked up and what came of it has been dropped. A
value that cannot be looked up, or not to the end, is left alone. -/
def Host.lookUp (host : Host) (v : Value) (w : World) : World :=
  match v with
  | .ref c =>
    if w.store.alive c then
      match (Lookup.shadow (.ref c)).run host (w.onStore (·.retain [.cell c])) with
      | .ok (r, w') => w'.onStore (·.release (ownedByAnswer r ++ [.cell c]))
      | .error _ => w
    else w
  | _ => w

/-- The host whose metaobjects look themselves up before they answer. -/
def Host.nesting (host : Host) : Host :=
  { host with callMethod := fun v m w => host.callMethod v m (host.lookUp v w) }

theorem Host.reads_nesting (host : Host) : host.nesting.Reads host := ⟨rfl, rfl, rfl⟩

/-- The methods of `inner` do what may be done in a run, and leave the counters to the cache. -/
def Host.ActsFor (inner host : Host) : Prop :=
  ∀ q : Query, inner.Answers q → host.Acts q.before 0 q.after (holding (ownedByReply q.reply))

section

variable (ho : host.Orderly) (hr : inner.Reads host) (hacts : inner.ActsFor host)

include ho hr hacts

theorem Host.acts_lookUp (v : Value) (w : World) : host.Acts w 0 (inner.lookUp v w) 0 := by
  cases v with
  | ref c =>
    unfold Host.lookUp
    dsimp only
    split
    · rename_i halive
      split
      · rename_i r w' hrun
        have hretain : host.Acts w 0 (w.onStore (·.retain [.cell c])) (holding [.cell c] + 0) :=
          .change (change_retain ho fun _ _ o hm => by rw [List.mem_singleton.1 hm]; exact halive)
            rfl
        have hlookup := Host.Acts.lookup 0 hr hrun fun q hq =>
          hacts q (Lookup.answers_of_mem_queries hq)
        have hrelease := Host.Acts.change
          (change_release ho w' (ownedByAnswer r ++ [.cell c])) rfl
        have hgiven : outcome (fun p => holding [.payload p]) r +
            (holding (Lookup.shadow (.ref c)).owned + 0) =
            holding (ownedByAnswer r ++ [.cell c]) := by
          rw [holding_append, add_zero]
          cases r <;> rfl
        rw [hgiven] at hlookup
        exact (hretain.trans hlookup).trans hrelease
      · exact .refl w 0
    · exact .refl w 0
  | _ => exact .refl w 0

/-- Metaobjects may look themselves up, on a host whose metaobjects may do so in turn. -/
theorem Host.ActsFor.nesting : inner.nesting.ActsFor host := by
  intro q hq
  exact (Host.acts_lookUp ho hr hacts q.invocant q.before).trans
    (hacts { q with before := inner.lookUp q.invocant q.before } hq)

end

/-- A small world in which an instance metaobject was looked up that looks itself up. -/
def nestedWorld : World := (shadowFor plainHost.nesting (.ref 2)).leaves pointWorld

theorem actsFor_plainHost : plainHost.ActsFor plainHost := fun q hq => by
  refine .change (answers_quiet (registered_scriptedHost _) hq).toChange ?_
  rw [(answers_plain hq).2]
  rfl

/-- The run that led there. -/
theorem reaches_nestedWorld :
    ∃ ds, Reaches plainHost {} 0 ds nestedWorld ∧ ∀ d ∈ ds, d.Steady := by
  have hr : plainHost.Registered := registered_scriptedHost _
  have hrun : (Lookup.shadow (.ref 2)).run plainHost.nesting pointWorld =
      .ok (.ok 1, nestedWorld) := Build.eq_of_answer? (by decide +kernel)
  have hnesting : plainHost.nesting.ActsFor plainHost :=
    .nesting hr.orderly (.refl _) actsFor_plainHost
  have hlookup := Host.Acts.lookup (holding [.cell 1]) plainHost.reads_nesting hrun fun q hq =>
    hnesting q (Lookup.answers_of_mem_queries hq)
  obtain ⟨ds, hact, hsteady⟩ := (Host.Acts.change change_pointWorld rfl).trans hlookup
  exact ⟨_, .after hact .here, by rwa [List.append_nil]⟩

end MetaCache
