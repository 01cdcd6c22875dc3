import MetaCache.Proofs.Introspection.Lookup
import MetaCache.Proofs.Play.Runs
/-!
# What is kept is what would be compiled

A caller looks up, discards and redefines. Whatever a slot holds was compiled by one of the lookups,
and compiling it once more would come to the same structure, as long as its class stays under the
generation recorded. It is for redefinitions to see to this: what is answered about the objects of a
class changes only together with its generation.

* `Host.Redefines`: what a redefinition promises.
* `Course`: a run of lookups, discards and redefinitions.
* `Lookup.Kept`, `World.Faithful`: what a record promises, and that all of them do.
* `Course.faithful`: every run leaves every slot faithful.
-/

namespace MetaCache

namespace Protocol

variable {V : View} {hash : String → UInt32} {config : Config}

theorem run_attributes_class {s t : Shadow} {attrs : List Value}
    (h : (attributes hash s attrs).run V = .ok (.ok t)) :
    t.cls = s.cls ∧ t.generation = s.generation := by
  induction attrs generalizing s with
  | nil =>
    cases h
    exact ⟨rfl, rfl⟩
  | cons attr rest ih =>
    obtain ⟨d, -, hrest⟩ := run_bind_eq_ok h
    exact ih (s := s.append d) hrest

theorem generation_of_run_ofClassName {name : String} {s : Shadow}
    (h : (ofClassName config name).run V = .ok (.ok s)) :
    V (.generation s.cls) = .ok s.generation := by
  obtain ⟨cls?, -, h⟩ := run_ask_eq_ok h
  cases cls? with
  | none => cases h
  | some cls =>
    obtain ⟨generation, hg, h⟩ := run_ask_eq_ok h
    cases h
    exact hg

theorem generation_of_run_resolve {inst : Value} {s : Shadow}
    (h : (resolve config inst).run V = .ok (.ok s)) :
    V (.generation s.cls) = .ok s.generation := by
  obtain ⟨derives, -, h⟩ := run_ask_eq_ok h
  cases derives with
  | false =>
    obtain ⟨_, -, h⟩ := run_ask_eq_ok h
    cases h
  | true =>
    obtain ⟨v, -, h⟩ := run_bind_eq_ok h
    cases ht : v.text? with
    | none =>
      rw [ht] at h
      obtain ⟨_, -, h⟩ := run_ask_eq_ok h
      cases h
    | some name =>
      rw [ht] at h
      exact generation_of_run_ofClassName h

/-- The generation in a shadow is the one that was answered for its class. -/
theorem generation_of_run_shadow {inst : Value} {s : Shadow}
    (h : (shadow hash config inst).run V = .ok (.ok s)) :
    V (.generation s.cls) = .ok s.generation := by
  obtain ⟨empty, hres, h⟩ := run_bind_eq_ok h
  obtain ⟨attrs, -, h⟩ := run_bind_eq_ok h
  obtain ⟨hcls, hgen⟩ := run_attributes_class h
  rw [hcls, hgen]
  exact generation_of_run_resolve hres

end Protocol

/-! ## Redefinitions -/

/-- The object of the lookup is there. -/
def Lookup.Live (l : Lookup) (w : World) : Prop := ∃ c, l.object = .ref c ∧ w.store.alive c

/-- What a redefinition promises to the lookups that are permitted: if what one of them would
compile now has a class that stays under its generation, then all answers that go into it stay as
well. In particular the name of its class still leads to it. -/
structure Host.Redefines (host : Host) (permitted : Lookup → Prop) (w w' : World) : Prop where
  settings : w'.cache.settings = w.cache.settings
  strong : host.Strong w'
  answers : ∀ {l : Lookup} {x : Payload} {cls : CellId}, permitted l → l.Live w → l.Live w' →
    (l.protocol w.cache).run (host.view w) = .ok (.ok x) → l.governor? x = some cls →
    w.store.alive cls → w'.store.alive cls → host.generation w' cls = host.generation w cls →
    ∀ i ∈ (l.protocol w.cache).asked (host.view w), host.view w' i = host.view w i

/-- What the holder of `f₀` may have done since `w₀`, who holds `f` in `w`. -/
inductive Course (host : Host) (permitted : Lookup → Prop) (w₀ : World) (f₀ : Holding) :
    World → Holding → Prop where
  | start : Course host permitted w₀ f₀ w₀ f₀
  | lookup {l : Lookup} {w w' : World} {r : Except Error PayloadId} {f : Holding} :
    Course host permitted w₀ f₀ w (holding l.owned + f) → permitted l →
    l.run host w = .ok (r, w') → Course host permitted w₀ f₀ w'
      (outcome (fun p => holding [.payload p]) r + (holding l.owned + f))
  | invalidate {w : World} {f : Holding} (v : Value) : Course host permitted w₀ f₀ w f →
    Course host permitted w₀ f₀ (w.invalidate v).2 f
  | redefine {w w' : World} {f f' : Holding} : Course host permitted w₀ f₀ w f →
    host.Change w f w' f' → host.Redefines permitted w w' → Course host permitted w₀ f₀ w' f'

variable {host : Host} {permitted : Lookup → Prop} {w₀ w w' : World} {f₀ f f' : Holding}
  {c : CellId} {l : Lookup} {x : Payload}

theorem Course.activity (hs : host.SideEffectFree) (h : Course host permitted w₀ f₀ w f) :
    ∃ ds, Activity host w₀ f₀ ds w f := by
  induction h with
  | start => exact ⟨_, .change (.refl w₀ f₀)⟩
  | lookup _ _ hrun ih =>
    obtain ⟨ds, hbefore⟩ := ih
    exact ⟨_, hbefore.trans (.lookup _ (.refl host)
      (fun q hq => hs.activity (Lookup.answers_of_mem_queries hq)) hrun)⟩
  | invalidate v _ ih =>
    obtain ⟨ds, hbefore⟩ := ih
    exact ⟨_, hbefore.trans (.invalidate _ _ v)⟩
  | redefine _ hch _ ih =>
    obtain ⟨ds, hbefore⟩ := ih
    exact ⟨_, hbefore.trans (.change hch)⟩

theorem Course.covers (ho : host.Orderly) (hs : host.SideEffectFree) (hcov : w₀.Covers f₀)
    (h : Course host permitted w₀ f₀ w f) : w.Covers f := by
  rw [← add_zero f₀] at hcov
  rw [← add_zero f]
  obtain ⟨ds, hact⟩ := h.activity hs
  exact hact.covers ho hcov

/-! ## Records -/

namespace Lookup

/-- The record was put into the slot of `c` by the lookup, for the structure `x`: as long as its
class is there under the generation recorded, compiling comes to `x` again. -/
structure Kept (host : Host) (w : World) (c : CellId) (r : Record) (l : Lookup) (x : Payload) :
    Prop where
  object : l.object = .ref c
  payload : w.store.payload? r.payload = some x
  governor : l.governor? x = some r.governor
  governor_lt : r.governor < w.store.cells.next
  generation_le : w.store.alive r.governor → r.generation ≤ host.generation w r.governor
  run : w.store.alive r.governor → host.generation w r.governor = r.generation →
    (l.protocol w.cache).run (host.view w) = .ok (.ok x.bare)

/-- A record that stays in its slot is kept if the dialogue comes to the same end whenever the class
has not moved. -/
theorem Kept.of_later {r : Record} (h : l.Kept host w c r x) (hl : host.Later w w')
    (hcov : w.Covers f) (hcov' : w'.Covers f') (hx : w.store.extension? c = some r)
    (hx' : w'.store.extension? c = some r)
    (hrun : w.store.alive r.governor → w'.store.alive r.governor →
      host.generation w' r.governor = host.generation w r.governor →
      (l.protocol w.cache).run (host.view w) = .ok (.ok x.bare) →
      (l.protocol w'.cache).run (host.view w') = .ok (.ok x.bare)) : l.Kept host w' c r x where
  object := h.object
  payload := by
    obtain ⟨y, hy⟩ := Option.isSome_iff_exists.1 (Store.Covers.payload_isSome hcov' hx')
    cases (hcov.payload?_of_later hl hx hy).symm.trans h.payload
    exact hy
  governor := h.governor
  governor_lt := Nat.lt_of_lt_of_le h.governor_lt hl.cells_next
  generation_le ha := Nat.le_trans (h.generation_le (hl.alive h.governor_lt ha))
    (hl.generation h.governor_lt ha)
  run ha hg := by
    have hw := hl.alive h.governor_lt ha
    have hle := h.generation_le hw
    have hle' := hl.generation h.governor_lt ha
    have heq : host.generation w r.governor = r.generation := by omega
    exact hrun hw ha (hg.trans heq.symm) (h.run hw heq)

/-- What changes nothing in the view changes nothing in what is kept. -/
theorem Kept.of_unmoved (hc : host.Consistent) (ho : host.Orderly) (hs : host.Strong w)
    {r : Record} (h : l.Kept host w c r x) (hw : host.Unmoved w w') (hcov : w.Covers f)
    (hcov' : w'.Covers f') (ha : w'.store.alive c) (hx : w.store.extension? c = some r)
    (hx' : w'.store.extension? c = some r) : l.Kept host w' c r x :=
  h.of_later hw.toLater hcov hcov' hx hx' fun _ _ _ hrun =>
    (run_protocol_congr hc ho hs hw hcov' h.object ha).trans hrun

/-- A redefinition keeps its promise to the records that are there. -/
theorem Kept.of_redefines {r : Record} (h : l.Kept host w c r x) (hl : permitted l)
    (hch : host.Change w f w' f') (hre : host.Redefines permitted w w') (hcov : w.Covers f)
    (hcov' : w'.Covers f') (ha : w.store.alive c) (ha' : w'.store.alive c)
    (hx : w.store.extension? c = some r) (hx' : w'.store.extension? c = some r) :
    l.Kept host w' c r x := by
  refine h.of_later hch.toLater hcov hcov' hx hx' fun hg hg' hgen hrun => ?_
  have hgov := (l.governor?_bare x).trans h.governor
  rw [protocol_congr hre.settings,
    Protocol.run_congr (hre.answers hl ⟨c, h.object, ha⟩ ⟨c, h.object, ha'⟩ hrun hgov hg hg' hgen)]
  exact hrun

/-! ## What a lookup puts into a slot -/

variable {g : Nat} {gov : CellId}

theorem Compiles.governor? (h : l.Compiles host w x g gov w') : l.governor? x = some gov := by
  cases h <;> rfl

/-- What is compiled is put under the generation that its class had when compiling began. -/
theorem Compiles.generation_eq (h : l.Compiles host w x g gov w')
    (hrun : (l.protocol w.cache).run (host.view w) = .ok (.ok x.bare)) :
    host.generation w gov = g := by
  cases h with
  | shadow _ =>
    obtain ⟨s, hs, hb⟩ := Protocol.run_bind_eq_ok hrun
    cases hb
    exact Except.ok.inj (Protocol.generation_of_run_shadow hs)
  | descriptor _ => rfl

/-- The class of what is compiled is held by the caller or by the structure. -/
theorem Compiles.alive (h : l.Compiles host w x g gov w') {w₁ : World} {p : PayloadId}
    (hcov : w₁.Covers (f + (holding l.owned + f'))) (hp : w₁.store.payload? p = some x) :
    w₁.store.alive gov := by
  cases h with
  | shadow _ => exact Store.Covers.alive_cls hcov hp
  | descriptor _ => exact hcov.alive (Nat.add_pos_right _ (Nat.add_pos_left (class_pos _ _) _))

/-- What a lookup has compiled and put into the slot is kept. -/
theorem Compiles.kept (hc : host.Consistent) (ho : host.Orderly) (hs : host.Strong w)
    (hl : l.object = .ref c) (hcov : w.Covers (holding l.owned + f)) {w₁ w₂ : World}
    (hm : w.cached? host l.wanted c = (none, w₁)) (hf : l.fresh host w₁ = .ok (.ok x, w₂))
    (h : l.Compiles host w₁ x g gov w₂)
    (hcov' : (w₂.publish c x g gov).2.Covers (f' + (holding l.owned + f))) :
    l.Kept host (w₂.publish c x g gov).2 c ⟨w₂.store.payloads.next, g, gov⟩ x := by
  have hk : 0 < (holding l.owned + f) (.cell c) := Nat.add_pos_left (object_pos hl) _
  obtain ⟨hw₁, -, ht⟩ := traces_of_miss hc ho hs hl hk hcov hm
  rw [hf] at ht
  generalize hr : (l.protocol w₁.cache).run (host.view w₁) = r at ht
  cases ht with
  | ends hw₂ _ =>
    have hw := hw₂.trans (hc.unmoved_of_upkeep ho (.publish w₂ c x g gov) hcov')
    have ha : (w₂.publish c x g gov).2.store.alive c := hcov'.alive (Nat.add_pos_right _ hk)
    have hslot := World.extension?_publish ha
    rw [if_pos rfl] at hslot
    obtain ⟨y, hy⟩ := Option.isSome_iff_exists.1 (Store.Covers.payload_isSome hcov' hslot)
    cases World.payload?_publish hy
    have hgov := h.alive hcov' hy
    have hgen : host.generation (w₂.publish c x g gov).2 gov = g :=
      (hw.generation_eq (Store.lt_next_of_alive (hw.alive_of_alive hgov)) hgov).trans
        (h.generation_eq hr)
    exact {
      object := hl
      payload := hy
      governor := h.governor?
      governor_lt := Store.lt_next_of_alive hgov
      generation_le := fun _ => Nat.le_of_eq hgen.symm
      run := fun _ _ => (run_protocol_congr hc ho (hw₁.strong hs) hw hcov' hl ha).trans hr }

end Lookup

/-! ## Runs -/

/-- Every record is kept by one of the lookups that are permitted. -/
def World.Faithful (host : Host) (permitted : Lookup → Prop) (w : World) : Prop :=
  ∀ c r, w.store.extension? c = some r → ∃ l x, permitted l ∧ l.Kept host w c r x

namespace World.Faithful

variable (hc : host.Consistent) (ho : host.Orderly)

include hc ho

/-- A lookup puts nothing into a slot but what is kept. -/
theorem lookup (hfaith : w.Faithful host permitted) (hs : host.Strong w) (hp : permitted l)
    (hl : l.object = .ref c) (hcov : w.Covers (holding l.owned + f)) {o : Except Error PayloadId}
    (hend : l.Ends host c w o w') (hcov' : w'.Covers (f' + (holding l.owned + f))) :
    w'.Faithful host permitted := by
  intro d r hx'
  have ha' := Store.alive_of_extension? hx'
  rcases hend.extension?_cases ha' hx' with hx | ⟨rfl, x, g, gov, w₁, w₂, hm, hf, hcomp, rfl, rfl⟩
  · obtain ⟨l', x, hp', hkept⟩ := hfaith d r hx
    have hk : 0 < (holding l.owned + f) (.cell c) := Nat.add_pos_left (Lookup.object_pos hl) _
    have hw := hend.unmoved hc ho hs hl hk hcov hcov'
    exact ⟨l', x, hp', hkept.of_unmoved hc ho hs hw hcov hcov' ha' hx hx'⟩
  · exact ⟨l, x, hp, hcomp.kept hc ho hs hl hcov hm hf hcov'⟩

/-- A discard takes one record away. -/
theorem discard (hfaith : w.Faithful host permitted) (hs : host.Strong w) (hcov : w.Covers f)
    {r : Record} {n : Note} (hcov' : (w.discard c r n).Covers f) :
    (w.discard c r n).Faithful host permitted := by
  intro d r' hx'
  have ha' := Store.alive_of_extension? hx'
  have hx := hx'
  rw [World.extension?_discard ha'] at hx
  split at hx
  · cases hx
  · obtain ⟨l, x, hp, hkept⟩ := hfaith d r' hx
    have hw := hc.unmoved_of_upkeep ho (.discard w c r n) hcov'
    exact ⟨l, x, hp, hkept.of_unmoved hc ho hs hw hcov hcov' ha' hx hx'⟩

omit hc ho in
/-- A redefinition leaves the records as they are. -/
theorem redefine (hfaith : w.Faithful host permitted) (hch : host.Change w f w' f')
    (hre : host.Redefines permitted w w') (hcov : w.Covers f) (hcov' : w'.Covers f') :
    w'.Faithful host permitted := by
  intro d r hx'
  have ha' := Store.alive_of_extension? hx'
  have hx := (hch.extension? ha').symm.trans hx'
  obtain ⟨l, x, hp, hkept⟩ := hfaith d r hx
  have ha := Store.alive_of_extension? hx
  exact ⟨l, x, hp, hkept.of_redefines hp hch hre hcov hcov' ha ha' hx hx'⟩

end World.Faithful

/-- Every run leaves every slot faithful, and the replies without weak references. -/
theorem Course.faithful (hc : host.Consistent) (ho : host.Orderly) (hs : host.Strong w₀)
    (hu : ∀ d, w₀.store.extension? d = none) (hcov : w₀.Covers f₀)
    (h : Course host permitted w₀ f₀ w f) : host.Strong w ∧ w.Faithful host permitted := by
  induction h with
  | start =>
    refine ⟨hs, fun d r hx => ?_⟩
    rw [hu d] at hx
    cases hx
  | @lookup l w w' o f hcourse hp hrun ih =>
    obtain ⟨hsw, hfaith⟩ := ih
    have hcovw := hcourse.covers ho hc.toSideEffectFree hcov
    have hcov' := (hcourse.lookup hp hrun).covers ho hc.toSideEffectFree hcov
    by_cases hl : ∃ d, l.object = .ref d
    · obtain ⟨d, hl⟩ := hl
      have hend := Lookup.ends ho hc.toSideEffectFree hl hrun
      have hk : 0 < (holding l.owned + f) (.cell d) := Nat.add_pos_left (Lookup.object_pos hl) _
      exact ⟨(hend.unmoved hc ho hsw hl hk hcovw hcov').strong hsw,
        hfaith.lookup hc ho hsw hp hl hcovw hend hcov'⟩
    · rw [(Lookup.eq_of_no_ref (fun d hd => hl ⟨d, hd⟩) hrun).1]
      exact ⟨hsw, hfaith⟩
  | @invalidate w f v hcourse ih =>
    obtain ⟨hsw, hfaith⟩ := ih
    have hcovw := hcourse.covers ho hc.toSideEffectFree hcov
    have hcov' := (hcourse.invalidate v).covers ho hc.toSideEffectFree hcov
    rcases w.invalidate_cases v with h | ⟨target, r, n, -, h⟩
    · rw [h]
      exact ⟨hsw, hfaith⟩
    · rw [h] at hcov' ⊢
      exact ⟨(hc.unmoved_of_upkeep ho (.discard w target r n) hcov').strong hsw,
        hfaith.discard hc ho hsw hcovw hcov'⟩
  | redefine hcourse hch hre ih =>
    have hcovw := hcourse.covers ho hc.toSideEffectFree hcov
    have hcov' := (hcourse.redefine hch hre).covers ho hc.toSideEffectFree hcov
    exact ⟨hre.strong, ih.2.redefine hch hre hcovw hcov'⟩

end MetaCache
