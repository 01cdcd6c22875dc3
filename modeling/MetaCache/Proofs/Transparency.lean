import MetaCache.Proofs.Introspection.Faithful
import MetaCache.Proofs.Introspection.Plain
/-!
# Transparency

Whatever a caller has looked up, discarded and redefined, a lookup answers what compiling its object
at that moment would answer: the same error, or a structure that differs at most in where its names
are kept. For this the host must only answer, and a redefinition must count the generation of a
class up whenever it changes an answer that goes into a structure of that class.

* `Lookup.answer`, `Lookup.freshAnswer`: what a lookup answers, and what compiling alone does.
* `lookup_transparent`: the two are equal in every run.
-/

namespace MetaCache

variable {host : Host} {permitted : Lookup → Prop} {w₀ w w' : World} {f₀ f k : Holding}
  {c : CellId} {l : Lookup} {x : Payload}

namespace Lookup

/-- What the lookup answers: the structure that its handle leads to, with names that belong to no
key table. -/
def answer (host : Host) (l : Lookup) (w : World) : Except Halt (Except Error (Option Payload)) :=
  (l.run host w).map fun (r, w') => r.map fun p => (w'.store.payload? p).map Payload.bare

/-- What compiling alone answers. -/
def freshAnswer (host : Host) (l : Lookup) (w : World) :
    Except Halt (Except Error (Option Payload)) :=
  (l.fresh host w).map fun (r, _) => r.map fun x => some x.bare

/-- Compiling answers what the dialogue comes to. -/
theorem freshAnswer_eq (hc : host.Consistent) (ho : host.Orderly) (hs : host.Strong w)
    (hl : l.object = .ref c) (hk : 0 < k (.cell c)) (hcov : w.Covers k) :
    l.freshAnswer host w = ((l.protocol w.cache).run (host.view w)).map (Except.map some) := by
  have h := follows_fresh hc ho hs hl hk w (.refl w) (by rwa [zero_add])
  rw [freshAnswer, h.eq_map]
  cases l.fresh host w with
  | error e => rfl
  | ok a =>
    obtain ⟨r, w'⟩ := a
    cases r <;> rfl

/-- Two lookups of one object for one kind of structure have the same dialogue. -/
theorem protocol_eq_of_accepts {l' : Lookup} {gov : CellId} (hl : l.object = .ref c)
    (hl' : l'.object = .ref c) (hacc : l.wanted.accepts x) (hgov : l'.governor? x = some gov)
    (cache : Cache) : l'.protocol cache = l.protocol cache := by
  cases l with
  | shadow inst =>
    cases x with
    | shadow s =>
      cases l' with
      | shadow inst' =>
        cases hl
        cases hl'
        rfl
      | descriptor attr cls => cases hgov
    | _ => cases hacc
  | descriptor attr cls =>
    cases x with
    | descriptor d =>
      cases l' with
      | shadow inst => cases hgov
      | descriptor attr' cls' =>
        cases hl
        cases hl'
        rfl
    | _ => cases hacc

/-- An answer from a faithful slot is what the dialogue comes to. -/
theorem run_protocol_of_hit (hfaith : w.Faithful host permitted) (hl : l.object = .ref c)
    (hcov' : w'.Covers k) {p : PayloadId}
    (hm : w.cached? host l.wanted c = (some p, w')) (ha : w'.store.alive c) :
    ∃ x, w'.store.payload? p = some x ∧
      (l.protocol w.cache).run (host.view w) = .ok (.ok x.bare) := by
  obtain ⟨r, hr, hf, rfl⟩ := World.cached?_eq_some_iff.1 (congrArg Prod.fst hm)
  obtain ⟨⟨x, hx, hacc⟩, hgov, hgen⟩ := World.isFresh_iff.1 hf
  obtain ⟨l', y, -, hkept⟩ := hfaith c r hr
  cases hx.symm.trans hkept.payload
  have hs := World.sheds_of_hit hm
  obtain ⟨y, hy⟩ := Option.isSome_iff_exists.1
    (Store.Covers.payload_isSome hcov' ((hs.extension?_eq ha).trans hr))
  cases hx.symm.trans (hs.payload? _ _ hy)
  refine ⟨x, hy, ?_⟩
  rw [← protocol_eq_of_accepts hl hkept.object hacc hkept.governor]
  exact hkept.run hgov hgen

/-- What is compiled after a miss is what the dialogue comes to. -/
theorem answer_of_miss (hc : host.Consistent) (ho : host.Orderly) (hs : host.Strong w)
    (hl : l.object = .ref c) (hk : 0 < k (.cell c)) (hcov : w.Covers k)
    (hm : w.cached? host l.wanted c = (none, w')) :
    l.answer host w = ((l.protocol w.cache).run (host.view w)).map (Except.map some) := by
  obtain ⟨hw, hcov₁, ht⟩ := traces_of_miss hc ho hs hl hk hcov hm
  rw [run_protocol_congr hc ho hs hw hcov₁ hl (hcov₁.alive hk)] at ht
  rw [answer, run_eq hl, hm]
  generalize (l.protocol w.cache).run (host.view w) = r at ht
  rcases build_cases host l c w' with ⟨e, hf, hb⟩ | ⟨e, w₂, hf, hb⟩ | ⟨x, g, gov, w₂, hf, -, hb⟩
  · rw [hf] at ht
    cases ht
    exact congrArg (Except.map _) hb
  · rw [hf] at ht
    cases ht
    exact congrArg (Except.map _) hb
  · rw [hf] at ht
    cases ht with
    | ends _ hcov₂ =>
      have hpub : (w₂.publish c x g gov).2.Covers (holding [.payload _] + k) :=
        hcov₂.publish g gov
      have hslot := World.extension?_publish (hpub.alive (Nat.add_pos_right _ hk))
      rw [if_pos rfl] at hslot
      obtain ⟨y, hy⟩ := Option.isSome_iff_exists.1 (Store.Covers.payload_isSome hpub hslot)
      have hxy := World.payload?_publish hy
      refine (congrArg (Except.map _) hb).trans ?_
      show Except.ok (Except.ok (Option.map Payload.bare _)) = Except.ok (Except.ok (some x.bare))
      rw [hy, hxy]
      rfl

end Lookup

/-- In every run of lookups, discards and redefinitions over any objects, a lookup answers what
compiling its object at that moment answers. -/
theorem lookup_transparent (hc : host.Consistent) (ho : host.Orderly) (hs : host.Strong w₀)
    (hu : ∀ d, w₀.store.extension? d = none) (hcov : w₀.Covers f₀)
    (hrun : Course host permitted w₀ f₀ w (holding l.owned + f)) (hl : l.object = .ref c) :
    l.answer host w = l.freshAnswer host w := by
  obtain ⟨hsw, hfaith⟩ := hrun.faithful hc ho hs hu hcov
  have hcovw := hrun.covers ho hc.toSideEffectFree hcov
  have hk : 0 < (holding l.owned + f) (.cell c) := Nat.add_pos_left (Lookup.object_pos hl) _
  rw [Lookup.freshAnswer_eq hc ho hsw hl hk hcovw]
  cases hm : w.cached? host l.wanted c with
  | mk o w₁ =>
    cases o with
    | none => exact Lookup.answer_of_miss hc ho hsw hl hk hcovw hm
    | some p =>
      have hcov₁ : (w.cached? host l.wanted c).2.Covers _ := hcovw.cached? l.wanted
      rw [hm] at hcov₁
      have ha₁ : w₁.store.alive c := hcov₁.alive (Nat.add_pos_right _ hk)
      obtain ⟨x, hx, hprot⟩ := Lookup.run_protocol_of_hit hfaith hl hcov₁ hm ha₁
      rw [hprot, Lookup.answer, Lookup.run_eq hl, hm]
      show Except.ok (Except.ok (Option.map Payload.bare _)) = Except.ok (Except.ok (some x.bare))
      rw [hx]
      rfl

/-! ## A slot renamed -/

/-- A world in which an instance metaobject was looked up. -/
def shadowedWorld : World := (shadowFor plainHost (.ref 2)).leaves pointWorld

/-- The same world after its attribute got another slot and its class was redefined. -/
def reslottedWorld : World :=
  ((shadowedWorld.setBehavior 0 AttributeQuery.slots.method (.reply [.str "y"])).bumpClass 1).2

theorem change_reslottedWorld : plainHost.Change shadowedWorld 0 reslottedWorld 0 := by
  have hr : plainHost.Registered := registered_scriptedHost _
  have hslot := change_setBehavior hr 0 AttributeQuery.slots.method (.reply [.str "y"])
    shadowedWorld
  have hnone : holding (Behavior.reply [.str "y"]).owned = 0 := rfl
  rw [hnone] at hslot
  exact hslot.trans (change_bumpClass hr 1 _)

theorem redefines_pointWorld (permitted : Lookup → Prop) :
    plainHost.Redefines permitted {} pointWorld where
  settings := rfl
  strong := strong_plainHost (by decide +kernel)
  answers _ hl := by
    obtain ⟨c, -, ha⟩ := hl
    cases ha

/-- The redefinition promises nothing, because the class of the only shadow has moved. -/
theorem redefines_reslottedWorld :
    plainHost.Redefines (· = .shadow (.ref 2)) shadowedWorld reslottedWorld where
  settings := by
    have hslot := shadowedWorld.cache_modifyObject 0
    exact congrArg Cache.settings ((World.cache_modifyObject _ 1 Object.bumped).trans (hslot _))
  strong := strong_plainHost (by decide +kernel)
  answers := by
    rintro l x cls rfl - - hx hcls - - hgen
    have hone : (((Lookup.shadow (.ref 2)).protocol shadowedWorld.cache).run
        (plainHost.view shadowedWorld)).toOption.bind (fun r => r.toOption.bind
          (Lookup.shadow (.ref 2)).governor?) = some 1 := by decide +kernel
    rw [hx] at hone
    cases hcls.symm.trans hone
    exact absurd hgen (by decide +kernel)

theorem course_reslottedWorld : Course plainHost (· = .shadow (.ref 2)) {} 0 reslottedWorld
    (holding (Lookup.shadow (.ref 2)).owned + (holding [.payload 0] + holding [.cell 1])) := by
  have hrun : (Lookup.shadow (.ref 2)).run plainHost pointWorld = .ok (.ok 0, shadowedWorld) :=
    Build.eq_of_answer? (by decide +kernel)
  have hch := change_reslottedWorld.frame
    (holding [.payload 0] + (holding (Lookup.shadow (.ref 2)).owned + holding [.cell 1]))
  rw [zero_add] at hch
  rw [add_left_comm]
  exact .redefine (.lookup (.redefine .start change_pointWorld (redefines_pointWorld _)) rfl hrun)
    hch redefines_reslottedWorld

/-- What the theorem says of this lookup. -/
theorem lookup_transparent_reslottedWorld :
    (Lookup.shadow (.ref 2)).answer plainHost reslottedWorld =
      (Lookup.shadow (.ref 2)).freshAnswer plainHost reslottedWorld :=
  lookup_transparent consistent_plainHost (registered_scriptedHost _ : plainHost.Registered).orderly
    (strong_plainHost (by decide +kernel)) (fun _ => rfl) World.covers_empty
    course_reslottedWorld rfl

end MetaCache
