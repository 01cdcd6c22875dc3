import MetaCache.Descriptor.Compile
import MetaCache.Proofs.Compile.Outcomes
import MetaCache.Proofs.Shortcut.Runs
/-!
# Compilations abreast

A compilation asks the same of its metaobject in both runs, and is answered the same. Where the
default is code that the classifier recognises, one run gives the code back and keeps the kind of
container, and the other one keeps the code. Nothing else tells the two apart, be it that the
compilation fails.

* `Host.Neutral`: a host whose code makes no difference between the two runs.
* `Host.Neutral.askOne`, `Host.Neutral.askFlag`: queries.
* `Host.Neutral.compile`: compilations.
-/

namespace MetaCache

open Build (Abreast Alike Done DoneAlike)

variable {κ : Classifier} {K : CellId → Prop} {G : Generators} {host : Host} {w v : World}
  {P f g : Holding}

/-- The code of the host does the same in both runs: it answers the same, gives back no more than it
has taken, lets generators stay what they are and keeps a share of each, and of what is kept for
good. This concerns the methods of the host, and all of its code that is not recognised. Whoever
calls it hands in what is there. -/
structure Host.Neutral (host : Host) (κ : Classifier) : Prop where
  callMethod : ∀ {K : CellId → Prop} {G : Generators} {P f g : Holding} {w v : World} (u : Value)
    (method : String), (∀ o ∈ u.owned, w.store.present o) → World.Abreast κ K G P f g w v →
    DoneAlike κ K G (fun as => holding (ownedByAll as)) f g
      (Build.ofHost (host.callMethod u method) w) (Build.ofHost (host.callMethod u method) v)
  callCode : ∀ {K : CellId → Prop} {G : Generators} {P f g : Holding} {w v : World} {c : CellId}
    {a : Code} (args : List Value), w.store.code? (.ref c) = some a → κ a = none →
    (∀ o ∈ ownedByAll args, w.store.present o) → World.Abreast κ K G P f g w v →
    DoneAlike κ K G (fun a => holding a.owned) f g
      (Build.ofHost (host.callCode c args) w) (Build.ofHost (host.callCode c args) v)

namespace Host.Neutral

variable (hh : host.Neutral κ)

include hh

/-! ## Queries -/

/-- One value is asked of something that is there. -/
theorem done_askOne {u : Value} (method : String) (hu : ∀ o ∈ u.owned, w.store.present o)
    (hw : World.Abreast κ K G P f g w v) :
    DoneAlike κ K G (fun a => holding a.owned) f g
      (host.askOne u method w) (host.askOne u method v) := by
  refine Done.bind (hh.callMethod u method hu hw) fun H _ reply _ hreply => ?_
  obtain rfl := hreply
  split
  · rw [ownedByAll_singleton]
    exact .withStore fun hs => hs.upgrade
  · exact .failReleasing rfl

variable {attr : CellId} (hattr : K attr)

include hattr

theorem askList (method : String) :
    Alike κ K G 0 (fun vs => holding (ownedByAll vs)) (host.askList (.ref attr) method)
      (host.askList (.ref attr) method) := by
  intro P f g w v hw
  rw [zero_add, zero_add] at hw
  exact hh.callMethod _ method (hw.present_given fun _ h => Value.ref.inj h ▸ hattr) hw

theorem askOne (method : String) :
    Alike κ K G 0 (fun a => holding a.owned) (host.askOne (.ref attr) method)
      (host.askOne (.ref attr) method) := by
  intro P f g w v hw
  rw [zero_add, zero_add] at hw
  exact hh.done_askOne method (hw.present_given fun _ h => Value.ref.inj h ▸ hattr) hw

theorem askFlag (method : String) :
    Alike κ K G 0 (fun _ => 0) (host.askFlag (.ref attr) method)
      (host.askFlag (.ref attr) method) := by
  refine (hh.askOne hattr method).andThen fun H _ a => ?_
  refine .readStore_andThen (fun hs => hs.isTrue_eq a) fun answer => ?_
  exact (Abreast.releaseAll a.owned).andThen fun _ _ _ => .pure rfl rfl rfl

/-! ## Attributes -/

theorem readSlot :
    Alike κ K G 0 (fun k => holding k.owned) (Descriptor.readSlot host (.ref attr))
      (Descriptor.readSlot host (.ref attr)) := by
  refine (hh.askList hattr _).andThen fun H _ reply => ?_
  split
  · rename_i a
    rw [ownedByAll_singleton]
    cases ha : a.text? with
    | some name =>
      rw [Value.owned_of_text? ha]
      exact .key name 0 0
    | none => exact .failMismatch _ _
  · exact .failReleasing rfl

theorem readInitArg :
    Alike κ K G 0 (fun k => holding (ownedByKey? k)) (Descriptor.readInitArg host (.ref attr))
      (Descriptor.readInitArg host (.ref attr)) := by
  refine (hh.askFlag hattr _).andThen fun H _ has => ?_
  cases has with
  | false => exact .pure rfl rfl rfl
  | true =>
    refine (hh.askOne hattr _).andThen fun H _ a => ?_
    refine .readStore_andThen (fun hs => hs.isDefined_eq a) fun isDefined => ?_
    cases isDefined with
    | true =>
      cases ha : a.text? with
      | some name =>
        rw [Value.owned_of_text? ha]
        exact (Abreast.key name 0 0).andThen fun _ _ k => .pure rfl (add_zero _) (add_zero _)
      | none => exact .failMismatch _ _
    | false =>
      exact (Abreast.releaseAll a.owned).andThen fun _ _ _ => .pure rfl rfl rfl

omit hh hattr in
/-- What is captured as a default, or kept in place of it. -/
theorem captureDefault (a : Value) :
    Abreast κ K G (holding a.owned) (holding a.owned) DefaultStrategy.Parallel
      (fun d => holding d.owned) (fun d => holding d.owned) (Descriptor.captureDefault a)
      (Descriptor.captureDefault a) := by
  cases a with
  | ref c =>
    refine .readStore_bind fun {s t} hs => ?_
    cases hs.callee (.ref c) with
    | none hsc htc =>
      rw [hsc, htc]
      exact .failMismatch _ _
    | unrecognised hsc htc hκ =>
      rw [hsc, htc]
      refine .get_bind fun hw => ?_
      rw [hw.classifier, hw.cache, hκ]
      exact .pure (.same _) rfl rfl
    | @recognised _ a b k hc ha hb hka hkb =>
      rw [Store.code?_ref, Store.code?_ref, ha, hb]
      refine .get_bind fun hw => ?_
      rw [hw.classifier, hw.cache]
      simp only [hka, Classifier.never]
      have hsome : (G c).isSome := Option.isSome_of_eq_some hc
      have hleft : Abreast κ K G (holding [.cell c] + 0) (holding [.cell c])
          DefaultStrategy.Parallel (fun d => holding d.owned) (fun d => holding d.owned)
          ((Action.release [.cell c] : Build Unit) >>= fun _ => Pure.pure (.container k))
          (Pure.pure (.value (.ref c))) :=
        .release_left hsome fun H hG => .pure (.generator (hG c k hc)) rfl rfl
      exact hleft
  | _ => exact .pure (.same _) rfl rfl

theorem readDefault :
    Abreast κ K G 0 0 DefaultStrategy.Parallel (fun d => holding d.owned) (fun d => holding d.owned)
      (Descriptor.readDefault host (.ref attr)) (Descriptor.readDefault host (.ref attr)) := by
  refine (hh.askFlag hattr _).andThen fun H _ has => ?_
  cases has with
  | true => exact (hh.askOne hattr _).andThen fun _ _ a => captureDefault a
  | false =>
    refine (hh.askFlag hattr _).andThen fun H _ has => ?_
    cases has with
    | false => exact .pure (.same _) rfl rfl
    | true =>
      refine (hh.askOne hattr _).andThen fun H _ a => ?_
      cases ha : a.text? with
      | some name =>
        rw [Value.owned_of_text? ha]
        exact .pure (.same _) rfl rfl
      | none => exact .failMismatch _ _

theorem readInitializer :
    Alike κ K G 0 (fun c => holding (ownedByCell? c)) (Descriptor.readInitializer host (.ref attr))
      (Descriptor.readInitializer host (.ref attr)) := by
  refine (hh.askFlag hattr _).andThen fun H _ has => ?_
  cases has with
  | false => exact .pure rfl rfl rfl
  | true =>
    refine (hh.askOne hattr _).andThen fun H _ a => ?_
    refine .readStore_bind fun {s t} hs => ?_
    cases hs.callee a with
    | none hsc htc =>
      rw [hsc, htc]
      cases a <;> exact .failMismatch _ _
    | recognised _ ha hb =>
      rw [Store.code?_ref, Store.code?_ref, ha, hb]
      exact .pure rfl rfl rfl
    | unrecognised hsc htc =>
      rw [hsc, htc]
      exact .pure rfl rfl rfl

omit hattr in
/-- Compiling an attribute comes to descriptors that differ in the default at most. -/
theorem compile {attr : Value} (hattr : ∀ c, attr = .ref c → K c) :
    Abreast κ K G 0 0 Descriptor.Parallel (fun d => holding d.owned) (fun d => holding d.owned)
      (Descriptor.compile host attr) (Descriptor.compile host attr) := by
  cases attr with
  | ref origin =>
    replace hattr := hattr origin rfl
    refine (hh.readSlot hattr).andThen fun _ _ slot => ?_
    refine (Abreast.guarding (hh.readInitArg hattr) (.refl _)).andThen
      fun _ _ initArg => ?_
    rw [← holding_append]
    refine (Abreast.guarding (hh.readDefault hattr) (.refl _)).bind
      fun _ _ d e hde => ?_
    rw [← holding_append, ← holding_append, ← List.append_assoc, ← List.append_assoc]
    refine (Abreast.guarding (hh.readInitializer hattr)
      ((hde.owned.append (.refl _)).append (.refl _))).andThen fun _ hG initializer => ?_
    refine (Abreast.retain fun _ o ho => by rw [List.mem_singleton.1 ho]; rfl).andThen
      fun _ hG' _ => ?_
    refine (Abreast.note _ _ _ _).andThen fun _ hG'' _ => ?_
    -- a failing compilation gives its parts back in the opposite order of a descriptor's
    have hparts (default : DefaultStrategy) : holding [.weakCell origin] +
        (holding (ownedByCell? initializer) +
          holding (default.owned ++ ownedByKey? initArg ++ slot.owned)) =
        holding (Descriptor.owned { slot, initArg, default, initializer, origin }) := by
      funext x
      simp only [Descriptor.owned, holding_append, Pi.add_apply]
      omega
    have hdefault := hde.mono (hG.trans (hG'.trans hG''))
    exact .pure ⟨rfl, rfl, hdefault, rfl, rfl⟩ (hparts d) (hparts e)
  | _ => exact .readStore_andThen (fun hs => hs.valueText_eq _) fun _ => .throw rfl

end Host.Neutral

end MetaCache
