import MetaCache.Proofs.Sharing.Objects
import MetaCache.Script.View
/-!
# Variables and views in twin worlds

The same variables hold the same things up to keys, and whatever a script is shown of the things of
the domain looks the same.

* `World.Twin.find?`, `World.Twin.bind`, `World.Twin.unbind`: variables.
* `Action.agree_binding`, `Action.agree_keyIn`, …: what is in them.
* `World.Twin.view_eq`, `World.Twin.dump_eq`, `World.Twin.viewDescriptor_eq`, …: views.
-/

namespace MetaCache

open Script

variable {g : Namings}

/-! ## Variables -/

/-- The same variables, which hold the same up to keys. -/
def Script.Vars.Twin (g : Namings) : List (String × Binding) → List (String × Binding) → Prop :=
  List.Forall₂ fun a b => a.1 = b.1 ∧ Binding.Twin g a.2 b.2

namespace Script

variable {as bs : List (String × Binding)}

theorem Vars.Twin.lookup (h : Vars.Twin g as bs) (name : String) :
    Option.Rel (Binding.Twin g) (as.lookup name) (bs.lookup name) := by
  induction h with
  | nil => exact .none
  | @cons a b _ _ hab _ ih =>
    obtain ⟨n, x⟩ := a
    obtain ⟨_, y⟩ := b
    obtain ⟨rfl, hxy⟩ := hab
    rw [List.lookup_cons, List.lookup_cons]
    dsimp only
    cases name == n with
    | true => exact .some hxy
    | false => exact ih

theorem Vars.Twin.insert (h : Vars.Twin g as bs) (name : String) {x y : Binding}
    (hxy : x.Twin g y) :
    Vars.Twin g (insertBinding name x as) (insertBinding name y bs) := by
  induction h with
  | nil => exact .cons ⟨rfl, hxy⟩ .nil
  | @cons a b _ _ hab hrest ih =>
    obtain ⟨n, x'⟩ := a
    obtain ⟨_, y'⟩ := b
    obtain ⟨rfl, hxy'⟩ := hab
    rw [insertBinding, insertBinding]
    split
    · exact .cons ⟨rfl, hxy⟩ hrest
    · split
      · exact .cons ⟨rfl, hxy⟩ (.cons ⟨rfl, hxy'⟩ hrest)
      · exact .cons ⟨rfl, hxy'⟩ ih

theorem Vars.Twin.erase (h : Vars.Twin g as bs) (name : String) :
    Vars.Twin g (as.filter fun v => v.1 != name) (bs.filter fun v => v.1 != name) := by
  induction h with
  | nil => exact .nil
  | cons hab _ ih =>
    rw [List.filter_cons, List.filter_cons, hab.1]
    split
    · exact .cons hab ih
    · exact ih

/-- The variables that hold a strong reference to a cell are the same. -/
theorem Vars.Twin.holders_eq (h : Vars.Twin g as bs) (c : CellId) :
    (as.filter fun v => v.2.holds c).map Prod.fst =
      (bs.filter fun v => v.2.holds c).map Prod.fst := by
  induction h with
  | nil => rfl
  | @cons a b _ _ hab _ ih =>
    have hholds : a.2.holds c = b.2.holds c := by
      obtain ⟨n, x⟩ := a
      obtain ⟨m, y⟩ := b
      cases hab.2 <;> rfl
    rw [List.filter_cons, List.filter_cons, hholds]
    split
    · rw [List.map_cons, List.map_cons, hab.1, ih]
    · exact ih

end Script

namespace World.Twin

variable {w v : World} (h : w.Twin g v)

include h

theorem find? (name : String) :
    Option.Rel (Binding.Twin g) (w.session.find? name) (v.session.find? name) :=
  Vars.Twin.lookup h.session.vars name

theorem erase (name : String) : World.Twin g { w with session := w.session.erase name }
    { v with session := v.session.erase name } :=
  { h with session := { h.session with vars := Vars.Twin.erase h.session.vars name } }

theorem bind (name : String) {b c : Binding} (hbc : b.Twin g c) :
    (w.bind name b).Twin g (v.bind name c) := by
  have hput : World.Twin g { w with session := w.session.put name b }
      { v with session := v.session.put name c } :=
    { h with session := { h.session with vars := Vars.Twin.insert h.session.vars name hbc } }
  refine hput.release ?_
  rcases rel_cases (h.find? name) with ⟨hw, hv⟩ | ⟨_, _, hw, hv, hold⟩
  · rw [hw, hv]
    exact .nil
  · rw [hw, hv]
    exact hold.owned

theorem unbind (name : String) :
    (w.unbind name).1 = (v.unbind name).1 ∧ (w.unbind name).2.Twin g (v.unbind name).2 := by
  rw [World.unbind, World.unbind]
  rcases rel_cases (h.find? name) with ⟨hw, hv⟩ | ⟨_, _, hw, hv, hbc⟩
  · rw [hw, hv]
    exact ⟨rfl, h⟩
  · rw [hw, hv]
    exact ⟨rfl, (h.erase name).release hbc.owned⟩

end World.Twin

namespace Action

theorem agree_binding (name : String) : Agree g Binding.Twin (binding name) (binding name) := by
  refine .get_bind fun w v h => ?_
  rcases rel_cases (h.find? name) with ⟨hw, hv⟩ | ⟨_, _, hw, hv, hbc⟩
  · rw [hw, hv]
    exact .refuse _
  · rw [hw, hv]
    exact .pure hbc

theorem blind_valueIn (name : String) : Blind (valueIn name) := by
  refine fun g => (agree_binding name).bind fun g' _ b c hbc => ?_
  cases hbc with
  | value v => exact .pure rfl
  | _ => exact .refuse _

theorem agree_keyIn (name : String) : Agree g Key.Twin (keyIn name) (keyIn name) := by
  refine (agree_binding name).bind fun g' _ b c hbc => ?_
  cases hbc with
  | key hk => exact .pure hk
  | _ => exact .refuse _

theorem agree_payload (p : PayloadId) : Agree g Payload.Twin (payload p) (payload p) := by
  refine .readStore_bind fun s t h => ?_
  rcases rel_cases (h.payload? p) with ⟨hs, ht⟩ | ⟨_, _, hs, ht, hpq⟩
  · rw [hs, ht]
    exact .refuse _
  · rw [hs, ht]
    exact .pure hpq

theorem agree_descriptorIn (name : String) :
    Agree g (fun g a b => a.1 = b.1 ∧ a.2.Twin g b.2) (descriptorIn name) (descriptorIn name) := by
  refine (agree_binding name).bind fun g' _ b c hbc => ?_
  cases hbc with
  | descriptor p =>
    refine (agree_payload p).bind fun g' _ p q hpq => ?_
    cases hpq with
    | descriptor hd => exact .pure ⟨rfl, hd⟩
    | _ => exact .refuse _
  | _ => exact .refuse _

theorem agree_shadowIn (name : String) :
    Agree g (fun g a b => a.1 = b.1 ∧ a.2.Twin g b.2) (shadowIn name) (shadowIn name) := by
  refine (agree_binding name).bind fun g' _ b c hbc => ?_
  cases hbc with
  | shadow p =>
    refine (agree_payload p).bind fun g' _ p q hpq => ?_
    cases hpq with
    | shadow hs => exact .pure ⟨rfl, hs⟩
    | _ => exact .refuse _
  | _ => exact .refuse _

theorem agree_keep (name : Option String) {b c : Binding} (h : b.Twin g c) :
    Agree g Equal (keep name b) (keep name c) := by
  cases name with
  | some n => exact .modify fun w v hw => hw.bind n h
  | none => exact .release h.owned

end Action

/-! ## Views -/

theorem Shadow.Twin.view_eq {s t : Shadow} (h : s.Twin g t) : s.view = t.view := by
  rw [Shadow.view, Shadow.view, h.className, h.generation,
    map_eq_of_forall₂ h.descriptors fun _ _ h => h.slot.text]

theorem Payload.Twin.view_eq {p q : Payload} (h : p.Twin g q) :
    World.viewPayload p = World.viewPayload q := by
  cases h with
  | tag _ => rfl
  | descriptor hd => exact congrArg PayloadView.descriptor hd.slot.text
  | shadow hs => exact congrArg PayloadView.shadow hs.view_eq

theorem Descriptor.Twin.flags_eq {d e : Descriptor} (h : d.Twin g e) : d.flags = e.flags := by
  have hinitArg : d.initArg.isSome = e.initArg.isSome := by
    rcases rel_cases h.initArg with ⟨hd, he⟩ | ⟨_, _, hd, he, -⟩ <;> rw [hd, he]
    rfl
  rw [Descriptor.flags, Descriptor.flags, hinitArg, h.initializer, h.default]

namespace World.Twin

variable {w v : World} (h : w.Twin g v)

include h

theorem viewCell?_eq (c : CellId) : w.viewCell? c = v.viewCell? c := by
  have hholders : w.holders c = v.holders c := Vars.Twin.holders_eq h.session.vars c
  rw [World.viewCell?, World.viewCell?, hholders]
  refine map_eq_of_rel (h.store.referent? c) fun r q hrq => ?_
  cases hrq <;> rfl

theorem viewCell_eq (c : CellId) : w.viewCell c = v.viewCell c := by
  rw [World.viewCell, World.viewCell, h.viewCell?_eq]

theorem view_eq (a : Value) : w.view a = v.view a := by
  cases a with
  | ref c => rw [World.view, World.view, h.viewCell_eq]
  | weak c => rw [World.view, World.view, h.viewCell?_eq]
  | _ => rfl

theorem view_funext : w.view = v.view := funext h.view_eq

theorem dump_eq (depth : Nat) (a : Value) : w.dump depth a = v.dump depth a := by
  induction depth generalizing a with
  | zero => cases a <;> exact congrArg Dump.plain (h.view_eq _)
  | succ depth ih =>
    cases a with
    | ref c =>
      have hdump : w.dump depth = v.dump depth := funext ih
      rw [World.dump, World.dump]
      rcases rel_cases (h.store.referent? c) with ⟨hw, hv⟩ | ⟨r, q, hw, hv, hrq⟩
      · rw [hw, hv]
        exact congrArg Dump.plain (h.view_eq _)
      · rw [hw, hv]
        cases hrq with
        | scalar a => exact congrArg Dump.scalar (ih a)
        | array as => exact congrArg Dump.array (by rw [hdump])
        | hash hes =>
          refine congrArg Dump.hash (map_eq_of_forall₂ hes fun e f hef => ?_)
          rw [hef.1.text, hef.2, ih]
        | code _ => exact congrArg Dump.plain (h.view_eq _)
        | object o =>
          cases o with
          | classMeta name generation attrs =>
            exact congrArg (Dump.classMeta name generation) (by rw [h.view_funext])
          | _ => exact congrArg Dump.plain (h.view_eq _)
    | _ => exact congrArg Dump.plain (h.view_eq _)

theorem inspect_eq (a : Value) : w.inspect a = v.inspect a := by
  have hkind : (a.strong?.bind fun c => (w.store.referent? c).map Referent.kindName) =
      a.strong?.bind fun c => (v.store.referent? c).map Referent.kindName := by
    refine congrArg _ (funext fun c => map_eq_of_rel (h.store.referent? c) fun r q hrq => ?_)
    cases hrq <;> rfl
  cases a <;> simp only [World.inspect, hkind, h.view_eq, h.store.isDefined_eq, h.store.isTrue_eq,
    h.store.code?_eq, h.store.valueText_eq, h.store.alive_eq]

theorem viewDescriptor_eq {d e : Descriptor} (hd : d.Twin g e) :
    w.viewDescriptor d = v.viewDescriptor e := by
  have hinitArg : d.initArg.map Key.view = e.initArg.map Key.view :=
    map_eq_of_rel hd.initArg fun _ _ hk => hk.view_eq
  have hcell : w.viewCell = v.viewCell := funext h.viewCell_eq
  rw [World.viewDescriptor, World.viewDescriptor, Descriptor.defaultValue?,
    Descriptor.defaultValue?, Descriptor.builder?, Descriptor.builder?, Descriptor.container?,
    Descriptor.container?, hd.slot.view_eq, hinitArg, hd.default, hd.initializer, hd.origin,
    hd.flags_eq, h.view_funext, hcell, h.viewCell?_eq]

theorem viewRecord_eq (owners : Nat) (r : Record) :
    w.viewRecord owners r = v.viewRecord owners r := by
  rw [World.viewRecord, World.viewRecord, h.viewCell?_eq,
    map_eq_of_rel (h.store.payload? r.payload) fun _ _ hpq => hpq.view_eq]

theorem viewOwnRecord_eq (r : Record) : w.viewOwnRecord r = v.viewOwnRecord r := by
  rw [World.viewOwnRecord, World.viewOwnRecord, h.store.payloadCount_eq, h.viewRecord_eq]

theorem viewCopy_eq (r : Record) : w.viewCopy r = v.viewCopy r := by
  rw [World.viewCopy, World.viewCopy, h.store.payloadCount_eq, h.viewRecord_eq]

theorem viewShadowInfo_eq {s t : Shadow} (hs : s.Twin g t) :
    w.viewShadowInfo s = v.viewShadowInfo t := by
  rw [World.viewShadowInfo, World.viewShadowInfo, hs.className, hs.cls, hs.layout, hs.generation,
    h.viewCell_eq, map_eq_of_forall₂ hs.descriptors fun _ _ hd => h.viewDescriptor_eq hd]

theorem viewError_eq (e : Error) : w.viewError e = v.viewError e := by
  cases e with
  | host e => exact congrArg (Answer.failure (.host e)) (h.view_eq e.thrown)
  | _ => rfl

theorem viewHostError_eq (e : HostError) : w.viewHostError e = v.viewHostError e := by
  rw [World.viewHostError, World.viewHostError, h.view_eq]

end World.Twin

/-! ## Structures on one line -/

namespace Store.Twin

variable {s t : Store} (h : s.Twin g t)

include h

theorem descriptor_shown_eq {g' : Namings} {d e : Descriptor} (hd : d.Twin g' e) :
    d.shown s = e.shown t := by
  have hinitArg : d.initArg.map Key.shown = e.initArg.map Key.shown :=
    map_eq_of_rel hd.initArg fun _ _ hk => hk.shown_eq
  have hdefault : d.default.shown s = d.default.shown t := by
    cases d.default with
    | value a => exact congrArg (Text.wrapped "Value") (h.valueText_eq a)
    | _ => rfl
  have hcell : s.cellText = t.cellText := funext h.cellText_eq
  rw [Descriptor.shown, Descriptor.shown, hd.slot.shown_eq, hinitArg, hdefault, hd.default,
    hd.initializer, hd.origin, hcell, h.weakText_eq]

theorem shadow_shown_eq {g' : Namings} {a b : Shadow} (hab : a.Twin g' b) :
    a.shown s = b.shown t := by
  rw [Shadow.shown, Shadow.shown, hab.cls, hab.className, hab.layout, hab.generation, h.cellText_eq,
    map_eq_of_forall₂ hab.descriptors fun _ _ hd => h.descriptor_shown_eq hd]

end Store.Twin

end MetaCache
