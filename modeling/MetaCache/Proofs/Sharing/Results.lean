import MetaCache.Proofs.Sharing.Evaluation
import MetaCache.Script.Result
/-!
# Results in twin worlds

A step shows its result before it keeps it in a variable or gives it back. In twin worlds it shows
the same, and keeps the same up to keys.

* `agree_look`: what the world looks like under a view.
* `blind_keepValue`, `agree_keepKey`, `blind_keepPayload`, …: results that a variable may keep.
* `agree_answering`, `agree_answeringStore`, `blind_answeringHost`: operations that may fail.
-/

namespace MetaCache.Script

open MetaCache.Action (Agree Blind)

variable {g : Namings} {α β γ : Type}

theorem agree_look {f f' : World → α} (h : ∀ w v, w.Twin g v → f w = f' v) :
    Agree g Equal (look f) (look f') :=
  .get_bind fun w v hw => .pure (h w v hw)

theorem blind_look {f : World → α} (h : ∀ {g w v}, World.Twin g w v → f w = f v) : Blind (look f) :=
  fun _ => agree_look fun _ _ hw => h hw

theorem blind_keep (name : Option String) (b : Binding) (h : ∀ g, b.Twin g b) :
    Blind (Action.keep name b) :=
  fun g => Action.agree_keep name (h g)

/-! ## Results that a variable may keep -/

section

variable (name : Option String)

theorem blind_keepValue (v : Value) : Blind (keepValue name v) := by
  refine (blind_look fun hw => hw.view_eq v).bind fun view => ?_
  exact (blind_keep name (.value v) fun _ => .value v).bind fun _ => .pure _

theorem blind_keepDump (v : Value) : Blind (keepDump name v) := by
  refine (blind_look fun hw => hw.dump_eq 1 v).bind fun view => ?_
  exact (blind_keep name (.value v) fun _ => .value v).bind fun _ => .pure _

theorem blind_keepSlotValue (v : Option Value) : Blind (keepSlotValue name v) := by
  cases v with
  | none => exact .pure _
  | some v =>
    refine (blind_look fun hw => hw.view_eq v).bind fun view => ?_
    exact (blind_keep name (.value v) fun _ => .value v).bind fun _ => .pure _

theorem agree_keepKey {k l : Key} (h : k.Twin g l) :
    Agree g Equal (keepKey name k) (keepKey name l) := by
  refine (Action.agree_keep name (.key h)).bind fun _ _ _ _ _ => .pure ?_
  rw [h.view_eq]
  rfl

theorem blind_keepRecord (r : Option Record) : Blind (keepRecord name r) := by
  cases r with
  | none => exact .pure _
  | some r =>
    refine (blind_look fun hw => hw.viewOwnRecord_eq r).bind fun view => ?_
    exact (blind_keep name (.record r) fun _ => .record r).bind fun _ => .pure _

theorem blind_keepPayload (p : PayloadId) : Blind (keepPayload name p) := by
  refine fun g => (Action.agree_payload p).bind fun g' _ a b hab => ?_
  cases hab with
  | tag _ => exact .refuse _
  | descriptor hd =>
    refine (agree_look fun w v hw => hw.viewDescriptor_eq hd).bind fun g₁ _ view _ hview => ?_
    subst hview
    exact (Action.agree_keep name (.descriptor p)).bind fun _ _ _ _ _ => .pure rfl
  | shadow hs =>
    refine (Action.agree_keep name (.shadow p)).bind fun _ _ _ _ _ => .pure ?_
    rw [hs.view_eq]
    rfl

theorem agree_keepCompiled {p q : Payload} (h : p.Twin g q) :
    Agree g Equal (keepCompiled name p) (keepCompiled name q) := by
  have hnew : Agree g Equal (Action.withStore (·.newPayload p))
      (Action.withStore (·.newPayload q)) :=
    .withStore fun s t hs => hs.newPayload h
  refine hnew.bind fun g' _ i _ hi => ?_
  subst hi
  exact blind_keepPayload name i g'

end

/-! ## Operations that may fail -/

theorem blind_failed (e : Error) : Blind (failed e) := by
  refine (blind_look fun hw => hw.viewError_eq e).bind fun answer => ?_
  exact (Blind.release fun _ => Error.twins_owned e).bind fun _ => .pure _

theorem blind_hostFailed (e : HostError) : Blind (hostFailed e) := by
  refine (blind_look fun hw => hw.viewHostError_eq e).bind fun answer => ?_
  exact (Blind.release fun _ => Owned.twins_value e.thrown).bind fun _ => .pure _

theorem agree_answering {R : Namings → α → β → Prop} {x : Build α} {y : Build β}
    {k : α → Action Answer} {k' : β → Action Answer} (hx : Trial.Agree g R x y)
    (hk : ∀ g', g ≤ g' → ∀ a b, R g' a b → Agree g' Equal (k a) (k' b)) :
    Agree g Equal (answering x k) (answering y k') := by
  refine Action.Relates.bind hx fun g' hg r q hrq => ?_
  cases hrq with
  | ok hab => exact hk g' hg _ _ hab
  | error e => exact blind_failed e g'

theorem blind_answering {x : Build α} {k : α → Action Answer} (hx : Trial.Blind x)
    (hk : ∀ a, Blind (k a)) : Blind (answering x k) :=
  fun g => agree_answering (hx g) fun g' _ a _ hab => hab ▸ hk a g'

theorem blind_answeringHost {x : ExceptT HostError Action α} {k : α → Action Answer}
    (hx : Trial.Blind x) (hk : ∀ a, Blind (k a)) : Blind (answeringHost x k) := by
  refine fun g => Action.Relates.bind (hx g) fun g' _ r q hrq => ?_
  cases hrq with
  | ok hab => exact hab ▸ hk _ g'
  | error e => exact blind_hostFailed e g'

theorem agree_answeringStore {f f' : Store → Except Error α × Store} {k : α → Action Answer}
    (hf : ∀ s t, s.Twin g t → (f s).1 = (f' t).1 ∧ (f s).2.Twin g (f' t).2)
    (hk : ∀ a, Blind (k a)) : Agree g Equal (answeringStore f k) (answeringStore f' k) := by
  have hdone : Agree g Equal (Action.withStore f) (Action.withStore f') := .withStore hf
  refine hdone.bind fun g' _ r _ hr => ?_
  subst hr
  cases r with
  | ok a => exact hk a g'
  | error e => exact blind_failed e g'

end MetaCache.Script
