import MetaCache.Proofs.Sharing.Names
import MetaCache.Proofs.Sharing.Views
import MetaCache.Script.Responder
/-!
# Expressions and hosts in twin worlds

The value of an expression is the same in twin worlds. A new hash is the exception that has to be
looked into, as its entries are put under new keys. The host of a script, which answers from what is
there and through host code, does not see how names are shared either, if its host code does not.

* `blind_eval`, `blind_evalAll`: expressions, by recursion on them.
* `agree_withValue`, `blind_withValue`: values that live as long as a computation.
* `blind_scriptedHost`: the host of a script.
-/

namespace MetaCache.Script

open MetaCache.Action (Agree Blind)

variable {g : Namings} {α β : Type}

/-! ## Parts of expressions -/

theorem blind_copy (v : Value) : Blind (copy v) :=
  (Blind.retain fun _ => Owned.twins_value v).bind fun _ => .pure v

theorem agree_allocate {r q : Referent} (h : r.Twin g q) :
    Agree g Equal (allocate r) (allocate q) :=
  .withStore fun _ _ hs =>
    have hnew := hs.newCell h
    ⟨congrArg Value.ref hnew.1, hnew.2⟩

theorem blind_respond (method : String) (b : Behavior) (bs : Behaviors) :
    Blind (respond method b bs) :=
  (Blind.release fun _ => bs.twins_ownedBy method).bind fun _ => .pure _

theorem blind_announce (has what : AttributeQuery) (v : Option Value) (bs : Behaviors) :
    Blind (announce has what v bs) := by
  cases v with
  | none => exact .pure bs
  | some v => exact (blind_respond _ _ _).bind fun _ => blind_respond _ _ _

theorem blind_object (o : Object) : Blind (allocate (.object o)) :=
  fun _ => agree_allocate (.object o)

/-- An attribute metaobject whose parts have been announced. -/
theorem blind_announced {initArg default initializer : Action (Option Value)}
    {answers : Behaviors → Action Behaviors} (hi : Blind initArg) (hd : Blind default)
    (hn : Blind initializer) (ha : ∀ bs, Blind (answers bs)) (builder : Option Value)
    (bs : Behaviors) : Blind (do
      let bs ← announce .hasInitArg .initArg (← initArg) bs
      let bs ← announce .hasDefault .default (← default) bs
      let bs ← announce .hasBuilder .builder builder bs
      let bs ← announce .hasInitializer .initializer (← initializer) bs
      allocate (.object (.attributeMeta (← answers bs)))) := by
  refine hi.bind fun _ => (blind_announce _ _ _ _).bind fun bs => ?_
  refine hd.bind fun _ => (blind_announce _ _ _ _).bind fun bs => ?_
  refine (blind_announce _ _ _ _).bind fun bs => ?_
  refine hn.bind fun _ => (blind_announce _ _ _ _).bind fun bs => ?_
  exact (ha bs).bind fun _ => blind_object _

/-! ## Expressions -/

mutual

theorem blind_eval (args : List Value) : ∀ e : Expr, Blind (e.eval args)
  | .undef | .int _ | .num _ | .str _ | .repeated _ _ | .argCount => by
    rw [Expr.eval]
    exact .pure _
  | .var name => by
    rw [Expr.eval]
    exact (Action.blind_valueIn name).bind blind_copy
  | .take name => by
    rw [Expr.eval]
    refine (Action.blind_valueIn name).bind fun v => ?_
    exact (Blind.modify fun hw => hw.erase name).bind fun _ => .pure v
  | .weak e => by
    rw [Expr.eval]
    refine (blind_eval args e).bind fun v => ?_
    cases v with
    | ref c =>
      refine (Blind.retain fun _ => .cons (.weakCell c) .nil).bind fun _ => ?_
      exact (Blind.release fun _ => .cons (.cell c) .nil).bind fun _ => .pure _
    | _ => exact .refuse _
  | .upgraded e => by
    rw [Expr.eval]
    exact (blind_eval args e).bind fun v g => .withStore fun _ _ hs => hs.upgrade v
  | .arg i => by
    rw [Expr.eval]
    exact blind_copy _
  | .classNamed name => by
    rw [Expr.eval]
    refine fun g => .get_bind fun w v hw => ?_
    rw [hw.class?_eq]
    cases v.class? name with
    | some c => exact blind_copy (.ref c) g
    | none => exact .refuse _
  | .hash entries => by
    rw [Expr.eval]
    exact fun g => (agree_evalEntries args entries).bind fun _ _ _ _ hes =>
      agree_allocate (.hash hes)
  | .array items => by
    rw [Expr.eval]
    exact (blind_evalAll args items).bind fun vs _ => agree_allocate (.array vs)
  | .scalar item => by
    rw [Expr.eval]
    exact (blind_eval args item).bind fun v _ => agree_allocate (.scalar v)
  | .code routine => by
    rw [Expr.eval]
    exact fun _ => agree_allocate (.code _)
  | .object className isa => by
    rw [Expr.eval]
    exact blind_object _
  | .attributeMeta slot slots initArg default builder initializer answers => by
    have hannounced (bs : Behaviors) := blind_announced (blind_evalOptional args initArg)
      (blind_evalOptional args default) (blind_evalOptional args initializer)
      (fun bs => blind_evalAnswers args bs answers) (builder.map .str) bs
    cases slots with
    | none =>
      rw [Expr.eval]
      exact hannounced _
    | some names =>
      rw [Expr.eval]
      exact (blind_respond _ _ _).bind hannounced
  | .instanceMeta className answers => by
    rw [Expr.eval]
    exact (blind_evalAnswers args [] answers).bind fun _ => blind_object _

theorem blind_evalAll (args : List Value) : ∀ es : List Expr, Blind (Expr.evalAll args es)
  | [] => by
    rw [Expr.evalAll]
    exact .pure _
  | e :: rest => by
    rw [Expr.evalAll]
    exact (blind_eval args e).bind fun _ => (blind_evalAll args rest).bind fun _ => .pure _

theorem blind_evalOptional (args : List Value) : ∀ e : Option Expr, Blind (evalOptional args e)
  | none => by
    rw [evalOptional]
    exact .pure _
  | some e => by
    rw [evalOptional]
    exact (blind_eval args e).bind fun _ => .pure _

theorem agree_evalEntries (args : List Value) {g : Namings} : ∀ entries : List (String × Expr),
    Agree g Entries.Twin (evalEntries args entries) (evalEntries args entries)
  | [] => by
    rw [evalEntries]
    exact .pure .nil
  | (name, e) :: rest => by
    rw [evalEntries]
    refine (blind_eval args e _).andThen fun _ _ v => ?_
    refine (agree_freshKey name).bind fun _ _ k l hk => ?_
    refine (agree_evalEntries args rest).bind fun _ hg es fs hes => ?_
    exact .pure (.cons ⟨hk.mono hg, rfl⟩ hes)

theorem blind_evalBehavior (args : List Value) : ∀ b : BehaviorExpr, Blind (b.eval args)
  | .reply values => by
    rw [BehaviorExpr.eval]
    exact (blind_evalAll args values).bind fun _ => .pure _
  | .fail _ | .hook _ => by
    rw [BehaviorExpr.eval]
    exact .pure _

theorem blind_evalAnswers (args : List Value) (bs : Behaviors) :
    ∀ answers : List (String × BehaviorExpr), Blind (evalAnswers args bs answers)
  | [] => by
    rw [evalAnswers]
    exact .pure _
  | (method, b) :: rest => by
    rw [evalAnswers]
    refine (blind_evalBehavior args b).bind fun b => ?_
    exact (blind_respond method b bs).bind fun bs => blind_evalAnswers args bs rest

end

/-! ## Values that live as long as a computation -/

section

variable {P : α → β → Prop} (args : List Value)

theorem agree_withValue (e : Expr) {k : Value → Action α} {k' : Value → Action β}
    (hk : ∀ g', g ≤ g' → ∀ v, Agree g' (fun _ => P) (k v) (k' v)) :
    Agree g (fun _ => P) (withValue args e k) (withValue args e k') := by
  refine (blind_eval args e _).andThen fun g₁ h₁ v => ?_
  refine (hk g₁ h₁ v).bind fun g₂ _ a b hab => ?_
  exact (Agree.release (Owned.twins_value v)).bind fun _ _ _ _ _ => .pure hab

theorem blind_withValue (e : Expr) {k : Value → Action α} (hk : ∀ v, Blind (k v)) :
    Blind (withValue args e k) :=
  fun _ => agree_withValue args e fun g' _ v => hk v g'

theorem blind_withValues (es : List Expr) {k : List Value → Action α} (hk : ∀ vs, Blind (k vs)) :
    Blind (withValues args es k) := by
  refine (blind_evalAll args es).bind fun vs => (hk vs).bind fun a => ?_
  exact (Blind.release fun _ => Owned.twins_values vs).bind fun _ => .pure a

theorem blind_withCell (e : Expr) {k : CellId → Action α} (hk : ∀ c, Blind (k c)) :
    Blind (withCell args e k) := by
  refine blind_withValue args e fun v => ?_
  cases v with
  | ref c => exact hk c
  | _ => exact .refuse _

end

/-! ## The host of a script -/

/-- Host code that does not see how names are shared. -/
def Interpreter.Blind (interpret : Interpreter) : Prop :=
  ∀ routine runs args, Trial.Blind (interpret routine runs args)

section

variable {interpret : Interpreter} (hi : interpret.Blind)

include hi

theorem blind_callCode (c : CellId) (args : List Value) :
    Trial.Blind (callCode interpret c args) := by
  refine fun g => .readStore_bind fun s t hs => ?_
  rw [hs.code?_eq]
  split
  · exact .lift (.refuse _)
  · have hcounted (code : Code) : Trial.Blind (Action.onStore (·.setReferent c (.code code)) :
        ExceptT HostError Action Unit) :=
      fun g => .lift (Action.Agree.onStore fun _ _ hs => hs.setReferent c (.code code))
    refine ((hcounted _).bind fun _ => (hi _ _ args).bind fun reply => ?_) g
    cases reply with
    | nil => exact .pure _
    | cons v rest =>
      exact fun g => (Trial.Agree.release (Owned.twins_values rest)).bind fun _ _ _ _ _ => .pure rfl

theorem blind_runBehavior (c : CellId) (method : String) (b : Behavior) :
    Trial.Blind (runBehavior interpret c method b) := by
  cases b with
  | reply vs =>
    exact fun g => (Trial.Agree.retain (Owned.twins_values vs)).bind fun _ _ _ _ _ => .pure rfl
  | fail message => exact .throw _
  | hook routine runs =>
    have hcounted : Trial.Blind (modify (World.setBehavior c method (.hook routine (runs + 1))) :
        ExceptT HostError Action Unit) :=
      .lift (.modify fun hw => hw.setBehavior c method _)
    exact hcounted.bind fun _ => hi routine runs []

omit hi in
theorem blind_classAttributes (name : String) : Trial.Blind (classAttributes name) := by
  refine fun g => .get_bind fun w v hw => ?_
  rw [hw.class?_eq]
  split
  · exact .throw _
  · refine .get_bind fun w v hw => ?_
    rw [hw.objectIn?_eq]
    exact (Trial.Agree.retain (Owned.twins_values _)).bind fun _ _ _ _ _ => .pure rfl

theorem blind_callRegistered (invocant : CellId) (method : String) :
    Trial.Blind (callRegistered interpret invocant method) := by
  refine fun g => .get_bind fun w v hw => ?_
  rw [hw.registry]
  split
  · refine Trial.Agree.readStore_bind fun s t hs => ?_
    rw [hs.cellText_eq]
    exact .throw _
  · rename_i c _
    have hcell (g : Namings) : Owned.Twins g [.cell c] [.cell c] := .cons (.cell c) .nil
    refine (Trial.Agree.retain (hcell g)).bind fun g₁ _ _ _ _ => ?_
    refine ((blind_callCode hi c [.ref invocant] g₁).tryCatch fun g₂ _ e => ?_).bind
      fun g₃ _ a b hab => ?_
    · exact (Trial.Agree.release (hcell g₂)).bind fun _ _ _ _ _ => .throw e
    · exact (Trial.Agree.release (hcell g₃)).bind fun _ _ _ _ _ =>
        .pure (congrArg (fun v => [v]) hab)

theorem blind_callMethod (invocant : Value) (method : String) :
    Trial.Blind (callMethod interpret invocant method) := by
  have hcounted : Trial.Blind (modify World.countCall : ExceptT HostError Action Unit) :=
    .lift (.modify fun hw => hw.countCall)
  refine hcounted.bind fun _ => ?_
  cases invocant with
  | ref c =>
    refine fun g => .get_bind fun w v hw => ?_
    dsimp only
    rw [hw.objectIn?_eq]
    split
    · exact blind_runBehavior hi c method _ g
    · split
      · exact .pure rfl
      · split
        · exact blind_classAttributes _ g
        · exact blind_callRegistered hi c method g
    · exact blind_callRegistered hi c method g
  | _ => exact .throw _

/-- A host whose host code does not see how names are shared does not see it itself. -/
theorem blind_scriptedHost : (scriptedHost interpret).Blind where
  callMethod := blind_callMethod hi
  callCode := blind_callCode hi
  derivesFrom h v name := by
    show (_ : Option Object).any _ = (_ : Option Object).any _
    rw [h.store.object?_eq]
  class? h := h.class?_eq
  generation h := h.generation_eq

end

end MetaCache.Script
