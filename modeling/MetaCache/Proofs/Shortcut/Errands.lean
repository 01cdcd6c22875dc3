import MetaCache.Proofs.Shortcut.Values
/-!
# Errands abreast

Someone compiles attributes, asks for initial values and stores these in slots, in any order and for
any number of instances. Whoever does so holds all that came of it, and each errand may refer to
what came of earlier ones.

* `Errand`, `Errand.run`: an errand; `Operand`: the values that it may name.
* `Errand.runAll`: errands one after another.
* `Errand.done_run`: an errand keeps worlds abreast; `Errand.finished_runAll`: and so do many.
-/

namespace MetaCache

/-- What comes of an errand that does not fail. -/
inductive Yield where
  | descriptor (d : Descriptor)
  | value (a : Option Value)

/-- The shares that it holds. -/
def Yield.owned : Yield → List Owned
  | descriptor d => d.owned
  | value a => ownedByAll a.toList

/-- What came of errands, in order. -/
abbrev Yields := List (Except Error Yield)

namespace Yields

/-- The shares that all of it holds. -/
def owned (ys : Yields) : List Owned :=
  ys.flatMap fun
    | .ok y => y.owned
    | .error e => e.owned

/-- What came of an errand is no longer there. -/
def without (ys : Yields) (i : Nat) : Yields :=
  ys.set i (.ok (.value none))

/-- The descriptor that came of an errand. -/
def descriptor? (ys : Yields) (i : Nat) : Option Descriptor :=
  match ys[i]? with
  | some (.ok (.descriptor d)) => some d
  | _ => none

/-- The value that came of an errand. -/
def value? (ys : Yields) (i : Nat) : Option Value :=
  match ys[i]? with
  | some (.ok (.value a)) => a
  | _ => none

end Yields

/-- A value that an errand names: one that whoever runs errands keeps for good, or one that came of
an earlier errand. -/
inductive Operand where
  | given (a : Value)
  | result (i : Nat)

/-- The value. -/
def Yields.operand? (ys : Yields) : Operand → Option Value
  | .given a => some a
  | .result i => ys.value? i

/-- Something that is asked of the cache. Descriptors, and the values that are stored, are those
that came of earlier errands. -/
inductive Errand where
  /-- Compiles an attribute metaobject. -/
  | compile (attr : Value)
  /-- Asks for the initial value that an attribute has in an instance. -/
  | initialValue (descriptor : Nat) (inst : Operand)
  /-- Stores a copy of a value in the slot that an attribute has in an instance. -/
  | store (descriptor : Nat) (inst : Operand) (value : Nat)
  /-- Gives back what came of an earlier errand. -/
  | drop (i : Nat)

namespace Errand

/-- The values that are kept for good. -/
def given : Errand → List Value
  | compile attr => [attr]
  | initialValue _ (.given inst) | store _ (.given inst) _ => [inst]
  | _ => []

/-- Stores a value in a slot and answers a copy of it. -/
def storeIn (inst : Value) (slot : Key) (a : Value) : Build Value :=
  ExceptT.mk (Action.withStore (Storage.set inst slot a))

/-- Does what is asked for. Nothing is done where there is no such descriptor or no such value. -/
def run (host : Host) (ys : Yields) : Errand → Build Yield
  | compile attr => return .descriptor (← Descriptor.compile host attr)
  | initialValue i inst =>
    match ys.descriptor? i, ys.operand? inst with
    | some d, some u => return .value (← d.initialValue host u)
    | _, _ => return .value none
  | store i inst j =>
    match ys.descriptor? i, ys.operand? inst, ys.value? j with
    | some d, some u, some a => do
      Action.retain a.owned
      return .value (some (← storeIn u d.slot a))
    | _, _, _ => return .value none
  | drop i => do
    Action.release (Yields.owned ys[i]?.toList)
    return .value none

/-- What is left of what came of earlier errands. -/
def leaves (ys : Yields) : Errand → Yields
  | drop i => ys.without i
  | _ => ys

/-- Does errands one after another, be it that some of them fail. -/
def runAll (host : Host) : Yields → List Errand → Action Yields
  | ys, [] => return ys
  | ys, e :: es => do
    let y ← (e.run host ys).run
    runAll host (e.leaves ys ++ [y]) es

end Errand

/-! ## What came of errands -/

variable {κ : Classifier} {K : CellId → Prop} {G H : Generators} {host : Host}
  {P f g : Holding} {w v : World}

theorem getElem?_of_forall₂ {α β : Type} {R : α → β → Prop} {as : List α} {bs : List β}
    (h : List.Forall₂ R as bs) (i : Nat) : Option.Rel R as[i]? bs[i]? := by
  induction h generalizing i with
  | nil => exact .none
  | cons hab _ ih =>
    cases i with
    | zero => exact .some hab
    | succ i => exact ih i

namespace Yields

variable {ys zs : Yields}

theorem holding_owned_cons (y : Except Error Yield) (ys : Yields) :
    holding (owned (y :: ys)) = holding (owned [y]) + holding (owned ys) := by
  rw [← holding_append]
  simp only [owned, List.flatMap_cons, List.flatMap_nil, List.append_nil]

/-- What came of one errand is held among the rest. -/
theorem exists_holding {i : Nat} {y : Yield} (hy : ys[i]? = some (.ok y)) :
    ∃ k, holding ys.owned = holding y.owned + k := by
  induction ys generalizing i with
  | nil => cases hy
  | cons z rest ih =>
    cases i with
    | zero =>
      cases hy
      exact ⟨_, by rw [holding_owned_cons, owned, List.flatMap_singleton]⟩
    | succ i =>
      obtain ⟨k, hk⟩ := ih hy
      exact ⟨holding (owned [z]) + k, by rw [holding_owned_cons, hk, add_left_comm]⟩

/-- What comes of a further errand is held besides. -/
theorem holding_concat (ys : Yields) (y : Except Error Yield) :
    holding (owned (ys ++ [y])) = holding (owned [y]) + holding ys.owned := by
  rw [owned, List.flatMap_append, holding_append, add_comm]
  rfl

theorem holding_concat_ok (ys : Yields) (y : Yield) :
    holding (owned (ys ++ [.ok y])) = holding y.owned + holding ys.owned := by
  rw [holding_concat, owned, List.flatMap_singleton]

theorem holding_concat_error (ys : Yields) (e : Error) :
    holding (owned (ys ++ [.error e])) = holding e.owned + holding ys.owned := by
  rw [holding_concat, owned, List.flatMap_singleton]

theorem holding_without (ys : Yields) (i : Nat) :
    holding ys.owned = holding (owned ys[i]?.toList) + holding (ys.without i).owned := by
  induction ys generalizing i with
  | nil => exact (zero_add _).symm
  | cons y rest ih =>
    cases i with
    | zero =>
      rw [holding_owned_cons]
      exact congrArg (holding (owned [y]) + ·) rfl
    | succ i =>
      rw [holding_owned_cons, ih i, add_left_comm]
      exact congrArg (_ + ·) (holding_owned_cons y (without rest i)).symm

theorem exists_holding_descriptor {i : Nat} {d : Descriptor} (hd : ys.descriptor? i = some d) :
    ∃ k, holding ys.owned = holding d.owned + k := by
  unfold descriptor? at hd
  split at hd
  · cases hd
    exact exists_holding ‹_›
  · cases hd

theorem exists_holding_slot {i : Nat} {d : Descriptor} (hd : ys.descriptor? i = some d) :
    ∃ k, holding ys.owned = holding d.slot.owned + k := by
  obtain ⟨k, hk⟩ := exists_holding_descriptor hd
  rw [hk, Descriptor.owned]
  simp only [holding_append, add_assoc]
  exact ⟨_, rfl⟩

theorem exists_holding_value {i : Nat} {a : Value} (ha : ys.value? i = some a) :
    ∃ k, holding ys.owned = holding a.owned + k := by
  unfold value? at ha
  split at ha
  · subst ha
    obtain ⟨k, hk⟩ := exists_holding ‹ys[i]? = _›
    rw [Yield.owned, Option.toList_some, ownedByAll_singleton] at hk
    exact ⟨k, hk⟩
  · cases ha

end Yields

/-! ## What corresponds -/

/-- The same value, or descriptors that correspond. -/
inductive Yield.Parallel (G : Generators) : Yield → Yield → Prop
  | descriptor {d e : Descriptor} (h : d.Parallel G e) : Parallel G (.descriptor d) (.descriptor e)
  | value (a : Option Value) : Parallel G (.value a) (.value a)

/-- The same errors, and results that correspond. -/
abbrev Yields.Parallel (G : Generators) : Yields → Yields → Prop :=
  List.Forall₂ (Settled Yield.Parallel G)

namespace Yields.Parallel

variable {ys zs : Yields} (h : ys.Parallel G zs)

include h

theorem mono (hG : G ≤ H) : Yields.Parallel H ys zs :=
  h.imp fun _ _ hyz => by
    cases hyz with
    | ok hyz =>
      cases hyz with
      | descriptor h => exact .ok (.descriptor (h.mono hG))
      | value a => exact .ok (.value a)
    | error e => exact .error e

theorem concat {y z : Except Error Yield} (hyz : Settled Yield.Parallel G y z) :
    Yields.Parallel G (ys ++ [y]) (zs ++ [z]) :=
  List.rel_append h (.cons hyz .nil)

theorem without (i : Nat) : Yields.Parallel G (ys.without i) (zs.without i) := by
  induction h generalizing i with
  | nil => exact .nil
  | cons hyz hrest ih =>
    cases i with
    | zero => exact .cons (.ok (.value none)) hrest
    | succ i => exact .cons hyz (ih i)

/-- The shares correspond as well. -/
theorem owned : Owned.Parallel G ys.owned zs.owned := by
  induction h with
  | nil => exact .nil
  | cons hyz _ ih =>
    refine .append ?_ ih
    cases hyz with
    | error e => exact .refl _
    | ok hyz =>
      cases hyz with
      | descriptor h => exact h.owned
      | value a => exact .refl _

theorem dropped (i : Nat) : Yields.Parallel G ys[i]?.toList zs[i]?.toList := by
  rcases rel_cases (getElem?_of_forall₂ h i) with ⟨hy, hz⟩ | ⟨y, z, hy, hz, hyz⟩
  · rw [hy, hz]
    exact .nil
  · rw [hy, hz]
    exact .cons hyz .nil

theorem value?_eq (i : Nat) : ys.value? i = zs.value? i := by
  rw [value?, value?]
  rcases rel_cases (getElem?_of_forall₂ h i) with ⟨hy, hz⟩ | ⟨y, z, hy, hz, hyz⟩
  · rw [hy, hz]
  · rw [hy, hz]
    cases hyz with
    | error e => rfl
    | ok hyz => cases hyz <;> rfl

theorem operand?_eq (o : Operand) : ys.operand? o = zs.operand? o := by
  cases o with
  | given a => rfl
  | result i => exact h.value?_eq i

theorem descriptor? (i : Nat) :
    Option.Rel (Descriptor.Parallel G) (ys.descriptor? i) (zs.descriptor? i) := by
  rw [Yields.descriptor?, Yields.descriptor?]
  rcases rel_cases (getElem?_of_forall₂ h i) with ⟨hy, hz⟩ | ⟨y, z, hy, hz, hyz⟩
  · rw [hy, hz]
    exact .none
  · rw [hy, hz]
    cases hyz with
    | error e => exact .none
    | ok hyz =>
      cases hyz with
      | descriptor h => exact .some h
      | value a => exact .none

theorem leaves (e : Errand) : Yields.Parallel G (e.leaves ys) (e.leaves zs) := by
  cases e with
  | drop i => exact h.without i
  | _ => exact h

end Yields.Parallel

/-! ## Errands -/

open Build (Done DoneAlike)

namespace Errand

variable {ys zs : Yields}

/-- An errand for which there is nothing to do. -/
theorem done_nothing (hw : World.Abreast κ K G P f g w v) :
    Done κ K G Yield.Parallel (fun y => holding y.owned) (fun y => holding y.owned) f g
      ((pure (.value none) : Build Yield) w) ((pure (.value none) : Build Yield) v) := by
  rw [← zero_add f, ← zero_add g] at hw
  exact .ok le_rfl (.value none) hw

/-- A value that came of an errand is there. -/
theorem present_value (hw : World.Abreast κ K G P (holding ys.owned) g w v) {i : Nat} {a : Value}
    (ha : ys.value? i = some a) : ∀ o ∈ a.owned, w.store.present o := by
  obtain ⟨k, hk⟩ := Yields.exists_holding_value ha
  rw [hk] at hw
  obtain ⟨_, hcov⟩ := hw.covers_held
  exact hcov.present_of_held

/-- A value is stored in worlds abreast. -/
theorem done_storeIn {inst a : Value} {slot : Key} {k l : Holding}
    (hw : World.Abreast κ K G P (holding a.owned + (holding slot.owned + k))
      (holding a.owned + (holding slot.owned + l)) w v) :
    DoneAlike κ K G (fun u => holding u.owned)
      (holding slot.owned + k) (holding slot.owned + l) (storeIn inst slot a w)
      (storeIn inst slot a v) := by
  have hslot : ∀ o ∈ slot.owned, w.store.present o := by
    have hheld := hw
    rw [add_left_comm] at hheld
    obtain ⟨_, hcov⟩ := hheld.covers_held
    exact hcov.present_key
  obtain ⟨hsame, hset⟩ := hw.store.set inst hslot
  have hnext := hw.withStore hset
  rw [← hsame] at hnext
  show Done κ K G Equal _ _ _ _
    (.ok ((Storage.set inst slot a w.store).1,
      { w with store := (Storage.set inst slot a w.store).2 }))
    (.ok ((Storage.set inst slot a v.store).1,
      { v with store := (Storage.set inst slot a v.store).2 }))
  rw [← hsame]
  generalize (Storage.set inst slot a w.store).1 = r at hnext ⊢
  cases r with
  | ok u => exact .ok le_rfl rfl hnext
  | error e => exact .error le_rfl hnext

section

variable (hyz : ys.Parallel G zs)
  (hw : World.Abreast κ K G P (holding ys.owned) (holding zs.owned) w v)

include hyz hw

theorem done_initialValue (hκ : κ.Sound host) (hh : host.Neutral κ) (i : Nat) {inst : Operand}
    (hK : ∀ c, Value.ref c ∈ given (.initialValue i inst) → K c) :
    Done κ K G Yield.Parallel (fun y => holding y.owned) (fun y => holding y.owned)
      (holding ys.owned) (holding zs.owned) (run host ys (.initialValue i inst) w)
      (run host zs (.initialValue i inst) v) := by
  rw [run, run, ← hyz.operand?_eq]
  rcases rel_cases (hyz.descriptor? i) with ⟨hd, he⟩ | ⟨d, e, hd, he, hde⟩
  · rw [hd, he]
    exact done_nothing hw
  · rw [hd, he]
    cases hu : ys.operand? inst with
    | none => exact done_nothing hw
    | some u =>
      have hthere : ∀ o ∈ u.owned, w.store.present o := by
        cases inst with
        | given a =>
          cases hu
          exact hw.present_given fun c hc => hK c (hc ▸ List.mem_singleton.2 rfl)
        | result j => exact present_value hw hu
      obtain ⟨k, hk⟩ := Yields.exists_holding_descriptor hd
      obtain ⟨l, hl⟩ := Yields.exists_holding_descriptor he
      rw [hk, hl] at hw ⊢
      refine (hde.initialValue hκ hh hthere hw).map (fun _ a b hab => ?_) (fun _ => rfl)
        fun _ => rfl
      cases hab
      exact .value a

theorem done_store (i : Nat) (inst : Operand) (j : Nat) :
    Done κ K G Yield.Parallel (fun y => holding y.owned) (fun y => holding y.owned)
      (holding ys.owned) (holding zs.owned) (run host ys (.store i inst j) w)
      (run host zs (.store i inst j) v) := by
  rw [run, run, ← hyz.operand?_eq, ← hyz.value?_eq]
  rcases rel_cases (hyz.descriptor? i) with ⟨hd, he⟩ | ⟨d, e, hd, he, hde⟩
  · rw [hd, he]
    exact done_nothing hw
  · rw [hd, he]
    cases ys.operand? inst with
    | none => exact done_nothing hw
    | some u =>
      cases ha : ys.value? j with
      | none => exact done_nothing hw
      | some a =>
        -- the copy that is stored is taken first
        have hcopied := hw.retain (present_value hw ha)
        have hstep (slot : Key) (w : World) : (do
            Action.retain a.owned
            return Yield.value (some (← storeIn u slot a)) : Build Yield) w =
              (storeIn u slot a >>= fun b => pure (.value (some b)))
                (w.onStore (·.retain a.owned)) := rfl
        obtain ⟨k, hk⟩ := Yields.exists_holding_slot hd
        obtain ⟨l, hl⟩ := Yields.exists_holding_slot he
        rw [hk, hl, hde.slot] at hcopied
        rw [hk, hl]
        simp only [hde.slot]
        rw [hstep, hstep]
        refine (done_storeIn hcopied).map (fun _ a b hab => ?_) (fun a => ?_) fun a => ?_
        · cases hab
          exact .value (some a)
        all_goals rw [Yield.owned, Option.toList_some, ownedByAll_singleton]

theorem done_drop (i : Nat) :
    Done κ K G Yield.Parallel (fun y => holding y.owned) (fun y => holding y.owned)
      (holding (ys.without i).owned) (holding (zs.without i).owned) (run host ys (.drop i) w)
      (run host zs (.drop i) v) := by
  rw [Yields.holding_without ys i, Yields.holding_without zs i] at hw
  have hnext := hw.withStore (hw.store.release (hyz.dropped i).owned)
  rw [← zero_add (holding (ys.without i).owned), ← zero_add (holding (zs.without i).owned)] at hnext
  exact .ok le_rfl (.value none) hnext

/-- An errand keeps worlds abreast, next to what is left of what came of earlier ones. -/
theorem done_run (hκ : κ.Sound host) (hh : host.Neutral κ) {e : Errand}
    (hK : ∀ c, Value.ref c ∈ e.given → K c) :
    Done κ K G Yield.Parallel (fun y => holding y.owned) (fun y => holding y.owned)
      (holding (e.leaves ys).owned) (holding (e.leaves zs).owned) (e.run host ys w)
      (e.run host zs v) := by
  cases e with
  | compile attr =>
    rw [← zero_add (holding ys.owned), ← zero_add (holding zs.owned)] at hw
    have hattr (c : CellId) (hc : attr = .ref c) : K c := hK c (hc ▸ List.mem_singleton.2 rfl)
    exact (hh.compile hattr hw).map (fun _ _ _ hde => .descriptor hde) (fun _ => rfl) fun _ => rfl
  | initialValue i inst => exact done_initialValue hyz hw hκ hh i hK
  | store i inst j => exact done_store hyz hw i inst j
  | drop i => exact done_drop hyz hw i

end

/-- What becomes of errands in two runs: both stop for the same reason, or they end in worlds
abreast, and what came of the errands corresponds. -/
def Finished (κ : Classifier) (K : CellId → Prop) (G : Generators) :
    Except Halt (Yields × World) → Except Halt (Yields × World) → Prop :=
  Concluded (fun H ys zs w v =>
    ∃ P, World.Abreast κ K H P (holding ys.owned) (holding zs.owned) w v) G Yields.Parallel

/-- Errands one after another keep worlds abreast. -/
theorem finished_runAll (hκ : κ.Sound host) (hh : host.Neutral κ) {es : List Errand}
    (hK : ∀ e ∈ es, ∀ c, Value.ref c ∈ e.given → K c) (hyz : ys.Parallel G zs)
    (hw : World.Abreast κ K G P (holding ys.owned) (holding zs.owned) w v) :
    Finished κ K G (runAll host ys es w) (runAll host zs es v) := by
  induction es generalizing G P ys zs w v with
  | nil => exact .done le_rfl hyz ⟨P, hw⟩
  | cons e rest ih =>
    have hrest := fun e' he' => hK e' (List.mem_cons_of_mem e he')
    have hend := done_run hyz hw hκ hh (hK e List.mem_cons_self)
    have hrun (ys : Yields) (w : World) : runAll host ys (e :: rest) w =
        (e.run host ys w).bind fun p => runAll host (e.leaves ys ++ [p.1]) rest p.2 := rfl
    rw [hrun, hrun]
    refine Concluded.bind hend fun H hG y z hyz' w' v' ⟨P, hw'⟩ => ?_
    refine ih hrest (((hyz.leaves e).mono hG).concat hyz') (P := P) ?_
    cases hyz' with
    | ok _ =>
      rw [Yields.holding_concat_ok, Yields.holding_concat_ok]
      exact hw'
    | error _ =>
      rw [Yields.holding_concat_error, Yields.holding_concat_error]
      exact hw'

end Errand

end MetaCache
