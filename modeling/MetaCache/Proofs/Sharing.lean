import MetaCache.Proofs.Custody.Table
import MetaCache.Proofs.Sharing.Runs
/-!
# Sharing names changes nothing but sharing

A cache may share the names of slots and init-args through its key table, or make a new name for
each key. Nothing else depends on it: two runs of one script, one with names shared and one without,
give the same results and errors, compile the same descriptors and shadows, store the same things,
count the same hits, builds and invalidations, and call the host as often and in the same order.
What differs is what a script learns when it asks whether two keys share their name, counts the
owners of a name or the entries of the key table, reads the settings back, or reads the notes.

* `EndsAlike`, `RunsAlike`: what becomes of the two runs.
* `Host.recording`, `recorded`: hosts that write down each call.
* `World.sharesNameWith_key`: what the settings decide.
* `SharingUnseen`: what the two runs have in common.
* `sharing_unseen`: this holds of every script.
-/

namespace MetaCache

open Script

/-- Both computations stop for the same reason, or both end in worlds that are the same up to keys,
with reports on steps of those names that are alike. -/
inductive EndsAlike (names : List String) :
    Except Halt (List Report × World) → Except Halt (List Report × World) → Prop
  | done {as bs : List Report} {w v : World} (h : Report.AllAlike names as bs) (hw : w.Alike v) :
    EndsAlike names (.ok (as, w)) (.ok (bs, v))
  | halt (h : Halt) : EndsAlike names (.error h) (.error h)

/-- Both runs stop for the same reason, or both give reports that are alike: one on each step, and
one on the end. -/
inductive RunsAlike (steps : List Script.Step) : Except Halt (Except Config.Refusal (List Report)) →
    Except Halt (Except Config.Refusal (List Report)) → Prop
  | done {as bs : List Report} (h : Report.AllAlike (steps.map Script.Step.name ++ [""]) as bs) :
    RunsAlike steps (.ok (.ok as)) (.ok (.ok bs))
  | halt (h : Halt) : RunsAlike steps (.error h) (.error h)

/-- The script, run with names shared or not. -/
def Script.Program.sharing (c : Config) (classifier : Option (List (String × ContainerKind)))
    (steps : List Script.Step) (share : Bool) : Program where
  config := .settings { c with shareSlotKeys := share }
  classifier := classifier
  steps := steps

/-! ## Hosts that write down each call -/

/-- Writes a call into the transcript, with the values that are passed. -/
def World.writeCall (name : String) (vs : List Value) (w : World) : World :=
  w.finish name (.values (vs.map w.view))

/-- The host, which writes down each call before it answers it. -/
def Host.recording (host : Host) : Host where
  callMethod v method := do
    modify (World.writeCall method [v])
    host.callMethod v method
  callCode c args := do
    modify (World.writeCall "call" (.ref c :: args))
    host.callCode c args
  derivesFrom := host.derivesFrom
  class? := host.class?
  generation := host.generation

/-- Host code whose calls of the host are written down, to a depth. -/
def Script.recorded : Nat → Interpreter
  | 0 => fun _ _ _ => Action.halt .exhausted
  | depth + 1 => runRoutine (scriptedHost (recorded depth)).recording

theorem World.Twin.writeCall {g : Namings} {w v : World} (h : w.Twin g v) (name : String)
    (vs : List Value) : (w.writeCall name vs).Twin g (v.writeCall name vs) := by
  rw [World.writeCall, World.writeCall, h.view_funext]
  exact h.finish name (.same _)

theorem Host.Blind.recording {host : Host} (hh : host.Blind) : host.recording.Blind := by
  have hwritten (name : String) (vs : List Value) :
      Trial.Blind (modify (World.writeCall name vs) : ExceptT HostError Action Unit) :=
    fun _ => .lift (.modify fun _ _ hw => hw.writeCall name vs)
  exact { hh with
    callMethod := fun v method => (hwritten method [v]).bind fun _ => hh.callMethod v method
    callCode := fun c args => (hwritten "call" (.ref c :: args)).bind fun _ => hh.callCode c args }

theorem blind_recorded (depth : Nat) : (recorded depth).Blind := by
  induction depth with
  | zero => exact fun _ _ _ _ => .lift fun _ _ _ => .halt _
  | succ depth ih => exact blind_runRoutine (blind_scriptedHost ih).recording

/-! ## Keys of one name -/

/-- The keys that are made of one name share it exactly if the settings say so. -/
theorem World.sharesNameWith_key {w : World} (label : NameId → String)
    (hknown : ∀ n ∈ w.cache.keys.names, n.Known label w.store.names.next)
    (ht : w.cache.keys.Tidy w.cache.nameHash w.store) (name : String) :
    ((w.key name).2.key name).1.sharesNameWith (w.key name).1 = w.cache.config.shareSlotKeys := by
  cases hshare : w.cache.config.shareSlotKeys with
  | true =>
    have hfirst := KeyTable.gives_intern (fun n hn => (hknown n hn).1) ht name
    obtain ⟨label', hinterned⟩ := KeyTable.interned w.cache.nameHash hknown name
    have hsecond :=
      KeyTable.gives_intern (fun n hn => (hinterned.table n hn).1) hfirst.tidy name
    -- the first key is held, so its name is among the live ones of the table
    have hlive := hfirst.mem_live.2 (.inl rfl)
    have hmem := (hsecond.shared ⟨_, hlive, hfirst.text⟩).1
    have hsame := hfirst.tidy.eq_of_text hmem hlive (hsecond.text.trans hfirst.text.symm)
    simp only [World.key, hshare, if_true]
    rw [Key.sharesNameWith, hsame, BEq.rfl]
  | false =>
    simp only [World.key, hshare, Bool.false_eq_true, if_false]
    exact beq_false_of_ne (Nat.succ_ne_self _)

/-! ## The two runs -/

/-- What the runs of a script with and without shared names have in common. -/
structure SharingUnseen (depth : Nat) (c : Config)
    (classifier : Option (List (String × ContainerKind))) (steps : List Script.Step) : Prop where
  /-- All reports are alike. -/
  reports : RunsAlike steps ((Program.sharing c classifier steps true).run depth)
    ((Program.sharing c classifier steps false).run depth)
  /-- The worlds in which the runs begin are the same up to keys. -/
  start : World.Alike { cache := newCacheOf { c with shareSlotKeys := true } classifier }
    { cache := newCacheOf { c with shareSlotKeys := false } classifier }
  /-- The steps lead from worlds that are the same up to keys to such worlds. -/
  worlds : ∀ w v, w.Alike v → EndsAlike (steps.map Script.Step.name)
    (runAll (scriptedHost (interpret depth)) steps w)
    (runAll (scriptedHost (interpret depth)) steps v)
  /-- So they do if each call of the host is written down where it is made. -/
  calls : ∀ w v, w.Alike v → EndsAlike (steps.map Script.Step.name)
    (runAll (scriptedHost (recorded depth)).recording steps w)
    (runAll (scriptedHost (recorded depth)).recording steps v)
  /-- What the settings decide is whether keys that the cache makes of one name share it. -/
  shared : ∀ share name,
    let first := World.key name { cache := newCacheOf { c with shareSlotKeys := share } classifier }
    (first.2.key name).1.sharesNameWith first.1 = share

theorem alike_start {c d : Config} (h : c.Alike d)
    (classifier : Option (List (String × ContainerKind))) :
    World.Twin (⟨fun _ => "", 0⟩, ⟨fun _ => "", 0⟩) { cache := newCacheOf c classifier }
      { cache := newCacheOf d classifier } where
  store := ⟨rfl, rfl, ⟨rfl, fun _ => .none⟩, ⟨rfl, fun _ => .none⟩, rfl⟩
  cache := twin_newCacheOf c classifier h
  registry := rfl
  session := ⟨.nil, .nil, .none⟩

section

variable {g : Namings} {x y : Except Halt (List Report × World)}

theorem Concluded.endsAlike {names : List String}
    (h : Concluded (fun g _ _ => World.Twin g) g (fun _ => Report.AllAlike names) x y) :
    EndsAlike names x y := by
  cases h with
  | done _ hab hw => exact .done hab ⟨_, hw⟩
  | halt h => exact .halt h

theorem Concluded.runsAlike {steps : List Script.Step}
    (h : Concluded (fun g _ _ => World.Twin g) g
      (fun _ => Report.AllAlike (steps.map Script.Step.name ++ [""])) x y) :
    RunsAlike steps ((Prod.fst <$> x).map .ok) ((Prod.fst <$> y).map .ok) := by
  cases h with
  | done _ hab _ => exact .done hab
  | halt h => exact .halt h

end

theorem endsAlike_runAll {host : Host} (hh : host.Blind) (steps : List Script.Step) {w v : World}
    (h : w.Alike v) :
    EndsAlike (steps.map Script.Step.name) (runAll host steps w) (runAll host steps v) := by
  obtain ⟨g, hw⟩ := h
  exact (agree_runAll hh steps hw).endsAlike

/-- A whole run: the steps, the end of all variables, and the last report. -/
theorem runsAlike_run (depth : Nat) {c d : Config} (h : c.Alike d)
    (classifier : Option (List (String × ContainerKind))) (steps : List Script.Step) :
    RunsAlike steps (Program.run depth ⟨.settings c, classifier, steps⟩)
      (Program.run depth ⟨.settings d, classifier, steps⟩) := by
  have hscript {g : Namings} : Action.Agree g
      (fun _ => Report.AllAlike (steps.map Script.Step.name ++ [""])) (do
        let reports ← runAll (scriptedHost (interpret depth)) steps
        dropEach ((← get).session.vars.map Prod.fst)
        return reports ++ [← modifyGet (World.report none)]) (do
        let reports ← runAll (scriptedHost (interpret depth)) steps
        dropEach ((← get).session.vars.map Prod.fst)
        return reports ++ [← modifyGet (World.report none)]) := by
    refine (agree_runAll (blind_scriptedHost (blind_interpret depth)) steps).bind
      fun g₁ _ as bs hab => .get_bind fun w v hw => ?_
    rw [map_eq_of_forall₂ hw.session.vars fun _ _ h => h.1]
    refine (blind_dropEach _ _).andThen fun g₂ _ _ => ?_
    have hlast : Action.Agree g₂ (fun _ => Report.Alike "") (modifyGet (World.report none))
        (modifyGet (World.report none)) :=
      .change fun _ _ hw => hw.report "" .none
    exact hlast.bind fun _ _ _ _ hrq => .pure (hab.append (.cons hrq .nil))
  have hboth := hscript (alike_start h classifier)
  exact hboth.runsAlike

/-- Whatever a script does, sharing names changes nothing but sharing. -/
theorem sharing_unseen (depth : Nat) (c : Config)
    (classifier : Option (List (String × ContainerKind))) (steps : List Script.Step) :
    SharingUnseen depth c classifier steps :=
  have halike : Config.Alike { c with shareSlotKeys := true } { c with shareSlotKeys := false } :=
    rfl
  { reports := runsAlike_run depth halike classifier steps
    start := ⟨_, alike_start halike classifier⟩
    worlds := fun _ _ h => endsAlike_runAll (blind_scriptedHost (blind_interpret depth)) steps h
    calls := fun _ _ h =>
      endsAlike_runAll (blind_scriptedHost (blind_recorded depth)).recording steps h
    shared := fun share =>
      let start : World := { cache := newCacheOf { c with shareSlotKeys := share } classifier }
      start.sharesNameWith_key (fun _ => "") (fun _ hn => (List.not_mem_nil hn).elim)
        (.empty _ _) }

end MetaCache
