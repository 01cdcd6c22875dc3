import MetaCache.Proofs.Sharing.Steps
/-!
# Runs in twin worlds

Host code runs steps, and the steps of a script run host code; the number that limits how deep this
goes is what the induction is on.

* `World.Twin.finish`, `World.Twin.handOver`, `World.Twin.report`: transcripts and changes of cache.
* `blind_runRoutine`, `blind_interpret`: host code.
* `agree_runAll`: the steps of a script.
-/

namespace MetaCache

open Script

variable {g : Namings}

/-! ## Transcripts and changes of cache -/

theorem Script.Entry.AllAlike.append {xs ys xs' ys' : List Entry} (h : Entry.AllAlike xs ys)
    (h' : Entry.AllAlike xs' ys') : Entry.AllAlike (xs ++ xs') (ys ++ ys') := by
  rw [AllAlike, List.filter_append, List.filter_append]
  exact List.rel_append h h'

/-- Journals that differ in nothing but notes. -/
theorem Script.Entry.allAlike_events {es fs : List Event}
    (h : es.filter Event.lasting = fs.filter Event.lasting) :
    Entry.AllAlike (es.reverse.map .event) (fs.reverse.map .event) := by
  have hlasting (es : List Event) : (es.reverse.map Entry.event).filter Entry.lasting =
      (es.filter Event.lasting).reverse.map .event := by
    have hcomp : Entry.lasting ∘ Entry.event = Event.lasting := by
      funext e
      cases e <;> rfl
    rw [List.filter_map, hcomp, List.filter_reverse]
  rw [AllAlike, hlasting, hlasting, h]
  exact List.forall₂_map_left_iff.2 (List.forall₂_map_right_iff.2
    (List.forall₂_same.2 fun e _ => .event e))

namespace World.Twin

variable {w v : World} (h : w.Twin g v)

include h

theorem drain : w.drain.Twin g v.drain where
  store := { h.store with journal := rfl }
  cache := h.cache
  registry := h.registry
  session := { h.session with
    transcript := h.session.transcript.append (Entry.allAlike_events h.store.journal) }

theorem finish (name : String) {a b : Answer} (hab : a.Alike name b) :
    (w.finish name a).Twin g (v.finish name b) :=
  { h.drain with session := { h.drain.session with
      transcript := h.drain.session.transcript.append (.cons (.finished hab) .nil) } }

theorem handOver : Option.Rel (Cache.Twin g) w.handOver.1 v.handOver.1 ∧
    w.handOver.2.Twin g v.handOver.2 := by
  rw [World.handOver, World.handOver]
  rcases rel_cases h.session.successor with ⟨hw, hv⟩ | ⟨_, _, hw, hv, hcd⟩
  · rw [hw, hv]
    exact ⟨.none, h⟩
  · rw [hw, hv]
    exact ⟨.some h.cache,
      { h with cache := hcd, session := { h.session with successor := .none } }⟩

theorem resume {c d : Option Cache} (hcd : Option.Rel (Cache.Twin g) c d) :
    (w.resume c).Twin g (v.resume d) := by
  cases hcd with
  | none => exact h
  | some hcd =>
    exact { h with cache := hcd, session := { h.session with successor := .some h.cache } }

theorem report (step : String) {a b : Option Answer} (hab : Option.Rel (Answer.Alike step) a b) :
    (w.report a).1.Alike step (v.report b).1 ∧ (w.report a).2.Twin g (v.report b).2 :=
  ⟨{ answer := hab
     stats := h.cache.stats
     calls := congrArg Registry.calls h.registry
     entries := h.drain.session.transcript },
    { h.drain with session := { h.drain.session with transcript := .nil } }⟩

end World.Twin

namespace Script

open MetaCache.Action (Agree Blind)

variable {host : Host} (hh : host.Blind)

/-! ## Host code -/

theorem agree_handOver : Agree g (fun g => Option.Rel (Cache.Twin g)) (modifyGet World.handOver)
    (modifyGet World.handOver) :=
  .change fun _ _ hw => hw.handOver

include hh in
theorem agree_runSteps (args : List Value) (steps : List Step) {c d : Option Cache}
    (h : Option.Rel (Cache.Twin g) c d) : Agree g (fun g => Option.Rel (Cache.Twin g))
      (runSteps host args c steps) (runSteps host args d steps) := by
  induction steps generalizing g c d with
  | nil => exact .pure h
  | cons s rest ih =>
    refine (agree_step hh args s).bind fun g₁ h₁ a b hab => ?_
    refine (Action.Relates.modify fun _ _ hw => hw.finish s.name hab).bind fun g₂ h₂ _ _ _ => ?_
    refine agree_handOver.bind fun g₃ h₃ c' d' hcd => ih ?_
    have hgrown := rel_imp h fun _ _ hcd => hcd.mono (h₁.trans (h₂.trans h₃))
    cases hgrown with
    | some hgrown => exact .some hgrown
    | none => exact hcd

/-- Runs host code whose steps call the given host. -/
def runRoutine (host : Host) : Interpreter := fun routine runs args => do
  if routine.runsSteps runs then
    let previous ← modifyGet World.handOver
    let suspended ← runSteps host args previous routine.steps
    modify (World.resume suspended)
  match routine.fail with
  | none => Expr.evalAll args routine.reply
  | some message =>
    let thrown ← evalOptional args routine.thrown
    throw { message, thrown := thrown.getD .undef }

theorem interpret_succ (depth : Nat) :
    interpret (depth + 1) = runRoutine (scriptedHost (interpret depth)) := rfl

include hh in
theorem blind_runRoutine : (runRoutine host).Blind := by
  intro routine runs args
  -- the steps, if they are run, come before the reply or the failure
  have hrun {k : PUnit → ExceptT HostError Action (List Value)} (hk : ∀ u, Trial.Blind (k u)) :
      Trial.Blind (if routine.runsSteps runs then do
          let previous ← modifyGet World.handOver
          let suspended ← runSteps host args previous routine.steps
          modify (World.resume suspended) >>= k
        else k ()) := by
    split
    · refine fun g => (Trial.Relates.lift agree_handOver).bind fun g₁ _ c d hcd => ?_
      refine (Trial.Relates.lift (agree_runSteps hh args _ hcd)).bind fun g₂ _ c d hcd => ?_
      have hresumed := Action.Relates.modify fun w v (hw : w.Twin g₂ v) => hw.resume hcd
      exact (Trial.Relates.lift hresumed).bind fun g₃ _ _ _ _ => hk _ g₃
    · exact hk ()
  unfold runRoutine
  cases routine.fail with
  | none => exact hrun fun _ => .lift (blind_evalAll args routine.reply)
  | some message =>
    have hthrown : Trial.Blind (evalOptional args routine.thrown :
        ExceptT HostError Action (Option Value)) := .lift (blind_evalOptional args routine.thrown)
    exact hrun fun _ => hthrown.bind fun _ => .throw _

/-- Host code does not see how names are shared, however deep it calls host code. -/
theorem blind_interpret (depth : Nat) : (interpret depth).Blind := by
  induction depth with
  | zero => exact fun _ _ _ _ => .lift (fun _ _ _ => .halt _)
  | succ depth ih =>
    rw [interpret_succ]
    exact blind_runRoutine (blind_scriptedHost ih)

/-! ## Scripts -/

include hh in
theorem agree_runAll (steps : List Step) :
    Agree g (fun _ => Report.AllAlike (steps.map Step.name)) (runAll host steps)
      (runAll host steps) := by
  induction steps generalizing g with
  | nil => exact .pure .nil
  | cons s rest ih =>
    refine (agree_step hh [] s).bind fun g₁ _ a b hab => ?_
    refine agree_handOver.bind fun g₂ _ _ _ _ => ?_
    have hreport : Agree g₂ (fun _ => Report.Alike s.name) (modifyGet (World.report (some a)))
        (modifyGet (World.report (some b))) :=
      .change fun _ _ hw => hw.report s.name (.some hab)
    refine hreport.bind fun g₃ _ r q hrq => ?_
    exact ih.bind fun _ _ _ _ hrest => .pure (.cons hrq hrest)

end Script

end MetaCache
