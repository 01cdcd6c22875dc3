import MetaCache.Script.Step
import MetaCache.Script.Transcript
/-!
# Running scripts

A script runs step by step. Host code that a step calls runs steps of its own, which are reported
among the events of the step that called it. The depth to which host code may call host code is
limited by a number, which only a run without an end exceeds.

* `interpret`: host code, to a depth.
* `Program.run`: a script from start to end.
-/

namespace MetaCache.Script

/-- Runs the steps of host code. While it runs, the cache in charge is the one that the script
started last; the answer is the cache that was suspended for that, if any. -/
def runSteps (host : Host) (args : List Value) (suspended : Option Cache) :
    List Step → Action (Option Cache)
  | [] => return suspended
  | s :: rest => do
    let answer ← s.run host args
    modify (World.finish s.name answer)
    let previous ← modifyGet World.handOver
    runSteps host args (suspended.or previous) rest

/-- Runs host code: its steps, if this call runs them, and then its failure or its reply. -/
def interpret : Nat → Interpreter
  | 0, _, _, _ => Action.halt .exhausted
  | depth + 1, routine, runs, args => do
    if routine.runsSteps runs then
      let previous ← modifyGet World.handOver
      let suspended ← runSteps (scriptedHost (interpret depth)) args previous routine.steps
      modify (World.resume suspended)
    match routine.fail with
    | none => Expr.evalAll args routine.reply
    | some message =>
      let thrown ← evalOptional args routine.thrown
      throw { message, thrown := thrown.getD .undef }

/-- Runs the steps of a script and reports on each. -/
def runAll (host : Host) : List Step → Action (List Report)
  | [] => return []
  | s :: rest => do
    let answer ← s.run host []
    let _ ← modifyGet World.handOver
    let report ← modifyGet (World.report (some answer))
    return report :: (← runAll host rest)

/-- A script: the cache it starts with, and its steps. -/
structure Program where
  config : ConfigExpr := .settings {}
  classifier : Option (List (String × ContainerKind)) := none
  steps : List Step

/-- Runs a script on a new host, with host code calling host code to the given depth. In the end the
variables are dropped one after another. If the settings cannot be read, nothing is run. -/
def Program.run (depth : Nat) (p : Program) :
    Except Halt (Except Config.Refusal (List Report)) :=
  match p.config.resolve with
  | .error r => .ok (.error r)
  | .ok c =>
    let script : Action (List Report) := do
      let reports ← runAll (scriptedHost (interpret depth)) p.steps
      dropEach ((← get).session.vars.map Prod.fst)
      return reports ++ [← modifyGet (World.report none)]
    (script.run' { cache := newCacheOf c p.classifier }).map .ok

end MetaCache.Script
