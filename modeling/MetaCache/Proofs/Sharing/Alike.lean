import Mathlib.Data.List.Forall2
import MetaCache.Script.Run
/-!
# Reports that are alike

Whether names are shared shows in a few places only: where two keys are asked whether they share
their name, where the owners of a name or the entries of the key table are counted, where the
settings themselves are read, and in the notes. Two reports are alike if they differ in nothing
else.

* `Config.Alike`: settings that differ in nothing but in whether names are shared.
* `Answer.Alike`, `Report.Alike`: answers and reports on the same step.
* `Report.AllAlike`: the reports of two runs of a script.
-/

namespace MetaCache

/-- The settings differ in nothing but in whether names are shared. -/
def Config.Alike (c d : Config) : Prop :=
  d = { c with shareSlotKeys := d.shareSlotKeys }

namespace Script

/-- Answers of a step of that name that differ at most in what tells that names are shared. -/
inductive Answer.Alike (step : String) : Answer → Answer → Prop
  | same (a : Answer) : Alike step a a
  /-- The number of owners of a name. -/
  | owners (m n : Nat) (h : step = "counts") : Alike step (.number m) (.number n)
  /-- The numbers of entries of the key table, one after each of a number of keys. -/
  | tracked {ms ns : List Nat} (h : ms.length = ns.length) : Alike step (.numbers ms) (.numbers ns)
  /-- Whether two keys share their name. -/
  | compared (same sameHash shared shared' : Bool) :
    Alike step (.keyComparison same sameHash shared) (.keyComparison same sameHash shared')
  | settings {c d : Config} (h : c.Alike d) :
    Alike step (.configText c c.shown) (.configText d d.shown)

/-- What happened during a step, if it is no note, or the end of a step of host code. -/
inductive Entry.Alike : Entry → Entry → Prop
  | event (e : Event) : Alike (.event e) (.event e)
  | finished {step : String} {a b : Answer} (h : a.Alike step b) :
    Alike (.finished step a) (.finished step b)

/-- Whether what happened is more than a note. -/
def Entry.lasting : Entry → Bool
  | event (.note _) => false
  | _ => true

/-- Without notes, the two transcripts are alike. -/
def Entry.AllAlike (xs ys : List Entry) : Prop :=
  List.Forall₂ Entry.Alike (xs.filter Entry.lasting) (ys.filter Entry.lasting)

/-- Reports on a step of that name that differ at most in what tells that names are shared: in some
answers, in the counts of the key table, and in the notes. -/
structure Report.Alike (step : String) (a b : Report) : Prop where
  answer : Option.Rel (Answer.Alike step) a.answer b.answer
  stats : a.stats = b.stats
  /-- The host was called as often. -/
  calls : a.calls = b.calls
  entries : Entry.AllAlike a.entries b.entries

/-- Reports on steps of those names, one after another. -/
inductive Report.AllAlike : List String → List Report → List Report → Prop
  | nil : AllAlike [] [] []
  | cons {step : String} {rest : List String} {a b : Report} {as bs : List Report}
    (h : a.Alike step b) (ht : AllAlike rest as bs) :
    AllAlike (step :: rest) (a :: as) (b :: bs)

theorem Report.AllAlike.append {steps steps' : List String} {as bs as' bs' : List Report}
    (h : AllAlike steps as bs) (h' : AllAlike steps' as' bs') :
    AllAlike (steps ++ steps') (as ++ as') (bs ++ bs') := by
  induction h with
  | nil => exact h'
  | cons hab _ ih => exact .cons hab ih

end Script

end MetaCache
