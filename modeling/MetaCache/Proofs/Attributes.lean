import MetaCache.Proofs.Dialogue.Protocol
import MetaCache.Proofs.Interview.Attribute
/-!
# Compiling an attribute is an interview

An attribute metaobject is compiled by asking it by the rules of an interview, whatever the host
replies and whatever its code does before it replies. If the interview comes to its end, the
descriptor is made of what was found; if it stops, the error is the one for what stopped it, and
nothing more is asked. What is no strong reference is not asked anything.

* `Interview.Account`: what the rules say of a compilation.
* `attribute_interview`: every compilation of an attribute metaobject.
-/

namespace MetaCache

/-- The account of a compilation of the metaobject `origin` that was begun in `w`, by way of the
queries `qs`. -/
structure Interview.Account (host : Host) (origin : CellId) (w : World) (qs : List Query)
    (outcome : Except Halt (Except Error Descriptor × World)) : Prop where
  /-- Each query was answered by the host, from the world as it was at that moment. -/
  answered : ∀ q ∈ qs, host.Answers q
  order : Interview.InOrder (.ref origin) qs
  /-- It ended as the rules say. -/
  ended : match outcome with
    | .ok (.ok d, _) => ∃ fs, Interview.Reached (.ref origin) qs (.toAsk none) fs ∧
        d.Records origin fs
    | .ok (.error e, _) => Interview.Stopped (.ref origin) qs e
    | .error h => Interview.Unanswered host (.ref origin) qs h
  /-- After each reply the compilation went on in the world that the host had left. -/
  went : ∀ r w', outcome = .ok (r, w') →
    (Dialogue.descriptor (.ref origin)).Comes host w qs (.ends r) w'
  /-- Nothing else was asked: the outcome depends on these replies alone. -/
  sufficed : ∀ r w', outcome = .ok (r, w') → ∀ host' : Host, host'.Reads host →
    (∀ q ∈ qs, host'.Answers q) → Descriptor.compile host' (.ref origin) w = .ok (r, w')

/-- Every compilation of an attribute metaobject is an interview. What is no strong reference is
refused, and is asked nothing. -/
theorem attribute_interview (host : Host) (attr : Value) (w : World) :
    match attr with
    | .ref origin =>
      Interview.Account host origin w ((Dialogue.descriptor attr).queries host w)
        (Descriptor.compile host attr w)
    | _ =>
      (Dialogue.descriptor attr).queries host w = [] ∧ Descriptor.compile host attr w =
        .ok (.error (.mismatch (.attributeNotReference (w.store.valueText attr))), w) := by
  cases attr with
  | ref origin =>
    have hgoes := Interview.goes_descriptor host origin w
    rw [Dialogue.Goes, Dialogue.run_descriptor, List.nil_append] at hgoes
    have hcomes (r : Except Error Descriptor) (w' : World)
        (h : Descriptor.compile host (.ref origin) w = .ok (r, w')) :
        (Dialogue.descriptor (.ref origin)).Comes host w
          ((Dialogue.descriptor (.ref origin)).queries host w) (.ends r) w' :=
      Dialogue.comes_queries (by rw [Dialogue.run_descriptor]; exact h)
    constructor
    case answered => exact fun q hq => Dialogue.answers_of_mem_queries hq
    case order =>
      cases hrun : Descriptor.compile host (.ref origin) w with
      | error h =>
        rw [hrun] at hgoes
        exact Interview.Unanswered.inOrder hgoes
      | ok p =>
        obtain ⟨r, w'⟩ := p
        rw [hrun] at hgoes
        cases r with
        | error e => exact Interview.Stopped.inOrder hgoes
        | ok d =>
          obtain ⟨fs, hreached, -⟩ := hgoes
          exact hreached.inOrder
    case ended =>
      cases hrun : Descriptor.compile host (.ref origin) w with
      | error h => rwa [hrun] at hgoes
      | ok p =>
        obtain ⟨r, w'⟩ := p
        rw [hrun] at hgoes
        cases r <;> exact hgoes
    case went => exact hcomes
    case sufficed =>
      intro r w' h host' hr hq
      rw [← Dialogue.run_descriptor, (hcomes r w' h).run_eq hr hq]
      rfl
  | _ => exact ⟨rfl, rfl⟩

end MetaCache
