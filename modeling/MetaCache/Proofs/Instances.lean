import MetaCache.Proofs.Interview.Instance
/-!
# Compiling an instance metaobject, step by step

An instance metaobject is compiled by a fixed sequence of steps, whatever the host replies and
whatever its code does meanwhile: the shadow is there exactly if every step has succeeded, with one
descriptor for each attribute of the one reply, in order, and otherwise the first step that fails
determines the outcome and is the last one.

* `instance_by_steps`: every compilation of an instance metaobject.
-/

namespace MetaCache

/-- A compilation of an instance metaobject has these queries and that outcome exactly if the steps
lead there. Each query was answered by the host from the world as it was then, and nothing else was
asked: the outcome depends on these replies alone. -/
theorem instance_by_steps (host : Host) (inst : Value) (w : World) :
    (∀ qs out, Shadow.compile host inst w = out ∧ (Dialogue.shadow host inst).queries host w = qs ↔
      Shadow.Compiles host inst w qs out) ∧
    (∀ q ∈ (Dialogue.shadow host inst).queries host w, host.Answers q) ∧
    ∀ r w', Shadow.compile host inst w = .ok (r, w') → ∀ host' : Host, host'.Reads host →
      (∀ q ∈ (Dialogue.shadow host inst).queries host w, host'.Answers q) →
        Shadow.compile host' inst w = .ok (r, w') := by
  refine ⟨fun qs out => ⟨?_, fun h => ?_⟩, fun q hq => Dialogue.answers_of_mem_queries hq, ?_⟩
  · rintro ⟨rfl, rfl⟩
    obtain ⟨qs, out, h⟩ := Shadow.exists_compiles host inst w
    obtain ⟨hrun, hqs⟩ := Shadow.proceeds_of_compiles h
    rw [Dialogue.run_shadow] at hrun
    rwa [hrun, hqs]
  · obtain ⟨hrun, hqs⟩ := Shadow.proceeds_of_compiles h
    rw [Dialogue.run_shadow] at hrun
    exact ⟨hrun, hqs⟩
  · intro r w' h host' hr hq
    have hcomes := Dialogue.comes_queries (by rw [Dialogue.run_shadow]; exact h)
    have hshadow : Dialogue.shadow host' inst = Dialogue.shadow host inst := by
      rw [Dialogue.shadow, Dialogue.resolve_congr hr, ← Dialogue.shadow]
    rw [← Dialogue.run_shadow, hshadow, hcomes.run_eq hr hq]
    rfl

end MetaCache
