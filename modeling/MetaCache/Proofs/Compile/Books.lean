import MetaCache.Proofs.Dialogue.Compile
/-!
# The books of a compilation

Compiling starts with nothing in hand. It ends with all that the compiled structure owns, or, if it
fails, with what the error owns: whatever had been obtained by then is given back, wherever the
failure comes from. This holds in every ledger, because it holds of the dialogues of compilations.

* `Ledger.meets_compile`: compiling an attribute.
* `Ledger.meets_resolve`, `Ledger.meets_compile_shadow`: resolving and compiling an instance
  metaobject.
-/

namespace MetaCache.Ledger

variable {host : Host} {L : Ledger host}

/-- Compiling an attribute ends with all that the descriptor owns. -/
theorem meets_compile (attr : Value) :
    L.Meets (Descriptor.compile host attr) 0 fun d => holding d.owned := by
  rw [← Dialogue.run_descriptor]
  exact (Dialogue.balanced_descriptor attr).meets

/-- Resolving ends with the class held by the shadow, which has no attributes yet. -/
theorem meets_resolve (inst : Value) :
    L.Meets (Shadow.resolve host inst) 0 fun s => holding [.held (.shadow s)] := by
  rw [← Dialogue.run_resolve]
  exact (Dialogue.balanced_resolve host inst).meets

/-- Compiling an instance metaobject ends with all that the shadow owns. -/
theorem meets_compile_shadow (inst : Value) :
    L.Meets (Shadow.compile host inst) 0 fun s => holding [.held (.shadow s)] := by
  rw [← Dialogue.run_shadow]
  exact (Dialogue.balanced_shadow host inst).meets

end MetaCache.Ledger
