import MetaCache.Proofs.Custody.Exchanges
import MetaCache.Proofs.Custody.Lookups
import MetaCache.Proofs.Play.Runs
/-!
# Hosts whose methods come to acts

A metaobject that answers with fixed values shares what its object has. One that looks itself up
before it answers does what the lookup does. So there are hosts of every depth of nesting whose
methods come to acts, and lookups on them do as well.

* `minds_plainHost`, `Host.Minds.nesting`: such hosts.
* `ComesToActs`, `comesToActs`: what operations, lookups, discards and exchanges of records come to.
-/

namespace MetaCache

open Storage (Operation handedOut)

variable {S : CellId → String → Prop} {host : Host} {w : World} {f : Holding}

theorem Estate.Exact.world_covers {ks : List Key} (h : (w.estate ks f).Exact) : w.Covers f := by
  have hcov := h.covers
  rwa [show (w.estate ks f).falling = [] from rfl, holding_nil, zero_add] at hcov

/-- Metaobjects that answer without code share what their objects have. -/
theorem minds_plainHost : plainHost.Minds S where
  answers q hq := by
    obtain ⟨hreply, hafter⟩ := answers_plain hq
    have hcount : q.before.Minds S 0 q.before.countCall 0 := .of_eq rfl rfl rfl rfl
    rw [hafter]
    exact hcount.trans (.retain fun g ks he =>
      he.world_covers.present_of_hands (hands_plainReply hreply))
  classes he hc := he.world_covers.alive_of_class? hc

namespace Host

/-- What comes of a lookup is dropped. -/
theorem Minds.lookUp (h : host.Minds S) (v : Value) (w : World) :
    w.Minds S 0 (host.lookUp v w) 0 := by
  cases v with
  | ref c =>
    unfold Host.lookUp
    dsimp only
    split
    · rename_i halive
      split
      · rename_i r w' hrun
        have hretain : w.Minds S 0 (w.onStore (·.retain [.cell c])) (holding [.cell c]) :=
          .retain fun _ _ _ o ho => by rw [List.mem_singleton.1 ho]; exact halive
        have hlookup := h.lookup hrun
        have hgiven : outcome (fun p => holding [.payload p]) r +
            holding (Lookup.shadow (.ref c)).owned =
            holding (ownedByAnswer r ++ [.cell c]) := by
          rw [holding_append]
          cases r <;> rfl
        rw [hgiven] at hlookup
        exact hretain.trans (hlookup.trans (.release _ _))
      · exact .refl w 0
    · exact .refl w 0
  | _ => exact .refl w 0

/-- Metaobjects may look themselves up, on a host whose metaobjects may do so in turn. -/
theorem Minds.nesting (h : host.Minds S) : host.nesting.Minds S where
  answers q hq := (h.lookUp q.invocant q.before).trans
    (h.answers { q with before := host.lookUp q.invocant q.before } hq)
  classes := h.classes

end Host

/-- Whatever is done with shares comes to acts in a row. What is handed in is in the hand before,
and what is answered is in the hand afterwards. -/
structure ComesToActs : Prop where
  /-- An operation on a slot names no other slot. -/
  operation : ∀ {hash : String → UInt32} {e : Estate} {s : Store} {f : Holding} {inst : Value}
    {slot : Key} {op : Operation}, e.falling = [] → slot ∈ e.keys → s.nameAlive slot.name →
    s.Covers (holding op.given + f) →
    (e.now s (holding op.given + f)).Leads hash (Estate.SlotOf inst slot)
      (e.now (op.run inst slot s).2 (holding (handedOut (op.run inst slot s).1) + f))
  /-- A lookup names the slots that the methods of its host name. -/
  lookup : ∀ {host : Host} {S : CellId → String → Prop} {l : Lookup} {w w' : World}
    {r : Except Error PayloadId}, host.Minds S → l.run host w = .ok (r, w') →
    w.Minds S (holding l.owned) w' (outcome (fun p => holding [.payload p]) r + holding l.owned)
  /-- So does a lookup that does not end, up to the method call that does not. -/
  unfinished : ∀ {host : Host} {S : CellId → String → Prop} {l : Lookup} {w : World} {h : Halt},
    host.Minds S → l.run host w = .error h →
    ∃ w₁ held v m, w.Minds S (holding l.owned) w₁ (held + holding l.owned) ∧
      host.callMethod v m w₁ = .error h
  /-- There are such hosts: one whose metaobjects answer without code, and, over each, the one
  whose metaobjects look themselves up before they answer. -/
  plain : ∀ S : CellId → String → Prop, plainHost.Minds S
  nesting : ∀ {host : Host} {S : CellId → String → Prop}, host.Minds S → host.nesting.Minds S
  /-- A discard names no slot. -/
  invalidate : ∀ (S : CellId → String → Prop) (w : World) (v : Value),
    w.Minds S 0 (w.invalidate v).2 0
  /-- Whoever puts a record into an extension slot, or empties it, gets the one that was in it. -/
  attach : ∀ (S : CellId → String → Prop) {w : World} {c : CellId}, w.store.alive c →
    ∀ r? : Option Record, w.Minds S (holding (ownedByRecord? r?)) (w.onStore (·.setExtension c r?))
      (holding (ownedByRecord? (w.store.extension? c)))
  /-- An exchange of records by a script always ends. -/
  exchanges : ∀ (c : CellId) (r? : Option Record) (name : Option String) (w : World),
    ∃ a w', Script.exchange c r? name w = .ok (a, w') ∧ Script.Exchanges c r? name w a w'
  /-- A script that puts a record into an extension slot is answered the one that was in it, and
  keeps it or drops it. -/
  attached : ∀ {args : List Value} {target governor : Script.Expr} {payload : Action PayloadId}
    {generation : Nat} {name : Option String} {w w' : World} {a : Script.Answer},
    Script.attach args target payload generation governor name w = .ok (a, w') →
    ∃ c g p w₁ w₂ w₃ w₄, target.eval args w = .ok (.ref c, w₁) ∧
      governor.eval args w₁ = .ok (.ref g, w₂) ∧ payload w₂ = .ok (p, w₃) ∧
      Script.Exchanges c (some ⟨p, generation, g⟩) name (w₃.onStore (·.retain [.weakCell g])) a
        w₄ ∧ w' = (w₄.onStore (·.release [.cell g])).onStore (·.release [.cell c])
  /-- So is one that empties an extension slot. -/
  detached : ∀ {args : List Value} {target : Script.Expr} {name : Option String} {w w' : World}
    {a : Script.Answer}, Script.detach args target name w = .ok (a, w') →
    ∃ c w₁ w₂, target.eval args w = .ok (.ref c, w₁) ∧ Script.Exchanges c none name w₁ a w₂ ∧
      w' = w₂.onStore (·.release [.cell c])
  /-- Whoever asks the cache for a key has a share of its name. -/
  key : ∀ (S : CellId → String → Prop) (w : World) (name : String),
    w.Minds S 0 (w.key name).2 (holding (w.key name).1.owned)
  /-- Copies may be made of what is there. -/
  retain : ∀ (S : CellId → String → Prop) {w : World} {os : List Owned},
    (∀ o ∈ os, w.store.present o) → w.Minds S 0 (w.onStore (·.retain os)) (holding os)
  /-- Shares may be given back. -/
  release : ∀ (S : CellId → String → Prop) (w : World) (os : List Owned),
    w.Minds S (holding os) (w.onStore (·.release os)) 0

theorem comesToActs : ComesToActs where
  operation := Estate.leads_operation
  lookup h hl := h.lookup hl
  unfinished h hl := h.stuck hl
  plain _ := minds_plainHost
  nesting h := h.nesting
  invalidate _ := World.minds_invalidate
  attach _ _ _ hc r? := .of_store fun _ _ _ => Estate.leads_attach rfl hc r?
  exchanges := Script.exchanges
  attached := Script.attach_eq_ok
  detached := Script.detach_eq_ok
  key _ := .key
  retain _ _ _ ho := .retain fun _ _ _ => ho
  release _ := .release

end MetaCache
