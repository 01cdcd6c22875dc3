import MetaCache.Script.Steps.Extensions
/-!
# Records that change hands

A script that puts a record into an extension slot, or empties the slot, is answered the record that
was in it. It keeps this record in the variable that it has named, or drops it.

* `Script.Exchanges`: what an exchange answers, and what it leaves.
* `Script.exchanges`: this is what becomes of every exchange.
* `Script.attach_eq_ok`, `Script.detach_eq_ok`: the two steps that exchange records.
-/

namespace MetaCache

/-- The world in which a record has been handed to a script, which keeps it or drops it. -/
def World.handed (name : Option String) (r? : Option Record) (w : World) : World :=
  match r?, name with
  | some r, some n => w.bind n (.record r)
  | some r, none => w.onStore (·.release r.owned)
  | none, _ => w

/-- A computation that has ended has gone through its parts. -/
theorem Action.bind_eq_ok {α β : Type} {x : Action α} {f : α → Action β} {w w' : World} {b : β}
    (h : (x >>= f) w = .ok (b, w')) : ∃ a w₁, x w = .ok (a, w₁) ∧ f a w₁ = .ok (b, w') := by
  have h : Except.bind (x w) (fun p => f p.1 p.2) = .ok (b, w') := h
  cases hx : x w with
  | error halt =>
    rw [hx] at h
    cases h
  | ok p =>
    rw [hx] at h
    exact ⟨p.1, p.2, rfl, h⟩

namespace Script

variable {α : Type} {args : List Value} {target : Expr} {name : Option String} {c : CellId}
  {r? : Option Record} {w w' : World} {a : Answer}

/-- The record `r?` was put into the slot of `c`, or the slot was emptied. -/
structure Exchanges (c : CellId) (r? : Option Record) (name : Option String) (w : World)
    (a : Answer) (w' : World) : Prop where
  /-- The answer shows the record that was in the slot, as it is when it has been taken out. -/
  answer : a = .record
    ((w.store.extension? c).map (w.onStore (·.setExtension c r?)).viewOwnRecord)
  /-- This record is handed over. -/
  handed : w' = (w.onStore (·.setExtension c r?)).handed name (w.store.extension? c)
  /-- It is in the variable that was named. -/
  kept : ∀ n r, name = some n → w.store.extension? c = some r →
    w'.session.find? n = some (.record r)

theorem keepRecord_eq (name : Option String) (r? : Option Record) (w : World) :
    keepRecord name r? w = .ok (.record (r?.map w.viewOwnRecord), w.handed name r?) := by
  cases r? <;> cases name <;> rfl

/-- An exchange ends, and hands the record over that was in the slot. -/
theorem exchanges (c : CellId) (r? : Option Record) (name : Option String) (w : World) :
    ∃ a w', exchange c r? name w = .ok (a, w') ∧ Exchanges c r? name w a w' := by
  have hexchange : exchange c r? name w =
      keepRecord name (w.store.extension? c) (w.onStore (·.setExtension c r?)) := rfl
  rw [hexchange, keepRecord_eq]
  refine ⟨_, _, rfl, rfl, rfl, ?_⟩
  rintro n r rfl hr
  rw [hr]
  exact (Session.find?_put _ n n _).trans (if_pos rfl)

theorem exchanges_of_eq_ok (h : exchange c r? name w = .ok (a, w')) :
    Exchanges c r? name w a w' := by
  obtain ⟨a', w'', heq, hex⟩ := exchanges c r? name w
  cases h.symm.trans heq
  exact hex

/-- The cell is there as long as the computation goes on, and is dropped afterwards. -/
theorem withCell_eq_ok {k : CellId → Action α} {x : α}
    (h : withCell args target k w = .ok (x, w')) :
    ∃ c w₁ w₂, target.eval args w = .ok (.ref c, w₁) ∧ k c w₁ = .ok (x, w₂) ∧
      w' = w₂.onStore (·.release [.cell c]) := by
  obtain ⟨v, w₁, heval, h⟩ := Action.bind_eq_ok h
  obtain ⟨x', w₂, hk, h⟩ := Action.bind_eq_ok h
  cases v with
  | ref c =>
    cases h
    exact ⟨c, w₁, w₂, heval, hk, rfl⟩
  | _ => cases hk

/-- A script that empties an extension slot. -/
theorem detach_eq_ok (h : detach args target name w = .ok (a, w')) :
    ∃ c w₁ w₂, target.eval args w = .ok (.ref c, w₁) ∧ Exchanges c none name w₁ a w₂ ∧
      w' = w₂.onStore (·.release [.cell c]) := by
  obtain ⟨c, w₁, w₂, heval, hex, hw'⟩ := withCell_eq_ok h
  exact ⟨c, w₁, w₂, heval, exchanges_of_eq_ok hex, hw'⟩

/-- A script that puts a record into an extension slot. -/
theorem attach_eq_ok {payload : Action PayloadId} {generation : Nat} {governor : Expr}
    (h : attach args target payload generation governor name w = .ok (a, w')) :
    ∃ c g p w₁ w₂ w₃ w₄, target.eval args w = .ok (.ref c, w₁) ∧
      governor.eval args w₁ = .ok (.ref g, w₂) ∧ payload w₂ = .ok (p, w₃) ∧
      Exchanges c (some ⟨p, generation, g⟩) name (w₃.onStore (·.retain [.weakCell g])) a w₄ ∧
      w' = (w₄.onStore (·.release [.cell g])).onStore (·.release [.cell c]) := by
  obtain ⟨c, w₁, w₅, htarget, hinner, rfl⟩ := withCell_eq_ok h
  obtain ⟨g, w₂, w₄, hgovernor, hbody, rfl⟩ := withCell_eq_ok hinner
  obtain ⟨p, w₃, hpayload, hretained⟩ := Action.bind_eq_ok hbody
  obtain ⟨_, _, hretain, hexchange⟩ := Action.bind_eq_ok hretained
  cases hretain
  exact ⟨c, g, p, w₁, w₂, w₃, w₄, htarget, hgovernor, hpayload, exchanges_of_eq_ok hexchange, rfl⟩

end Script

end MetaCache
