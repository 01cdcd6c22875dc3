import MetaCache.Proofs.Compile.Ledger
/-!
# Compilations as dialogues

A compilation works on the world by itself, a little at a time, and in between it asks metaobjects.
What it does next depends on what it found and on what it was replied, and on nothing else. Written
down as a dialogue it can be stopped where it waits for a reply, while host code does whatever it
likes, and be resumed in the world that host code has left.

* `Work`, `Dialogue`: the steps of a compilation, and compilations.
* `Dialogue.run`: the computation that a dialogue describes.
* `Dialogue.Comes`, `Dialogue.ComesIn`: how far a dialogue has come; `Dialogue.ComesIn.run_eq`,
  `Dialogue.ComesIn.of_bind`.
* `Dialogue.Balanced`: what is in hand at each point of a dialogue.
* `Dialogue.Balanced.meets`: a balanced dialogue meets every ledger.
-/

namespace MetaCache

/-- What a compilation does on its own. -/
inductive Work : Type → Type 1 where
  | read {β : Type} (f : World → β) : Work β
  | release (os : List Owned) : Work Unit
  | note (n : Note) : Work Unit
  | retainWeak (c : CellId) : Work Unit
  | key (name : String) : Work Key
  | upgrade (v : Value) : Work Value
  /-- Finds the class of that name and takes a share of it. -/
  | findClass (name : String) : Work (Option CellId)

namespace Work

variable {β : Type}

/-- What comes of the work, and the world that it leaves. -/
def apply (host : Host) : {β : Type} → Work β → World → β × World
  | _, read f, w => (f w, w)
  | _, release os, w => ((), w.onStore (·.release os))
  | _, note n, w => ((), w.onStore (·.note n))
  | _, retainWeak c, w => ((), w.onStore (·.retain [.weakCell c]))
  | _, key name, w => w.key name
  | _, upgrade v, w => ((w.store.upgrade v).1, { w with store := (w.store.upgrade v).2 })
  | _, findClass name, w =>
    (host.class? w name, w.onStore (·.retain (ownedByCell? (host.class? w name))))

/-- What the work takes from whoever does it. -/
def takes : {β : Type} → Work β → Holding
  | _, release os => holding os
  | _, upgrade v => holding v.owned
  | _, read _ | _, note _ | _, retainWeak _ | _, key _ | _, findClass _ => 0

/-- What whoever does the work gets. -/
def gives : {β : Type} → Work β → β → Holding
  | _, read _, _ | _, release _, _ | _, note _, _ => 0
  | _, retainWeak c, _ => holding [.weakCell c]
  | _, key _, k => holding k.owned
  | _, upgrade _, v => holding v.owned
  | _, findClass _, c => holding (ownedByCell? c)

theorem apply_congr {host host' : Host} (h : host'.Reads host) (x : Work β) :
    x.apply host' = x.apply host := by
  funext w
  cases x with
  | findClass name => simp only [apply, h.class?]
  | _ => rfl

/-- Every ledger has an entry for it. -/
theorem step {host : Host} (L : Ledger host) (x : Work β) (w : World) :
    L.Step w x.takes (x.apply host w).2 (x.gives (x.apply host w).1) := by
  cases x with
  | read f => exact L.refl w 0
  | release os => exact L.release w os
  | note n => exact L.note w n
  | retainWeak c => exact L.retainWeak w c
  | key name => exact L.key w name
  | upgrade v => exact L.upgrade w v
  | findClass name =>
    show L.Step w 0 (w.onStore (·.retain (ownedByCell? (host.class? w name))))
      (holding (ownedByCell? (host.class? w name)))
    cases hc : host.class? w name with
    | none => exact L.refl w 0
    | some c => exact L.retainClass hc

end Work

/-- A compilation. -/
inductive Dialogue (α : Type) : Type 1 where
  | ends (r : Except Error α)
  | does {β : Type} (x : Work β) (next : β → Dialogue α)
  | asks (v : Value) (m : Introspection) (next : Except HostError (List Value) → Dialogue α)

namespace Dialogue

variable {α β : Type}

/-- One dialogue after another. -/
def bind : Dialogue α → (α → Dialogue β) → Dialogue β
  | ends (.ok a), f => f a
  | ends (.error e), _ => ends (.error e)
  | does x next, f => does x fun b => (next b).bind f
  | asks v m next, f => asks v m fun reply => (next reply).bind f

instance : Monad Dialogue where
  pure a := ends (.ok a)
  bind := bind

theorem bind_ends_ok (a : α) (f : α → Dialogue β) : (ends (.ok a) >>= f) = f a := rfl

theorem bind_does {γ : Type} (x : Work γ) (next : γ → Dialogue α) (f : α → Dialogue β) :
    (does x next >>= f) = does x fun b => next b >>= f := rfl

theorem bind_asks (v : Value) (m : Introspection)
    (next : Except HostError (List Value) → Dialogue α) (f : α → Dialogue β) :
    (asks v m next >>= f) = asks v m fun reply => next reply >>= f := rfl

/-- A failure. -/
def fail (e : Error) : Dialogue α := ends (.error e)

/-- A piece of work. -/
def work (x : Work α) : Dialogue α := does x fun a => ends (.ok a)

/-- The dialogue; if it fails, `os` is given back before the failure is passed on. -/
def guarding (os : List Owned) : Dialogue α → Dialogue α
  | ends (.ok a) => ends (.ok a)
  | ends (.error e) => does (.release os) fun _ => ends (.error e)
  | does x next => does x fun b => (next b).guarding os
  | asks v m next => asks v m fun reply => (next reply).guarding os

/-! ## What a dialogue computes -/

/-- The computation on a host. -/
def run (host : Host) : Dialogue α → Build α
  | ends r => fun w => .ok (r, w)
  | does x next => fun w => (next (x.apply host w).1).run host (x.apply host w).2
  | asks v m next => fun w =>
    (host.callMethod v m.name w).bind fun p => (next p.1).run host p.2

variable {host host' : Host}

theorem run_asks (v : Value) (m : Introspection)
    (next : Except HostError (List Value) → Dialogue α) (w : World) :
    (asks v m next).run host w =
      (host.callMethod v m.name w).bind fun p => (next p.1).run host p.2 := rfl

theorem run_bind (d : Dialogue α) (f : α → Dialogue β) :
    (d >>= f).run host = d.run host >>= fun a => (f a).run host := by
  funext w
  rw [Build.bind_apply]
  induction d generalizing w with
  | ends r => cases r <;> rfl
  | does x next ih => exact ih _ _
  | asks v m next ih =>
    rw [bind_asks, run_asks, run_asks]
    cases host.callMethod v m.name w with
    | error h => rfl
    | ok p => exact ih p.1 p.2

theorem run_guarding (os : List Owned) (d : Dialogue α) :
    (d.guarding os).run host = Build.guarding os (d.run host) := by
  funext w
  rw [Build.guarding_apply]
  induction d generalizing w with
  | ends r => cases r <;> rfl
  | does x next ih => exact ih _ _
  | asks v m next ih =>
    rw [guarding, run_asks, run_asks]
    cases host.callMethod v m.name w with
    | error h => rfl
    | ok p => exact ih p.1 p.2

/-! ## How far a dialogue has come -/

/-- By way of the queries the dialogue has come from `w` to what is left of it in another world. All
that it did on its own it did in worlds that `P` holds of. -/
inductive ComesIn (P : World → Prop) (host : Host) (d : Dialogue α) (w : World) :
    List Query → Dialogue α → World → Prop where
  | start : ComesIn P host d w [] d w
  | work {qs : List Query} {β : Type} {x : Work β} {next : β → Dialogue α} {w' : World} :
    ComesIn P host d w qs (does x next) w' → P w' →
    ComesIn P host d w qs (next (x.apply host w').1) (x.apply host w').2
  | ask {qs : List Query} {q : Query} {next : Except HostError (List Value) → Dialogue α} :
    ComesIn P host d w qs (asks q.invocant q.method next) q.before →
    ComesIn P host d w (qs ++ [q]) (next q.reply) q.after

/-- By way of the queries the dialogue has come from `w` to what is left of it in another world. -/
abbrev Comes (host : Host) (d : Dialogue α) : World → List Query → Dialogue α → World → Prop :=
  d.ComesIn (fun _ => True) host

variable {P : World → Prop}

variable {d d' : Dialogue α} {f : α → Dialogue β} {w w' : World} {qs : List Query}

theorem ComesIn.comes (h : d.ComesIn P host w qs d' w') : d.Comes host w qs d' w' := by
  induction h with
  | start => exact .start
  | work _ _ ih => exact .work ih trivial
  | ask _ ih => exact .ask ih

/-- On a host that gives these replies the dialogue goes on from there. -/
theorem ComesIn.run_eq (h : d.ComesIn P host w qs d' w') (hr : host'.Reads host)
    (hq : ∀ q ∈ qs, host'.Answers q) : d.run host' w = d'.run host' w' := by
  induction h with
  | start => rfl
  | @work qs β x next w' _ _ ih =>
    rw [ih hq, run, x.apply_congr hr]
  | @ask qs q next _ ih =>
    have hlast : host'.callMethod q.invocant q.method.name q.before = .ok (q.reply, q.after) :=
      hq q (List.mem_append_right _ List.mem_cons_self)
    rw [ih fun q hm => hq q (List.mem_append_left _ hm), run_asks, hlast]
    rfl

/-- Of two dialogues one after another, the first one has not ended, or else the second one has
begun. -/
theorem ComesIn.of_bind {e : Dialogue β} (h : (d >>= f).ComesIn P host w qs e w') :
    (∃ d', e = d' >>= f ∧ d.ComesIn P host w qs d' w') ∨
    ∃ a w₁ qs₁ qs₂, qs = qs₁ ++ qs₂ ∧ d.ComesIn P host w qs₁ (ends (.ok a)) w₁ ∧
      (f a).ComesIn P host w₁ qs₂ e w' := by
  induction h with
  | start => exact .inl ⟨d, rfl, .start⟩
  | @work qs γ x next w' _ hP ih =>
    rcases ih with ⟨d', he, hd⟩ | ⟨a, w₁, qs₁, qs₂, rfl, hd, hf⟩
    · cases d' with
      | ends r =>
        cases r with
        | error _ => cases he
        | ok a =>
          rw [bind_ends_ok] at he
          refine .inr ⟨a, w', qs, [], (List.append_nil _).symm, hd, ?_⟩
          have hf : (f a).ComesIn P host w' [] (does x next) w' := he ▸ .start
          exact hf.work hP
      | does y next' =>
        rw [bind_does] at he
        cases he
        exact .inl ⟨_, rfl, hd.work hP⟩
      | asks _ _ _ => cases he
    · exact .inr ⟨a, w₁, qs₁, qs₂, rfl, hd, hf.work hP⟩
  | @ask qs q next _ ih =>
    rcases ih with ⟨d', he, hd⟩ | ⟨a, w₁, qs₁, qs₂, rfl, hd, hf⟩
    · cases d' with
      | ends r =>
        cases r with
        | error _ => cases he
        | ok a =>
          rw [bind_ends_ok] at he
          refine .inr ⟨a, q.before, qs, [q], rfl, hd, ?_⟩
          have hf : (f a).ComesIn P host q.before [] (asks q.invocant q.method next) q.before :=
            he ▸ .start
          exact hf.ask
      | does y next' => cases he
      | asks v m next' =>
        rw [bind_asks] at he
        cases he
        exact .inl ⟨_, rfl, hd.ask⟩
    · exact .inr ⟨a, w₁, qs₁, qs₂ ++ [q], List.append_assoc .., hd, hf.ask⟩

/-- Of two dialogues that have ended well, both have. -/
theorem ComesIn.of_bind_ok {b : β} (h : (d >>= f).ComesIn P host w qs (ends (.ok b)) w') :
    ∃ a w₁ qs₁ qs₂, qs = qs₁ ++ qs₂ ∧ d.ComesIn P host w qs₁ (ends (.ok a)) w₁ ∧
      (f a).ComesIn P host w₁ qs₂ (ends (.ok b)) w' := by
  rcases h.of_bind with ⟨d', he, hd⟩ | h
  · cases d' with
    | ends r =>
      cases r with
      | error _ => cases he
      | ok a =>
        refine ⟨a, w', qs, [], (List.append_nil _).symm, hd, ?_⟩
        rw [bind_ends_ok] at he
        exact he ▸ .start
    | _ => cases he
  · exact h

/-- A guarded dialogue is the dialogue itself until it fails. -/
theorem ComesIn.of_guarding {os : List Owned} {e : Dialogue α}
    (h : (d.guarding os).ComesIn P host w qs e w') :
    (∃ d', e = d'.guarding os ∧ d.ComesIn P host w qs d' w') ∨
      (∃ r, e = ends (.error r)) := by
  induction h with
  | start => exact .inl ⟨d, rfl, .start⟩
  | work _ hP ih =>
    rcases ih with ⟨d', he, hd⟩ | ⟨r, he⟩
    · cases d' with
      | ends r =>
        cases r with
        | error r =>
          cases he
          exact .inr ⟨r, rfl⟩
        | ok a => cases he
      | does y next' =>
        cases he
        exact .inl ⟨_, rfl, hd.work hP⟩
      | asks _ _ _ => cases he
    · cases he
  | ask _ ih =>
    rcases ih with ⟨d', he, hd⟩ | ⟨r, he⟩
    · cases d' with
      | ends r => cases r <;> cases he
      | does _ _ => cases he
      | asks v m next' =>
        cases he
        exact .inl ⟨_, rfl, hd.ask⟩
    · cases he

theorem ComesIn.of_guarding_ok {os : List Owned} {a : α}
    (h : (d.guarding os).ComesIn P host w qs (ends (.ok a)) w') :
    d.ComesIn P host w qs (ends (.ok a)) w' := by
  rcases h.of_guarding with ⟨d', he, hd⟩ | ⟨r, he⟩
  · cases d' with
    | ends r =>
      cases r with
      | error _ => cases he
      | ok b =>
        cases he
        exact hd
    | _ => cases he
  · cases he

/-! ## What is in hand -/

/-- The dialogue starts with `pre` in hand, gives back no more than it has, and ends with what its
outcome holds. -/
def Balanced : Dialogue α → Holding → (α → Holding) → Prop
  | ends r, pre, post => pre = outcome post r
  | does x next, pre, post =>
    ∃ g, pre = x.takes + g ∧ ∀ b, (next b).Balanced (x.gives b + g) post
  | asks _ _ next, pre, post =>
    ∀ reply, (next reply).Balanced (holding (ownedByReply reply) + pre) post

namespace Balanced

variable {pre : Holding} {mid post : α → Holding} {post' : β → Holding}

theorem pure (a : α) (post : α → Holding) : (Pure.pure a : Dialogue α).Balanced (post a) post := rfl

theorem fail {e : Error} (he : e.owned = []) (post : α → Holding) :
    (fail e : Dialogue α).Balanced 0 post := by
  show 0 = holding e.owned
  rw [he]
  rfl

theorem work (x : Work α) : (Dialogue.work x).Balanced x.takes x.gives :=
  ⟨0, (add_zero _).symm, fun _ => add_zero _⟩

theorem read (f : World → α) (g : Holding) : (Dialogue.work (.read f)).Balanced g fun _ => g :=
  ⟨g, (zero_add g).symm, fun _ => zero_add g⟩

theorem release (os : List Owned) (g : Holding) :
    (Dialogue.work (.release os)).Balanced (holding os + g) fun _ => g :=
  ⟨g, rfl, fun _ => zero_add g⟩

theorem note (n : Note) (g : Holding) : (Dialogue.work (.note n)).Balanced g fun _ => g :=
  ⟨g, (zero_add g).symm, fun _ => zero_add g⟩

theorem retainWeak (c : CellId) (g : Holding) :
    (Dialogue.work (.retainWeak c)).Balanced g fun _ => holding [.weakCell c] + g :=
  ⟨g, (zero_add g).symm, fun _ => rfl⟩

theorem bind (hd : d.Balanced pre mid) (hf : ∀ a, (f a).Balanced (mid a) post') :
    (d >>= f).Balanced pre post' := by
  induction d generalizing pre with
  | ends r =>
    cases r with
    | error e => exact hd
    | ok a =>
      rw [bind_ends_ok, show pre = mid a from hd]
      exact hf a
  | does x next ih =>
    obtain ⟨g, hpre, hnext⟩ := hd
    exact ⟨g, hpre, fun b => ih b (hnext b)⟩
  | asks v m next ih => exact fun reply => ih reply (hd reply)

/-- A dialogue that fails with nothing in hand may be guarded: what was held besides is given back
with the failure. -/
theorem guarding (hd : d.Balanced pre post) (os : List Owned) :
    (d.guarding os).Balanced (pre + holding os) fun a => post a + holding os := by
  induction d generalizing pre with
  | ends r =>
    rw [show pre = outcome post r from hd]
    cases r with
    | error e => exact ⟨holding e.owned, add_comm .., fun _ => zero_add _⟩
    | ok a => rfl
  | does x next ih =>
    obtain ⟨g, hpre, hnext⟩ := hd
    refine ⟨g + holding os, by rw [hpre, add_assoc], fun b => ?_⟩
    rw [← add_assoc]
    exact ih b (hnext b)
  | asks v m next ih =>
    intro reply
    rw [← add_assoc]
    exact ih reply (hd reply)

/-- A balanced dialogue meets every ledger. -/
theorem meets {L : Ledger host} (hd : d.Balanced pre post) :
    L.Meets (d.run host) pre post := by
  intro w
  induction d generalizing w pre with
  | ends r =>
    rw [show pre = outcome post r from hd]
    exact Ledger.meetsAt_of_step rfl (L.refl w _)
  | does x next ih =>
    obtain ⟨g, rfl, hnext⟩ := hd
    exact .after (L.frame g (x.step L w)) rfl (ih _ (hnext _) _)
  | asks v m next ih =>
    cases hc : host.callMethod v m.name w with
    | error halt =>
      have hrun : (asks v m next).run host w = .error halt := by
        rw [run_asks, hc]
        rfl
      refine ⟨fun r w' h => ?_, fun e h => ?_⟩
      · cases hrun.symm.trans h
      · cases hrun.symm.trans h
        exact ⟨w, pre, v, m.name, L.refl w pre, hc⟩
    | ok p =>
      obtain ⟨reply, w₁⟩ := p
      have hx := L.frame pre (L.query (q := ⟨v, m, w, reply, w₁⟩) hc)
      rw [zero_add] at hx
      have hnext : (asks v m next).run host w = (next reply).run host w₁ := by
        rw [run_asks, hc]
        rfl
      exact .after hx hnext (ih reply (hd reply) w₁)

end Balanced

end Dialogue

end MetaCache
