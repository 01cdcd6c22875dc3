import MetaCache.Proofs.Introspection.View
/-!
# Computations that follow a dialogue

A computation follows a dialogue if it comes to the same end as the dialogue does with the view of
the world in which the whole began, whatever upkeep the cache has done since. What it holds is kept
book of on the way, because a question may be asked only of what is still there.

* `Traces`: the end of a computation and the end of a dialogue.
* `Follows`: a computation that follows a dialogue.
* `Follows.bind`, `Follows.guarding`: computations in sequence, and with a clean-up.
* `follows_askOne`, `follows_askFlag`: questions.
-/

namespace MetaCache

variable {α α' β β' : Type}

/-- The end of a computation, that began with the view of `w₀` and whose caller holds `k`, is the
end of a dialogue: the result up to `bare`, the same error, or none for the same reason. -/
inductive Traces (host : Host) (w₀ : World) (k : Holding) (bare : α → β) (post : α → Holding) :
    Except Halt (Except Error α × World) → Except Halt (Except Error β) → Prop where
  | halts (h : Halt) : Traces host w₀ k bare post (.error h) (.error h)
  | fails {e : Error} {w : World} : host.Unmoved w₀ w → w.Covers (holding e.owned + k) →
    Traces host w₀ k bare post (.ok (.error e, w)) (.ok (.error e))
  | ends {a : α} {w : World} : host.Unmoved w₀ w → w.Covers (post a + k) →
    Traces host w₀ k bare post (.ok (.ok a, w)) (.ok (.ok (bare a)))

/-- The computation follows the dialogue from what is held before, and `k` besides. -/
def Follows (host : Host) (w₀ : World) (k : Holding) (x : Build α) (pre : Holding)
    (p : Protocol β) (bare : α → β) (post : α → Holding) : Prop :=
  ∀ w, host.Unmoved w₀ w → w.Covers (pre + k) →
    Traces host w₀ k bare post (x w) (p.run (host.view w₀))

variable {host : Host} {w₀ : World} {k pre : Holding} {x : Build α} {p : Protocol β} {bare : α → β}
  {post : α → Holding}

namespace Follows

/-- One computation after another. -/
theorem bind {f : α → Build α'} {q : β → Protocol β'} {bare' : α' → β'} {post' : α' → Holding}
    (hx : Follows host w₀ k x pre p bare post)
    (hf : ∀ a, p.run (host.view w₀) = .ok (.ok (bare a)) →
      Follows host w₀ k (f a) (post a) (q (bare a)) bare' post') :
    Follows host w₀ k (x >>= f) pre (p >>= q) bare' post' := by
  intro w hw hcov
  have h := hx w hw hcov
  rw [Build.bind_apply, Protocol.run_bind]
  generalize hr : p.run (host.view w₀) = r at h
  generalize x w = o at h
  cases h with
  | halts e => exact .halts e
  | fails hw' hcov' => exact .fails hw' hcov'
  | ends hw' hcov' => exact hf _ hr _ hw' hcov'

/-- What is held is given back with a failure. -/
theorem guarding (hc : host.Consistent) (ho : host.Orderly) {os : List Owned}
    (hx : Follows host w₀ (holding os + k) x 0 p bare post) :
    Follows host w₀ k (Build.guarding os x) (holding os) p bare fun a => post a + holding os := by
  intro w hw hcov
  have h := hx w hw (by rwa [zero_add])
  rw [Build.guarding_apply]
  generalize p.run (host.view w₀) = r at h
  generalize x w = o at h
  cases h with
  | halts e => exact .halts e
  | @fails e w' hw' hcov' =>
    rw [add_left_comm] at hcov'
    have hcov'' := hcov'.release
    exact .fails (hw'.trans (hc.unmoved_of_upkeep ho (.release w' os) hcov'')) hcov''
  | ends hw' hcov' =>
    rw [← add_assoc] at hcov'
    exact .ends hw' hcov'

/-- A step of the computation's own. -/
theorem own (hc : host.Consistent) (ho : host.Orderly) {r : World → α} {t : World → World} {b : β}
    (hx : ∀ w, x w = .ok (.ok (r w), t w)) (hup : ∀ w : World, w.Upkeep (t w))
    (hcov : ∀ w, w.Covers (pre + k) → (t w).Covers (post (r w) + k))
    (hb : ∀ w, host.Unmoved w₀ w → bare (r w) = b) :
    Follows host w₀ k x pre (.done b) bare post := by
  intro w hw h
  have h' := hcov w h
  rw [hx, ← hb w hw]
  exact .ends (hw.trans (hc.unmoved_of_upkeep ho (hup w) h')) h'

/-- A question that is answered from the world as it stands. -/
theorem ask {i : Inquiry} {next : i.Answer → Protocol β}
    (hlive : ∀ w, w.Covers (pre + k) → i.Live w)
    (h : ∀ w, host.Unmoved w₀ w → w.Covers (pre + k) → ∃ a, host.view w i = .ok a ∧
      Traces host w₀ k bare post (x w) ((next a).run (host.view w₀))) :
    Follows host w₀ k x pre (.ask i next) bare post := by
  intro w hw hcov
  obtain ⟨a, ha, ht⟩ := h w hw hcov
  rw [hw.view (hlive w hcov)] at ha
  rwa [Protocol.run_ask ha]

theorem pure {a : α} {b : β} (hb : bare a = b) (hp : post a = pre) :
    Follows host w₀ k (pure a) pre (.done b) bare post := by
  subst hb hp
  exact fun _ hw hcov => .ends hw hcov

theorem throw {e : Error} (he : e.owned = []) :
    Follows host w₀ k (throw e : Build α) 0 (.fail e) bare post := by
  intro w hw hcov
  refine .fails hw ?_
  rwa [he]

theorem release (hc : host.Consistent) (ho : host.Orderly) (os : List Owned) (g : Holding) :
    Follows host w₀ k (Action.release os) (holding os + g) (.done ()) id fun _ => g :=
  own hc ho (r := fun _ => ()) (fun _ => rfl) (fun w => .release w os)
    (fun w h => by rw [add_assoc] at h; exact h.release) fun _ _ => rfl

theorem release_all (hc : host.Consistent) (ho : host.Orderly) (os : List Owned) :
    Follows host w₀ k (Action.release os) (holding os) (.done ()) id fun _ => 0 := by
  have h : Follows host w₀ k (Action.release os) _ _ _ _ := release hc ho os 0
  rwa [add_zero] at h

theorem note (hc : host.Consistent) (ho : host.Orderly) (n : Note) (g : Holding) :
    Follows host w₀ k (Action.note n) g (.done ()) id fun _ => g :=
  own hc ho (r := fun _ => ()) (fun _ => rfl) (fun w => .note w n) (fun _ h => h) fun _ _ => rfl

theorem retainWeak (hc : host.Consistent) (ho : host.Orderly) (c : CellId) (g : Holding) :
    Follows host w₀ k (Action.retain [.weakCell c]) g (.done ()) id
      fun _ => holding [.weakCell c] + g :=
  own hc ho (r := fun _ => ()) (fun _ => rfl) (fun w => .retain w _)
    (fun w h => by
      rw [add_assoc]
      exact h.retain fun o ho => by rw [List.mem_singleton.1 ho]; rfl) fun _ _ => rfl

theorem failReleasing (hc : host.Consistent) (ho : host.Orderly) (os : List Owned) {e : Error}
    (he : e.owned = []) :
    Follows host w₀ k (Build.failReleasing os e : Build α) (holding os) (.fail e) bare post :=
  (release_all hc ho os).bind (q := fun _ => .fail e) fun _ _ => throw he

end Follows

/-! ## Questions -/

theorem Protocol.run_askList {V : View} {v : Value} {m : Introspection} {vs : List Value}
    (h : (Protocol.askList v m).run V = .ok (.ok vs)) : V (.call v m) = .ok (.ok vs) := by
  obtain ⟨reply, hv, h⟩ := run_ask_eq_ok h
  cases reply with
  | error e => cases h
  | ok us =>
    cases h
    exact hv

theorem Protocol.run_askOne {V : View} {v x : Value} {m : Introspection}
    (h : (Protocol.askOne v m).run V = .ok (.ok x)) : V (.call v m) = .ok (.ok [x]) := by
  obtain ⟨vs, hv, h⟩ := run_bind_eq_ok h
  match vs, h with
  | [y], h =>
    cases h
    exact run_askList hv

/-- The value is held, strongly if it is a reference. -/
def Value.Held (v : Value) (k : Holding) : Prop :=
  ∀ c, v.cell? = some c → 0 < k (.cell c)

theorem Value.held_owned {v : Value} (hv : v.isWeak = false) (k : Holding) :
    v.Held (holding v.owned + k) := by
  intro c hc
  cases v with
  | ref d =>
    cases hc
    exact Nat.add_pos_left (holding_pos rfl List.mem_cons_self) _
  | weak d => cases hv
  | _ => cases hc

theorem Value.Held.add {v : Value} (h : v.Held k) (g : Holding) : v.Held (g + k) :=
  fun c hc => Nat.add_pos_right _ (h c hc)

/-- What is held is there to be asked. -/
theorem Value.Held.alive {v : Value} (h : v.Held k) {w : World} (hcov : w.Covers k) :
    ∀ c, v.cell? = some c → w.store.alive c :=
  fun c hc => hcov.alive (h c hc)

theorem Store.isTrue_of_strong {v : Value} (hv : v.isWeak = false) (s : Store) :
    s.isTrue v = v.isTrue := by
  cases v with
  | weak c => cases hv
  | _ => rfl

section

variable (hc : host.Consistent) (ho : host.Orderly) {v : Value} {m : Introspection}

include hc ho

omit ho in
theorem follows_askList (hv : v.Held k) : Follows host w₀ k (host.askList v m.name) 0
    (Protocol.askList v m) id fun vs => holding (ownedByAll vs) := by
  intro w hw hcov
  rw [zero_add] at hcov
  have hview : host.view w₀ (.call v m) = (host.callMethod v m.name w).map Prod.fst :=
    (hw.view (i := .call v m) (hv.alive hcov)).symm
  rw [Protocol.askList, Protocol.run, hview, Host.askList_apply]
  cases hcall : host.callMethod v m.name w with
  | error h => exact .halts h
  | ok a =>
    obtain ⟨reply, w'⟩ := a
    have hans : host.Answers ⟨v, m, w, reply, w'⟩ := hcall
    have hw' := hw.trans (hc.unmoved hans hcov)
    have hcov' := (hc.quiet hans).covers k (by rwa [zero_add])
    cases reply with
    | ok vs => exact .ends hw' hcov'
    | error e => exact .fails hw' hcov'

variable (hs : host.Strong w₀)

include hs

omit hc ho in
/-- What is replied to a question about something that is held is strong. -/
theorem strong_of_run {w : World} (hw : host.Unmoved w₀ w) (hv : v.Held k) (hcov : w.Covers k)
    {vs : List Value} (h : host.view w₀ (.call v m) = .ok (.ok vs)) :
    ∀ x ∈ vs, x.isWeak = false :=
  hs v m vs (hw.live_of_live (hv.alive hcov)) h

omit hc ho hs in
theorem Follows.of_covered (h : ∀ w, host.Unmoved w₀ w → w.Covers (pre + k) →
    Follows host w₀ k x pre p bare post) : Follows host w₀ k x pre p bare post :=
  fun w hw hcov => h w hw hcov w hw hcov

theorem follows_askOne (hv : v.Held k) : Follows host w₀ k (host.askOne v m.name) 0
    (Protocol.askOne v m) id fun a => holding a.owned := by
  refine .of_covered fun w hw hcov => (follows_askList hc hv).bind fun vs hrun => ?_
  rw [zero_add] at hcov
  have hstrong := strong_of_run hs hw hv hcov (Protocol.run_askList hrun)
  match vs, hstrong with
  | [x], hstrong =>
    have hx : x.isWeak = false := hstrong x List.mem_cons_self
    have hup : ∀ s : Store, s.upgrade x = (x, s) := by
      intro s
      cases x with
      | weak c => cases hx
      | _ => rfl
    rw [ownedByAll_singleton]
    refine .own hc ho (r := fun _ => x) (t := fun w => w) (fun w => ?_) .refl (fun _ h => h)
      fun _ _ => rfl
    show Except.ok (Except.ok (w.store.upgrade x).1, { w with store := (w.store.upgrade x).2 }) = _
    rw [hup]
  | [], _ => exact .failReleasing hc ho _ rfl
  | _ :: _ :: _, _ => exact .failReleasing hc ho _ rfl

theorem follows_askFlag (hv : v.Held k) : Follows host w₀ k (host.askFlag v m.name) 0
    (Protocol.askFlag v m) id fun _ => 0 := by
  refine .of_covered fun w hw hcov => (follows_askOne hc ho hs hv).bind fun a hrun => ?_
  rw [zero_add] at hcov
  have ha : a.isWeak = false :=
    strong_of_run hs hw hv hcov (Protocol.run_askOne hrun) a List.mem_cons_self
  have hread : Follows host w₀ k (Action.readStore (·.isTrue a)) (holding a.owned)
      (.done a.isTrue) id fun _ => holding a.owned :=
    .own hc ho (r := fun w => w.store.isTrue a) (t := fun w => w) (fun _ => rfl) .refl
      (fun _ h => h) fun w _ => Store.isTrue_of_strong ha w.store
  exact hread.bind (q := fun b => .done b) fun b _ =>
    (Follows.release_all hc ho a.owned).bind (q := fun _ => .done b) fun _ _ => .pure rfl rfl

omit hs in
/-- A value that is of no use is given back, and its text is told. -/
theorem follows_refuse (hv : v.isWeak = false) (M : String → Mismatch) :
    Follows host w₀ k (Build.failMismatch v M : Build α) (holding v.owned)
      (Protocol.refuse v M : Protocol β) bare post := by
  refine .ask (fun w hcov => (Value.held_owned hv k).alive hcov) fun w hw hcov =>
    ⟨w.store.valueText v, rfl, ?_⟩
  exact Follows.failReleasing hc ho v.owned rfl w hw hcov

omit hc ho hs in
/-- The same for a value that the caller holds. -/
theorem follows_refuse_held (hv : v.Held k) (M : String → Mismatch) :
    Follows host w₀ k (do
        let got ← Action.readStore (·.valueText v)
        throw (.mismatch (M got)) : Build α) 0
      (Protocol.refuse v M : Protocol β) bare post := by
  refine .ask (fun w hcov => hv.alive (by rwa [zero_add] at hcov)) fun w hw hcov =>
    ⟨w.store.valueText v, rfl, ?_⟩
  exact Follows.throw rfl w hw hcov

omit hs in
/-- A value that turns out to be text is used up; any other one is given back with a failure. -/
theorem follows_text (hv : v.isWeak = false) {M : String → Mismatch} {f : String → Build α}
    {q : String → Protocol β} (hf : ∀ t, Follows host w₀ k (f t) 0 (q t) bare post) :
    Follows host w₀ k
      (match v.text? with
        | some t => f t
        | none => Build.failMismatch v M) (holding v.owned)
      (match v.text? with
        | some t => q t
        | none => Protocol.refuse v M) bare post := by
  cases ht : v.text? with
  | some t =>
    rw [Value.owned_of_text? ht]
    exact hf t
  | none => exact follows_refuse hc ho hv M

end

end MetaCache
