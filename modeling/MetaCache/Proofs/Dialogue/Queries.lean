import MetaCache.Proofs.Dialogue.Basic
/-!
# The queries of a dialogue

A dialogue that is run in a world makes queries of its host, one after another. Which ones it makes
depends on the replies, so they are found along the run. To say how a dialogue goes is to say what
it has asked, and what holds then, at each of its three ends: with a result, with an error, or at a
query that is never replied to.

* `Dialogue.queries`: the queries that were replied to, in order.
* `Dialogue.queries_bind`, `Dialogue.queries_guarding`: the queries of what is put together.
* `Dialogue.comes_queries`: a dialogue comes to its end by way of its queries;
  `Dialogue.run_of_unanswered`: it makes every one of them.
* `Dialogue.Goes`: how a dialogue goes, with a rule for each way to put one together.
-/

namespace MetaCache.Dialogue

variable {α β : Type} {host : Host}

/-- The queries that the dialogue makes of the host, in order. One that is never replied to is not
among them. -/
def queries (host : Host) : Dialogue α → World → List Query
  | ends _, _ => []
  | does x next, w => (next (x.apply host w).1).queries host (x.apply host w).2
  | asks v m next, w =>
    match host.callMethod v m.name w with
    | .error _ => []
    | .ok (reply, w₁) => ⟨v, m, w, reply, w₁⟩ :: (next reply).queries host w₁

theorem queries_asks {v : Value} {m : Introspection} {reply : Except HostError (List Value)}
    {w w₁ : World} (h : host.callMethod v m.name w = .ok (reply, w₁))
    (next : Except HostError (List Value) → Dialogue α) :
    (asks v m next).queries host w = ⟨v, m, w, reply, w₁⟩ :: (next reply).queries host w₁ := by
  rw [queries, h]

theorem queries_asks_of_error {v : Value} {m : Introspection} {w : World} {e : Halt}
    (h : host.callMethod v m.name w = .error e)
    (next : Except HostError (List Value) → Dialogue α) : (asks v m next).queries host w = [] := by
  rw [queries, h]

/-- The second of two dialogues makes its queries where the first one has ended well. -/
theorem queries_bind (d : Dialogue α) (f : α → Dialogue β) (w : World) :
    (d >>= f).queries host w = d.queries host w ++ match d.run host w with
      | .ok (.ok a, w') => (f a).queries host w'
      | _ => [] := by
  induction d generalizing w with
  | ends r => cases r <;> rfl
  | does x next ih => exact ih _ _
  | asks v m next ih =>
    rw [bind_asks, run_asks]
    cases hc : host.callMethod v m.name w with
    | error e =>
      rw [queries_asks_of_error hc, queries_asks_of_error hc]
      rfl
    | ok p =>
      rw [queries_asks hc, queries_asks hc, ih, List.cons_append]
      rfl

/-- What is given back with a failure asks nothing. -/
theorem queries_guarding (os : List Owned) (d : Dialogue α) (w : World) :
    (d.guarding os).queries host w = d.queries host w := by
  induction d generalizing w with
  | ends r => cases r <;> rfl
  | does x next ih => exact ih _ _
  | asks v m next ih =>
    rw [guarding]
    cases hc : host.callMethod v m.name w with
    | error e => rw [queries_asks_of_error hc, queries_asks_of_error hc]
    | ok p => rw [queries_asks hc, queries_asks hc, ih]

/-- The host has answered them. -/
theorem answers_of_mem_queries {d : Dialogue α} {w : World} {q : Query}
    (h : q ∈ d.queries host w) : host.Answers q := by
  induction d generalizing w with
  | ends r => cases h
  | does x next ih => exact ih _ h
  | asks v m next ih =>
    cases hc : host.callMethod v m.name w with
    | error e =>
      rw [queries_asks_of_error hc] at h
      cases h
    | ok p =>
      rw [queries_asks hc] at h
      rcases List.mem_cons.1 h with rfl | h
      · exact hc
      · exact ih _ h

/-- A dialogue comes to its end by way of its queries. -/
theorem comes_queries {d : Dialogue α} {w w' : World} {r : Except Error α}
    (h : d.run host w = .ok (r, w')) : d.Comes host w (d.queries host w) (ends r) w' := by
  -- generalised to a dialogue that has come some way before
  suffices ∀ (d d₀ : Dialogue α) (w w₀ : World) (qs : List Query), d₀.Comes host w₀ qs d w →
      d.run host w = .ok (r, w') → d₀.Comes host w₀ (qs ++ d.queries host w) (ends r) w' from
    this d d w w [] .start h
  intro d
  induction d with
  | ends r' =>
    intro d₀ w w₀ qs hc hr
    cases hr
    rwa [queries, List.append_nil]
  | does x next ih => exact fun d₀ w w₀ qs hc hr => ih _ d₀ _ w₀ qs (hc.work trivial) hr
  | asks v m next ih =>
    intro d₀ w w₀ qs hc hr
    rw [run_asks] at hr
    cases hq : host.callMethod v m.name w with
    | error e =>
      rw [hq] at hr
      cases hr
    | ok p =>
      rw [hq] at hr
      have hasked := ComesIn.ask (q := ⟨v, m, w, p.1, p.2⟩) hc
      have hrest := ih _ d₀ _ w₀ _ hasked hr
      rwa [queries_asks hq, List.append_cons]

/-- A dialogue makes every one of its queries: on a host that does not reply to one of them it does
not end. -/
theorem run_of_unanswered {inner : Host} {d : Dialogue α} {w : World} {qs rest : List Query}
    {q : Query} {e : Halt} (hr : inner.Reads host) (h : d.queries host w = qs ++ q :: rest)
    (hqs : ∀ p ∈ qs, inner.Answers p)
    (he : inner.callMethod q.invocant q.method.name q.before = .error e) :
    d.run inner w = .error e := by
  induction d generalizing w qs with
  | ends r => cases qs <;> cases h
  | does x next ih =>
    rw [run, x.apply_congr hr]
    exact ih _ h hqs
  | asks v m next ih =>
    cases hc : host.callMethod v m.name w with
    | error e' =>
      rw [queries_asks_of_error hc] at h
      cases qs <;> cases h
    | ok p =>
      rw [queries_asks hc] at h
      rw [run_asks]
      cases qs with
      | nil =>
        cases h
        rw [he]
        rfl
      | cons q₀ qs =>
        obtain ⟨rfl, hrest⟩ := List.cons.inj h
        obtain ⟨hfirst, hqs⟩ := List.forall_mem_cons.1 hqs
        rw [show inner.callMethod v m.name w = .ok (p.1, p.2) from hfirst]
        exact ih _ hrest hqs

/-! ## How a dialogue goes -/

/-- What holds at the ends of a dialogue that has no result, given the queries made by then. -/
structure Ends where
  failed : List Query → Error → Prop
  stuck : List Query → Halt → Prop

/-- With a result, `post` holds; any other end is one that `E` allows. -/
def Ends.Allow (E : Ends) (qs : List Query) (post : List Query → α → World → Prop) :
    Except Halt (Except Error α × World) → Prop
  | .error h => E.stuck qs h
  | .ok (.error e, _) => E.failed qs e
  | .ok (.ok a, w) => post qs a w

/-- In `w`, after the queries `qs`, the dialogue ends with a result and in a world that `post`
holds of, or in another way that `E` allows. -/
def Goes (host : Host) (E : Ends) (d : Dialogue α) (qs : List Query) (w : World)
    (post : List Query → α → World → Prop) : Prop :=
  E.Allow (qs ++ d.queries host w) post (d.run host w)

namespace Goes

variable {E : Ends} {d : Dialogue α} {f : α → Dialogue β} {qs : List Query} {w : World}
  {post mid : List Query → α → World → Prop} {post' : List Query → β → World → Prop}

theorem pure {a : α} (h : post qs a w) : Goes host E (Pure.pure a) qs w post := by
  show post (qs ++ []) a w
  rwa [List.append_nil]

theorem fail {e : Error} (h : E.failed qs e) : Goes host E (fail e) qs w post := by
  show E.failed (qs ++ []) e
  rwa [List.append_nil]

theorem work {x : Work α} (h : post qs (x.apply host w).1 (x.apply host w).2) :
    Goes host E (Dialogue.work x) qs w post := by
  show post (qs ++ []) _ _
  rwa [List.append_nil]

/-- A piece of work before a dialogue. -/
theorem work_bind {x : Work α}
    (h : Goes host E (f (x.apply host w).1) qs (x.apply host w).2 post') :
    Goes host E (Dialogue.work x >>= f) qs w post' := h

theorem asks {v : Value} {m : Introspection} {next : Except HostError (List Value) → Dialogue α}
    (hstuck : ∀ h, host.callMethod v m.name w = .error h → E.stuck qs h)
    (hnext : ∀ reply w₁, host.callMethod v m.name w = .ok (reply, w₁) →
      Goes host E (next reply) (qs ++ [⟨v, m, w, reply, w₁⟩]) w₁ post) :
    Goes host E (Dialogue.asks v m next) qs w post := by
  unfold Goes
  cases hc : host.callMethod v m.name w with
  | error h =>
    rw [run_asks, hc, queries_asks_of_error hc, List.append_nil]
    exact hstuck h hc
  | ok p =>
    rw [run_asks, hc, queries_asks hc, List.append_cons]
    exact hnext p.1 p.2 hc

theorem bind (h : Goes host E d qs w fun qs' a w' => Goes host E (f a) qs' w' post') :
    Goes host E (d >>= f) qs w post' := by
  unfold Goes at h ⊢
  rw [run_bind, Build.bind_apply, queries_bind]
  cases hr : d.run host w with
  | error e =>
    rw [hr] at h
    rwa [List.append_nil]
  | ok p =>
    obtain ⟨r, w'⟩ := p
    rw [hr] at h
    cases r with
    | error e => rwa [List.append_nil]
    | ok a => rwa [← List.append_assoc]

theorem imp (h : Goes host E d qs w mid) (hpost : ∀ qs' a w', mid qs' a w' → post qs' a w') :
    Goes host E d qs w post := by
  unfold Goes at h ⊢
  cases hr : d.run host w with
  | error e => rwa [hr] at h
  | ok p =>
    obtain ⟨r, w'⟩ := p
    rw [hr] at h
    cases r with
    | error e => exact h
    | ok a => exact hpost _ _ _ h

/-- What is given back with a failure does not change how a dialogue goes. -/
theorem guarding (h : Goes host E d qs w post) (os : List Owned) :
    Goes host E (d.guarding os) qs w post := by
  unfold Goes at h ⊢
  rw [run_guarding, Build.guarding_apply, queries_guarding]
  cases hr : d.run host w with
  | error e => rwa [hr] at h
  | ok p =>
    obtain ⟨r, w'⟩ := p
    rw [hr] at h
    cases r <;> exact h

end Goes

end MetaCache.Dialogue
