import MetaCache.Proofs.Compile.Captures
import MetaCache.Proofs.Interview.Basic
import MetaCache.Proofs.Introspection.Compile
/-!
# Attributes are asked by the rules

Each part of the dialogue of an attribute goes by the rules of an interview: from a question that is
to be asked next it comes to the question of the part after it, or stops where the rules stop. On
the way it finds out what its part of the descriptor is made of.

* `Interview.ends`: how an interview may end without a descriptor.
* `Interview.Finds`: what a part of a dialogue finds, and where it leads.
* `Interview.goes_descriptor`: the whole dialogue.
-/

namespace MetaCache

open Dialogue (Goes)

namespace Interview

variable {α : Type} {host : Host} {attr : Value} {qs : List Query} {q : AttributeQuery}
  {fs gs : List Finding} {w : World}

/-- How an interview may end without a descriptor: by the rules. -/
def ends (host : Host) (attr : Value) : Dialogue.Ends := ⟨Stopped attr, Unanswered host attr⟩

theorem Reached.not_weak {v : Value} (h : Reached attr qs (.heard q v w) fs) (hq : q ≠ .slots)
    (c : CellId) : v ≠ .weak c := by
  cases h with
  | hears _ _ v after =>
    rw [AttributeQuery.hold, if_neg hq]
    exact after.store.upgrade_ne_weak v c

theorem Reached.isWeak_eq_false {v : Value} (h : Reached attr qs (.heard q v w) fs)
    (hq : q ≠ .slots) : v.isWeak = false := by
  cases v with
  | weak c => exact absurd rfl (h.not_weak hq c)
  | _ => rfl

/-! ## Failing -/

theorem goes_failReleasing {e : Error} {post : List Query → α → World → Prop}
    (h : Stopped attr qs e) (os : List Owned) :
    Goes host (ends host attr) (Dialogue.failReleasing os e) qs w post :=
  .work_bind (.fail h)

/-- A value is refused only if the rules object to it. -/
theorem goes_failMismatch {v : Value} {m : String → Mismatch} {post : List Query → α → World → Prop}
    (h : Reached attr qs (.heard q v w) fs)
    (hv : q.objection? w.store v = some (m (w.store.valueText v))) :
    Goes host (ends host attr) (Dialogue.failMismatch v m) qs w post :=
  .work_bind (goes_failReleasing (.unusable h hv) _)

/-! ## Asking -/

/-- A query comes to the list of values that was replied. -/
theorem goes_askList (h : Reached attr qs (.toAsk (some q)) fs) :
    Goes host (ends host attr) (Dialogue.askList attr (.ofAttribute q)) qs w fun qs' vs w₁ =>
      qs' = qs ++ [⟨attr, .ofAttribute q, w, .ok vs, w₁⟩] := by
  refine .asks (fun e he => ⟨h, he⟩) fun reply w₁ _ => ?_
  cases reply with
  | error e => exact .fail (.failed h w e w₁)
  | ok vs => exact .pure rfl

/-- A query for one value leaves that value in hand, made strong. -/
theorem goes_askOne (h : Reached attr qs (.toAsk (some q)) fs) (hq : q ≠ .slots) :
    Goes host (ends host attr) (Dialogue.askOne attr (.ofAttribute q)) qs w fun qs' v w' =>
      Reached attr qs' (.heard q v w') fs := by
  have hmiscount (n : Nat) : q.miscount n = .arity (Introspection.ofAttribute q).name n := by
    rw [AttributeQuery.miscount, if_neg hq]
    rfl
  refine .bind ((goes_askList h).imp ?_)
  rintro qs' reply w₁ rfl
  match reply with
  | [v] =>
    refine .work ?_
    have hheard := Reached.hears h w v w₁
    rw [AttributeQuery.hold, if_neg hq] at hheard
    exact hheard
  | [] => exact goes_failReleasing (hmiscount 0 ▸ .miscounted h w (by simp) w₁) _
  | a :: b :: rest =>
    exact goes_failReleasing (hmiscount (rest.length + 2) ▸ .miscounted h w (by simp) w₁) _

/-- What a part of a dialogue finds out: it asks nothing but `asked`, the findings are as `post`
says, and the rules lead to `next`. -/
def Finds (attr : Value) (fs : List Finding) (asked : List AttributeQuery)
    (next : Option AttributeQuery) (post : List Finding → α → Prop) :
    List Query → α → World → Prop :=
  fun qs a _ => ∃ gs, Reached attr qs (.toAsk next) (fs ++ gs) ∧
    (∀ g ∈ gs, g.question ∈ asked) ∧ post gs a

/-- A question whose answer is its truth, to which there are no objections. -/
theorem goes_askFlag (h : Reached attr qs (.toAsk (some q)) fs) (hq : q ≠ .slots)
    (hno : ∀ s v, q.objection? s v = none) :
    Goes host (ends host attr) (Dialogue.askFlag attr (.ofAttribute q)) qs w fun qs' b _ =>
      ∃ f, f.question = q ∧ f.value.isTrue = b ∧
        Reached attr qs' (.toAsk (q.next? f.value)) (fs ++ [f]) := by
  refine .bind ((goes_askOne h hq).imp fun qs' v w' hheard => ?_)
  refine .work_bind (.work_bind (.pure ⟨⟨q, v, w'⟩, rfl, ?_, hheard.accepts (hno _ _)⟩))
  show v.isTrue = w'.store.isTrue v
  cases v with
  | weak c => exact absurd rfl (hheard.not_weak hq c)
  | _ => rfl

/-! ## The parts -/

theorem goes_key (name : String) {post : List Query → Key → World → Prop}
    (h : ∀ k w', k.text = name → k.hash = w.cache.nameHash name → post qs k w') :
    Goes host (ends host attr) (Dialogue.work (.key name)) qs w post := by
  have hbare := w.bare_key name
  refine .work (h _ _ (congrArg Key.text hbare) (congrArg Key.hash hbare))

theorem goes_slot : Goes host (ends host attr) (Dialogue.slot attr) [] w
    (Finds attr [] [.slots] (some .hasInitArg) fun gs k =>
      some (k.text, k.hash) = (on gs .slots).bind Finding.named?) := by
  refine .bind ((goes_askList .start).imp ?_)
  rintro qs' reply w₁ rfl
  have hmiscounted (hreply : reply.length ≠ 1) :
      Stopped attr [⟨attr, .ofAttribute .slots, w, .ok reply, w₁⟩] (.slotCount reply.length) :=
    Stopped.miscounted .start w hreply w₁
  match reply with
  | [v] =>
    have hheard : Reached attr _ (.heard .slots v w₁) [] := .hears .start w v w₁
    cases hv : v.text? with
    | some name =>
      have hok : AttributeQuery.slots.objection? w₁.store v = none := by
        rw [AttributeQuery.objection?, if_neg (by rw [hv]; simp)]
      simp only [hv]
      refine goes_key name fun k _ htext hhash =>
        ⟨[⟨.slots, v, w₁⟩], hheard.accepts hok, by simp, ?_⟩
      simp [on, Finding.named?, hv, htext, hhash]
    | none =>
      simp only [hv]
      refine goes_failMismatch hheard ?_
      show AttributeQuery.slots.objection? w₁.store v = _
      rw [AttributeQuery.objection?, if_pos hv]
  | [] => exact goes_failReleasing (hmiscounted (by simp)) _
  | _ :: _ :: _ => exact goes_failReleasing (hmiscounted (by simp)) _

theorem goes_initArg (h : Reached attr qs (.toAsk (some .hasInitArg)) fs) :
    Goes host (ends host attr) (Dialogue.initArg attr) qs w
      (Finds attr fs [.hasInitArg, .initArg] (some .hasDefault) fun gs k =>
        (k.map fun k => (k.text, k.hash)) = (on gs .initArg).bind Finding.named?) := by
  refine .bind ((goes_askFlag h (by decide) fun _ _ => rfl).imp ?_)
  rintro qs₁ b w₁ ⟨f, hf, hb, h₁⟩
  cases b with
  | false =>
    rw [AttributeQuery.next?, hb] at h₁
    refine .pure ⟨[f], h₁, by simp [hf], ?_⟩
    simp [on, hf]
  | true =>
    rw [AttributeQuery.next?, hb, if_pos rfl] at h₁
    refine .bind ((goes_askOne h₁ (by decide)).imp fun qs₂ v w₂ hheard => ?_)
    have haccepts (hok : AttributeQuery.initArg.objection? w₂.store v = none) :
        Reached attr qs₂ (.toAsk (some .hasDefault)) (fs ++ [f, ⟨.initArg, v, w₂⟩]) := by
      have := hheard.accepts hok
      rwa [List.append_assoc] at this
    have hasked : ∀ g ∈ [f, (⟨.initArg, v, w₂⟩ : Finding)],
        g.question ∈ [AttributeQuery.hasInitArg, .initArg] := by simp [hf]
    have hon : on [f, ⟨.initArg, v, w₂⟩] .initArg = some ⟨.initArg, v, w₂⟩ := by simp [on, hf]
    refine .work_bind ?_
    dsimp only [Work.apply]
    rw [Store.isDefined_of_strong (hheard.isWeak_eq_false (by decide))]
    by_cases hv : v = .undef
    · subst hv
      refine .work_bind (.pure ⟨_, haccepts rfl, hasked, ?_⟩)
      simp only [hon]
      rfl
    · rw [if_pos (bne_iff_ne.2 hv)]
      cases ht : v.text? with
      | some name =>
        have hok : AttributeQuery.initArg.objection? w₂.store v = none := by
          rw [AttributeQuery.objection?, if_neg (by simp [ht])]
        refine .bind (goes_key name fun k _ htext hhash =>
          .pure ⟨_, haccepts hok, hasked, ?_⟩)
        simp only [hon, Option.map_some, htext, hhash, Option.bind_some, Finding.named?, ht]
      | none =>
        refine goes_failMismatch hheard ?_
        rw [AttributeQuery.objection?, if_pos ⟨hv, ht⟩]

theorem goes_capture {v : Value} (h : Reached attr qs (.heard .default v w) fs) :
    Goes host (ends host attr) (Dialogue.capture v) qs w fun qs' d _ =>
      qs' = qs ∧ AttributeQuery.default.objection? w.store v = none ∧
        d = Finding.captured ⟨.default, v, w⟩ := by
  have hplain (hv : v.strong? = none) :
      AttributeQuery.default.objection? w.store v = none ∧
        DefaultStrategy.value v = Finding.captured ⟨.default, v, w⟩ := by
    have hcode : w.store.code? v = none := by
      rw [Store.code?, hv]
      rfl
    refine ⟨?_, ?_⟩
    · rw [AttributeQuery.objection?, if_neg fun hs => hs.1 hv]
    · simp only [Finding.captured, hcode, Option.bind_none]
  cases v with
  | ref c =>
    refine .work_bind ?_
    dsimp only [Work.apply]
    cases hcode : w.store.code? (.ref c) with
    | none =>
      refine goes_failMismatch h ?_
      rw [AttributeQuery.objection?, if_pos ⟨Option.some_ne_none c, by rw [hcode]; rfl⟩]
    | some code =>
      have hok : AttributeQuery.default.objection? w.store (.ref c) = none := by
        rw [AttributeQuery.objection?, if_neg fun hs => by rw [hcode] at hs; cases hs.2]
      refine .work_bind ?_
      dsimp only [Work.apply, id]
      cases hkind : w.cache.classifier code with
      | none =>
        refine .pure ⟨rfl, hok, ?_⟩
        simp only [Finding.captured, hcode, Option.bind_some, hkind]
      | some kind =>
        refine .work_bind (.pure ⟨rfl, hok, ?_⟩)
        simp only [Finding.captured, hcode, Option.bind_some, hkind]
  | _ => exact .pure ⟨rfl, hplain rfl⟩

theorem goes_default (h : Reached attr qs (.toAsk (some .hasDefault)) fs) :
    Goes host (ends host attr) (Dialogue.default attr) qs w
      (Finds attr fs [.hasDefault, .default, .hasBuilder, .builder] (some .hasInitializer)
        fun gs d => d = strategy (on gs .default) (on gs .builder)) := by
  refine .bind ((goes_askFlag h (by decide) fun _ _ => rfl).imp ?_)
  rintro qs₁ b w₁ ⟨f, hf, hb, h₁⟩
  cases b with
  | true =>
    rw [AttributeQuery.next?, hb, if_pos rfl] at h₁
    refine .bind ((goes_askOne h₁ (by decide)).imp fun qs₂ v w₂ hheard => ?_)
    refine (goes_capture hheard).imp ?_
    rintro _ d _ ⟨rfl, hok, rfl⟩
    have h₂ := hheard.accepts hok
    rw [List.append_assoc] at h₂
    refine ⟨_, h₂, by simp [hf], ?_⟩
    simp [on, hf, strategy]
  | false =>
    rw [AttributeQuery.next?, hb] at h₁
    refine .bind ((goes_askFlag h₁ (by decide) fun _ _ => rfl).imp ?_)
    rintro qs₂ b' w₂ ⟨f', hf', hb', h₂⟩
    rw [List.append_assoc] at h₂
    cases b' with
    | false =>
      rw [AttributeQuery.next?, hb'] at h₂
      refine .pure ⟨_, h₂, by simp [hf, hf'], ?_⟩
      simp [on, hf, hf', strategy]
    | true =>
      rw [AttributeQuery.next?, hb', if_pos rfl] at h₂
      refine .bind ((goes_askOne h₂ (by decide)).imp fun qs₃ v w₃ hheard => ?_)
      cases ht : v.text? with
      | some name =>
        have hok : AttributeQuery.builder.objection? w₃.store v = none := by
          rw [AttributeQuery.objection?, if_neg (by simp [ht])]
        have h₃ := hheard.accepts hok
        rw [List.append_assoc] at h₃
        refine .pure ⟨_, h₃, by simp [hf, hf'], ?_⟩
        simp [on, hf, hf', strategy, ht]
      | none =>
        refine goes_failMismatch hheard ?_
        rw [AttributeQuery.objection?, if_pos ht]

theorem goes_initializer (h : Reached attr qs (.toAsk (some .hasInitializer)) fs) :
    Goes host (ends host attr) (Dialogue.initializer attr) qs w
      (Finds attr fs [.hasInitializer, .initializer] none fun gs c =>
        c = (on gs .initializer).bind (·.value.strong?)) := by
  refine .bind ((goes_askFlag h (by decide) fun _ _ => rfl).imp ?_)
  rintro qs₁ b w₁ ⟨f, hf, hb, h₁⟩
  cases b with
  | false =>
    rw [AttributeQuery.next?, hb] at h₁
    refine .pure ⟨[f], h₁, by simp [hf], ?_⟩
    simp [on, hf]
  | true =>
    rw [AttributeQuery.next?, hb, if_pos rfl] at h₁
    refine .bind ((goes_askOne h₁ (by decide)).imp fun qs₂ v w₂ hheard => ?_)
    have hrefused (hcode : w₂.store.code? v = none) :
        AttributeQuery.initializer.objection? w₂.store v =
          some (.initializerNotCallable (w₂.store.valueText v)) := by
      rw [AttributeQuery.objection?, if_pos (by rw [hcode]; rfl)]
    refine .work_bind ?_
    cases v with
    | ref c =>
      dsimp only [Work.apply]
      cases hcode : w₂.store.code? (.ref c) with
      | none => exact goes_failMismatch hheard (hrefused hcode)
      | some code =>
        have hok : AttributeQuery.initializer.objection? w₂.store (.ref c) = none := by
          rw [AttributeQuery.objection?, hcode]
          rfl
        have h₂ := hheard.accepts hok
        rw [List.append_assoc] at h₂
        refine .pure ⟨_, h₂, by simp [hf], ?_⟩
        simp [on, hf, Value.strong?]
    | _ => exact goes_failMismatch hheard (hrefused rfl)

/-! ## The whole dialogue -/

theorem on_append (fs gs : List Finding) (q : AttributeQuery) :
    on (fs ++ gs) q = (on fs q).or (on gs q) := List.find?_append

theorem on_eq_none {asked : List AttributeQuery} (h : ∀ g ∈ gs, g.question ∈ asked)
    (hq : q ∉ asked) : on gs q = none := by
  refine List.find?_eq_none.2 fun g hg he => hq ?_
  rw [← of_decide_eq_true he]
  exact h g hg

/-- An attribute metaobject is asked by the rules, and its descriptor is made of what was found. -/
theorem goes_descriptor (host : Host) (origin : CellId) (w : World) :
    Goes host (ends host (.ref origin)) (Dialogue.descriptor (.ref origin)) [] w fun qs d _ =>
      ∃ fs, Reached (.ref origin) qs (.toAsk none) fs ∧ d.Records origin fs := by
  refine .bind (goes_slot.imp ?_)
  rintro qs₁ slot w₁ ⟨gs₁, h₁, hgs₁, hslot⟩
  refine .bind (((goes_initArg h₁).guarding _).imp ?_)
  rintro qs₂ initArg w₂ ⟨gs₂, h₂, hgs₂, hinitArg⟩
  refine .bind (((goes_default h₂).guarding _).imp ?_)
  rintro qs₃ default w₃ ⟨gs₃, h₃, hgs₃, hdefault⟩
  refine .bind (((goes_initializer h₃).guarding _).imp ?_)
  rintro qs₄ initializer w₄ ⟨gs₄, h₄, hgs₄, hinitializer⟩
  refine .work_bind (.work_bind (.pure ⟨_, h₄, ?_⟩))
  -- each question belongs to one part
  constructor
  case slot =>
    rw [hslot, List.nil_append, on_append, on_append, on_append,
      on_eq_none hgs₂ (by decide), on_eq_none hgs₃ (by decide), on_eq_none hgs₄ (by decide)]
    simp only [Option.or_none]
  case initArg =>
    rw [hinitArg, List.nil_append, on_append, on_append, on_append,
      on_eq_none hgs₁ (by decide), on_eq_none hgs₃ (by decide), on_eq_none hgs₄ (by decide)]
    simp only [Option.or_none, Option.none_or]
  case default =>
    have hon {q : AttributeQuery} (hq₁ : q ∉ [AttributeQuery.slots])
        (hq₂ : q ∉ [AttributeQuery.hasInitArg, .initArg])
        (hq₄ : q ∉ [AttributeQuery.hasInitializer, .initializer]) :
        on ([] ++ gs₁ ++ gs₂ ++ gs₃ ++ gs₄) q = on gs₃ q := by
      rw [List.nil_append, on_append, on_append, on_append, on_eq_none hgs₁ hq₁,
        on_eq_none hgs₂ hq₂, on_eq_none hgs₄ hq₄]
      simp only [Option.or_none, Option.none_or]
    rw [hdefault, hon (by decide) (by decide) (by decide),
      hon (by decide) (by decide) (by decide)]
  case initializer =>
    rw [hinitializer, List.nil_append, on_append, on_append, on_append,
      on_eq_none hgs₁ (by decide), on_eq_none hgs₂ (by decide), on_eq_none hgs₃ (by decide)]
    simp only [Option.none_or]
  case origin => rfl

end Interview

end MetaCache
