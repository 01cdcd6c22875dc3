import Mathlib.Data.List.Forall2
import MetaCache.Proofs.Play.Builds
/-!
# When things happen in a play

A build notes the steps at which it began, asked and was replied to. These steps are in the play,
one after another, and they tell what the build says of them: so its queries are queries of the
play. The worlds of a play come in the order of time. A class that has a generation now and had it
once has had it at every step in between.

* `Task.Timed`, `Play.timed`: the builds under way; `Play.timed_product`: those that have ended.
* `Play.pairwise`, `Play.later`: the order of time.
* `Play.steady`: classes that have not moved.
-/

namespace MetaCache

variable {host : Host} {w₀ : World} {f₀ : Holding} {n : Nat} {x y : Stage} {a : Act}
  {ts us : List Turn} {t : Task}

theorem getElem?_append_of_some {i : Nat} {t : Turn} (h : ts[i]? = some t) (us : List Turn) :
    (ts ++ us)[i]? = some t := by
  rw [List.getElem?_append_left (List.getElem?_eq_some_iff.1 h).1, h]

/-- The last of the steps. -/
theorem getElem?_concat (ts : List Turn) (t : Turn) : (ts ++ [t])[ts.length]? = some t := by
  rw [List.getElem?_append_right (Nat.le_refl _), Nat.sub_self]
  rfl

/-! ## Builds -/

/-- The steps at which the query was made and replied to. -/
def Query.Spans (ts : List Turn) (q : Query) (s : Nat × Nat) : Prop :=
  ts[s.1]? = some ⟨.asked q.invocant q.method, q.before, q.before⟩ ∧
    ts[s.2]? = some ⟨.replied q.reply, q.after, q.after⟩

namespace Task

/-- The steps that a build has noted. -/
def steps (t : Task) : List Nat :=
  t.number :: t.spans.flatMap fun s => [s.1, s.2]

/-- The build began, asked and was replied to at the steps that it has noted, in this order. -/
structure Timed (ts : List Turn) (t : Task) : Prop where
  began : ∃ w, ts[t.number]? = some ⟨.missed t.lookup, w, t.began⟩
  spans : List.Forall₂ (Query.Spans ts) t.queries t.spans
  order : t.steps.Pairwise (· < ·)
  lt : ∀ i ∈ t.steps, i < ts.length

theorem Timed.append (h : t.Timed ts) (us : List Turn) : t.Timed (ts ++ us) where
  began := h.began.imp fun _ hw => getElem?_append_of_some hw us
  spans := h.spans.imp fun _ _ hq =>
    ⟨getElem?_append_of_some hq.1 us, getElem?_append_of_some hq.2 us⟩
  order := h.order
  lt i hi := by
    rw [List.length_append]
    exact Nat.lt_add_right _ (h.lt i hi)

end Task

/-- The build that waits asked last at the step noted. -/
structure Frame.Timed (ts : List Turn) (fr : Frame) : Prop where
  task : fr.task.Timed ts
  asked : ts[fr.number]? = some ⟨.asked fr.invocant fr.method, fr.asked, fr.asked⟩
  last : ∀ i ∈ fr.task.steps, i < fr.number

theorem Frame.Timed.append {fr : Frame} (h : fr.Timed ts) (us : List Turn) :
    fr.Timed (ts ++ us) :=
  ⟨h.task.append us, getElem?_append_of_some h.asked us, h.last⟩

/-- What all builds under way have noted is in the play. -/
structure Stage.Timed (ts : List Turn) (x : Stage) : Prop where
  work : ∀ t rest, x.focus = .cache t rest → t.Timed ts
  wait : ∀ fr ∈ x.frames, fr.Timed ts

/-- A build that is replied to. -/
theorem Frame.Timed.replied {fr : Frame} (h : fr.Timed ts) {w : World}
    {reply : Except HostError (List Value)} {us : List Turn}
    (hus : us = ts ++ [⟨.replied reply, w, w⟩]) :
    Task.Timed us { fr.task with
      queries := fr.task.queries ++ [⟨fr.invocant, fr.method, fr.asked, reply, w⟩]
      spans := fr.task.spans ++ [(fr.number, ts.length)] } := by
  have hbefore : fr.Timed us := hus ▸ h.append _
  have hlast : us[ts.length]? = some ⟨.replied reply, w, w⟩ := by
    rw [hus]
    exact getElem?_concat ts _
  have hlt : fr.number < ts.length := (List.getElem?_eq_some_iff.1 h.asked).1
  have hsteps : Task.steps { fr.task with
      queries := fr.task.queries ++ [⟨fr.invocant, fr.method, fr.asked, reply, w⟩]
      spans := fr.task.spans ++ [(fr.number, ts.length)] } =
      fr.task.steps ++ [fr.number, ts.length] := by
    rw [Task.steps, Task.steps, List.flatMap_append]
    rfl
  refine ⟨hbefore.task.began, ?_, ?_, ?_⟩
  · exact List.rel_append hbefore.task.spans (.cons ⟨hbefore.asked, hlast⟩ .nil)
  · rw [hsteps]
    refine List.pairwise_append.2 ⟨h.task.order, by simpa using hlt, fun i hi j hj => ?_⟩
    have hi := h.last i hi
    rcases List.mem_pair.1 hj with rfl | rfl
    · exact hi
    · exact Nat.lt_trans hi hlt
  · rw [hsteps, hus, List.length_append, List.length_singleton]
    intro i hi
    rcases List.mem_append.1 hi with hi | hi
    · exact Nat.lt_succ_of_lt (h.task.lt i hi)
    · rcases List.mem_pair.1 hi with rfl | rfl
      · exact Nat.lt_succ_of_lt hlt
      · exact Nat.lt_succ_self _

theorem Stage.Timed.step (h : x.Timed ts) (hs : Step host ts.length x a y) :
    y.Timed (ts ++ [⟨a, x.world, y.world⟩]) := by
  obtain ⟨hwork, hwait⟩ := h
  have hwait' : ∀ fr ∈ x.frames, fr.Timed (ts ++ [⟨a, x.world, y.world⟩]) :=
    fun fr hfr => (hwait fr hfr).append _
  cases hs with
  | missed _ _ _ _ =>
    refine ⟨fun t rest he => ?_, hwait'⟩
    cases he
    refine ⟨⟨_, getElem?_concat ts _⟩, .nil, List.pairwise_singleton _ _, ?_⟩
    rw [List.length_append]
    exact List.forall_mem_singleton.2 (Nat.lt_succ_self _)
  | worked w frames t x next =>
    refine ⟨fun t rest he => ?_, hwait'⟩
    cases he
    exact (hwork _ _ rfl).append _
  | asked w frames t v m next =>
    refine ⟨fun _ _ he => (nomatch he), List.forall_mem_cons.2 ⟨?_, hwait'⟩⟩
    have ht := hwork _ _ rfl
    exact ⟨ht.append _, getElem?_concat ts _, ht.lt⟩
  | replied w fr frames reply =>
    refine ⟨fun t rest he => ?_, (List.forall_mem_cons.1 hwait').2⟩
    cases he
    exact (hwait fr List.mem_cons_self).replied rfl
  | _ => exact ⟨fun _ _ he => (nomatch he), hwait'⟩

theorem Play.timed (h : Play host w₀ f₀ ts x) : x.Timed ts :=
  h.induct ⟨fun _ _ he => (nomatch he), fun _ hfr => nomatch hfr⟩ fun _ ih hs => ih.step hs

/-- What a build that has ended has noted is in the play, and so is its end. -/
theorem Play.timed_product (h : Play host w₀ f₀ ts x) :
    ∀ b ∈ products ts, b.toTask.Timed ts ∧ ∃ w, ⟨.built b, b.ended, w⟩ ∈ ts := by
  refine h.induct (P := fun ts _ => ∀ b ∈ products ts,
    b.toTask.Timed ts ∧ ∃ w, ⟨.built b, b.ended, w⟩ ∈ ts) (fun _ hb => nomatch hb)
    fun {ts x a y} hp ih hs b hb => ?_
  rcases mem_products_concat.1 hb with hb | rfl
  · obtain ⟨ht, w, hm⟩ := ih b hb
    exact ⟨ht.append _, w, List.mem_append_left _ hm⟩
  · obtain ⟨hfocus, hended, -⟩ := hs.built_inv
    refine ⟨(hp.timed.work _ _ hfocus).append _, y.world, ?_⟩
    rw [hended]
    exact List.mem_append_right _ (List.mem_singleton.2 rfl)

/-- A later step than one that was noted. -/
theorem mem_drop_of_getElem? {i j : Nat} {t : Turn} (h : ts[j]? = some t) (hij : i ≤ j) :
    t ∈ ts.drop i := by
  refine List.mem_of_getElem? (i := j - i) ?_
  rw [List.getElem?_drop, Nat.add_sub_cancel' hij, h]

/-- Queries made after a step. -/
theorem Query.mem_drop_of_spans {qs : List Query} {ss : List (Nat × Nat)} {i : Nat}
    (h : List.Forall₂ (Query.Spans ts) qs ss)
    (hi : ∀ j ∈ ss.flatMap fun s => [s.1, s.2], i ≤ j) : ∀ q ∈ qs,
      ⟨.asked q.invocant q.method, q.before, q.before⟩ ∈ ts.drop i ∧
        ⟨.replied q.reply, q.after, q.after⟩ ∈ ts.drop i := by
  induction h with
  | nil => exact fun _ hq => nomatch hq
  | cons hfirst _ ih =>
    obtain ⟨hs, hi⟩ := List.forall_mem_append.1 hi
    refine List.forall_mem_cons.2 ⟨⟨?_, ?_⟩, ih hi⟩
    · exact mem_drop_of_getElem? hfirst.1 (hs _ List.mem_cons_self)
    · exact mem_drop_of_getElem? hfirst.2 (hs _ (List.mem_cons_of_mem _ List.mem_cons_self))

namespace Task.Timed

/-- All queries of a build are made after it began. -/
theorem queries (h : t.Timed ts) : ∀ q ∈ t.queries,
    ⟨.asked q.invocant q.method, q.before, q.before⟩ ∈ ts.drop t.number ∧
      ⟨.replied q.reply, q.after, q.after⟩ ∈ ts.drop t.number :=
  Query.mem_drop_of_spans h.spans fun j hj =>
    Nat.le_of_lt ((List.pairwise_cons.1 h.order).1 j hj)

/-- The first query of a build, and those that it makes when this has been replied to. -/
theorem first {q : Query} {qs : List Query} (h : t.Timed ts) (hqs : t.queries = q :: qs) :
    ∃ s ss, t.spans = s :: ss ∧ ts[s.2]? = some ⟨.replied q.reply, q.after, q.after⟩ ∧
      ∀ q' ∈ qs, ⟨.asked q'.invocant q'.method, q'.before, q'.before⟩ ∈ ts.drop s.2 ∧
        ⟨.replied q'.reply, q'.after, q'.after⟩ ∈ ts.drop s.2 := by
  have hspans := h.spans
  rw [hqs] at hspans
  cases hss : t.spans with
  | nil =>
    rw [hss] at hspans
    cases hspans
  | cons s ss =>
    rw [hss] at hspans
    obtain ⟨hfirst, hrest⟩ := List.forall₂_cons.1 hspans
    refine ⟨s, ss, rfl, hfirst.2, Query.mem_drop_of_spans hrest fun j hj => ?_⟩
    have horder := h.order
    rw [steps, hss] at horder
    exact Nat.le_of_lt ((List.pairwise_cons.1 (List.pairwise_cons.1
      (List.pairwise_cons.1 horder).2).2).1 j hj)

end Task.Timed

/-! ## The order of time -/

theorem Play.later (ho : host.Orderly) (h : Play host w₀ f₀ ts x) :
    ∀ t ∈ ts, host.Later t.after x.world := by
  refine h.induct (P := fun ts x => ∀ t ∈ ts, host.Later t.after x.world)
    (fun _ hm => nomatch hm) fun _ ih hs t ht => ?_
  rcases List.mem_append.1 ht with ht | ht
  · exact (ih t ht).trans (hs.later ho)
  · rw [List.mem_singleton.1 ht]
    exact .refl _

/-- The worlds of a play come in the order of time. -/
theorem Play.pairwise (ho : host.Orderly) (h : Play host w₀ f₀ ts x) :
    ts.Pairwise fun t t' => host.Later t.after t'.after := by
  refine h.induct (P := fun ts _ => ts.Pairwise fun t t' => host.Later t.after t'.after) .nil
    fun hp ih hs => ?_
  refine List.pairwise_append.2 ⟨ih, List.pairwise_singleton _ _, fun t ht t' ht' => ?_⟩
  rw [List.mem_singleton.1 ht']
  exact (hp.later ho t ht).trans (hs.later ho)

/-- The worlds of a play from a step on. -/
theorem Play.later_of_mem_drop (ho : host.Orderly) (h : Play host w₀ f₀ ts x) {i : Nat}
    {t t' : Turn} (ht : ts[i]? = some t) (ht' : t' ∈ ts.drop i) : host.Later t.after t'.after := by
  obtain ⟨hlt, hget⟩ := List.getElem?_eq_some_iff.1 ht
  have hp := (h.pairwise ho).sublist (List.drop_sublist i ts)
  rw [List.drop_eq_getElem_cons hlt, hget] at ht' hp
  rcases List.mem_cons.1 ht' with rfl | ht'
  · exact .refl _
  · exact (List.pairwise_cons.1 hp).1 t' ht'

/-- A class that is there after a step and now, under one generation, was there at every step in
between, under the same generation. -/
theorem Play.steady (ho : host.Orderly) (h : Play host w₀ f₀ ts x) {i : Nat} {t : Turn} {c : CellId}
    (ht : ts[i]? = some t) (hc : t.after.store.alive c) (ha : x.world.store.alive c)
    (hg : host.generation x.world c = host.generation t.after c) {t' : Turn}
    (ht' : t' ∈ ts.drop i) :
    t'.after.store.alive c ∧ host.generation t'.after c = host.generation t.after c := by
  have hbefore := h.later_of_mem_drop ho ht ht'
  have hafter := h.later ho t' (List.mem_of_mem_drop ht')
  have hlt := Store.lt_next_of_alive hc
  have hlt' := Nat.lt_of_lt_of_le hlt hbefore.cells_next
  have halive := hafter.alive hlt' ha
  refine ⟨halive, Nat.le_antisymm ?_ ?_⟩
  · rw [← hg]
    exact hafter.generation hlt' ha
  · exact hbefore.generation hlt halive

end MetaCache
