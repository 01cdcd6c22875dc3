import MetaCache.Proofs.Play.Hands
import MetaCache.Proofs.Play.Steps
/-!
# Builds in a play

Builds wait for one another like calls: the one that began last ends first. Each has a number of its
own, the number of steps that had been taken when it began. What is in a slot was put there by a
build that has come to its end, and it stays what it was then.

* `products`, `failures`: what has been built, and what has failed.
* `Stage.tasks`, `Stage.marks`: the builds under way.
* `Stage.Ordered`, `Stage.Apart`: the numbers of builds.
* `Stage.Traced`: how far the builds under way have come.
* `Stage.Kept`: what is in the slots.
-/

namespace MetaCache

variable {host : Host} {w w' w₀ : World} {f₀ : Holding} {n : Nat} {x y : Stage} {a : Act}
  {ts : List Turn}

/-- What was built in these steps. -/
def products (ts : List Turn) : List Product :=
  ts.filterMap (·.act.product?)

/-- The builds that failed in these steps. -/
def failures (ts : List Turn) : List Task :=
  ts.filterMap (·.act.failure?)

theorem products_concat (ts : List Turn) (t : Turn) :
    products (ts ++ [t]) = products ts ++ t.act.product?.toList := by
  rw [products, List.filterMap_append, ← products]
  cases h : t.act.product? <;> simp [h]

theorem failures_concat (ts : List Turn) (t : Turn) :
    failures (ts ++ [t]) = failures ts ++ t.act.failure?.toList := by
  rw [failures, List.filterMap_append, ← failures]
  cases h : t.act.failure? <;> simp [h]

theorem mem_products_concat {t : Turn} {b : Product} :
    b ∈ products (ts ++ [t]) ↔ b ∈ products ts ∨ t.act = .built b := by
  rw [products_concat, List.mem_append]
  cases h : t.act <;> simp [Act.product?, eq_comm]

theorem mem_failures_concat {t : Turn} {s : Task} :
    s ∈ failures (ts ++ [t]) ↔ s ∈ failures ts ∨ ∃ e, t.act = .failed s e := by
  rw [failures_concat, List.mem_append]
  cases h : t.act <;> simp [Act.failure?, eq_comm]

/-- The builds at work. -/
def Focus.tasks : Focus → List Task
  | .code _ => []
  | .cache t _ => [t]

/-- The builds under way, the last one first. -/
def Stage.tasks (x : Stage) : List Task :=
  x.focus.tasks ++ x.frames.map (·.task)

/-- What holds in the beginning and is kept by every step holds at every moment of a play. -/
theorem Play.induct {P : List Turn → Stage → Prop} (h : Play host w₀ f₀ ts x)
    (start : P [] ⟨w₀, [], .code f₀⟩)
    (step : ∀ {ts x a y}, Play host w₀ f₀ ts x → P ts x → Step host ts.length x a y →
      P (ts ++ [⟨a, x.world, y.world⟩]) y) : P ts x := by
  induction h with
  | refl => exact start
  | snoc hp hs ih =>
    rw [Nat.zero_add] at hs
    exact step hp ih hs

/-! ## The numbers of builds -/

/-- The number of a build, and the cell whose slot it is going to fill. -/
def Task.mark (t : Task) : Nat × CellId := (t.number, t.target)

/-- The marks of the builds under way. -/
def Stage.marks (x : Stage) : List (Nat × CellId) := x.tasks.map Task.mark

/-- A step leaves the builds under way as they are, or begins one, or ends the last one. -/
theorem Step.marks_cases (h : Step host n x a y) :
    (a.product? = none ∧ a.failure? = none ∧ (y.marks = x.marks ∨
      ∃ c, a.empties = some c ∧ y.marks = (n, c) :: x.marks)) ∨
    ∃ t, x.marks = t.mark :: y.marks ∧
      ((∃ b, a = .built b ∧ b.toTask = t) ∨ ∃ e, a = .failed t e) := by
  cases h with
  | @missed l c w w' frames f hl hc =>
    refine .inl ⟨rfl, rfl, .inr ⟨c, ?_, rfl⟩⟩
    rw [Act.empties, hl, Value.strong?]
  | built w frames t x => exact .inr ⟨t, rfl, .inl ⟨_, rfl, rfl⟩⟩
  | failed w frames t e => exact .inr ⟨t, rfl, .inr ⟨e, rfl⟩⟩
  | _ => exact .inl ⟨rfl, rfl, .inl rfl⟩

/-- The builds under way began one after another, and all of them before now. -/
structure Stage.Ordered (n : Nat) (x : Stage) : Prop where
  decreasing : x.marks.Pairwise fun m m' => m'.1 < m.1
  lt : ∀ m ∈ x.marks, m.1 < n

theorem Stage.Ordered.step (h : x.Ordered n) (hs : Step host n x a y) : y.Ordered (n + 1) := by
  obtain ⟨hd, hb⟩ := h
  have hb' : ∀ m ∈ x.marks, m.1 < n + 1 := fun m hm => Nat.lt_succ_of_lt (hb m hm)
  rcases hs.marks_cases with ⟨-, -, he | ⟨c, -, he⟩⟩ | ⟨t, hx, -⟩
  · rw [← he] at hd hb'
    exact ⟨hd, hb'⟩
  · refine ⟨?_, ?_⟩
    · rw [he]
      exact List.pairwise_cons.2 ⟨hb, hd⟩
    · rw [he]
      exact List.forall_mem_cons.2 ⟨Nat.lt_succ_self n, hb'⟩
  · rw [hx] at hd hb'
    exact ⟨(List.pairwise_cons.1 hd).2, (List.forall_mem_cons.1 hb').2⟩

/-- The build of that number has come to its end in these steps. -/
def Ended (ts : List Turn) (i : Nat) : Prop :=
  (∃ b ∈ products ts, b.number = i) ∨ ∃ t ∈ failures ts, t.number = i

/-- A step ends at most one build. -/
theorem ended_concat {t : Turn} {i : Nat} : Ended (ts ++ [t]) i ↔ Ended ts i ∨
    (∃ b, t.act = .built b ∧ b.number = i) ∨ ∃ s e, t.act = .failed s e ∧ s.number = i := by
  simp only [Ended, mem_products_concat, mem_failures_concat]
  grind

/-- No two builds have the same number, whether they have ended or not. -/
structure Stage.Apart (ts : List Turn) (x : Stage) : Prop extends x.Ordered ts.length where
  ended_lt : ∀ i, Ended ts i → i < ts.length
  ended_ne : ∀ i, Ended ts i → ∀ m ∈ x.marks, m.1 ≠ i
  failed : ∀ t ∈ failures ts, ∀ b ∈ products ts, b.number ≠ t.number

/-- A build that is under way is none of those that have ended. -/
theorem Stage.Apart.ne_of_ended (h : x.Apart ts) {s : Task} (hs : s.mark ∈ x.marks) {i : Nat}
    (hi : Ended ts i) : s.number ≠ i :=
  h.ended_ne i hi s.mark hs

/-- A step that ends no build. -/
theorem Stage.Apart.step_of_none {t : Turn} (h : x.Apart ts) (hord : y.Ordered (ts ++ [t]).length)
    (hp : t.act.product? = none) (hf : t.act.failure? = none)
    (hmarks : ∀ m ∈ y.marks, m ∈ x.marks ∨ m.1 = ts.length) : y.Apart (ts ++ [t]) := by
  have hproducts : products (ts ++ [t]) = products ts := by
    rw [products_concat, hp, Option.toList_none, List.append_nil]
  have hfailures : failures (ts ++ [t]) = failures ts := by
    rw [failures_concat, hf, Option.toList_none, List.append_nil]
  have hended (i : Nat) : Ended (ts ++ [t]) i ↔ Ended ts i := by
    rw [Ended, Ended, hproducts, hfailures]
  refine { toOrdered := hord, ended_lt := fun i hi => ?_, ended_ne := fun i hi m hm => ?_,
           failed := ?_ }
  · rw [List.length_append]
    exact Nat.lt_succ_of_lt (h.ended_lt i ((hended i).1 hi))
  · have hi := (hended i).1 hi
    rcases hmarks m hm with hm | hm
    · exact h.ended_ne i hi m hm
    · rw [hm]
      exact Nat.ne_of_gt (h.ended_lt i hi)
  · rw [hproducts, hfailures]
    exact h.failed

/-- A step that ends the last build under way. -/
theorem Stage.Apart.step_of_end {t : Turn} (h : x.Apart ts) (hord : y.Ordered (ts ++ [t]).length)
    {s : Task} (hx : x.marks = s.mark :: y.marks)
    (hs : (∃ b, t.act = .built b ∧ b.toTask = s) ∨ ∃ e, t.act = .failed s e) :
    y.Apart (ts ++ [t]) := by
  have hmem : s.mark ∈ x.marks := by
    rw [hx]
    exact List.mem_cons_self
  have hended (i : Nat) : Ended (ts ++ [t]) i ↔ Ended ts i ∨ i = s.number := by
    rw [ended_concat]
    rcases hs with ⟨b, ha, rfl⟩ | ⟨e, ha⟩ <;> simp [ha, eq_comm]
  have hbelow : ∀ m ∈ y.marks, m.1 < s.number := by
    have hd := h.decreasing
    rw [hx] at hd
    exact (List.pairwise_cons.1 hd).1
  refine { toOrdered := hord, ended_lt := fun i hi => ?_, ended_ne := fun i hi m hm => ?_,
           failed := fun r hr b hb => ?_ }
  · rw [List.length_append]
    rcases (hended i).1 hi with hi | rfl
    · exact Nat.lt_succ_of_lt (h.ended_lt i hi)
    · exact Nat.lt_succ_of_lt (h.lt s.mark hmem)
  · rcases (hended i).1 hi with hi | rfl
    · refine h.ended_ne i hi m ?_
      rw [hx]
      exact List.mem_cons_of_mem _ hm
    · exact Nat.ne_of_lt (hbelow m hm)
  · rcases hs with ⟨b', ha, rfl⟩ | ⟨e, ha⟩
    · have hr : r ∈ failures ts := by
        simpa [mem_failures_concat, ha] using hr
      rcases mem_products_concat.1 hb with hb | hb
      · exact h.failed r hr b hb
      · cases ha.symm.trans hb
        exact h.ne_of_ended hmem (.inr ⟨r, hr, rfl⟩)
    · have hb : b ∈ products ts := by
        simpa [mem_products_concat, ha] using hb
      rcases mem_failures_concat.1 hr with hr | ⟨e', hr⟩
      · exact h.failed r hr b hb
      · cases ha.symm.trans hr
        exact (h.ne_of_ended hmem (.inl ⟨b, hb, rfl⟩)).symm

theorem Stage.Apart.step {t : Turn} (h : x.Apart ts) (hs : Step host ts.length x t.act y) :
    y.Apart (ts ++ [t]) := by
  have hord : y.Ordered (ts ++ [t]).length := by
    rw [List.length_append]
    exact h.toOrdered.step hs
  rcases hs.marks_cases with ⟨hp, hf, he | ⟨c, -, he⟩⟩ | ⟨s, hx, hs⟩
  · refine h.step_of_none hord hp hf fun m hm => ?_
    rw [he] at hm
    exact .inl hm
  · refine h.step_of_none hord hp hf fun m hm => ?_
    rw [he] at hm
    exact (List.mem_cons.1 hm).symm.imp id (congrArg Prod.fst)
  · exact h.step_of_end hord hx hs

/-! ## What builds have done -/

/-- By way of the replies that it was given the build has come to `rest`, in `w`. What it did it did
in worlds in which nobody held what is not there. -/
def Task.At (host : Host) (t : Task) (rest : Dialogue Compiled) (w : World) : Prop :=
  (t.lookup.compilation host).ComesIn World.Covered host t.began t.queries rest w

/-- The builds under way have come to where they are. -/
structure Stage.Traced (host : Host) (x : Stage) : Prop where
  work : ∀ t rest, x.focus = .cache t rest → t.At host rest x.world
  wait : ∀ fr ∈ x.frames, fr.task.At host (.asks fr.invocant fr.method fr.next) fr.asked

theorem Stage.Traced.step (h : x.Traced host) (hx : x.Backed) (hs : Step host n x a y) :
    y.Traced host := by
  obtain ⟨hwork, hwait⟩ := h
  cases hs with
  | missed _ _ _ _ =>
    refine ⟨fun t rest he => ?_, hwait⟩
    cases he
    exact .start
  | worked w frames t x next =>
    refine ⟨fun t rest he => ?_, hwait⟩
    cases he
    exact (hwork _ _ rfl).work hx.covers
  | asked w frames t v m next =>
    exact ⟨fun _ _ he => (nomatch he), List.forall_mem_cons.2 ⟨hwork _ _ rfl, hwait⟩⟩
  | replied w fr frames reply =>
    obtain ⟨hfr, hwait⟩ := List.forall_mem_cons.1 hwait
    refine ⟨fun t rest he => ?_, hwait⟩
    cases he
    exact Dialogue.ComesIn.ask (q := ⟨fr.invocant, fr.method, fr.asked, reply, w⟩) hfr
  | _ => exact ⟨fun _ _ he => (nomatch he), hwait⟩

/-- A build that comes to its end has compiled, in the world as it is. -/
theorem Step.built_inv {b : Product} (h : Step host n x (.built b) y) :
    x.focus = .cache b.toTask (.ends (.ok b.compiled)) ∧ b.ended = x.world ∧
      y.world = (x.world.publish b.target b.compiled.content b.compiled.generation
        b.compiled.governor).2 := by
  cases h
  exact ⟨rfl, rfl, rfl⟩

theorem Step.called {b : Product} (h : Step host n x (.built b) y) (hx : x.Backed) :
    b.toTask.Called := by
  cases h
  exact hx.1

/-- What has been built was compiled without an error. -/
def Product.Sound (host : Host) (b : Product) : Prop :=
  b.toTask.At host (.ends (.ok b.compiled)) b.ended

theorem Stage.Traced.sound {b : Product} (h : x.Traced host) (hs : Step host n x (.built b) y) :
    b.Sound host := by
  obtain ⟨hfocus, hended, -⟩ := hs.built_inv
  have hb := h.work _ _ hfocus
  rw [← hended] at hb
  exact hb

/-- The object of a build is there when the build has ended. -/
theorem Step.target_alive (ho : host.Orderly) {b : Product} (h : Step host n x (.built b) y)
    (hx : x.Backed) : y.world.store.alive b.target := by
  have hy : y.Backed := h.backed ho hx
  cases h with
  | built w frames t x =>
    obtain ⟨hcalled, -⟩ := hx
    obtain ⟨g, hg⟩ := World.Backs.covers hy
    exact hg.alive (Nat.add_pos_left (Nat.add_pos_right _ hcalled.target_pos) _)

/-- The object of what has been built is one of the cells, and the payload is still what was
compiled, if it is there at all. -/
structure Product.Lasts (b : Product) (w : World) : Prop where
  target_lt : b.target < w.store.cells.next
  lt : b.record.payload < w.store.payloads.next
  content : ∀ p, w.store.payload? b.record.payload = some p → p = b.compiled.content

theorem Product.Lasts.later {b : Product} (h : b.Lasts w) (hl : host.Later w w') : b.Lasts w' where
  target_lt := Nat.lt_of_lt_of_le h.target_lt hl.cells_next
  lt := Nat.lt_of_lt_of_le h.lt hl.payloads_next
  content p hp := h.content p (hl.payload? h.lt hp)

theorem Step.lasts (ho : host.Orderly) {b : Product} (h : Step host n x (.built b) y)
    (hx : x.Backed) : b.Lasts y.world := by
  have htarget := Store.lt_next_of_alive (h.target_alive ho hx)
  obtain ⟨-, hended, hy⟩ := h.built_inv
  have hp : b.record.payload = x.world.store.payloads.next := by rw [Product.record, hended]
  refine ⟨htarget, ?_, fun p hx => ?_⟩
  · rw [hy, hp, (x.world.sheds_publish _ _ _ _).payloads_next]
    exact Nat.lt_succ_self _
  · rw [hy, hp] at hx
    exact World.payload?_publish hx

/-- What is in a slot is what a build has put there, and every structure built is as it was. -/
structure Stage.Kept (host : Host) (ts : List Turn) (x : Stage) : Prop where
  called : ∀ b ∈ products ts, b.toTask.Called
  sound : ∀ b ∈ products ts, b.Sound host
  lasts : ∀ b ∈ products ts, b.Lasts x.world
  slots : ∀ c r, x.world.store.extension? c = some r →
    ∃ b ∈ products ts, b.target = c ∧ b.record = r

theorem Stage.Kept.step (ho : host.Orderly) {t : Turn} (h : x.Kept host ts)
    (ht : x.Traced host) (hx : x.Backed) (hs : Step host n x t.act y) :
    y.Kept host (ts ++ [t]) where
  called b hb := by
    rcases mem_products_concat.1 hb with hb | hb
    · exact h.called b hb
    · rw [hb] at hs
      exact hs.called hx
  sound b hb := by
    rcases mem_products_concat.1 hb with hb | hb
    · exact h.sound b hb
    · rw [hb] at hs
      exact ht.sound hs
  lasts b hb := by
    rcases mem_products_concat.1 hb with hb | hb
    · exact (h.lasts b hb).later (hs.later ho)
    · rw [hb] at hs
      exact hs.lasts ho hx
  slots c r hr := by
    rcases hs.extension?_cases hr with hr | ⟨b, hb, rfl, rfl⟩
    · obtain ⟨b, hb, hc, he⟩ := h.slots c r hr
      exact ⟨b, mem_products_concat.2 (.inl hb), hc, he⟩
    · exact ⟨b, mem_products_concat.2 (.inr hb), rfl, rfl⟩

/-! ## Whole plays -/

theorem Play.apart (h : Play host w₀ f₀ ts x) : x.Apart ts := by
  refine h.induct ?_ fun _ ih hs => ih.step hs
  exact {
    decreasing := .nil
    lt := fun _ hm => nomatch hm
    ended_lt := fun _ hi => by rcases hi with ⟨_, hb, -⟩ | ⟨_, hb, -⟩ <;> cases hb
    ended_ne := fun _ _ _ hm => nomatch hm
    failed := fun _ ht => nomatch ht }

theorem Play.traced (ho : host.Orderly) (hcov : w₀.Covers f₀) (h : Play host w₀ f₀ ts x) :
    x.Traced host := by
  refine h.induct (P := fun _ x => x.Traced host) ?_ fun hp ih hs => ih.step (hp.backed ho hcov) hs
  exact {
    work := fun _ _ he => nomatch he
    wait := fun _ hfr => nomatch hfr }

theorem Play.kept (ho : host.Orderly) (hempty : ∀ c, w₀.store.extension? c = none)
    (hcov : w₀.Covers f₀) (h : Play host w₀ f₀ ts x) : x.Kept host ts := by
  refine h.induct ?_ fun hp ih hs => ih.step ho (hp.traced ho hcov) (hp.backed ho hcov) hs
  exact {
    called := fun _ hb => nomatch hb
    sound := fun _ hb => nomatch hb
    lasts := fun _ hb => nomatch hb
    slots := fun c _ hr => nomatch (hempty c).symm.trans hr }

end MetaCache
