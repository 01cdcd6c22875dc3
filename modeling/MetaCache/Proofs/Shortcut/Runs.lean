import MetaCache.Proofs.Compile.Ledger
import MetaCache.Proofs.Relational
import MetaCache.Proofs.Shortcut.Shares
/-!
# Two runs abreast

Two computations keep abreast if, from worlds that differ in the classifier and in what comes of it,
both stop for the same reason, or both fail with the same error, or both end with results that
correspond, and leave such worlds again. Each has something in hand before and after.

* `World.Abreast`: the worlds.
* `Build.Done`: what becomes of two computations, next to what others hold; `Build.Abreast`:
  computations that keep abreast.
* `Build.Abreast.bind`, `Build.Abreast.guarding`, `Build.Abreast.change`: how they are put together.
-/

namespace MetaCache

variable {κ : Classifier} {K : CellId → Prop} {G H : Generators} {w v : World}
  {P f g f' g' : Holding}

/-! ## Worlds -/

/-- The first world has the classifier, the second one recognises nothing. Apart from that they are
the same, up to what makes stores parallel. Both count what is kept for good, and `f` and `g`
besides. Kept for good is what registry and session hold, and what `P` has beyond that. -/
structure World.Abreast (κ : Classifier) (K : CellId → Prop) (G : Generators) (P f g : Holding)
    (w v : World) : Prop where
  classifier : w.cache.classifier = κ
  cache : v.cache = { w.cache with classifier := .never }
  registry : w.registry = v.registry
  session : w.session = v.session
  roots : ∃ p, P = holding w.roots + p
  store : w.store.Abreast κ K G P f g v.store

namespace World.Abreast

theorem parallel (h : Abreast κ K G P f g w v) : w.store.Parallel κ G v.store :=
  h.store.parallel

theorem roots_eq (h : Abreast κ K G P f g w v) : w.roots = v.roots := by
  rw [World.roots, World.roots, h.registry, h.session]

/-- Both worlds count what registry and session hold. -/
theorem covers (h : Abreast κ K G P f g w v) :
    ∃ p, P = holding w.roots + p ∧ w.Covers (p + f) ∧ v.Covers (p + g) := by
  obtain ⟨p, hp⟩ := h.roots
  have hl := h.store.left
  have hr := h.store.right
  rw [hp, add_assoc] at hl
  rw [hp, h.roots_eq, add_assoc] at hr
  exact ⟨p, hp, hl, hr⟩

/-- What is held in the first run is counted there. -/
theorem covers_held {p : Holding} (h : Abreast κ K G P (p + f) g w v) :
    ∃ k, w.store.Covers (p + k) := by
  have hleft := h.store.left
  rw [add_left_comm] at hleft
  exact ⟨_, hleft⟩

/-- What is kept for good is there. -/
theorem present_given {a : Value} (h : Abreast κ K G P f g w v) (ha : ∀ c, a = .ref c → K c) :
    ∀ o ∈ a.owned, w.store.present o := by
  intro o ho
  cases a with
  | ref c =>
    have hkept := h.store.kept c (.inr (ha c rfl))
    rw [List.mem_singleton.1 ho]
    exact h.store.left.alive (Nat.add_pos_right _ (Nat.add_pos_left hkept _))
  | weak c =>
    rw [List.mem_singleton.1 ho]
    rfl
  | _ => cases ho

/-- An operation of the stores. -/
theorem withStore {s t : Store} (h : Abreast κ K G P f g w v) (hs : s.Abreast κ K G P f' g' t) :
    Abreast κ K G P f' g' { w with store := s } { v with store := t } :=
  ⟨h.classifier, h.cache, h.registry, h.session, h.roots, hs⟩

/-- The same shares are taken of what is there. -/
theorem retain (h : Abreast κ K G P f g w v) {os : List Owned} (hos : ∀ o ∈ os, w.store.present o) :
    Abreast κ K G P (holding os + f) (holding os + g) (w.onStore (·.retain os))
      (v.onStore (·.retain os)) :=
  h.withStore (h.store.retain hos)

/-- The same key is made in both runs. -/
theorem key (h : Abreast κ K G P f g w v) (name : String) : (w.key name).1 = (v.key name).1 ∧
    Abreast κ K G P (holding (w.key name).1.owned + f) (holding (v.key name).1.owned + g)
      (w.key name).2 (v.key name).2 := by
  obtain ⟨p, hp, hleft, hright⟩ := h.covers
  have hroots (u : World) : (u.key name).2.roots = u.roots := by
    unfold World.key
    split <;> rfl
  have hl : (w.key name).2.store.Covers (P + (holding (w.key name).1.owned + f)) := by
    have hkey := hleft.key name
    rw [World.Covers, hroots, add_left_comm _ p, ← add_assoc, ← hp] at hkey
    exact hkey
  have hr : (v.key name).2.store.Covers (P + (holding (v.key name).1.owned + g)) := by
    have hkey := hright.key name
    rw [World.Covers, hroots, add_left_comm _ p, ← add_assoc, ← h.roots_eq, ← hp] at hkey
    exact hkey
  suffices hkey : (w.key name).1 = (v.key name).1 ∧
      (w.key name).2.cache.classifier = κ ∧
      (v.key name).2.cache = { (w.key name).2.cache with classifier := .never } ∧
      (w.key name).2.registry = (v.key name).2.registry ∧
      (w.key name).2.session = (v.key name).2.session ∧
      (w.key name).2.store.Parallel κ G (v.key name).2.store from
    ⟨hkey.1, hkey.2.1, hkey.2.2.1, hkey.2.2.2.1, hkey.2.2.2.2.1, ⟨p, by rw [hroots, hp]⟩,
      h.store.kept, hkey.2.2.2.2.2, hl, hr⟩
  simp only [World.key, h.cache]
  split
  · obtain ⟨hk, hkeys, hstore⟩ := h.parallel.intern w.cache.nameHash name w.cache.keys
    simp only [hk, hkeys]
    exact ⟨trivial, h.classifier, trivial, h.registry, h.session, hstore⟩
  · obtain ⟨hname, hstore⟩ := h.parallel.newName name
    simp only [hname]
    exact ⟨trivial, h.classifier, trivial, h.registry, h.session, hstore⟩

end World.Abreast

theorem World.onStore_release_nil (w : World) : w.onStore (·.release []) = w := by
  simp only [World.onStore, Store.release_nil]

/-! ## Computations -/

namespace Build

variable {α β : Type}

/-- Next to `f` and `g`, which are held by others, the worlds are abreast and count what the
outcomes hold. -/
def LeftAbreast (κ : Classifier) (K : CellId → Prop) (post post' : α → Holding) (f g : Holding)
    (G : Generators) (r q : Except Error α) (w v : World) : Prop :=
  ∃ P, World.Abreast κ K G P (outcome post r + f) (outcome post' q + g) w v

/-- What becomes of two computations, next to `f` and `g`, which are held by others: both stop for
the same reason, or they end in worlds abreast, with the same error, or with results of which `R`
holds. More generators may have come about. -/
def Done (κ : Classifier) (K : CellId → Prop) (G : Generators) (R : Generators → α → α → Prop)
    (post post' : α → Holding) (f g : Holding)
    (x y : Except Halt (Except Error α × World)) : Prop :=
  Concluded (LeftAbreast κ K post post' f g) G (Settled R) x y

/-- From worlds abreast, in which `pre` and `pre'` are in hand, the computations end with what
`post` and `post'` tell. -/
def Abreast (κ : Classifier) (K : CellId → Prop) (G : Generators) (pre pre' : Holding)
    (R : Generators → α → α → Prop) (post post' : α → Holding) (x y : Build α) : Prop :=
  ∀ ⦃P f g w v⦄, World.Abreast κ K G P (pre + f) (pre' + g) w v →
    Done κ K G R post post' f g (x w) (y v)

/-- The computations come to the same result. -/
abbrev DoneAlike (κ : Classifier) (K : CellId → Prop) (G : Generators) (post : α → Holding)
    (f g : Holding) (x y : Except Halt (Except Error α × World)) : Prop :=
  Done κ K G Equal post post f g x y

/-- Computations abreast that have the same in hand and come to the same result. -/
abbrev Alike (κ : Classifier) (K : CellId → Prop) (G : Generators) (pre : Holding)
    (post : α → Holding) (x y : Build α) : Prop :=
  Abreast κ K G pre pre Equal post post x y

variable {R : Generators → α → α → Prop} {S : Generators → β → β → Prop}
  {pre pre' : Holding} {post post' : α → Holding} {final final' : β → Holding}

namespace Done

theorem halt (h : Halt) : Done κ K G R post post' f g (.error h) (.error h) := Concluded.halt h

theorem ok {a b : α} (hG : G ≤ H) (hab : R H a b)
    (hw : World.Abreast κ K H P (post a + f) (post' b + g) w v) :
    Done κ K G R post post' f g (.ok (.ok a, w)) (.ok (.ok b, v)) :=
  .done hG (.ok hab) ⟨P, hw⟩

theorem error {e : Error} (hG : G ≤ H)
    (hw : World.Abreast κ K H P (holding e.owned + f) (holding e.owned + g) w v) :
    Done κ K G R post post' f g (.ok (.error e, w)) (.ok (.error e, v)) :=
  .done hG (.error e) ⟨P, hw⟩

variable {x y : Build α}

/-- Computations that go on from results that correspond. -/
theorem bind {k k' : α → Build β} (h : Done κ K G R post post' f g (x w) (y v))
    (hk : ∀ H, G ≤ H → ∀ a b, R H a b →
      Abreast κ K H (post a) (post' b) S final final' (k a) (k' b)) :
    Done κ K G S final final' f g ((x >>= k) w) ((y >>= k') v) :=
  Concluded.bindTrial h (fun H hG a b hab _ _ ⟨_, hw⟩ => hk H hG a b hab hw) fun _ _ _ _ hw => hw

/-- What is made of the results corresponds, too. -/
theorem map {m m' : α → β} (h : Done κ K G R post post' f g (x w) (y v))
    (hm : ∀ H a b, R H a b → S H (m a) (m' b)) (hl : ∀ a, post a = final (m a))
    (hr : ∀ b, post' b = final' (m' b)) :
    Done κ K G S final final' f g ((x >>= fun a => Pure.pure (m a)) w)
      ((y >>= fun b => Pure.pure (m' b)) v) :=
  h.bind fun _ _ a b hab _ _ _ _ _ hw => .ok le_rfl (hm _ a b hab) (hl a ▸ hr b ▸ hw)

/-- What is held besides is given back with a failure. -/
theorem guarding {os os' : List Owned}
    (h : Done κ K G R post post' (holding os + f) (holding os' + g) (x w) (y v))
    (ho : Owned.Parallel G os os') :
    Done κ K G R (fun a => post a + holding os) (fun a => post' a + holding os') f g
      (guarding os x w) (guarding os' y v) := by
  refine Concluded.catchTrial h (fun H hG e w v ⟨P, hw⟩ => ?_) fun H a b w v ⟨P, hw⟩ => ⟨P, ?_⟩
  · rw [add_left_comm, add_left_comm _ (holding os')] at hw
    exact error le_rfl (hw.withStore (hw.store.release (ho.mono hG)))
  · rw [← add_assoc, ← add_assoc] at hw
    exact hw

end Done

namespace Abreast

variable {x y : Build α}

theorem pure {a b : α} (h : R G a b) (hl : pre = post a) (hr : pre' = post' b) :
    Abreast κ K G pre pre' R post post' (Pure.pure a) (Pure.pure b) :=
  fun _ _ _ _ _ hw => .ok le_rfl h (hr ▸ hl ▸ hw)

/-- A failure of the cache, with nothing in hand. -/
theorem throw {e : Error} (he : e.owned = []) :
    Abreast κ K G 0 0 R post post' (MonadExcept.throw e) (MonadExcept.throw e) := by
  intro P f g w v hw
  have hnext : World.Abreast κ K G P (holding e.owned + f) (holding e.owned + g) w v := by
    rwa [he]
  exact .error le_rfl hnext

theorem bind {k k' : α → Build β} (hx : Abreast κ K G pre pre' R post post' x y)
    (hk : ∀ H, G ≤ H → ∀ a b, R H a b →
      Abreast κ K H (post a) (post' b) S final final' (k a) (k' b)) :
    Abreast κ K G pre pre' S final final' (x >>= k) (y >>= k') :=
  fun _ _ _ _ _ hw => (hx hw).bind hk

/-- Computations with the same result, before others. -/
theorem andThen {k k' : α → Build β} (hx : Abreast κ K G pre pre' Equal post post' x y)
    (hk : ∀ H, G ≤ H → ∀ a, Abreast κ K H (post a) (post' a) S final final' (k a) (k' a)) :
    Abreast κ K G pre pre' S final final' (x >>= k) (y >>= k') :=
  hx.bind fun H hG a _ hab => hab ▸ hk H hG a

/-- A computation guarded by what is held besides: it is given back with a failure. -/
theorem guarding {os os' : List Owned} (hx : Abreast κ K G 0 0 R post post' x y)
    (ho : Owned.Parallel G os os') :
    Abreast κ K G (holding os) (holding os') R (fun a => post a + holding os)
      (fun a => post' a + holding os') (guarding os x) (guarding os' y) := by
  intro P f g w v hw
  rw [← zero_add (holding os + f), ← zero_add (holding os' + g)] at hw
  exact (hx hw).guarding ho

/-- A change of the world that cannot fail. -/
theorem change {c c' : World → α × World}
    (h : ∀ {P f g w v}, World.Abreast κ K G P (pre + f) (pre' + g) w v → R G (c w).1 (c' v).1 ∧
      World.Abreast κ K G P (post (c w).1 + f) (post' (c' v).1 + g) (c w).2 (c' v).2) :
    Abreast κ K G pre pre' R post post' (modifyGet c) (modifyGet c') :=
  fun _ _ _ _ _ hw => .ok le_rfl (h hw).1 (h hw).2

/-- An operation of the store. -/
theorem withStore {c c' : Store → α × Store}
    (h : ∀ {P f g s t}, s.Abreast κ K G P (pre + f) (pre' + g) t → R G (c s).1 (c' t).1 ∧
      (c s).2.Abreast κ K G P (post (c s).1 + f) (post' (c' t).1 + g) (c' t).2) :
    Abreast κ K G pre pre' R post post' (Action.withStore c) (Action.withStore c') :=
  change fun hw => ⟨(h hw.store).1, hw.withStore (h hw.store).2⟩

/-- A change of the store. -/
theorem onStore {c c' : Store → Store} {q q' : Holding}
    (h : ∀ {P f g s t}, s.Abreast κ K G P (pre + f) (pre' + g) t →
      (c s).Abreast κ K G P (q + f) (q' + g) (c' t)) :
    Abreast κ K G pre pre' Equal (fun _ => q) (fun _ => q') (Action.onStore c : Build Unit)
      (Action.onStore c') :=
  fun _ _ _ _ _ hw => .ok le_rfl rfl (hw.withStore (h hw.store))

/-- Corresponding shares are given back. -/
theorem release {os os' : List Owned} (ho : Owned.Parallel G os os') (k k' : Holding) :
    Abreast κ K G (holding os + k) (holding os' + k') Equal (fun _ => k) (fun _ => k')
      (Action.release os : Build Unit) (Action.release os') :=
  onStore fun hs => by
    rw [add_assoc, add_assoc] at hs
    exact hs.release ho

/-- All that is in hand is given back. -/
theorem releaseAll (os : List Owned) :
    Abreast κ K G (holding os) (holding os) Equal (fun _ => 0) (fun _ => 0)
      (Action.release os : Build Unit) (Action.release os) := by
  have hrel : Abreast κ K G (holding os + 0) (holding os + 0) Equal (fun _ => 0) (fun _ => 0)
      (Action.release os : Build Unit) (Action.release os) := release (.refl os) 0 0
  rwa [add_zero] at hrel

/-- A share of a generator that is given back in the first run only. -/
theorem release_left {c : CellId} (hc : (G c).isSome) {k k' : Holding}
    (h : ∀ H, G ≤ H → Abreast κ K H k k' R post post' x y) :
    Abreast κ K G (holding [.cell c] + k) k' R post post'
      ((Action.release [.cell c] : Build Unit) >>= fun _ => x) y := by
  have hnone : ((Action.release [] : Build Unit) >>= fun _ => y) = y := by
    funext w
    exact congrArg y w.onStore_release_nil
  rw [← hnone, ← zero_add k', ← holding_nil]
  exact (release (.left hc .nil) k k').andThen fun H hG _ => h H hG

/-- Whatever the notes say. -/
theorem note (n n' : Note) (k k' : Holding) :
    Abreast κ K G k k' Equal (fun _ => k) (fun _ => k') (Action.note n : Build Unit)
      (Action.note n') :=
  onStore fun hs => ⟨hs.kept, hs.parallel.record rfl, hs.left, hs.right⟩

/-- The same shares are taken of what is there. -/
theorem retain {os : List Owned} {k k' : Holding}
    (hos : ∀ {P f g} {s t : Store}, s.Abreast κ K G P (k + f) (k' + g) t →
      ∀ o ∈ os, s.present o) :
    Abreast κ K G k k' Equal (fun _ => holding os + k) (fun _ => holding os + k')
      (Action.retain os : Build Unit) (Action.retain os) :=
  onStore fun hs => by
    rw [add_assoc, add_assoc]
    exact hs.retain (hos hs)

/-- The same key is made. -/
theorem key (name : String) (k k' : Holding) :
    Abreast κ K G k k' Equal (fun a => holding a.owned + k) (fun a => holding a.owned + k')
      (modifyGet (World.key name) : Build Key) (modifyGet (World.key name)) :=
  change fun hw => by
    obtain ⟨hkey, hnext⟩ := hw.key name
    rw [← add_assoc, ← add_assoc] at hnext
    exact ⟨hkey, hnext⟩

/-- A computation that goes on from what is read of the store. -/
theorem readStore_bind {γ : Type} {r : Store → γ} {k k' : γ → Build β}
    (h : ∀ {s t}, s.Parallel κ G t →
      Abreast κ K G pre pre' S final final' (k (r s)) (k' (r t))) :
    Abreast κ K G pre pre' S final final' (Action.readStore r >>= k) (Action.readStore r >>= k') :=
  fun _ _ _ _ _ hw => h hw.parallel hw

/-- A computation that goes on from what is read of the store, where both stores agree. -/
theorem readStore_andThen {γ : Type} {r : Store → γ} {k k' : γ → Build β}
    (hr : ∀ {s t}, s.Parallel κ G t → r s = r t)
    (h : ∀ a, Abreast κ K G pre pre' S final final' (k a) (k' a)) :
    Abreast κ K G pre pre' S final final' (Action.readStore r >>= k) (Action.readStore r >>= k') :=
  readStore_bind fun hs => hr hs ▸ h _

/-- A computation that goes on from the world at hand. -/
theorem get_bind {k k' : World → Build β}
    (h : ∀ {P f g w v}, World.Abreast κ K G P f g w v →
      Abreast κ K G pre pre' S final final' (k w) (k' v)) :
    Abreast κ K G pre pre' S final final' (get >>= k) (get >>= k') :=
  fun _ _ _ _ _ hw => h hw hw

/-- A failure of the cache gives back what it is told to. -/
theorem failReleasing {os : List Owned} {e : Error} (he : e.owned = []) :
    Abreast κ K G (holding os) (holding os) R post post' (failReleasing os e)
      (failReleasing os e) :=
  (releaseAll os).andThen fun _ _ _ => throw he

theorem failMismatch (a : Value) (m : String → Mismatch) :
    Abreast κ K G (holding a.owned) (holding a.owned) R post post' (failMismatch a m)
      (failMismatch a m) :=
  readStore_andThen (fun hs => hs.valueText_eq a) fun _ => failReleasing rfl

end Abreast

end Build

end MetaCache
