import MetaCache.Proofs.Custody.Operations
import MetaCache.Proofs.InitialValues
import MetaCache.Proofs.Shortcut.Compilation
/-!
# Initial values and slots abreast

A sound classifier recognises code only if each call of it comes to a fresh, empty container and to
nothing else. Then it makes no difference whether the container is made at once or by calling the
code. So descriptors that correspond have the same initial values, and these are stored in slots in
the same way.

* `Classifier.Sound`: sound classifiers.
* `Descriptor.Parallel.initialValue`: initial values.
* `Store.Abreast.set`: slots.
-/

namespace MetaCache

variable {κ : Classifier} {K : CellId → Prop} {G : Generators} {host : Host} {s t : Store}
  {P f g p q : Holding}

/-- Each call of code that the classifier recognises answers a fresh, empty container of that kind
and does nothing else, apart from being counted. The classifier does not go by that count. -/
structure Classifier.Sound (κ : Classifier) (host : Host) : Prop where
  runs : ∀ (a : Code) (n : Nat), κ { a with runs := n } = κ a
  call : ∀ {w : World} {c : CellId} {a : Code} {k : ContainerKind} (args : List Value),
    w.store.code? (.ref c) = some a → κ a = some k → ∃ n,
      host.callCode c args w =
        .ok (.ok (k.produce (w.store.setReferent c (.code { a with runs := n }))).1,
          { w with store := (k.produce (w.store.setReferent c (.code { a with runs := n }))).2 })

/-! ## Cells -/

namespace Store

theorem referent?_of_code? {c : CellId} {a : Code} (h : s.code? (.ref c) = some a) :
    s.referent? c = some (.code a) := by
  rw [code?_ref, Option.bind_eq_some_iff] at h
  obtain ⟨r, hr, hm⟩ := h
  split at hm
  · cases hm
    exact hr
  · cases hm

theorem code?_of_referent? {c : CellId} {a : Code} (h : s.referent? c = some (.code a)) :
    s.code? (.ref c) = some a := by
  rw [code?_ref, h]
  rfl

/-- Code holds nothing, however often it was called. -/
theorem Covers.recall (h : s.Covers f) {c : CellId} {a : Code} (ha : s.referent? c = some (.code a))
    (n : Nat) : (s.setReferent c (.code { a with runs := n })).Covers f := by
  obtain ⟨y, hy, hya⟩ := Option.map_eq_some_iff.1 ha
  refine h.writeCell hy fun x => Nat.le_of_eq ?_
  rw [Cell.owned, Cell.owned, hya]
  rfl

namespace Abreast

theorem recall_left {c : CellId} {a : Code} {k : ContainerKind} {n : Nat}
    (h : Abreast κ K G P f g s t) (ha : s.referent? c = some (.code a)) (hk : κ a = some k)
    (hn : κ { a with runs := n } = some k) :
    Abreast κ K G P f g (s.setReferent c (.code { a with runs := n })) t :=
  ⟨h.kept, h.parallel.recall_left ha hk hn, h.left.recall ha n, h.right⟩

theorem recall_right {c : CellId} {b : Code} {k : ContainerKind} {n : Nat}
    (h : Abreast κ K G P f g s t) (hb : t.referent? c = some (.code b)) (hk : κ b = some k)
    (hn : κ { b with runs := n } = some k) :
    Abreast κ K G P f g s (t.setReferent c (.code { b with runs := n })) :=
  ⟨h.kept, h.parallel.recall_right hb hk hn, h.left, h.right.recall hb n⟩

/-- The same container is made in both runs. -/
theorem produce (h : Abreast κ K G P f g s t) (k : ContainerKind) :
    (k.produce s).1 = (k.produce t).1 ∧ Abreast κ K G P (holding (k.produce s).1.owned + f)
      (holding (k.produce t).1.owned + g) (k.produce s).2 (k.produce t).2 := by
  have hcode : ∀ a, k.empty = .code a → κ a = none := by cases k <;> exact fun a h => nomatch h
  have hnone : holding k.empty.owned = 0 := by cases k <;> rfl
  obtain ⟨hc, hnew⟩ := newCell hcode (f := f) (g := g) (by rwa [hnone, zero_add, zero_add])
  exact ⟨congrArg Value.ref hc, hnew⟩

/-- Outside of recognised code a cell gets another referent in both runs. It takes what it holds
from whoever writes it, and leaves them what it held. -/
theorem setReferent {c : CellId} {r : Referent} (hr : s.referent? c = some r) (r' : Referent)
    (hcode : ∀ a, r = .code a → κ a = none) (hcode' : ∀ a, r' = .code a → κ a = none)
    (hle : ∀ x, holding r'.owned x + q x ≤ holding r.owned x + p x)
    (h : Abreast κ K G P (p + f) (p + g) s t) :
    Abreast κ K G P (q + f) (q + g) (s.setReferent c r') (t.setReferent c r') := by
  have hc : G c = none := by
    rw [← h.parallel.generators]
    exact generators_eq_none fun a ha => hcode a (Option.some.inj (hr.symm.trans ha))
  have hr' : t.referent? c = some r := (h.parallel.referent?_eq hc).symm.trans hr
  have hcovers {u : Store} {k : Holding} (hu : u.referent? c = some r)
      (hk : u.Covers (P + (p + k))) : (u.setReferent c r').Covers (P + (q + k)) := by
    obtain ⟨y, hy, hyr⟩ := Option.map_eq_some_iff.1 hu
    refine hk.writeCell hy fun x => ?_
    have := hle x
    simp only [Cell.owned, hyr, holding_append, Pi.add_apply]
    omega
  exact ⟨h.kept, h.parallel.setReferent hc hcode', hcovers hr h.left, hcovers hr' h.right⟩

end Abreast

end Store

/-! ## Initial values -/

open Build (Done DoneAlike)

variable {w v : World} {d e : Descriptor}

namespace Descriptor

/-- Recognised code that was captured is called. -/
theorem initialValue_of_generator (hκ : κ.Sound host) {c : CellId} {a : Code} {k : ContainerKind}
    (hd : d.default = .value (.ref c)) (ha : w.store.referent? c = some (.code a))
    (hk : κ a = some k) (inst : Value) : ∃ n, d.initialValue host inst w =
      .ok (.ok (some (k.produce (w.store.setReferent c (.code { a with runs := n }))).1),
        { w with
          store := (k.produce (w.store.setReferent c (.code { a with runs := n }))).2 }) := by
  have hcode := Store.code?_of_referent? ha
  obtain ⟨n, hcall⟩ := hκ.call [inst] hcode hk
  exact ⟨n, initialValue_of_callCode hd (by rw [hcode]; rfl) hcall⟩

/-- Of a captured value that is no code a copy is handed out. -/
theorem initialValue_of_captured {a : Value} (hd : d.default = .value a)
    (ha : w.store.code? a = none) (inst : Value) : d.initialValue host inst w =
      .ok (.ok (some a), w.onStore (·.retain a.owned)) := by
  have hread : (Action.readStore (·.code? a) : Build (Option Code)) w = .ok (.ok none, w) := by
    rw [← ha]
    rfl
  unfold initialValue
  simp only [hd]
  rw [Build.bind_apply, hread]
  cases a <;> rfl

/-- Captured code is called. -/
theorem initialValue_of_code {c : CellId} {a : Code} (hd : d.default = .value (.ref c))
    (ha : w.store.code? (.ref c) = some a) (inst : Value) : d.initialValue host inst w =
      (Build.ofHost (host.callCode c [inst]) >>= fun u => pure (some u)) w := by
  have hread : (Action.readStore (·.code? (.ref c)) : Build (Option Code)) w =
      .ok (.ok (some a), w) := by
    rw [← ha]
    rfl
  unfold initialValue
  simp only [hd]
  rw [Build.bind_apply, hread]
  rfl

/-- A container takes the place of recognised code. -/
theorem initialValue_of_container {k : ContainerKind} (hd : d.default = .container k)
    (inst : Value) (w : World) : d.initialValue host inst w =
      .ok (.ok (some (k.produce w.store).1), { w with store := (k.produce w.store).2 }) := by
  unfold initialValue
  rw [hd]
  rfl

end Descriptor

/-- An answer is handed on as it is. -/
theorem Build.Done.some {x y : Build Value}
    (h : DoneAlike κ K G (fun a => holding a.owned) f g (x w) (y v)) :
    DoneAlike κ K G (fun u => holding (ownedByAll u.toList)) f g
      ((x >>= fun a => Pure.pure (some a)) w) ((y >>= fun a => Pure.pure (some a)) v) := by
  have hown (a : Value) : holding a.owned = holding (ownedByAll [a]) := by
    rw [ownedByAll_singleton]
  exact h.map (fun _ _ _ => congrArg _) hown hown

/-- What a descriptor has captured is there. -/
theorem Store.Covers.present_default (h : s.Covers (holding d.owned + f)) {a : Value}
    (hd : d.default = .value a) : ∀ o ∈ a.owned, s.present o := by
  have hcaptured : s.Covers (holding a.owned + 0) := h.mono fun x => by
    simp only [Descriptor.owned, DefaultStrategy.owned, hd, holding_append, Pi.add_apply,
      Pi.zero_apply]
    omega
  exact hcaptured.present_of_held

/-- Containers of one kind made in both runs. -/
theorem World.Abreast.produced {α : Type} {post : α → Holding} {k : ContainerKind}
    (hw : World.Abreast κ K G P f g w v) (m : Value → α) (hm : ∀ a, post (m a) = holding a.owned)
    (hs : s.Abreast κ K G P f g t) :
    Done κ K G Equal post post f g
      (.ok (.ok (m (k.produce s).1), { w with store := (k.produce s).2 }))
      (.ok (.ok (m (k.produce t).1), { v with store := (k.produce t).2 })) := by
  obtain ⟨hval, hnew⟩ := hs.produce k
  rw [← hm, ← hm] at hnew
  exact .ok le_rfl (congrArg m hval) (hw.withStore hnew)

/-- Descriptors that correspond have the same initial values. -/
theorem Descriptor.Parallel.initialValue (hκ : κ.Sound host) (hh : host.Neutral κ)
    (hde : d.Parallel G e) {inst : Value} (hinst : ∀ o ∈ inst.owned, w.store.present o)
    (hw : World.Abreast κ K G P (holding d.owned + f) (holding e.owned + g) w v) :
    DoneAlike κ K G (fun u => holding (ownedByAll u.toList))
      (holding d.owned + f) (holding e.owned + g) (d.initialValue host inst w)
      (e.initialValue host inst v) := by
  have hdefault := hde.default
  have hone (a : Value) : holding (ownedByAll (some a).toList) = holding a.owned := by
    rw [Option.toList_some, ownedByAll_singleton]
  generalize hd : d.default = dd, he : e.default = ee at hdefault
  cases hdefault with
  | @generator c k hc =>
    obtain ⟨b, hb, hk⟩ := Store.generators_eq_some.1 (hw.parallel.generators_right ▸ hc)
    obtain ⟨n, hcall⟩ := e.initialValue_of_generator hκ he hb hk inst
    rw [Descriptor.initialValue_of_container hd, hcall]
    exact hw.produced some hone (hw.store.recall_right hb hk ((hκ.runs b n).trans hk))
  | same dd =>
    cases dd with
    | none =>
      unfold Descriptor.initialValue
      rw [hd, he]
      rw [← zero_add (holding d.owned + f), ← zero_add (holding e.owned + g)] at hw
      exact .ok le_rfl rfl hw
    | container k =>
      rw [Descriptor.initialValue_of_container hd, Descriptor.initialValue_of_container he]
      exact hw.produced some hone hw.store
    | builder method =>
      unfold Descriptor.initialValue
      rw [hd, he]
      exact (hh.done_askOne method hinst hw).some
    | value a =>
      cases hw.parallel.callee a with
      | recognised hc ha hb hka hkb =>
        obtain ⟨m, hleft⟩ := d.initialValue_of_generator hκ hd ha hka inst
        obtain ⟨n, hright⟩ := e.initialValue_of_generator hκ he hb hkb inst
        rw [hleft, hright]
        have hcalled := hw.store.recall_left ha hka ((hκ.runs _ m).trans hka)
        exact hw.produced some hone (hcalled.recall_right hb hkb ((hκ.runs _ n).trans hkb))
      | none hs ht =>
        rw [Descriptor.initialValue_of_captured hd hs, Descriptor.initialValue_of_captured he ht]
        obtain ⟨_, hcov⟩ := hw.covers_held
        have hcopied := hw.retain (hcov.present_default hd)
        rw [← hone] at hcopied
        exact .ok le_rfl rfl hcopied
      | unrecognised hs ht hnone =>
        rw [Descriptor.initialValue_of_code hd hs, Descriptor.initialValue_of_code he ht]
        refine (hh.callCode [inst] hs hnone ?_ hw).some
        rwa [ownedByAll_singleton]

/-! ## Slots -/

/-- The name of a key that is held is there. -/
theorem Store.Covers.present_key {k : Key} (h : s.Covers (holding k.owned + f)) :
    ∀ o ∈ k.owned, s.present o := by
  intro o ho
  rw [List.mem_singleton.1 ho]
  by_contra hgone
  have hcov := h (.name k.name.id) rfl
  rw [count_of_not_has (x := .name k.name.id) hgone, Pi.add_apply, Key.owned, holding_plain rfl,
    if_pos rfl] at hcov
  omega

/-- The error for what is no instance holds nothing. -/
theorem Storage.owned_notHash (s : Store) (inst : Value) : (notHash s inst).owned = [] := rfl

/-- A value is stored in the same way in both runs. -/
theorem Store.Abreast.set (inst : Value) {slot : Key} {a : Value}
    (hslot : ∀ o ∈ slot.owned, s.present o)
    (h : Abreast κ K G P (holding a.owned + f) (holding a.owned + g) s t) :
    (Storage.set inst slot a s).1 = (Storage.set inst slot a t).1 ∧
      Abreast κ K G P (outcome (fun u => holding u.owned) (Storage.set inst slot a s).1 + f)
        (outcome (fun u => holding u.owned) (Storage.set inst slot a t).1 + g)
        (Storage.set inst slot a s).2 (Storage.set inst slot a t).2 := by
  have hhash := h.parallel.hash?_eq inst
  cases hs : s.hash? inst with
  | none =>
    rw [hs] at hhash
    simp only [Storage.set, hs, ← hhash]
    refine ⟨by rw [Storage.notHash, Storage.notHash, h.parallel.valueText_eq], ?_⟩
    simp only [outcome, Storage.owned_notHash, holding_nil, zero_add]
    exact h.release (.refl _)
  | some entry =>
    obtain ⟨c, es⟩ := entry
    rw [hs] at hhash
    obtain ⟨rfl, hc⟩ := Store.hash?_eq_some hs
    obtain ⟨hval, hup⟩ := h.upgrade
    rw [← hval] at hup
    have hleft := hup.left
    rw [add_left_comm] at hleft
    -- the value is held once by the answer and once by the slot
    have hkept := hup.retain (hleft.present_of_held (f := P + f))
    have hc' : ((s.upgrade a).2.retain (s.upgrade a).1.owned).referent? c = some (.hash es) := by
      rw [referent?, cell?_retain, cell?_upgrade]
      exact hc
    simp only [Storage.set, hs, ← hhash, ← hval]
    cases hget : Entries.get? es slot with
    | none =>
      have hslot' : ∀ o ∈ slot.owned,
          ((s.upgrade a).2.retain (s.upgrade a).1.owned).present o := by
        intro o ho
        have hname := hslot o ho
        rw [List.mem_singleton.1 ho] at hname ⊢
        exact (has_retain _ _ (.name _)).trans ((has_upgrade s a (.name _)).trans hname)
      have hall := hkept.retain hslot'
      rw [← add_assoc, ← add_assoc (holding slot.owned)] at hall
      have hretained :=
        (congrArg (Option.map Cell.referent) (cell?_retain _ slot.owned c)).trans hc'
      have hput := hall.setReferent hretained (.hash (Entries.put slot (s.upgrade a).1 es))
        (q := 0) (by simp) (by simp) fun x => by
          have := Entries.holding_put_none hget (s.upgrade a).1 x
          simp only [Pi.add_apply, Pi.zero_apply]
          omega
      rw [zero_add, zero_add] at hput
      exact ⟨rfl, hput⟩
    | some previous =>
      have hput := hkept.setReferent hc' (.hash (Entries.put slot (s.upgrade a).1 es))
        (q := holding previous.owned) (by simp) (by simp) fun x => by
          have := Entries.holding_put_some hget (s.upgrade a).1 x
          omega
      exact ⟨rfl, hput.release (.refl _)⟩

end MetaCache
