import MetaCache.Proofs.Custody.Operations
import MetaCache.Proofs.Custody.Order
import MetaCache.Proofs.Dialogue.Compile
/-!
# The keys that a compilation asks for

A compilation that succeeds has used every key that it was given: the slots and init-args of the
descriptors are these keys, one after the other. So the key table has no entry on its account but
those of the compiled structure.

* `Work.keys`: the keys that a piece of work gives.
* `Dialogue.Keeps`: a dialogue that ends well has used its keys; `Dialogue.keeps_descriptor`,
  `Dialogue.keeps_shadow`.
* `World.Entered`: what the key table is like after keys were asked for;
  `Dialogue.Keeps.entered`.
-/

namespace MetaCache

theorem Shadow.keys_append (s : Shadow) (d : Descriptor) :
    (s.append d).keys = s.keys ++ d.keys := by
  simp [keys, append]

/-- What is given back is gone for good. -/
theorem Store.ages_release (s : Store) (os : List Owned) : s.Ages (s.release os) := by
  induction s, os using Store.release.induct with
  | case1 s =>
    rw [release_nil]
    exact .refl s
  | case2 s o rest _ ih =>
    rw [release_cons]
    exact (s.ages_releaseOne o).trans ih

theorem Store.ages_upgrade (s : Store) (v : Value) : s.Ages (s.upgrade v).2 := by
  rcases s.upgrade_cases v with h | ⟨c, h⟩
  · rw [h]
    exact .refl s
  · rw [h]
    exact (s.ages_adjust _ _).trans (Store.ages_adjust _ _ _)

/-- The keys that a piece of work gives. -/
def Work.keys : {β : Type} → Work β → β → List Key
  | _, key _, k => [k]
  | _, _, _ => []

namespace Dialogue

variable {α β : Type}

/-- If the dialogue, which has been given the keys `ks` before, ends well, then the keys that it has
been given in all are those of its outcome. -/
def Keeps : Dialogue α → List Key → (α → List Key) → Prop
  | ends (.ok a), ks, got => ks = got a
  | ends (.error _), _, _ => True
  | does x next, ks, got => ∀ b, (next b).Keeps (ks ++ x.keys b) got
  | asks _ _ next, ks, got => ∀ reply, (next reply).Keeps ks got

variable {d : Dialogue α} {f : α → Dialogue β} {ks : List Key} {got mid : α → List Key}
  {got' : β → List Key}

namespace Keeps

theorem pure {a : α} (h : ks = got a) : (Pure.pure a : Dialogue α).Keeps ks got := h

theorem fail (e : Error) : (fail e : Dialogue α).Keeps ks got := trivial

theorem work (x : Work α) (ks : List Key) : (Dialogue.work x).Keeps ks fun a => ks ++ x.keys a :=
  fun _ => rfl

/-- Work that gives no key. -/
theorem keyless {x : Work α} (hx : ∀ a, x.keys a = []) (ks : List Key) :
    (Dialogue.work x).Keeps ks fun _ => ks := by
  intro a
  rw [hx a]
  exact List.append_nil ks

theorem bind (hd : d.Keeps ks mid) (hf : ∀ a, (f a).Keeps (mid a) got') :
    (d >>= f).Keeps ks got' := by
  induction d generalizing ks with
  | ends r =>
    cases r with
    | error e => trivial
    | ok a =>
      rw [bind_ends_ok, show ks = mid a from hd]
      exact hf a
  | does x next ih => exact fun b => ih b (hd b)
  | asks v m next ih => exact fun reply => ih reply (hd reply)

theorem guarding (hd : d.Keeps ks got) (os : List Owned) : (d.guarding os).Keeps ks got := by
  induction d generalizing ks with
  | ends r =>
    cases r with
    | error e => exact fun _ => trivial
    | ok a => exact hd
  | does x next ih => exact fun b => ih b (hd b)
  | asks v m next ih => exact fun reply => ih reply (hd reply)

end Keeps

/-! ## Queries -/

variable (host : Host) (ks)

theorem keeps_askList (v : Value) (m : Introspection) :
    (askList v m).Keeps ks fun _ => ks := by
  intro reply
  cases reply with
  | ok vs => rfl
  | error e => trivial

theorem keeps_failReleasing (os : List Owned) (e : Error) (got : α → List Key) :
    (failReleasing os e : Dialogue α).Keeps ks got :=
  (Keeps.keyless (fun _ => rfl) ks).bind fun _ => .fail e

theorem keeps_failMismatch (v : Value) (m : String → Mismatch) (got : α → List Key) :
    (failMismatch v m : Dialogue α).Keeps ks got :=
  (Keeps.keyless (fun _ => rfl) ks).bind fun _ => keeps_failReleasing ks _ _ got

theorem keeps_askOne (v : Value) (m : Introspection) : (askOne v m).Keeps ks fun _ => ks := by
  refine (keeps_askList ks v m).bind fun reply => ?_
  split
  · exact .keyless (fun _ => rfl) ks
  · exact keeps_failReleasing ks _ _ _

theorem keeps_askFlag (v : Value) (m : Introspection) : (askFlag v m).Keeps ks fun _ => ks :=
  (keeps_askOne ks v m).bind fun _ => (Keeps.keyless (fun _ => rfl) ks).bind fun _ =>
    (Keeps.keyless (fun _ => rfl) ks).bind fun _ => .pure rfl

theorem keeps_text {v : Value} {f : String → Dialogue α} {m : String → Mismatch}
    {got : α → List Key} (hf : ∀ t, (f t).Keeps ks got) :
    Keeps (match v.text? with
      | some t => f t
      | none => failMismatch v m) ks got := by
  cases v.text? with
  | some t => exact hf t
  | none => exact keeps_failMismatch ks v m got

/-! ## Attributes -/

theorem keeps_slot (attr : Value) : (slot attr).Keeps ks fun k => ks ++ [k] := by
  refine (keeps_askList ks attr (.ofAttribute .slots)).bind fun reply => ?_
  split
  · exact keeps_text ks fun t => .work (.key t) ks
  · exact keeps_failReleasing ks _ _ _

theorem keeps_initArg (attr : Value) : (initArg attr).Keeps ks fun k => ks ++ k.toList := by
  have hnone : ks = ks ++ (none : Option Key).toList := (List.append_nil ks).symm
  refine (keeps_askFlag ks attr (.ofAttribute .hasInitArg)).bind fun hasInitArg => ?_
  cases hasInitArg with
  | false => exact .pure hnone
  | true =>
    refine (keeps_askOne ks attr (.ofAttribute .initArg)).bind fun v => ?_
    refine (Keeps.keyless (fun _ => rfl) ks).bind fun defined => ?_
    cases defined with
    | true => exact keeps_text ks fun t => (Keeps.work (.key t) ks).bind fun k => .pure rfl
    | false => exact (Keeps.keyless (fun _ => rfl) ks).bind fun _ => .pure hnone

theorem keeps_capture (v : Value) : (capture v).Keeps ks fun _ => ks := by
  cases v with
  | ref c =>
    refine (Keeps.keyless (fun _ => rfl) ks).bind fun code? => ?_
    cases code? with
    | none => exact keeps_failMismatch ks _ _ _
    | some code =>
      refine (Keeps.keyless (fun _ => rfl) ks).bind fun w => ?_
      cases w.cache.classifier code with
      | none => exact .pure rfl
      | some kind => exact (Keeps.keyless (fun _ => rfl) ks).bind fun _ => .pure rfl
  | _ => exact .pure rfl

theorem keeps_default (attr : Value) : (default attr).Keeps ks fun _ => ks := by
  refine (keeps_askFlag ks attr (.ofAttribute .hasDefault)).bind fun hasDefault => ?_
  cases hasDefault with
  | true => exact (keeps_askOne ks attr (.ofAttribute .default)).bind (keeps_capture ks)
  | false =>
    refine (keeps_askFlag ks attr (.ofAttribute .hasBuilder)).bind fun hasBuilder => ?_
    cases hasBuilder with
    | true =>
      exact (keeps_askOne ks attr (.ofAttribute .builder)).bind fun v =>
        keeps_text ks fun _ => .pure rfl
    | false => exact .pure rfl

theorem keeps_initializer (attr : Value) : (initializer attr).Keeps ks fun _ => ks := by
  refine (keeps_askFlag ks attr (.ofAttribute .hasInitializer)).bind fun hasInitializer => ?_
  cases hasInitializer with
  | false => exact .pure rfl
  | true =>
    refine (keeps_askOne ks attr (.ofAttribute .initializer)).bind fun v => ?_
    refine (Keeps.keyless (fun _ => rfl) ks).bind fun code? => ?_
    split
    · exact .pure rfl
    · exact keeps_failMismatch ks _ _ _

/-- Compiling an attribute uses the keys that it is given for its slot and its init-arg. -/
theorem keeps_descriptor (attr : Value) : (descriptor attr).Keeps ks fun d => ks ++ d.keys := by
  cases attr with
  | ref origin =>
    refine (keeps_slot ks _).bind fun slot => ?_
    refine ((keeps_initArg _ _).guarding _).bind fun initArg => ?_
    refine ((keeps_default _ _).guarding _).bind fun default => ?_
    refine ((keeps_initializer _ _).guarding _).bind fun initializer => ?_
    refine (Keeps.keyless (fun _ => rfl) _).bind fun _ => ?_
    refine (Keeps.keyless (fun _ => rfl) _).bind fun _ => .pure ?_
    exact List.append_assoc ks [slot] initArg.toList
  | _ => exact (Keeps.keyless (fun _ => rfl) ks).bind fun _ => .fail _

/-! ## Instance metaobjects -/

theorem keeps_attributes (s : Shadow) (attrs : List Value) :
    (attributes s attrs).Keeps s.keys fun s => s.keys := by
  induction attrs generalizing s with
  | nil => rfl
  | cons attr rest ih =>
    refine ((keeps_descriptor _ attr).guarding _).bind fun d => ?_
    refine (Keeps.keyless (fun _ => rfl) _).bind fun _ => ?_
    rw [← Shadow.keys_append]
    exact ih (s.append d)

theorem keeps_ofClassName (className : String) :
    (ofClassName host className).Keeps [] fun s => s.keys := by
  refine (Keeps.keyless (fun _ => rfl) []).bind fun cls? => ?_
  cases cls? with
  | none => exact .fail _
  | some cls => exact (Keeps.keyless (fun _ => rfl) []).bind fun w => .pure rfl

theorem keeps_resolve (inst : Value) :
    (resolve host inst).Keeps [] fun s => s.keys := by
  refine (Keeps.keyless (fun _ => rfl) []).bind fun w => ?_
  dsimp only
  split
  · exact (keeps_askOne [] inst (.ofInstance .className)).bind fun v =>
      keeps_text [] fun t => keeps_ofClassName host t
  · exact (Keeps.keyless (fun _ => rfl) []).bind fun _ => .fail _

/-- Compiling an instance metaobject uses all the keys that it is given. -/
theorem keeps_shadow (inst : Value) :
    (shadow host inst).Keeps [] fun s => s.keys := by
  refine (keeps_resolve host inst).bind fun empty => ?_
  refine ((keeps_askList _ inst (.ofInstance .allAttributes)).guarding _).bind fun attrs => ?_
  refine (keeps_attributes empty attrs).bind fun s => ?_
  exact (Keeps.keyless (fun _ => rfl) _).bind fun _ => .pure rfl

end Dialogue

/-! ## The key table meanwhile -/

/-- The name was in the key table of `w₀` or is that of one of the keys. -/
def World.Listed (w₀ : World) (ks : List Key) (n : SharedName) : Prop :=
  n ∈ w₀.cache.keys.names ∨ ∃ k ∈ ks, k.name = n

/-- From `w₀` to `w` the keys `ks` were asked for, and nothing else was done to the key table. -/
structure World.Entered (w₀ : World) (ks : List Key) (w : World) : Prop where
  ages : w₀.store.Ages w.store
  shares : w.cache.config.shareSlotKeys
  table : w.cache.keys.Ordered w.cache.nameHash w.store
  listed : ∀ n ∈ w.cache.keys.names, w₀.Listed ks n
  known : ∀ n, w₀.Listed ks n → (Share.name n.id).OldIn w.store
  /-- The table has each of these names as long as somebody holds it. -/
  kept : ∀ n, w₀.Listed ks n → w.store.nameAlive n → n ∈ w.cache.keys.names

namespace World.Entered

variable {host : Host} {w₀ w w' : World} {ks : List Key}

theorem start (hs : w.cache.config.shareSlotKeys)
    (ht : w.cache.keys.Ordered w.cache.nameHash w.store) : w.Entered [] w := by
  have hnil : ∀ n, w.Listed [] n → n ∈ w.cache.keys.names := fun n hn =>
    hn.resolve_right fun ⟨k, hk, _⟩ => List.not_mem_nil hk
  exact ⟨.refl _, hs, ht, fun n hn => .inl hn, fun n hn => ht.known n (hnil n hn),
    fun n hn _ => hnil n hn⟩

/-- Work that leaves the cache alone. -/
theorem aside (h : w₀.Entered ks w) (hc : w'.cache = w.cache) (ha : w.store.Ages w'.store) :
    w₀.Entered ks w' := by
  constructor
  case ages => exact h.ages.trans ha
  case shares => rw [hc]; exact h.shares
  case table => rw [hc]; exact h.table.ages ha
  case listed => rw [hc]; exact h.listed
  case known => exact fun n hn => ha.old _ (h.known n hn)
  case kept =>
    intro n hn halive
    rw [hc]
    exact h.kept n hn (ha.has _ (h.known n hn) halive)

/-- A key that is asked for. -/
theorem key (h : w₀.Entered ks w) (name : String) :
    w₀.Entered (ks ++ [(w.key name).1]) (w.key name).2 := by
  obtain ⟨k, keys, s, hk⟩ : ∃ k keys s,
      w.cache.keys.intern w.cache.nameHash name w.store = (k, keys, s) := ⟨_, _, _, rfl⟩
  have hages := KeyTable.ages_intern w.cache.nameHash name w.cache.keys w.store
  have hmem (n : SharedName) := h.table.mem_intern name (n := n)
  have hsub (n : SharedName)
      (hn : n ∈ (w.cache.keys.intern w.cache.nameHash name w.store).2.1.names) :=
    KeyTable.mem_names_intern hn
  have htable := h.table.intern name
  have hself := (KeyTable.mem_live.1 ((h.table.gives name).mem_live.2 (.inl rfl))).2
  rw [hk] at hages hmem hsub htable hself
  have hkey : w.key name = (k, { w with cache := { w.cache with keys }, store := s }) := by
    rw [World.key, if_pos h.shares, hk]
  have hlisted {n : SharedName} : w₀.Listed (ks ++ [k]) n ↔ w₀.Listed ks n ∨ n = k.name := by
    rw [Listed, Listed, or_assoc]
    simp [or_and_right, exists_or, eq_comm]
  rw [hkey]
  constructor
  case ages => exact h.ages.trans hages
  case shares => exact h.shares
  case table => exact htable
  case listed => exact fun n hn => hlisted.2 ((hsub n hn).imp (h.listed n) id)
  case known =>
    intro n hn
    rcases hlisted.1 hn with hn | rfl
    · exact hages.old _ (h.known n hn)
    · exact Store.oldIn_of_has (x := .name _) hself
  case kept =>
    intro n hn halive
    rcases hlisted.1 hn with hn | rfl
    · have hbefore := hages.has _ (h.known n hn) halive
      exact hmem n (.inr ⟨h.kept n hn hbefore, hbefore⟩)
    · exact hmem _ (.inl rfl)

/-- Work on the way. -/
theorem work (h : w₀.Entered ks w) {β : Type} (x : Work β) :
    w₀.Entered (ks ++ x.keys (x.apply host w).1) (x.apply host w).2 := by
  -- all but asking for a key leaves the cache alone
  have hleft {w' : World} (hc : w'.cache = w.cache) (ha : w.store.Ages w'.store) :
      w₀.Entered (ks ++ []) w' := by
    rw [List.append_nil]
    exact h.aside hc ha
  cases x with
  | read f => exact hleft rfl (.refl _)
  | release os => exact hleft rfl (w.store.ages_release os)
  | note n => exact hleft rfl ((Store.Ages.refl _).record _)
  | retainWeak c => exact hleft rfl (w.store.ages_retain _)
  | key name => exact h.key name
  | upgrade v => exact hleft rfl (w.store.ages_upgrade v)
  | findClass name => exact hleft rfl (w.store.ages_retain _)

end World.Entered

/-- A dialogue that ends well has entered the keys of its outcome into the table, if the answers
that it gets leave the cache alone. -/
theorem Dialogue.Keeps.entered {host : Host} {α : Type} {d : Dialogue α} {ks : List Key}
    {got : α → List Key} {w₀ w w' : World} {a : α}
    (hq : ∀ {q : Query}, host.Answers q →
      q.after.cache = q.before.cache ∧ q.before.store.Ages q.after.store)
    (hd : d.Keeps ks got) (h : w₀.Entered ks w) (hrun : d.run host w = .ok (.ok a, w')) :
    w₀.Entered (got a) w' := by
  induction d generalizing ks w with
  | ends r =>
    cases hrun
    rw [← show ks = got a from hd]
    exact h
  | does x next ih => exact ih _ (hd _) (h.work x) hrun
  | asks v m next ih =>
    rw [run_asks] at hrun
    cases hc : host.callMethod v m.name w with
    | error e =>
      rw [hc] at hrun
      cases hrun
    | ok p =>
      rw [hc] at hrun
      obtain ⟨hcache, hages⟩ := hq (q := ⟨v, m, w, p.1, p.2⟩) hc
      exact ih p.1 (hd p.1) (h.aside hcache hages) hrun

end MetaCache
