import MetaCache.Proofs.Custody.Hosts
import MetaCache.Proofs.Custody.Table
import Mathlib.Data.Finset.Card
/-!
# Names that are asked for

Whoever asks the key table for a name gets the string of an earlier key of that name as long as
somebody has held this string all the time since, be it a key in a variable, in a descriptor or in a
hash, and whatever has been swept meanwhile. Otherwise the name gets a new string. So each name has
one live string at most, also if its hash is that of another name.

* `Estate.interned`, `Estate.HeldSince`: the keys asked for, and those that have been held since.
* `Estate.Filed`: the table after a run; `Estate.Run.filed`.
* `Estate.Interning`: what asking for a name gives, and what is alive.
* `Estate.interning_law`: this holds after every run.
-/

namespace MetaCache.Estate

variable {hash : String → UInt32} {label : NameId → String} {e d : Estate} {ts : List Turn}
  {a : Act}

/-- The key that the table is asked for in a turn, if it is asked. -/
def Turn.interned? (hash : String → UInt32) (t : Turn) : Option Key :=
  match t.act with
  | .intern name => some (t.before.table.intern hash name t.before.store).1
  | _ => none

/-- The keys that the table was asked for in a run. -/
def interned (hash : String → UInt32) (ts : List Turn) : List Key :=
  ts.filterMap (Turn.interned? hash)

/-- The table was asked for the key, and somebody has held its string ever since. -/
def HeldSince (hash : String → UInt32) (ts : List Turn) (d : Estate) (k : Key) : Prop :=
  ∃ ts₁ t ts₂, ts = ts₁ ++ t :: ts₂ ∧ t.interned? hash = some k ∧
    Throughout (fun m => 0 < m.owners (.name k.name.id)) ts₂ d

/-! ## The table after a run -/

/-- The table has exactly the live names that it was asked for. -/
structure Filed (hash : String → UInt32) (ts : List Turn) (d : Estate) : Prop where
  tidy : d.table.Tidy hash d.store
  keys : ∀ k ∈ interned hash ts, k ∈ d.keys
  live : ∀ n, n ∈ d.table.live d.store ↔
    d.store.nameAlive n ∧ ∃ k ∈ interned hash ts, k.name = n

theorem keys_after (hash : String → UInt32) (e : Estate) (a : Act) :
    ∀ k ∈ e.keys, k ∈ (e.after hash a).keys := by
  intro k hk
  cases a with
  | fall =>
    rw [after]
    split <;> exact hk
  | newKey _ | shareKey _ | intern _ => exact List.mem_cons_of_mem _ hk
  | _ => exact hk

namespace Filed

/-- What is asked for goes into the table. -/
theorem intern (h : Filed hash ts d) (hs : d.Sound hash label) (name : String) :
    Filed hash (ts ++ [⟨d, .intern name⟩]) (d.after hash (.intern name)) := by
  have hgives := KeyTable.gives_intern (fun n hn => (hs.table n hn).1) h.tidy name
  have hages := Estate.ages hash d (.intern name)
  have hinterned : interned hash (ts ++ [⟨d, .intern name⟩]) =
      interned hash ts ++ [(d.table.intern hash name d.store).1] := List.filterMap_append
  refine ⟨hgives.tidy, fun k hk => ?_, fun n => ?_⟩
  · rw [hinterned] at hk
    rcases List.mem_append.1 hk with hk | hk
    · exact List.mem_cons_of_mem _ (h.keys k hk)
    · rw [List.mem_singleton.1 hk]
      exact List.mem_cons_self
  · have hafter {n : SharedName} : n ∈ (d.after hash (.intern name)).table.live
        (d.after hash (.intern name)).store ↔
        n = (d.table.intern hash name d.store).1.name ∨ n ∈ d.table.live d.store :=
      hgives.mem_live
    rw [hafter, hinterned]
    constructor
    · intro hn
      refine ⟨(KeyTable.mem_live.1 (hafter.2 hn)).2, ?_⟩
      rcases hn with rfl | hn
      · exact ⟨_, List.mem_append_right _ List.mem_cons_self, rfl⟩
      · obtain ⟨-, k, hk, hkn⟩ := (h.live n).1 hn
        exact ⟨k, List.mem_append_left _ hk, hkn⟩
    · rintro ⟨halive, k, hk, rfl⟩
      rcases List.mem_append.1 hk with hk | hk
      · have hold : (Share.name k.name.id).OldIn d.store := (hs.keys k (h.keys k hk)).1.1
        exact .inr ((h.live _).2 ⟨hages.has _ hold halive, k, hk, rfl⟩)
      · exact .inl (by rw [List.mem_singleton.1 hk])

/-- Other acts leave the table as it is, or sweep it. -/
theorem aside (h : Filed hash ts d) (hs : d.Sound hash label)
    (ha : Turn.interned? hash ⟨d, a⟩ = none) (ht : (d.after hash a).table = d.table ∨ a = .sweep) :
    Filed hash (ts ++ [⟨d, a⟩]) (d.after hash a) := by
  have hages := Estate.ages hash d a
  have hinterned : interned hash (ts ++ [⟨d, a⟩]) = interned hash ts := by
    rw [interned, List.filterMap_append, List.filterMap_cons, ha]
    exact List.append_nil _
  have hold : ∀ n ∈ d.table.names, (Share.name n.id).OldIn d.store := fun n hn => (hs.table n hn).1
  refine ⟨?_, fun k hk => keys_after hash d a k (h.keys k (hinterned ▸ hk)), fun n => ?_⟩
  · rcases ht with ht | rfl
    · rw [ht]
      exact h.tidy.of_alive fun n hn => hages.has _ (hold n hn)
    · exact h.tidy.sweep
  · rw [hinterned]
    have hlive : n ∈ (d.after hash a).table.live (d.after hash a).store ↔
        n ∈ d.table.live d.store ∧ (d.after hash a).store.nameAlive n := by
      rcases ht with ht | rfl
      · rw [ht, KeyTable.mem_live, KeyTable.mem_live]
        exact ⟨fun ⟨hn, hl⟩ => ⟨⟨hn, hages.has _ (hold n hn) hl⟩, hl⟩,
          fun ⟨⟨hn, _⟩, hl⟩ => ⟨hn, hl⟩⟩
      · show n ∈ (d.table.sweep d.store).1.live (d.table.sweep d.store).2 ↔ _
        rw [KeyTable.live_sweep]
        exact ⟨fun hn => ⟨hn, (KeyTable.mem_live.1 hn).2⟩, And.left⟩
    rw [hlive, h.live]
    constructor
    · exact fun ⟨⟨_, hk⟩, hl⟩ => ⟨hl, hk⟩
    · rintro ⟨hl, k, hk, rfl⟩
      exact ⟨⟨hages.has (.name k.name.id) (hs.keys k (h.keys k hk)).1.1 hl, k, hk, rfl⟩, hl⟩

theorem after (h : Filed hash ts d) (hs : d.Sound hash label) (a : Act) :
    Filed hash (ts ++ [⟨d, a⟩]) (d.after hash a) := by
  cases a with
  | intern name => exact h.intern hs name
  | sweep => exact h.aside hs rfl (.inr rfl)
  | fall =>
    refine h.aside hs rfl (.inl ?_)
    rw [Estate.after]
    split <;> rfl
  | _ => exact h.aside hs rfl (.inl rfl)

end Filed

/-- A run that began with a new table. -/
theorem Run.filed (hr : e.Run hash ts d) (hs : e.Sound hash label) (ht : e.table = {}) :
    Filed hash ts d := by
  induction hr with
  | refl =>
    refine ⟨by rw [ht]; exact .empty hash e.store, fun _ hk => (List.not_mem_nil hk).elim,
      fun n => ?_⟩
    rw [ht]
    exact ⟨fun hn => (List.not_mem_nil hn).elim, fun ⟨_, _, hk, _⟩ => (List.not_mem_nil hk).elim⟩
  | snoc hr ha ih =>
    obtain ⟨_, -, hd⟩ := hs.run hr
    exact ih.after hd _

/-- A string that was asked for is there exactly if it has been held since. -/
theorem Run.heldSince_iff (hr : e.Run hash ts d) (he : e.Exact) (hs : e.Sound hash label)
    {k : Key} :
    HeldSince hash ts d k ↔ k ∈ interned hash ts ∧ d.store.nameAlive k.name := by
  have halive : d.store.nameAlive k.name ↔ 0 < d.owners (.name k.name.id) :=
    (he.run hr).has_iff (x := .name k.name.id) rfl
  constructor
  · rintro ⟨ts₁, t, ts₂, rfl, hk, hheld⟩
    exact ⟨List.mem_filterMap.2 ⟨t, List.mem_append_right _ List.mem_cons_self, hk⟩,
      halive.2 hheld.2⟩
  · rintro ⟨hk, hl⟩
    obtain ⟨t, ht, hkt⟩ := List.mem_filterMap.1 hk
    obtain ⟨ts₁, ts₂, rfl⟩ := List.append_of_mem ht
    obtain ⟨h₁, hallows, h₂⟩ := hr.split
    have hto := h₁.snoc hallows
    obtain ⟨_, -, hs'⟩ := hs.run hto
    have hmade : k ∈ (t.before.after hash t.act).keys := by
      rw [Turn.interned?] at hkt
      split at hkt
      · rename_i hact
        cases hkt
        rw [hact]
        exact List.mem_cons_self
      · cases hkt
    refine ⟨ts₁, t, ts₂, rfl, hkt, ?_⟩
    exact (h₂.has_iff (he.run hto) (x := .name k.name.id) rfl (hs'.keys k hmade).1.1).1 hl

/-! ## The law -/

/-- What the table gives after a run that has come to `d`, and what is alive then. -/
structure Interning (hash : String → UInt32) (ts : List Turn) (d : Estate) : Prop where
  /-- A key that is asked for has the name and its hash. -/
  asked : ∀ name, (d.table.intern hash name d.store).1.text = name ∧
    (d.table.intern hash name d.store).1.hash = hash name
  /-- It shares the string of an earlier key of that name if somebody has held it ever since. -/
  shared : ∀ name k, HeldSince hash ts d k → k.text = name →
    (d.table.intern hash name d.store).1.sharesNameWith k
  /-- If there is no such key its string is new, and shared with no key there has ever been. -/
  fresh : ∀ name, (∀ k, HeldSince hash ts d k → k.text ≠ name) →
    ∀ k ∈ d.keys, ¬ (d.table.intern hash name d.store).1.sharesNameWith k
  /-- Keys of different names share no string. -/
  apart : ∀ k ∈ d.keys, ∀ k' ∈ d.keys, k.sharesNameWith k' → k.text = k'.text
  /-- Of each name there is one live string in the table at most. -/
  single : ∀ n ∈ d.table.names, ∀ m ∈ d.table.names, d.store.nameAlive n → d.store.nameAlive m →
    n.text = m.text → n = m
  /-- The number of live entries is the number of the names that were asked for and whose string
  somebody still holds. -/
  count : d.table.liveCount d.store =
    (((interned hash ts).filter fun k => 0 < d.owners (.name k.name.id)).map Key.text).toFinset.card

/-- Asking for names, whatever is swept, copied and dropped in between, and whatever names have the
same hash. -/
theorem interning_law (he : e.Exact) (hs : e.Sound hash label) (ht : e.table = {})
    (hr : e.Run hash ts d) : Interning hash ts d ∧ ComesToActs := by
  obtain ⟨label', -, hd⟩ := hs.run hr
  have hfiled := hr.filed hs ht
  have hgives (name : String) :=
    KeyTable.gives_intern (fun n hn => (hd.table n hn).1) hfiled.tidy name
  refine ⟨?_, comesToActs⟩
  constructor
  case asked => exact fun name => ⟨(hgives name).text, (hgives name).hashed⟩
  case shared =>
    intro name k hk hname
    obtain ⟨hk, halive⟩ := (hr.heldSince_iff he hs).1 hk
    have hlive : k.name ∈ d.table.live d.store := (hfiled.live _).2 ⟨halive, k, hk, rfl⟩
    obtain ⟨hmem, -⟩ := (hgives name).shared ⟨k.name, hlive, hname⟩
    have hsame := hfiled.tidy.eq_of_text hmem hlive ((hgives name).text.trans hname.symm)
    rw [Key.sharesNameWith, hsame, BEq.rfl]
  case fresh =>
    intro name hno k hk hshares
    have hnew := ((hgives name).fresh fun n hn hname => by
      obtain ⟨halive, k', hk', rfl⟩ := (hfiled.live n).1 hn
      exact hno k' ((hr.heldSince_iff he hs).2 ⟨hk', halive⟩) hname).1
    have hlt := (hd.keys k hk).1.1
    rw [Key.sharesNameWith, hnew, beq_iff_eq] at hshares
    exact Nat.lt_irrefl _ (hshares ▸ hlt)
  case apart =>
    intro k hk k' hk' hshares
    rw [Key.sharesNameWith, beq_iff_eq] at hshares
    exact (hd.keys k hk).1.2.trans (hshares ▸ (hd.keys k' hk').1.2.symm)
  case single =>
    exact fun n hn m hm hln hlm hname =>
      hfiled.tidy.eq_of_text (KeyTable.mem_live.2 ⟨hn, hln⟩) (KeyTable.mem_live.2 ⟨hm, hlm⟩) hname
  case count =>
    rw [KeyTable.liveCount_eq, List.countP_eq_length_filter]
    show (d.table.live d.store).length = _
    rw [← List.length_map (f := SharedName.text), ← List.toFinset_card_of_nodup hfiled.tidy.texts]
    congr 1
    ext name
    have hheld (k : Key) : d.store.nameAlive k.name ↔ 0 < d.owners (.name k.name.id) :=
      (he.run hr).has_iff (x := .name k.name.id) rfl
    simp only [List.mem_toFinset, List.mem_map, List.mem_filter, decide_eq_true_eq]
    constructor
    · rintro ⟨n, hn, rfl⟩
      obtain ⟨halive, k, hk, rfl⟩ := (hfiled.live n).1 hn
      exact ⟨k, ⟨hk, (hheld k).1 halive⟩, rfl⟩
    · rintro ⟨k, ⟨hk, howned⟩, rfl⟩
      exact ⟨k.name, (hfiled.live _).2 ⟨(hheld k).2 howned, k, hk, rfl⟩, rfl⟩

/-- The estate after two names with one hash were asked for. -/
def twoNames : Estate :=
  (({} : Estate).after (fun _ => 0) (.intern "a")).after (fun _ => 0) (.intern "b")

/-- The key of the first name is dropped then. -/
theorem interning_law_twoNames : ∃ ts d, ({} : Estate).Run (fun _ => 0) ts d ∧
    (interned (fun _ => 0) ts).map Key.text = ["a", "b"] ∧ d.table.liveCount d.store = 1 ∧
      Interning (fun _ => 0) ts d := by
  have hboth : ({} : Estate).Run (fun _ => 0) _ twoNames :=
    .snoc (.single (allows_of_rest rfl (by simp) trivial)) (allows_of_rest rfl (by simp) trivial)
  have hhas : twoNames.Has [.name 0] := fun x => Nat.le_add_left _ (holding [.name 1] x)
  have hdrop : twoNames.Allows (.drop [.name 0]) := allows_of_rest rfl (by simp) hhas
  have hdropped : (twoNames.after (fun _ => 0) (.drop [.name 0])).Allows .fall :=
    ⟨⟨fun _ => rfl, fun _ => by decide⟩, trivial⟩
  have hr := (hboth.snoc hdrop).snoc hdropped
  exact ⟨_, _, hr, rfl, by decide, (interning_law .empty (.empty _ fun _ => "") rfl hr).1⟩

end MetaCache.Estate
