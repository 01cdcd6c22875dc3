import MetaCache.Storage
/-!
# Entries by name

Keys are compared by hash, by the identity of their shared string, and by text, in this order. Where
every identity stands for one text and every hash is that of the text, all this comes to comparing
names, and the entries of a hash are a map from names to values.

* `SharedName.Known`, `Key.Proper`: names and keys that one labelling of identities explains.
* `Key.sameSlot_iff`: two such keys denote the same slot exactly if their names are equal.
* `Slots`, `Entries.slots`: the map that the entries of a hash are.
* `Entries.slots_put`, `Entries.slots_remove`: an operation on entries changes the named slot alone.
-/

namespace MetaCache

/-! ## Keys -/

/-- The identity of the name is below `bound`, and `label` tells its text. -/
structure SharedName.Known (label : NameId → String) (bound : NameId) (n : SharedName) : Prop where
  lt : n.id < bound
  text : n.text = label n.id

/-- The name of the key is known, and its hash is that of its text. -/
structure Key.Proper (hash : String → UInt32) (label : NameId → String) (bound : NameId) (k : Key) :
    Prop where
  known : k.name.Known label bound
  hash : k.hash = hash k.text

variable {hash : String → UInt32} {label label' : NameId → String} {bound bound' : NameId}

theorem SharedName.Known.mono {n : SharedName} (h : n.Known label bound) (hle : bound ≤ bound')
    (hl : ∀ i < bound, label' i = label i) : n.Known label' bound' :=
  ⟨Nat.lt_of_lt_of_le h.lt hle, h.text.trans (hl _ h.lt).symm⟩

theorem Key.Proper.mono {k : Key} (h : k.Proper hash label bound) (hle : bound ≤ bound')
    (hl : ∀ i < bound, label' i = label i) : k.Proper hash label' bound' :=
  ⟨h.known.mono hle hl, h.hash⟩

/-- Two keys denote the same slot exactly if their names are equal. -/
theorem Key.sameSlot_iff {a b : Key} (ha : a.Proper hash label bound)
    (hb : b.Proper hash label bound) : a.sameSlot b ↔ a.text = b.text := by
  have hshared : a.sharesNameWith b → a.text = b.text := by
    intro h
    have hid : a.name.id = b.name.id := beq_iff_eq.1 h
    have ht : label a.name.id = label b.name.id := congrArg label hid
    exact ha.known.text.trans (ht.trans hb.known.text.symm)
  have hhash : a.text = b.text → a.hash = b.hash := fun h => by rw [ha.hash, hb.hash, h]
  simp only [Key.sameSlot, Bool.and_eq_true, beq_iff_eq, Bool.or_eq_true]
  constructor
  · rintro ⟨-, h | h⟩
    · exact hshared h
    · exact h
  · exact fun h => ⟨hhash h, .inr h⟩

/-! ## Slots -/

/-- The slots of an instance: a slot is absent, or holds a value, which may be the undefined one. -/
abbrev Slots := String → Option Value

/-- The slots with `v?` in the one of that name. -/
def Slots.assign (m : Slots) (name : String) (v? : Option Value) : Slots :=
  fun n => if n = name then v? else m n

namespace Slots

theorem assign_self (m : Slots) (name : String) : m.assign name (m name) = m := by
  funext n
  rw [assign]
  split
  · subst n; rfl
  · rfl

theorem assign_assign (m : Slots) (name : String) (a b : Option Value) :
    (m.assign name a).assign name b = m.assign name b := by
  funext n
  simp only [assign]
  split <;> rfl

theorem assign_comm (m : Slots) {name name' : String} (h : name ≠ name') (a b : Option Value) :
    (m.assign name a).assign name' b = (m.assign name' b).assign name a := by
  funext n
  simp only [assign]
  split
  · rename_i hn
    rw [hn, if_neg h.symm]
  · rfl

theorem assign_of_ne (m : Slots) {name n : String} (h : n ≠ name) (v? : Option Value) :
    m.assign name v? n = m n := if_neg h

end Slots

namespace Entries

/-- The map that the entries are. -/
def slots (es : List (Key × Value)) : Slots :=
  fun name => (es.find? fun e => e.1.text == name).map Prod.snd

/-- The keys are proper, and no name has two of them. -/
structure Proper (hash : String → UInt32) (label : NameId → String) (bound : NameId)
    (es : List (Key × Value)) : Prop where
  keys : ∀ e ∈ es, e.1.Proper hash label bound
  distinct : (es.map fun e => e.1.text).Nodup

theorem Proper.mono {es : List (Key × Value)} (h : Proper hash label bound es)
    (hle : bound ≤ bound') (hl : ∀ i < bound, label' i = label i) :
    Proper hash label' bound' es :=
  ⟨fun e he => (h.keys e he).mono hle hl, h.distinct⟩

theorem proper_nil : Proper hash label bound [] :=
  ⟨fun _ h => (List.not_mem_nil h).elim, List.nodup_nil⟩

theorem proper_cons {e : Key × Value} {es : List (Key × Value)} :
    Proper hash label bound (e :: es) ↔ e.1.Proper hash label bound ∧
      (∀ e' ∈ es, e'.1.text ≠ e.1.text) ∧ Proper hash label bound es := by
  constructor
  · intro h
    have hd := List.nodup_cons.1 (List.map_cons ▸ h.distinct)
    refine ⟨h.keys e List.mem_cons_self, fun e' he' ht => hd.1 ?_,
      fun e' he' => h.keys e' (List.mem_cons_of_mem _ he'), hd.2⟩
    exact List.mem_map.2 ⟨e', he', ht⟩
  · rintro ⟨hk, hne, hp⟩
    refine ⟨fun e' he' => ?_, ?_⟩
    · rcases List.mem_cons.1 he' with rfl | he'
      · exact hk
      · exact hp.keys e' he'
    · rw [List.map_cons, List.nodup_cons]
      refine ⟨fun h => ?_, hp.distinct⟩
      obtain ⟨e', he', ht⟩ := List.mem_map.1 h
      exact hne e' he' ht

variable {es : List (Key × Value)} {slot : Key}

theorem slots_cons (k : Key) (v : Value) (es : List (Key × Value)) :
    slots ((k, v) :: es) = (slots es).assign k.text (some v) := by
  funext name
  rw [slots, List.find?_cons, Slots.assign]
  by_cases h : name = k.text
  · rw [if_pos h, h, beq_self_eq_true]
    rfl
  · have hb : (k.text == name) = false := beq_false_of_ne fun hc => h hc.symm
    rw [if_neg h, hb]
    rfl

theorem slots_of_not_mem {name : String} (h : ∀ e ∈ es, e.1.text ≠ name) :
    slots es name = none := by
  rw [slots, List.find?_eq_none.2 fun e he => by simpa using h e he]
  rfl

theorem text_of_mem_put {v : Value} {e : Key × Value} (he : e ∈ put slot v es) :
    e.1 = slot ∨ ∃ e' ∈ es, e.1 = e'.1 := by
  induction es with
  | nil => exact .inl (by rw [put, List.mem_singleton] at he; rw [he])
  | cons x rest ih =>
    obtain ⟨k, old⟩ := x
    rw [put] at he
    split at he
    · rcases List.mem_cons.1 he with rfl | he
      · exact .inr ⟨(k, old), List.mem_cons_self, rfl⟩
      · exact .inr ⟨e, List.mem_cons_of_mem _ he, rfl⟩
    · rcases List.mem_cons.1 he with rfl | he
      · exact .inr ⟨(k, old), List.mem_cons_self, rfl⟩
      · rcases ih he with h | ⟨e', he', h⟩
        · exact .inl h
        · exact .inr ⟨e', List.mem_cons_of_mem _ he', h⟩

theorem mem_of_mem_remove {e : Key × Value} (he : e ∈ remove slot es) : e ∈ es := by
  induction es with
  | nil => exact he
  | cons x rest ih =>
    obtain ⟨k, old⟩ := x
    rw [remove] at he
    split at he
    · exact List.mem_cons_of_mem _ he
    · rcases List.mem_cons.1 he with rfl | he
      · exact List.mem_cons_self
      · exact List.mem_cons_of_mem _ (ih he)

/-- Removing a slot leaves the keys proper. -/
theorem Proper.remove (h : Proper hash label bound es) :
    Proper hash label bound (remove slot es) := by
  induction es with
  | nil => exact h
  | cons x rest ih =>
    obtain ⟨k, old⟩ := x
    obtain ⟨hk, hne, hrest⟩ := proper_cons.1 h
    rw [Entries.remove]
    split
    · exact hrest
    · exact proper_cons.2 ⟨hk, fun e he => hne e (mem_of_mem_remove he), ih hrest⟩

variable (hs : slot.Proper hash label bound)

include hs

theorem sameSlot_eq (h : Proper hash label bound es) {e : Key × Value} (he : e ∈ es) :
    e.1.sameSlot slot = (e.1.text == slot.text) := by
  rw [Bool.eq_iff_iff, Key.sameSlot_iff (h.keys e he) hs, beq_iff_eq]

/-- An entry is found by the name of its key. -/
theorem lookup?_eq (h : Proper hash label bound es) :
    lookup? es slot = es.find? fun e => e.1.text == slot.text := by
  induction es with
  | nil => rfl
  | cons e rest ih =>
    obtain ⟨-, -, hrest⟩ := proper_cons.1 h
    have hih : rest.find? (fun e => e.1.sameSlot slot) = _ := ih hrest
    rw [lookup?, List.find?_cons, List.find?_cons, sameSlot_eq hs h List.mem_cons_self, hih]

theorem isSome_lookup? (h : Proper hash label bound es) :
    (lookup? es slot).isSome = (slots es slot.text).isSome := by
  rw [lookup?_eq hs h, slots, Option.isSome_map]

theorem get?_eq (h : Proper hash label bound es) : get? es slot = slots es slot.text := by
  have := congrArg (Option.map Prod.snd) (lookup?_eq hs h)
  exact this

/-- Storing a value leaves the keys proper. -/
theorem Proper.put (h : Proper hash label bound es) (v : Value) :
    Proper hash label bound (put slot v es) := by
  induction es with
  | nil => exact proper_cons.2 ⟨hs, fun _ h => (List.not_mem_nil h).elim, proper_nil⟩
  | cons x rest ih =>
    obtain ⟨k, old⟩ := x
    obtain ⟨hk, hne, hrest⟩ := proper_cons.1 h
    rw [Entries.put]
    split
    · exact proper_cons.2 ⟨hk, hne, hrest⟩
    · rename_i hsame
      refine proper_cons.2 ⟨hk, fun e he => ?_, ih hrest⟩
      rcases text_of_mem_put he with he | ⟨e', he', heq⟩
      · rw [he]
        exact fun hc => hsame ((Key.sameSlot_iff hk hs).2 hc.symm)
      · rw [heq]
        exact hne e' he'

/-- Storing a value changes the named slot alone. -/
theorem slots_put (h : Proper hash label bound es) (v : Value) :
    slots (put slot v es) = (slots es).assign slot.text (some v) := by
  induction es with
  | nil =>
    rw [put, slots_cons]
  | cons x rest ih =>
    obtain ⟨k, old⟩ := x
    obtain ⟨hk, -, hrest⟩ := proper_cons.1 h
    have hsame := Key.sameSlot_iff hk hs
    rw [put]
    split
    · rename_i hks
      rw [slots_cons, slots_cons, ← hsame.1 hks, Slots.assign_assign]
    · rename_i hks
      have hne : k.text ≠ slot.text := fun hc => hks (hsame.2 hc)
      rw [slots_cons, slots_cons, ih hrest, Slots.assign_comm _ hne.symm]

/-- Removing a slot changes it alone. -/
theorem slots_remove (h : Proper hash label bound es) :
    slots (remove slot es) = (slots es).assign slot.text none := by
  induction es with
  | nil =>
    have hnone : slots [] slot.text = none := rfl
    rw [remove, ← hnone, Slots.assign_self]
  | cons x rest ih =>
    obtain ⟨k, old⟩ := x
    obtain ⟨hk, hne, hrest⟩ := proper_cons.1 h
    have hsame := Key.sameSlot_iff hk hs
    rw [remove]
    split
    · rename_i hks
      have hnone : slots rest slot.text = none := slots_of_not_mem (hsame.1 hks ▸ hne)
      rw [slots_cons, hsame.1 hks, Slots.assign_assign, ← hnone, Slots.assign_self]
    · rename_i hks
      have hne : k.text ≠ slot.text := fun hc => hks (hsame.2 hc)
      rw [slots_cons, slots_cons, ih hrest, Slots.assign_comm _ hne.symm]

end Entries

end MetaCache
