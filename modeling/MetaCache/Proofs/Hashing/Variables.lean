import MetaCache.Proofs.Hashing.Accord
/-!
# Variables in matching worlds

The same variables hold the same, hashes aside.

* `Session.Matches.find?_cases`, `World.Matches.bind`, `World.Matches.unbind`: variables.
* `accord_keyIn`: the key in a variable.
* `accord_payload`: the payload of a handle.
-/

namespace MetaCache

open Script (Binding Session)

variable {g : Hashings}

namespace Script

theorem Binding.Matches.key {k l : Key} (h : k.Matches g l) :
    Binding.Matches g (.key k) (.key l) :=
  ⟨congrArg Binding.key h.unhashed, h.left, h.right⟩

theorem Binding.Matches.owned {b c : Binding} (h : b.Matches g c) : b.owned = c.owned := by
  rw [← b.owned_unhashed, h.unhashed, c.owned_unhashed]

namespace Session

variable {s t : Session} {name : String} {b : Binding} {k : Key}

theorem find?_unhashed (s : Session) (name : String) :
    s.unhashed.find? name = (s.find? name).map Binding.unhashed :=
  lookup_map_snd Binding.unhashed name s.vars

theorem unhashed_put (s : Session) (name : String) (b : Binding) :
    (s.put name b).unhashed = s.unhashed.put name b.unhashed := by
  refine congrArg (fun vars => { s.unhashed with vars }) ?_
  show (insertBinding name b s.vars).map _ = insertBinding name b.unhashed (s.vars.map _)
  induction s.vars with
  | nil => rfl
  | cons v rest ih =>
    rw [List.map_cons, insertBinding, insertBinding]
    split
    · rfl
    · split
      · rfl
      · rw [List.map_cons, ih]

theorem unhashed_erase (s : Session) (name : String) :
    (s.erase name).unhashed = s.unhashed.erase name :=
  congrArg (fun vars => { s.unhashed with vars })
    (List.filter_map (f := fun v : String × Binding => (v.1, v.2.unhashed)) (l := s.vars)
      (p := fun v => v.1 != name)).symm

theorem mem_keys_put (h : k ∈ (s.put name b).keys) : k ∈ b.keys ∨ k ∈ s.keys := by
  obtain ⟨v, hv, hk⟩ := List.mem_flatMap.1 h
  have hmem {vs : List (String × Binding)} (hv : v ∈ insertBinding name b vs) :
      v = (name, b) ∨ v ∈ vs := by
    induction vs with
    | nil => exact .inl (List.mem_singleton.1 hv)
    | cons u rest ih =>
      rw [insertBinding] at hv
      split at hv
      · rename_i hn
        rcases List.mem_cons.1 hv with rfl | hv
        · exact .inl (by rw [hn])
        · exact .inr (List.mem_cons_of_mem _ hv)
      · split at hv
        · exact (List.mem_cons.1 hv).imp id id
        · rcases List.mem_cons.1 hv with rfl | hv
          · exact .inr List.mem_cons_self
          · exact (ih hv).imp id (List.mem_cons_of_mem _)
  rcases hmem hv with rfl | hv
  · exact .inl hk
  · exact .inr (List.mem_flatMap.2 ⟨v, hv, hk⟩)

theorem mem_keys_erase (h : k ∈ (s.erase name).keys) : k ∈ s.keys := by
  obtain ⟨v, hv, hk⟩ := List.mem_flatMap.1 h
  exact List.mem_flatMap.2 ⟨v, (List.mem_filter.1 hv).1, hk⟩

theorem mem_keys_of_find? (h : s.find? name = some b) (hk : k ∈ b.keys) : k ∈ s.keys :=
  List.mem_flatMap.2 ⟨(name, b), mem_of_lookup h, hk⟩

namespace Matches

variable (h : s.Matches g t)

include h

/-- A variable is bound in both sessions, to what matches, or in none of them. -/
theorem find?_cases (name : String) : (s.find? name = none ∧ t.find? name = none) ∨
    ∃ b c, s.find? name = some b ∧ t.find? name = some c ∧ b.Matches g c := by
  have hfind : (s.find? name).map Binding.unhashed = (t.find? name).map Binding.unhashed := by
    rw [← find?_unhashed, h.unhashed, find?_unhashed]
  rcases cases_of_map_eq hfind with hno | ⟨b, c, hs, ht, hbc⟩
  · exact .inl hno
  · exact .inr ⟨b, c, hs, ht, hbc, fun k hk => h.left k (mem_keys_of_find? hs hk),
      fun k hk => h.right k (mem_keys_of_find? ht hk)⟩

theorem put (name : String) {b c : Binding} (hbc : b.Matches g c) :
    Session.Matches g (s.put name b) (t.put name c) where
  unhashed := by rw [unhashed_put, unhashed_put, h.unhashed, hbc.unhashed]
  left k hk := (mem_keys_put hk).elim (hbc.left k) (h.left k)
  right k hk := (mem_keys_put hk).elim (hbc.right k) (h.right k)

theorem erase (name : String) : Session.Matches g (s.erase name) (t.erase name) where
  unhashed := by rw [unhashed_erase, unhashed_erase, h.unhashed]
  left k hk := h.left k (mem_keys_erase hk)
  right k hk := h.right k (mem_keys_erase hk)

end Matches

end Session

end Script

namespace World.Matches

variable {w v : World} (h : w.Matches g v)

include h

theorem bind (name : String) {b c : Binding} (hbc : b.Matches g c) :
    (w.bind name b).Matches g (v.bind name c) := by
  have hput : World.Matches g { w with session := w.session.put name b }
      { v with session := v.session.put name c } :=
    { h with session := h.session.put name hbc }
  refine hput.withStore (h.store.release ?_)
  rcases h.session.find?_cases name with ⟨hw, hv⟩ | ⟨_, _, hw, hv, hold⟩
  · rw [hw, hv]
  · rw [hw, hv, Option.map_some, Option.map_some, Binding.Matches.owned hold]

theorem unbind (name : String) :
    (w.unbind name).1 = (v.unbind name).1 ∧ (w.unbind name).2.Matches g (v.unbind name).2 := by
  rw [World.unbind, World.unbind]
  rcases h.session.find?_cases name with ⟨hw, hv⟩ | ⟨_, _, hw, hv, hbc⟩
  · rw [hw, hv]
    exact ⟨rfl, h⟩
  · have herased : World.Matches g { w with session := w.session.erase name }
        { v with session := v.session.erase name } :=
      { h with session := h.session.erase name }
    have howned := congrArg (List.map Owned.unhashed) (Binding.Matches.owned hbc)
    rw [hw, hv]
    exact ⟨rfl, herased.withStore (h.store.release howned)⟩

end World.Matches

open MetaCache.Action (Accord)

theorem accord_keyIn (name : String) :
    Accord g Key.Matches (Action.keyIn name) (Action.keyIn name) := by
  have hbinding : Accord g Binding.Matches (Action.binding name) (Action.binding name) := by
    refine .get_bind fun w v h => ?_
    rcases h.session.find?_cases name with ⟨hw, hv⟩ | ⟨_, _, hw, hv, hbc⟩
    · rw [hw, hv]
      exact .halt _
    · rw [hw, hv]
      exact .pure hbc
  refine hbinding.bind fun g' _ b c hbc => ?_
  have hunhashed := hbc.unhashed
  cases b with
  | key k =>
    cases c with
    | key l => exact .pure ⟨Binding.key.inj hunhashed, hbc.left, hbc.right⟩
    | _ => cases hunhashed
  | _ => cases c <;> first | exact .halt _ | cases hunhashed

/-- A payload is there in both stores, or in none of them. -/
theorem Store.Matches.payload?_cases {a b : KeyTable} {s t : Store} (h : s.Matches g a b t)
    (p : PayloadId) : (s.payload? p = none ∧ t.payload? p = none) ∨
      ∃ x y, s.payload? p = some x ∧ t.payload? p = some y ∧ x.Matches g y := by
  have hpayload : (s.payload? p).map Payload.unhashed = (t.payload? p).map Payload.unhashed := by
    rw [← payload?_unhashed, h.unhashed, payload?_unhashed]
  rcases cases_of_map_eq hpayload with hno | ⟨x, y, hs, ht, hxy⟩
  · exact .inl hno
  · exact .inr ⟨x, y, hs, ht, hxy, fun k hk => h.left.keys k (.inr ⟨p, x, hs, hk⟩),
      fun k hk => h.right.keys k (.inr ⟨p, y, ht, hk⟩)⟩

theorem accord_payload (p : PayloadId) :
    Accord g Payload.Matches (Action.payload p) (Action.payload p) := by
  refine .read_bind fun h => ?_
  rcases h.payload?_cases p with ⟨hs, ht⟩ | ⟨_, _, hs, ht, hxy⟩
  · rw [hs, ht]
    exact .halt _
  · rw [hs, ht]
    exact .pure hxy

end MetaCache
