import MetaCache.Proofs.Ownership.Share
/-!
# One entry at a time

To take a share is to add one to one count, and to give one back is to take one from it, unless
nobody else holds the entry. All other counts and all contents stay as they are, and what an entry
holds that goes is in the hand of whoever gave the share back.

* `Store.has`, `Share.OldIn`: whether the entry of a share is there, and whether it ever was.
* `Store.adjust`, `Store.remove`: a count changed, and an entry gone.
* `Store.retainOne_eq`, `Store.releaseOne_cases`, `Store.releaseOne_eq`: what taking and giving back
  come to.
-/

namespace MetaCache

namespace Table

variable {α : Type}

theorem contains_modify (t : Table α) (i j : Nat) (f : α → α) :
    (t.modify i f).contains j = t.contains j := by
  rw [contains, contains, find?_modify]
  split
  · rw [Option.isSome_map]
  · rfl

theorem contains_erase_of_ne (t : Table α) {i j : Nat} (h : j ≠ i) :
    (t.erase i).contains j = t.contains j :=
  congrArg Option.isSome (t.find?_erase_of_ne h)

theorem contains_erase_self (t : Table α) (i : Nat) : (t.erase i).contains i = false :=
  congrArg Option.isSome (t.find?_erase_self i)

theorem modify_of_find?_eq_none {t : Table α} {i : Nat} (h : t.find? i = none) (f : α → α) :
    t.modify i f = t := by
  obtain ⟨next, entries, descending⟩ := t
  simp only [modify, modifyEntries_of_lookup_eq_none (f := f) h]

theorem modifyEntries_modifyEntries (f g : α → α) (i : Nat) (es : List (Nat × α)) :
    modifyEntries g i (modifyEntries f i es) = modifyEntries (fun a => g (f a)) i es := by
  induction es with
  | nil => rfl
  | cons e rest ih =>
    obtain ⟨j, a⟩ := e
    by_cases hj : j = i
    · simp only [modifyEntries, hj, if_true]
    · simp only [modifyEntries, hj, if_false, ih]

theorem modifyEntries_id (i : Nat) (es : List (Nat × α)) :
    modifyEntries (fun a => a) i es = es := by
  induction es with
  | nil => rfl
  | cons e rest ih =>
    obtain ⟨j, a⟩ := e
    by_cases hj : j = i
    · simp only [modifyEntries, hj, if_true]
    · simp only [modifyEntries, hj, if_false, ih]

/-- A change that another one undoes. -/
theorem modify_modify {f g : α → α} (h : ∀ a, g (f a) = a) (t : Table α) (i : Nat) :
    (t.modify i f).modify i g = t := by
  obtain ⟨next, entries, descending⟩ := t
  have hgf : (fun a => g (f a)) = fun a => a := funext h
  simp only [modify, modifyEntries_modifyEntries, hgf, modifyEntries_id]

end Table

/-- The strong share of the same entry. -/
def Share.entry : Share → Share
  | weakCell c => cell c
  | weakPayload p => payload p
  | x => x

theorem Share.entry_of_isStrong {x : Share} (h : x.isStrong) : x.entry = x := by
  cases x with
  | weakCell _ | weakPayload _ => cases h
  | _ => rfl

/-- The identity of the entry had been given when the store was `s`. -/
def Share.OldIn (s : Store) : Share → Prop
  | .cell c | .weakCell c => c < s.cells.next
  | .name n => n < s.names.next
  | .payload p | .weakPayload p => p < s.payloads.next

theorem Share.oldIn_entry (s : Store) (x : Share) : x.entry.OldIn s ↔ x.OldIn s := by
  cases x <;> rfl

/-- A structure held in place is no share. -/
theorem Owned.exists_of_plain?_eq_none {o : Owned} (h : o.plain? = none) : ∃ p, o = .held p := by
  cases o with
  | held p => exact ⟨p, rfl⟩
  | _ => cases h

namespace Store

variable {s s' : Store} {x y : Share}

/-! ## Tables -/

theorem map_content_modify {α : Type} (t : Table (Counted α)) (i j : Nat)
    (f : Counted α → Counted α) (hf : ∀ e, (f e).content = e.content) :
    ((t.modify i f).find? j).map Counted.content = (t.find? j).map Counted.content := by
  rw [Table.find?_modify]
  split
  · rw [Option.map_map]
    exact congrArg (Option.map · _) (funext hf)
  · rfl

theorem map_content_erase {α : Type} {t : Table (Counted α)} {i j : Nat} {x : α}
    (h : ((t.erase i).find? j).map Counted.content = some x) :
    (t.find? j).map Counted.content = some x := by
  rw [Table.find?_erase] at h
  split at h
  · cases h
  · exact h

theorem map_modify_getD {α : Type} (t : Table α) (i j : Nat) (h : α → α) (v : α → Nat) :
    (((t.modify i h).find? j).map v).getD 0 =
      if j = i then ((t.find? i).map fun a => v (h a)).getD 0
      else ((t.find? j).map v).getD 0 := by
  rw [Table.find?_modify]
  split
  · rename_i hj
    rw [hj, Option.map_map]
    rfl
  · rfl

theorem nameCount_modify (s : Store) (n m : NameId) (h : Nat → Nat) :
    ({ s with names := s.names.modify n h } : Store).nameCount m =
      if m = n then ((s.names.find? n).map h).getD 0 else s.nameCount m := by
  simp only [nameCount, Table.find?_modify]
  split
  · rename_i hm
    rw [hm]
  · rfl

/-! ## Entries and their counts -/

/-- Whether the entry of the share is there. -/
def has (s : Store) : Share → Bool
  | .cell c | .weakCell c => s.cells.contains c
  | .name n => s.names.contains n
  | .payload p | .weakPayload p => s.payloads.contains p

/-- The store with the count of a share changed, if its entry is there. -/
def adjust (s : Store) (k : Nat → Nat) : Share → Store
  | .cell c => { s with cells := s.cells.modify c fun e => { e with strong := k e.strong } }
  | .weakCell c => { s with cells := s.cells.modify c fun e => { e with weak := k e.weak } }
  | .name n => { s with names := s.names.modify n k }
  | .payload p =>
    { s with payloads := s.payloads.modify p fun e => { e with strong := k e.strong } }
  | .weakPayload p =>
    { s with payloads := s.payloads.modify p fun e => { e with weak := k e.weak } }

/-- The store without the entry of a strong share. -/
def remove (s : Store) : Share → Store
  | .cell c => { s with cells := s.cells.erase c }
  | .name n => { s with names := s.names.erase n }
  | .payload p => { s with payloads := s.payloads.erase p }
  | .weakCell _ | .weakPayload _ => s

/-- What the entry of a strong share holds, which has to be given back when it goes. -/
def inside (s : Store) : Share → List Owned
  | .cell c => ((s.cell? c).map Cell.owned).getD []
  | .payload p => ((s.payload? p).map fun x => [.held x]).getD []
  | .name _ | .weakCell _ | .weakPayload _ => []

theorem count_of_not_has (h : ¬ s.has x) : s.count x = 0 := by
  have hnone {α : Type} {t : Table α} {i : Nat} (ht : ¬ t.contains i = true) : t.find? i = none :=
    Option.not_isSome_iff_eq_none.1 ht
  cases x with
  | cell c => rw [count, strongCount, hnone h]; rfl
  | weakCell c => rw [count, weakCount, hnone h]; rfl
  | name n => rw [count, nameCount, hnone h]; rfl
  | payload p => rw [count, payloadCount, hnone h]; rfl
  | weakPayload p => rw [count, weakPayloadCount, hnone h]; rfl

theorem has_adjust (s : Store) (k : Nat → Nat) (x y : Share) : (s.adjust k x).has y = s.has y := by
  cases x <;> cases y <;> first | rfl | exact Table.contains_modify _ _ _ _

theorem cell?_adjust (s : Store) (k : Nat → Nat) (x : Share) (c : CellId) :
    (s.adjust k x).cell? c = s.cell? c := by
  cases x with
  | cell d | weakCell d => exact map_content_modify s.cells d c _ fun _ => rfl
  | _ => rfl

theorem payload?_adjust (s : Store) (k : Nat → Nat) (x : Share) (p : PayloadId) :
    (s.adjust k x).payload? p = s.payload? p := by
  cases x with
  | payload q | weakPayload q => exact map_content_modify s.payloads q p _ fun _ => rfl
  | _ => rfl

theorem count_adjust_of_ne (s : Store) (k : Nat → Nat) (h : y ≠ x) :
    (s.adjust k x).count y = s.count y := by
  have hmap {α : Type} (t : Table α) {i j : Nat} (g : α → α) (v : α → Nat)
      (hv : j = i → ∀ a, v (g a) = v a) :
      (((t.modify i g).find? j).map v).getD 0 = ((t.find? j).map v).getD 0 := by
    rw [map_modify_getD]
    split
    · rename_i hj
      rw [hj, funext (hv hj)]
    · rfl
  cases x with
  | cell c =>
    cases y with
    | cell d => exact hmap s.cells _ _ fun hd => absurd (congrArg Share.cell hd) h
    | weakCell d => exact hmap s.cells _ Counted.weak fun _ _ => rfl
    | _ => rfl
  | weakCell c =>
    cases y with
    | cell d => exact hmap s.cells _ Counted.strong fun _ _ => rfl
    | weakCell d => exact hmap s.cells _ _ fun hd => absurd (congrArg Share.weakCell hd) h
    | _ => rfl
  | name n =>
    cases y with
    | name m =>
      refine (nameCount_modify s n m k).trans (if_neg fun hm => h (congrArg Share.name hm))
    | _ => rfl
  | payload p =>
    cases y with
    | payload q => exact hmap s.payloads _ _ fun hq => absurd (congrArg Share.payload hq) h
    | weakPayload q => exact hmap s.payloads _ Counted.weak fun _ _ => rfl
    | _ => rfl
  | weakPayload p =>
    cases y with
    | payload q => exact hmap s.payloads _ Counted.strong fun _ _ => rfl
    | weakPayload q => exact hmap s.payloads _ _ fun hq => absurd (congrArg Share.weakPayload hq) h
    | _ => rfl

theorem count_adjust_self (k : Nat → Nat) (h : s.has x) :
    (s.adjust k x).count x = k (s.count x) := by
  have hmap {α : Type} {t : Table α} {i : Nat} (g : α → α) (v : α → Nat)
      (hg : ∀ a, v (g a) = k (v a)) (ht : t.contains i) :
      (((t.modify i g).find? i).map v).getD 0 = k (((t.find? i).map v).getD 0) := by
    obtain ⟨a, ha⟩ := Option.isSome_iff_exists.1 ht
    rw [map_modify_getD, if_pos rfl, ha]
    exact hg a
  cases x with
  | cell c => exact hmap _ Counted.strong (fun _ => rfl) h
  | weakCell c => exact hmap _ Counted.weak (fun _ => rfl) h
  | name n =>
    obtain ⟨a, ha⟩ := Option.isSome_iff_exists.1 h
    refine (nameCount_modify s n n k).trans ?_
    rw [if_pos rfl, ha, count, nameCount, ha]
    rfl
  | payload p => exact hmap _ Counted.strong (fun _ => rfl) h
  | weakPayload p => exact hmap _ Counted.weak (fun _ => rfl) h

theorem oldIn_of_has (h : s.has x) : x.OldIn s := by
  have hlt {α : Type} {t : Table α} {i : Nat} (ht : t.contains i) : i < t.next := by
    obtain ⟨a, ha⟩ := Option.isSome_iff_exists.1 ht
    exact Table.lt_next_of_find? ha
  cases x with
  | cell c | weakCell c => exact hlt (t := s.cells) h
  | name n => exact hlt (t := s.names) h
  | payload p | weakPayload p => exact hlt (t := s.payloads) h

theorem oldIn_adjust (s : Store) (m : Nat → Nat) (x y : Share) :
    y.OldIn (s.adjust m x) ↔ y.OldIn s := by
  cases x <;> rfl

theorem has_entry (s : Store) (x : Share) : s.has x.entry = s.has x := by
  cases x <;> rfl

/-- The other entries are counted as before. -/
theorem remove_of_ne (h : y.entry ≠ x) :
    (s.remove x).has y = s.has y ∧ (s.remove x).count y = s.count y := by
  have herase {α : Type} (t : Table α) {i j : Nat} (v : α → Nat) (hji : j ≠ i) :
      (t.erase i).contains j = t.contains j ∧
        (((t.erase i).find? j).map v).getD 0 = ((t.find? j).map v).getD 0 :=
    ⟨t.contains_erase_of_ne hji, by rw [t.find?_erase_of_ne hji]⟩
  cases x with
  | cell c =>
    cases y with
    | cell d => exact herase s.cells Counted.strong fun hd => h (congrArg Share.cell hd)
    | weakCell d => exact herase s.cells Counted.weak fun hd => h (congrArg Share.cell hd)
    | _ => exact ⟨rfl, rfl⟩
  | name n =>
    cases y with
    | name m =>
      obtain ⟨hm, hcount⟩ := herase s.names (i := n) (j := m) (fun a => a)
        fun hd => h (congrArg Share.name hd)
      rw [Option.map_id', Option.map_id'] at hcount
      exact ⟨hm, hcount⟩
    | _ => exact ⟨rfl, rfl⟩
  | payload p =>
    cases y with
    | payload q => exact herase s.payloads Counted.strong fun hd => h (congrArg Share.payload hd)
    | weakPayload q => exact herase s.payloads Counted.weak fun hd => h (congrArg Share.payload hd)
    | _ => exact ⟨rfl, rfl⟩
  | weakCell _ | weakPayload _ => exact ⟨rfl, rfl⟩

theorem not_has_remove_self (hx : x.isStrong) : ¬ (s.remove x).has x := by
  have herase {α : Type} (t : Table α) (i : Nat) : ¬ (t.erase i).contains i := by
    rw [Table.contains_erase_self]
    exact Bool.false_ne_true
  cases x with
  | cell c => exact herase s.cells c
  | name n => exact herase s.names n
  | payload p => exact herase s.payloads p
  | _ => cases hx

/-- What is still there after an entry went is counted as before. -/
theorem has_of_has_remove (hx : x.isStrong) (h : (s.remove x).has y) :
    s.has y ∧ (s.remove x).count y = s.count y := by
  have hne : y.entry ≠ x := by
    rintro rfl
    rw [← has_entry] at h
    exact not_has_remove_self hx h
  obtain ⟨hhas, hcount⟩ := remove_of_ne (s := s) hne
  exact ⟨hhas.symm.trans h, hcount⟩

theorem cell?_remove_of_ne {c : CellId} (h : Share.cell c ≠ x) :
    (s.remove x).cell? c = s.cell? c := by
  cases x with
  | cell d =>
    exact congrArg (Option.map Counted.content)
      (s.cells.find?_erase_of_ne fun hd => h (congrArg Share.cell hd))
  | _ => rfl

theorem payload?_remove_of_ne {p : PayloadId} (h : Share.payload p ≠ x) :
    (s.remove x).payload? p = s.payload? p := by
  cases x with
  | payload q =>
    exact congrArg (Option.map Counted.content)
      (s.payloads.find?_erase_of_ne fun hd => h (congrArg Share.payload hd))
  | _ => rfl

theorem inside_of_not_has (h : ¬ s.has x) : s.inside x = [] := by
  cases x with
  | cell c =>
    have hnone : s.cell? c = none := Option.map_eq_none_iff.2 (Option.not_isSome_iff_eq_none.1 h)
    rw [inside, hnone]
    rfl
  | payload p =>
    have hnone : s.payload? p = none :=
      Option.map_eq_none_iff.2 (Option.not_isSome_iff_eq_none.1 h)
    rw [inside, hnone]
    rfl
  | _ => rfl

/-- What is inside depends on contents alone. -/
theorem inside_congr (hc : ∀ c, x = .cell c → s'.cell? c = s.cell? c)
    (hp : ∀ p, x = .payload p → s'.payload? p = s.payload? p) : s'.inside x = s.inside x := by
  cases x with
  | cell c => rw [inside, inside, hc c rfl]
  | payload p => rw [inside, inside, hp p rfl]
  | _ => rfl

theorem inside_remove (hx : x.isStrong) (y : Share) :
    (s.remove x).inside y = if y = x then [] else s.inside y := by
  split
  · rename_i h
    rw [h]
    exact inside_of_not_has (not_has_remove_self hx)
  · rename_i h
    exact inside_congr (fun c hc => cell?_remove_of_ne (hc ▸ h))
      fun p hp => payload?_remove_of_ne (hp ▸ h)

/-! ## What the store holds -/

theorem held_adjust (s : Store) (k : Nat → Nat) (x : Share) : (s.adjust k x).held = s.held := by
  funext y
  rw [held, held]
  congr 1
  · cases x with
    | cell c | weakCell c => exact Table.total_modify _ _ _ _ fun _ => rfl
    | _ => rfl
  · cases x with
    | payload p | weakPayload p => exact Table.total_modify _ _ _ _ fun _ => rfl
    | _ => rfl

/-- What an entry holds that goes, the store holds no longer. -/
theorem held_remove (hx : x.isStrong) (h : s.has x) (y : Share) :
    (s.remove x).held y + holding (s.inside x) y = s.held y := by
  cases x with
  | cell c =>
    obtain ⟨e, he⟩ := Option.isSome_iff_exists.1 h
    have htotal := Table.total_erase_add (fun e => holding e.content.owned y) he
    simp only [held, remove, inside, cell?, he, Option.map_some, Option.getD_some]
    omega
  | payload p =>
    obtain ⟨e, he⟩ := Option.isSome_iff_exists.1 h
    have htotal := Table.total_erase_add (fun e => holding e.content.owned y) he
    simp only [held, remove, inside, payload?, he, Option.map_some, Option.getD_some, holding_held]
    omega
  | name n => rfl
  | _ => cases hx

/-! ## Shares taken and given back -/

theorem retainOne_eq {o : Owned} (h : o.plain? = some x) (s : Store) :
    s.retainOne o = s.adjust (· + 1) x := by
  cases o with
  | held p => cases h
  | _ => cases h; rfl

/-- What adding to a count leaves true is true after shares were taken. -/
theorem retain_induction {P : Store → Prop} (hP : ∀ s x, P s → P (s.adjust (· + 1) x))
    (h : P s) (os : List Owned) : P (s.retain os) := by
  induction os generalizing s with
  | nil => exact h
  | cons o rest ih =>
    cases hx : o.plain? with
    | none =>
      obtain ⟨p, rfl⟩ := Owned.exists_of_plain?_eq_none hx
      exact ih h
    | some x =>
      refine ih (s := s.retainOne o) ?_
      rw [retainOne_eq hx]
      exact hP s x h

theorem has_retain (s : Store) (os : List Owned) (x : Share) : (s.retain os).has x = s.has x :=
  retain_induction (P := fun t => t.has x = s.has x)
    (fun t y h => (t.has_adjust _ y x).trans h) rfl os

theorem cell?_retain (s : Store) (os : List Owned) (c : CellId) :
    (s.retain os).cell? c = s.cell? c :=
  retain_induction (P := fun t => t.cell? c = s.cell? c)
    (fun t y h => (t.cell?_adjust _ y c).trans h) rfl os

theorem payload?_retain (s : Store) (os : List Owned) (p : PayloadId) :
    (s.retain os).payload? p = s.payload? p :=
  retain_induction (P := fun t => t.payload? p = s.payload? p)
    (fun t y h => (t.payload?_adjust _ y p).trans h) rfl os

theorem names_next_adjust (s : Store) (k : Nat → Nat) (x : Share) :
    (s.adjust k x).names.next = s.names.next := by
  cases x <;> rfl

theorem names_next_retain (s : Store) (os : List Owned) :
    (s.retain os).names.next = s.names.next :=
  retain_induction (P := fun t => t.names.next = s.names.next)
    (fun t x h => (t.names_next_adjust _ x).trans h) rfl os

/-- A share taken of what is there is counted, and no other share is. -/
theorem count_retainOne {o : Owned} (ho : o.plain? = some y) (h : x = y → s.has x) :
    (s.retainOne o).count x = s.count x + holding [o] x := by
  rw [retainOne_eq ho, holding_plain ho]
  by_cases hxy : x = y
  · rw [if_pos hxy, ← hxy, count_adjust_self _ (h hxy)]
  · rw [if_neg hxy, count_adjust_of_ne _ _ hxy, Nat.add_zero]

/-- Shares taken of what is there are counted. -/
theorem count_retain {os : List Owned} (hos : ∀ o ∈ os, o.plain?.isSome) (h : s.has x) :
    (s.retain os).count x = s.count x + holding os x := by
  induction os generalizing s with
  | nil => rfl
  | cons o rest ih =>
    obtain ⟨y, hy⟩ := Option.isSome_iff_exists.1 (hos o List.mem_cons_self)
    have hhas : (s.retainOne o).has x := (s.has_retain [o] x).trans h
    rw [holding_cons, Pi.add_apply, ← Nat.add_assoc, ← count_retainOne hy fun _ => h]
    exact ih (fun p hp => hos p (List.mem_cons_of_mem _ hp)) hhas

/-- A share given back is taken from its count, unless there is nothing to take it from or nobody
else holds the entry. -/
theorem releaseOne_cases {o : Owned} (h : o.plain? = some x) (s : Store) :
    (s.releaseOne o = ([], s) ∧ ¬ s.has x) ∨
    (s.releaseOne o = ([], s.adjust (· - 1) x) ∧ (x.isStrong → 1 < s.count x)) ∨
    (s.releaseOne o = (s.inside x, s.remove x) ∧ x.isStrong ∧ s.has x ∧ s.count x ≤ 1) := by
  cases o with
  | held p => cases h
  | weakCell c | weakPayload p =>
    cases h
    exact .inr (.inl ⟨rfl, fun hx => by cases hx⟩)
  | cell c =>
    cases h
    cases hc : s.cells.find? c with
    | none =>
      refine .inl ⟨by simp only [releaseOne, hc], fun hh => ?_⟩
      rw [has, Table.contains, hc] at hh
      cases hh
    | some e =>
      have hcount : s.count (.cell c) = e.strong := by rw [count, strongCount, hc]; rfl
      by_cases hs : e.strong ≤ 1
      · refine .inr (.inr ⟨?_, rfl, ?_, hcount ▸ hs⟩)
        · simp only [releaseOne, hc, if_pos hs, inside, cell?, Option.map_some, Option.getD_some,
            remove]
        · rw [has, Table.contains, hc]; rfl
      · refine .inr (.inl ⟨?_, fun _ => hcount ▸ Nat.lt_of_not_le hs⟩)
        simp only [releaseOne, hc, if_neg hs]
        rfl
  | name n =>
    cases h
    cases hn : s.names.find? n with
    | none =>
      refine .inl ⟨by simp only [releaseOne, hn], fun hh => ?_⟩
      rw [has, Table.contains, hn] at hh
      cases hh
    | some k =>
      have hcount : s.count (.name n) = k := by rw [count, nameCount, hn]; rfl
      by_cases hs : k ≤ 1
      · refine .inr (.inr ⟨?_, rfl, ?_, hcount ▸ hs⟩)
        · simp only [releaseOne, hn, if_pos hs, inside, remove]
        · rw [has, Table.contains, hn]; rfl
      · refine .inr (.inl ⟨?_, fun _ => hcount ▸ Nat.lt_of_not_le hs⟩)
        simp only [releaseOne, hn, if_neg hs]
        rfl
  | payload p =>
    cases h
    cases hp : s.payloads.find? p with
    | none =>
      refine .inl ⟨by simp only [releaseOne, hp], fun hh => ?_⟩
      rw [has, Table.contains, hp] at hh
      cases hh
    | some e =>
      have hcount : s.count (.payload p) = e.strong := by rw [count, payloadCount, hp]; rfl
      by_cases hs : e.strong ≤ 1
      · refine .inr (.inr ⟨?_, rfl, ?_, hcount ▸ hs⟩)
        · simp only [releaseOne, hp, if_pos hs, inside, payload?, Option.map_some,
            Option.getD_some, remove]
        · rw [has, Table.contains, hp]; rfl
      · refine .inr (.inl ⟨?_, fun _ => hcount ▸ Nat.lt_of_not_le hs⟩)
        simp only [releaseOne, hp, if_neg hs]
        rfl

theorem adjust_of_not_has (s : Store) (h : ¬ s.has x) (k : Nat → Nat) : s.adjust k x = s := by
  have hnone {α : Type} {t : Table α} {i : Nat} (ht : ¬ t.contains i = true) (f : α → α) :
      t.modify i f = t := Table.modify_of_find?_eq_none (Option.not_isSome_iff_eq_none.1 ht) f
  cases x with
  | cell c | weakCell c => exact congrArg (fun t => { s with cells := t }) (hnone h _)
  | name n => exact congrArg (fun t => { s with names := t }) (hnone h _)
  | payload p | weakPayload p => exact congrArg (fun t => { s with payloads := t }) (hnone h _)

/-- What becomes of a share depends on whether it is the last one. -/
theorem releaseOne_eq (s : Store) {o : Owned} (h : o.plain? = some x) :
    s.releaseOne o = if x.isStrong ∧ s.has x ∧ s.count x ≤ 1 then (s.inside x, s.remove x)
      else ([], s.adjust (· - 1) x) := by
  rcases releaseOne_cases h s with ⟨hr, hno⟩ | ⟨hr, hmore⟩ | ⟨hr, hlast⟩
  · rw [if_neg fun hx => hno hx.2.1, s.adjust_of_not_has hno, hr]
  · rw [if_neg fun hx => Nat.not_le_of_lt (hmore hx.1) hx.2.2, hr]
  · rw [if_pos hlast, hr]

end Store

end MetaCache
