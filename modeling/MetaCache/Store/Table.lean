/-!
# Tables of counted entries

A table hands out identities in ascending order and never twice. An entry is found by its identity
until it is erased.

* `sumOf`: the sum of a weight over a list.
* `mem_of_lookup`, `lookup_of_mem`: what is found in a list of entries by key.
* `Table`: the entries, newest first, with the invariant that identities descend.
* `Table.insert`, `Table.modify`, `Table.erase`, `Table.find?`: the operations.
* `Table.total`: the sum of a weight over all entries, by which the release of an entry is seen to
  come to an end.
-/

namespace MetaCache

/-- The sum of the weights of the elements of a list. -/
def sumOf {α : Type} (weight : α → Nat) : List α → Nat
  | [] => 0
  | a :: rest => weight a + sumOf weight rest

@[simp] theorem sumOf_nil {α : Type} (weight : α → Nat) : sumOf weight [] = 0 := rfl

@[simp] theorem sumOf_cons {α : Type} (weight : α → Nat) (a : α) (rest : List α) :
    sumOf weight (a :: rest) = weight a + sumOf weight rest := rfl

@[simp] theorem sumOf_append {α : Type} (weight : α → Nat) (xs ys : List α) :
    sumOf weight (xs ++ ys) = sumOf weight xs + sumOf weight ys := by
  induction xs with
  | nil => simp
  | cons x xs ih => simp [ih, Nat.add_assoc]

/-! ## Lists of entries -/

section

variable {κ α : Type} [BEq κ] [LawfulBEq κ] {k : κ} {a : α} {es : List (κ × α)}

/-- What is found under a key is an entry. -/
theorem mem_of_lookup (h : es.lookup k = some a) : (k, a) ∈ es := by
  induction es with
  | nil => cases h
  | cons e rest ih =>
    obtain ⟨j, b⟩ := e
    rw [List.lookup_cons] at h
    split at h
    · rename_i hj
      have hkj : k = j := by simpa using hj
      cases h
      exact hkj ▸ List.mem_cons_self
    · exact List.mem_cons_of_mem _ (ih h)

/-- Where no key comes twice, an entry is what is found under its key. -/
theorem lookup_of_mem (hd : (es.map Prod.fst).Nodup) (h : (k, a) ∈ es) : es.lookup k = some a := by
  induction es with
  | nil => cases h
  | cons e rest ih =>
    obtain ⟨j, b⟩ := e
    rw [List.map_cons, List.nodup_cons] at hd
    rw [List.lookup_cons]
    rcases List.mem_cons.1 h with heq | hmem
    · cases heq
      rw [BEq.rfl]
    · have hne : (k == j) = false := beq_false_of_ne fun hkj =>
        hd.1 (List.mem_map.2 ⟨(k, a), hmem, hkj⟩)
      rw [hne]
      exact ih hd.2 hmem

end

/-- A table of entries by identity. -/
structure Table (α : Type) where
  /-- The identity of the next entry. -/
  next : Nat
  entries : List (Nat × α)
  descending : (next :: entries.map Prod.fst).Pairwise (· > ·)

namespace Table

variable {α : Type}

/-- The table without entries. -/
def empty : Table α where
  next := 0
  entries := []
  descending := by simp

instance : Inhabited (Table α) := ⟨empty⟩

/-- The entry with identity `i`. -/
def find? (t : Table α) (i : Nat) : Option α :=
  t.entries.lookup i

/-- Whether there is an entry with identity `i`. -/
def contains (t : Table α) (i : Nat) : Bool :=
  (t.find? i).isSome

/-- The table with one more entry, whose identity is `t.next`. -/
def insert (t : Table α) (a : α) : Table α where
  next := t.next + 1
  entries := (t.next, a) :: t.entries
  descending := by
    have h := t.descending
    rw [List.map_cons, List.pairwise_cons]
    refine ⟨?_, h⟩
    intro i hi
    rcases List.mem_cons.1 hi with rfl | hi
    · exact Nat.lt_succ_self _
    · exact Nat.lt_succ_of_lt ((List.pairwise_cons.1 h).1 i hi)

/-- The entries with `f` applied to the one with identity `i`. -/
def modifyEntries (f : α → α) (i : Nat) : List (Nat × α) → List (Nat × α)
  | [] => []
  | (j, a) :: rest => if j = i then (j, f a) :: rest else (j, a) :: modifyEntries f i rest

@[simp] theorem map_fst_modifyEntries (f : α → α) (i : Nat) (es : List (Nat × α)) :
    (modifyEntries f i es).map Prod.fst = es.map Prod.fst := by
  induction es with
  | nil => rfl
  | cons e rest ih =>
    unfold modifyEntries
    split
    · rfl
    · rw [List.map_cons, ih, List.map_cons]

/-- The table with `f` applied to the entry with identity `i`. -/
def modify (t : Table α) (i : Nat) (f : α → α) : Table α where
  next := t.next
  entries := modifyEntries f i t.entries
  descending := by rw [map_fst_modifyEntries]; exact t.descending

/-- The table without the entry with identity `i`. -/
def erase (t : Table α) (i : Nat) : Table α where
  next := t.next
  entries := t.entries.filter fun e => e.1 != i
  descending :=
    t.descending.sublist ((List.filter_sublist.map Prod.fst).cons_cons t.next)

/-- The sum of the weights of all entries. -/
def total (weight : α → Nat) (t : Table α) : Nat :=
  sumOf (fun e => weight e.2) t.entries

theorem lookup_modifyEntries (f : α → α) (i j : Nat) (es : List (Nat × α)) :
    (modifyEntries f i es).lookup j =
      if j = i then (es.lookup j).map f else es.lookup j := by
  induction es with
  | nil => simp [modifyEntries]
  | cons e rest ih =>
    obtain ⟨k, a⟩ := e
    unfold modifyEntries
    by_cases hk : k = i
    · by_cases hj : j = i
      · simp [hk, hj]
      · have : (j == i) = false := by simpa using hj
        simp [hk, hj, List.lookup_cons, this]
    · rw [if_neg hk]
      by_cases hj : j = k
      · subst hj
        simp [hk]
      · have : (j == k) = false := by simpa using hj
        simp [List.lookup_cons, this, ih]

theorem modifyEntries_of_lookup_eq_none {f : α → α} {i : Nat} {es : List (Nat × α)}
    (h : es.lookup i = none) : modifyEntries f i es = es := by
  induction es with
  | nil => rfl
  | cons e rest ih =>
    obtain ⟨k, a⟩ := e
    rw [List.lookup_cons] at h
    split at h
    · cases h
    · rename_i hk
      have hki : k ≠ i := fun hc => by simp [hc] at hk
      rw [modifyEntries, if_neg hki, ih h]

theorem find?_modify (t : Table α) (i j : Nat) (f : α → α) :
    (t.modify i f).find? j = if j = i then (t.find? j).map f else t.find? j :=
  lookup_modifyEntries f i j t.entries

@[simp] theorem find?_modify_self (t : Table α) (i : Nat) (f : α → α) :
    (t.modify i f).find? i = (t.find? i).map f := by
  rw [find?_modify, if_pos rfl]

theorem find?_modify_of_ne (t : Table α) {i j : Nat} (f : α → α) (h : j ≠ i) :
    (t.modify i f).find? j = t.find? j := by
  rw [find?_modify, if_neg h]

theorem lookup_filter_ne (i j : Nat) (es : List (Nat × α)) :
    (es.filter fun e => e.1 != i).lookup j = if j = i then none else es.lookup j := by
  induction es with
  | nil => simp
  | cons e rest ih =>
    obtain ⟨k, a⟩ := e
    by_cases hk : k = i
    · subst hk
      rw [List.filter_cons_of_neg (by simp), ih]
      by_cases hj : j = k
      · simp [hj]
      · have : (j == k) = false := by simpa using hj
        simp [hj, List.lookup_cons, this]
    · rw [List.filter_cons_of_pos (by simpa using hk)]
      by_cases hj : j = k
      · subst hj
        simp [hk]
      · have : (j == k) = false := by simpa using hj
        simp [List.lookup_cons, this, ih]

theorem find?_erase (t : Table α) (i j : Nat) :
    (t.erase i).find? j = if j = i then none else t.find? j :=
  lookup_filter_ne i j t.entries

@[simp] theorem find?_erase_self (t : Table α) (i : Nat) : (t.erase i).find? i = none := by
  rw [find?_erase, if_pos rfl]

theorem find?_erase_of_ne (t : Table α) {i j : Nat} (h : j ≠ i) :
    (t.erase i).find? j = t.find? j := by
  rw [find?_erase, if_neg h]

@[simp] theorem find?_insert_self (t : Table α) (a : α) : (t.insert a).find? t.next = some a := by
  simp [find?, insert]

theorem find?_insert_of_ne (t : Table α) (a : α) {i : Nat} (h : i ≠ t.next) :
    (t.insert a).find? i = t.find? i := by
  have : (i == t.next) = false := by simpa using h
  simp [find?, insert, List.lookup_cons, this]

/-- No identity comes twice. -/
theorem nodup_keys (t : Table α) : (t.entries.map Prod.fst).Nodup :=
  (List.pairwise_cons.1 t.descending).2.imp Nat.ne_of_gt

/-- An entry is found exactly if it is in the table. -/
theorem find?_eq_some_iff {t : Table α} {i : Nat} {a : α} :
    t.find? i = some a ↔ (i, a) ∈ t.entries :=
  ⟨mem_of_lookup, lookup_of_mem t.nodup_keys⟩

/-- Every entry is older than the next identity. -/
theorem lt_next_of_find? {t : Table α} {i : Nat} {a : α} (h : t.find? i = some a) :
    i < t.next :=
  (List.pairwise_cons.1 t.descending).1 i (List.mem_map.2 ⟨(i, a), mem_of_lookup h, rfl⟩)

/-- No entry has the identity that comes next. -/
theorem find?_next (t : Table α) : t.find? t.next = none := by
  cases h : t.find? t.next with
  | none => rfl
  | some a => exact absurd (lt_next_of_find? h) (Nat.lt_irrefl _)

theorem filter_ne_eq_self {i : Nat} {es : List (Nat × α)} (h : ∀ e ∈ es, e.1 ≠ i) :
    es.filter (fun e => e.1 != i) = es :=
  List.filter_eq_self.2 fun e he => by simpa using h e he

theorem sum_filter_add (weight : α → Nat) {i : Nat} {a : α} {es : List (Nat × α)}
    (hp : (es.map Prod.fst).Pairwise (· > ·)) (h : es.lookup i = some a) :
    sumOf (fun e => weight e.2) (es.filter fun e => e.1 != i) + weight a =
      sumOf (fun e => weight e.2) es := by
  induction es with
  | nil => cases h
  | cons e rest ih =>
    obtain ⟨k, b⟩ := e
    rw [List.map_cons, List.pairwise_cons] at hp
    rw [List.lookup_cons] at h
    by_cases hk : i = k
    · subst hk
      simp only [BEq.rfl, Option.some.injEq] at h
      subst h
      have hrest : rest.filter (fun e => e.1 != i) = rest := filter_ne_eq_self fun e he =>
        Nat.ne_of_lt (hp.1 e.1 (List.mem_map.2 ⟨e, he, rfl⟩))
      rw [List.filter_cons_of_neg (by simp), hrest, sumOf_cons, Nat.add_comm]
    · have hne : (i == k) = false := by simpa using hk
      rw [hne] at h
      rw [List.filter_cons_of_pos (by simpa using fun h => hk h.symm), sumOf_cons, sumOf_cons,
        Nat.add_assoc, ih hp.2 h]

/-- Erasing an entry takes its weight from the total. -/
theorem total_erase_add (weight : α → Nat) {t : Table α} {i : Nat} {a : α}
    (h : t.find? i = some a) : (t.erase i).total weight + weight a = t.total weight :=
  sum_filter_add weight (List.pairwise_cons.1 t.descending).2 h

/-- A new entry adds its weight to the total. -/
@[simp] theorem total_insert (weight : α → Nat) (t : Table α) (a : α) :
    (t.insert a).total weight = weight a + t.total weight := rfl

theorem sum_modifyEntries (weight : α → Nat) (f : α → α) {i : Nat} {a : α} {es : List (Nat × α)}
    (h : es.lookup i = some a) :
    sumOf (fun e => weight e.2) (modifyEntries f i es) + weight a =
      sumOf (fun e => weight e.2) es + weight (f a) := by
  induction es with
  | nil => cases h
  | cons e rest ih =>
    obtain ⟨k, b⟩ := e
    rw [List.lookup_cons] at h
    unfold modifyEntries
    by_cases hk : i = k
    · subst hk
      simp only [BEq.rfl, Option.some.injEq] at h
      subst h
      simp only [↓reduceIte, sumOf_cons]
      omega
    · have hne : (i == k) = false := by simpa using hk
      rw [hne] at h
      have := ih h
      simp only [if_neg (Ne.symm hk), sumOf_cons]
      omega

/-- Changing an entry replaces its weight in the total. -/
theorem total_modify_add (weight : α → Nat) {t : Table α} {i : Nat} {a : α} (f : α → α)
    (h : t.find? i = some a) :
    (t.modify i f).total weight + weight a = t.total weight + weight (f a) :=
  sum_modifyEntries weight f h

/-- A change that keeps the weight of an entry keeps the total. -/
theorem total_modify (weight : α → Nat) (t : Table α) (i : Nat) (f : α → α)
    (h : ∀ a, weight (f a) = weight a) : (t.modify i f).total weight = t.total weight := by
  unfold total modify
  simp only
  induction t.entries with
  | nil => rfl
  | cons e rest ih =>
    unfold modifyEntries
    split
    · simp [h]
    · simp [ih]

end Table

end MetaCache
