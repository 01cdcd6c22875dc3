import MetaCache.Config.Toml
import MetaCache.Proofs.Settings.Strings
/-!
# Lines are read back

A line that assigns a value to a bare key leaves the value in the top table, and the next line comes
after it. So a text made of such lines, with no key twice, gives the entries that were assigned, in
whatever order the lines stand.

* `Toml.Spells`: a text that stands for a value at the end of a line; `Toml.spells_writeString`,
  `Toml.spells_flag`.
* `Toml.Bare`: keys that need no quotes; `Toml.key?_bare`.
* `Toml.line_writeLine`: one line.
* `Toml.lines_assignments`, `Toml.document?_assignments`: lines, one after another.
-/

namespace MetaCache.Toml

open Config (writeLine)

variable {rest : List Char}

/-! ## Values -/

/-- At the end of a line, `text` stands for the value, and it does not begin with a blank. -/
structure Spells (text : List Char) (v : Node) : Prop where
  head : ∀ rest, skipBlanks (text ++ rest) = text ++ rest
  value : ∀ n depth rest, value? (n + 1) depth (text ++ '\n' :: rest) = some (v, '\n' :: rest)

theorem spells_writeString (s : String) : Spells (writeString s) (.str s) where
  head rest := rfl
  value n depth rest := by
    have hread := string?_writeString s.toList (c := '\n') (by decide) rest
    rw [writeString, List.cons_append, List.append_assoc, List.singleton_append]
    cases depth <;> rw [value?, if_pos (.inl rfl), hread, Option.map_some, String.ofList_toList]

theorem spells_flag (b : Bool) : Spells (toString b).toList (.bool b) where
  head rest := by cases b <;> rfl
  value n depth rest := by cases b <;> cases depth <;> rfl

/-! ## Keys -/

/-- A key that needs no quotes. -/
structure Bare (key : String) : Prop where
  ne_nil : key.toList ≠ []
  chars : key.toList.all isBareKeyChar

theorem Bare.of_mem {key : String} (hk : Bare key) {c : Char} (hc : c ∈ key.toList) :
    isBareKeyChar c :=
  List.all_eq_true.1 hk.chars c hc

/-- The head of a bare key is nothing that would begin anything else. -/
theorem Bare.head {key : String} (hk : Bare key) : ∃ c cs, key.toList = c :: cs ∧
    isBlank c = false ∧ c ≠ '[' ∧ c ≠ '"' ∧ c ≠ '\'' ∧ ¬ (c = '\n' ∨ c = '\r' ∨ c = '#') := by
  obtain ⟨c, cs, hkey⟩ := List.exists_cons_of_ne_nil hk.ne_nil
  have hc : isBareKeyChar c := hk.of_mem (hkey ▸ List.mem_cons_self)
  -- a character that a bare key has none of
  have hne {d : Char} (hd : isBareKeyChar d = false) : c ≠ d := by
    rintro rfl
    rw [hd] at hc
    cases hc
  refine ⟨c, cs, hkey, ?_, hne (by decide), hne (by decide), hne (by decide), ?_⟩
  · rw [isBlank, beq_false_of_ne (hne (by decide)), beq_false_of_ne (hne (by decide))]
    rfl
  · rintro (h | h | h)
    · exact hne (by decide) h
    · exact hne (by decide) h
    · exact hne (by decide) h

theorem keyPart?_bare {key : String} (hk : Bare key) (rest : List Char) :
    keyPart? (key.toList ++ ' ' :: rest) = some (key, ' ' :: rest) := by
  have htake : (key.toList ++ ' ' :: rest).takeWhile isBareKeyChar = key.toList := by
    rw [List.takeWhile_append_of_pos fun _ => hk.of_mem]
    show key.toList ++ [] = key.toList
    exact List.append_nil _
  obtain ⟨c, cs, hkey, -, -, hquote, hsingle, -⟩ := hk.head
  rw [keyPart?.eq_3, htake]
  · simp only [List.isEmpty_iff, hk.ne_nil, if_false, String.ofList_toList, List.drop_left]
  · intro rest' h
    rw [hkey, List.cons_append] at h
    exact hquote (List.cons.inj h).1
  · intro rest' h
    rw [hkey, List.cons_append] at h
    exact hsingle (List.cons.inj h).1

/-- A bare key, up to the sign after it. -/
theorem key?_bare {key : String} (hk : Bare key) (n : Nat) (rest : List Char) :
    key? (n + 1) (key.toList ++ ' ' :: '=' :: rest) = some ([key], '=' :: rest) := by
  rw [key?, keyPart?_bare hk]
  rfl

/-! ## Lines -/

theorem afterLine?_break (rest : List Char) : afterLine? ('\n' :: rest) = some rest := rfl

theorem assign_top {top : Entries} {key : String} (hkey : Entries.find? top key = none) (v : Node) :
    Draft.assign { top } [key] v = some { top := Entries.put key v top } := by
  show (Entries.assign v true [key] top).map _ = _
  rw [Entries.assign, hkey]
  rfl

/-- A line that assigns to a new key of the top table. -/
theorem line_writeLine {top : Entries} {key : String} {text : List Char} {v : Node}
    (hk : Bare key) (hv : Spells text v) (hkey : Entries.find? top key = none)
    (rest : List Char) :
    Draft.line { top } (writeLine key text ++ rest) =
      some ({ top := Entries.put key v top }, rest) := by
  obtain ⟨c, cs, hcs, hblank, hbracket, -, -, hplain⟩ := hk.head
  have hline : writeLine key text ++ rest =
      key.toList ++ ' ' :: '=' :: (' ' :: (text ++ '\n' :: rest)) := by
    simp [writeLine]
  have hskip : skipBlanks (' ' :: (text ++ '\n' :: rest)) = text ++ '\n' :: rest := hv.head _
  have hread := key?_bare hk 79 (' ' :: (text ++ '\n' :: rest))
  have hhead : skipBlanks (key.toList ++ ' ' :: '=' :: (' ' :: (text ++ '\n' :: rest))) =
      key.toList ++ ' ' :: '=' :: (' ' :: (text ++ '\n' :: rest)) := by
    rw [hcs, List.cons_append, skipBlanks, List.dropWhile_cons, hblank]
    rfl
  rw [hline, Draft.line, hhead]
  rw [hcs, List.cons_append] at hread ⊢
  split
  · rename_i h
    exact absurd (List.cons.inj h).1 hbracket
  · rename_i h
    exact absurd (List.cons.inj h).1 hbracket
  · rename_i h
    cases h
  · rename_i h
    obtain ⟨rfl, rfl⟩ := List.cons.inj h
    have hread' : key? depthLimit _ = _ := hread
    have hafter : after? '=' ('=' :: ' ' :: (text ++ '\n' :: rest)) =
        some (' ' :: (text ++ '\n' :: rest)) := rfl
    rw [if_neg hplain, hread']
    simp only [Option.bind_eq_bind, Option.bind_some, hafter, hskip, hv.value, assign_top hkey,
      afterLine?_break]
    rfl

/-- A new entry comes to the others, at some place among them. -/
theorem Entries.perm_put {k : String} {es : Entries} (h : k ∉ es.map Prod.fst) (v : Node) :
    (Entries.put k v es).Perm ((k, v) :: es) := by
  induction es with
  | nil => exact .refl _
  | cons e rest ih =>
    obtain ⟨j, w⟩ := e
    rw [List.map_cons, List.mem_cons, not_or] at h
    rw [Entries.put, if_neg h.1]
    split
    · exact .refl _
    · exact ((ih h.2).cons _).trans (.swap ..)

theorem Entries.find?_eq_none {k : String} {es : Entries} (h : k ∉ es.map Prod.fst) :
    Entries.find? es k = none := by
  refine List.lookup_eq_none_iff.2 fun e he => ?_
  rw [bne_iff_ne]
  rintro rfl
  exact h (List.mem_map_of_mem he)

/-! ## Texts -/

/-- A line that assigns a value to a bare key. -/
structure Assignment where
  key : String
  text : List Char
  value : Node
  bare : Bare key
  spells : Spells text value

namespace Assignment

/-- The line as it is written. -/
def line (a : Assignment) : List Char := writeLine a.key a.text

/-- The entry that it makes. -/
def entry (a : Assignment) : String × Node := (a.key, a.value)

/-- A line begins with a character of its key. -/
theorem exists_line (a : Assignment) : ∃ c cs, a.line = c :: cs ∧ isBareKeyChar c := by
  obtain ⟨c, cs, hcs, -⟩ := a.bare.head
  refine ⟨c, cs ++ " = ".toList ++ a.text ++ ['\n'], ?_,
    a.bare.of_mem (hcs ▸ List.mem_cons_self)⟩
  simp [line, writeLine, hcs]

theorem length_le_flatMap (as : List Assignment) : as.length ≤ (as.flatMap line).length := by
  induction as with
  | nil => exact Nat.le_refl _
  | cons a rest ih =>
    obtain ⟨c, cs, ha, -⟩ := a.exists_line
    rw [List.flatMap_cons, ha, List.length_append, List.length_cons, List.length_cons]
    omega

end Assignment

open Assignment

theorem lines_succ_of_line {d d' : Draft} {n : Nat} {c : Char} {cs : List Char}
    (h : d.line (c :: cs) = some (d', rest)) : d.lines (n + 1) (c :: cs) = d'.lines n rest := by
  rw [Draft.lines.eq_def]
  simp only [h]
  rfl

/-- Lines that assign to different keys, in any order. -/
theorem lines_assignments (as : List Assignment) {top : Entries} {n : Nat} (hn : as.length ≤ n)
    (hkeys : (as.map key ++ top.map Prod.fst).Nodup) :
    ∃ es, Draft.lines { top } n (as.flatMap line) = some { top := es } ∧
      es.Perm (as.map entry ++ top) := by
  induction as generalizing top n with
  | nil => exact ⟨top, by cases n <;> rfl, .refl _⟩
  | cons a rest ih =>
    cases n with
    | zero => exact absurd hn (Nat.not_succ_le_zero _)
    | succ n =>
      rw [List.map_cons, List.cons_append, List.nodup_cons, List.mem_append, not_or] at hkeys
      obtain ⟨⟨hlater, hnew⟩, hrest⟩ := hkeys
      have hput := Entries.perm_put hnew a.value
      have hnodup : (rest.map key ++ (Entries.put a.key a.value top).map Prod.fst).Nodup := by
        refine (((hput.map Prod.fst).append_left _).trans List.perm_middle).nodup_iff.2 ?_
        exact List.nodup_cons.2 ⟨fun h => (List.mem_append.1 h).elim hlater hnew, hrest⟩
      obtain ⟨es, hes, hperm⟩ := ih (Nat.le_of_succ_le_succ hn) hnodup
      refine ⟨es, ?_, ?_⟩
      · obtain ⟨c, cs, hline, -⟩ := a.exists_line
        have hread := line_writeLine a.bare a.spells (Entries.find?_eq_none hnew)
          (rest.flatMap line)
        rw [← line, hline, List.cons_append] at hread
        rw [List.flatMap_cons, hline, List.cons_append, lines_succ_of_line hread, hes]
      · refine hperm.trans ((hput.append_left _).trans ?_)
        exact List.perm_middle

/-- A text of lines that assign to different keys is a document with these entries. -/
theorem document?_assignments (as : List Assignment) (hkeys : (as.map key).Nodup) :
    ∃ es, document? (String.ofList (as.flatMap line)) = some es ∧ es.Perm (as.map entry) := by
  have hplain : ∀ cs, as.flatMap line ≠ '\ufeff' :: cs := by
    intro cs h
    cases as with
    | nil => cases h
    | cons a rest =>
      obtain ⟨c, ds, hline, hc⟩ := a.exists_line
      rw [List.flatMap_cons, hline, List.cons_append] at h
      rw [(List.cons.inj h).1] at hc
      exact absurd hc (by decide)
  have hnodup : (as.map key ++ ([] : Entries).map Prod.fst).Nodup := by
    rwa [List.map_nil, List.append_nil]
  obtain ⟨es, hes, hperm⟩ := lines_assignments as (length_le_flatMap as) hnodup
  refine ⟨es, ?_, by rwa [List.append_nil] at hperm⟩
  rw [document?, String.toList_ofList]
  split
  · rename_i cs h
    exact absurd h (hplain cs)
  · rw [hes]
    rfl

end MetaCache.Toml
