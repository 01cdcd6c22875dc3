import MetaCache.Toml.Document
/-!
# Strings are read back

A string on one line is written with an escape for each character that could not stand there as it
is. The reader undoes this character by character, so it answers the string that was written,
whatever is in it, and stops at the quote that was put after it.

* `Toml.writeChar_cases`, `Toml.basic_writeChar`: one character.
* `Toml.basic_writeString`: a string, from its opening quote on.
* `Toml.string?_writeString`: the same where the string might have several lines.
-/

namespace MetaCache.Toml

variable {rest : List Char}

/-! ## Escapes by number -/

theorem hexValue?_digitChar : ∀ d < 16, hexValue? (Nat.digitChar d) = some d := by
  decide

theorem basic_digits (left value : Nat) {d : Nat} (hd : d < 16) :
    basic (.digits (left + 1) value) (Nat.digitChar d :: rest) =
      basic (.digits left (16 * value + d)) rest := by
  rw [basic, hexValue?_digitChar d hd]

theorem scalar?_toNat (c : Char) : scalar? c.toNat = some c := by
  rw [scalar?, if_pos (show c.toNat.isValidChar from c.valid), Char.ofNat_toNat]

/-- The last digit completes the number of the character. -/
theorem basic_lastDigit (value : Nat) {c : Char} {d : Nat} (hd : d < 16)
    (hc : 16 * value + d = c.toNat) :
    basic (.digits 0 value) (Nat.digitChar d :: rest) = consText c (basic .text rest) := by
  rw [basic, hexValue?_digitChar d hd]
  simp only [hc, scalar?_toNat]

theorem basic_hex4 {c : Char} (hc : c.toNat < 65536) :
    basic (.digits 3 0) (hex4 c.toNat ++ rest) = consText c (basic .text rest) := by
  have hlast : 16 * (16 * (16 * (16 * 0 + c.toNat / 4096 % 16) + c.toNat / 256 % 16) +
      c.toNat / 16 % 16) + c.toNat % 16 = c.toNat := by omega
  simp only [hex4, List.map_cons, List.map_nil, List.cons_append, List.nil_append]
  rw [basic_digits 2 _ (Nat.mod_lt _ (by decide)), basic_digits 1 _ (Nat.mod_lt _ (by decide)),
    basic_digits 0 _ (Nat.mod_lt _ (by decide)),
    basic_lastDigit _ (Nat.mod_lt _ (by decide)) hlast]

/-! ## Strings -/

theorem toNat_lt_of_isControl {c : Char} (hc : isControl c) : c.toNat < 65536 := by
  simp only [isControl, Bool.or_eq_true, Bool.and_eq_true, decide_eq_true_eq, beq_iff_eq] at hc
  omega

/-- The ways to write a character: by a letter that stands for it, by its number, or as it is. -/
theorem writeChar_cases (c : Char) :
    (∃ d, writeChar c = ['\\', d] ∧ escaped? d = some c) ∨
      (writeChar c = '\\' :: 'u' :: hex4 c.toNat ∧ c.toNat < 65536) ∨
      (writeChar c = [c] ∧ c ≠ '"' ∧ c ≠ '\\' ∧ ¬ isControl c) := by
  -- the five letters, then the numbers
  rw [writeChar]
  iterate 5
    split
    · rename_i hc
      exact .inl ⟨_, rfl, by rw [hc]; rfl⟩
  split
  · rename_i hc
    exact .inr (.inl ⟨rfl, toNat_lt_of_isControl hc⟩)
  · rename_i hquote hbackslash _ _ _ hc
    exact .inr (.inr ⟨rfl, hquote, hbackslash, hc⟩)

/-- A character that was written is read, escaped or not. -/
theorem basic_writeChar (c : Char) (rest : List Char) :
    basic .text (writeChar c ++ rest) = consText c (basic .text rest) := by
  rcases writeChar_cases c with ⟨d, hw, hd⟩ | ⟨hw, hc⟩ | ⟨hw, hquote, hbackslash, hcontrol⟩
  · rw [hw, List.cons_append, List.singleton_append, basic, if_neg (by decide), if_pos rfl, basic,
      hd]
  · rw [hw, List.cons_append, List.cons_append, basic, if_neg (by decide), if_pos rfl, basic]
    exact basic_hex4 hc
  · rw [hw, List.singleton_append, basic, if_neg hquote, if_neg hbackslash, if_neg hcontrol]

/-- A string that was written is read up to the quote after it. -/
theorem basic_writeString (cs rest : List Char) :
    basic .text (cs.flatMap writeChar ++ '"' :: rest) = some (cs, rest) := by
  induction cs with
  | nil =>
    rw [List.flatMap_nil, List.nil_append, basic, if_pos rfl]
  | cons c cs ih =>
    rw [List.flatMap_cons, List.append_assoc, basic_writeChar, ih]
    rfl

/-- No character is written so that it begins with a quote. -/
theorem head?_writeChar (c : Char) : ∃ d ds, writeChar c = d :: ds ∧ d ≠ '"' := by
  rcases writeChar_cases c with ⟨d, hw, -⟩ | ⟨hw, -⟩ | ⟨hw, hquote, -⟩
  · exact ⟨_, _, hw, by decide⟩
  · exact ⟨_, _, hw, by decide⟩
  · exact ⟨c, [], hw, hquote⟩

/-- What was written is not taken for a string on several lines, which has a third quote. -/
theorem string?_writeString (cs : List Char) {c : Char} (hc : c ≠ '"') (rest : List Char) :
    string? '"' (cs.flatMap writeChar ++ '"' :: c :: rest) = some (cs, c :: rest) := by
  have hread := basic_writeString cs (c :: rest)
  cases cs with
  | nil =>
    rw [List.flatMap_nil, List.nil_append] at hread ⊢
    rw [string?, if_neg fun h => hc h.2, if_pos rfl]
    exact hread
  | cons d ds =>
    obtain ⟨e, es, he, hne⟩ := head?_writeChar d
    rw [List.flatMap_cons, he, List.cons_append, List.cons_append] at hread ⊢
    rw [string?.eq_def]
    split
    · rename_i heq
      obtain ⟨rfl, -⟩ := List.cons.inj heq
      rw [if_neg fun h => hne h.1, if_pos rfl]
      exact hread
    · rw [if_pos rfl]
      exact hread

end MetaCache.Toml
