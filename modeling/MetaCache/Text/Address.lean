/-!
# Addresses in text

A cell has no address that outlives a run, so wherever text shows one it stands as `(0x?)`. The
text of a cell is written that way from the start; `maskAddresses` treats text from outside alike.
-/

namespace MetaCache.Text

/-- The text that stands for the address of a cell. -/
def anyAddress : String := "(0x?)"

/-- Whether `c` is a digit of a hexadecimal number, in either case. -/
def isHexDigit (c : Char) : Bool :=
  c.isDigit || ('a' ≤ c && c ≤ 'f') || ('A' ≤ c && c ≤ 'F')

/-- What follows an address at the head of `cs`, if one is there: `(0x`, at least six hexadecimal
digits and a closing bracket. -/
def afterAddress? : List Char → Option (List Char)
  | '(' :: '0' :: 'x' :: rest =>
    let digits := rest.takeWhile isHexDigit
    if 6 ≤ digits.length then
      match rest.drop digits.length with
      | ')' :: tail => some tail
      | _ => none
    else none
  | _ => none

theorem afterAddress?_length {cs rest : List Char} (h : afterAddress? cs = some rest) :
    rest.length < cs.length := by
  unfold afterAddress? at h
  split at h
  · rename_i tail
    simp only at h
    split at h
    · split at h
      · rename_i r hr
        cases h
        have := congrArg List.length hr
        simp only [List.length_drop, List.length_cons] at this ⊢
        omega
      · cases h
    · cases h
  · cases h

/-- `cs` with each address replaced by `(0x?)`. -/
def maskChars (cs : List Char) : List Char :=
  match h : afterAddress? cs with
  | some rest =>
    have := afterAddress?_length h
    anyAddress.toList ++ maskChars rest
  | none =>
    match cs with
    | [] => []
    | c :: tail => c :: maskChars tail
termination_by cs.length

/-- `s` with each address replaced by `(0x?)`. -/
def maskAddresses (s : String) : String :=
  String.ofList (maskChars s.toList)

end MetaCache.Text
