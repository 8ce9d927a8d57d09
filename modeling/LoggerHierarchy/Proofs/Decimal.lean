import LoggerHierarchy.Decimal.Integer
import LoggerHierarchy.Text.Blank

namespace LoggerHierarchy.Decimal

/-!
# Decimal texts

* `IsNatural`, `IsNumeral` — the texts that say a natural number, and an integer, in decimal;
* `readInteger_eq_some_iff`, `readInt32_eq_some_iff` — these are read, and no others;
* `isNumeral_toString` — what an integer is shown as says that integer.
-/

variable {cs : List Char} {c : Char} {n start : Nat} {i : Int} {value : Int32}

/-- Whether a text is one or more ASCII digits, with what they say in decimal. -/
structure IsNatural (cs : List Char) (n : Nat) : Prop where
  ne_nil : cs ≠ []
  isDigit : ∀ c ∈ cs, c.isDigit = true
  value : Nat.ofDigitChars 10 cs 0 = n

/-- Whether a text is one or more ASCII digits after at most one sign, with what they say in
    decimal. -/
inductive IsNumeral : List Char → Int → Prop where
  | unsigned {cs : List Char} {n : Nat} (h : IsNatural cs n) : IsNumeral cs n
  | plus {cs : List Char} {n : Nat} (h : IsNatural cs n) : IsNumeral ('+' :: cs) n
  | minus {cs : List Char} {n : Nat} (h : IsNatural cs n) : IsNumeral ('-' :: cs) (-n)

/-- A numeral has at least one digit. -/
theorem IsNumeral.exists_digit (h : IsNumeral cs i) : ∃ c ∈ cs, c.isDigit = true := by
  have hfirst : ∀ {cs n}, IsNatural cs n → ∃ c ∈ cs, c.isDigit = true := by
    intro cs n h
    obtain ⟨c, hc⟩ := List.exists_mem_of_ne_nil cs h.ne_nil
    exact ⟨c, hc, h.isDigit c hc⟩
  cases h with
  | unsigned h => exact hfirst h
  | plus h | minus h =>
    obtain ⟨c, hc, hdigit⟩ := hfirst h
    exact ⟨c, List.mem_cons_of_mem _ hc, hdigit⟩

/-- No decimal text holds a blank. -/
theorem IsNumeral.isBlank (h : IsNumeral cs i) : ∀ c ∈ cs, Text.isBlank c = false := by
  have hdigit : ∀ c : Char, c.isDigit = true → Text.isBlank c = false := by
    intro c hc
    obtain ⟨hlow, hhigh⟩ := Char.isDigit_iff_toNat.1 hc
    change 48 ≤ c.toNat at hlow
    change c.toNat ≤ 57 at hhigh
    simp only [Text.isBlank, Bool.or_eq_false_iff, Bool.and_eq_false_iff, decide_eq_false_iff_not,
      beq_eq_false_iff_ne]
    omega
  cases h with
  | unsigned h => exact fun c hc => hdigit c (h.isDigit c hc)
  | plus h | minus h =>
    exact List.forall_mem_cons.2 ⟨by decide, fun c hc => hdigit c (h.isDigit c hc)⟩

/-- A character is read as a digit when it is one of the ten, and stands for its distance from
    zero. -/
theorem digit?_eq_some_iff : digit? c = some n ↔ c.isDigit = true ∧ c.toNat - '0'.toNat = n := by
  have hle : ('0' ≤ c ∧ c ≤ '9') ↔ c.isDigit = true := by
    rw [Char.isDigit_iff_toNat]
    exact Iff.rfl
  unfold digit?
  split
  · rename_i h
    simp [hle.1 h]
  · rename_i h
    simp [mt hle.2 h]

/-- Digits are read from the left, each ten times what follows it. -/
theorem continueNatural_eq_some_iff : continueNatural start cs = some n ↔
    (∀ c ∈ cs, c.isDigit = true) ∧ Nat.ofDigitChars 10 cs start = n := by
  induction cs generalizing start with
  | nil => simp [continueNatural]
  | cons c cs ih =>
    rw [continueNatural, Option.bind_eq_some_iff, List.forall_mem_cons, Nat.ofDigitChars_cons]
    constructor
    · rintro ⟨d, hd, hrest⟩
      obtain ⟨hdigit, rfl⟩ := digit?_eq_some_iff.1 hd
      obtain ⟨hdigits, hvalue⟩ := ih.1 hrest
      exact ⟨⟨hdigit, hdigits⟩, hvalue⟩
    · rintro ⟨⟨hdigit, hdigits⟩, hvalue⟩
      exact ⟨_, digit?_eq_some_iff.2 ⟨hdigit, rfl⟩, ih.2 ⟨hdigits, hvalue⟩⟩

/-- Exactly the naturals are read, each with its value. -/
theorem readNatural_eq_some_iff : readNatural cs = some n ↔ IsNatural cs n := by
  have hread : readNatural cs = some n ↔ cs ≠ [] ∧ continueNatural 0 cs = some n := by
    cases cs <;> simp [readNatural]
  rw [hread, continueNatural_eq_some_iff]
  exact ⟨fun ⟨hne, hdigit, hvalue⟩ => ⟨hne, hdigit, hvalue⟩,
    fun ⟨hne, hdigit, hvalue⟩ => ⟨hne, hdigit, hvalue⟩⟩

/-- No text of digits begins with a sign. -/
theorem not_isNatural_sign (hsign : c.isDigit = false) : ¬ IsNatural (c :: cs) n := by
  intro h
  exact absurd (h.isDigit c List.mem_cons_self) (by simp [hsign])

/-- Exactly the numerals are read, each with its value and sign. -/
theorem readInteger_eq_some_iff : readInteger cs = some i ↔ IsNumeral cs i := by
  constructor
  · intro h
    unfold readInteger at h
    split at h
    · obtain ⟨n, hn, rfl⟩ := Option.map_eq_some_iff.1 h
      exact .plus (readNatural_eq_some_iff.1 hn)
    · obtain ⟨n, hn, rfl⟩ := Option.map_eq_some_iff.1 h
      exact .minus (readNatural_eq_some_iff.1 hn)
    · obtain ⟨n, hn, rfl⟩ := Option.map_eq_some_iff.1 h
      exact .unsigned (readNatural_eq_some_iff.1 hn)
  · intro h
    cases h with
    | plus h => simp [readInteger, readNatural_eq_some_iff.2 h]
    | minus h => simp [readInteger, readNatural_eq_some_iff.2 h]
    | unsigned h =>
      unfold readInteger
      split
      · exact absurd h (not_isNatural_sign rfl)
      · exact absurd h (not_isNatural_sign rfl)
      · rw [readNatural_eq_some_iff.2 h]
        rfl

/-- The decimal texts of the integers of 32 bits are read. -/
theorem readInt32_eq_some_iff : readInt32 cs = some value ↔
    ∃ i, IsNumeral cs i ∧ (-2147483648 ≤ i ∧ i ≤ 2147483647) ∧ Int32.ofInt i = value := by
  simp only [readInt32, Option.bind_eq_some_iff, readInteger_eq_some_iff]
  refine exists_congr fun i => and_congr_right fun _ => ?_
  split
  · rename_i h
    simp [h]
  · rename_i h
    simp [h]

/-- The text that an integer is shown as says that integer. -/
theorem isNumeral_toString (i : Int) : IsNumeral (toString i).toList i := by
  have hshown : ∀ n : Nat, IsNatural n.repr.toList n := by
    intro n
    rw [Nat.toList_repr]
    refine ⟨Nat.toDigits_ne_nil, ?_, Nat.ofDigitChars_ten_toDigits⟩
    exact fun c hc => Nat.isDigit_of_mem_toDigits (by decide) (by decide) hc
  rw [Int.toString_eq_repr]
  cases i with
  | ofNat n => exact .unsigned (hshown n)
  | negSucc n =>
    change IsNumeral ("-" ++ (n + 1).repr).toList _
    rw [String.toList_append]
    exact .minus (hshown (n + 1))

end LoggerHierarchy.Decimal
