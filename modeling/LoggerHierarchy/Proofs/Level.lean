import LoggerHierarchy.Proofs.Decimal
import LoggerHierarchy.Proofs.Text
import LoggerHierarchy.Settings.Decode
import Mathlib.Data.List.Forall2

namespace LoggerHierarchy.Level

/-!
# Texts that stand for levels

Which texts are read as levels, and as which:

* `SameLetter` — a character, or the two cases of an ASCII letter; `named?_eq_some_iff` — a name
  leads to the well-known level that has it;
* `StandsFor` — the level that a text stands for, with blanks around it, by its name or by its
  severity; `parse_eq_ok_iff` — texts are read so;
* `ofDocument_eq_ok_iff` — the same of documents;
* `parse_exact` — these texts are read, and all others are refused with what was given.
-/

variable {a b : Char} {cs : List Char} {level other : Level} {s : String}

/-! ### Letters in any case -/

/-- Whether two characters differ at most in the case of an ASCII letter. -/
def SameLetter (a b : Char) : Prop :=
  a = b ∨ ∃ k < 26,
    a.toNat = 'A'.toNat + k ∧ b.toNat = 'a'.toNat + k ∨
      a.toNat = 'a'.toNat + k ∧ b.toNat = 'A'.toNat + k

/-- Only the letters from A to Z are lowered, each by the same distance. -/
theorem toNat_toLower (c : Char) : c.toLower.toNat =
    if 'A'.toNat ≤ c.toNat ∧ c.toNat ≤ 'Z'.toNat then c.toNat + 32 else c.toNat := by
  have hupper : (c.val ≥ 'A'.val ∧ c.val ≤ 'Z'.val) ↔
      'A'.toNat ≤ c.toNat ∧ c.toNat ≤ 'Z'.toNat := Iff.rfl
  unfold Char.toLower
  split
  · rename_i h
    have hle : c.val.toNat ≤ 90 := h.2
    rw [if_pos (hupper.1 h)]
    change (c.val + 32).toNat = c.val.toNat + 32
    rw [UInt32.toNat_add]
    exact Nat.mod_eq_of_lt (by change c.val.toNat + 32 < 2 ^ 32; omega)
  · rename_i h
    rw [if_neg (mt hupper.2 h)]

/-- Two characters with one lower case are the same letter up to its case. -/
theorem toLower_eq_iff : a.toLower = b.toLower ↔ SameLetter a b := by
  rw [← Char.toNat_inj, toNat_toLower, toNat_toLower, SameLetter, ← Char.toNat_inj]
  change (if 65 ≤ a.toNat ∧ a.toNat ≤ 90 then _ else _) =
    (if 65 ≤ b.toNat ∧ b.toNat ≤ 90 then _ else _) ↔ a.toNat = b.toNat ∨ ∃ k < 26,
      a.toNat = 65 + k ∧ b.toNat = 97 + k ∨ a.toNat = 97 + k ∧ b.toNat = 65 + k
  constructor
  · intro h
    by_cases hab : a.toNat = b.toNat
    · exact .inl hab
    · -- one of the two is an upper case letter, and the other one is 32 further on
      refine .inr ⟨(a.toNat - 65) % 32, ?_⟩
      split at h <;> split at h <;> omega
  · rintro (h | ⟨k, hk, h | h⟩)
    · rw [h]
    · split <;> split <;> omega
    · split <;> split <;> omega

/-- The comparison of names looks at letters up to their case, one by one. -/
theorem sameLetters_iff {name : List Char} :
    sameLetters name cs = true ↔ List.Forall₂ SameLetter name cs := by
  rw [sameLetters, beq_iff_eq, ← List.forall₂_eq_eq_eq, List.forall₂_map_left_iff,
    List.forall₂_map_right_iff]
  simp only [toLower_eq_iff]

/-- No case of a letter is a digit. -/
theorem SameLetter.isDigit (h : SameLetter a b) (ha : a.isDigit = false) : b.isDigit = false := by
  rw [← Bool.not_eq_true, Char.isDigit_iff_toNat]
  obtain rfl | ⟨k, -, ⟨-, hb⟩ | ⟨-, hb⟩⟩ := h
  · rwa [← Char.isDigit_iff_toNat, Bool.not_eq_true]
  · change ¬ (48 ≤ b.toNat ∧ b.toNat ≤ 57)
    change b.toNat = 97 + k at hb
    omega
  · change ¬ (48 ≤ b.toNat ∧ b.toNat ≤ 57)
    change b.toNat = 65 + k at hb
    omega

/-- Every character of a spelling is a letter of the name, up to its case. -/
theorem exists_sameLetter {name : List Char} {c : Char} (h : List.Forall₂ SameLetter name cs)
    (hc : c ∈ cs) : ∃ a ∈ name, SameLetter a c := by
  induction h with
  | nil => exact absurd hc List.not_mem_nil
  | @cons a b name cs hab _ ih =>
    obtain rfl | hc := List.mem_cons.1 hc
    · exact ⟨a, List.mem_cons_self, hab⟩
    · obtain ⟨d, hd, hsame⟩ := ih hc
      exact ⟨d, List.mem_cons_of_mem _ hd, hsame⟩

/-! ### Names -/

/-- Well-known levels with the same name in any case are the same. -/
theorem eq_of_sameLetters (hlevel : level ∈ known) (hother : other ∈ known)
    (h : sameLetters level.name.toList cs = true) (h' : sameLetters other.name.toList cs = true) :
    level = other := by
  have hall : ∀ a ∈ known, ∀ b ∈ known, sameLetters a.name.toList b.name.toList = true → a = b := by
    decide
  refine hall level hlevel other hother ?_
  simp only [sameLetters, beq_iff_eq] at h h' ⊢
  rw [h, h']

/-- A name leads to the well-known level that has it, in any case of its letters. -/
theorem named?_eq_some_iff : named? cs = some level ↔
    level ∈ known ∧ List.Forall₂ SameLetter level.name.toList cs := by
  rw [← sameLetters_iff]
  constructor
  · intro h
    have hname := List.find?_some (show List.find? _ _ = some level from h)
    exact ⟨List.mem_of_find?_eq_some h, hname⟩
  · rintro ⟨hknown, hname⟩
    cases hfind : named? cs with
    | none => exact absurd hname (by simpa using List.find?_eq_none.1 hfind level hknown)
    | some other =>
      have hother := List.find?_some (show List.find? _ _ = some other from hfind)
      rw [eq_of_sameLetters hknown (List.mem_of_find?_eq_some hfind) hname hother]

/-- No well-known level has a name with a digit in it. -/
theorem isDigit_of_known (hknown : level ∈ known)
    (hname : List.Forall₂ SameLetter level.name.toList cs) : ∀ c ∈ cs, c.isDigit = false := by
  have hall : ∀ level ∈ known, level.name.toList.all (!·.isDigit) = true := by decide
  intro c hc
  obtain ⟨a, ha, hsame⟩ := exists_sameLetter hname hc
  exact hsame.isDigit (by simpa using List.all_eq_true.1 (hall level hknown) a ha)

/-! ### Levels -/

/-- The level that a text without blanks around it says: a well-known one by its name, in any case
    of its letters, or the one of a severity by its decimal text. -/
inductive Says (cs : List Char) : Level → Prop where
  | name {level : Level} (hknown : level ∈ known)
      (hname : List.Forall₂ SameLetter level.name.toList cs) : Says cs level
  | severity {i : Int} (hnumeral : Decimal.IsNumeral cs i)
      (hrange : -2147483648 ≤ i ∧ i ≤ 2147483647) : Says cs (ofValue (Int32.ofInt i))

/-- A spelling is accepted as a level just when it says that level. -/
theorem ofChars?_eq_some_iff : ofChars? cs = some level ↔ Says cs level := by
  rw [ofChars?, Option.or_eq_some_iff, named?_eq_some_iff, Option.map_eq_some_iff]
  simp only [Decimal.readInt32_eq_some_iff]
  constructor
  · rintro (⟨hknown, hname⟩ | ⟨-, -, ⟨i, hnumeral, hrange, rfl⟩, rfl⟩)
    · exact .name hknown hname
    · exact .severity hnumeral hrange
  · rintro (⟨hknown, hname⟩ | @⟨i, hnumeral, hrange⟩)
    · exact .inl ⟨hknown, hname⟩
    · -- a decimal text has a digit in it, and no name has
      refine .inr ⟨Option.eq_none_iff_forall_ne_some.2 fun level hlevel => ?_, _,
        ⟨i, hnumeral, hrange, rfl⟩, rfl⟩
      obtain ⟨hknown, hname⟩ := named?_eq_some_iff.1 hlevel
      obtain ⟨c, hc, hdigit⟩ := hnumeral.exists_digit
      exact absurd hdigit (by simp [isDigit_of_known hknown hname c hc])

/-- The level that a text stands for, whatever blanks are around it. -/
def StandsFor (s : String) (level : Level) : Prop :=
  ∃ core, Text.IsTrimmed s.toList core ∧ Says core level

/-- A text is accepted as a level if it spells one between blanks. -/
theorem ofChars?_trimChars_eq_some_iff :
    ofChars? (Text.trimChars s.toList) = some level ↔ StandsFor s level := by
  rw [ofChars?_eq_some_iff]
  constructor
  · exact fun h => ⟨_, Text.trimChars_eq_iff.1 rfl, h⟩
  · rintro ⟨core, htrimmed, h⟩
    rwa [Text.trimChars_eq_iff.2 htrimmed]

/-- A text is parsed as a level just when it stands for it. -/
theorem parse_eq_ok_iff : parse s = .ok level ↔ StandsFor s level := by
  rw [← ofChars?_trimChars_eq_some_iff, parse]
  cases ofChars? (Text.trimChars s.toList) <;> simp

/-- A text that stands for no level is refused, always with the same error. -/
theorem parse_eq_error_iff {error : Error} :
    parse s = .error error ↔ (∀ level, ¬ StandsFor s level) ∧ error = unknown s := by
  simp only [← ofChars?_trimChars_eq_some_iff, parse]
  cases ofChars? (Text.trimChars s.toList) <;> simp [eq_comm]

/-- A text that stands for no level is refused in words that quote it. -/
theorem parse_eq_error_iff_isQuoted {error : Error} :
    parse s = .error error ↔ (∀ level, ¬ StandsFor s level) ∧ ∃ quoted, Text.IsQuoted s quoted ∧
      error = .invalidArgument ("unknown level name: " ++ quoted) := by
  simp only [parse_eq_error_iff, Text.isQuoted_iff, exists_eq_left, unknown]

/-- What is refused can be told from the refusal. -/
theorem unknown_injective : Function.Injective unknown := by
  intro s t h
  have h : "unknown level name: " ++ Text.quote s = "unknown level name: " ++ Text.quote t := by
    simpa [unknown] using h
  exact Text.quote_injective ((String.append_right_inj _).1 h)

/-- The severity of a level is read back from its decimal text, whatever blanks are around it. -/
theorem standsFor_toString (value : Int32) {front back : String}
    (hfront : ∀ c ∈ front.toList, Text.isBlank c = true)
    (hback : ∀ c ∈ back.toList, Text.isBlank c = true) :
    StandsFor (front ++ toString value.toInt ++ back) (ofValue value) := by
  have hnumeral := Decimal.isNumeral_toString value.toInt
  have hsays : Says (toString value.toInt).toList (ofValue (Int32.ofInt value.toInt)) :=
    .severity hnumeral ⟨Int32.le_toInt value, Int32.toInt_le value⟩
  rw [Int32.ofInt_toInt] at hsays
  refine ⟨_, ⟨⟨front.toList, back.toList, by simp, hfront, hback⟩, ?_, ?_⟩, hsays⟩
  · exact fun c hc => hnumeral.isBlank c (List.mem_of_mem_head? hc)
  · exact fun c hc => hnumeral.isBlank c (List.mem_of_getLast? hc)

/-- A document stands for the level of an integer of 32 bits, or for that of a text. -/
theorem ofDocument_eq_ok_iff {d : Document} : ofDocument d = .ok level ↔
    (∃ i : Int, d = .integer i ∧ (-2147483648 ≤ i ∧ i ≤ 2147483647) ∧
      level = ofValue (Int32.ofInt i)) ∨
    ∃ s, d = .text s ∧ parse s = .ok level := by
  cases d with
  | integer i =>
    simp only [ofDocument]
    split
    · rename_i h
      simp [h, eq_comm]
    · rename_i h
      simp [h]
  | text s =>
    simp only [ofDocument]
    cases hparse : parse s <;> simp [hparse]
  | _ => simp [ofDocument]

/-- A text is read as a level iff, without the blanks around it, it is the name of a well-known
    level in any case of its ASCII letters, or the decimal text of an integer of 32 bits; it is
    read as that level, or as the one of that severity.  Any other text is refused as an invalid
    argument, in words that quote it as it was given, so that it can be told from them.  The
    decimal text of every severity is read back, whatever blanks are around it.  Of documents the
    integers of 32 bits and these texts are levels, and no others. -/
theorem parse_exact :
    (∀ s level, parse s = .ok level ↔ StandsFor s level) ∧
    (∀ s error, parse s = .error error ↔ (∀ level, ¬ StandsFor s level) ∧
      ∃ quoted, Text.IsQuoted s quoted ∧
        error = .invalidArgument ("unknown level name: " ++ quoted)) ∧
    (∀ s error, parse s = .error error → ∃ quoted, Text.IsQuoted s quoted ∧
      error.message = "Invalid argument: unknown level name: " ++ quoted) ∧
    (∀ s t error, parse s = .error error → parse t = .error error → s = t) ∧
    (∀ (value : Int32) (front back : String), (∀ c ∈ front.toList, Text.isBlank c = true) →
      (∀ c ∈ back.toList, Text.isBlank c = true) →
      parse (front ++ toString value.toInt ++ back) = .ok (ofValue value)) ∧
    ∀ d level, ofDocument d = .ok level ↔
      (∃ i : Int, d = .integer i ∧ (-2147483648 ≤ i ∧ i ≤ 2147483647) ∧
        level = ofValue (Int32.ofInt i)) ∨
      ∃ s, d = .text s ∧ parse s = .ok level := by
  refine ⟨fun _ _ => parse_eq_ok_iff, fun _ _ => parse_eq_error_iff_isQuoted, ?_, ?_, ?_,
    fun _ _ => ofDocument_eq_ok_iff⟩
  · intro s error hs
    obtain ⟨-, quoted, hquoted, rfl⟩ := parse_eq_error_iff_isQuoted.1 hs
    have hfront : "Invalid argument: " ++ "unknown level name: " =
        "Invalid argument: unknown level name: " := by decide
    refine ⟨quoted, hquoted, ?_⟩
    calc "Invalid argument: " ++ ("unknown level name: " ++ quoted)
        = "Invalid argument: " ++ "unknown level name: " ++ quoted := String.append_assoc.symm
      _ = "Invalid argument: unknown level name: " ++ quoted := congrArg (· ++ quoted) hfront
  -- the refused text can be read off the error
  · intro s t error hs ht
    have hsame : unknown s = unknown t :=
      (parse_eq_error_iff.1 hs).2.symm.trans (parse_eq_error_iff.1 ht).2
    exact unknown_injective hsame
  · intro value front back hfront hback
    exact parse_eq_ok_iff.2 (standsFor_toString value hfront hback)

/-- A tab, an escape character, a quote and a digit between double quotes. -/
theorem isQuoted_escaped :
    Text.IsQuoted "\t\x1b\"1" "\"\\t\\u\x7b1b\x7d\\\"1\"" := by
  have hescape : Text.IsWrittenAs '\x1b' ['\\', 'u', '\x7b', '1', 'b', '\x7d'] := by
    have hdigits : Text.IsHexadecimal ['1', 'b'] '\x1b'.toNat :=
      .more (d := 11) (.digit (d := 1) rfl) (by decide) rfl
    exact .number (Text.forall_notMem_shortForms_iff.2 (by decide)) (by decide +kernel) hdigits
  have hdigit : Text.IsWrittenAs '1' ['1'] := by
    refine .itself (Text.forall_notMem_shortForms_iff.2 (by decide)) ?_
    rw [Text.isFormless, ← Array.any_toList]
    decide +kernel
  refine ⟨_, .cons (.short (d := 't') (by decide)) (.cons hescape
    (.cons (.short (d := '"') (by decide)) (.cons hdigit .nil))), ?_⟩
  decide +kernel

/-- The lowest severity is read with blanks around it, and so is a name that is not the first one of
    its severity; a text with a tab, an escape character and a quote in it is refused, and all three
    can be seen in what is said. -/
theorem parse_between_blanks_and_quoted :
    parse " -2147483648\n" = .ok all ∧ ofDocument (.text "\tWarn") = .ok warn ∧
      ∃ error, parse "\t\x1b\"1" = .error error ∧ error =
        .invalidArgument ("unknown level name: " ++ "\"\\t\\u\x7b1b\x7d\\\"1\"") := by
  obtain ⟨-, hrefused, -, -, hshown, hdocument⟩ := parse_exact
  have hname : parse "\tWarn" = .ok warn := by decide +kernel
  refine ⟨?_, (hdocument _ _).2 (.inr ⟨_, rfl, hname⟩), ?_⟩
  · have hlowest := hshown (-2147483648) " " "\n" (by simp [Text.isBlank]) (by simp [Text.isBlank])
    have htext : " " ++ toString (-2147483648 : Int32).toInt ++ "\n" = " -2147483648\n" := by
      decide +kernel
    rwa [htext] at hlowest
  · have hnone : ofChars? (Text.trimChars "\t\x1b\"1".toList) = none := by decide +kernel
    have hother : ∀ level, ¬ StandsFor "\t\x1b\"1" level := by
      intro level hlevel
      have hsome := ofChars?_trimChars_eq_some_iff.2 hlevel
      rw [hnone] at hsome
      cases hsome
    exact ⟨_, (hrefused _ _).2 ⟨hother, _, isQuoted_escaped, rfl⟩, rfl⟩

end LoggerHierarchy.Level
