import LoggerHierarchy.Text.Blank
import LoggerHierarchy.Text.Quoted
import Mathlib.Data.List.Forall2
import Mathlib.Data.List.TakeWhile

namespace LoggerHierarchy.Text

/-!
# Texts cut and quoted

* `IsTrimmed` — what is left of a text without the blanks around it; `trimChars_eq_iff` — this is
  what `trimChars` gives;
* `IsHexadecimal`, `IsWrittenAs`, `IsQuoted` — the digits of a number, how a character is written
  between double quotes, and how a text; `isQuoted_iff` — this is what `quote` gives;
* `IsWrittenAs.append_inj` — no way to write a character begins another one; `quote_injective` — so
  a text can be told from its quoted form.
-/

variable {s core rest x y : List Char} {a b c : Char}

/-! ### Blanks around a text -/

/-- What is left without the blanks in front begins with none. -/
theorem dropWhile_isBlank_eq_iff : s.dropWhile isBlank = rest ↔
    ∃ front, s = front ++ rest ∧ (∀ c ∈ front, isBlank c = true) ∧
      ∀ c ∈ rest.head?, isBlank c = false := by
  constructor
  · rintro rfl
    refine ⟨s.takeWhile isBlank, List.takeWhile_append_dropWhile.symm,
      fun _ => List.mem_takeWhile_imp, ?_⟩
    intro c hc
    have hnot := List.head?_dropWhile_not isBlank s
    rwa [hc] at hnot
  · rintro ⟨front, rfl, hfront, hrest⟩
    rw [List.dropWhile_append_of_pos hfront]
    cases rest with
    | nil => rfl
    | cons c rest => exact List.dropWhile_cons_of_neg (by simp [hrest c rfl])

/-- Whether `core` is what is left of a text without the blanks around it. -/
structure IsTrimmed (s core : List Char) : Prop where
  split : ∃ front back, s = front ++ core ++ back ∧ (∀ c ∈ front, isBlank c = true) ∧
    ∀ c ∈ back, isBlank c = true
  head : ∀ c ∈ core.head?, isBlank c = false
  last : ∀ c ∈ core.getLast?, isBlank c = false

/-- What is left without the blanks behind ends with none. -/
theorem trimChars_eq_iff_dropWhile : trimChars s = core ↔
    ∃ back, s.dropWhile isBlank = core ++ back ∧ (∀ c ∈ back, isBlank c = true) ∧
      ∀ c ∈ core.getLast?, isBlank c = false := by
  rw [trimChars, List.reverse_eq_iff, dropWhile_isBlank_eq_iff, List.head?_reverse]
  constructor
  · rintro ⟨front, hsplit, hfront, hlast⟩
    refine ⟨front.reverse, ?_, by simpa using hfront, hlast⟩
    rw [← List.reverse_reverse core, ← List.reverse_append, ← hsplit, List.reverse_reverse]
  · rintro ⟨back, hsplit, hback, hlast⟩
    exact ⟨back.reverse, by rw [hsplit, List.reverse_append], by simpa using hback, hlast⟩

/-- The blanks around a text are cut off, and nothing else. -/
theorem trimChars_eq_iff : trimChars s = core ↔ IsTrimmed s core := by
  rw [trimChars_eq_iff_dropWhile]
  constructor
  · rintro ⟨back, hdrop, hback, hlast⟩
    obtain ⟨front, hsplit, hfront, hhead⟩ := dropWhile_isBlank_eq_iff.1 hdrop
    refine ⟨⟨front, back, by rw [hsplit, List.append_assoc], hfront, hback⟩, ?_, hlast⟩
    intro c hc
    exact hhead c (by simp [Option.mem_def.1 hc])
  · rintro ⟨⟨front, back, hsplit, hfront, hback⟩, hhead, hlast⟩
    cases core with
    | nil =>
      -- all of the text is blank, and gone with the blanks in front
      refine ⟨[], dropWhile_isBlank_eq_iff.2 ⟨s, by simp, ?_, by simp⟩, by simp, by simp⟩
      intro c hc
      rw [hsplit, List.append_nil, List.mem_append] at hc
      exact hc.elim (hfront c) (hback c)
    | cons c rest =>
      refine ⟨back, dropWhile_isBlank_eq_iff.2 ⟨front, ?_, hfront, hhead⟩, hback, hlast⟩
      rw [hsplit, List.append_assoc]

/-! ### Hexadecimal digits -/

/-- The digits of a number in base sixteen, in lower case and without leading zeros. -/
inductive IsHexadecimal : List Char → Nat → Prop where
  | digit {c : Char} {d : Nat} (hdigit : "0123456789abcdef".toList[d]? = some c) :
    IsHexadecimal [c] d
  | more {digits : List Char} {c : Char} {n d : Nat} (hfront : IsHexadecimal digits n) (hn : 0 < n)
      (hdigit : "0123456789abcdef".toList[d]? = some c) :
    IsHexadecimal (digits ++ [c]) (16 * n + d)

/-- The digits of a number in base sixteen. -/
theorem hexDigits_eq (n : Nat) : hexDigits n =
    if n < 16 then [n.digitChar] else hexDigits (n / 16) ++ [(n % 16).digitChar] := by
  unfold hexDigits
  split
  · rename_i h
    exact Nat.toDigits_of_lt_base h
  · rename_i h
    exact Nat.toDigits_of_base_le (by decide) (Nat.le_of_not_lt h)

/-- The digit of a number below sixteen stands at its place among the sixteen digits. -/
theorem getElem?_digits_eq_some_iff {d : Nat} :
    "0123456789abcdef".toList[d]? = some c ↔ d < 16 ∧ d.digitChar = c := by
  have hall : ∀ d < 16, "0123456789abcdef".toList[d]? = some d.digitChar := by decide
  by_cases hd : d < 16
  · rw [hall d hd, and_iff_right hd, Option.some_inj]
  · simp [hd]

/-- Every number has its digits in base sixteen, and no others. -/
theorem isHexadecimal_iff {digits : List Char} {n : Nat} :
    IsHexadecimal digits n ↔ hexDigits n = digits := by
  constructor
  -- the last digit is the remainder by sixteen, and the others are those of the quotient
  · intro h
    induction h with
    | digit hdigit =>
      obtain ⟨hd, rfl⟩ := getElem?_digits_eq_some_iff.1 hdigit
      rw [hexDigits_eq, if_pos hd]
    | @more digits c n d hfront hn hdigit ih =>
      obtain ⟨hd, rfl⟩ := getElem?_digits_eq_some_iff.1 hdigit
      have hquotient : (16 * n + d) / 16 = n := by omega
      have hremainder : (16 * n + d) % 16 = d := by omega
      rw [hexDigits_eq, if_neg (by omega), hquotient, hremainder, ih]
  · rintro rfl
    induction n using Nat.strongRecOn with
    | ind n ih =>
      rw [hexDigits_eq]
      split
      · rename_i h
        exact .digit (getElem?_digits_eq_some_iff.2 ⟨h, rfl⟩)
      · rename_i h
        have hlast : n % 16 < 16 := Nat.mod_lt n (by decide)
        have hmore := (ih (n / 16) (by omega)).more (by omega)
          (getElem?_digits_eq_some_iff.2 ⟨hlast, rfl⟩)
        rwa [Nat.div_add_mod] at hmore

/-- Different hexadecimal digits are written with different characters. -/
theorem digitChar_inj {m n : Nat} (hm : m < 16) (hn : n < 16)
    (h : m.digitChar = n.digitChar) : m = n := by
  have hall : ∀ m < 16, ∀ n < 16, m.digitChar = n.digitChar → m = n := by decide
  exact hall m hm n hn h

/-- Different numbers are written with different hexadecimal digits. -/
theorem hexDigits_inj {m n : Nat} (h : hexDigits m = hexDigits n) : m = n := by
  induction m using Nat.strongRecOn generalizing n with
  | ind m ih =>
    rw [hexDigits_eq m, hexDigits_eq n] at h
    -- a number of one digit has no digits in front of it
    have hne : ∀ k (c d : Char), [c] ≠ hexDigits k ++ [d] := by
      intro k c d heq
      have heq : [] ++ [c] = hexDigits k ++ [d] := heq
      exact Nat.toDigits_ne_nil (List.append_inj' heq rfl).1.symm
    split at h <;> split at h <;> rename_i hm hn
    · exact digitChar_inj hm hn (List.singleton_inj.1 h)
    · exact absurd h (hne _ _ _)
    · exact absurd h.symm (hne _ _ _)
    · obtain ⟨hfront, hlast⟩ := List.append_inj' h rfl
      have hfront := ih (m / 16) (by omega) hfront
      have hlast := digitChar_inj (by omega) (by omega) (List.singleton_inj.1 hlast)
      omega

/-- The digits of a number hold no closing brace. -/
theorem brace_notMem_hexDigits (n : Nat) : '\x7d' ∉ hexDigits n := by
  have hall : ∀ k < 16, Nat.digitChar k ≠ '\x7d' := by decide
  induction n using Nat.strongRecOn with
  | ind n ih =>
    rw [hexDigits_eq]
    split
    · rename_i h
      simp [(hall n h).symm]
    · rename_i h
      rw [List.mem_append, List.mem_singleton, not_or]
      exact ⟨ih (n / 16) (by omega), (hall _ (by omega)).symm⟩

/-- So they end where the brace stands. -/
theorem append_brace_inj (m n : Nat)
    (h : hexDigits m ++ '\x7d' :: x = hexDigits n ++ '\x7d' :: y) :
    hexDigits m = hexDigits n ∧ x = y := by
  have htake : ∀ n z, (hexDigits n ++ '\x7d' :: z).takeWhile (· ≠ '\x7d') = hexDigits n := by
    intro n z
    rw [List.takeWhile_append_of_pos, List.takeWhile_cons_of_neg (by simp), List.append_nil]
    intro c hc
    have hne : c ≠ '\x7d' := fun heq => brace_notMem_hexDigits n (heq ▸ hc)
    simpa using hne
  have hsame : hexDigits m = hexDigits n := by rw [← htake m x, h, htake]
  rw [hsame] at h
  exact ⟨hsame, List.tail_eq_of_cons_eq (List.append_cancel_left h)⟩

/-! ### Quoted texts -/

/-- The characters with short forms, and the letters of these. -/
def shortForms : List (Char × Char) :=
  [('"', '"'), ('\\', '\\'), ('\t', 't'), ('\n', 'n'), ('\r', 'r'), ('\x00', '0')]

/-- How a character is written between double quotes: by its short form if it has one, else by its
    number if it has no shape of its own, else as itself. -/
inductive IsWrittenAs (c : Char) : List Char → Prop where
  | short {d : Char} (hshort : (c, d) ∈ shortForms) : IsWrittenAs c ['\\', d]
  | number {digits : List Char} (hlong : ∀ d, (c, d) ∉ shortForms) (hformless : isFormless c = true)
      (hdigits : IsHexadecimal digits c.toNat) :
    IsWrittenAs c ('\\' :: 'u' :: '\x7b' :: (digits ++ ['\x7d']))
  | itself (hlong : ∀ d, (c, d) ∉ shortForms) (hshape : isFormless c = false) : IsWrittenAs c [c]

/-- Whether a text is another one between double quotes, each of its characters written as it has to
    be. -/
def IsQuoted (s quoted : String) : Prop :=
  ∃ written, List.Forall₂ IsWrittenAs s.toList written ∧
    quoted.toList = ['"'] ++ written.flatten ++ ['"']

/-- A character that has no short form is none of those that have one. -/
theorem forall_notMem_shortForms_iff : (∀ d, (c, d) ∉ shortForms) ↔
    c ≠ '"' ∧ c ≠ '\\' ∧ c ≠ '\t' ∧ c ≠ '\n' ∧ c ≠ '\r' ∧ c ≠ '\x00' := by
  simp [shortForms, forall_and]

/-- A character that has a short form is escaped by it. -/
theorem escapeChar_of_short {d : Char} (hshort : (c, d) ∈ shortForms) :
    escapeChar c = ['\\', d] := by
  have hall : ∀ p ∈ shortForms, escapeChar p.1 = ['\\', p.2] := by decide
  exact hall (c, d) hshort

/-- Every character is written in one way. -/
theorem isWrittenAs_iff {written : List Char} : IsWrittenAs c written ↔ escapeChar c = written := by
  constructor
  · rintro (hshort | ⟨hlong, hformless, hdigits⟩ | ⟨hlong, hshape⟩)
    · exact escapeChar_of_short hshort
    · simp [escapeChar, forall_notMem_shortForms_iff.1 hlong, hformless,
        isHexadecimal_iff.1 hdigits]
    · simp [escapeChar, forall_notMem_shortForms_iff.1 hlong, hshape]
  · rintro rfl
    by_cases hlong : ∀ d, (c, d) ∉ shortForms
    · have hother := forall_notMem_shortForms_iff.1 hlong
      cases hformless : isFormless c with
      | true => simpa [escapeChar, hother, hformless] using
          IsWrittenAs.number hlong hformless (isHexadecimal_iff.2 rfl)
      | false => simpa [escapeChar, hother, hformless] using IsWrittenAs.itself hlong hformless
    · obtain ⟨d, hshort⟩ := not_forall_not.1 hlong
      rw [escapeChar_of_short hshort]
      exact .short hshort

/-- Every text is quoted in one way. -/
theorem isQuoted_iff {s quoted : String} : IsQuoted s quoted ↔ quoted = quote s := by
  have hways : IsWrittenAs = fun c written => escapeChar c = written := by
    funext c written
    exact propext isWrittenAs_iff
  have hwritten : ∀ written, List.Forall₂ IsWrittenAs s.toList written ↔
      s.toList.map escapeChar = written := by
    intro written
    rw [hways, ← List.forall₂_map_left_iff, List.forall₂_eq_eq_eq]
  simp only [IsQuoted, hwritten, exists_eq_left', ← List.flatMap_def]
  rw [← String.toList_inj, toList_quote]
  rfl

/-- A short form belongs to one character, and is not what a number begins with. -/
theorem shortForms_inj {d : Char} (ha : (a, d) ∈ shortForms) :
    d ≠ 'u' ∧ ∀ b, (b, d) ∈ shortForms → a = b := by
  have hall : ∀ p ∈ shortForms, p.2 ≠ 'u' ∧ ∀ q ∈ shortForms, q.2 = p.2 → p.1 = q.1 := by decide
  obtain ⟨hu, hsame⟩ := hall _ ha
  exact ⟨hu, fun b hb => hsame _ hb rfl⟩

/-- A character that is not written by a short form is neither a backslash nor a quote. -/
theorem ne_of_forall_notMem (hlong : ∀ d, (c, d) ∉ shortForms) : c ≠ '\\' ∧ c ≠ '"' := by
  obtain ⟨hquote, hbackslash, -⟩ := forall_notMem_shortForms_iff.1 hlong
  exact ⟨hbackslash, hquote⟩

/-- No way to write a character begins another one. -/
theorem IsWrittenAs.append_inj {p q : List Char} (ha : IsWrittenAs a p) (hb : IsWrittenAs b q)
    (h : p ++ x = q ++ y) : a = b ∧ x = y := by
  cases ha with
  | @short d hd =>
    obtain ⟨hu, hsame⟩ := shortForms_inj hd
    cases hb with
    | @short e he =>
      obtain ⟨rfl, rfl⟩ : d = e ∧ x = y := by simpa using h
      exact ⟨hsame b he, rfl⟩
    | number => simp [hu] at h
    | itself hlong => simp [(ne_of_forall_notMem hlong).1.symm] at h
  | number _ _ hdigits =>
    cases hb with
    | short he => simp [(shortForms_inj he).1.symm] at h
    | number _ _ hdigits' =>
      rw [isHexadecimal_iff] at hdigits hdigits'
      subst hdigits hdigits'
      obtain ⟨hsame, hrest⟩ : hexDigits a.toNat = hexDigits b.toNat ∧ x = y :=
        append_brace_inj _ _ (by simpa using h)
      exact ⟨Char.toNat_inj.1 (hexDigits_inj hsame), hrest⟩
    | itself hlong => simp [(ne_of_forall_notMem hlong).1.symm] at h
  | itself hlong =>
    cases hb with
    | short => simp [(ne_of_forall_notMem hlong).1] at h
    | number => simp [(ne_of_forall_notMem hlong).1] at h
    | itself => simpa using h

/-- The quote at the end is no way to write a character. -/
theorem IsWrittenAs.append_ne {p : List Char} (h : IsWrittenAs c p) (x y : List Char) :
    p ++ x ≠ '"' :: y := by
  cases h with
  | short => simp
  | number => simp
  | itself hlong => simp [(ne_of_forall_notMem hlong).2]

/-- A text can be told from its quoted form. -/
theorem quote_injective : Function.Injective quote := by
  intro s t h
  have h : s.toList.flatMap escapeChar ++ ['"'] = t.toList.flatMap escapeChar ++ ['"'] := by
    simpa using congrArg String.toList h
  refine String.toList_inj.1 ?_
  -- one character after another; where one text ends, the other one does
  generalize s.toList = cs at h
  generalize t.toList = ds at h
  induction cs generalizing ds with
  | nil =>
    cases ds with
    | nil => rfl
    | cons d ds =>
      rw [List.flatMap_cons, List.append_assoc] at h
      exact absurd h.symm ((isWrittenAs_iff.2 rfl).append_ne _ _)
  | cons c cs ih =>
    rw [List.flatMap_cons, List.append_assoc] at h
    cases ds with
    | nil => exact absurd h ((isWrittenAs_iff.2 rfl).append_ne _ _)
    | cons d ds =>
      rw [List.flatMap_cons, List.append_assoc] at h
      obtain ⟨rfl, hrest⟩ := (isWrittenAs_iff.2 rfl).append_inj (isWrittenAs_iff.2 rfl) h
      rw [ih ds hrest]

end LoggerHierarchy.Text
