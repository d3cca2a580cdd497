import Swf.Number.Numeral
import Mathlib.Data.List.TakeWhile

/-!
# What is a numeral

`Numeral.parse?` takes a text apart from the front: a sign, the digits, a point with more digits,
and the rest as an exponent. The grammar puts numerals together (`Numeral.IsDecimal`). Both mean the
same texts (`isSome_parse?_iff`), because no part can begin with a character that the part before it
would still take.

A wider grammar has words as well, for what is infinite and what is not a number
(`Numeral.IsFloat`). Of its texts the numerals are those with digits, signs, points and the letter
of the exponent only (`isDecimal_iff_filtered`).
-/

namespace Swf.Numeral

/-! ## The grammar -/

/-- A sign, or none. -/
inductive IsSign : List Char → Prop where
  | none : IsSign []
  | plus : IsSign ['+']
  | minus : IsSign ['-']

/-- Digits, with at most one point in front of them, among them or behind them. -/
inductive IsMantissa : List Char → Prop where
  | digits {whole : List Char} (hwhole : ∀ c ∈ whole, c.isDigit) (hsome : whole ≠ []) :
      IsMantissa whole
  | point {whole fraction : List Char} (hwhole : ∀ c ∈ whole, c.isDigit)
      (hfraction : ∀ c ∈ fraction, c.isDigit) (hsome : whole ++ fraction ≠ []) :
      IsMantissa (whole ++ '.' :: fraction)

/-- The mark of an exponent, a sign and digits; or nothing. -/
inductive IsExponent : List Char → Prop where
  | none : IsExponent []
  | some {mark : Char} {sign digits : List Char} (hmark : mark = 'e' ∨ mark = 'E')
      (hsign : IsSign sign) (hdigits : ∀ c ∈ digits, c.isDigit) (hsome : digits ≠ []) :
      IsExponent (mark :: (sign ++ digits))

/-- A decimal numeral. -/
inductive IsDecimal : List Char → Prop where
  | intro {sign mantissa exponent : List Char} (hsign : IsSign sign)
      (hmantissa : IsMantissa mantissa) (hexponent : IsExponent exponent) :
      IsDecimal (sign ++ (mantissa ++ exponent))

/-! ## Taking a text apart -/

/-- A text does not begin with a character of a kind. -/
def NotAhead (kind : Char → Bool) (cs : List Char) : Prop := ∀ c ∈ cs.head?, kind c = false

/-- Whether a character is a sign. -/
def isSign (c : Char) : Bool := c = '+' || c = '-'

theorem exists_sign (cs : List Char) : ∃ sign, IsSign sign ∧ cs = sign ++ (takeSign cs).2 := by
  unfold takeSign
  split
  · exact ⟨['-'], .minus, rfl⟩
  · exact ⟨['+'], .plus, rfl⟩
  · exact ⟨[], .none, rfl⟩

theorem takeSign_append {sign rest : List Char} (hsign : IsSign sign)
    (hrest : NotAhead isSign rest) : (takeSign (sign ++ rest)).2 = rest := by
  cases hsign with
  | plus => rfl
  | minus => rfl
  | none =>
    cases rest with
    | nil => rfl
    | cons c rest =>
      have hc : isSign c = false := hrest c rfl
      rw [List.nil_append, takeSign]
      · intro rest' h
        cases h
        cases hc
      · intro rest' h
        cases h
        cases hc

theorem takeDigits_append {digits rest : List Char} (hdigits : ∀ c ∈ digits, c.isDigit)
    (hrest : NotAhead Char.isDigit rest) : takeDigits (digits ++ rest) = (digits, rest) := by
  have hstop : rest.takeWhile Char.isDigit = [] ∧ rest.dropWhile Char.isDigit = rest := by
    cases rest with
    | nil => exact ⟨rfl, rfl⟩
    | cons c rest =>
      have hc : c.isDigit = false := hrest c rfl
      exact ⟨List.takeWhile_cons_of_neg (by simp [hc]), List.dropWhile_cons_of_neg (by simp [hc])⟩
  unfold takeDigits
  rw [List.takeWhile_append_of_pos hdigits, List.dropWhile_append_of_pos hdigits, hstop.1, hstop.2,
    List.append_nil]

theorem isDigit_of_mem_takeDigits {cs : List Char} : ∀ c ∈ (takeDigits cs).1, c.isDigit :=
  fun _ hc => List.mem_takeWhile_imp hc

theorem takeDigits_append_self (cs : List Char) : (takeDigits cs).1 ++ (takeDigits cs).2 = cs :=
  List.takeWhile_append_dropWhile

/-! ## Exponents -/

theorem isSome_exponent?_cons_iff {mark : Char} {rest : List Char} :
    (exponent? (mark :: rest)).isSome ↔
      (mark = 'e' ∨ mark = 'E') ∧ (takeDigits (takeSign rest).2).1 ≠ [] ∧
        (takeDigits (takeSign rest).2).2 = [] := by
  have heq : exponent? (mark :: rest) =
      if (mark = 'e' ∨ mark = 'E') ∧ (takeDigits (takeSign rest).2).1 ≠ [] ∧
          (takeDigits (takeSign rest).2).2 = [] then
        some (Double.signed (takeSign rest).1 (ofDigits (takeDigits (takeSign rest).2).1))
      else none := rfl
  rw [heq, Option.isSome_ite]

theorem isSign_of_isDigit {c : Char} (h : c.isDigit) : isSign c = false := by
  have hplus : c ≠ '+' := by
    rintro rfl
    exact absurd h (by decide)
  have hminus : c ≠ '-' := by
    rintro rfl
    exact absurd h (by decide)
  simp [isSign, hplus, hminus]

theorem notAhead_isSign_of_digits {digits rest : List Char} (hdigits : ∀ c ∈ digits, c.isDigit)
    (hsome : digits ≠ []) : NotAhead isSign (digits ++ rest) := by
  obtain ⟨c, digits', rfl⟩ := List.exists_cons_of_ne_nil hsome
  intro c' hc'
  obtain rfl : c = c' := Option.some.inj hc'
  exact isSign_of_isDigit (hdigits c (List.mem_cons_self ..))

theorem isSome_exponent?_iff {cs : List Char} : (exponent? cs).isSome ↔ IsExponent cs := by
  constructor
  · intro h
    cases cs with
    | nil => exact .none
    | cons mark rest =>
      obtain ⟨hmark, hdigits, hend⟩ := isSome_exponent?_cons_iff.mp h
      obtain ⟨sign, hsign, hrest⟩ := exists_sign rest
      have hwhole := takeDigits_append_self (takeSign rest).2
      rw [hend, List.append_nil] at hwhole
      rw [hrest, ← hwhole]
      exact .some hmark hsign isDigit_of_mem_takeDigits hdigits
  · intro h
    cases h with
    | none => rfl
    | @some mark sign digits hmark hsign hdigits hsome =>
      have hahead : NotAhead isSign (digits ++ []) := notAhead_isSign_of_digits hdigits hsome
      rw [List.append_nil] at hahead
      have hparts : takeDigits (digits ++ []) = (digits, []) :=
        takeDigits_append hdigits fun _ h => by cases h
      rw [List.append_nil] at hparts
      rw [isSome_exponent?_cons_iff, takeSign_append hsign hahead, hparts]
      exact ⟨hmark, hsome, rfl⟩

/-! ## Numerals -/

/-- What stands behind the sign. -/
def unsigned (cs : List Char) : List Char := (takeSign cs).2

/-- The digits in front of the point, and what stands behind them. -/
def whole (cs : List Char) : List Char × List Char := takeDigits (unsigned cs)

/-- The digits behind the point, and what stands behind those. -/
def fraction (cs : List Char) : List Char × List Char := takeFraction (whole cs).2

theorem isSome_parse?_parts {cs : List Char} :
    (parse? cs).isSome ↔
      (whole cs).1 ++ (fraction cs).1 ≠ [] ∧ (exponent? (fraction cs).2).isSome := by
  have heq : parse? cs =
      if (whole cs).1 ++ (fraction cs).1 = [] then none
      else (exponent? (fraction cs).2).map fun exponent =>
        { negative := (takeSign cs).1, digits := ofDigits ((whole cs).1 ++ (fraction cs).1),
          exponent := exponent - (fraction cs).1.length } := rfl
  rw [heq]
  split
  · next h => simp [h]
  · next h => simp [h]

theorem IsExponent.notAhead {cs : List Char} (h : IsExponent cs) :
    NotAhead Char.isDigit cs ∧ NotAhead (· = '.') cs := by
  cases h with
  | none =>
    constructor
    all_goals
      intro c hc
      cases hc
  | some hmark =>
    constructor
    all_goals
      intro c hc
      cases hc
      rcases hmark with rfl | rfl <;> decide

theorem takeFraction_of_notAhead {cs : List Char} (h : NotAhead (· = '.') cs) :
    takeFraction cs = ([], cs) := by
  cases cs with
  | nil => rfl
  | cons c cs =>
    have hc : c ≠ '.' := by simpa using h c rfl
    rw [takeFraction]
    intro rest heq
    cases heq
    exact hc rfl

/-- With digits in front of a point or behind it, a text begins with a mantissa. -/
theorem exists_mantissa {cs : List Char}
    (hsome : (takeDigits cs).1 ++ (takeFraction (takeDigits cs).2).1 ≠ []) :
    ∃ mantissa, IsMantissa mantissa ∧ cs = mantissa ++ (takeFraction (takeDigits cs).2).2 := by
  have hsplit := takeDigits_append_self cs
  -- without a point there is no fraction, and all that is taken are the digits in front
  by_cases hpoint : ∃ rest, (takeDigits cs).2 = '.' :: rest
  · obtain ⟨rest, hrest⟩ := hpoint
    have hfraction : takeFraction (takeDigits cs).2 = takeDigits rest := by rw [hrest]; rfl
    rw [hfraction] at hsome ⊢
    refine ⟨_, .point isDigit_of_mem_takeDigits isDigit_of_mem_takeDigits hsome, ?_⟩
    rw [List.append_assoc, List.cons_append, takeDigits_append_self, ← hrest, hsplit]
  · have hnone : takeFraction (takeDigits cs).2 = ([], (takeDigits cs).2) := by
      rw [takeFraction]
      intro rest hrest
      exact hpoint ⟨rest, hrest⟩
    rw [hnone] at hsome ⊢
    rw [List.append_nil] at hsome
    exact ⟨_, .digits isDigit_of_mem_takeDigits hsome, hsplit.symm⟩

theorem IsMantissa.notAhead_isSign {mantissa rest : List Char} (h : IsMantissa mantissa) :
    NotAhead isSign (mantissa ++ rest) := by
  cases h with
  | digits hwhole hsome => exact notAhead_isSign_of_digits hwhole hsome
  | @point whole fraction hwhole =>
    cases whole with
    | nil =>
      intro c hc
      cases hc
      decide
    | cons c whole =>
      rw [List.append_assoc]
      exact notAhead_isSign_of_digits hwhole (List.cons_ne_nil c whole)

/-- A mantissa in front is taken whole, and gives at least one digit. -/
theorem takeFraction_takeDigits_append {mantissa rest : List Char} (h : IsMantissa mantissa)
    (hdigit : NotAhead Char.isDigit rest) (hpoint : NotAhead (· = '.') rest) :
    (takeDigits (mantissa ++ rest)).1 ++ (takeFraction (takeDigits (mantissa ++ rest)).2).1 ≠ [] ∧
      (takeFraction (takeDigits (mantissa ++ rest)).2).2 = rest := by
  cases h with
  | digits hwhole hsome =>
    rw [takeDigits_append hwhole hdigit, takeFraction_of_notAhead hpoint, List.append_nil]
    exact ⟨hsome, rfl⟩
  | @point whole fraction hwhole hfraction hsome =>
    have hahead : NotAhead Char.isDigit ('.' :: (fraction ++ rest)) := by
      intro c hc
      cases hc
      decide
    have htail : takeFraction ('.' :: (fraction ++ rest)) = (fraction, rest) :=
      takeDigits_append hfraction hdigit
    rw [List.append_assoc, List.cons_append, takeDigits_append hwhole hahead, htail]
    exact ⟨hsome, rfl⟩

/-- **Numerals.** What is read as a numeral is what the grammar says is one. -/
theorem isSome_parse?_iff {cs : List Char} : (parse? cs).isSome ↔ IsDecimal cs := by
  rw [isSome_parse?_parts, isSome_exponent?_iff]
  constructor
  · rintro ⟨hsome, hexponent⟩
    obtain ⟨sign, hsign, hcs⟩ := exists_sign cs
    obtain ⟨mantissa, hmantissa, hrest⟩ := exists_mantissa hsome
    have hunsigned : (takeSign cs).2 = mantissa ++ (fraction cs).2 := hrest
    rw [hcs, hunsigned]
    exact .intro hsign hmantissa hexponent
  · rintro @⟨sign, mantissa, exponent, hsign, hmantissa, hexponent⟩
    -- each step stops where its part ends, as the next part begins with something else
    obtain ⟨hdigit, hpoint⟩ := hexponent.notAhead
    have hunsigned : (takeSign (sign ++ (mantissa ++ exponent))).2 = mantissa ++ exponent :=
      takeSign_append hsign hmantissa.notAhead_isSign
    obtain ⟨hsome, hend⟩ := takeFraction_takeDigits_append hmantissa hdigit hpoint
    unfold fraction whole unsigned
    rw [hunsigned, hend]
    exact ⟨hsome, hexponent⟩

/-! ## Numerals among the texts of floats -/

/-- Whether a character can stand in a numeral. -/
def isPart (c : Char) : Bool := c.isDigit || isSign c || c = '.' || c = 'e' || c = 'E'

/-- The words for what is not finite, in small letters. -/
def words : List (List Char) := ["inf".toList, "infinity".toList, "nan".toList]

/-- A numeral, or a word in letters of any size behind a sign. -/
inductive IsFloat : List Char → Prop where
  | decimal {cs : List Char} (h : IsDecimal cs) : IsFloat cs
  | word {sign word : List Char} (hsign : IsSign sign) (hword : word.map Char.toLower ∈ words) :
      IsFloat (sign ++ word)

theorem IsSign.isSign {sign : List Char} (h : IsSign sign) : ∀ c ∈ sign, isSign c := by
  intro c hc
  cases h with
  | none => cases hc
  | plus =>
    obtain rfl := List.mem_singleton.mp hc
    rfl
  | minus =>
    obtain rfl := List.mem_singleton.mp hc
    rfl

theorem IsDecimal.isPart {cs : List Char} (h : IsDecimal cs) : ∀ c ∈ cs, isPart c := by
  have ofDigit {c : Char} (hc : c.isDigit) : Numeral.isPart c := by simp [Numeral.isPart, hc]
  have ofSign {c : Char} (hc : Numeral.isSign c) : Numeral.isPart c := by simp [Numeral.isPart, hc]
  obtain @⟨sign, mantissa, exponent, hsign, hmantissa, hexponent⟩ := h
  intro c hc
  rcases List.mem_append.mp hc with hc | hc
  · exact ofSign (hsign.isSign c hc)
  rcases List.mem_append.mp hc with hc | hc
  · cases hmantissa with
    | digits hwhole => exact ofDigit (hwhole c hc)
    | point hwhole hfraction =>
      rcases List.mem_append.mp hc with hc | hc
      · exact ofDigit (hwhole c hc)
      rcases List.mem_cons.mp hc with rfl | hc
      · decide
      · exact ofDigit (hfraction c hc)
  · cases hexponent with
    | none => cases hc
    | some hmark hsign hdigits =>
      rcases List.mem_cons.mp hc with rfl | hc
      · rcases hmark with rfl | rfl <;> decide
      rcases List.mem_append.mp hc with hc | hc
      · exact ofSign (hsign.isSign c hc)
      · exact ofDigit (hdigits c hc)

theorem toNat_of_isDigit {c : Char} (h : c.isDigit) : 48 ≤ c.toNat ∧ c.toNat ≤ 57 := by
  rw [Char.isDigit, Bool.and_eq_true, decide_eq_true_eq, decide_eq_true_eq] at h
  exact h

theorem toLower_of_isDigit {c : Char} (h : c.isDigit) : c.toLower = c := by
  refine dif_neg fun hupper => ?_
  have hletter : 65 ≤ c.toNat := hupper.1
  have hdigit := toNat_of_isDigit h
  omega

/-- All words have the letter `n`, and no numeral has it. -/
theorem toLower_ne_of_isPart {c : Char} (h : isPart c) : c.toLower ≠ 'n' := by
  simp only [isPart, isSign, Bool.or_eq_true, decide_eq_true_eq] at h
  rcases h with (((h | rfl | rfl) | rfl) | rfl) | rfl
  · rw [toLower_of_isDigit h]
    rintro rfl
    exact absurd h (by decide)
  all_goals decide

/-- **The filter.** Numerals are the texts of floats that have no characters but those of
numerals. -/
theorem isDecimal_iff_filtered {cs : List Char} :
    IsDecimal cs ↔ (∀ c ∈ cs, isPart c) ∧ IsFloat cs := by
  constructor
  · intro h
    exact ⟨h.isPart, .decimal h⟩
  · rintro ⟨hparts, h⟩
    cases h with
    | decimal h => exact h
    | @word sign word _ hword =>
      have hn : 'n' ∈ word.map Char.toLower := by
        simp only [words, List.mem_cons, List.not_mem_nil, or_false] at hword
        rcases hword with h | h | h <;> rw [h] <;> decide
      obtain ⟨c, hc, hlower⟩ := List.mem_map.mp hn
      exact absurd hlower (toLower_ne_of_isPart (hparts c (List.mem_append_right sign hc)))

end Swf.Numeral
