import Swf.Abc.Fold
import Swf.Proofs.Number.Numeral
import Swf.Proofs.Text.SingleLine

/-!
# Strings that stand for numbers

In ECMAScript a string stands for a number if there is nothing or a literal between the white space
at its ends (`Constant.IsNumeric`). A constant gets a number in the same way, but what is cut off at
its ends is white space by the property of that name (`isSome_toNumber?_string_iff`). The two kinds
of white space differ in two characters. The byte order mark is white space in ECMAScript only, so a
string with one at an end is left alone, which does no harm. The next line is white space by the
property only: a string with one at an end gets a number and should have none
(`numeric_iff_nextLine_notMem`).
-/

namespace Swf

namespace Text

/-! ## Two kinds of white space -/

/-- The control character for a next line. -/
def nextLine : Char := '\u0085'

/-- Whether a character is a space separator, by its general category. -/
def isSeparator (c : Char) : Bool :=
  let n := c.toNat
  n == 0x20 || n == 0xA0 || n == 0x1680 || (0x2000 ≤ n && n ≤ 0x200A) || n == 0x202F ||
    n == 0x205F || n == 0x3000

/-- Whether a character is white space or a line terminator in ECMAScript. -/
def isSpace (c : Char) : Bool :=
  let n := c.toNat
  (9 ≤ n && n ≤ 13) || n == 0xFEFF || n == 0x2028 || n == 0x2029 || isSeparator c

theorem isBlank_iff {c : Char} :
    isBlank c ↔ (isSpace c ∧ c ≠ '\uFEFF') ∨ c = nextLine := by
  have hmark : c = '\uFEFF' ↔ c.toNat = 0xFEFF := Char.toNat_inj.symm
  have hnext : c = nextLine ↔ c.toNat = 0x85 := Char.toNat_inj.symm
  simp only [isBlank, isSpace, isSeparator, ne_eq, hmark, hnext, Bool.or_eq_true, Bool.and_eq_true,
    decide_eq_true_eq, beq_iff_eq]
  omega

theorem isSpace_nextLine : isSpace nextLine = false := by decide

/-! ## Between white space -/

section Framed

variable {kind : Char → Bool} {Body : List Char → Prop} {cs : List Char}

/-- Between characters of a kind, a text is nothing or a body. -/
def Framed (kind : Char → Bool) (Body : List Char → Prop) (cs : List Char) : Prop :=
  ∃ front body back : List Char, (∀ c ∈ front, kind c) ∧ (body = [] ∨ Body body) ∧
    (∀ c ∈ back, kind c) ∧ cs = front ++ (body ++ back)

theorem exists_trimEnd (cs : List Char) :
    ∃ back : List Char, (∀ c ∈ back, isBlank c) ∧ cs = trimEnd cs ++ back := by
  refine ⟨cs.rtakeWhile isBlank, fun c hc => List.mem_rtakeWhile_imp hc, ?_⟩
  have hsplit := List.takeWhile_append_dropWhile (p := isBlank) (l := cs.reverse)
  rw [trimEnd, List.rtakeWhile, ← List.reverse_append, hsplit, List.reverse_reverse]

theorem exists_trim (cs : List Char) :
    ∃ front back : List Char, (∀ c ∈ front, isBlank c) ∧ (∀ c ∈ back, isBlank c) ∧
      cs = front ++ (trim cs ++ back) := by
  obtain ⟨back, hback, hrest⟩ := exists_trimEnd (cs.dropWhile isBlank)
  refine ⟨cs.takeWhile isBlank, back, fun c hc => List.mem_takeWhile_imp hc, hback, ?_⟩
  rw [trim, ← hrest, List.takeWhile_append_dropWhile]

theorem trimEnd_eq_nil (h : ∀ c ∈ cs, isBlank c) : trimEnd cs = [] := by
  rw [trimEnd_eq_rdropWhile, List.rdropWhile_eq_nil_iff]
  exact h

/-- What is visible all through is what is left between white space. -/
theorem trim_append {front body back : List Char} (hfront : ∀ c ∈ front, isBlank c)
    (hbody : ∀ c ∈ body, isBlank c = false) (hback : ∀ c ∈ back, isBlank c) :
    trim (front ++ (body ++ back)) = body := by
  unfold trim
  rw [List.dropWhile_append_of_pos hfront]
  cases body with
  | nil => rw [List.nil_append, List.dropWhile_eq_nil_iff.mpr hback, trimEnd_eq_nil (by simp)]
  | cons c body =>
    have hc : ¬ isBlank c = true := by simp [hbody c (List.mem_cons_self ..)]
    rw [List.cons_append, List.dropWhile_cons_of_neg hc, ← List.cons_append,
      trimEnd_append_of_visible (trimEnd_eq_self hbody), trimEnd_eq_nil hback, List.append_nil]

theorem framed_isBlank_iff (hvisible : ∀ body, Body body → ∀ c ∈ body, isBlank c = false) :
    Framed isBlank Body cs ↔ trim cs = [] ∨ Body (trim cs) := by
  constructor
  · rintro ⟨front, body, back, hfront, hbody, hback, rfl⟩
    have hvisible : ∀ c ∈ body, isBlank c = false := by
      rcases hbody with rfl | hbody
      · simp
      · exact hvisible body hbody
    rwa [trim_append hfront hvisible hback]
  · intro h
    obtain ⟨front, back, hfront, hback, hcs⟩ := exists_trim cs
    exact ⟨front, trim cs, back, hfront, h, hback, hcs⟩

theorem Framed.mono {Body' : List Char → Prop} (h : Framed kind Body cs)
    (hbody : ∀ body, Body body → Body' body) : Framed kind Body' cs := by
  obtain ⟨front, body, back, hfront, hbody', hback, hcs⟩ := h
  exact ⟨front, body, back, hfront, hbody'.imp_right (hbody body), hback, hcs⟩

/-- Without a next line in it, a text between white space by the property is one between white
space of ECMAScript. -/
theorem Framed.isSpace (h : Framed isBlank Body cs) (hnext : nextLine ∉ cs) :
    Framed isSpace Body cs := by
  obtain ⟨front, body, back, hfront, hbody, hback, rfl⟩ := h
  have hspace {c : Char} (hblank : isBlank c) (hc : c ∈ front ++ (body ++ back)) :
      Text.isSpace c := by
    rcases isBlank_iff.mp hblank with ⟨hspace, -⟩ | rfl
    · exact hspace
    · exact absurd hc hnext
  refine ⟨front, body, back, fun c hc => hspace (hfront c hc) ?_, hbody,
    fun c hc => hspace (hback c hc) ?_, rfl⟩
  · exact List.mem_append_left _ hc
  · exact List.mem_append_right _ (List.mem_append_right _ hc)

theorem Framed.nextLine_notMem (h : Framed Text.isSpace Body cs)
    (hbody : ∀ body, Body body → nextLine ∉ body) : nextLine ∉ cs := by
  obtain ⟨front, body, back, hfront, hbody', hback, rfl⟩ := h
  have hspace {ds : List Char} (hds : ∀ c ∈ ds, Text.isSpace c) : nextLine ∉ ds := by
    intro hc
    exact absurd (hds nextLine hc) (by simp [isSpace_nextLine])
  have hbody' : nextLine ∉ body := by
    rcases hbody' with rfl | hbody'
    · simp
    · exact hbody body hbody'
  simp only [List.mem_append, not_or]
  exact ⟨hspace hfront, hbody', hspace hback⟩

end Framed

end Text

namespace Numeral

/-! ## Literals -/

/-- Whether a character is a digit of the base that a mark stands for. -/
def isRadixDigit (mark c : Char) : Bool :=
  match mark with
  | 'b' | 'B' => '0' ≤ c && c ≤ '1'
  | 'o' | 'O' => '0' ≤ c && c ≤ '7'
  | 'x' | 'X' => c.isDigit || ('a' ≤ c && c ≤ 'f') || ('A' ≤ c && c ≤ 'F')
  | _ => false

/-- What ECMAScript takes for a number in a string: a decimal numeral, `Infinity` behind a sign, or
digits of another base. -/
inductive IsLiteral : List Char → Prop where
  | decimal {cs : List Char} (h : IsDecimal cs) : IsLiteral cs
  | infinity {sign : List Char} (hsign : IsSign sign) : IsLiteral (sign ++ "Infinity".toList)
  | radix {mark : Char} {digits : List Char} (hdigits : ∀ c ∈ digits, isRadixDigit mark c)
      (hsome : digits ≠ []) : IsLiteral ('0' :: mark :: digits)

theorem isBlank_eq_false_of_isPart {c : Char} (h : isPart c) : Text.isBlank c = false := by
  simp only [isPart, isSign, Bool.or_eq_true, decide_eq_true_eq] at h
  rcases h with (((h | rfl | rfl) | rfl) | rfl) | rfl
  · have hdigit := toNat_of_isDigit h
    rw [← Bool.not_eq_true]
    simp only [Text.isBlank, Bool.or_eq_true, Bool.and_eq_true, decide_eq_true_eq, beq_iff_eq]
    omega
  all_goals decide

/-- Numerals are visible all through. -/
theorem framed_isDecimal_iff {cs : List Char} :
    Text.Framed Text.isBlank IsDecimal cs ↔ Text.trim cs = [] ∨ IsDecimal (Text.trim cs) :=
  Text.framed_isBlank_iff fun _ hbody c hc => isBlank_eq_false_of_isPart (hbody.isPart c hc)

theorem IsLiteral.nextLine_notMem {cs : List Char} (h : IsLiteral cs) : Text.nextLine ∉ cs := by
  intro hmem
  cases h with
  | decimal h => exact absurd (h.isPart _ hmem) (by decide)
  | infinity hsign =>
    rcases List.mem_append.mp hmem with hmem | hmem
    · exact absurd (hsign.isSign _ hmem) (by decide)
    · exact absurd hmem (by decide)
  | @radix mark digits hdigits hsome =>
    rcases List.mem_cons.mp hmem with hmem | hmem
    · exact absurd hmem (by decide)
    rcases List.mem_cons.mp hmem with rfl | hmem
    · -- A next line is the mark of no base.
      obtain ⟨c, digits', rfl⟩ := List.exists_cons_of_ne_nil hsome
      exact absurd (hdigits c (List.mem_cons_self ..)) Bool.false_ne_true
    · have hdigit := hdigits _ hmem
      unfold isRadixDigit at hdigit
      split at hdigit
      all_goals exact absurd hdigit (by decide)

end Numeral

namespace Abc.Constant

open Numeral Text

/-! ## Numbers of strings -/

variable {text : String}

/-- Whether ECMAScript takes a string for a number. -/
def IsNumeric (text : String) : Prop := Framed isSpace IsLiteral text.toList

/-- Whether ECMAScript takes a string for a number that is nothing or a decimal numeral. -/
def IsDecimalNumeric (text : String) : Prop := Framed isSpace IsDecimal text.toList

/-- The strings with a number are those that are nothing or a decimal numeral between white space
by the property. -/
theorem isSome_toNumber?_string_iff :
    (Constant.string text).toNumber?.isSome ↔ Framed isBlank IsDecimal text.toList := by
  rw [framed_isDecimal_iff, ← isSome_parse?_iff]
  show (numberOfString? text).isSome ↔ _
  unfold numberOfString?
  split
  · next h => simp [h]
  · next h => rw [Option.isSome_map, or_iff_right h]

/-- The same step by step: what is left of the string has no characters but those of numerals, and
is the text of a float. -/
theorem isSome_toNumber?_string_iff_filtered :
    (Constant.string text).toNumber?.isSome ↔
      trim text.toList = [] ∨
        ((∀ c ∈ trim text.toList, isPart c) ∧ IsFloat (trim text.toList)) := by
  rw [isSome_toNumber?_string_iff, framed_isDecimal_iff, isDecimal_iff_filtered]

/-- **Numeric strings.** A string that gets a number is one that ECMAScript takes for a number, and
then for a decimal one, unless it has a next line in it. -/
theorem numeric_iff_nextLine_notMem (h : (Constant.string text).toNumber?.isSome) :
    (IsDecimalNumeric text ↔ nextLine ∉ text.toList) ∧
      (IsNumeric text ↔ nextLine ∉ text.toList) := by
  have hframed := isSome_toNumber?_string_iff.mp h
  have hdecimal (hnext : nextLine ∉ text.toList) : IsDecimalNumeric text := hframed.isSpace hnext
  have hnumeric (hdecimal : IsDecimalNumeric text) : IsNumeric text :=
    hdecimal.mono fun body => IsLiteral.decimal
  have hnext (hnumeric : IsNumeric text) : nextLine ∉ text.toList :=
    hnumeric.nextLine_notMem fun body => IsLiteral.nextLine_notMem
  exact ⟨⟨fun h => hnext (hnumeric h), hdecimal⟩, ⟨hnext, fun h => hnumeric (hdecimal h)⟩⟩

/-- White space of many kinds around a numeral. -/
theorem numeric_iff_nextLine_notMem_spaces :
    (Constant.string "\u3000\t-12.e+3\u2029 ").toNumber?.isSome ∧
      IsDecimalNumeric "\u3000\t-12.e+3\u2029 " ∧ IsNumeric "\u3000\t-12.e+3\u2029 " := by
  have h : (Constant.string "\u3000\t-12.e+3\u2029 ").toNumber?.isSome := by decide +kernel
  have hnext : nextLine ∉ "\u3000\t-12.e+3\u2029 ".toList := by decide
  obtain ⟨hdecimal, hnumeric⟩ := numeric_iff_nextLine_notMem h
  exact ⟨h, hdecimal.mpr hnext, hnumeric.mpr hnext⟩

/-- **The exception.** A conversion of a next line and a one is folded to one, although ECMAScript
does not take the string for a number. -/
theorem fold_toNumber_of_nextLine :
    (Constant.string "\u00851").toNumber? = some (Double.ofInt 1) ∧
      (Expr.convert (.constant (.string "\u00851")) .toNumber).fold =
        .constant (.number (Double.ofInt 1)) ∧
      ¬ IsDecimalNumeric "\u00851" ∧ ¬ IsNumeric "\u00851" := by
  have hnumber : (Constant.string "\u00851").toNumber? = some (Double.ofInt 1) := by decide +kernel
  have hmem : nextLine ∈ "\u00851".toList := by decide
  refine ⟨hnumber, by decide +kernel, fun h => ?_, fun h => ?_⟩
  · exact h.nextLine_notMem (fun body hbody => (IsLiteral.decimal hbody).nextLine_notMem) hmem
  · exact h.nextLine_notMem (fun body => IsLiteral.nextLine_notMem) hmem

end Abc.Constant

end Swf
