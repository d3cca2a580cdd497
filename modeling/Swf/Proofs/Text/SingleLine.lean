import Mathlib.Data.List.DropRight
import Swf.Listing.Summary
import Swf.Text.Blank

/-!
# Texts on one line

Numbers, quoted texts and texts made of these hold no line break (`Text.SingleLine`). Cutting off
the white space at the end of a text can remove line breaks, but none with something visible behind
it.
-/

namespace Swf

namespace Text

/-! ## White space at the end -/

section trimEnd

variable {cs ds : List Char} {c : Char}

theorem trimEnd_eq_rdropWhile (cs : List Char) : trimEnd cs = cs.rdropWhile isBlank := rfl

theorem trimEnd_append (cs ds : List Char) :
    trimEnd (cs ++ ds) = if trimEnd ds = [] then trimEnd cs else cs ++ trimEnd ds := by
  unfold trimEnd
  simp only [List.reverse_append, List.dropWhile_append, List.reverse_eq_nil_iff,
    List.isEmpty_iff]
  split
  · rfl
  · rw [List.reverse_append, List.reverse_reverse]

theorem trimEnd_ne_nil (hmem : c ∈ cs) (h : isBlank c = false) : trimEnd cs ≠ [] := by
  rw [trimEnd_eq_rdropWhile, Ne, List.rdropWhile_eq_nil_iff]
  intro hall
  exact absurd (hall c hmem) (by simp [h])

theorem trimEnd_eq_self (h : ∀ c ∈ cs, isBlank c = false) : trimEnd cs = cs := by
  rw [trimEnd_eq_rdropWhile, List.rdropWhile_eq_self_iff]
  intro hne
  simp [h _ (List.getLast_mem hne)]

/-- What ends visibly is not cut, whatever follows. -/
theorem trimEnd_append_of_visible (h : trimEnd cs = cs) :
    trimEnd (cs ++ ds) = cs ++ trimEnd ds := by
  rw [trimEnd_append]
  split
  · next hnil => rw [h, hnil, List.append_nil]
  · rfl

theorem mem_of_mem_trimEnd (h : c ∈ trimEnd cs) : c ∈ cs :=
  (List.rdropWhile_prefix isBlank cs).subset h

/-- Whether a character is cut off at the end depends on what is behind it only. -/
theorem mem_trimEnd_append_iff (h : c ∉ cs) : c ∈ trimEnd (cs ++ ds) ↔ c ∈ trimEnd ds := by
  rw [trimEnd_append]
  split
  · next hnil =>
    rw [hnil]
    exact ⟨fun hc => absurd (mem_of_mem_trimEnd hc) h, fun hc => by cases hc⟩
  · rw [List.mem_append]
    exact or_iff_right h

end trimEnd

/-! ## No line breaks -/

/-- The text holds no line break. -/
def SingleLine (text : String) : Prop := '\n' ∉ text.toList

instance (text : String) : Decidable (SingleLine text) := inferInstanceAs (Decidable (_ ∉ _))

variable {s t : String}

@[simp] theorem singleLine_append : SingleLine (s ++ t) ↔ SingleLine s ∧ SingleLine t := by
  simp [SingleLine, not_or]

@[simp] theorem singleLine_ofList {cs : List Char} : SingleLine (String.ofList cs) ↔ '\n' ∉ cs := by
  simp [SingleLine]

@[simp] theorem singleLine_toString : SingleLine (toString s) ↔ SingleLine s := Iff.rfl

theorem singleLine_join {texts : List String} (h : ∀ text ∈ texts, SingleLine text) :
    SingleLine (String.join texts) := by
  unfold SingleLine
  rw [String.toList_join, List.mem_flatMap]
  rintro ⟨text, hmem, hbreak⟩
  exact h text hmem hbreak

theorem singleLine_intercalate {texts : List String} (hs : SingleLine s)
    (h : ∀ text ∈ texts, SingleLine text) : SingleLine (s.intercalate texts) := by
  induction texts with
  | nil => exact List.not_mem_nil
  | cons first rest ih =>
    have hfirst := h first (List.mem_cons_self ..)
    have hrest := ih fun text htext => h text (List.mem_cons_of_mem _ htext)
    cases rest with
    | nil =>
      rw [String.intercalate_singleton]
      exact hfirst
    | cons second rest =>
      rw [String.intercalate_cons_cons, singleLine_append, singleLine_append]
      exact ⟨⟨hfirst, hs⟩, hrest⟩

/-! ## Numbers -/

theorem isBlank_digitChar {digit : Nat} (h : digit < 16) :
    isBlank (Nat.digitChar digit) = false := by
  have hall : ∀ digit : Fin 16, isBlank (Nat.digitChar digit) = false := by decide
  exact hall ⟨digit, h⟩

theorem exists_digitChar {base n : Nat} {c : Char} (hbase : 1 < base)
    (h : c ∈ Nat.toDigits base n) : ∃ digit < base, c = Nat.digitChar digit := by
  induction n using Nat.strongRecOn with
  | ind n ih =>
    rw [Nat.toDigits_eq_if hbase] at h
    split at h
    · next hsmall => exact ⟨n, hsmall, List.mem_singleton.mp h⟩
    · next hlarge =>
      rcases List.mem_append.mp h with h | h
      · exact ih (n / base) (Nat.div_lt_self (by omega) hbase) h
      · exact ⟨n % base, Nat.mod_lt _ (by omega), List.mem_singleton.mp h⟩

theorem isBlank_of_mem_toDigits {base n : Nat} {c : Char} (hbase : 1 < base) (hle : base ≤ 16)
    (h : c ∈ Nat.toDigits base n) : isBlank c = false := by
  obtain ⟨digit, hdigit, rfl⟩ := exists_digitChar hbase h
  exact isBlank_digitChar (by omega)

theorem singleLine_of_visible (h : ∀ c ∈ s.toList, isBlank c = false) : SingleLine s :=
  fun hmem => absurd (h _ hmem) (by decide)

theorem isBlank_of_mem_repr {n : Nat} {c : Char} (h : c ∈ n.repr.toList) : isBlank c = false := by
  rw [Nat.toList_repr] at h
  exact isBlank_of_mem_toDigits (by decide) (by decide) h

@[simp] theorem singleLine_repr (n : Nat) : SingleLine n.repr :=
  singleLine_of_visible fun _ => isBlank_of_mem_repr

@[simp] theorem singleLine_int_repr (n : Int) : SingleLine n.repr := by
  cases n with
  | ofNat n => exact singleLine_repr n
  | negSucc n => exact singleLine_append.mpr ⟨by decide, singleLine_repr (n + 1)⟩

@[simp] theorem singleLine_hexadecimal (n : Nat) : SingleLine (hexadecimal n) := by
  refine singleLine_of_visible fun c hc => ?_
  unfold hexadecimal at hc
  rw [String.toList_ofList] at hc
  exact isBlank_of_mem_toDigits (by decide) (by decide) hc

@[simp] theorem singleLine_hexByte (b : UInt8) : SingleLine (hexByte b) := by
  have hb := b.toNat_lt
  refine singleLine_of_visible fun c hc => ?_
  unfold hexByte at hc
  rw [String.toList_ofList] at hc
  rcases List.mem_pair.mp hc with rfl | rfl
  · exact isBlank_digitChar (by omega)
  · exact isBlank_digitChar (by omega)

/-! ## Quoted text -/

theorem singleLine_quotedChar (c : Char) : SingleLine (quotedChar c) := by
  unfold quotedChar
  iterate 6
    split
    · decide
  split
  · simp only [singleLine_append]
    exact ⟨⟨by decide, singleLine_hexadecimal _⟩, by decide⟩
  · rename_i hbreak _ _ _ _
    have hchars : c.toString.toList = [c] := by simp
    unfold SingleLine
    rw [hchars, List.mem_singleton]
    exact fun heq => hbreak heq.symm

@[simp] theorem singleLine_quoted (text : String) : SingleLine (quoted text) := by
  unfold quoted
  simp only [singleLine_append]
  refine ⟨⟨by decide, singleLine_join fun piece hpiece => ?_⟩, by decide⟩
  obtain ⟨c, -, rfl⟩ := List.mem_map.mp hpiece
  exact singleLine_quotedChar c

end Text

end Swf
