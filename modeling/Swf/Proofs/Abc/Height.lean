import Swf.Proofs.Abc.Semantics

/-!
# How high the stack gets

How many values an operation pops and pushes does not hang on the values. So the height of the stack
behind code is a sum over its operations (`height`), and whether any of them finds too few values is
a question about such sums (`Fits`). Where none does, a machine runs through and its stack has that
height (`Interpretation.run_of_fits`), and the scan of `maxStack`, which stops every pop at the
bottom of the stack, gives the greatest height on the way (`Profile.maxStack_eq`).

A `Profile` is what code does to the height: how much it adds, and how high it gets in between. Code
in sequence adds up (`Profile.append`), and that is all that the code of expressions and statements
is made of.
-/

namespace Swf.Abc

/-! ## Heights -/

/-- What an operation adds to the height of the stack. -/
def Op.effect (op : Op) : Int := op.pushes - op.pops

/-- The height of the stack behind code, if it is empty in front of it. -/
def height : List Op → Int
  | [] => 0
  | op :: code => op.effect + height code

@[simp] theorem height_nil : height [] = 0 := rfl

@[simp] theorem height_cons (op : Op) (code : List Op) :
    height (op :: code) = op.effect + height code := rfl

@[simp] theorem height_append (xs ys : List Op) : height (xs ++ ys) = height xs + height ys := by
  induction xs with
  | nil => simp
  | cons op xs ih => rw [List.cons_append, height_cons, ih, height_cons, Int.add_assoc]

/-- An operation that finds enough values adds its effect. -/
theorem Op.depthAfter_eq {op : Op} {depth : Nat} (h : op.pops ≤ depth) :
    (op.depthAfter depth : Int) = depth + op.effect := by
  unfold depthAfter effect
  omega

/-- No operation finds too few values, if there are `depth` of them in front of the code. -/
def Fits (depth : Int) (code : List Op) : Prop :=
  ∀ before op after, code = before ++ op :: after → (op.pops : Int) ≤ depth + height before

theorem fits_nil (depth : Int) : Fits depth [] := by
  intro before op after h
  simp at h

theorem fits_cons {depth : Int} {op : Op} {code : List Op} :
    Fits depth (op :: code) ↔ op.pops ≤ depth ∧ Fits (depth + op.effect) code := by
  constructor
  · intro h
    refine ⟨by simpa using h [] op code rfl, fun before op' after heq => ?_⟩
    have := h (op :: before) op' after (by rw [heq]; rfl)
    rwa [height_cons, ← Int.add_assoc] at this
  · rintro ⟨hop, hcode⟩ before op' after heq
    cases before with
    | nil =>
      obtain ⟨rfl, -⟩ := List.cons.inj heq
      simpa using hop
    | cons first before =>
      obtain ⟨rfl, hrest⟩ := List.cons.inj heq
      rw [height_cons, ← Int.add_assoc]
      exact hcode before op' after hrest

/-- Values further down do no harm. -/
theorem Fits.mono {depth depth' : Int} {code : List Op} (h : Fits depth code)
    (hle : depth ≤ depth') : Fits depth' code := fun before op after heq =>
  Int.le_trans (h before op after heq) (by omega)

theorem Fits.append {depth : Int} {xs ys : List Op} (hx : Fits depth xs)
    (hy : Fits (depth + height xs) ys) : Fits depth (xs ++ ys) := by
  induction xs generalizing depth with
  | nil => simpa using hy
  | cons op xs ih =>
    obtain ⟨hop, hxs⟩ := fits_cons.mp hx
    rw [height_cons, ← Int.add_assoc] at hy
    exact fits_cons.mpr ⟨hop, ih hxs hy⟩

/-! ## The greatest height -/

theorem le_peakFrom (code : List Op) (depth peak : Nat) : peak ≤ peakFrom depth peak code := by
  induction code generalizing depth peak with
  | nil => exact Nat.le_refl peak
  | cons op code ih => exact Nat.le_trans (Nat.le_max_left ..) (ih _ _)

/-- The scan misses no height on the way. -/
theorem height_le_peakFrom {code before : List Op} {depth peak : Nat} (hfits : Fits depth code)
    (hpeak : depth ≤ peak) (hbefore : before <+: code) :
    depth + height before ≤ peakFrom depth peak code := by
  induction code generalizing depth peak before with
  | nil =>
    obtain rfl := List.prefix_nil.mp hbefore
    simpa [peakFrom] using hpeak
  | cons op code ih =>
    obtain ⟨hop, hcode⟩ := fits_cons.mp hfits
    have hdepth := Op.depthAfter_eq (Int.ofNat_le.mp hop)
    rcases List.prefix_cons_iff.mp hbefore with rfl | ⟨later, rfl, hlater⟩
    · have := le_peakFrom (op :: code) depth peak
      rw [height_nil]
      omega
    · rw [← hdepth] at hcode
      have := ih hcode (Nat.le_max_right peak _) hlater
      rw [height_cons, peakFrom]
      omega

/-- The scan makes no height up. -/
theorem exists_height_eq_peakFrom {code : List Op} {depth peak : Nat} (hfits : Fits depth code) :
    peakFrom depth peak code = peak ∨
      ∃ before, before <+: code ∧ depth + height before = peakFrom depth peak code := by
  induction code generalizing depth peak with
  | nil => exact .inl rfl
  | cons op code ih =>
    obtain ⟨hop, hcode⟩ := fits_cons.mp hfits
    have hdepth := Op.depthAfter_eq (Int.ofNat_le.mp hop)
    rw [← hdepth] at hcode
    rw [peakFrom]
    rcases ih hcode with hsame | ⟨later, hlater, heq⟩
    · rw [hsame]
      rcases Nat.le_total (op.depthAfter depth) peak with hle | hle
      · exact .inl (Nat.max_eq_left hle)
      · refine .inr ⟨[op], List.prefix_append [op] code, ?_⟩
        rw [Nat.max_eq_right hle, hdepth]
        simp
    · refine .inr ⟨op :: later, List.prefix_cons_inj op |>.mpr hlater, ?_⟩
      rw [← heq, height_cons]
      omega

/-! ## Profiles -/

/-- Code that never finds too few values, leaves `gain` values behind, and has `peak` of them on the
stack at most. -/
structure Profile (gain peak : Nat) (code : List Op) : Prop where
  fits : Fits 0 code
  height_eq : height code = gain
  le_peak : ∀ before, before <+: code → height before ≤ peak
  attained : ∃ before, before <+: code ∧ height before = peak

namespace Profile

variable {gain gain' peak peak' : Nat} {xs ys : List Op}

theorem nil : Profile 0 0 [] where
  fits := fits_nil 0
  height_eq := rfl
  le_peak before hbefore := by simp [List.prefix_nil.mp hbefore]
  attained := ⟨[], List.prefix_rfl, rfl⟩

/-- **Code in sequence.** The second part stands on what the first one left. -/
theorem append (hx : Profile gain peak xs) (hy : Profile gain' peak' ys) :
    Profile (gain + gain') (max peak (gain + peak')) (xs ++ ys) where
  fits := hx.fits.append (hy.fits.mono (by rw [hx.height_eq]; omega))
  height_eq := by rw [height_append, hx.height_eq, hy.height_eq, Int.natCast_add]
  le_peak before hbefore := by
    obtain ⟨rest, heq⟩ := hbefore
    rcases List.append_eq_append_iff.mp heq with ⟨more, hmore, -⟩ | ⟨later, rfl, hlater⟩
    · have := hx.le_peak before ⟨more, hmore.symm⟩
      omega
    · have := hy.le_peak later ⟨rest, hlater.symm⟩
      rw [height_append, hx.height_eq]
      omega
  attained := by
    rcases Nat.le_total peak (gain + peak') with hle | hle
    · obtain ⟨before, hbefore, heq⟩ := hy.attained
      refine ⟨xs ++ before, List.prefix_append_right_inj xs |>.mpr hbefore, ?_⟩
      rw [height_append, hx.height_eq, heq, Nat.max_eq_right hle, Int.natCast_add]
    · obtain ⟨before, hbefore, heq⟩ := hx.attained
      exact ⟨before, hbefore.trans (List.prefix_append xs ys), by rw [heq, Nat.max_eq_left hle]⟩

/-- One more operation, which finds its operands. -/
theorem snoc {op : Op} (h : Profile gain peak xs) (hop : op.pops ≤ gain)
    (hgain : op.depthAfter gain = gain') : Profile gain' (max peak gain') (xs ++ [op]) where
  fits := h.fits.append (fits_cons.mpr ⟨by rw [h.height_eq]; omega, fits_nil _⟩)
  height_eq := by simp [h.height_eq, ← hgain, Op.depthAfter_eq hop]
  le_peak before hbefore := by
    rcases List.prefix_concat_iff.mp hbefore with rfl | hbefore
    · rw [height_append, height_cons, height_nil, h.height_eq, ← hgain, Op.effect, Op.depthAfter]
      omega
    · have := h.le_peak before hbefore
      omega
  attained := by
    rcases Nat.le_total peak gain' with hle | hle
    · refine ⟨xs ++ [op], List.prefix_rfl, ?_⟩
      rw [Nat.max_eq_right hle, ← hgain, Op.depthAfter_eq hop]
      simp [h.height_eq]
    · obtain ⟨before, hbefore, heq⟩ := h.attained
      exact ⟨before, hbefore.trans (List.prefix_append xs [op]), by rw [heq, Nat.max_eq_left hle]⟩

/-- One more operation, which does not add to what is needed. -/
theorem snoc_of_le {op : Op} (h : Profile gain peak xs) (hop : op.pops ≤ gain)
    (hgain : op.depthAfter gain = gain') (hle : gain' ≤ peak) :
    Profile gain' peak (xs ++ [op]) := by
  have := h.snoc hop hgain
  rwa [Nat.max_eq_left hle] at this

/-- **The scan finds the greatest height.** -/
theorem maxStack_eq (h : Profile gain peak xs) : maxStack xs = peak := by
  unfold maxStack
  obtain ⟨before, hbefore, hheight⟩ := h.attained
  have hfits : Fits (0 : Nat) xs := h.fits
  have hle := height_le_peakFrom hfits (Nat.le_refl 0) hbefore
  rw [Int.natCast_zero] at hle
  rcases exists_height_eq_peakFrom hfits with hzero | ⟨highest, hhighest, heq⟩
  · rw [hzero] at hle ⊢
    omega
  · rw [Int.natCast_zero] at heq
    have := h.le_peak highest hhighest
    omega

end Profile

/-! ## Heights on a machine -/

namespace Interpretation

variable (I : Interpretation) {pool : Pool}

/-- **One operation** pops and pushes as many values as it says. It is carried out if it finds its
operands and is no branch, and its literal is in the pool. -/
theorem step_of_pops_le {op : Op} {s : Machine I.Value} (hop : op.isBranch = false)
    (hpool : ∀ kind index, op = .pushPooled kind index → pool.constant? kind index ≠ none)
    (hreturn : op.isReturn = false) (hpops : op.pops ≤ s.stack.length) :
    ∃ s', I.step pool op s = some s' ∧ s'.stack.length = op.depthAfter s.stack.length := by
  obtain ⟨registers, stack, returned⟩ := s
  cases op with
  | branch => cases hop
  | returnVoid | returnValue => cases hreturn
  | nop | label | push | getLocal => exact ⟨_, rfl, rfl⟩
  | pushPooled kind index =>
    obtain ⟨value, hvalue⟩ := Option.ne_none_iff_exists'.mp (hpool kind index rfl)
    exact ⟨_, I.step_pushPooled hvalue _, rfl⟩
  | pop | dup | setLocal | convert | unary =>
    cases stack with
    | nil => cases hpops
    | cons top stack => exact ⟨_, rfl, rfl⟩
  | swap | binary =>
    rcases stack with _ | ⟨top, _ | ⟨below, stack⟩⟩
    · cases hpops
    · exact absurd hpops (by simp [Op.pops])
    · exact ⟨_, rfl, rfl⟩

/-- **Code that fits runs through**, and the stack then has the height that was computed. -/
theorem run_of_fits {code : List Op} {s : Machine I.Value}
    (hstraight : ∀ op ∈ code, op.isBranch = false ∧ op.isReturn = false)
    (hpool : ∀ kind index, .pushPooled kind index ∈ code → pool.constant? kind index ≠ none)
    (hfits : Fits s.stack.length code) :
    ∃ s', I.run pool code s = some s' ∧ (s'.stack.length : Int) = s.stack.length + height code := by
  induction code generalizing s with
  | nil => exact ⟨s, rfl, by simp⟩
  | cons op code ih =>
    obtain ⟨⟨hbranch, hreturn⟩, hrest⟩ := List.forall_mem_cons.mp hstraight
    obtain ⟨hop, hcode⟩ := fits_cons.mp hfits
    have hpops : op.pops ≤ s.stack.length := Int.ofNat_le.mp hop
    obtain ⟨next, hstep, hlength⟩ := I.step_of_pops_le hbranch
      (fun kind index heq => hpool kind index (heq ▸ List.mem_cons_self)) hreturn hpops
    have hdepth := Op.depthAfter_eq hpops
    rw [← hlength] at hdepth
    rw [← hdepth] at hcode
    obtain ⟨s', hrun, hheight⟩ :=
      ih hrest (fun kind index hmem => hpool kind index (List.mem_cons_of_mem op hmem)) hcode
    exact ⟨s', by rw [I.run_cons hstep hreturn, hrun], by rw [hheight, hdepth, height_cons]; omega⟩

end Interpretation

end Swf.Abc
