import Mathlib

/-!
# Rounding

What the float operations compute, in terms of rational numbers.

A mantissa with two residual bits is all that is kept of a number while it is
shifted, and it is a function of the number: it can be cut off at once, wherever it
was cut off before. So a positive number is rounded to the same float however it
was come by, as a product, as a quotient or from a natural number, and a larger
number is never rounded to a smaller float.

## Main definitions

* `cut`: What is kept of a number.
* `nearest`: The closest natural number; a tie goes to the even one.
* `place`: The exponent of the last place that a float keeps of a number.
* `rounded`: A positive number as a float.
* `InFormat`: A mantissa and an exponent that are their own rounding.

## Theorems

* `roundWithAccuracy_eq`: Rounding starts from what is kept of the number.
* `rounded_mono`: Rounding keeps the order.
* `round_eq`, `mul_eq`, `div_eq`: The operations round the exact result.
-/

namespace Testbench

namespace Rounding

open Float.Model Float.Model.UnpackedFloat

/-! ### Natural numbers -/

/-- What is kept of a number: the whole part, whether a half more is reached, and
    whether there is anything besides these two. -/
def cut (x : ℚ) : ExtendedMantissa where
  mantissa := ⌊x⌋₊
  roundBit := decide (⌊x⌋₊ + 1 / 2 ≤ x)
  stickyBit := decide (x ≠ ⌊x⌋₊ ∧ x ≠ ⌊x⌋₊ + 1 / 2)

/-- The closest natural number, or the even one of two. -/
def nearest (x : ℚ) : Nat := (cut x).roundedMantissa

theorem floor_half (x : ℚ) : ⌊x / 2⌋₊ = ⌊x⌋₊ / 2 := by
  have hcancel := Nat.mul_cast_floor_div_cancel two_ne_zero (x / 2)
  rwa [Nat.cast_ofNat, div_mul_cancel₀ x two_ne_zero, eq_comm] at hcancel

/-- Shifting halves the number that is cut. -/
theorem shiftRightOne_cut {x : ℚ} (hx : 0 ≤ x) : (cut x).shiftRightOne = cut (x / 2) := by
  have hfloor := Nat.floor_le hx
  have hnext := Nat.lt_floor_add_one x
  have hsplit : (2 : ℚ) * (⌊x⌋₊ / 2 : Nat) + (⌊x⌋₊ % 2 : Nat) = ⌊x⌋₊ := by
    exact_mod_cast Nat.div_add_mod ⌊x⌋₊ 2
  -- Something is left below the new round bit just if something was left at all.
  have hleft : (⌊x⌋₊ + 1 / 2 ≤ x ∨ x ≠ ⌊x⌋₊ ∧ x ≠ ⌊x⌋₊ + 1 / 2) ↔ x ≠ ⌊x⌋₊ := by
    constructor
    · rintro (h | ⟨h, -⟩) heq
      · linarith
      · exact h heq
    · intro h
      rcases lt_or_ge x (⌊x⌋₊ + 1 / 2) with hlt | hge
      · exact .inr ⟨h, hlt.ne⟩
      · exact .inl hge
  simp only [cut, ExtendedMantissa.shiftRightOne, floor_half x, ExtendedMantissa.mk.injEq,
    true_and, ← Bool.decide_or, decide_eq_decide, hleft]
  rcases Nat.mod_two_eq_zero_or_one ⌊x⌋₊ with hbit | hbit
  · rw [hbit, Nat.cast_zero] at hsplit
    refine ⟨?_, ?_⟩
    · rw [hbit, eq_comm, bne_self_eq_false, decide_eq_false_iff_not, not_le]
      linarith
    · constructor
      · exact fun h => ⟨fun heq => h (by linarith), fun heq => by linarith⟩
      · exact fun h heq => h.1 (by linarith)
  · rw [hbit, Nat.cast_one] at hsplit
    refine ⟨?_, ?_⟩
    · rw [hbit, eq_comm]
      refine (decide_eq_true ?_).trans rfl
      linarith
    · constructor
      · exact fun h => ⟨fun heq => by linarith, fun heq => h (by linarith)⟩
      · exact fun h heq => h.2 (by linarith)

/-- What was cut off once can be cut off further. -/
theorem shiftRight_cut {x : ℚ} (hx : 0 ≤ x) (n : Nat) : cut x >>> n = cut (x / 2 ^ n) := by
  induction n with
  | zero =>
    rw [pow_zero, div_one]
    rfl
  | succ n ih =>
    change (cut x >>> n).shiftRightOne = _
    rw [ih, shiftRightOne_cut (by positivity), div_div, pow_succ]

theorem nearest_natCast (n : Nat) : nearest n = n := by
  have hround : decide ((n : ℚ) + 1 / 2 ≤ n) = false := decide_eq_false (by linarith)
  simp only [nearest, cut, Nat.floor_natCast, hround, ne_eq, not_true_eq_false, false_and,
    decide_false]
  rfl

theorem nearest_two_pow (n : Nat) : nearest (2 ^ n) = 2 ^ n := by
  have hpower := nearest_natCast (2 ^ n)
  rwa [Nat.cast_pow, Nat.cast_ofNat] at hpower

theorem nearest_cases {x : ℚ} :
    (x < ⌊x⌋₊ + 1 / 2 ∧ nearest x = ⌊x⌋₊) ∨
    (x = ⌊x⌋₊ + 1 / 2 ∧ nearest x = ⌊x⌋₊ + ⌊x⌋₊ % 2) ∨
    (⌊x⌋₊ + 1 / 2 < x ∧ nearest x = ⌊x⌋₊ + 1) := by
  unfold nearest cut
  rcases lt_trichotomy x (⌊x⌋₊ + 1 / 2) with hlt | heq | hgt
  · refine .inl ⟨hlt, ?_⟩
    rw [decide_eq_false (not_le.mpr hlt)]
    cases decide (x ≠ ⌊x⌋₊ ∧ x ≠ ⌊x⌋₊ + 1 / 2) <;> rfl
  · refine .inr (.inl ⟨heq, ?_⟩)
    rw [decide_eq_true heq.ge, decide_eq_false fun h => h.2 heq]
    rfl
  · refine .inr (.inr ⟨hgt, ?_⟩)
    rw [decide_eq_true hgt.le, decide_eq_true ⟨fun h => by linarith, hgt.ne'⟩]
    rfl

theorem nearest_mono {x y : ℚ} (h : x ≤ y) : nearest x ≤ nearest y := by
  have hmod := Nat.mod_lt ⌊x⌋₊ two_pos
  rcases (Nat.floor_le_floor h).lt_or_eq with hlt | heq
  · rcases nearest_cases (x := x) with ⟨-, hx⟩ | ⟨-, hx⟩ | ⟨-, hx⟩ <;>
      rcases nearest_cases (x := y) with ⟨-, hy⟩ | ⟨-, hy⟩ | ⟨-, hy⟩ <;> omega
  · rcases nearest_cases (x := x) with ⟨hx, hx'⟩ | ⟨hx, hx'⟩ | ⟨hx, hx'⟩ <;>
      rcases nearest_cases (x := y) with ⟨hy, hy'⟩ | ⟨hy, hy'⟩ | ⟨hy, hy'⟩ <;>
      rw [heq] at hx hx' <;> first | omega | (exfalso; linarith)

/-! ### Places -/

/-- The exponent of the last place that is kept of a number. -/
def place (q : ℚ) : Int := max (Int.log 2 q - 52) (-1074)

theorem lt_of_place (q : ℚ) : q / 2 ^ place q < 2 ^ 53 := by
  rw [div_lt_iff₀ (by positivity)]
  calc q < 2 ^ (Int.log 2 q + 1) := Int.lt_zpow_succ_log_self one_lt_two q
    _ ≤ 2 ^ (53 + place q) := zpow_le_zpow_right₀ one_le_two (by unfold place; omega)
    _ = 2 ^ 53 * 2 ^ place q := by rw [zpow_add₀ two_ne_zero]; rfl

theorem le_of_place {q : ℚ} (hq : 0 < q) (hplace : -1074 < place q) :
    2 ^ 52 ≤ q / 2 ^ place q := by
  have hlog : place q = Int.log 2 q - 52 := by
    unfold place at hplace ⊢
    omega
  rw [le_div_iff₀ (by positivity)]
  calc (2 : ℚ) ^ 52 * 2 ^ place q = 2 ^ (52 + place q) := by rw [zpow_add₀ two_ne_zero]; rfl
    _ = 2 ^ Int.log 2 q := by rw [hlog]; congr 1; omega
    _ ≤ q := Int.zpow_log_le_self one_lt_two hq

theorem place_mono {p q : ℚ} (hp : 0 < p) (h : p ≤ q) : place p ≤ place q :=
  max_le_max (Int.sub_le_sub_right (Int.log_mono_right hp h) _) le_rfl

/-- The mantissa of a number, rounded to its last place. -/
def mantissa (q : ℚ) : Nat := nearest (q / 2 ^ place q)

theorem mantissa_le (q : ℚ) : mantissa q ≤ 2 ^ 53 := by
  have hmono := nearest_mono (lt_of_place q).le
  rwa [nearest_two_pow] at hmono

theorem le_mantissa {q : ℚ} (hq : 0 < q) (hplace : -1074 < place q) : 2 ^ 52 ≤ mantissa q := by
  have hmono := nearest_mono (le_of_place hq hplace)
  rwa [nearest_two_pow] at hmono

/-- The closest float. A mantissa that has run over is halved once more. -/
def rounded (q : ℚ) : UnpackedFloat :=
  if h : mantissa q = 0 then .zero .positive
  else if mantissa q < 2 ^ 53 then
    .finite .positive (mantissa q) (place q) (Nat.pos_of_ne_zero h)
  else .finite .positive (2 ^ 52) (place q + 1) (by decide)

theorem targetExponent_eq (m : Nat) (e : Int) :
    Format.binary64.targetExponent (totalExponent m e) = max (m.log2 + e - 52) (-1074) := by
  change max ((m.log2 : Int) + 1 + e - 53) (-1074) = _
  congr 1
  omega

theorem log_of_floor {q : ℚ} {m : Nat} {e : Int} (hm : 0 < m) (hle : m * 2 ^ e ≤ q)
    (hlt : q < (m + 1) * 2 ^ e) : Int.log 2 q = m.log2 + e := by
  have hpos : 0 < q := lt_of_lt_of_le (by positivity) hle
  have hlow : (2 : ℚ) ^ ((m.log2 : Int) + e) ≤ q := by
    rw [zpow_add₀ two_ne_zero, zpow_natCast]
    refine le_trans (mul_le_mul_of_nonneg_right ?_ (by positivity)) hle
    exact_mod_cast Nat.log2_self_le hm.ne'
  have hhigh : q < (2 : ℚ) ^ ((m.log2 : Int) + e + 1) := by
    rw [add_right_comm, zpow_add₀ two_ne_zero, ← Nat.cast_succ, zpow_natCast]
    refine lt_of_lt_of_le hlt (mul_le_mul_of_nonneg_right ?_ (by positivity))
    exact_mod_cast Nat.succ_le_of_lt (Nat.lt_log2_self (n := m))
  have h1 := (Int.zpow_le_iff_le_log one_lt_two hpos).mp hlow
  have h2 := (Int.lt_zpow_iff_log_lt one_lt_two hpos).mp hhigh
  omega

theorem log_of_mantissa {m : Nat} (hm : 0 < m) (e : Int) :
    Int.log 2 ((m : ℚ) * 2 ^ e) = m.log2 + e :=
  log_of_floor hm le_rfl (mul_lt_mul_of_pos_right (lt_add_one _) (by positivity))

/-- The place that is aimed at can be told from what is left of the number. -/
theorem targetExponent_place {q : ℚ} {m : Nat} {e : Int} (hq : 0 < q)
    (hm : ⌊q / 2 ^ e⌋₊ = m) (he : e ≤ place q) :
    Format.binary64.targetExponent (totalExponent m e) = place q := by
  rw [targetExponent_eq]
  rcases (Nat.floor_eq_iff (by positivity)).mp hm with ⟨hle, hlt⟩
  rw [le_div_iff₀ (by positivity)] at hle
  rw [div_lt_iff₀ (by positivity)] at hlt
  rcases Nat.eq_zero_or_pos m with rfl | hmpos
  · -- Less than one last place is left, so it is the last place of all.
    have hlog : Int.log 2 q < e := by
      rw [← Int.lt_zpow_iff_log_lt one_lt_two hq]
      simpa using hlt
    unfold place at he ⊢
    rw [Nat.log2_zero]
    omega
  · unfold place
    rw [log_of_floor hmpos hle hlt]

/-- A mantissa in range is not shifted any more. -/
theorem shift_of_lt {m : Nat} {e : Int} (hm : m < 2 ^ 53) (he : -1074 ≤ e) :
    shiftToTargetExponent Format.binary64 m e .exact = (⟨m, false, false⟩, e) := by
  have hlog : m.log2 ≤ 52 := by
    rcases Nat.eq_zero_or_pos m with rfl | hpos
    · decide
    · exact Nat.le_of_lt_succ ((Nat.log2_lt hpos.ne').mpr hm)
  have hstay : (Format.binary64.targetExponent (totalExponent m e) - e).toNat = 0 := by
    rw [targetExponent_eq]
    omega
  simp only [shiftToTargetExponent, shiftToExponent, hstay, Nat.cast_zero, add_zero]
  rfl

theorem shift_of_eq {e : Int} (he : -1074 ≤ e) :
    shiftToTargetExponent Format.binary64 (2 ^ 53) e .exact = (⟨2 ^ 52, false, false⟩, e + 1) := by
  have hstep : (Format.binary64.targetExponent (totalExponent (2 ^ 53) e) - e).toNat = 1 := by
    rw [targetExponent_eq, Nat.log2_two_pow]
    omega
  simp only [shiftToTargetExponent, shiftToExponent, hstep, Nat.cast_one]
  rfl

/-- What is rounded is told by the number alone, as long as nothing that has to be
    kept was cut off. -/
theorem roundWithAccuracy_eq {q : ℚ} {m : Nat} {e : Int} {accuracy : Accuracy} (hq : 0 < q)
    (hcut : ExtendedMantissa.ofMantissaAndAccuracy m accuracy = cut (q / 2 ^ e))
    (he : e ≤ place q) :
    roundWithAccuracy Format.binary64 .positive m e accuracy = rounded q := by
  have hfloor : ⌊q / 2 ^ e⌋₊ = m := by
    have hmantissa := congrArg ExtendedMantissa.mantissa hcut
    rcases accuracy with _ | _ | _ | _ <;> exact hmantissa.symm
  have hplace : -1074 ≤ place q := le_max_right _ _
  have hfirst : shiftToTargetExponent Format.binary64 m e accuracy
      = (cut (q / 2 ^ place q), place q) := by
    have hshift : e + ((place q - e).toNat : Int) = place q := by omega
    have hpower : (2 : ℚ) ^ e * 2 ^ (place q - e).toNat = 2 ^ place q := by
      rw [← zpow_natCast, ← zpow_add₀ two_ne_zero, hshift]
    simp only [shiftToTargetExponent, shiftToExponent, targetExponent_place hq hfloor he, hcut,
      hshift]
    rw [shiftRight_cut (by positivity), div_div, hpower]
  have hsecond := mantissa_le q
  have hmantissa : (cut (q / 2 ^ place q)).roundedMantissa = mantissa q := rfl
  simp only [roundWithAccuracy, hfirst, hmantissa]
  -- The second shift is for a mantissa that has run over by being rounded up.
  rcases hsecond.lt_or_eq with hlt | heq
  · simp only [rounded, shift_of_lt hlt hplace, hlt, if_true]
  · simp only [rounded, heq, shift_of_eq hplace]
    rfl

/-! ### In the format -/

/-- The mantissa fits, and has its leading bit unless the place is the last of all. -/
structure InFormat (m : Nat) (e : Int) : Prop where
  lt : m < 2 ^ 53
  le : -1074 ≤ e
  full : 2 ^ 52 ≤ m ∨ e = -1074

theorem rounded_cases {q : ℚ} (hq : 0 < q) :
    (mantissa q = 0 ∧ rounded q = .zero .positive) ∨
    (∃ h, mantissa q < 2 ^ 53 ∧ InFormat (mantissa q) (place q) ∧
      rounded q = .finite .positive (mantissa q) (place q) h) ∨
    (mantissa q = 2 ^ 53 ∧ InFormat (2 ^ 52) (place q + 1) ∧
      rounded q = .finite .positive (2 ^ 52) (place q + 1) (by decide)) := by
  have hplace : -1074 ≤ place q := le_max_right _ _
  unfold rounded
  by_cases hzero : mantissa q = 0
  · exact .inl ⟨hzero, by rw [dif_pos hzero]⟩
  rcases (mantissa_le q).lt_or_eq with hlt | heq
  · refine .inr (.inl ⟨Nat.pos_of_ne_zero hzero, hlt, ⟨hlt, hplace, ?_⟩, ?_⟩)
    · rcases hplace.lt_or_eq with hmore | hleast
      · exact .inl (le_mantissa hq hmore)
      · exact .inr hleast.symm
    · rw [dif_neg hzero, if_pos hlt]
  · refine .inr (.inr ⟨heq, ⟨by decide, by omega, .inl le_rfl⟩, ?_⟩)
    rw [dif_neg hzero, if_neg (by omega)]

theorem exists_rounded {q : ℚ} (hq : 0 < q) (h : mantissa q ≠ 0) :
    ∃ m e hm, rounded q = .finite .positive m e hm ∧ InFormat m e := by
  rcases rounded_cases hq with ⟨hzero, -⟩ | ⟨hm, -, hformat, hrounded⟩ | ⟨-, hformat, hrounded⟩
  · exact absurd hzero h
  · exact ⟨_, _, hm, hrounded, hformat⟩
  · exact ⟨_, _, _, hrounded, hformat⟩

/-- A larger number has a larger exponent, or the same exponent and a larger
    mantissa: a mantissa that is not at the last place of all has its leading bit. -/
theorem rounded_mono {p q : ℚ} (hp : 0 < p) (h : p ≤ q) {m : Nat} {e : Int} {hm : 0 < m}
    (hrounded : rounded p = .finite .positive m e hm) :
    ∃ m' e' hm', rounded q = .finite .positive m' e' hm' ∧ InFormat m' e' ∧
      (e < e' ∨ e = e' ∧ m ≤ m') := by
  have hq := hp.trans_le h
  have hmono : place p = place q → mantissa p ≤ mantissa q := fun heq => by
    unfold mantissa
    rw [heq]
    exact nearest_mono (div_le_div_of_nonneg_right h (by positivity))
  have hplace := place_mono hp h
  have hleast : -1074 ≤ place p := le_max_right _ _
  have hmore : place p < place q → 2 ^ 52 ≤ mantissa q := fun hlt => le_mantissa hq (by omega)
  have hbound := mantissa_le p
  rcases rounded_cases hp with ⟨-, hzero⟩ | ⟨hpos, hlt, -, hfirst⟩ | ⟨hfull, -, hfirst⟩
  · rw [hzero] at hrounded
    exact absurd hrounded nofun
  all_goals
    rw [hfirst] at hrounded
    cases hrounded
    -- At the same place mantissas are compared, at a later one there is a leading bit.
    rcases rounded_cases hq with ⟨hnone, -⟩ | ⟨hpos', hlt', hformat, hlast⟩ |
      ⟨hfull', hformat, hlast⟩
    · omega
    · exact ⟨_, _, _, hlast, hformat, by omega⟩
    · exact ⟨_, _, _, hlast, hformat, by omega⟩

theorem place_of_inFormat {m : Nat} {e : Int} (hm : 0 < m) (h : InFormat m e) :
    place (m * 2 ^ e) = e := by
  have hle := h.le
  have hshort : m.log2 ≤ 52 := Nat.le_of_lt_succ ((Nat.log2_lt hm.ne').mpr h.lt)
  unfold place
  rw [log_of_mantissa hm]
  rcases h.full with hfull | hleast
  · have hlong : 52 ≤ m.log2 := (Nat.le_log2 hm.ne').mpr hfull
    omega
  · omega

/-- What is in the format is its own rounding. -/
theorem rounded_of_inFormat {m : Nat} {e : Int} (hm : 0 < m) (h : InFormat m e) :
    rounded (m * 2 ^ e) = .finite .positive m e hm := by
  have hmantissa : mantissa (m * 2 ^ e) = m := by
    rw [mantissa, place_of_inFormat hm h, mul_div_cancel_right₀ _ (by positivity), nearest_natCast]
  simp only [rounded, hmantissa, place_of_inFormat hm h, hm.ne', dite_false, h.lt, if_true]

/-! ### Operations -/

/-- What is left of a division places the quotient within the last place. -/
theorem cut_div (a : Nat) {b : Nat} (hb : 0 < b) :
    ExtendedMantissa.ofMantissaAndAccuracy (a / b) (accuracyOfFraction (a % b) b)
      = cut ((a : ℚ) / b) := by
  have hfloor : ⌊(a : ℚ) / b⌋₊ = a / b := Nat.floor_div_eq_div a b
  have hb' : (0 : ℚ) < b := by exact_mod_cast hb
  have hsplit : (a : ℚ) / b = (a / b : Nat) + (a % b : Nat) / b := by
    rw [eq_comm, add_comm, div_add' _ _ _ hb'.ne', div_left_inj' hb'.ne']
    exact_mod_cast (Nat.mod_add_div' a b)
  unfold cut
  rw [hfloor, hsplit]
  generalize (a / b : Nat) = m
  generalize a % b = r at *
  -- Of what is left only matters where it is, against nothing and against a half.
  simp only [add_le_add_iff_left, add_right_inj, ne_eq, add_eq_left]
  unfold accuracyOfFraction
  by_cases hr : r = 0
  · subst hr
    norm_num
    rfl
  · have hr' : (r : ℚ) / b ≠ 0 := by positivity
    rw [if_neg hr]
    rcases lt_trichotomy (2 * r) b with hlt | heq | hgt
    · have hhalf : (r : ℚ) / b < 1 / 2 := by
        rw [div_lt_div_iff₀ hb' two_pos]
        exact_mod_cast (by omega : r * 2 < 1 * b)
      rw [Nat.compare_eq_lt.mpr hlt, decide_eq_false (not_le.mpr hhalf),
        decide_eq_true ⟨hr', hhalf.ne⟩]
      rfl
    · have hhalf : (r : ℚ) / b = 1 / 2 := by
        rw [div_eq_div_iff hb'.ne' two_ne_zero]
        exact_mod_cast (by omega : r * 2 = 1 * b)
      rw [Nat.compare_eq_eq.mpr heq, decide_eq_true hhalf.ge, decide_eq_false fun h => h.2 hhalf]
      rfl
    · have hhalf : 1 / 2 < (r : ℚ) / b := by
        rw [div_lt_div_iff₀ two_pos hb']
        exact_mod_cast (by omega : 1 * b < r * 2)
      rw [Nat.compare_eq_gt.mpr hgt, decide_eq_true hhalf.le, decide_eq_true ⟨hr', hhalf.ne'⟩]
      rfl

/-- A natural number with an exponent loses nothing before it is rounded. -/
theorem cut_natCast (m : Nat) : ExtendedMantissa.ofMantissaAndAccuracy m .exact = cut m := by
  have hround : decide ((m : ℚ) + 1 / 2 ≤ m) = false := decide_eq_false (by linarith)
  simp only [cut, Nat.floor_natCast, hround, ne_eq, not_true_eq_false, false_and, decide_false]
  rfl

theorem roundWithAccuracy_exact {m : Nat} {e : Int} (hm : 0 < m) (he : e ≤ place (m * 2 ^ e)) :
    roundWithAccuracy Format.binary64 .positive m e .exact = rounded (m * 2 ^ e) := by
  refine roundWithAccuracy_eq (by positivity) ?_ he
  rw [mul_div_cancel_right₀ _ (by positivity)]
  exact cut_natCast m

theorem round_eq {m : Nat} (e : Int) (hm : 0 < m) :
    UnpackedFloat.round Format.binary64 .positive m e = rounded (m * 2 ^ e) := by
  obtain ⟨k, hk⟩ :
      ∃ k, (e - Format.binary64.targetExponent (totalExponent m e)).toNat = k := ⟨_, rfl⟩
  have hsame : ((m <<< k : Nat) : ℚ) * 2 ^ (e - k) = m * 2 ^ e := by
    rw [Nat.shiftLeft_eq, Nat.cast_mul, Nat.cast_pow, Nat.cast_ofNat, ← zpow_natCast, mul_assoc,
      ← zpow_add₀ two_ne_zero]
    congr 2
    omega
  have hle : e - k ≤ place (m * 2 ^ e) := by
    rw [targetExponent_eq] at hk
    unfold place
    rw [log_of_mantissa hm]
    omega
  simp only [UnpackedFloat.round, decreaseExponent, hk]
  have hpos : 0 < m <<< k := by
    rw [Nat.shiftLeft_eq]
    positivity
  rw [roundWithAccuracy_exact hpos (by rw [hsame]; exact hle), hsame]

theorem mul_eq {m₁ m₂ : Nat} {e₁ e₂ : Int} (h₁ : 0 < m₁) (h₂ : 0 < m₂)
    (he : e₁ + e₂ ≤ place (m₁ * 2 ^ e₁ * (m₂ * 2 ^ e₂))) :
    UnpackedFloat.mul Format.binary64 (.finite .positive m₁ e₁ h₁) (.finite .positive m₂ e₂ h₂)
      = rounded (m₁ * 2 ^ e₁ * (m₂ * 2 ^ e₂)) := by
  have hsame : (m₁ : ℚ) * 2 ^ e₁ * (m₂ * 2 ^ e₂) = (m₁ * m₂ : Nat) * 2 ^ (e₁ + e₂) := by
    rw [zpow_add₀ two_ne_zero, Nat.cast_mul]
    ring
  rw [hsame] at he ⊢
  exact roundWithAccuracy_exact (Nat.mul_pos h₁ h₂) he

theorem log_sub_le {p q : ℚ} (hp : 0 < p) (hq : 0 < q) :
    Int.log 2 p - Int.log 2 q - 1 ≤ Int.log 2 (p / q) := by
  rw [← Int.zpow_le_iff_le_log one_lt_two (by positivity), le_div_iff₀ hq]
  calc (2 : ℚ) ^ (Int.log 2 p - Int.log 2 q - 1) * q
    _ ≤ 2 ^ (Int.log 2 p - Int.log 2 q - 1) * 2 ^ (Int.log 2 q + 1) :=
        mul_le_mul_of_nonneg_left (Int.lt_zpow_succ_log_self one_lt_two q).le (by positivity)
    _ = 2 ^ Int.log 2 p := by rw [← zpow_add₀ two_ne_zero]; congr 1; omega
    _ ≤ p := Int.zpow_log_le_self one_lt_two hp

theorem div_eq {m₁ m₂ : Nat} {e₁ e₂ : Int} (h₁ : 0 < m₁) (h₂ : 0 < m₂) :
    UnpackedFloat.div Format.binary64 (.finite .positive m₁ e₁ h₁) (.finite .positive m₂ e₂ h₂)
      = rounded (m₁ * 2 ^ e₁ / (m₂ * 2 ^ e₂)) := by
  obtain ⟨t, ht⟩ : ∃ t, min (e₁ - e₂) (Format.binary64.targetExponent
      (totalExponent m₁ e₁ - totalExponent m₂ e₂)) = t := ⟨_, rfl⟩
  obtain ⟨k, hk⟩ : ∃ k, (e₁ - e₂ - t).toNat = k := ⟨_, rfl⟩
  -- The dividend is shifted until the quotient has all places that have to be kept.
  have hle : t ≤ place (m₁ * 2 ^ e₁ / (m₂ * 2 ^ e₂)) := by
    have hlog := log_sub_le (p := m₁ * 2 ^ e₁) (q := m₂ * 2 ^ e₂) (by positivity) (by positivity)
    rw [log_of_mantissa h₁, log_of_mantissa h₂] at hlog
    change min (e₁ - e₂) (max ((m₁.log2 : Int) + 1 + e₁ - (m₂.log2 + 1 + e₂) - 53) (-1074)) = t
      at ht
    unfold place
    omega
  have hscaled : (m₁ : ℚ) * 2 ^ e₁ / (m₂ * 2 ^ e₂) / 2 ^ t = (m₁ <<< k : Nat) / m₂ := by
    have hpower : (2 : ℚ) ^ e₁ = 2 ^ k * 2 ^ e₂ * 2 ^ t := by
      rw [← zpow_natCast, ← zpow_add₀ two_ne_zero, ← zpow_add₀ two_ne_zero]
      congr 1
      omega
    rw [Nat.shiftLeft_eq, Nat.cast_mul, Nat.cast_pow, Nat.cast_ofNat, hpower]
    field_simp
  simp only [UnpackedFloat.div, divCore, ht, hk]
  refine roundWithAccuracy_eq (by positivity) ?_ hle
  rw [hscaled]
  exact cut_div _ h₂

end Rounding

end Testbench
