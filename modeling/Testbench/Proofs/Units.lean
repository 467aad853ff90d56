import Testbench.Policy
import Testbench.Proofs.FloatOrder

/-!
# Time Units

What the floats of a real-time policy stand for. A time unit is a number of milliseconds, in
most cases not a whole one, and a clock reads a count of milliseconds over it. Both the
quarter of a unit that is slept between steps and the comparisons of a reading are told here
in terms of that number.

A quotient of floats is rounded, so a comparison could go wrong close to its bound. It does
not at one: a count beyond the unit is at least one more in the last place of it, and a
quotient with a mantissa of 53 bits then keeps more than half of a last place above one.

## Main definitions

* `number?`: The number that a float stands for.
* `RealTime.HasUnit`: How many milliseconds a time unit lasts.

## Theorems

* `exists_inFormat`: A positive number, as a mantissa with an exponent.
* `toUInt64_toNat`, `RealTime.HasUnit.pollPeriod_eq`: A time unit and its quarter in whole
  milliseconds.
* `number?_ofNat`: A count as a float.
* `one_lt_div_iff`: A quotient exceeds one just if the dividend exceeds the divisor.
* `div_lt_three`: A quotient of no more than two is less than three.
-/

namespace Testbench

namespace Rounding

open Float.Model Float.Model.UnpackedFloat

/-! ### Numbers -/

/-- The number that a float stands for, if it is finite. -/
def number? (a : Float) : Option ℚ :=
  match a.toModel.unpack with
  | .zero _ => some 0
  | .finite s m e _ => some (s.apply m * 2 ^ e)
  | .infinity _ | .notANumber => none

/-- What is unpacked is in the format, up to the largest exponent. -/
theorem inFormat_of_unpack {b : BitVec Format.binary64.numBits} {s : Sign} {m : Nat} {e : Int}
    {hm : 0 < m} (h : UnpackedFloat.unpack Format.binary64 b = .finite s m e hm) :
    InFormat m e ∧ e ≤ 971 := by
  have hmantissa : (unpackMantissa b).toNat < 2 ^ 52 := (unpackMantissa b).isLt
  have hexponent : (unpackExponent b).toNat < 2 ^ 11 := (unpackExponent b).isLt
  have hbias : (Format.binary64.exponentBias : Int) = 1023 := rfl
  unfold UnpackedFloat.unpack at h
  simp only at h
  split_ifs at h with htop hinfinity hlast hzero
  · cases h
    rw [hlast, hbias]
    exact ⟨⟨Nat.lt_trans hmantissa (by decide), le_rfl, .inr rfl⟩, by decide⟩
  · cases h
    have hnormal : (unpackExponent b).toNat ≠ 0 := fun heq => hlast (BitVec.eq_of_toNat_eq heq)
    have hnumber : (unpackExponent b).toNat ≠ 2047 := fun heq => htop (BitVec.eq_of_toNat_eq heq)
    have hfull : (1#1 ++ unpackMantissa b).toNat = 2 ^ 52 + (unpackMantissa b).toNat := by
      rw [BitVec.toNat_append]
      exact (Nat.shiftLeft_add_eq_or_of_lt hmantissa 1).symm
    rw [hfull, hbias]
    exact ⟨⟨by omega, by omega, .inl (Nat.le_add_right _ _)⟩, by omega⟩

/-- A positive number is a mantissa with an exponent. -/
theorem exists_inFormat {a : Float} {u : ℚ} (h : number? a = some u) (hpos : 0 < u) :
    ∃ m e hm, a.toModel.unpack = .finite .positive m e hm ∧ u = m * 2 ^ e ∧ InFormat m e ∧
      e ≤ 971 := by
  unfold number? at h
  split at h
  · exact absurd (Option.some.inj h).symm hpos.ne'
  · next s m e hm hunpack =>
    rcases inFormat_of_unpack hunpack with ⟨hformat, hle⟩
    rcases Option.some.inj h with rfl
    cases s with
    | positive => exact ⟨m, e, hm, hunpack, by simp [Sign.apply], hformat, hle⟩
    | negative =>
      refine absurd hpos (not_lt.mpr ?_)
      simp only [Sign.apply]
      push_cast
      rw [neg_mul, neg_nonpos]
      positivity
  · exact absurd h nofun
  · exact absurd h nofun

/-- A float is rounded down to an integer. -/
theorem roundToInt_eq (m : Nat) (e : Int) :
    roundToInt .positive m e = (⌊(m : ℚ) * 2 ^ e⌋₊ : Int) := by
  obtain ⟨k, hk⟩ : ∃ k, (e - 0).toNat = k := ⟨_, rfl⟩
  obtain ⟨n, hn⟩ : ∃ n, (0 - (e - k)).toNat = n := ⟨_, rfl⟩
  have hsame : ((m <<< k : Nat) : ℚ) / 2 ^ n = m * 2 ^ e := by
    have hpower : (2 : ℚ) ^ e = 2 ^ k / 2 ^ n := by
      rw [← zpow_natCast, ← zpow_natCast, ← zpow_sub₀ two_ne_zero]
      congr 1
      omega
    rw [Nat.shiftLeft_eq, Nat.cast_mul, Nat.cast_pow, Nat.cast_ofNat, hpower, mul_div_assoc]
  simp only [roundToInt, decreaseExponent, shiftToExponent, hk, hn, cut_natCast, Sign.apply]
  rw [shiftRight_cut (by positivity), hsame]
  rfl

theorem toUInt64_toNat {a : Float} {u : ℚ} (h : number? a = some u) (hpos : 0 < u)
    (hlt : u < 2 ^ 53) : a.toUInt64.toNat = ⌊u⌋₊ := by
  rcases exists_inFormat h hpos with ⟨m, e, hm, hunpack, rfl, -⟩
  have hsmall : ⌊(m : ℚ) * 2 ^ e⌋₊ < UInt64.size :=
    lt_trans ((Nat.floor_lt hpos.le).mpr (by exact_mod_cast hlt)) (by decide)
  change (UnpackedFloat.toUInt64 a.toModel.unpack).toNat = _
  rw [hunpack]
  unfold UnpackedFloat.toUInt64 UnpackedFloat.toInt
  simp only [roundToInt_eq, Int.toNat_natCast]
  unfold UInt64.ofNatClamp
  rw [dif_pos hsmall]
  rfl

/-! ### Quotients -/

/-- What can be represented is its own closest float. -/
theorem closest_of_inFormat {m : Nat} {e : Int} (hm : 0 < m) (h : InFormat m e) (hle : e ≤ 971) :
    closest (m * 2 ^ e) = .finite .positive m e hm := by
  rw [closest, rounded_of_inFormat hm h]
  exact unpack_pack_of_inFormat hm h hle

/-- A count that fits a mantissa is read as it is, and so is the first that does not. -/
theorem number?_ofNat {n : Nat} (h : n ≤ 2 ^ 53) : number? (Float.ofNat n) = some (n : ℚ) := by
  rcases Nat.eq_zero_or_pos n with rfl | hpos
  · rw [Nat.cast_zero]
    rfl
  obtain ⟨m, e, hm, hformat, hle, hsame⟩ :
      ∃ m e, 0 < m ∧ InFormat m e ∧ e ≤ 971 ∧ (m : ℚ) * 2 ^ e = n := by
    rcases h.lt_or_eq with hlt | rfl
    · -- The leading bit is shifted to the top of the mantissa.
      have hlow := Nat.log2_self_le hpos.ne'
      have hhigh := Nat.lt_log2_self (n := n)
      have hlog : n.log2 < 53 := (Nat.log2_lt hpos.ne').mpr hlt
      obtain ⟨k, hk⟩ : ∃ k, n.log2 + k = 52 := ⟨52 - n.log2, by omega⟩
      refine ⟨n * 2 ^ k, -k, by positivity, ⟨?_, by omega, .inl ?_⟩, by omega, ?_⟩
      · calc n * 2 ^ k < 2 ^ (n.log2 + 1) * 2 ^ k :=
            Nat.mul_lt_mul_of_pos_right hhigh (by positivity)
          _ = 2 ^ 53 := by rw [← pow_add, Nat.add_right_comm, hk]
      · calc 2 ^ 52 = 2 ^ n.log2 * 2 ^ k := by rw [← pow_add, hk]
          _ ≤ n * 2 ^ k := Nat.mul_le_mul_right _ hlow
      · rw [zpow_neg, zpow_natCast]
        push_cast
        rw [mul_assoc, mul_inv_cancel₀ (by positivity), mul_one]
    · exact ⟨2 ^ 52, 1, by decide, ⟨by decide, by decide, .inl le_rfl⟩, by decide, by norm_num⟩
  unfold number?
  rw [unpack_ofNat hpos, ← hsame, closest_of_inFormat hm hformat hle]
  simp only [Sign.apply, Int.cast_natCast]

/-- A multiple of the divisor that can be represented is not exceeded by rounding. -/
theorem div_le_ofNat {a : Float} {u : ℚ} (h : number? a = some u) (hpos : 0 < u) {k n m : Nat}
    {e : Int} (hm : 0 < m) (hformat : InFormat m e) (hlarge : e ≤ 971)
    (hk : (m : ℚ) * 2 ^ e = k * u) (hn : (n : ℚ) ≤ k * u) : Float.ofNat n / a ≤ Float.ofNat k := by
  rcases exists_inFormat h hpos with ⟨m', e', hm', hunpack, rfl, -⟩
  have hkpos : 0 < k := Nat.pos_of_ne_zero fun hzero => by
    rw [hzero, Nat.cast_zero, zero_mul] at hk
    exact absurd hk (by positivity)
  obtain ⟨l, hl, hlpos⟩ := key_closest (q := k) (by exact_mod_cast hkpos)
  have hzero : quotient (.zero .positive) (.finite .positive m' e' hm') = .zero .positive :=
    unpack_pack_zero _
  rw [le_iff, unpack_div, hunpack, unpack_ofNat hkpos]
  rcases Nat.eq_zero_or_pos n with rfl | hnpos
  · rw [unpack_ofNat_zero, hzero]
    exact ⟨_, rfl, l, hl, hlpos⟩
  rw [unpack_ofNat hnpos]
  have hlast := closest_of_inFormat hm hformat hlarge
  rcases closest_mono (p := n) (by exact_mod_cast hnpos) (hk ▸ hn) with hfirst | ⟨hlast', -⟩ |
    ⟨m₁, e₁, h₁, _, _, _, hfirst, hlast', hle, -⟩
  · rw [hfirst, hzero]
    exact ⟨_, rfl, l, hl, hlpos⟩
  · rw [hlast] at hlast'
    exact absurd hlast' nofun
  · rw [hlast] at hlast'
    cases hlast'
    rw [hfirst, quotient_finite]
    refine key_closest_mono (by positivity) ?_
    rw [div_le_iff₀ (by positivity), ← hk]
    exact hle

/-! ### Next to one -/

theorem lt_nearest {n : Nat} {x : ℚ} (h : n + 1 / 2 < x) : n < nearest x := by
  have hfloor : n ≤ ⌊x⌋₊ := Nat.le_floor (by linarith)
  rcases hfloor.lt_or_eq with hlt | rfl
  · rcases nearest_cases (x := x) with ⟨-, hx⟩ | ⟨-, hx⟩ | ⟨-, hx⟩ <;> omega
  · rcases nearest_cases (x := x) with ⟨hlt, -⟩ | ⟨htie, -⟩ | ⟨-, hx⟩
    · exact absurd h hlt.not_gt
    · exact absurd h htie.not_gt
    · omega

theorem place_of_lt_two {q : ℚ} (hle : 1 ≤ q) (hlt : q < 2) : place q = -52 := by
  have hpos : 0 < q := one_pos.trans_le hle
  have hlow : (2 : ℚ) ^ (0 : Int) ≤ q := by rwa [zpow_zero]
  have hhigh : q < (2 : ℚ) ^ (1 : Int) := by rwa [zpow_one]
  rw [show (2 : ℚ) = (2 : Nat) from rfl, Int.zpow_le_iff_le_log one_lt_two hpos] at hlow
  rw [show (2 : ℚ) = (2 : Nat) from rfl, Int.lt_zpow_iff_log_lt one_lt_two hpos] at hhigh
  unfold place
  omega

theorem closest_one : closest 1 = .finite .positive (2 ^ 52) (-52) (by decide) := by
  have hexact := closest_of_inFormat (m := 2 ^ 52) (e := -52) (by decide)
    ⟨by decide, by decide, .inl le_rfl⟩ (by decide)
  norm_num at hexact
  exact hexact

/-- What exceeds one by more than half of its last place is told from it. -/
theorem one_lt_closest {q : ℚ} (hq : 1 + 1 / 2 ^ 53 < q) :
    ∃ k ∈ key (closest 1), ∃ l ∈ key (closest q), k < l := by
  -- It is enough to look at what has the same last place as one.
  obtain ⟨c, hc⟩ : ∃ c, min q (3 / 2) = c := ⟨_, rfl⟩
  have hlow : 1 + 1 / 2 ^ 53 < c := hc ▸ lt_min hq (by norm_num)
  have hhigh : c ≤ 3 / 2 := hc ▸ min_le_right q _
  have hplace : place c = -52 := place_of_lt_two (by linarith) (by linarith)
  have hscaled : c / 2 ^ place c = c * 2 ^ 52 := by
    rw [hplace, zpow_neg, div_inv_eq_mul]
    norm_cast
  have hmore : 2 ^ 52 < mantissa c := by
    refine lt_nearest ?_
    rw [hscaled]
    push_cast
    linarith
  have hless : mantissa c ≤ 3 * 2 ^ 51 := by
    have hmono := nearest_mono (x := c * 2 ^ 52) (y := (3 * 2 ^ 51 : Nat)) (by
      push_cast
      linarith)
    rwa [nearest_natCast, ← hscaled] at hmono
  have hclosest : closest c = .finite .positive (mantissa c) (place c) (by omega) := by
    unfold closest rounded
    rw [dif_neg (by omega), if_pos (by omega)]
    exact unpack_pack_of_inFormat _ ⟨by omega, by omega, .inl hmore.le⟩ (by omega)
  obtain ⟨k, hk, l, hl, hle⟩ := key_closest_mono (by linarith) (hc ▸ min_le_left q _ : c ≤ q)
  rw [hclosest] at hk
  cases hk
  rw [closest_one]
  refine ⟨_, rfl, l, hl, LT.lt.trans_le ?_ hle⟩
  rw [hplace]
  simp only [Prod.Lex.toLex_lt_toLex, lt_irrefl, true_and, false_or]
  exact_mod_cast hmore

/-! ### Counts over a unit -/

/-- After a number that can be represented, one more in its last place can be. -/
theorem closest_succ {m : Nat} {e : Int} (h : InFormat m e) (hlarge : e < 971) :
    ∃ m' e' hm', closest ((m + 1) * 2 ^ e) = .finite .positive m' e' hm' ∧
      (m' : ℚ) * 2 ^ e' = (m + 1) * 2 ^ e := by
  have hlt := h.lt
  have hle := h.le
  rcases eq_or_ne (m + 1) (2 ^ 53) with hfull | hroom
  · have hsame : (m + 1 : ℚ) * 2 ^ e = (2 ^ 52 : Nat) * 2 ^ (e + 1) := by
      rw [zpow_add₀ two_ne_zero, ← Nat.cast_succ, Nat.succ_eq_add_one, hfull]
      push_cast
      ring
    refine ⟨2 ^ 52, e + 1, by decide, ?_, hsame.symm⟩
    rw [hsame]
    exact closest_of_inFormat _ ⟨by decide, by omega, .inl le_rfl⟩ (by omega)
  · refine ⟨m + 1, e, Nat.succ_pos m, ?_, by push_cast; rfl⟩
    have hformat : InFormat (m + 1) e :=
      ⟨by omega, hle, h.full.imp (fun hbit => Nat.le_succ_of_le hbit) id⟩
    have hexact := closest_of_inFormat (Nat.succ_pos m) hformat (by omega)
    push_cast at hexact
    exact hexact

theorem exponent_nonpos {m : Nat} {e : Int} (h : InFormat m e) (hlt : (m : ℚ) * 2 ^ e < 2 ^ 53) :
    e ≤ 0 := by
  by_contra hpos
  have hfull : 2 ^ 52 ≤ m := h.full.resolve_right (by omega)
  refine hlt.not_ge ?_
  calc (2 : ℚ) ^ 53 = (2 ^ 52 : Nat) * 2 ^ (1 : Int) := by norm_num
    _ ≤ m * 2 ^ e := mul_le_mul (by exact_mod_cast hfull)
        (zpow_le_zpow_right₀ one_le_two (by omega)) (by positivity) (by positivity)

/-- A natural number beyond the divisor is at least one more in the last place of it. -/
theorem succ_le_of_lt {m n : Nat} {e : Int} (he : e ≤ 0) (h : (m : ℚ) * 2 ^ e < n) :
    (m + 1 : ℚ) * 2 ^ e ≤ n := by
  obtain ⟨k, hk⟩ : ∃ k : Nat, e = -k := ⟨e.natAbs, by omega⟩
  rw [hk, zpow_neg, zpow_natCast, ← div_eq_mul_inv] at h ⊢
  rw [div_lt_iff₀ (by positivity)] at h
  rw [div_le_iff₀ (by positivity)]
  exact_mod_cast h

theorem one_lt_div {a : Float} {u : ℚ} {n : Nat} (h : number? a = some u) (hpos : 0 < u)
    (hsmall : u < 2 ^ 53) (hn : u < n) : Float.ofNat 1 < Float.ofNat n / a := by
  rcases exists_inFormat h hpos with ⟨m, e, hm, hunpack, rfl, hformat, -⟩
  have he := exponent_nonpos hformat hsmall
  have hnpos : 0 < n := by exact_mod_cast hpos.trans hn
  rcases closest_succ hformat (by omega) with ⟨m₁, e₁, h₁, hfirst, hvalue⟩
  rw [lt_iff, unpack_div, hunpack, unpack_ofNat one_pos, unpack_ofNat hnpos, Nat.cast_one]
  rcases closest_mono (by positivity) (succ_le_of_lt he hn) with hzero | ⟨hlast, -⟩ |
    ⟨_, _, _, m₂, e₂, h₂, hfirst', hlast, hle, -⟩
  · rw [hfirst] at hzero
    exact absurd hzero nofun
  · have hinfinity : quotient (.infinity .positive) (.finite .positive m e hm)
        = .infinity .positive := unpack_pack_infinity _
    rw [hlast, hinfinity, closest_one]
    exact ⟨_, rfl, _, rfl, by simp [Prod.Lex.toLex_lt_toLex]⟩
  · rw [hfirst] at hfirst'
    cases hfirst'
    rw [hlast, quotient_finite]
    refine one_lt_closest ?_
    have hbound : (m : ℚ) < 2 ^ 53 := by exact_mod_cast hformat.lt
    rw [lt_div_iff₀ (by positivity)]
    calc (1 + 1 / 2 ^ 53 : ℚ) * (m * 2 ^ e) = (m + m / 2 ^ 53) * 2 ^ e := by ring
      _ < (m + 1 : ℚ) * 2 ^ e := by
        refine mul_lt_mul_of_pos_right ?_ (by positivity)
        rwa [add_lt_add_iff_left, div_lt_one (by positivity)]
      _ = (m₁ : ℚ) * 2 ^ e₁ := hvalue.symm
      _ ≤ (m₂ : ℚ) * 2 ^ e₂ := hle

/-- A quotient is told from one exactly as the numbers are told apart. -/
theorem one_lt_div_iff {a : Float} {u : ℚ} {n : Nat} (h : number? a = some u) (hpos : 0 < u)
    (hsmall : u < 2 ^ 53) : Float.ofNat 1 < Float.ofNat n / a ↔ u < n := by
  refine ⟨fun hlt => not_le.mp fun hle => not_lt_of_le ?_ hlt, one_lt_div h hpos hsmall⟩
  rcases exists_inFormat h hpos with ⟨m, e, hm, -, rfl, hformat, hlarge⟩
  exact div_le_ofNat h hpos hm hformat hlarge (by rw [Nat.cast_one, one_mul])
    (by rwa [Nat.cast_one, one_mul])

/-- A number that is no more than twice the divisor gives a quotient below three. -/
theorem div_lt_three {a : Float} {u : ℚ} {n : Nat} (h : number? a = some u) (hone : 1 ≤ u)
    (hsmall : u < 2 ^ 53) (hn : (n : ℚ) ≤ 2 * u) : Float.ofNat n / a < Float.ofNat 3 := by
  have hpos : 0 < u := one_pos.trans_le hone
  refine lt_of_le_of_lt (b := Float.ofNat 2) ?_ (by decide +kernel)
  rcases exists_inFormat h hpos with ⟨m, e, hm, -, rfl, hformat, -⟩
  have he := exponent_nonpos hformat hsmall
  have hfull : 2 ^ 52 ≤ m := hformat.full.resolve_right fun hleast => by
    refine hone.not_gt ?_
    rw [hleast]
    calc (m : ℚ) * 2 ^ (-1074 : Int) < 2 ^ (53 : Int) * 2 ^ (-1074 : Int) :=
          mul_lt_mul_of_pos_right (by exact_mod_cast hformat.lt) (by positivity)
      _ = 2 ^ (-1021 : Int) := by rw [← zpow_add₀ two_ne_zero]; rfl
      _ ≤ 2 ^ (0 : Int) := zpow_le_zpow_right₀ one_le_two (by decide)
      _ = 1 := zpow_zero 2
  have hle := hformat.le
  refine div_le_ofNat (m := m) (e := e + 1) h hpos hm ⟨hformat.lt, by omega, .inl hfull⟩ (by omega)
    ?_ hn
  rw [zpow_add₀ two_ne_zero]
  push_cast
  ring

end Rounding

namespace RealTime

/-- The time unit lasts `u` milliseconds, a millisecond at least and few enough to be counted
    one by one. -/
structure HasUnit (r : RealTime) (u : ℚ) : Prop where
  number : Rounding.number? r.unit = some u
  one_le : 1 ≤ u
  lt : u < 2 ^ 53

namespace HasUnit

variable {r : RealTime} {u : ℚ} {n : Nat}

theorem pos (h : r.HasUnit u) : 0 < u := one_pos.trans_le h.one_le

/-- The time between two steps is a quarter of a time unit, rounded down once. -/
theorem pollPeriod_eq (h : r.HasUnit u) : r.pollPeriod = Duration.ofMillis ⌊u / 4⌋₊ := by
  rw [RealTime.pollPeriod, Rounding.toUInt64_toNat h.number h.pos h.lt]
  congr 1
  exact_mod_cast (Nat.floor_div_natCast u 4).symm

/-- A reading is beyond one just if the count is beyond the unit. -/
theorem one_lt_div_iff (h : r.HasUnit u) : Float.ofNat 1 < Float.ofNat n / r.unit ↔ u < n :=
  Rounding.one_lt_div_iff h.number h.pos h.lt

theorem div_lt_three (h : r.HasUnit u) (hn : (n : ℚ) ≤ 2 * u) :
    Float.ofNat n / r.unit < Float.ofNat 3 :=
  Rounding.div_lt_three h.number h.one_le h.lt hn

end HasUnit

end RealTime

end Testbench
