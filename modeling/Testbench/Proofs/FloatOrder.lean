import Testbench.Proofs.Rounding

/-!
# Order of Floats

Floats that stand for natural numbers, or for natural numbers over a unit, are
ordered as these numbers are. Readings of a clock are such floats.

Floats are compared part by part, which is a lexicographic order. There is no such
order on what is not a number, so every statement on a quotient has to exclude it;
a quotient that is known to be positive was not divided by anything of the kind.

## Main definitions

* `key`: Where a float stands among the others.
* `closest`: The float that is closest to a positive number.

## Theorems

* `unpack_pack_of_inFormat`, `unpack_pack_of_large`: What is packed can be unpacked
  unless it is too large, which gives infinity.
* `ofNat_mono`: Larger numbers give larger floats.
* `le_ofNat_iff`, `lt_ofNat_iff`: Comparisons with a small number.
* `div_mono`: Dividing by a unit keeps the order.
-/

namespace Testbench

namespace Rounding

open Float.Model Float.Model.UnpackedFloat

/-! ### Packed and unpacked -/

theorem unpack_normal {e : BitVec 11} {m : BitVec 52} {n : Nat} (hn : 0 < n)
    (hmantissa : (1#1 ++ m).toNat = n) (hbottom : e ≠ 0#11) (htop : e ≠ -1#11) :
    UnpackedFloat.unpack Format.binary64 (packComponents Format.binary64 .positive e m)
      = .finite .positive n (e.toNat - 1075) hn := by
  subst hmantissa
  simp only [UnpackedFloat.unpack, unpackMantissa_packComponents, unpackExponent_packComponents,
    unpackSign_packComponents, Sign.ofBitVec_toBitVec, hbottom, htop, if_false]
  rfl

theorem unpack_subnormal {m : BitVec 52} (hm : 0 < m.toNat) :
    UnpackedFloat.unpack Format.binary64 (packComponents Format.binary64 .positive 0#11 m)
      = .finite .positive m.toNat (-1074) hm := by
  have hsome : m ≠ 0#52 := fun heq => by
    rw [heq] at hm
    exact absurd hm (by decide)
  simp only [UnpackedFloat.unpack, unpackMantissa_packComponents, unpackExponent_packComponents,
    unpackSign_packComponents, Sign.ofBitVec_toBitVec, hsome]
  rfl

/-- Packing keeps what is in the format, up to the largest exponent. It drops the
    leading bit of a full mantissa, and has an exponent of its own for the others. -/
theorem unpack_pack_of_inFormat {m : Nat} {e : Int} (hm : 0 < m) (h : InFormat m e)
    (hlarge : e ≤ 971) :
    (Float.Model.pack (.finite .positive m e hm)).unpack = .finite .positive m e hm := by
  have hleast := h.le
  have hbound := h.lt
  obtain ⟨b, hb⟩ : ∃ b : Nat, (e + (1023 : Nat) + (52 : Nat)).toNat = b := ⟨_, rfl⟩
  have hsmall : ¬ 2048 ≤ b + 1 := by omega
  have hexponent : (BitVec.ofNat 11 b).toNat = b := Nat.mod_eq_of_lt (by omega)
  change UnpackedFloat.unpack Format.binary64
    (UnpackedFloat.pack Format.binary64 (.finite .positive m e hm)) = _
  -- A mantissa without its leading bit is at the last place, which has exponent zero.
  rcases Nat.lt_or_ge m (2 ^ 52) with hlow | hfull
  · have hlog : m.log2 + 1 ≠ 53 := by
      have := (Nat.log2_lt hm.ne').mpr hlow
      omega
    have hmantissa : (BitVec.ofNat 52 m).toNat = m := Nat.mod_eq_of_lt hlow
    have hpack : UnpackedFloat.pack Format.binary64 (.finite .positive m e hm)
        = packComponents Format.binary64 .positive 0#11 (BitVec.ofNat 52 m) := by
      change (if 2048 ≤ (e + (1023 : Nat) + (52 : Nat)).toNat + 1 then _
        else if m.log2 + 1 = 53 then _ else _) = _
      rw [hb, if_neg hsmall, if_neg hlog]
    have hlast : e = -1074 := h.full.resolve_left (by omega)
    rw [hpack, unpack_subnormal (hmantissa.symm ▸ hm)]
    simp only [hmantissa, hlast]
  · have hlog : m.log2 + 1 = 53 := by
      have h1 := (Nat.log2_lt hm.ne').mpr hbound
      have h2 := (Nat.le_log2 hm.ne').mpr hfull
      omega
    have hmantissa : (1#1 ++ BitVec.ofNat 52 m).toNat = m := by
      rw [BitVec.toNat_append]
      change 1 <<< 52 ||| m % 2 ^ 52 = m
      rw [← Nat.shiftLeft_add_eq_or_of_lt (Nat.mod_lt _ (by decide)), Nat.shiftLeft_eq]
      omega
    have htop : BitVec.ofNat 11 b ≠ -1#11 := fun heq => by
      have := congrArg BitVec.toNat heq
      rw [hexponent] at this
      change b = 2047 at this
      omega
    have hbottom : BitVec.ofNat 11 b ≠ 0#11 := fun heq => by
      have := congrArg BitVec.toNat heq
      rw [hexponent] at this
      change b = 0 at this
      omega
    have hpack : UnpackedFloat.pack Format.binary64 (.finite .positive m e hm)
        = packComponents Format.binary64 .positive (BitVec.ofNat 11 b) (BitVec.ofNat 52 m) := by
      subst hb
      change (if 2048 ≤ (e + (1023 : Nat) + (52 : Nat)).toNat + 1 then _
        else if m.log2 + 1 = 53 then _ else _) = _
      rw [if_neg hsmall, if_pos hlog]
      rfl
    have hunbiased : (b : Int) - 1075 = e := by omega
    rw [hpack, unpack_normal hm hmantissa hbottom htop]
    simp only [hexponent, hunbiased]

theorem unpack_pack_of_large {m : Nat} {e : Int} (hm : 0 < m) (hlarge : 971 < e) :
    (Float.Model.pack (.finite .positive m e hm)).unpack = .infinity .positive := by
  have hbiased : 2 ^ Format.binary64.exponentBits
      ≤ (e + Format.binary64.exponentBias
        + Format.binary64.mantissaBitsWithoutImplicit).toNat + 1 := by
    change 2048 ≤ (e + (1023 : Nat) + (52 : Nat)).toNat + 1
    omega
  unfold Float.Model.pack Float.Model.unpack
  simp only [UnpackedFloat.pack, if_pos hbiased]
  rfl

/-! ### Order -/

/-- Where a float stands among the others: by its kind, then by its exponent, then by
    its mantissa. -/
def key : UnpackedFloat → Option (Int ×ₗ Int ×ₗ Int)
  | .notANumber => none
  | .infinity .negative => some (toLex (-2, toLex (0, 0)))
  | .finite .negative m e _ => some (toLex (-1, toLex (-e, -m)))
  | .zero _ => some (toLex (0, toLex (0, 0)))
  | .finite .positive m e _ => some (toLex (1, toLex (e, (m : Int))))
  | .infinity .positive => some (toLex (2, toLex (0, 0)))

theorem key_le_infinity {a : UnpackedFloat} {k : Int ×ₗ Int ×ₗ Int} (hk : k ∈ key a) :
    k ≤ toLex (2, toLex (0, 0)) := by
  rcases a with (_ | _) | _ | (_ | _) | ⟨_ | _, m, e, _⟩ <;> cases hk <;>
    simp [Prod.Lex.toLex_le_toLex]

theorem compare_eq_lt {a b : UnpackedFloat} :
    a.compare b = some .lt ↔ ∃ p ∈ key a, ∃ q ∈ key b, p < q := by
  have hsign : compare Sign.negative Sign.positive = .lt := rfl
  rcases a with (_ | _) | _ | (_ | _) | ⟨_ | _, m, e, _⟩ <;>
    rcases b with (_ | _) | _ | (_ | _) | ⟨_ | _, m', e', _⟩ <;>
    simp [UnpackedFloat.compare, key, Prod.Lex.toLex_lt_toLex, Ordering.then_eq_lt,
      Ordering.swap_then, compare_lt_iff_lt, compare_gt_iff_gt, hsign]

theorem compare_eq_eq {a b : UnpackedFloat} :
    a.compare b = some .eq ↔ ∃ p ∈ key a, ∃ q ∈ key b, q = p := by
  have hsign : compare Sign.negative Sign.positive = .lt := rfl
  have hsign' : compare Sign.positive Sign.negative = .gt := rfl
  have hsame : ∀ s : Sign, compare s s = .eq := by rintro (_ | _) <;> rfl
  rcases a with (_ | _) | _ | (_ | _) | ⟨_ | _, m, e, _⟩ <;>
    rcases b with (_ | _) | _ | (_ | _) | ⟨_ | _, m', e', _⟩ <;>
    simp [UnpackedFloat.compare, key, Ordering.then_eq_eq,
      Ordering.swap_then, hsign, hsign', hsame] <;>
    omega

theorem lt_iff {a b : Float} :
    a < b ↔ ∃ p ∈ key a.toModel.unpack, ∃ q ∈ key b.toModel.unpack, p < q := by
  rw [← compare_eq_lt]
  change (decide (a.toModel < b.toModel)) = true ↔ _
  rw [decide_eq_true_iff]
  change (a.toModel.unpack.compare b.toModel.unpack == some .lt) = true ↔ _
  rw [beq_iff_eq]

theorem le_iff {a b : Float} :
    a ≤ b ↔ ∃ p ∈ key a.toModel.unpack, ∃ q ∈ key b.toModel.unpack, p ≤ q := by
  have hsplit : a ≤ b ↔ a.toModel.unpack.compare b.toModel.unpack = some .lt
      ∨ a.toModel.unpack.compare b.toModel.unpack = some .eq := by
    change (decide (a.toModel ≤ b.toModel)) = true ↔ _
    rw [decide_eq_true_iff]
    change (a.toModel.unpack.compare b.toModel.unpack).any (·.isLE) = true ↔ _
    rcases a.toModel.unpack.compare b.toModel.unpack with _ | _ | _ | _ <;> simp
  rw [hsplit, compare_eq_lt, compare_eq_eq]
  constructor
  · rintro (⟨p, hp, q, hq, hlt⟩ | ⟨p, hp, q, hq, heq⟩)
    · exact ⟨p, hp, q, hq, hlt.le⟩
    · exact ⟨p, hp, q, hq, heq.ge⟩
  · rintro ⟨p, hp, q, hq, hle⟩
    rcases hle.lt_or_eq with hlt | heq
    · exact .inl ⟨p, hp, q, hq, hlt⟩
    · exact .inr ⟨p, hp, q, hq, heq.symm⟩

theorem lt_of_le_of_lt {a b c : Float} (hab : a ≤ b) (hbc : b < c) : a < c := by
  rw [le_iff] at hab
  rw [lt_iff] at hbc ⊢
  obtain ⟨p, hp, q, hq, hle⟩ := hab
  obtain ⟨q', hq', r, hr, hlt⟩ := hbc
  rw [Option.mem_unique hq' hq] at hlt
  exact ⟨p, hp, r, hr, hle.trans_lt hlt⟩

theorem lt_of_lt_of_le {a b c : Float} (hab : a < b) (hbc : b ≤ c) : a < c := by
  rw [lt_iff] at hab ⊢
  rw [le_iff] at hbc
  obtain ⟨p, hp, q, hq, hlt⟩ := hab
  obtain ⟨q', hq', r, hr, hle⟩ := hbc
  rw [Option.mem_unique hq' hq] at hle
  exact ⟨p, hp, r, hr, hlt.trans_le hle⟩

theorem not_lt_of_le {a b : Float} (h : a ≤ b) : ¬ b < a := by
  rw [le_iff] at h
  rw [lt_iff]
  rintro ⟨q, hq, p, hp, hlt⟩
  obtain ⟨p', hp', q', hq', hle⟩ := h
  rw [Option.mem_unique hp' hp, Option.mem_unique hq' hq] at hle
  exact hle.not_gt hlt

/-! ### The closest float -/

/-- The float that is closest to a positive number. -/
def closest (q : ℚ) : UnpackedFloat := (Float.Model.pack (rounded q)).unpack

theorem closest_cases {q : ℚ} (hq : 0 < q) :
    (mantissa q = 0 ∧ closest q = .zero .positive) ∨
    (∃ m e hm, rounded q = .finite .positive m e hm ∧ InFormat m e ∧ e ≤ 971 ∧
      closest q = .finite .positive m e hm) ∨
    (∃ m e hm, rounded q = .finite .positive m e hm ∧ 971 < e ∧
      closest q = .infinity .positive) := by
  rcases eq_or_ne (mantissa q) 0 with hzero | hsome
  · refine .inl ⟨hzero, ?_⟩
    unfold closest rounded
    rw [dif_pos hzero]
    rfl
  · obtain ⟨m, e, hm, hrounded, hformat⟩ := exists_rounded hq hsome
    refine .inr ?_
    unfold closest
    simp only [hrounded]
    rcases le_or_gt e 971 with hle | hlt
    · exact .inl ⟨m, e, hm, rfl, hformat, hle, unpack_pack_of_inFormat hm hformat hle⟩
    · exact .inr ⟨m, e, hm, rfl, hlt, unpack_pack_of_large hm hlt⟩

/-- The value of a mantissa with an exponent follows their order. -/
theorem value_mono {m m' : Nat} {e e' : Int} (h : InFormat m e) (h' : InFormat m' e')
    (hmono : e < e' ∨ e = e' ∧ m ≤ m') : (m : ℚ) * 2 ^ e ≤ m' * 2 ^ e' := by
  rcases hmono with hlt | ⟨rfl, hle⟩
  · have hleast := h.le
    have hfull : 2 ^ 52 ≤ m' := h'.full.resolve_right (by omega)
    calc (m : ℚ) * 2 ^ e
      _ ≤ 2 ^ (53 : Int) * 2 ^ e :=
          mul_le_mul_of_nonneg_right (by exact_mod_cast h.lt.le) (by positivity)
      _ = 2 ^ (53 + e) := by rw [zpow_add₀ two_ne_zero]
      _ ≤ 2 ^ (52 + e') := zpow_le_zpow_right₀ one_le_two (by omega)
      _ = 2 ^ (52 : Int) * 2 ^ e' := by rw [zpow_add₀ two_ne_zero]
      _ ≤ m' * 2 ^ e' := mul_le_mul_of_nonneg_right (by exact_mod_cast hfull) (by positivity)
  · exact mul_le_mul_of_nonneg_right (by exact_mod_cast hle) (by positivity)

/-- A larger number is rounded to a larger float, which may be infinity. -/
theorem closest_mono {p q : ℚ} (hp : 0 < p) (h : p ≤ q) :
    closest p = .zero .positive ∨
    (closest q = .infinity .positive ∧
      (closest p = .infinity .positive ∨ ∃ m e hm, closest p = .finite .positive m e hm)) ∨
    ∃ m e hm m' e' hm', closest p = .finite .positive m e hm ∧
      closest q = .finite .positive m' e' hm' ∧ (m : ℚ) * 2 ^ e ≤ m' * 2 ^ e' ∧
      (e < e' ∨ e = e' ∧ m ≤ m') := by
  rcases closest_cases hp with ⟨-, hfirst⟩ | ⟨m, e, hm, hrounded, hformat, hle, hfirst⟩ |
    ⟨m, e, hm, hrounded, hlt, hfirst⟩
  · exact .inl hfirst
  all_goals
    obtain ⟨m', e', hm', hrounded', hformat', hmono⟩ := rounded_mono hp h hrounded
    rcases closest_cases (hp.trans_le h) with ⟨hzero, -⟩ | ⟨_, _, _, hsame, -, hle', hlast⟩ |
      ⟨_, _, _, hsame, hlt', hlast⟩
    · rw [rounded, dif_pos hzero] at hrounded'
      cases hrounded'
  · cases hrounded'.symm.trans hsame
    exact .inr (.inr
      ⟨m, e, hm, m', e', hm', hfirst, hlast, value_mono hformat hformat' hmono, hmono⟩)
  · exact .inr (.inl ⟨hlast, .inr ⟨m, e, hm, hfirst⟩⟩)
  · cases hrounded'.symm.trans hsame
    omega
  · exact .inr (.inl ⟨hlast, .inl hfirst⟩)

theorem key_closest {q : ℚ} (hq : 0 < q) : ∃ k ∈ key (closest q), toLex (0, toLex (0, 0)) ≤ k := by
  rcases closest_cases hq with ⟨-, h⟩ | ⟨_, _, _, -, -, -, h⟩ | ⟨_, _, _, -, -, h⟩
  all_goals
    rw [h]
    exact ⟨_, rfl, by simp [Prod.Lex.toLex_le_toLex]⟩

theorem key_closest_mono {p q : ℚ} (hp : 0 < p) (h : p ≤ q) :
    ∃ k ∈ key (closest p), ∃ l ∈ key (closest q), k ≤ l := by
  rcases closest_mono hp h with hzero | ⟨hlast, hfirst | ⟨m, e, hm, hfirst⟩⟩ |
    ⟨m, e, hm, m', e', hm', hfirst, hlast, -, hmono⟩
  · obtain ⟨l, hl, hle⟩ := key_closest (hp.trans_le h)
    rw [hzero]
    exact ⟨_, rfl, l, hl, hle⟩
  · rw [hfirst, hlast]
    exact ⟨_, rfl, _, rfl, le_rfl⟩
  · rw [hfirst, hlast]
    exact ⟨_, rfl, _, rfl, by simp [Prod.Lex.toLex_le_toLex]⟩
  · rw [hfirst, hlast]
    have hlex : toLex (e, (m : Int)) ≤ toLex (e', (m' : Int)) := by
      rw [Prod.Lex.toLex_le_toLex]
      omega
    exact ⟨_, rfl, _, rfl, Prod.Lex.toLex_le_toLex.mpr (.inr ⟨rfl, hlex⟩)⟩

/-- Multiplying by one changes nothing. -/
theorem mul_one_closest {q : ℚ} (hq : 0 < q) :
    (Float.Model.pack (UnpackedFloat.mul Format.binary64 (closest q)
      (.finite .positive (2 ^ 52) (-52) (by decide)))).unpack = closest q := by
  rcases closest_cases hq with ⟨-, h⟩ | ⟨m, e, hm, -, hformat, hle, h⟩ | ⟨_, _, _, -, -, h⟩
  · rw [h]
    rfl
  · have hone : (m : ℚ) * 2 ^ e * (((2 ^ 52 : Nat) : ℚ) * 2 ^ (-52 : Int)) = m * 2 ^ e := by
      norm_num
    have hplace := place_of_inFormat hm hformat
    rw [h, mul_eq hm (by decide) (by rw [hone, hplace]; omega), hone,
      rounded_of_inFormat hm hformat]
    exact unpack_pack_of_inFormat hm hformat hle
  · rw [h]
    rfl

theorem unpack_ofNat_zero : (Float.ofNat 0).toModel.unpack = .zero .positive := by
  rfl

theorem unpack_toFloat {n : Nat} (hn : 0 < n) (hsmall : n < 2 ^ 53) :
    n.toUInt64.toFloat.toModel.unpack = closest n := by
  have htoNat : n.toUInt64.toNat = n := Nat.mod_eq_of_lt (by omega)
  have hpos : compare (n : Int) 0 = .gt := Int.compare_eq_gt.mpr (by omega)
  have hround := round_eq 0 hn
  rw [zpow_zero, mul_one] at hround
  change (Float.Model.pack (UnpackedFloat.normalize Format.binary64 (n.toUInt64.toNat : Nat) 0
    .positive)).unpack = _
  simp only [htoNat, UnpackedFloat.normalize, hpos, Int.toNat_natCast, hround]
  rfl

theorem ofScientific_eq {n : Nat} (hn : 0 < n) :
    UnpackedFloat.ofScientific Format.binary64 n 0 = rounded n := by
  have hn' : (0 : ℚ) < n := by exact_mod_cast hn
  have hpos : 0 < n <<< 53 := by
    rw [Nat.shiftLeft_eq]
    positivity
  have hsame : ((n <<< 53 : Nat) : ℚ) * 2 ^ (-53 : Int) * ((1 : Nat) * 2 ^ (0 : Int)) = n := by
    rw [Nat.shiftLeft_eq]
    norm_num
    ring
  have hplace : -53 + 0 ≤ place n := by
    have hlog : 0 ≤ Int.log 2 (n : ℚ) := by
      rw [← Int.zpow_le_iff_le_log one_lt_two hn', zpow_zero]
      exact_mod_cast hn
    unfold place
    omega
  have hmul : UnpackedFloat.ofScientific Format.binary64 n 0
      = UnpackedFloat.mul Format.binary64 (.finite .positive (n <<< 53) (-53) hpos)
          (.finite .positive 1 0 Nat.one_pos) := by
    unfold UnpackedFloat.ofScientific
    rw [dif_neg hn.ne', if_neg (by decide),
      if_neg (by change ¬ (0 : Int) < -(2048 + n.log2); omega), if_pos le_rfl]
    rfl
  rw [hmul, mul_eq hpos Nat.one_pos (by rw [hsame]; exact hplace), hsame]

theorem unpack_mul (a b : Float) :
    (a * b).toModel.unpack = (Float.Model.pack
      (UnpackedFloat.mul Format.binary64 a.toModel.unpack b.toModel.unpack)).unpack :=
  rfl

theorem unpack_one : Float.exactlyRepresentablePowersOfTen[0].toModel.unpack
    = .finite .positive (2 ^ 52) (-52) (by decide) := by
  rfl

/-- A natural number is read at once if it fits a mantissa, and by way of a decimal
    fraction if it does not. -/
theorem unpack_ofNat {n : Nat} (hn : 0 < n) : (Float.ofNat n).toModel.unpack = closest n := by
  change (Float.ofScientific n false 0).toModel.unpack = _
  unfold Float.ofScientific
  rcases Nat.lt_or_ge n (2 ^ 53) with hsmall | hlarge
  · rw [dif_pos ⟨hsmall, by decide⟩, ← mul_one_closest (q := n) (by exact_mod_cast hn),
      ← unpack_toFloat hn hsmall, ← unpack_one, ← unpack_mul]
    rfl
  · rw [dif_neg (by omega)]
    change (Float.Model.pack (UnpackedFloat.ofScientific Format.binary64 n 0)).unpack = _
    rw [ofScientific_eq hn]
    rfl

/-- Larger numbers give larger floats. -/
theorem ofNat_mono {m n : Nat} (h : m ≤ n) : Float.ofNat m ≤ Float.ofNat n := by
  rw [le_iff]
  rcases Nat.eq_zero_or_pos m with rfl | hm
  · rw [unpack_ofNat_zero]
    rcases Nat.eq_zero_or_pos n with rfl | hn
    · rw [unpack_ofNat_zero]
      exact ⟨_, rfl, _, rfl, le_rfl⟩
    · obtain ⟨l, hl, hle⟩ := key_closest (q := n) (by exact_mod_cast hn)
      rw [unpack_ofNat hn]
      exact ⟨_, rfl, l, hl, hle⟩
  · rw [unpack_ofNat hm, unpack_ofNat (hm.trans_le h)]
    exact key_closest_mono (by exact_mod_cast hm) (by exact_mod_cast h)

/-! A float tells a number from its predecessor as long as the two are apart. -/

theorem lt_ofNat_iff {k n : Nat} (hstep : Float.ofNat k < Float.ofNat (k + 1)) :
    Float.ofNat k < Float.ofNat n ↔ k < n := by
  constructor
  · intro hlt
    by_contra hle
    exact not_lt_of_le (ofNat_mono (not_lt.mp hle)) hlt
  · exact fun hlt => lt_of_lt_of_le hstep (ofNat_mono hlt)

theorem le_ofNat_iff {k n : Nat} (hstep : Float.ofNat k < Float.ofNat (k + 1)) :
    Float.ofNat (k + 1) ≤ Float.ofNat n ↔ k + 1 ≤ n := by
  refine ⟨fun hle => ?_, ofNat_mono⟩
  by_contra hlt
  exact not_lt_of_le (ofNat_mono (Nat.le_of_lt_succ (not_le.mp hlt))) (lt_of_lt_of_le hstep hle)

/-! ### Quotients -/

/-- The sign of a negative number outlives its packing. -/
theorem key_pack_negative {m : Nat} {e : Int} (hm : 0 < m) {k : Int ×ₗ Int ×ₗ Int}
    (hk : k ∈ key (Float.Model.pack (.finite .negative m e hm)).unpack) :
    k ≤ toLex (0, toLex (0, 0)) := by
  have hcomponents : ∀ (exponent : BitVec 11) (mantissa : BitVec 52),
      k ∈ key (UnpackedFloat.unpack Format.binary64
        (packComponents Format.binary64 .negative exponent mantissa)) →
      k ≤ toLex (0, toLex (0, 0)) := by
    intro exponent mantissa
    simp only [UnpackedFloat.unpack, unpackMantissa_packComponents, unpackExponent_packComponents,
      unpackSign_packComponents, Sign.ofBitVec_toBitVec]
    split_ifs <;> rintro ⟨⟩ <;> simp [Prod.Lex.toLex_le_toLex]
  change k ∈ key (UnpackedFloat.unpack Format.binary64
    (UnpackedFloat.pack Format.binary64 (.finite .negative m e hm))) at hk
  unfold UnpackedFloat.pack packedInfinity at hk
  simp only at hk
  split_ifs at hk <;> exact hcomponents _ _ hk

theorem key_pack_round_negative (m : Nat) (e : Int) (accuracy : Accuracy)
    {k : Int ×ₗ Int ×ₗ Int} (hk : k ∈ key (Float.Model.pack
      (roundWithAccuracy Format.binary64 .negative m e accuracy)).unpack) :
    k ≤ toLex (0, toLex (0, 0)) := by
  unfold roundWithAccuracy at hk
  simp only at hk
  split at hk
  · cases hk
    rfl
  · exact key_pack_negative _ hk

theorem unpack_pack_zero (s : Sign) : (Float.Model.pack (.zero s)).unpack = .zero s := by
  cases s <;> rfl

theorem unpack_pack_infinity (s : Sign) :
    (Float.Model.pack (.infinity s)).unpack = .infinity s := by
  cases s <;> rfl

theorem unpack_pack_notANumber : (Float.Model.pack .notANumber).unpack = .notANumber := by
  rfl

/-- The quotient of two floats, taken apart. -/
def quotient (a d : UnpackedFloat) : UnpackedFloat :=
  (Float.Model.pack (UnpackedFloat.div Format.binary64 a d)).unpack

theorem unpack_div (a d : Float) :
    (a / d).toModel.unpack = quotient a.toModel.unpack d.toModel.unpack :=
  rfl

theorem key_quotient_zero {d : UnpackedFloat} {k : Int ×ₗ Int ×ₗ Int}
    (hk : k ∈ key (quotient (.zero .positive) d)) : k = toLex (0, toLex (0, 0)) := by
  rcases d with s | _ | s | ⟨s, _, _, _⟩
  all_goals
    simp only [quotient, UnpackedFloat.div, unpack_pack_zero, unpack_pack_notANumber, key] at hk
    cases hk
  all_goals rfl

/-- Only what is positive itself gives a positive quotient. -/
theorem divisor_of_pos {a d : UnpackedFloat} {k : Int ×ₗ Int ×ₗ Int}
    (ha : a = .infinity .positive ∨ ∃ m e hm, a = .finite .positive m e hm)
    (hk : k ∈ key (quotient a d)) (hpos : toLex (0, toLex (0, 0)) < k) :
    d = .zero .positive ∨ ∃ m e hm, d = .finite .positive m e hm := by
  have hinfinity :
      ¬ toLex ((0 : Int), toLex ((0 : Int), (0 : Int))) < toLex (-2, toLex (0, 0)) := by
    decide
  rcases d with s | _ | (_ | _) | ⟨_ | _, m', e', hm'⟩
  case zero.positive => exact .inl rfl
  case finite.positive => exact .inr ⟨m', e', hm', rfl⟩
  case zero.negative =>
    have hquotient : quotient a (.zero .negative) = .infinity .negative := by
      rcases ha with rfl | ⟨m, e, hm, rfl⟩ <;> exact unpack_pack_infinity _
    rw [hquotient] at hk
    cases hk
    exact absurd hpos hinfinity
  case finite.negative =>
    rcases ha with rfl | ⟨m, e, hm, rfl⟩
    · have hquotient : quotient (.infinity .positive) (.finite .negative m' e' hm')
          = .infinity .negative := unpack_pack_infinity _
      rw [hquotient] at hk
      cases hk
      exact absurd hpos hinfinity
    · exact absurd (key_pack_round_negative _ _ _ hk) hpos.not_ge
  case infinity =>
    rcases ha with rfl | ⟨m, e, hm, rfl⟩
    · have hquotient : quotient (.infinity .positive) (.infinity s) = .notANumber :=
        unpack_pack_notANumber
      rw [hquotient] at hk
      cases hk
    · have hquotient : ∃ s', quotient (.finite .positive m e hm) (.infinity s) = .zero s' :=
        ⟨_, unpack_pack_zero _⟩
      obtain ⟨s', hquotient⟩ := hquotient
      rw [hquotient] at hk
      cases hk
      exact absurd hpos (lt_irrefl _)
  case notANumber =>
    have hquotient : quotient a .notANumber = .notANumber := by
      rcases ha with rfl | ⟨m, e, hm, rfl⟩ <;> exact unpack_pack_notANumber
    rw [hquotient] at hk
    cases hk

theorem quotient_finite {m₁ m₂ : Nat} {e₁ e₂ : Int} (h₁ : 0 < m₁) (h₂ : 0 < m₂) :
    quotient (.finite .positive m₁ e₁ h₁) (.finite .positive m₂ e₂ h₂)
      = closest (m₁ * 2 ^ e₁ / (m₂ * 2 ^ e₂)) := by
  rw [quotient, div_eq h₁ h₂, closest]

/-- Dividing by a positive number keeps the order. That the first quotient is positive
    says as much of the divisor, and excludes what is not a number. -/
theorem div_mono {m n : Nat} {u : Float} (h : m ≤ n)
    (hpos : Float.ofNat 0 < Float.ofNat m / u) :
    Float.ofNat m / u ≤ Float.ofNat n / u := by
  rw [lt_iff, unpack_ofNat_zero, unpack_div] at hpos
  rw [le_iff, unpack_div, unpack_div]
  obtain ⟨zero, ⟨⟩, k, hk, hpos⟩ := hpos
  rcases Nat.eq_zero_or_pos m with rfl | hm
  · rw [unpack_ofNat_zero] at hk
    exact absurd hpos (key_quotient_zero hk).not_gt
  rw [unpack_ofNat hm] at hk ⊢
  rw [unpack_ofNat (hm.trans_le h)]
  generalize u.toModel.unpack = d at hk ⊢
  -- Infinity is divided like a number, as it is what a number too large is rounded to.
  have hmono := closest_mono (p := m) (q := n) (by exact_mod_cast hm) (by exact_mod_cast h)
  rcases hmono with hzero | ⟨hlast, hfirst | ⟨m₁, e₁, h₁, hfirst⟩⟩ |
    ⟨m₁, e₁, h₁, m₂, e₂, h₂, hfirst, hlast, hle, -⟩
  · rw [hzero] at hk
    exact absurd hpos (key_quotient_zero hk).not_gt
  · rw [hfirst] at hk ⊢
    rw [hlast]
    exact ⟨k, hk, k, hk, le_rfl⟩
  · rw [hfirst] at hk ⊢
    rw [hlast]
    rcases divisor_of_pos (.inr ⟨m₁, e₁, h₁, rfl⟩) hk hpos with rfl | ⟨m', e', h', rfl⟩
    · exact ⟨_, hk, _, hk, le_rfl⟩
    · have hinfinity : quotient (.infinity .positive) (.finite .positive m' e' h')
          = .infinity .positive := unpack_pack_infinity _
      rw [hinfinity]
      exact ⟨k, hk, _, rfl, key_le_infinity hk⟩
  · rw [hfirst] at hk ⊢
    rw [hlast]
    rcases divisor_of_pos (.inr ⟨m₁, e₁, h₁, rfl⟩) hk hpos with rfl | ⟨m', e', h', rfl⟩
    · exact ⟨_, hk, _, hk, le_rfl⟩
    · rw [quotient_finite, quotient_finite]
      exact key_closest_mono (by positivity) (div_le_div_of_nonneg_right hle (by positivity))

end Rounding

end Testbench
