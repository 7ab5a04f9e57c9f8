import Mathlib
import ServiceEngine.Decimal.Reader
import ServiceEngine.Text.Blank

/-!
# Whole numbers as floats

Ids are words of 64 bits, and programs see them as floats. A float has 53 bits for the mantissa, so whole
numbers below `2 ^ 53` are kept, and greater ones are rounded.

1. A number with a full mantissa is what rounding gives and what is stored (`roundWithAccuracy_exact`,
   `unpack_pack`); a number with more bits is rounded to one (`roundWithAccuracy_large`).
2. So a whole number below `2 ^ 53` is read back from its float (`whole?_floatOfNat`), no other word has an
   equal float (`floatOfNat_beq_iff`), and its decimal text is read as this float (`float?_digitsOf`).
-/

namespace ServiceEngine.Decimal

open Float.Model Float.Model.UnpackedFloat

/-! ## Rounding -/

/-- A shift divides the mantissa. -/
theorem mantissa_shiftRight (em : ExtendedMantissa) (count : Nat) :
    (em >>> count).mantissa = em.mantissa / 2 ^ count := by
  induction count with
  | zero => simp [HShiftRight.hShiftRight, Nat.repeat]
  | succ count ih =>
    show (em >>> count).mantissa / 2 = em.mantissa / 2 ^ (count + 1)
    rw [ih, Nat.div_div_eq_div_mul, pow_succ]

/-- Zeros that are shifted out leave no trace. -/
theorem shiftRight_exact (m count : Nat) :
    (⟨m * 2 ^ count, false, false⟩ : ExtendedMantissa) >>> count = ⟨m, false, false⟩ := by
  induction count generalizing m with
  | zero => simp [HShiftRight.hShiftRight, Nat.repeat]
  | succ count ih =>
    show ((⟨m * 2 ^ (count + 1), false, false⟩ : ExtendedMantissa) >>> count).shiftRightOne = _
    have hsplit : m * 2 ^ (count + 1) = m * 2 * 2 ^ count := by ring
    rw [hsplit, ih (m * 2), ExtendedMantissa.shiftRightOne]
    simp

/-- Rounding adds one or nothing. -/
theorem roundedMantissa_cases (em : ExtendedMantissa) :
    em.roundedMantissa = em.mantissa ∨ em.roundedMantissa = em.mantissa + 1 := by
  show em.accuracy.roundToNearestEven em.mantissa = _ ∨ em.accuracy.roundToNearestEven em.mantissa = _
  unfold Accuracy.roundToNearestEven
  split <;> omega

theorem targetExponent_eq (total : Int) (h : -1021 ≤ total) :
    Format.binary64.targetExponent total = total - 53 := by
  simp only [Format.targetExponent, Format.mantissaBits, Format.minExponent]
  norm_num
  omega

/-- Bits beyond the first 53 are shifted out. -/
theorem shiftToTargetExponent_eq (m count : Nat) (e : Int) (hlog : m.log2 = 52 + count)
    (hlow : -1074 ≤ e) :
    shiftToTargetExponent .binary64 m e .exact =
      ((⟨m, false, false⟩ : ExtendedMantissa) >>> count, e + count) := by
  have htarget : Format.binary64.targetExponent (totalExponent m e) = e + count := by
    rw [totalExponent, targetExponent_eq _ (by omega)]
    omega
  have hcount : (e + count - e).toNat = count := by omega
  rw [shiftToTargetExponent, shiftToExponent, htarget, hcount]
  rfl

/-- Zeros at the end make a number longer by as many digits. -/
theorem log2_mul_two_pow {n : Nat} (hpos : 0 < n) (count : Nat) : (n * 2 ^ count).log2 = n.log2 + count := by
  obtain ⟨hlow, hhigh⟩ := (Nat.log2_eq_iff hpos.ne').mp rfl
  have hne : n * 2 ^ count ≠ 0 := Nat.mul_ne_zero hpos.ne' (by positivity)
  refine (Nat.log2_eq_iff hne).mpr ⟨?_, ?_⟩
  · rw [pow_add]
    exact Nat.mul_le_mul_right _ hlow
  · rw [add_right_comm, pow_add]
    exact Nat.mul_lt_mul_of_pos_right hhigh (by positivity)

/-- A mantissa of 53 bits. -/
structure Full (m : Nat) : Prop where
  low : 2 ^ 52 ≤ m
  high : m < 2 ^ 53

theorem Full.pos {m : Nat} (h : Full m) : 0 < m := Nat.lt_of_lt_of_le (by decide) h.low

theorem Full.log2 {m : Nat} (h : Full m) : m.log2 = 52 := (Nat.log2_eq_iff h.pos.ne').mpr ⟨h.low, h.high⟩

/-- The two shifts of a rounding, one before and one after the mantissa is rounded. -/
theorem roundWithAccuracy_eq {sign : Sign} {m : Nat} {e e₁ : Int} {em : ExtendedMantissa}
    {final : ExtendedMantissa × Int}
    (hfirst : shiftToTargetExponent .binary64 m e .exact = (em, e₁))
    (hsecond : shiftToTargetExponent .binary64 em.roundedMantissa e₁ .exact = final)
    (hpos : 0 < final.1.mantissa) :
    roundWithAccuracy .binary64 sign m e .exact = .finite sign final.1.mantissa final.2 hpos := by
  subst hsecond
  unfold roundWithAccuracy
  simp only [hfirst]
  exact dif_neg hpos.ne'

/-- A mantissa that is full already is not shifted. -/
theorem Full.shiftToTargetExponent {m : Nat} (hm : Full m) {e : Int} (hlow : -1074 ≤ e) :
    shiftToTargetExponent .binary64 m e .exact = (⟨m, false, false⟩, e) := by
  rw [shiftToTargetExponent_eq m 0 e hm.log2 hlow, Nat.cast_zero, add_zero]
  rfl

/-- A number whose digits after the first 53 are zeros stays as it is. -/
theorem roundWithAccuracy_exact {m : Nat} (hm : Full m) (count : Nat) (sign : Sign) {e : Int}
    (hlow : -1074 ≤ e) :
    roundWithAccuracy .binary64 sign (m * 2 ^ count) e .exact =
      .finite sign m (e + count) hm.pos := by
  have hlog : (m * 2 ^ count).log2 = 52 + count := by rw [log2_mul_two_pow hm.pos, hm.log2]
  have hfirst := shiftToTargetExponent_eq (m * 2 ^ count) count e hlog hlow
  rw [shiftRight_exact] at hfirst
  exact roundWithAccuracy_eq hfirst (hm.shiftToTargetExponent (by omega)) hm.pos

/-- Any other number is rounded to a full mantissa, with a greater exponent. -/
theorem roundWithAccuracy_large {m count : Nat} (sign : Sign) {e : Int} (hlog : m.log2 = 52 + count)
    (hlow : -1074 ≤ e) :
    ∃ (m' : Nat) (e' : Int) (hm' : Full m'), e + count ≤ e' ∧ e' ≤ e + count + 1 ∧
      roundWithAccuracy .binary64 sign m e .exact = .finite sign m' e' hm'.pos := by
  have hne : m ≠ 0 := by
    rintro rfl
    simp only [Nat.log2_zero] at hlog
    omega
  -- What is left after the shift has 53 digits.
  have hquotient : Full (m / 2 ^ count) := by
    obtain ⟨hlower, hupper⟩ := (Nat.log2_eq_iff hne).mp hlog
    constructor
    · rwa [Nat.le_div_iff_mul_le (by positivity), ← pow_add]
    · rw [Nat.div_lt_iff_lt_mul (by positivity), ← pow_add]
      rwa [add_right_comm] at hupper
  have hfirst := shiftToTargetExponent_eq m count e hlog hlow
  have hcases := roundedMantissa_cases ((⟨m, false, false⟩ : ExtendedMantissa) >>> count)
  rw [mantissa_shiftRight] at hcases
  obtain ⟨rounded, hrounded⟩ : ∃ n, n =
      ExtendedMantissa.roundedMantissa ((⟨m, false, false⟩ : ExtendedMantissa) >>> count) := ⟨_, rfl⟩
  have hbounds : m / 2 ^ count ≤ rounded ∧ rounded ≤ m / 2 ^ count + 1 := by
    rw [← hrounded] at hcases
    rcases hcases with rfl | rfl
    · exact ⟨le_refl _, Nat.le_succ _⟩
    · exact ⟨Nat.le_succ _, le_refl _⟩
  rcases Nat.lt_or_ge rounded (2 ^ 53) with hlt | hcarry
  -- Rounding up by one stays within 53 digits.
  · have hfull : Full rounded := ⟨hquotient.low.trans hbounds.1, hlt⟩
    have hsecond := hfull.shiftToTargetExponent (e := e + count) (by omega)
    rw [hrounded] at hsecond
    exact ⟨_, e + count, hrounded ▸ hfull, le_refl _, by omega,
      roundWithAccuracy_eq hfirst hsecond (hrounded ▸ hfull.pos)⟩
  -- The mantissa was all ones and is rounded up to the next power of two.
  · have hpower : rounded = 2 ^ 52 * 2 ^ 1 := le_antisymm (hbounds.2.trans hquotient.high) hcarry
    have hfull : Full (2 ^ 52) := ⟨le_refl _, by decide⟩
    have hsecond := shiftToTargetExponent_eq (2 ^ 52 * 2 ^ 1) 1 (e + count)
      (by rw [← pow_add, Nat.log2_two_pow]) (by omega)
    rw [shiftRight_exact, ← hpower, hrounded] at hsecond
    exact ⟨2 ^ 52, e + count + 1, hfull, by omega, le_refl _,
      roundWithAccuracy_eq hfirst hsecond hfull.pos⟩

/-! ## Packing -/

/-- The leading one of a mantissa is not stored, and put back when it is read. -/
theorem toNat_one_append (v : BitVec 52) : (1#1 ++ v).toNat = 2 ^ 52 + v.toNat := by
  rw [BitVec.toNat_append, ← Nat.shiftLeft_add_eq_or_of_lt v.isLt, Nat.shiftLeft_eq, BitVec.toNat_ofNat]
  omega

theorem toNat_append_ofNat {m : Nat} (hm : Full m) : (1#1 ++ BitVec.ofNat 52 m).toNat = m := by
  have hlow := hm.low
  have hhigh := hm.high
  rw [toNat_one_append, BitVec.toNat_ofNat]
  omega

/-- A number with a full mantissa is packed by its biased exponent and the mantissa without its
leading one. -/
theorem pack_eq (sign : Sign) {m : Nat} (hm : Full m) {e : Int} (hhigh : e ≤ 971) :
    UnpackedFloat.pack .binary64 (.finite sign m e hm.pos) =
      packComponents .binary64 sign (BitVec.ofNat 11 (e + 1075).toNat) (BitVec.ofNat 52 m) := by
  have hbias : (e + Format.binary64.exponentBias + Format.binary64.mantissaBitsWithoutImplicit).toNat =
      (e + 1075).toNat := by
    show (e + (1023 : Nat) + (52 : Nat)).toNat = (e + 1075).toNat
    omega
  have hbits : m.log2 + 1 = Format.binary64.mantissaBits := by
    rw [hm.log2]
    rfl
  rw [UnpackedFloat.pack]
  simp only [hbias]
  rw [if_neg (by omega), if_pos hbits]

/-- A number with a full mantissa is stored as it is, if its exponent is in the range. -/
theorem unpack_pack (sign : Sign) {m : Nat} (hm : Full m) {e : Int} (hlow : -1074 ≤ e) (hhigh : e ≤ 971) :
    (Float.Model.pack (.finite sign m e hm.pos)).unpack = .finite sign m e hm.pos := by
  -- The biased exponent is neither that of zero nor that of the infinities.
  have hbiased : (BitVec.ofNat 11 (e + 1075).toNat).toNat = (e + 1075).toNat := by
    rw [BitVec.toNat_ofNat]
    exact Nat.mod_eq_of_lt (by omega)
  have hinfinite : BitVec.ofNat 11 (e + 1075).toNat ≠ -1#11 := by
    intro heq
    have hnat := congrArg BitVec.toNat heq
    rw [hbiased, show (-1#11).toNat = 2047 from rfl] at hnat
    omega
  have hsubnormal : BitVec.ofNat 11 (e + 1075).toNat ≠ 0#11 := by
    intro heq
    have hnat := congrArg BitVec.toNat heq
    rw [hbiased, BitVec.toNat_zero] at hnat
    omega
  have hexponent : ((e + 1075).toNat : Int) -
      (Format.binary64.exponentBias + Format.binary64.mantissaBitsWithoutImplicit) = e := by
    show ((e + 1075).toNat : Int) - ((1023 : Nat) + (52 : Nat)) = e
    omega
  show UnpackedFloat.unpack .binary64 (UnpackedFloat.pack .binary64 (.finite sign m e hm.pos)) = _
  rw [pack_eq sign hm hhigh, UnpackedFloat.unpack]
  simp only [unpackMantissa_packComponents, unpackExponent_packComponents, unpackSign_packComponents,
    Sign.ofBitVec_toBitVec, toNat_append_ofNat hm, hbiased, hexponent, if_neg hinfinite, if_neg hsubnormal]

/-! ## Whole numbers as floats -/

theorem log2_lt_of_lt {n bits : Nat} (hpos : 0 < n) (hlt : n < 2 ^ bits) : n.log2 < bits :=
  (Nat.log2_lt hpos.ne').mpr hlt

/-- The number of zeros that fill up the mantissa of a whole number. -/
def padding (n : Nat) : Nat := 52 - n.log2

theorem full_padded {n : Nat} (hpos : 0 < n) (hlt : n < 2 ^ 53) : Full (n * 2 ^ padding n) := by
  have hlog := log2_lt_of_lt hpos hlt
  have hne : n * 2 ^ padding n ≠ 0 := Nat.mul_ne_zero hpos.ne' (by positivity)
  have hfull : (n * 2 ^ padding n).log2 = 52 := by
    rw [log2_mul_two_pow hpos, padding]
    omega
  obtain ⟨hlow, hhigh⟩ := (Nat.log2_eq_iff hne).mp hfull
  exact ⟨hlow, hhigh⟩

/-- The conversion of a number other than zero is a rounding, and keeps the sign. -/
theorem ofInt_eq_round (sign : Sign) {n : Nat} (hpos : 0 < n) :
    UnpackedFloat.ofInt .binary64 (sign.apply n) = UnpackedFloat.round .binary64 sign n 0 := by
  cases sign with
  | positive =>
    have hgt : compare (n : Int) 0 = .gt := by
      rw [Int.compare_eq_gt]
      omega
    rw [Sign.apply, UnpackedFloat.ofInt, UnpackedFloat.normalize, hgt]
    rfl
  | negative =>
    have hlt : compare (-(n : Int)) 0 = .lt := by
      rw [Int.compare_eq_lt]
      omega
    rw [Sign.apply, UnpackedFloat.ofInt, UnpackedFloat.normalize, hlt]
    simp

/-- A whole number below `2 ^ 53` is not rounded, only filled up with zeros. -/
theorem round_small (sign : Sign) {n : Nat} (hpos : 0 < n) (hlt : n < 2 ^ 53) :
    UnpackedFloat.round .binary64 sign n 0 =
      .finite sign (n * 2 ^ padding n) (-padding n) (full_padded hpos hlt).pos := by
  have hlog := log2_lt_of_lt hpos hlt
  have htarget : (0 - Format.binary64.targetExponent (totalExponent n 0)).toNat = padding n := by
    rw [totalExponent, targetExponent_eq _ (by omega)]
    unfold padding
    omega
  have hpadding : padding n ≤ 52 := Nat.sub_le _ _
  have hexact := roundWithAccuracy_exact (full_padded hpos hlt) 0 sign (e := -padding n) (by omega)
  rw [UnpackedFloat.round, decreaseExponent, htarget, Nat.shiftLeft_eq]
  simpa using hexact

/-- A greater one is rounded to a full mantissa with a positive exponent. -/
theorem round_large (sign : Sign) {n : Nat} (hlow : 2 ^ 53 ≤ n) :
    ∃ (m : Nat) (e : Int) (hm : Full m), 1 ≤ e ∧ e ≤ n.log2 - 51 ∧
      UnpackedFloat.round .binary64 sign n 0 = .finite sign m e hm.pos := by
  have hne : n ≠ 0 := by omega
  have hlog : 53 ≤ n.log2 := (Nat.le_log2 hne).mpr hlow
  have hsplit : n.log2 = 52 + (n.log2 - 52) := by omega
  have htarget : (0 - Format.binary64.targetExponent (totalExponent n 0)).toNat = 0 := by
    rw [totalExponent, targetExponent_eq _ (by omega)]
    omega
  obtain ⟨m, e, hm, hge, hle, hround⟩ := roundWithAccuracy_large sign (e := 0) hsplit (by omega)
  refine ⟨m, e, hm, by omega, by omega, ?_⟩
  rw [UnpackedFloat.round, decreaseExponent, htarget, Nat.shiftLeft_zero]
  exact hround

theorem unpack_floatOfInt {sign : Sign} {n m : Nat} {e : Int} (hpos : 0 < n) (hm : Full m) (hlow : -1074 ≤ e)
    (hhigh : e ≤ 971) (hround : UnpackedFloat.round .binary64 sign n 0 = .finite sign m e hm.pos) :
    (floatOfInt (sign.apply n)).toModel.unpack = .finite sign m e hm.pos := by
  show (Float.Model.pack (UnpackedFloat.ofInt .binary64 (sign.apply n))).unpack = _
  rw [ofInt_eq_round sign hpos, hround]
  exact unpack_pack sign hm hlow hhigh

/-- A whole number below `2 ^ 53` is stored filled up with zeros. -/
theorem unpack_floatOfInt_small (sign : Sign) {n : Nat} (hpos : 0 < n) (hlt : n < 2 ^ 53) :
    (floatOfInt (sign.apply n)).toModel.unpack =
      .finite sign (n * 2 ^ padding n) (-padding n) (full_padded hpos hlt).pos := by
  have hpadding : padding n ≤ 52 := Nat.sub_le _ _
  exact unpack_floatOfInt hpos (full_padded hpos hlt) (by omega) (by omega) (round_small sign hpos hlt)

/-- A greater one is stored as it was rounded. -/
theorem unpack_floatOfInt_large (sign : Sign) {n : Nat} (hlow : 2 ^ 53 ≤ n) (hhigh : n < 2 ^ 64) :
    ∃ (m : Nat) (e : Int) (hm : Full m), 1 ≤ e ∧
      (floatOfInt (sign.apply n)).toModel.unpack = .finite sign m e hm.pos := by
  have hpos : 0 < n := by omega
  have hlog := log2_lt_of_lt hpos hhigh
  obtain ⟨m, e, hm, hge, hle, hround⟩ := round_large sign hlow
  exact ⟨m, e, hm, hge, unpack_floatOfInt hpos hm (by omega) (by omega) hround⟩

theorem exists_unpack_floatOfInt (sign : Sign) {n : Nat} (hpos : 0 < n) (hhigh : n < 2 ^ 64) :
    ∃ (m : Nat) (e : Int) (hm : 0 < m), (floatOfInt (sign.apply n)).toModel.unpack = .finite sign m e hm := by
  rcases Nat.lt_or_ge n (2 ^ 53) with hlt | hlarge
  · exact ⟨_, _, _, unpack_floatOfInt_small sign hpos hlt⟩
  · obtain ⟨m, e, hm, -, hunpack⟩ := unpack_floatOfInt_large sign hlarge hhigh
    exact ⟨m, e, hm.pos, hunpack⟩

theorem unpack_floatOfNat_small {n : Nat} (hpos : 0 < n) (hlt : n < 2 ^ 53) :
    (floatOfNat n).toModel.unpack =
      .finite .positive (n * 2 ^ padding n) (-padding n) (full_padded hpos hlt).pos :=
  unpack_floatOfInt_small .positive hpos hlt

theorem unpack_floatOfNat_zero : (floatOfNat 0).toModel.unpack = .zero .positive := rfl

/-! ## What comes back -/

/-- Whether a float is a whole number does not depend on its sign, which the whole number has too. -/
theorem whole?_of_finite {x : Float} {sign : Sign} {m : Nat} {e : Int} {hm : 0 < m}
    (hunpack : x.toModel.unpack = .finite sign m e hm) :
    whole? x = if Binary.isWhole ⟨false, m, e⟩ then some (sign.apply (Binary.magnitude ⟨false, m, e⟩))
      else none := by
  rw [whole?, binary?, hunpack]
  cases sign <;> rfl

/-- A whole number below `2 ^ 53` is read back from its float, with its sign. -/
theorem whole?_floatOfInt_apply (sign : Sign) {n : Nat} (hlt : n < 2 ^ 53) :
    whole? (floatOfInt (sign.apply n)) = some (sign.apply n) := by
  rcases Nat.eq_zero_or_pos n with rfl | hpos
  · cases sign <;> rfl
  · have hwhole : Binary.isWhole ⟨false, n * 2 ^ padding n, -padding n⟩ = true := by
      simp [Binary.isWhole]
    have hvalue : Binary.magnitude ⟨false, n * 2 ^ padding n, -padding n⟩ = n := by
      by_cases hpadding : padding n = 0 <;> simp [Binary.magnitude, hpadding]
    rw [whole?_of_finite (unpack_floatOfInt_small sign hpos hlt), if_pos hwhole, hvalue]

/-- **A whole number below `2 ^ 53` is read back from its float.** -/
theorem whole?_floatOfNat {n : Nat} (hlt : n < 2 ^ 53) : whole? (floatOfNat n) = some (n : Int) :=
  whole?_floatOfInt_apply .positive hlt

/-- The float of a whole number is not negative. -/
theorem not_floatOfNat_lt_zero {n : Nat} (hlt : n < 2 ^ 53) : ¬ floatOfNat n < 0 := by
  have hzero : (0 : Float).toModel.unpack = .zero .positive := rfl
  have hlt_iff : floatOfNat n < 0 ↔
      UnpackedFloat.lt (floatOfNat n).toModel.unpack (0 : Float).toModel.unpack = true := decide_eq_true_iff
  rw [hlt_iff, hzero]
  rcases Nat.eq_zero_or_pos n with rfl | hpos
  · decide
  · rw [unpack_floatOfNat_small hpos hlt]
    simp [UnpackedFloat.lt, UnpackedFloat.compare]

/-- Positive floats are equal just if their exponents and mantissas are. -/
theorem beq_finite {m m' : Nat} {e e' : Int} (hm : 0 < m) (hm' : 0 < m') :
    UnpackedFloat.beq (.finite .positive m e hm) (.finite .positive m' e' hm') = true ↔ e = e' ∧ m = m' := by
  rw [UnpackedFloat.beq, UnpackedFloat.compare]
  simp [Ordering.then_eq_eq]

/-- **Floats tell apart a whole number below `2 ^ 53` and any other word.** -/
theorem floatOfNat_beq_iff {n other : Nat} (hlt : n < 2 ^ 53) (hother : other < 2 ^ 64) :
    (floatOfNat n == floatOfNat other) = true ↔ n = other := by
  show UnpackedFloat.beq (floatOfNat n).toModel.unpack (floatOfNat other).toModel.unpack = true ↔ n = other
  -- Zero has no mantissa; of two other numbers, the exponents differ or the mantissas do.
  rcases Nat.eq_zero_or_pos n with rfl | hpos <;> rcases Nat.eq_zero_or_pos other with rfl | hpos'
  · decide
  · obtain ⟨m, e, hm, hunpack⟩ := exists_unpack_floatOfInt .positive hpos' hother
    rw [show (floatOfNat other).toModel.unpack = _ from hunpack, unpack_floatOfNat_zero]
    simp [UnpackedFloat.beq, UnpackedFloat.compare, hpos'.ne]
  · rw [unpack_floatOfNat_small hpos hlt, unpack_floatOfNat_zero]
    simp [UnpackedFloat.beq, UnpackedFloat.compare, hpos.ne']
  · rw [unpack_floatOfNat_small hpos hlt]
    rcases Nat.lt_or_ge other (2 ^ 53) with hlt' | hlarge
    · rw [unpack_floatOfNat_small hpos' hlt', beq_finite]
      constructor
      · rintro ⟨hexponent, hmantissa⟩
        -- The exponents give the number of zeros, so the numbers without them are equal.
        have hpadding : padding n = padding other := by omega
        rw [hpadding] at hmantissa
        exact Nat.eq_of_mul_eq_mul_right (by positivity) hmantissa
      · rintro rfl
        exact ⟨rfl, rfl⟩
    -- A number that was rounded has another exponent than one that was filled up.
    · obtain ⟨m, e, hm, hexponent, hunpack⟩ := unpack_floatOfInt_large .positive hlarge hother
      rw [show (floatOfNat other).toModel.unpack = _ from hunpack, beq_finite]
      omega

/-! ## Decimal texts -/

theorem toFloat_toUInt64 {n : Nat} (hlt : n < 2 ^ 53) : n.toUInt64.toFloat = floatOfNat n := by
  have hnat : n.toUInt64.toNat = n := UInt64.toNat_ofNat_of_lt (hlt.trans (by decide))
  show Float.ofModel (Float.Model.pack (UnpackedFloat.ofInt .binary64 (n.toUInt64.toNat : Int))) = _
  rw [hnat]
  rfl

/-- A whole number below `2 ^ 53` times one is itself. -/
theorem floatOfNat_mul_one {n : Nat} (hlt : n < 2 ^ 53) :
    floatOfNat n * Float.ofBits 0x3FF0000000000000 = floatOfNat n := by
  rcases Nat.eq_zero_or_pos n with rfl | hpos
  · rfl
  · have hone : (Float.ofBits 0x3FF0000000000000).toModel.unpack =
        .finite .positive (2 ^ 52) (-52) (by decide) := rfl
    have hsign : Sign.positive * Sign.positive = Sign.positive := rfl
    have hpadding : padding n ≤ 52 := Nat.sub_le _ _
    -- The product of the mantissas has 52 more zeros, which the exponents take back.
    have hexact := roundWithAccuracy_exact (full_padded hpos hlt) 52 .positive (e := -padding n + -52)
      (by omega)
    show Float.ofModel (Float.Model.pack (UnpackedFloat.mul .binary64 (floatOfNat n).toModel.unpack _)) =
      Float.ofModel (Float.Model.pack (UnpackedFloat.ofInt .binary64 n))
    rw [hone, unpack_floatOfNat_small hpos hlt, UnpackedFloat.mul, hsign, hexact]
    have hround : UnpackedFloat.ofInt .binary64 n = _ :=
      (ofInt_eq_round .positive hpos).trans (round_small .positive hpos hlt)
    rw [hround]
    simp

/-- A decimal without a fraction is read as the float of its number. -/
theorem ofScientific_eq {n : Nat} (hlt : n < 2 ^ 53) : Float.ofScientific n false 0 = floatOfNat n := by
  have hproduct : Float.ofScientific n false 0 = n.toUInt64.toFloat * Float.ofBits 0x3FF0000000000000 := by
    rw [Float.ofScientific, dif_pos ⟨hlt, by decide⟩]
    rfl
  rw [hproduct, toFloat_toUInt64 hlt, floatOfNat_mul_one hlt]

theorem ofDigits_digitsOf (n : Nat) : ofDigits (digitsOf n) = n := Nat.ofDigitChars_ten_toDigits

theorem digitsOf_ne_nil (n : Nat) : digitsOf n ≠ [] := Nat.toDigits_ne_nil

theorem isDigit_of_mem_digitsOf {n : Nat} {c : Char} (hmem : c ∈ digitsOf n) : c.isDigit = true :=
  Nat.isDigit_of_mem_toDigits (by decide) (by decide) hmem

theorem toLower_of_isDigit {c : Char} (h : c.isDigit = true) : c.toLower = c := by
  have hdigit : c.val ≤ '9'.val := by
    simp only [Char.isDigit, Bool.and_eq_true, decide_eq_true_eq] at h
    exact h.2
  have hupper : ¬ (c.val ≥ 'A'.val ∧ c.val ≤ 'Z'.val) := by
    intro h
    exact absurd (UInt32.le_trans h.1 hdigit) (by decide)
  exact dif_neg hupper

/-- The digits of a number are read as its float. -/
theorem unsignedFloat?_digitsOf {n : Nat} (hlt : n < 2 ^ 53) :
    unsignedFloat? false (digitsOf n) = some (floatOfNat n) := by
  have htake : (digitsOf n).takeWhile Char.isDigit = digitsOf n :=
    List.takeWhile_eq_self_iff.mpr (fun c hmem => isDigit_of_mem_digitsOf hmem)
  have hdrop : (digitsOf n).dropWhile Char.isDigit = [] :=
    List.dropWhile_eq_nil_iff.mpr (fun c hmem => isDigit_of_mem_digitsOf hmem)
  have hvalue : floatOfDecimal false n 0 = floatOfNat n := ofScientific_eq hlt
  simp [unsignedFloat?, htake, hdrop, digitsOf_ne_nil, exponentPart?, ofDigits_digitsOf, hvalue]

/-- A text that begins with something else than a digit is not a decimal. -/
theorem digitsOf_ne_cons {c : Char} (hc : c.isDigit = false) (n : Nat) (rest : List Char) :
    digitsOf n ≠ c :: rest := by
  intro heq
  have hmem : c ∈ digitsOf n := heq ▸ List.mem_cons_self
  rw [isDigit_of_mem_digitsOf hmem] at hc
  cases hc

/-- **The decimal text of a whole number below `2 ^ 53` is read as its float.** -/
theorem float?_digitsOf {n : Nat} (hlt : n < 2 ^ 53) : float? (digitsOf n) = some (floatOfNat n) := by
  have hlower : (digitsOf n).map Char.toLower = digitsOf n := by
    rw [List.map_congr_left (fun c hmem => toLower_of_isDigit (isDigit_of_mem_digitsOf hmem)), List.map_id']
  have hword : ∀ c rest, c.isDigit = false → String.ofList (digitsOf n) ≠ String.ofList (c :: rest) := by
    intro c rest hc heq
    exact digitsOf_ne_cons hc n rest (String.ofList_injective heq)
  -- There is no sign, and none of the words `inf`, `infinity` and `nan`.
  unfold float?
  split
  rename_i negative body hbody
  split at hbody
  case h_1 rest heq => exact absurd heq (digitsOf_ne_cons (by decide) n rest)
  case h_2 rest heq => exact absurd heq (digitsOf_ne_cons (by decide) n rest)
  case h_3 =>
    obtain ⟨rfl, rfl⟩ := Prod.mk.inj hbody
    simp only [hlower]
    rw [if_neg, if_neg]
    · exact unsignedFloat?_digitsOf hlt
    · exact hword 'n' _ rfl
    · exact not_or.mpr ⟨hword 'i' _ rfl, hword 'i' _ rfl⟩

end ServiceEngine.Decimal

namespace ServiceEngine.Text

theorem isBlank_of_isDigit {c : Char} (h : c.isDigit = true) : isBlank c = false := by
  simp only [Char.isDigit, Bool.and_eq_true, decide_eq_true_eq, ge_iff_le, UInt32.le_iff_toNat_le] at h
  have hlow : 48 ≤ c.toNat := h.1
  have hhigh : c.toNat ≤ 57 := h.2
  simp [isBlank]
  omega

/-- A text that neither begins nor ends with white space is not trimmed. -/
theorem trim_of_ends {cs : List Char} (hfirst : ∀ c ∈ cs.head?, isBlank c = false)
    (hlast : ∀ c ∈ cs.getLast?, isBlank c = false) : trim cs = cs := by
  have hdrop : ∀ l : List Char, (∀ c ∈ l.head?, isBlank c = false) → l.dropWhile isBlank = l := by
    intro l hl
    cases l with
    | nil => rfl
    | cons c rest => rw [List.dropWhile_cons_of_neg (by simp [hl c rfl])]
  have hreverse : ∀ c ∈ cs.reverse.head?, isBlank c = false := by
    rw [List.head?_reverse]
    exact hlast
  rw [trim, hdrop cs hfirst, hdrop _ hreverse, List.reverse_reverse]

theorem trim_of_forall {cs : List Char} (h : ∀ c ∈ cs, isBlank c = false) : trim cs = cs :=
  trim_of_ends (fun c hc => h c (List.mem_of_head? hc)) (fun c hc => h c (List.mem_of_getLast? hc))

end ServiceEngine.Text
