import Mathlib
import ServiceEngine.Proofs.Decimal.WholeNumbers

/-!
# Floats that are whole numbers

A float that is a whole number below `2 ^ 53` is the float of this whole number, but for the sign of zero
(`floatOfInt_of_whole?`). So nothing is lost when such a float is written as an integer and read again.
The float of any 64-bit integer is finite (`isFinite_floatOfInt`).
-/

namespace ServiceEngine.Decimal

open Float.Model Float.Model.UnpackedFloat

/-! ## What is stored -/

/-- A stored number other than zero has a full mantissa, or else the least exponent. -/
theorem stored_cases {x : Float} {sign : Sign} {m : Nat} {e : Int} {hm : 0 < m}
    (hunpack : x.toModel.unpack = .finite sign m e hm) : Full m ∨ m < 2 ^ 52 ∧ e = -1074 := by
  rw [Float.Model.unpack, UnpackedFloat.unpack] at hunpack
  simp only at hunpack
  split at hunpack
  -- The greatest exponent is that of the infinities and of NaN.
  · split at hunpack <;> cases hunpack
  · split at hunpack
    -- The least exponent is that of zero and of the numbers without a leading one.
    · split at hunpack
      · cases hunpack
      · rename_i hexponent _
        obtain ⟨rfl, rfl, rfl⟩ := UnpackedFloat.finite.inj hunpack
        refine .inr ⟨BitVec.isLt _, ?_⟩
        rw [hexponent]
        rfl
    · obtain ⟨rfl, rfl, rfl⟩ := UnpackedFloat.finite.inj hunpack
      have hmantissa := toNat_one_append (@unpackMantissa .binary64 x.toModel.toBits.toBitVec)
      have hlt : (@unpackMantissa .binary64 x.toModel.toBits.toBitVec).toNat < 2 ^ 52 := BitVec.isLt _
      refine .inl ⟨?_, ?_⟩
      · exact hmantissa ▸ Nat.le_add_right _ _
      · exact hmantissa ▸ (by omega)

/-! ## Whole numbers -/

namespace Binary

/-- A whole number without its zeros behind the point. -/
theorem magnitude_mul {m : Nat} {e : Int} (hwhole : isWhole ⟨false, m, e⟩ = true) (hexponent : e ≤ 0) :
    magnitude ⟨false, m, e⟩ * 2 ^ (-e).toNat = m := by
  rcases hexponent.lt_or_eq with hlt | rfl
  · have hdvd : 2 ^ (-e).toNat ∣ m := by
      apply Nat.dvd_of_mod_eq_zero
      simpa [isWhole, hlt.not_ge] using hwhole
    rw [magnitude, if_neg hlt.not_ge]
    exact Nat.div_mul_cancel hdvd
  · simp [magnitude]

end Binary

/-- A full mantissa has no room in front of the point for another digit. -/
theorem Full.exponent_nonpos {m : Nat} {e : Int} (hm : Full m) (hsmall : Binary.magnitude ⟨false, m, e⟩ < 2 ^ 53) :
    e ≤ 0 := by
  by_contra hpos
  have hlow := hm.low
  have htwo : 2 ^ 1 ≤ 2 ^ e.toNat := Nat.pow_le_pow_right (by decide) (by omega)
  have hproduct := Nat.mul_le_mul hlow htwo
  have hnonneg : 0 ≤ e := by omega
  rw [Binary.magnitude, if_pos hnonneg] at hsmall
  exact absurd hsmall (not_lt.mpr hproduct)

/-- A number with a full mantissa that is a whole number below `2 ^ 53` is this whole number, filled up with
zeros. -/
theorem Full.eq_padded {m n : Nat} {e : Int} (hm : Full m) (hwhole : Binary.isWhole ⟨false, m, e⟩ = true)
    (hvalue : Binary.magnitude ⟨false, m, e⟩ = n) (hsmall : n < 2 ^ 53) :
    0 < n ∧ m = n * 2 ^ padding n ∧ e = -padding n := by
  have hexponent := hm.exponent_nonpos (hvalue ▸ hsmall)
  have hproduct := Binary.magnitude_mul hwhole hexponent
  rw [hvalue] at hproduct
  have hpos : 0 < n := Nat.pos_of_mul_pos_right (hproduct ▸ hm.pos)
  have hpadding : padding n = (-e).toNat := by
    have hlog := hm.log2
    rw [← hproduct, log2_mul_two_pow hpos] at hlog
    rw [padding]
    omega
  refine ⟨hpos, ?_, ?_⟩
  · rw [hpadding, hproduct]
  · rw [hpadding]
    omega

/-- A number without a full mantissa and with a small exponent is smaller than one, so it is no whole
number. -/
theorem not_isWhole_of_small {m : Nat} {e : Int} (hpos : 0 < m) (hlt : m < 2 ^ 52) (hexponent : e ≤ -52) :
    Binary.isWhole ⟨false, m, e⟩ = false := by
  have hpower : 2 ^ 52 ≤ 2 ^ (-e).toNat := Nat.pow_le_pow_right (by decide) (by omega)
  have hmod : m % 2 ^ (-e).toNat = m := Nat.mod_eq_of_lt (hlt.trans_le hpower)
  have hnegative : ¬ 0 ≤ e := by omega
  simp [Binary.isWhole, hnegative, hmod, hpos.ne']

theorem exists_sign (n : Int) : ∃ sign : Sign, n = sign.apply n.natAbs := by
  rcases Int.natAbs_eq n with h | h
  · exact ⟨.positive, h⟩
  · exact ⟨.negative, h⟩

theorem natAbs_apply (sign : Sign) (n : Nat) : (sign.apply n).natAbs = n := by
  cases sign <;> simp [Sign.apply]

/-- **An integer below `2 ^ 53` is read back from its float**, be it negative or not. -/
theorem whole?_floatOfInt {n : Int} (hsmall : n.natAbs < 2 ^ 53) : whole? (floatOfInt n) = some n := by
  obtain ⟨sign, hn⟩ := exists_sign n
  rw [hn]
  exact whole?_floatOfInt_apply sign hsmall

/-- **A float that is a whole number below `2 ^ 53` equals the float of this number.** -/
theorem floatOfInt_of_whole? {x : Float} {n : Int} (hwhole : whole? x = some n) (hsmall : n.natAbs < 2 ^ 53) :
    (floatOfInt n == x) = true := by
  show UnpackedFloat.beq (floatOfInt n).toModel.unpack x.toModel.unpack = true
  cases hunpack : x.toModel.unpack with
  | notANumber => simp [whole?, binary?, hunpack] at hwhole
  | infinity sign => simp [whole?, binary?, hunpack] at hwhole
  | zero sign =>
    -- The two zeros are equal, and the integer is zero.
    have hzero : n = 0 := by
      rw [whole?, binary?, hunpack] at hwhole
      cases sign <;> exact (Option.some.inj hwhole).symm
    subst hzero
    cases sign <;> rfl
  | finite sign m e hm =>
    rw [whole?_of_finite hunpack] at hwhole
    split at hwhole
    case isFalse => cases hwhole
    case isTrue hisWhole =>
      obtain rfl := Option.some.inj hwhole
      rw [natAbs_apply] at hsmall
      rcases stored_cases hunpack with hfull | ⟨hlt, rfl⟩
      -- A full mantissa leaves one way to store the number, a smaller one none.
      · obtain ⟨hpos, hmantissa, hexponent⟩ := hfull.eq_padded hisWhole rfl hsmall
        rw [unpack_floatOfInt_small sign hpos hsmall, beq_iff_ne_notANumber_and_eq]
        simp [← hmantissa, ← hexponent]
      · rw [not_isWhole_of_small hm hlt (by decide)] at hisWhole
        cases hisWhole

/-- An integer that is rounded to a float does not become one below `2 ^ 53`. -/
theorem le_of_whole?_floatOfInt {n m : Int} (hlarge : 2 ^ 53 ≤ n.natAbs) (hword : n.natAbs < 2 ^ 64)
    (hwhole : whole? (floatOfInt n) = some m) : 2 ^ 53 ≤ m.natAbs := by
  obtain ⟨sign, hn⟩ := exists_sign n
  obtain ⟨mantissa, e, hm, hexponent, hunpack⟩ := unpack_floatOfInt_large sign hlarge hword
  rw [hn, whole?_of_finite hunpack] at hwhole
  split at hwhole
  case isFalse => cases hwhole
  case isTrue =>
    obtain rfl := Option.some.inj hwhole
    rw [natAbs_apply]
    by_contra hsmall
    have hnonpos := hm.exponent_nonpos (not_le.mp hsmall)
    omega

/-- A float that is a whole number is finite. -/
theorem isFinite_of_whole? {x : Float} {n : Int} (hwhole : whole? x = some n) : x.isFinite = true := by
  show x.toModel.unpack.isFinite = true
  cases hunpack : x.toModel.unpack with
  | notANumber => simp [whole?, binary?, hunpack] at hwhole
  | infinity sign => simp [whole?, binary?, hunpack] at hwhole
  | zero sign => rfl
  | finite sign m e hm => rfl

theorem beq_self_of_isFinite {x : Float} (h : x.isFinite = true) : (x == x) = true := by
  rw [Float.beq_self_iff]
  rintro rfl
  revert h
  decide

/-- The float of an integer of 64 bits is finite. -/
theorem isFinite_floatOfInt {n : Int} (hword : n.natAbs < 2 ^ 64) : (floatOfInt n).isFinite = true := by
  obtain ⟨sign, hn⟩ := exists_sign n
  show (floatOfInt n).toModel.unpack.isFinite = true
  rcases Nat.eq_zero_or_pos n.natAbs with hzero | hpos
  · obtain rfl := Int.natAbs_eq_zero.mp hzero
    rfl
  · obtain ⟨m, e, hm, hunpack⟩ := exists_unpack_floatOfInt sign hpos hword
    rw [hn, hunpack]
    rfl

end ServiceEngine.Decimal
