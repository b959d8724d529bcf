/-
Doubles as integers: two doubles are equal exactly if both are the same number, which for zeros
leaves the sign open. A double that is an integer is thereby equal to those, and only those, with
the same integer value.
-/
import Mathlib.Algebra.Group.Nat.Defs
import Mathlib.Algebra.Group.Int.Defs
import Ecma.Number.Integer

namespace Ecma.Number

open Float.Model (UnpackedFloat Format)
open Float.Model.UnpackedFloat (Sign unpackExponent unpackMantissa unpackSign)

/-! ## Parts of a double -/

/-- The sign of a number. -/
def signOf (negative : Bool) : Sign := if negative then .negative else .positive

/-- A shape as the parts that doubles are compared by. -/
def Shape.unpacked : Shape → UnpackedFloat
  | .nan => .notANumber
  | .infinite negative => .infinity (signOf negative)
  | .finite ⟨negative, significand, exponent⟩ =>
    if h : 0 < significand then .finite (signOf negative) significand exponent h
    else .zero (signOf negative)

theorem toNat_unpackExponent (bits : BitVec Format.binary64.numBits) :
    (unpackExponent bits).toNat = bits.toNat / 2 ^ 52 % 2048 := by
  simp [unpackExponent, Nat.shiftRight_eq_div_pow]

theorem toNat_unpackMantissa (bits : BitVec Format.binary64.numBits) :
    (unpackMantissa bits).toNat = bits.toNat % 2 ^ 52 := by
  simp [unpackMantissa]

theorem ofBitVec_unpackSign (bits : BitVec Format.binary64.numBits) :
    Sign.ofBitVec (unpackSign bits) = signOf (bits.toNat / 2 ^ 63 == 1) := by
  have hb : (unpackSign bits).toNat = bits.toNat / 2 ^ 63 % 2 := by
    change (BitVec.extractLsb 63 63 bits).toNat = _
    simp [Nat.shiftRight_eq_div_pow]
  have hl : bits.toNat < 2 ^ 64 := bits.isLt
  unfold Sign.ofBitVec signOf
  by_cases hz : bits.toNat / 2 ^ 63 = 1
  · rw [if_neg (fun h => by rw [h, hz] at hb; cases hb), if_pos (beq_iff_eq.mpr hz)]
  · rw [if_pos (BitVec.eq_of_toNat_eq (by rw [hb]; simp; omega)), if_neg (by simpa using hz)]

theorem Shape.unpacked_finite {negative : Bool} {significand : Nat} {exponent : Int}
    (h : 0 < significand) : Shape.unpacked (.finite ⟨negative, significand, exponent⟩) =
      .finite (signOf negative) significand exponent h :=
  dif_pos h

theorem Shape.unpacked_zero {negative : Bool} {significand : Nat} {exponent : Int}
    (h : ¬ 0 < significand) :
    Shape.unpacked (.finite ⟨negative, significand, exponent⟩) = .zero (signOf negative) :=
  dif_neg h

theorem finite_congr {sign : Sign} {m m' : Nat} {e e' : Int} {h : 0 < m} {h' : 0 < m'}
    (hm : m = m') (he : e = e') : UnpackedFloat.finite sign m e h = .finite sign m' e' h' := by
  subst hm he
  rfl

theorem unpack_eq (x : Float) : x.toModel.unpack = (shape x).unpacked := by
  let bits : BitVec Format.binary64.numBits := x.toModel.toBits.toBitVec
  have he := toNat_unpackExponent bits
  have hm := toNat_unpackMantissa bits
  have hs := ofBitVec_unpackSign bits
  change UnpackedFloat.unpack Format.binary64 bits = _
  have hb : bits.toNat = x.toBits.toNat := rfl
  rw [hb] at he hm hs
  unfold shape signBit
  dsimp only [Nat.pow_eq]
  change (if unpackExponent bits = -1#11 then
      if unpackMantissa bits = 0#52 then .infinity (Sign.ofBitVec (unpackSign bits))
      else .notANumber
    else if unpackExponent bits = 0#11 then
      if _ : unpackMantissa bits = 0#52 then .zero (Sign.ofBitVec (unpackSign bits))
      else .finite (Sign.ofBitVec (unpackSign bits)) (unpackMantissa bits).toNat _ _
    else .finite (Sign.ofBitVec (unpackSign bits)) (1#1 ++ unpackMantissa bits).toNat _ _ :
      UnpackedFloat) = _
  rw [hs]
  have hones : unpackExponent bits = -1#11 ↔ x.toBits.toNat / 2 ^ 52 % 2048 = 2047 := by
    rw [← he, ← BitVec.toNat_inj]
    rfl
  have hzero : unpackExponent bits = 0#11 ↔ x.toBits.toNat / 2 ^ 52 % 2048 = 0 := by
    rw [← he, ← BitVec.toNat_inj]
    rfl
  have hnone : unpackMantissa bits = 0#52 ↔ x.toBits.toNat % 2 ^ 52 = 0 := by
    rw [← hm, ← BitVec.toNat_inj]
    rfl
  by_cases h : x.toBits.toNat / 2 ^ 52 % 2048 = 2047
  · rw [if_pos (hones.mpr h), if_pos (beq_iff_eq.mpr h)]
    by_cases h' : x.toBits.toNat % 2 ^ 52 = 0
    · rw [if_pos (hnone.mpr h'), if_pos (beq_iff_eq.mpr h')]
      rfl
    · rw [if_neg (mt hnone.mp h'), if_neg (mt beq_iff_eq.mp h')]
      rfl
  · rw [if_neg (mt hones.mp h), if_neg (mt beq_iff_eq.mp h)]
    by_cases h' : x.toBits.toNat / 2 ^ 52 % 2048 = 0
    · rw [if_pos (hzero.mpr h'), if_pos (beq_iff_eq.mpr h')]
      by_cases h'' : x.toBits.toNat % 2 ^ 52 = 0
      · rw [dif_pos (hnone.mpr h'')]
        rw [Shape.unpacked_zero (by rw [h'']; exact Nat.lt_irrefl 0)]
      · rw [dif_neg (mt hnone.mp h'')]
        rw [Shape.unpacked_finite (Nat.pos_of_ne_zero h'')]
        refine finite_congr hm ?_
        rw [he, h']
        rfl
    · rw [if_neg (mt hzero.mp h'), if_neg (mt beq_iff_eq.mp h')]
      have ha : (1#1 ++ unpackMantissa bits).toNat = x.toBits.toNat % 2 ^ 52 + 2 ^ 52 := by
        rw [BitVec.toNat_append, hm, ← Nat.shiftLeft_add_eq_or_of_lt (Nat.mod_lt _ (by decide))]
        simp [Nat.shiftLeft_eq, Nat.add_comm]
      rw [Shape.unpacked_finite (Nat.add_pos_right _ (Nat.two_pow_pos 52))]
      refine finite_congr ha ?_
      rw [he]
      rfl

/-! ## Equality -/

/-- Numbers other than zero are equal if all their parts are. -/
theorem compare_finite {sign sign' : Sign} {m m' : Nat} {e e' : Int} {h : 0 < m} {h' : 0 < m'} :
    (UnpackedFloat.compare (.finite sign m e h) (.finite sign' m' e' h') == some .eq) = true ↔
      sign = sign' ∧ m = m' ∧ e = e' := by
  have hcompare : ((compare e e').then (compare m m') = .eq) ↔ m = m' ∧ e = e' := by
    simp [Ordering.then_eq_eq, and_comm]
  cases sign with
  | negative =>
    cases sign' with
    | negative =>
      change (some ((compare e e').then (compare m m')).swap == some .eq) = true ↔ _
      simp [hcompare]
    | positive =>
      change (some Ordering.lt == some .eq) = true ↔ _
      simp
  | positive =>
    cases sign' with
    | negative =>
      change (some Ordering.gt == some .eq) = true ↔ _
      simp
    | positive =>
      change (some ((compare e e').then (compare m m')) == some .eq) = true ↔ _
      simp [hcompare]

theorem signOf_inj {negative negative' : Bool} :
    signOf negative = signOf negative' ↔ negative = negative' := by
  cases negative <;> cases negative' <;> simp [signOf]

/-- What is equal to a finite double: the same number, or the other zero. -/
theorem beq_iff {x y d} (hx : shape x = .finite d) : (y == x) = true ↔ ∃ d', shape y = .finite d' ∧
      (d' = d ∨ d'.significand = 0 ∧ d.significand = 0) := by
  change (y.toModel.unpack.compare x.toModel.unpack == some .eq) = true ↔ _
  rw [unpack_eq, unpack_eq, hx]
  obtain ⟨negative, significand, exponent⟩ := d
  have hother : ∀ {other : Shape}, (∀ d', other ≠ .finite d') →
      (other.unpacked.compare (Shape.unpacked (.finite ⟨negative, significand, exponent⟩)) ==
        some .eq) = false := by
    intro other ho
    cases other with
    | nan => rfl
    | infinite negative' =>
      by_cases h : 0 < significand
      · rw [Shape.unpacked_finite h]
        cases negative' <;> rfl
      · rw [Shape.unpacked_zero h]
        cases negative' <;> rfl
    | finite d' => exact absurd rfl (ho d')
  cases hy : shape y with
  | nan | infinite negative' => rw [hother (by simp)]; simp
  | finite d' =>
    obtain ⟨negative', significand', exponent'⟩ := d'
    have hleft : (∃ d', Shape.finite ⟨negative', significand', exponent'⟩ = .finite d' ∧
        (d' = ⟨negative, significand, exponent⟩ ∨ d'.significand = 0 ∧ significand = 0)) ↔
        (negative' = negative ∧ significand' = significand ∧ exponent' = exponent) ∨
          significand' = 0 ∧ significand = 0 := by
      simp
    rw [hleft]
    by_cases h : 0 < significand <;> by_cases h' : 0 < significand'
    · rw [Shape.unpacked_finite h, Shape.unpacked_finite h', compare_finite, signOf_inj]
      exact ⟨.inl, fun hs => hs.resolve_right fun hz => absurd h' (by omega)⟩
    · rw [Shape.unpacked_finite h, Shape.unpacked_zero h']
      have hfalse : (UnpackedFloat.compare (.zero (signOf negative'))
          (.finite (signOf negative) significand exponent h) == some .eq) = false := by
        cases negative <;> rfl
      rw [hfalse]
      simp only [Bool.false_eq_true, false_iff]
      omega
    · rw [Shape.unpacked_zero h, Shape.unpacked_finite h']
      have hfalse : (UnpackedFloat.compare (.finite (signOf negative') significand' exponent' h')
          (.zero (signOf negative)) == some .eq) = false := by
        cases negative' <;> rfl
      rw [hfalse]
      simp only [Bool.false_eq_true, false_iff]
      omega
    · rw [Shape.unpacked_zero h, Shape.unpacked_zero h']
      exact ⟨fun _ => .inr (by omega), fun _ => rfl⟩

/-! ## Integers -/

/-- The parts of a double: the exponent is the least one unless the significand is large. -/
structure Dyadic.Canonical (d : Dyadic) : Prop where
  significand : d.significand < 2 ^ 53
  exponent : -1074 ≤ d.exponent
  large : -1074 < d.exponent → 2 ^ 52 ≤ d.significand

theorem canonical_shape {x d} (h : shape x = .finite d) : d.Canonical := by
  have hf : x.toBits.toNat % 2 ^ 52 < 2 ^ 52 := Nat.mod_lt _ (by decide)
  unfold shape at h
  dsimp only [Nat.pow_eq] at h
  split at h
  · split at h <;> cases h
  · split at h
    · cases h
      exact ⟨by dsimp only; omega, Int.le_refl _, fun h => absurd h (Int.lt_irrefl _)⟩
    · next hz =>
      cases h
      have : x.toBits.toNat / 2 ^ 52 % 2048 ≠ 0 := by simpa using hz
      exact ⟨by dsimp only; omega, by dsimp only; omega, fun _ => Nat.le_add_left _ _⟩

/-- An integer in units of the least positive double. -/
theorem wholePart_scaled {d : Dyadic} (hc : d.Canonical) (hw : d.isWhole = true) :
    d.wholePart * 2 ^ 1074 = d.significand * 2 ^ (d.exponent + 1074).toNat := by
  have he := hc.exponent
  unfold Dyadic.wholePart
  unfold Dyadic.isWhole at hw
  dsimp only [Nat.pow_eq] at hw ⊢
  split
  · next h =>
    rw [show (d.exponent + 1074).toNat = d.exponent.toNat + 1074 by omega, Nat.pow_add,
      Nat.mul_assoc]
  · next h =>
    have hd : 2 ^ (-d.exponent).toNat ∣ d.significand := by
      simpa [h, Nat.dvd_iff_mod_eq_zero] using hw
    obtain ⟨q, hq⟩ := hd
    rw [hq, Nat.mul_div_cancel_left _ (Nat.two_pow_pos _),
      show 1074 = (-d.exponent).toNat + (d.exponent + 1074).toNat by omega, Nat.pow_add,
      ← Nat.mul_assoc, Nat.mul_comm q]

theorem exponent_le {d d' : Dyadic} (hc : d.Canonical) (hc' : d'.Canonical)
    (h : d.significand * 2 ^ (d.exponent + 1074).toNat =
      d'.significand * 2 ^ (d'.exponent + 1074).toNat) : d'.exponent ≤ d.exponent := by
  refine Int.not_lt.mp fun hlt => ?_
  have he := hc.exponent
  have hl := hc'.large (by omega)
  have hs := hc.significand
  -- The larger exponent needs the smaller significand to make up for it.
  have hk : (d'.exponent + 1074).toNat =
      (d.exponent + 1074).toNat + ((d'.exponent - d.exponent).toNat - 1 + 1) := by omega
  rw [hk, Nat.pow_add, Nat.mul_comm (2 ^ _), ← Nat.mul_assoc] at h
  have h := Nat.eq_of_mul_eq_mul_right (Nat.two_pow_pos _) h
  rw [Nat.pow_succ] at h
  have hp := Nat.two_pow_pos ((d'.exponent - d.exponent).toNat - 1)
  have : d'.significand ≤ d'.significand * 2 ^ ((d'.exponent - d.exponent).toNat - 1) :=
    Nat.le_mul_of_pos_right _ hp
  rw [← Nat.mul_assoc] at h
  omega

/-- Integers with the same magnitude have the same parts. -/
theorem eq_of_wholePart {d d' : Dyadic} (hc : d.Canonical) (hc' : d'.Canonical)
    (hw : d.isWhole = true) (hw' : d'.isWhole = true) (h : d.wholePart = d'.wholePart) :
    d.significand = d'.significand ∧ d.exponent = d'.exponent := by
  have hs : d.significand * 2 ^ (d.exponent + 1074).toNat =
      d'.significand * 2 ^ (d'.exponent + 1074).toNat := by
    rw [← wholePart_scaled hc hw, ← wholePart_scaled hc' hw', h]
  have he : d.exponent = d'.exponent :=
    Int.le_antisymm (exponent_le hc' hc hs.symm) (exponent_le hc hc' hs)
  rw [he] at hs
  exact ⟨Nat.eq_of_mul_eq_mul_right (Nat.two_pow_pos _) hs, he⟩

theorem significand_eq_zero {d : Dyadic} (hc : d.Canonical) (hw : d.isWhole = true)
    (h : d.wholePart = 0) : d.significand = 0 := by
  have hs : 0 = d.significand * 2 ^ (d.exponent + 1074).toNat :=
    (Nat.zero_mul _).symm.trans (h ▸ wholePart_scaled hc hw)
  exact (Nat.mul_eq_zero.mp hs.symm).resolve_right (Nat.ne_of_gt (Nat.two_pow_pos _))

theorem integerIn?_eq_some {low high v x} : integerIn? low high x = some v ↔
      ∃ d, shape x = .finite d ∧ d.isWhole = true ∧ d.truncate = v ∧ low ≤ v ∧ v ≤ high := by
  unfold integerIn? isIntegral truncate?
  cases shape x with
  | finite d =>
    dsimp only
    split
    · next hw => simp only [Option.filter_eq_some_iff]; grind
    · next hw => simp [hw]
  | _ => simp

/-- A double that is an integer is equal to the doubles with its value, and to no others. -/
theorem beq_of_integerIn? {low high v : Int} {x : Float}
    (h : integerIn? low high x = some v) (y : Float) :
    (y == x) = (integerIn? low high y == some v) := by
  obtain ⟨d, hx, hw, ht, hl, hh⟩ := integerIn?_eq_some.mp h
  have hc := canonical_shape hx
  rw [Bool.eq_iff_iff, beq_iff hx, beq_iff_eq, integerIn?_eq_some]
  constructor
  · rintro ⟨d', hy, rfl | ⟨hz', hz⟩⟩
    · exact ⟨d', hy, hw, ht, hl, hh⟩
    · refine ⟨d', hy, ?_, ?_, hl, hh⟩
      · simp [Dyadic.isWhole, hz']
      · rw [← ht]
        simp [Dyadic.truncate, Dyadic.wholePart, hz, hz']
  · rintro ⟨d', hy, hw', ht', -, -⟩
    have hc' := canonical_shape hy
    refine ⟨d', hy, ?_⟩
    rw [← ht'] at ht
    obtain ⟨negative, significand, exponent⟩ := d
    obtain ⟨negative', significand', exponent'⟩ := d'
    by_cases hz : Dyadic.wholePart ⟨negative', significand', exponent'⟩ = 0
    · refine .inr ⟨significand_eq_zero hc' hw' hz, significand_eq_zero hc hw ?_⟩
      unfold Dyadic.truncate at ht
      split at ht <;> split at ht <;> omega
    · have he : negative = negative' ∧ Dyadic.wholePart ⟨negative, significand, exponent⟩ =
          Dyadic.wholePart ⟨negative', significand', exponent'⟩ := by
        unfold Dyadic.truncate at ht
        cases negative <;> cases negative' <;> simp at ht ⊢ <;> omega
      obtain ⟨hs, he'⟩ := eq_of_wholePart hc hc' hw hw' he.2
      exact .inl (congrFun (congr (congrArg Dyadic.mk he.1.symm) hs.symm) _ |>.trans
        (congrArg _ he'.symm))

end Ecma.Number
