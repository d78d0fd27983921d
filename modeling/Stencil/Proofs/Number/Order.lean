import Stencil.Proofs.Number.Bits
import Stencil.Proofs.Number.Nearest

set_option autoImplicit false

namespace Stencil.Binary
open Float.Model Float.Model.UnpackedFloat

/-- The sign, exponent and significand of a magnitude. A leading bit is not stored, so with it the
exponent counts from one less. -/
inductive Unpacks (s : Sign) (magnitude : Nat) : UnpackedFloat → Prop where
  | infinity : magnitude = infinityBits → Unpacks s magnitude (.infinity s)
  | zero : magnitude = 0 → Unpacks s magnitude (.zero s)
  | finite {m k : Nat} {e : Int} (h : 0 < m) : magnitude < infinityBits → m < 2 ^ 53 →
    (2 ^ 52 ≤ m ∨ k = 0) → magnitude = k * 2 ^ 52 + m → e = k - 1074 →
    Unpacks s magnitude (.finite s m e h)

theorem toNat_append_mantissa (v : BitVec 52) : (1#1 ++ v).toNat = 2 ^ 52 + v.toNat := by
  rw [BitVec.toNat_append, ← Nat.shiftLeft_add_eq_or_of_lt v.isLt]
  rfl

section

variable (b : BitVec 64)

theorem exponent_eq : (@unpackExponent .binary64 b).toNat = b.toNat % signBit / 2 ^ 52 := by
  rw [toNat_unpackExponent, signBit_eq]
  omega

theorem mantissa_eq : (@unpackMantissa .binary64 b).toNat = b.toNat % signBit % 2 ^ 52 := by
  rw [toNat_unpackMantissa, signBit_eq]
  omega

theorem exponent_eq_last_iff :
    @unpackExponent .binary64 b = -1#11 ↔ b.toNat % signBit / 2 ^ 52 = 2047 := by
  rw [← exponent_eq, ← BitVec.toNat_inj]
  exact Iff.rfl

theorem exponent_eq_zero_iff :
    @unpackExponent .binary64 b = 0#11 ↔ b.toNat % signBit / 2 ^ 52 = 0 := by
  rw [← exponent_eq, ← BitVec.toNat_inj]
  exact Iff.rfl

theorem mantissa_eq_zero_iff :
    @unpackMantissa .binary64 b = 0#52 ↔ b.toNat % signBit % 2 ^ 52 = 0 := by
  rw [← mantissa_eq, ← BitVec.toNat_inj]
  exact Iff.rfl

theorem significand_eq : (1#1 ++ @unpackMantissa .binary64 b).toNat =
    2 ^ 52 + b.toNat % signBit % 2 ^ 52 := by
  rw [← mantissa_eq]
  exact toNat_append_mantissa _

end

theorem unpacks_unpack {b : BitVec 64} (h : b.toNat % signBit ≤ infinityBits) :
    Unpacks (Sign.ofBitVec (@unpackSign .binary64 b)) (b.toNat % signBit)
      (UnpackedFloat.unpack .binary64 b) := by
  have hm := mantissa_eq b
  have hx := exponent_eq b
  have hs := significand_eq b
  have hl := exponent_eq_last_iff b
  have hz := exponent_eq_zero_iff b
  have hv := mantissa_eq_zero_iff b
  have hbias : ((Format.binary64.exponentBias : Nat) : Int) + (52 : Nat) = 1075 := rfl
  generalize b.toNat % signBit = M at *
  rw [infinityBits_eq] at h
  rw [UnpackedFloat.unpack]
  dsimp only
  rw [hbias]
  split
  · rename_i he
    rw [hl] at he
    have hn : @unpackMantissa .binary64 b = 0#52 := hv.2 (by omega)
    rw [if_pos hn]
    refine .infinity ?_
    rw [infinityBits_eq]
    omega
  rename_i hi
  rw [hl] at hi
  have hlt : M < infinityBits := by
    rw [infinityBits_eq]
    omega
  split
  · rename_i he
    have he := hz.1 he
    split
    · rename_i hn
      rw [hv] at hn
      exact .zero (by omega)
    · exact .finite (k := 0) _ hlt (by omega) (.inr rfl) (by omega) (by omega)
  · rename_i he
    rw [hz] at he
    change Unpacks _ M (.finite _ (1#1 ++ @unpackMantissa .binary64 b).toNat _ _)
    exact .finite (k := M / 2 ^ 52 - 1) _ hlt (by omega) (.inl (by omega)) (by omega) (by omega)

theorem compare_magnitudes {j k m n : Nat} (hm : m < 2 ^ 53) (hn : n < 2 ^ 53)
    (hj : 2 ^ 52 ≤ m ∨ j = 0) (hk : 2 ^ 52 ≤ n ∨ k = 0) :
    (compare ((j : Int) - 1074) (k - 1074)).then (compare m n) =
      compare (j * 2 ^ 52 + m) (k * 2 ^ 52 + n) := by
  rcases Nat.lt_trichotomy j k with h | rfl | h
  · have hm : compare (j * 2 ^ 52 + m) (k * 2 ^ 52 + n) = .lt := Nat.compare_eq_lt.2 (by omega)
    rw [Int.compare_eq_lt.2 (by omega), hm]
    rfl
  · rw [compare_eq_iff_eq.2 rfl, Ordering.eq_then]
    rcases Nat.lt_trichotomy m n with h | rfl | h
    · rw [Nat.compare_eq_lt.2 h, Nat.compare_eq_lt.2 (by omega)]
    · rw [compare_eq_iff_eq.2 rfl, compare_eq_iff_eq.2 rfl]
    · rw [Nat.compare_eq_gt.2 h, Nat.compare_eq_gt.2 (by omega)]
  · have hm : compare (j * 2 ^ 52 + m) (k * 2 ^ 52 + n) = .gt := Nat.compare_eq_gt.2 (by omega)
    rw [Int.compare_eq_gt.2 (by omega), hm]
    rfl

section

variable {m n : Nat}

theorem apply_zero (s : Sign) : s.apply 0 = 0 := by cases s <;> rfl

theorem apply_lt (h : m < n) (s : Sign) :
    Sign.negative.apply n < s.apply m ∧ s.apply m < Sign.positive.apply n := by
  cases s <;> simp only [Sign.apply] <;> omega

theorem apply_pos (h : 0 < m) : Sign.negative.apply m < 0 ∧ 0 < Sign.positive.apply m := by
  simp only [Sign.apply]
  omega

theorem compare_eq_of_lt_iff {a b : Int} (hlt : a < b ↔ m < n) (hgt : b < a ↔ n < m) :
    compare a b = compare m n := by
  rcases Nat.lt_trichotomy m n with h | h | h
  · rw [Nat.compare_eq_lt.2 h, Int.compare_eq_lt.2 (hlt.2 h)]
  · rw [compare_eq_iff_eq.2 h, compare_eq_iff_eq.2 (by omega)]
  · rw [Nat.compare_eq_gt.2 h, Int.compare_eq_gt.2 (hgt.2 h)]

theorem compare_positive (m n : Nat) :
    compare (Sign.positive.apply m) (Sign.positive.apply n) = compare m n :=
  compare_eq_of_lt_iff (by simp [Sign.apply]) (by simp [Sign.apply])

theorem compare_negative (m n : Nat) :
    compare (Sign.negative.apply m) (Sign.negative.apply n) = compare n m :=
  compare_eq_of_lt_iff (by simp [Sign.apply]) (by simp [Sign.apply])

theorem Unpacks.compare {s t : Sign} {u v : UnpackedFloat} (hu : Unpacks s m u)
    (hv : Unpacks t n v) : u.compare v = some (compare (s.apply m) (t.apply n)) := by
  cases hu with
  | infinity hm =>
    cases hv with
    | infinity hn => subst hm hn; cases s <;> cases t <;> rfl
    | zero hn => subst hm hn; cases s <;> cases t <;> rfl
    | finite _ hn _ _ _ _ =>
      subst hm
      cases s
      · rw [Int.compare_eq_lt.2 (apply_lt hn t).1]; rfl
      · rw [Int.compare_eq_gt.2 (apply_lt hn t).2]; rfl
  | zero hm =>
    cases hv with
    | infinity hn => subst hm hn; cases s <;> cases t <;> rfl
    | zero hn => subst hm hn; cases s <;> cases t <;> rfl
    | finite hp _ _ _ hn _ =>
      subst hm
      rw [Nat.cast_zero, apply_zero]
      cases t
      · rw [Int.compare_eq_gt.2 (apply_pos (by omega)).1]; rfl
      · rw [Int.compare_eq_lt.2 (apply_pos (by omega)).2]; rfl
  | finite hp hm hlt hj he hej =>
    cases hv with
    | infinity hn =>
      subst hn
      cases t
      · rw [Int.compare_eq_gt.2 (apply_lt hm s).1]; cases s <;> rfl
      · rw [Int.compare_eq_lt.2 (apply_lt hm s).2]; cases s <;> rfl
    | zero hn =>
      subst hn
      rw [Nat.cast_zero, apply_zero]
      cases s
      · rw [Int.compare_eq_lt.2 (apply_pos (by omega)).1]; rfl
      · rw [Int.compare_eq_gt.2 (apply_pos (by omega)).2]; rfl
    | finite hq hn hlt' hk he' hek =>
      have hc := compare_magnitudes hlt hlt' hj hk
      rw [← he, ← he', ← hej, ← hek] at hc
      cases s <;> cases t
      · rw [compare_negative, ← Nat.compare_swap, ← hc]
        rfl
      · have hlt := (apply_pos (m := m) (by omega)).1.trans (apply_pos (m := n) (by omega)).2
        rw [Int.compare_eq_lt.2 hlt]
        rfl
      · have hlt := (apply_pos (m := n) (by omega)).1.trans (apply_pos (m := m) (by omega)).2
        rw [Int.compare_eq_gt.2 hlt]
        rfl
      · rw [compare_positive, ← hc]
        rfl

end

/-- The floats in their order, as integers. -/
def rank (x : Float) : Int :=
  (if signBit ≤ x.toBits.toNat then Sign.negative else .positive).apply ↑(x.toBits.toNat % signBit)

theorem rank_eq (x : Float) :
    rank x = (Sign.ofBitVec (@unpackSign .binary64 x.toBits.toBitVec)).apply
      ↑(x.toBits.toNat % signBit) := by
  have h := ofBitVec_unpackSign x.toBits.toBitVec
  rw [UInt64.toNat_toBitVec] at h
  unfold rank
  split
  · rename_i hn
    rw [h.2 hn]
  · rename_i hn
    cases hs : Sign.ofBitVec (@unpackSign .binary64 x.toBits.toBitVec) with
    | negative => exact absurd (h.1 hs) hn
    | positive => rfl

theorem le_infinityBits {x : Float} (h : ofFloat x ≠ .nan) :
    x.toBits.toNat % signBit ≤ infinityBits := by
  by_contra hn
  unfold ofFloat ofMagnitude at h
  exact h (if_pos (Nat.lt_of_not_le hn))

section

variable {x y : Float}

theorem compare_eq_rank (hx : ofFloat x ≠ .nan) (hy : ofFloat y ≠ .nan) :
    x.toModel.unpack.compare y.toModel.unpack = some (compare (rank x) (rank y)) := by
  rw [rank_eq, rank_eq]
  exact (unpacks_unpack (le_infinityBits hx)).compare (unpacks_unpack (le_infinityBits hy))

theorem lt_iff_rank (hx : ofFloat x ≠ .nan) (hy : ofFloat y ≠ .nan) : x < y ↔ rank x < rank y := by
  have h : x < y ↔ x.toModel.unpack.compare y.toModel.unpack = some .lt := by
    change decide (_ = true) = true ↔ _
    rw [decide_eq_true_eq]
    exact beq_iff_eq
  rw [h, compare_eq_rank hx hy, Option.some.injEq, Int.compare_eq_lt]

theorem beq_iff_rank (hx : ofFloat x ≠ .nan) (hy : ofFloat y ≠ .nan) :
    (x == y) = true ↔ rank x = rank y := by
  have h : (x == y) = true ↔ x.toModel.unpack.compare y.toModel.unpack = some .eq := by
    change (x.toModel.unpack.compare y.toModel.unpack == some .eq) = true ↔ _
    exact beq_iff_eq
  rw [h, compare_eq_rank hx hy, Option.some.injEq, compare_eq_iff_eq]

end

theorem rank_float (negative : Bool) {magnitude : Nat} (h : magnitude ≤ infinityBits) :
    rank (float negative magnitude) =
      (if negative then Sign.negative else .positive).apply magnitude := by
  obtain ⟨hs, hm⟩ := sign_add negative h
  rw [rank, toNat_toBits_float negative h, hm]
  simp only [hs]

theorem rank_ofInt_mono {a b : Int} (h : a ≤ b) : rank (ofInt a) ≤ rank (ofInt b) := by
  rw [ofInt, ofInt, rank_float _ (nearestMagnitude_le _ _), rank_float _ (nearestMagnitude_le _ _)]
  rcases lt_or_ge a 0 with ha | ha <;> rcases lt_or_ge b 0 with hb | hb
  · have := nearestMagnitude_mono Nat.one_pos (show b.natAbs ≤ a.natAbs by omega)
    simp [ha, hb, Sign.apply, this]
  · simp [ha, not_lt.2 hb, Sign.apply]
  · omega
  · have := nearestMagnitude_mono Nat.one_pos (show a.natAbs ≤ b.natAbs by omega)
    simp [not_lt.2 ha, not_lt.2 hb, Sign.apply, this]

end Stencil.Binary

namespace Stencil

namespace Number

def isNaN : Number → Bool
  | .int _ => false
  | .float x => decide (Binary.ofFloat x = .nan)

end Number

namespace Numeral

theorem scaledMagnitude_le (c : Nat) (e : Int) : scaledMagnitude c e ≤ Binary.infinityBits := by
  unfold scaledMagnitude
  split
  · exact Nat.zero_le _
  split
  · exact Nat.le_refl _
  split
  · exact Nat.zero_le _
  split <;> exact Binary.nearestMagnitude_le _ _

theorem ofFloat_toFloat_ne_nan (n : Numeral) : Binary.ofFloat n.toFloat ≠ .nan :=
  Binary.ofFloat_float_ne_nan _ (scaledMagnitude_le _ _)

theorem isNaN_of_literal? {n : Numeral} {m : Number} (h : n.literal? = some m) :
    m.isNaN = false := by
  unfold literal? at h
  split at h
  · unfold int? at h
    split at h
    · unfold Number.ofInt? at h
      split at h
      · cases h
        rfl
      · contradiction
    · contradiction
  · cases h
    exact decide_eq_false n.ofFloat_toFloat_ne_nan
  · contradiction

end Numeral

end Stencil
