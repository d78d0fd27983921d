import Mathlib
import Stencil.Number.Numeral

set_option autoImplicit false

namespace Stencil.Binary
open Float.Model Float.Model.UnpackedFloat

theorem signBit_eq : signBit = 2 ^ 63 := by decide

theorem infinityBits_eq : infinityBits = 2047 * 2 ^ 52 := by decide

theorem toNat_unpackMantissa (b : BitVec 64) :
    (@unpackMantissa .binary64 b).toNat = b.toNat % 2 ^ 52 := by
  simp [unpackMantissa]

theorem toNat_unpackExponent (b : BitVec 64) :
    (@unpackExponent .binary64 b).toNat = b.toNat / 2 ^ 52 % 2 ^ 11 := by
  simp [unpackExponent, Nat.shiftRight_eq_div_pow]

theorem isNaNBits_iff (b : BitVec 64) :
    @isNaNBits .binary64 b = true ↔ infinityBits < b.toNat % signBit := by
  have hb := b.isLt
  rw [isNaNBits, decide_eq_true_eq, ne_eq, ← BitVec.toNat_inj, ← BitVec.toNat_inj,
    toNat_unpackExponent, toNat_unpackMantissa, infinityBits_eq, signBit_eq]
  change (_ = 2047 ∧ ¬_ = 0) ↔ _
  omega

theorem toBits_ofBits {b : UInt64} (h : b.toNat % signBit ≤ infinityBits) :
    (Float.ofBits b).toBits = b := by
  have hn : ¬@isNaNBits .binary64 b.toBitVec = true := by
    rw [isNaNBits_iff, UInt64.toNat_toBitVec]
    omega
  have hp : (UnpackedFloat.unpack .binary64 b.toBitVec).pack .binary64 = b.toBitVec := by
    rw [pack_unpack, if_neg hn]
  simp only [Float.ofBits, Float.toBits, Float.Model.ofBits, Float.Model.pack, hp]

theorem beq_self {x : Float} (h : ofFloat x ≠ .nan) : (x == x) = true := by
  refine Float.beq_self_iff.2 ?_
  rintro rfl
  exact h (by decide)

theorem float_toBits (x : Float) :
    float (decide (signBit ≤ x.toBits.toNat)) (x.toBits.toNat % signBit) = x := by
  have hx := x.toBits.toNat_lt
  have hb : (if decide (signBit ≤ x.toBits.toNat) = true then signBit else 0) +
      x.toBits.toNat % signBit = x.toBits.toNat := by
    simp only [decide_eq_true_eq, signBit_eq]
    split <;> omega
  rw [float, hb, UInt64.ofNat_toNat, Float.ofBits_toBits]

theorem sign_add (negative : Bool) {magnitude : Nat} (h : magnitude ≤ infinityBits) :
    (signBit ≤ (if negative then signBit else 0) + magnitude ↔ negative = true) ∧
      ((if negative then signBit else 0) + magnitude) % signBit = magnitude := by
  rw [infinityBits_eq] at h
  rw [signBit_eq]
  cases negative <;> simp <;> omega

theorem toNat_toBits_float (negative : Bool) {magnitude : Nat} (h : magnitude ≤ infinityBits) :
    (float negative magnitude).toBits.toNat = (if negative then signBit else 0) + magnitude := by
  have hm := (sign_add negative h).2
  have hl : (if negative then signBit else 0) + magnitude < UInt64.size := by
    rw [infinityBits_eq] at h
    rw [signBit_eq]
    cases negative <;> simp [UInt64.size] <;> omega
  have hn := UInt64.toNat_ofNat_of_lt' hl
  rw [float, toBits_ofBits (by rw [hn, hm]; exact h), hn]

theorem ofFloat_float (negative : Bool) {magnitude : Nat} (h : magnitude ≤ infinityBits) :
    ofFloat (float negative magnitude) = ofMagnitude negative magnitude := by
  obtain ⟨hs, hm⟩ := sign_add negative h
  rw [ofFloat, toNat_toBits_float negative h]
  simp only [hs, hm, Bool.decide_eq_true]

theorem ofFloat_float_ne_nan (negative : Bool) {magnitude : Nat} (h : magnitude ≤ infinityBits) :
    ofFloat (float negative magnitude) ≠ .nan := by
  rw [ofFloat_float _ h, ofMagnitude, if_neg (by omega)]
  split
  · simp
  · split <;> simp

theorem ofMagnitude_finite {negative sign : Bool} {bits m : Nat} {q : Int}
    (h : ofMagnitude negative bits = .finite sign m q) :
    negative = sign ∧ bits < infinityBits ∧ (m = 0 ↔ bits = 0) := by
  have hl : leadingBit = 2 ^ 52 := by decide
  unfold ofMagnitude at h
  rw [hl] at h
  split at h
  · contradiction
  split at h
  · contradiction
  split at h <;> cases h <;> exact ⟨rfl, by omega, by omega⟩

theorem ofBitVec_unpackSign (b : BitVec 64) :
    Sign.ofBitVec (@unpackSign .binary64 b) = .negative ↔ signBit ≤ b.toNat := by
  have hs : (@unpackSign .binary64 b).toNat = b.toNat / 2 ^ 63 % 2 := by
    simp [unpackSign, Nat.shiftRight_eq_div_pow]
  have hz : @unpackSign .binary64 b = 0#1 ↔ b.toNat < signBit := by
    have hb := b.isLt
    rw [← BitVec.toNat_inj, hs, signBit_eq]
    change _ = 0 ↔ _
    omega
  rw [Sign.ofBitVec, ite_eq_right_iff]
  simp only [hz, reduceCtorEq, imp_false, Nat.not_lt]

theorem compare_finite_zero {s : Sign} {m : Nat} {e : Int} {h : 0 < m} :
    (UnpackedFloat.finite s m e h).compare (.zero .positive) = some .lt ↔ s = .negative := by
  cases s <;> simp [UnpackedFloat.compare]

theorem unpack_compare_zero {b : BitVec 64} (h : b.toNat % signBit < infinityBits) :
    (UnpackedFloat.unpack .binary64 b).compare (.zero .positive) = some .lt ↔
      signBit ≤ b.toNat ∧ b.toNat % signBit ≠ 0 := by
  have hb := b.isLt
  have hs := ofBitVec_unpackSign b
  have hx : @unpackExponent .binary64 b ≠ -1#11 := by
    rw [infinityBits_eq, signBit_eq] at h
    rw [ne_eq, ← BitVec.toNat_inj, toNat_unpackExponent]
    change ¬_ = 2047
    omega
  have hz : @unpackExponent .binary64 b = 0#11 ↔ b.toNat / 2 ^ 52 % 2 ^ 11 = 0 := by
    rw [← BitVec.toNat_inj, toNat_unpackExponent]
    exact Iff.rfl
  have hm : @unpackMantissa .binary64 b = 0#52 ↔ b.toNat % 2 ^ 52 = 0 := by
    rw [← BitVec.toNat_inj, toNat_unpackMantissa]
    exact Iff.rfl
  have hc : b.toNat % signBit = 0 ↔ b.toNat / 2 ^ 52 % 2 ^ 11 = 0 ∧ b.toNat % 2 ^ 52 = 0 := by
    rw [signBit_eq]
    omega
  rw [UnpackedFloat.unpack, ne_eq, hc, ← hz, ← hm]
  dsimp only
  rw [if_neg hx]
  split
  · rename_i he
    split
    · rename_i hn
      simp [he, hn, UnpackedFloat.compare]
    · rename_i hn
      rw [compare_finite_zero, hs]
      simp [hn]
  · rename_i he
    rw [compare_finite_zero, hs]
    simp [he]

theorem lt_zero_iff {x : Float} {negative : Bool} {m : Nat} {q : Int}
    (h : ofFloat x = .finite negative m q) : x < 0 ↔ negative = true ∧ m ≠ 0 := by
  obtain ⟨hs, hlt, hm⟩ := ofMagnitude_finite h
  have hx : x < 0 ↔ x.toModel.unpack.compare (.zero .positive) = some .lt := by
    change decide (_ = true) = true ↔ _
    rw [decide_eq_true_eq]
    exact beq_iff_eq
  rw [hx, ne_eq, hm, ← hs, decide_eq_true_eq]
  exact unpack_compare_zero hlt

end Stencil.Binary
