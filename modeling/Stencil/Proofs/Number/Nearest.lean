import Mathlib.Algebra.Order.Field.Power
import Mathlib.Data.Int.Log
import Mathlib.Data.Rat.Floor
import Mathlib.Tactic.FieldSimp
import Mathlib.Tactic.Positivity
import Mathlib.Tactic.Ring
import Stencil.Number.Numeral

/-! The float nearest to a ratio: it is monotone, and depends on nothing but the ratio. -/

set_option autoImplicit false

namespace Stencil

theorem roundDiv_mul_left {c : Nat} (hc : 0 < c) (n d : Nat) :
    roundDiv (c * n) (c * d) = roundDiv n d := by
  have hm : c * n % (c * d) = c * (n % d) := Nat.mul_mod_mul_left c n d
  have hd : c * n / (c * d) = n / d := Nat.mul_div_mul_left n d hc
  have hl : 2 * (c * (n % d)) < c * d ↔ 2 * (n % d) < d := by
    rw [Nat.mul_left_comm]
    exact Nat.mul_lt_mul_left hc
  have he : 2 * (c * (n % d)) = c * d ↔ 2 * (n % d) = d := by
    rw [Nat.mul_left_comm]
    exact Nat.mul_right_inj (Nat.pos_iff_ne_zero.1 hc)
  simp only [roundDiv, hm, hd, hl, he]

theorem roundDiv_mul_self {d : Nat} (hd : 0 < d) (m : Nat) : roundDiv (m * d) d = m := by
  simp [roundDiv, Nat.mul_div_cancel m hd, hd]

theorem roundDiv_eq_zero {n d : Nat} (h : 2 * n < d) : roundDiv n d = 0 := by
  have hn : n < d := by omega
  simp [roundDiv, Nat.mod_eq_of_lt hn, Nat.div_eq_of_lt hn, h]

theorem le_roundDiv {n d m : Nat} (hd : 0 < d) (h : m * d ≤ n) : m ≤ roundDiv n d := by
  have := (Nat.le_div_iff_mul_le hd).2 h
  unfold roundDiv
  split <;> omega

theorem roundDiv_le {n d m : Nat} (hd : 0 < d) (h : n ≤ m * d) : roundDiv n d ≤ m := by
  have hmod := Nat.mod_add_div n d
  have hlt := Nat.mod_lt n hd
  unfold roundDiv
  rcases Nat.lt_or_ge (n / d) m with hq | hq
  · split <;> omega
  · have hle : m * d ≤ n / d * d := Nat.mul_le_mul_right d hq
    have hn : n / d * d ≤ n := Nat.div_mul_le_self n d
    have he : n / d = m := Nat.eq_of_mul_eq_mul_right hd (by omega)
    have hz : n % d = 0 := by
      rw [Nat.mul_comm, he] at hmod
      omega
    rw [if_pos (.inl (by omega)), he]

theorem roundDiv_mono {n m : Nat} (d : Nat) (h : n ≤ m) : roundDiv n d ≤ roundDiv m d := by
  rcases Nat.lt_or_ge (n / d) (m / d) with hq | hq
  · have hn : roundDiv n d ≤ n / d + 1 := by unfold roundDiv; split <;> omega
    have hm : m / d ≤ roundDiv m d := by unfold roundDiv; split <;> omega
    omega
  · -- The same quotient, so the remainders lie as the numbers do.
    have he : n / d = m / d := Nat.le_antisymm (Nat.div_le_div_right h) hq
    have hn := Nat.mod_add_div n d
    have hm := Nat.mod_add_div m d
    rw [he] at hn
    unfold roundDiv
    rw [he]
    split <;> split <;> omega

namespace Binary

theorem shift_le_iff {n d : Nat} (hd : 0 < d) (e : Int) :
    (if 0 ≤ e then d <<< e.toNat ≤ n else d ≤ n <<< (-e).toNat) ↔
      (2 : ℚ) ^ e ≤ (n : ℚ) / d := by
  have hq : (0 : ℚ) < d := by exact_mod_cast hd
  rw [le_div_iff₀ hq]
  split
  · rename_i he
    obtain ⟨k, rfl⟩ := Int.eq_ofNat_of_zero_le he
    rw [Int.toNat_natCast, Nat.shiftLeft_eq, zpow_natCast, mul_comm]
    exact_mod_cast Iff.rfl
  · obtain ⟨k, hk⟩ : ∃ k : Nat, e = -k := ⟨(-e).toNat, by omega⟩
    have hp : (0 : ℚ) < 2 ^ k := by positivity
    rw [hk, Int.neg_neg, Int.toNat_natCast, Nat.shiftLeft_eq, zpow_neg, zpow_natCast,
      inv_mul_le_iff₀ hp, mul_comm]
    exact_mod_cast Iff.rfl

theorem two_zpow_le_log2 {n : Nat} (hn : 0 < n) : (2 : ℚ) ^ (n.log2 : Int) ≤ n := by
  rw [zpow_natCast]
  exact_mod_cast Nat.log2_self_le (Nat.pos_iff_ne_zero.1 hn)

theorem lt_two_zpow_log2 (n : Nat) : (n : ℚ) < 2 ^ (n.log2 + 1 : Int) := by
  have h : n < 2 ^ (n.log2 + 1) := Nat.lt_log2_self
  exact_mod_cast h

theorem binade_eq_log {n d : Nat} (hn : 0 < n) (hd : 0 < d) :
    binade n d = Int.log 2 ((n : ℚ) / d) := by
  have hr : (0 : ℚ) < (n : ℚ) / d := by positivity
  have hle (e : Int) : (2 : ℚ) ^ e ≤ (n : ℚ) / d ↔ e ≤ Int.log 2 ((n : ℚ) / d) := by
    exact_mod_cast Int.zpow_le_iff_le_log (b := 2) (by decide) hr
  have low : (n.log2 - d.log2 - 1 : Int) ≤ Int.log 2 ((n : ℚ) / d) := by
    rw [← hle, sub_sub, zpow_sub₀ (by decide)]
    exact div_le_div₀ (by positivity) (two_zpow_le_log2 hn) (by positivity)
      (lt_two_zpow_log2 d).le
  have high : Int.log 2 ((n : ℚ) / d) < (n.log2 - d.log2 + 1 : Int) := by
    rw [← not_le, ← hle, not_le, show (n.log2 - d.log2 + 1 : Int) = n.log2 + 1 - d.log2 by ring,
      zpow_sub₀ (by decide)]
    exact div_lt_div₀ (lt_two_zpow_log2 n) (two_zpow_le_log2 hd) (by positivity) (by positivity)
  have hs := shift_le_iff hd (n := n) (n.log2 - d.log2)
  unfold binade
  dsimp only
  by_cases h : (2 : ℚ) ^ (n.log2 - d.log2 : Int) ≤ (n : ℚ) / d
  · rw [if_pos (hs.2 h)]
    rw [hle] at h
    omega
  · rw [if_neg (mt hs.1 h)]
    rw [hle] at h
    omega

theorem nearestMagnitude_le (n d : Nat) : nearestMagnitude n d ≤ infinityBits := by
  unfold nearestMagnitude
  split
  · exact Nat.zero_le _
  · exact Nat.min_le_left _ _

theorem nearestMagnitude_mul {c d : Nat} (hc : 0 < c) (hd : 0 < d) (n : Nat) :
    nearestMagnitude (c * n) (c * d) = nearestMagnitude n d := by
  rcases Nat.eq_zero_or_pos n with rfl | hn
  · simp [nearestMagnitude]
  have hb : binade (c * n) (c * d) = binade n d := by
    have hq : (c : ℚ) ≠ 0 := by exact_mod_cast hc.ne'
    rw [binade_eq_log (Nat.mul_pos hc hn) (Nat.mul_pos hc hd), binade_eq_log hn hd]
    push_cast
    rw [mul_div_mul_left _ _ hq]
  have hz : c * n ≠ 0 := (Nat.mul_pos hc hn).ne'
  simp only [nearestMagnitude, hb, hz, hn.ne', if_false, Nat.shiftLeft_eq, Nat.mul_assoc,
    roundDiv_mul_left hc]

def raised (n : Nat) (q : Int) : Nat := if 0 ≤ q then n else n <<< (-q).toNat

def lowered (d : Nat) (q : Int) : Nat := if 0 ≤ q then d <<< q.toNat else d

theorem lowered_pos {d : Nat} (hd : 0 < d) (q : Int) : 0 < lowered d q := by
  unfold lowered
  split
  · rw [Nat.shiftLeft_eq]
    positivity
  · exact hd

theorem raised_mono {n m : Nat} (h : n ≤ m) (q : Int) : raised n q ≤ raised m q := by
  unfold raised
  split
  · exact h
  · rw [Nat.shiftLeft_eq, Nat.shiftLeft_eq]
    exact Nat.mul_le_mul_right _ h

theorem raised_div_lowered {d : Nat} (hd : 0 < d) (n : Nat) (q : Int) :
    (raised n q : ℚ) / lowered d q = n / d / 2 ^ q := by
  have hd' : (d : ℚ) ≠ 0 := by exact_mod_cast hd.ne'
  unfold raised lowered
  split
  · rename_i hq
    obtain ⟨k, rfl⟩ := Int.eq_ofNat_of_zero_le hq
    rw [Int.toNat_natCast, Nat.shiftLeft_eq, zpow_natCast]
    push_cast
    rw [div_div]
  · obtain ⟨k, hk⟩ : ∃ k : Nat, q = -k := ⟨(-q).toNat, by omega⟩
    rw [hk, Int.neg_neg, Int.toNat_natCast, Nat.shiftLeft_eq, zpow_neg, zpow_natCast]
    push_cast
    field_simp

theorem roundDiv_raised (n d : Nat) (q : Int) : roundDiv (raised n q) (lowered d q) =
    if 0 ≤ q then roundDiv n (d <<< q.toNat) else roundDiv (n <<< (-q).toNat) d := by
  by_cases hq : 0 ≤ q <;> simp [raised, lowered, hq]

/-- The exponent of the last place that a ratio is rounded to. -/
def lastPlace (n d : Nat) : Int := max (binade n d - 52) (-1074)

theorem nearestMagnitude_eq {n : Nat} (hn : 0 < n) (d : Nat) :
    nearestMagnitude n d = min infinityBits ((lastPlace n d + 1074).toNat * 2 ^ 52 +
      roundDiv (raised n (lastPlace n d)) (lowered d (lastPlace n d))) := by
  rw [← Nat.shiftLeft_eq, roundDiv_raised, nearestMagnitude, if_neg hn.ne']
  rfl

/-- The last place of a ratio that is a significand times a power of two. -/
theorem lastPlace_eq {n d m : Nat} {q : Int} (hn : 0 < n) (hd : 0 < d)
    (h : (n : ℚ) / d = m * 2 ^ q) (hm : m < 2 ^ 53) (hq : -1074 ≤ q)
    (hs : 2 ^ 52 ≤ m ∨ q = -1074) : lastPlace n d = q := by
  have hp : (0 : ℚ) < 2 ^ q := by positivity
  have hr : (0 : ℚ) < (n : ℚ) / d := by positivity
  have hlt : Int.log 2 ((n : ℚ) / d) < 53 + q := by
    rw [← Int.lt_zpow_iff_log_lt (by decide) hr, h, zpow_add₀ (by decide)]
    exact mul_lt_mul_of_pos_right (by exact_mod_cast hm) hp
  have hge (h52 : 2 ^ 52 ≤ m) : 52 + q ≤ Int.log 2 ((n : ℚ) / d) := by
    rw [← Int.zpow_le_iff_le_log (by decide) hr, h, zpow_add₀ (by decide)]
    exact mul_le_mul_of_nonneg_right (by exact_mod_cast h52) hp.le
  rw [lastPlace, binade_eq_log hn hd]
  rcases hs with hs | rfl
  · have := hge hs
    omega
  · omega

theorem nearestMagnitude_exact {n d m : Nat} {q : Int} (hd : 0 < d)
    (h : (n : ℚ) / d = m * 2 ^ q) (hm : m < 2 ^ 53) (hq : -1074 ≤ q)
    (hn : 2 ^ 52 ≤ m ∨ q = -1074) :
    nearestMagnitude n d = min infinityBits ((q + 1074).toNat <<< 52 + m) := by
  rcases Nat.eq_zero_or_pos n with rfl | hn0
  · have hz : m = 0 := by
      rw [Nat.cast_zero, zero_div] at h
      have := (mul_eq_zero.1 h.symm).resolve_right (zpow_ne_zero q (by decide))
      exact_mod_cast this
    have : q = -1074 := by omega
    simp [nearestMagnitude, hz, this]
  have hr : (raised n q : ℚ) / lowered d q = m := by
    rw [raised_div_lowered hd, h, mul_div_cancel_right₀ _ (zpow_ne_zero q (by decide))]
  have he : raised n q = m * lowered d q := by
    rw [div_eq_iff (by exact_mod_cast (lowered_pos hd q).ne')] at hr
    exact_mod_cast hr
  rw [nearestMagnitude_eq hn0, lastPlace_eq hn0 hd h hm hq hn, he,
    roundDiv_mul_self (lowered_pos hd q), Nat.shiftLeft_eq]

theorem nearestMagnitude_eq_zero {n d : Nat} (h : n * 2 ^ 1075 < d) :
    nearestMagnitude n d = 0 := by
  rcases Nat.eq_zero_or_pos n with rfl | hn
  · simp [nearestMagnitude]
  have hd : 0 < d := by omega
  have hr : (0 : ℚ) < (n : ℚ) / d := by positivity
  have hlt : Int.log 2 ((n : ℚ) / d) < -1075 := by
    rw [← Int.lt_zpow_iff_log_lt (by decide) hr, zpow_neg, ← one_div,
      div_lt_div_iff₀ (by positivity) (by positivity), one_mul]
    exact_mod_cast h
  have hmax : max (binade n d - 52) (-1074) = -1074 := by
    rw [binade_eq_log hn hd]
    omega
  have hround : roundDiv (n <<< 1074) d = 0 := by
    apply roundDiv_eq_zero
    rw [Nat.shiftLeft_eq]
    omega
  unfold nearestMagnitude
  rw [if_neg hn.ne', hmax]
  simp [hround]

section

variable {n m d : Nat}

theorem lastPlace_mono (hn : 0 < n) (hd : 0 < d) (h : n ≤ m) : lastPlace n d ≤ lastPlace m d := by
  have hm : 0 < m := Nat.lt_of_lt_of_le hn h
  have hr : (n : ℚ) / d ≤ m / d := by gcongr
  have hl := Int.log_mono_right (b := 2) (by positivity) hr
  rw [lastPlace, lastPlace, binade_eq_log hn hd, binade_eq_log hm hd]
  omega

theorem roundDiv_raised_le (hn : 0 < n) (hd : 0 < d) :
    roundDiv (raised n (lastPlace n d)) (lowered d (lastPlace n d)) ≤ 2 ^ 53 := by
  have hpos := lowered_pos hd (lastPlace n d)
  have hl : Int.log 2 ((n : ℚ) / d) < 53 + lastPlace n d := by
    rw [lastPlace, binade_eq_log hn hd]
    omega
  have hr : (n : ℚ) / d < 2 ^ 53 * 2 ^ lastPlace n d := by
    rw [← Int.lt_zpow_iff_log_lt (by decide) (by positivity), zpow_add₀ (by decide)] at hl
    exact_mod_cast hl
  refine roundDiv_le hpos ?_
  have hq := raised_div_lowered hd n (lastPlace n d)
  have hlt : (raised n (lastPlace n d) : ℚ) / lowered d (lastPlace n d) < 2 ^ 53 := by
    rw [hq, div_lt_iff₀ (by positivity)]
    exact hr
  rw [div_lt_iff₀ (by exact_mod_cast hpos)] at hlt
  exact_mod_cast hlt.le

theorem le_roundDiv_raised (hn : 0 < n) (hd : 0 < d) (h : lastPlace n d ≠ -1074) :
    2 ^ 52 ≤ roundDiv (raised n (lastPlace n d)) (lowered d (lastPlace n d)) := by
  have hpos := lowered_pos hd (lastPlace n d)
  have hl : 52 + lastPlace n d ≤ Int.log 2 ((n : ℚ) / d) := by
    rw [lastPlace, binade_eq_log hn hd] at h ⊢
    omega
  have hr : (2 : ℚ) ^ 52 * 2 ^ lastPlace n d ≤ n / d := by
    rw [← Int.zpow_le_iff_le_log (by decide) (by positivity), zpow_add₀ (by decide)] at hl
    exact_mod_cast hl
  refine le_roundDiv hpos ?_
  have hq := raised_div_lowered hd n (lastPlace n d)
  have hle : (2 : ℚ) ^ 52 ≤ raised n (lastPlace n d) / lowered d (lastPlace n d) := by
    rw [hq, le_div_iff₀ (by positivity)]
    exact hr
  rw [le_div_iff₀ (by exact_mod_cast hpos)] at hle
  exact_mod_cast hle

theorem nearestMagnitude_mono (hd : 0 < d) (h : n ≤ m) :
    nearestMagnitude n d ≤ nearestMagnitude m d := by
  rcases Nat.eq_zero_or_pos n with rfl | hn
  · simp [nearestMagnitude]
  have hm : 0 < m := Nat.lt_of_lt_of_le hn h
  rw [nearestMagnitude_eq hn, nearestMagnitude_eq hm]
  refine min_le_min_left _ ?_
  have hp := lastPlace_mono hn hd h
  have hlow : -1074 ≤ lastPlace n d := le_max_right _ _
  rcases hp.lt_or_eq with hlt | he
  · have hu := roundDiv_raised_le hn hd
    have hv := le_roundDiv_raised hm hd (by omega)
    omega
  · rw [he]
    gcongr
    exact roundDiv_mono _ (raised_mono h _)

end

end Binary

end Stencil
