import Stencil.Proofs.Number.Grammar

set_option autoImplicit false

namespace Stencil

theorem roundDiv_one (n : Nat) : roundDiv n 1 = n := by
  simpa using roundDiv_mul_self Nat.one_pos n

namespace Decimal

theorem scale_pos (d : Decimal) : 0 < d.scale := Nat.pow_pos (by decide)

theorem mul_whole_of_isWhole {d : Decimal} (h : d.isWhole = true) :
    d.scale * d.whole = d.coefficient :=
  Nat.mul_div_cancel' (Nat.dvd_of_mod_eq_zero (beq_iff_eq.1 h))

theorem round_one_of_isWhole {d : Decimal} (h : d.isWhole = true) :
    d.round 1 = ⟨10 * d.whole, 1⟩ := by
  have hw := mul_whole_of_isWhole h
  obtain ⟨c, k⟩ := d
  simp only [scale, Nat.pow_eq] at hw
  unfold round
  rcases Nat.lt_or_ge 1 k with hk | hk
  · rw [if_neg (by simpa using hk)]
    obtain ⟨j, rfl⟩ := Nat.exists_eq_add_of_lt hk
    have hc : c = 10 * whole ⟨c, 1 + j + 1⟩ * 10 ^ (1 + j + 1 - 1) := by
      rw [Nat.add_sub_cancel]
      calc
        c = 10 ^ (1 + j + 1) * whole ⟨c, 1 + j + 1⟩ := hw.symm
        _ = 10 * whole ⟨c, 1 + j + 1⟩ * 10 ^ (1 + j) := by ring
    generalize whole ⟨c, 1 + j + 1⟩ = w at hc ⊢
    simp only [Nat.pow_eq]
    rw [hc, roundDiv_mul_self (Nat.pow_pos (by decide))]
  · rw [if_pos hk]
    generalize whole ⟨c, k⟩ = w at hw ⊢
    simp only [Nat.pow_eq, ← hw]
    obtain rfl | rfl : k = 0 ∨ k = 1 := by omega
    · simp [Nat.mul_comm]
    · simp

theorem magnitude_round_one {d : Decimal} (h : d.isWhole = true) :
    (d.round 1).magnitude = d.magnitude := by
  have hm := Binary.nearestMagnitude_mul d.scale_pos Nat.one_pos d.whole
  rw [mul_whole_of_isWhole h, Nat.mul_one] at hm
  rw [round_one_of_isWhole h, magnitude_mul_ten]
  exact hm.symm

end Decimal

namespace Binary

theorem isWhole_decimal_of_nonneg (m : Nat) {q : Int} (h : 0 ≤ q) :
    (decimal m q).isWhole = true := by
  simp [decimal, h, Decimal.isWhole, Decimal.scale, Nat.mod_one]

theorem isWhole_decimal_neg (c k : Nat) : (decimal (c * 2 ^ k) (-k)).isWhole = true := by
  unfold decimal
  split
  · rename_i h
    obtain rfl : k = 0 := by omega
    simp [Decimal.isWhole, Decimal.scale, Nat.mod_one]
  · simp only [Decimal.isWhole, Decimal.scale, Int.neg_neg, Int.toNat_natCast, Nat.pow_eq,
      beq_iff_eq]
    rw [Nat.mul_assoc, ← Nat.mul_pow, Nat.mul_mod_left]

theorem binade_one {c : Nat} (hc : 0 < c) : binade c 1 = c.log2 := by
  have h := Nat.log2_self_le (Nat.pos_iff_ne_zero.1 hc)
  have ho : Nat.log2 1 = 0 := by decide
  simp [binade, ho, Nat.shiftLeft_eq, h]

theorem nearestMagnitude_one_of_lt {c : Nat} (hc : 0 < c) (h : c.log2 < 52) :
    nearestMagnitude c 1 =
      min infinityBits ((1022 + c.log2) * 2 ^ 52 + c * 2 ^ (52 - c.log2)) := by
  have hq : max ((c.log2 : Int) - 52) (-1074) = -(52 - c.log2 : Nat) := by omega
  have hn : ¬(0 : Int) ≤ -(52 - c.log2 : Nat) := by omega
  have he : (-((52 - c.log2 : Nat) : Int) + 1074).toNat = 1022 + c.log2 := by omega
  unfold nearestMagnitude
  rw [if_neg hc.ne', binade_one hc, hq]
  dsimp only
  rw [if_neg hn, he, Int.neg_neg, Int.toNat_natCast, roundDiv_one, Nat.shiftLeft_eq,
    Nat.shiftLeft_eq]

theorem le_nearestMagnitude_one {c : Nat} (hc : 0 < c) (h : 52 ≤ c.log2) :
    1075 * 2 ^ 52 ≤ nearestMagnitude c 1 := by
  obtain ⟨k, hk⟩ := Nat.exists_eq_add_of_le h
  have hq : max ((c.log2 : Int) - 52) (-1074) = k := by omega
  have hl : 2 ^ 52 * (1 <<< k) ≤ c := by
    rw [Nat.one_shiftLeft, ← Nat.pow_add, ← hk]
    exact Nat.log2_self_le hc.ne'
  have hm : 2 ^ 52 ≤ roundDiv c (1 <<< k) := le_roundDiv (by simp [Nat.one_shiftLeft]) hl
  unfold nearestMagnitude
  rw [if_neg hc.ne', binade_one hc, hq]
  dsimp only
  rw [if_pos (Int.natCast_nonneg k), Int.toNat_natCast, Nat.shiftLeft_eq, infinityBits_eq]
  omega

theorem shifted_bounds {c : Nat} (hc : 0 < c) (h : c.log2 ≤ 52) :
    2 ^ 52 ≤ c * 2 ^ (52 - c.log2) ∧ c * 2 ^ (52 - c.log2) < 2 ^ 53 := by
  constructor
  · calc
      2 ^ 52 = 2 ^ c.log2 * 2 ^ (52 - c.log2) := by rw [← pow_add]; congr 1; omega
      _ ≤ c * 2 ^ (52 - c.log2) := Nat.mul_le_mul_right _ (Nat.log2_self_le hc.ne')
  · calc
      c * 2 ^ (52 - c.log2) < 2 ^ (c.log2 + 1) * 2 ^ (52 - c.log2) :=
        Nat.mul_lt_mul_of_pos_right Nat.lt_log2_self (Nat.two_pow_pos _)
      _ = 2 ^ 53 := by rw [← pow_add]; congr 1; omega

theorem isWhole_of_nearestMagnitude {negative sign : Bool} {c m : Nat} {q : Int}
    (h : ofMagnitude negative (nearestMagnitude c 1) = .finite sign m q) :
    (decimal m q).isWhole = true := by
  have hl : leadingBit = 2 ^ 52 := by decide
  have hi := infinityBits_eq
  rcases Nat.eq_zero_or_pos c with rfl | hc
  · simp only [nearestMagnitude, ofMagnitude, hi, hl] at h
    cases h
    have hw := isWhole_decimal_neg 0 1074
    rwa [Nat.zero_mul] at hw
  unfold ofMagnitude at h
  rw [hl] at h
  split at h
  · contradiction
  split at h
  · contradiction
  rename_i hn hne
  rcases Nat.lt_or_ge c.log2 52 with hlt | hge
  · have hb := nearestMagnitude_one_of_lt hc hlt
    obtain ⟨hlow, hhigh⟩ := shifted_bounds hc hlt.le
    have hw := isWhole_decimal_neg c (52 - c.log2)
    generalize c * 2 ^ (52 - c.log2) = n at hb hlow hhigh hw
    rw [if_neg (by omega)] at h
    cases h
    have hm : 2 ^ 52 + nearestMagnitude c 1 % 2 ^ 52 = n := by omega
    have hq : ((nearestMagnitude c 1 / 2 ^ 52 : Nat) : Int) - 1075 = -(52 - c.log2 : Nat) := by
      omega
    rwa [← hm, ← hq] at hw
  · have hb := le_nearestMagnitude_one hc hge
    rw [if_neg (by omega)] at h
    cases h
    exact isWhole_decimal_of_nonneg _ (by omega)

theorem places_shortest_ne_zero {negative sign : Bool} {bits m : Nat} {q : Int}
    (h : ofMagnitude negative bits = .finite sign m q) (hw : (decimal m q).isWhole = false) :
    (decimal m q).shortest.places ≠ 0 := by
  intro hp
  have hm := (decimal m q).magnitude_shortest
  rw [(magnitude_decimal h).2, Decimal.magnitude, Decimal.scale, hp, Nat.pow_eq, pow_zero] at hm
  rw [← hm] at h
  rw [isWhole_of_nearestMagnitude h] at hw
  contradiction

end Binary

namespace Number

theorem read?_places (negative : Bool) {d : Decimal} (h : d.places ≠ 0) :
    read? (Binary.sign negative ++ d.wire) =
      some (.float (Binary.float negative d.magnitude)) := by
  have hp : Binary.sign negative ++ d.wire =
      Numeral.plain negative d.wholeDigits (some d.placeDigits) := by
    simp [Decimal.wire, h, Numeral.plain]
  have hw : AllDigits d.wholeDigits := allDigits_toDigits _
  have hd : AllDigits d.placeDigits := Decimal.allDigits_lastDigits _ _ (by simp [AllDigits])
  have hf := Numeral.toFloat_digits negative d
  rw [Numeral.placesOf, if_neg h] at hf
  rw [read?, hp, Numeral.read?_plain hw (wholeDigits_ne_nil d) (by simpa using hd),
    Option.map_some, Numeral.toNumber, hf]
  rfl

theorem read?_intWire (n : Int64) : read? (intWire n) = some (.int n) := by
  have hp : intWire n =
      Numeral.plain (decide (n < 0)) (Nat.toDigits 10 n.toInt.natAbs) none := by
    simp [intWire, Numeral.plain]
  rw [read?, hp, Numeral.read?_plain (allDigits_toDigits _) Nat.toDigits_ne_nil (by simp),
    Option.map_some, Numeral.toNumber, Numeral.int?, intOfDigits_toDigits, ofInt?_toInt]
  rfl

theorem read?_wire {n : Number} (h : n.isFinite = true) : read? n.wire = some n := by
  cases n with
  | int n => exact read?_intWire n
  | float x =>
    simp only [isFinite] at h
    split at h
    · rename_i sign m q hx
      obtain ⟨hs, hm⟩ := Binary.magnitude_decimal hx
      have hb := Binary.float_toBits x
      rw [wire, hx, Binary.pointedWire]
      cases hw : (Binary.decimal m q).isWhole with
      | true =>
        have hp : ((Binary.decimal m q).round 1).places ≠ 0 := by
          rw [Decimal.round_one_of_isWhole hw]
          exact Nat.one_ne_zero
        rw [if_pos rfl, read?_places sign hp, Decimal.magnitude_round_one hw, hm, ← hs, hb]
      | false =>
        have hp := Binary.places_shortest_ne_zero hx hw
        rw [if_neg (by decide), read?_places sign hp, Decimal.magnitude_shortest, hm, ← hs, hb]
    · contradiction

end Number

namespace Value

theorem toNumber_text {n : Number} (h : n.isFinite = true) :
    toNumber (.string (text (.number n))) = .ok n := by
  rw [toNumber, readNumber, text, String.toList_ofList, Number.read?_wire h]

/-- The text of a finite number is read as that number, and so may stand for it on either side of
every operation and comparison. -/
theorem text_counts_as_number {n : Number} (h : n.isFinite = true) :
    readNumber (text (.number n)) = .ok n ∧
    ∀ y : Value,
      (∀ op, apply op (.string (text (.number n))) y = apply op (.number n) y ∧
        apply op y (.string (text (.number n))) = apply op y (.number n)) ∧
      compare (.string (text (.number n))) y = compare (.number n) y ∧
      compare y (.string (text (.number n))) = compare y (.number n) := by
  have ht : toNumber (.string (text (.number n))) = toNumber (.number n) := toNumber_text h
  exact ⟨toNumber_text h, fun y => by simp only [apply, compare, ht, and_self, implies_true]⟩

theorem text_counts_as_number_whole_float :
    (Number.float (Float.ofBits 0x4480f0cf064dd592)).isFinite = true ∧
    text (.number (.float (Float.ofBits 0x4480f0cf064dd592))) = "10000000000000000000000.0" ∧
    readNumber "10000000000000000000000.0" = .ok (.float (Float.ofBits 0x4480f0cf064dd592)) := by
  have hf : (Number.float (Float.ofBits 0x4480f0cf064dd592)).isFinite = true := by decide +kernel
  have ht : text (.number (.float (Float.ofBits 0x4480f0cf064dd592))) =
      "10000000000000000000000.0" := by decide +kernel
  exact ⟨hf, ht, ht ▸ (text_counts_as_number hf).1⟩

end Value

end Stencil
