import Mathlib.Data.List.TakeDrop
import Stencil.Proofs.Number.Bits
import Stencil.Proofs.Number.Nearest
import Stencil.Tree.Node

set_option autoImplicit false

namespace Stencil

def AllDigits (ds : List Char) : Prop := ∀ c ∈ ds, c.isDigit = true

theorem span_append {α : Type} {p : α → Bool} {xs ys : List α} (hx : ∀ x ∈ xs, p x = true)
    (hy : ∀ y ∈ ys.head?, p y = false) : (xs ++ ys).span p = (xs, ys) := by
  rw [List.span_eq_takeWhile_dropWhile, List.takeWhile_append_of_pos hx,
    List.dropWhile_append_of_pos hx]
  cases ys with
  | nil => simp
  | cons y ys => simp [hy y rfl]

theorem allDigits_toDigits (n : Nat) : AllDigits (Nat.toDigits 10 n) :=
  fun _ h => Nat.isDigit_of_mem_toDigits (by decide) (by decide) h

theorem ne_of_isDigit {c : Char} (h : c.isDigit = true) : c ≠ '+' ∧ c ≠ '-' ∧ c ≠ '.' := by
  refine ⟨?_, ?_, ?_⟩ <;> rintro rfl <;> simp at h

namespace Number

theorem ofInt?_cases (n : Int) :
    (∃ c : Int64, c.toInt = n ∧ ofInt? n = some (.int c)) ∨
      ((n < Int64.minValue.toInt ∨ Int64.maxValue.toInt < n) ∧ ofInt? n = none) := by
  have hmin : Int64.minValue.toInt = -2 ^ 63 := by decide
  have hmax : Int64.maxValue.toInt = 2 ^ 63 - 1 := by decide
  by_cases h : Int64.minValue.toInt ≤ n ∧ n ≤ Int64.maxValue.toInt
  · refine .inl ⟨Int64.ofInt n, Int64.toInt_ofInt_of_le (by omega) (by omega), ?_⟩
    rw [ofInt?, if_pos h]
  · exact .inr ⟨by omega, by rw [ofInt?, if_neg h]⟩

end Number

namespace Decimal

theorem length_lastDigits (n k : Nat) (tail : List Char) :
    (lastDigits n k tail).length = k + tail.length := by
  induction k generalizing n tail with
  | zero => simp [lastDigits]
  | succ k ih => simp only [lastDigits, ih, List.length_cons]; omega

theorem allDigits_lastDigits (n k : Nat) {tail : List Char} (h : AllDigits tail) :
    AllDigits (lastDigits n k tail) := by
  induction k generalizing n tail with
  | zero => exact h
  | succ k ih =>
    refine ih (n / 10) fun c hc => ?_
    rcases List.mem_cons.1 hc with rfl | hc
    · simp [Nat.isDigit_digitChar, Nat.mod_lt]
    · exact h c hc

theorem ofDigitChars_lastDigits (n k init : Nat) (tail : List Char) :
    Nat.ofDigitChars 10 (lastDigits n k tail) init =
      Nat.ofDigitChars 10 tail (init * 10 ^ k + n % 10 ^ k) := by
  induction k generalizing n tail with
  | zero => simp [lastDigits, Nat.mod_one]
  | succ k ih =>
    have hm : n % 10 ^ (k + 1) = 10 * (n / 10 % 10 ^ k) + n % 10 := by
      rw [pow_succ', Nat.mod_mul]
      ring
    rw [lastDigits, ih, Nat.ofDigitChars_cons_digitChar_of_lt_ten (Nat.mod_lt _ (by decide)), hm]
    congr 1
    ring

theorem natOfDigits_digits (d : Decimal) :
    natOfDigits (d.wholeDigits ++ d.placeDigits) = d.coefficient := by
  rw [natOfDigits, Nat.ofDigitChars_append, wholeDigits, placeDigits, ofDigitChars_lastDigits,
    Nat.ofDigitChars_ten_toDigits, Nat.ofDigitChars_nil, whole, scale, Nat.pow_eq, Nat.mul_comm]
  exact Nat.div_add_mod _ _

end Decimal

namespace Numeral

/-- A numeral without a power of ten, as it is written. -/
def plain (negative : Bool) (whole : List Char) (places : Option (List Char)) : List Char :=
  Binary.sign negative ++ whole ++ (places.map ('.' :: ·)).getD []

theorem readSign_sign {negative : Bool} {c : Char} {cs : List Char} (h : c.isDigit = true) :
    readSign (Binary.sign negative ++ c :: cs) = (negative, c :: cs) := by
  obtain ⟨hp, hm, -⟩ := ne_of_isDigit h
  cases negative
  · simp only [Binary.sign, Bool.false_eq_true, if_false, List.nil_append]
    unfold readSign
    split <;> simp_all
  · rfl

theorem span_digits {ds cs : List Char} (hd : AllDigits ds)
    (hc : ∀ c ∈ cs.head?, c.isDigit = false) : (ds ++ cs).span Char.isDigit = (ds, cs) :=
  span_append hd hc

theorem readPlaces_point {ds : List Char} (h : AllDigits ds) :
    readPlaces ('.' :: ds) = (some ds, []) := by
  have hs := @span_digits ds [] h (by simp)
  rw [List.append_nil] at hs
  simp only [readPlaces, hs]

theorem read?_plain {negative : Bool} {whole : List Char} {places : Option (List Char)}
    (hw : AllDigits whole) (hn : whole ≠ []) (hp : ∀ ds ∈ places, AllDigits ds) :
    read? (plain negative whole places) = some ⟨negative, whole, places, none⟩ := by
  obtain ⟨c, cs, rfl⟩ := List.exists_cons_of_ne_nil hn
  have hc : c.isDigit = true := hw c (by simp)
  unfold read? plain
  rw [List.append_assoc, List.cons_append, readSign_sign hc, ← List.cons_append]
  dsimp only
  cases places with
  | none =>
    rw [span_digits hw (by simp)]
    rfl
  | some ds =>
    rw [span_digits hw (by simp)]
    simp [readPlaces_point (hp ds rfl), readExponent?]

end Numeral

namespace Decimal

theorem magnitude_mul_ten (n k : Nat) :
    magnitude ⟨10 * n, k + 1⟩ = magnitude ⟨n, k⟩ := by
  have hp : 0 < Nat.pow 10 k := Nat.pow_pos (by decide)
  have hs : Nat.pow 10 (k + 1) = 10 * Nat.pow 10 k := Nat.pow_succ'
  simp only [magnitude, scale, hs]
  exact Binary.nearestMagnitude_mul (by decide) hp n

theorem magnitude_trimmed (n k : Nat) : (trimmed n k).magnitude = magnitude ⟨n, k⟩ := by
  induction k generalizing n with
  | zero => rfl
  | succ k ih =>
    rw [trimmed]
    split
    · rename_i h
      rw [ih, ← magnitude_mul_ten, Nat.mul_div_cancel' (Nat.dvd_of_mod_eq_zero h)]
    · rfl

theorem magnitude_shortest (d : Decimal) : d.shortest.magnitude = d.magnitude := by
  unfold shortest
  dsimp only
  rw [trim, magnitude_trimmed]
  generalize hf : List.find? _ _ = f
  cases f with
  | none => rfl
  | some p => simpa using List.find?_some hf

end Decimal

namespace Binary

theorem ratio_decimal (m : Nat) (q : Int) :
    ((decimal m q).coefficient : ℚ) / (decimal m q).scale = m * 2 ^ q := by
  unfold decimal
  split
  · rename_i h
    obtain ⟨k, rfl⟩ := Int.eq_ofNat_of_zero_le h
    simp [Decimal.scale, Nat.shiftLeft_eq]
  · obtain ⟨k, rfl⟩ : ∃ k : Nat, q = -k := ⟨(-q).toNat, by omega⟩
    have h : (10 : ℚ) ^ k = 5 ^ k * 2 ^ k := by rw [← mul_pow]; norm_num
    simp only [Decimal.scale, Int.neg_neg, Int.toNat_natCast, Nat.pow_eq, Nat.cast_mul,
      Nat.cast_pow, Nat.cast_ofNat, zpow_neg, zpow_natCast, h]
    field_simp

theorem magnitude_decimal {negative sign : Bool} {bits m : Nat} {q : Int}
    (h : ofMagnitude negative bits = .finite sign m q) :
    negative = sign ∧ (decimal m q).magnitude = bits := by
  have hl : leadingBit = 2 ^ 52 := by decide
  unfold ofMagnitude at h
  split at h
  · contradiction
  · rename_i hn
    split at h
    · contradiction
    · rename_i hi
      have hp : 0 < (decimal m q).scale := Nat.pow_pos (by decide)
      rw [infinityBits_eq] at hn hi
      split at h
      · rename_i hb
        cases h
        rw [hl] at hb
        refine ⟨rfl, ?_⟩
        rw [Decimal.magnitude, nearestMagnitude_exact hp (ratio_decimal ..) (by omega) (by omega)
          (.inr rfl), Nat.shiftLeft_eq, infinityBits_eq]
        omega
      · rename_i hb
        cases h
        rw [hl] at hb hp ⊢
        refine ⟨rfl, ?_⟩
        rw [Decimal.magnitude, nearestMagnitude_exact hp (ratio_decimal ..) (by omega) (by omega)
          (.inl (by omega)), Nat.shiftLeft_eq, infinityBits_eq]
        omega

end Binary

namespace Numeral

theorem mul_two_pow_lt_ten_pow {c a k : Nat} (h : c.log2 + 1 + a ≤ 3 * k) :
    c * 2 ^ a < 10 ^ k := by
  have hc : c < 2 ^ (c.log2 + 1) := Nat.lt_log2_self
  calc
    c * 2 ^ a < 2 ^ (c.log2 + 1) * 2 ^ a := Nat.mul_lt_mul_of_pos_right hc (Nat.two_pow_pos _)
    _ = 2 ^ (c.log2 + 1 + a) := (pow_add ..).symm
    _ ≤ 2 ^ (3 * k) := Nat.pow_le_pow_right (by decide) h
    _ = 8 ^ k := by rw [pow_mul]; norm_num
    _ ≤ 10 ^ k := Nat.pow_le_pow_left (by decide) k

/-- The powers of ten that are cut off do not change the answer. -/
theorem scaledMagnitude_neg (c k : Nat) : scaledMagnitude c (-k) = Decimal.magnitude ⟨c, k⟩ := by
  unfold scaledMagnitude
  split
  · rename_i h
    simp [h, Decimal.magnitude, Binary.nearestMagnitude]
  rw [if_neg (by omega)]
  split
  · rename_i h
    have hlt := @mul_two_pow_lt_ten_pow c 1075 k (by omega)
    exact (Binary.nearestMagnitude_eq_zero hlt).symm
  · split
    · have : k = 0 := by omega
      simp [this]
    · simp

def placesOf (d : Decimal) : List Char := if d.places = 0 then ['0'] else d.placeDigits

theorem toFloat_digits (negative : Bool) (d : Decimal) :
    toFloat ⟨negative, d.wholeDigits, some (placesOf d), none⟩ =
      Binary.float negative d.magnitude := by
  obtain ⟨c, k⟩ := d
  have hn := Decimal.natOfDigits_digits ⟨c, k⟩
  cases k with
  | zero =>
    have h : natOfDigits (Decimal.wholeDigits ⟨c, 0⟩ ++ ['0']) = 10 * c := by
      rw [Decimal.placeDigits, Decimal.lastDigits, List.append_nil] at hn
      rw [natOfDigits, Nat.ofDigitChars_append, ← natOfDigits, hn]
      rfl
    have hs := scaledMagnitude_neg (10 * c) 1
    rw [Decimal.magnitude_mul_ten] at hs
    simpa [toFloat, placesOf, h] using congrArg (Binary.float negative) hs
  | succ k =>
    have hl : (Decimal.placeDigits ⟨c, k + 1⟩).length = k + 1 := by
      simp [Decimal.placeDigits, Decimal.length_lastDigits]
    have hs := scaledMagnitude_neg c (k + 1)
    simp only [toFloat, placesOf, Nat.add_eq_zero_iff, one_ne_zero, and_false, if_false,
      Option.getD_some, Option.getD_none, hn, hl, zero_sub]
    rw [hs]

end Numeral

namespace Number

theorem ofInt?_toInt (n : Int64) : ofInt? n.toInt = some (.int n) := by
  have h : Int64.minValue.toInt ≤ n.toInt ∧ n.toInt ≤ Int64.maxValue.toInt :=
    ⟨n.minValue_le_toInt, n.toInt_le⟩
  rw [ofInt?, if_pos h, Int64.ofInt_toInt]

theorem intOfDigits_toDigits (n : Int64) :
    intOfDigits (decide (n < 0)) (Nat.toDigits 10 n.toInt.natAbs) = n.toInt := by
  have h : n < 0 ↔ n.toInt < 0 := Int64.lt_iff_toInt_lt
  rw [intOfDigits, natOfDigits, Nat.ofDigitChars_ten_toDigits]
  simp only [h, decide_eq_true_eq]
  split <;> omega

/-- All integers, and the floats that are neither infinite nor NaN. -/
def isFinite : Number → Bool
  | .int _ => true
  | .float x => match Binary.ofFloat x with
    | .finite _ _ _ => true
    | _ => false

end Number

/-- Digits with or without a point, which are a literal of the number. -/
inductive Spells : List Char → Number → Prop where
  | plain {negative : Bool} {whole : List Char} {places : Option (List Char)} {n : Number} :
    whole ≠ [] → AllDigits whole → (∀ ds ∈ places, AllDigits ds) →
    Numeral.literal? ⟨negative, whole, places, none⟩ = some n →
    Spells (Numeral.plain negative whole places) n

theorem wholeDigits_ne_nil (d : Decimal) : d.wholeDigits ≠ [] := Nat.toDigits_ne_nil

theorem Numeral.allDigits_placesOf (d : Decimal) : AllDigits (placesOf d) := by
  unfold placesOf
  split
  · simp [AllDigits]
  · exact Decimal.allDigits_lastDigits _ _ (by simp [AllDigits])

theorem Numeral.placesOf_ne_nil (d : Decimal) : placesOf d ≠ [] := by
  unfold placesOf
  split
  · simp
  · rename_i h
    rw [Decimal.placeDigits, ← List.length_pos_iff, Decimal.length_lastDigits]
    simpa using Nat.pos_of_ne_zero h

theorem pointed_wire (negative : Bool) (d : Decimal) :
    Element.pointed (Binary.sign negative ++ d.wire) =
      Numeral.plain negative d.wholeDigits (some (Numeral.placesOf d)) := by
  have hs : '.' ∉ Binary.sign negative := by cases negative <;> decide
  have hw : '.' ∉ d.wholeDigits := fun h => (ne_of_isDigit (allDigits_toDigits _ _ h)).2.2 rfl
  unfold Element.pointed Numeral.plain Decimal.wire Numeral.placesOf
  by_cases hp : d.places = 0 <;> simp [hp, hs, hw]

theorem spells_wire {n : Number} (h : n.isFinite = true) : Spells (Element.number n).wire n := by
  cases n with
  | int n =>
    have hp : (Element.number (.int n)).wire =
        Numeral.plain (decide (n < 0)) (Nat.toDigits 10 n.toInt.natAbs) none := by
      simp [Element.wire, Number.plainWire, Number.intWire, Numeral.plain]
    rw [hp]
    refine .plain Nat.toDigits_ne_nil (allDigits_toDigits _) (by simp) ?_
    obtain ⟨d, ds, hd⟩ := List.exists_cons_of_ne_nil (@Nat.toDigits_ne_nil n.toInt.natAbs 10)
    rw [hd]
    simp only [Numeral.literal?, Numeral.int?]
    rw [← hd, Number.intOfDigits_toDigits, Number.ofInt?_toInt]
  | float x =>
    simp only [Number.isFinite] at h
    split at h
    · rename_i sign m q hx
      have hp : (Element.number (.float x)).wire =
          Element.pointed (Binary.sign sign ++ (Binary.decimal m q).shortest.wire) := by
        simp [Element.wire, Number.plainWire, hx, Binary.wire]
      obtain ⟨hs, hm⟩ := Binary.magnitude_decimal hx
      rw [hp, pointed_wire]
      refine .plain (wholeDigits_ne_nil _) (allDigits_toDigits _) ?_ ?_
      · simp [Numeral.allDigits_placesOf]
      · obtain ⟨w, ws, hw⟩ := List.exists_cons_of_ne_nil
          (wholeDigits_ne_nil (Binary.decimal m q).shortest)
        obtain ⟨d, ds, hd⟩ := List.exists_cons_of_ne_nil
          (Numeral.placesOf_ne_nil (Binary.decimal m q).shortest)
        have hf := Numeral.toFloat_digits sign (Binary.decimal m q).shortest
        rw [Decimal.magnitude_shortest, hm, ← hs, Binary.float_toBits] at hf
        rw [hw, hd] at hf ⊢
        simp only [Numeral.literal?]
        rw [← hs, hf]
    · contradiction

end Stencil
