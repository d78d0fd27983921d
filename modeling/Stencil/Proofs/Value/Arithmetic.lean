import Mathlib.Data.Int.ModEq
import Stencil.Proofs.Number.Grammar

/-! Arithmetic on values as a relation, with a rule for each kind of operator. -/

set_option autoImplicit false

namespace Stencil

namespace Value

/-- The number that a value is coerced to: null is zero, and a string is what it spells. -/
inductive CountsAs : Value → Number → Prop where
  | null : CountsAs .null (.int 0)
  | number (n : Number) : CountsAs (.number n) n
  | string {s : String} {n : Number} : readNumber s = .ok n → CountsAs (.string s) n

theorem toNumber_eq_ok_iff {x : Value} {n : Number} : x.toNumber = .ok n ↔ x.CountsAs n := by
  constructor
  · intro h
    cases x with
    | null => cases h; exact .null
    | number n => cases h; exact .number _
    | string s => exact .string h
  · intro h
    cases h with
    | null => rfl
    | number n => rfl
    | string hs => exact hs

theorem toNumber_eq_error_iff {x : Value} {e : ValueError} :
    x.toNumber = .error e ↔ ∃ s, x = .string s ∧ e = .notNumeric s ∧ ∀ n, ¬x.CountsAs n := by
  simp only [← toNumber_eq_ok_iff]
  constructor
  · intro h
    cases x with
    | null => cases h
    | number n => cases h
    | string s =>
      refine ⟨s, rfl, (readNumber_eq_error_iff.1 h).2, fun n hn => ?_⟩
      rw [h] at hn
      cases hn
  · rintro ⟨s, rfl, rfl, hn⟩
    cases h : toNumber (.string s) with
    | ok n => exact absurd h (hn n)
    | error e => rw [(readNumber_eq_error_iff.1 h).2]

end Value

section

variable {a b c d : Int64} {v : Int}

theorem bmod_modEq (v : Int) : v.bmod (2 ^ 64) ≡ v [ZMOD 2 ^ 64] := Int.bmod_emod

theorem toInt_add_modEq (a b : Int64) : (a + b).toInt ≡ a.toInt + b.toInt [ZMOD 2 ^ 64] := by
  rw [Int64.toInt_add]
  exact bmod_modEq _

theorem toInt_sub_modEq (a b : Int64) : (a - b).toInt ≡ a.toInt - b.toInt [ZMOD 2 ^ 64] := by
  rw [Int64.toInt_sub]
  exact bmod_modEq _

theorem toInt_mul_modEq (a b : Int64) : (a * b).toInt ≡ a.toInt * b.toInt [ZMOD 2 ^ 64] := by
  rw [Int64.toInt_mul]
  exact bmod_modEq _

theorem eq_of_toInt_modEq (hc : c.toInt ≡ v [ZMOD 2 ^ 64]) (hd : d.toInt ≡ v [ZMOD 2 ^ 64]) :
    c = d := by
  obtain ⟨k, hk⟩ := (hc.trans hd.symm).dvd
  have := c.le_toInt
  have := c.toInt_lt
  have := d.le_toInt
  have := d.toInt_lt
  exact Int64.toInt_inj.1 (by omega)

theorem toInt_div_of_not_least (h : ¬(a = Int64.minValue ∧ b = -1)) :
    (a / b).toInt = a.toInt.tdiv b.toInt := by
  rw [not_and_or] at h
  rcases h with h | h
  · exact a.toInt_div_of_ne_left b h
  · exact a.toInt_div_of_ne_right b h

end

namespace Operator

theorem toInt_power_modEq (a : Int64) (n : Nat) :
    (power a n).toInt ≡ a.toInt ^ n [ZMOD 2 ^ 64] := by
  fun_induction power a n with
  | case1 a => rw [Int64.toInt_one, pow_zero]
  | case2 a n hn half he ih =>
    calc
      half.toInt ≡ (a * a).toInt ^ (n / 2) [ZMOD 2 ^ 64] := ih
      _ ≡ (a.toInt * a.toInt) ^ (n / 2) [ZMOD 2 ^ 64] := (toInt_mul_modEq a a).pow _
      _ = a.toInt ^ (2 * (n / 2)) := by rw [← pow_two, ← pow_mul]
      _ = a.toInt ^ n := by rw [Nat.mul_div_cancel' (Nat.dvd_of_mod_eq_zero he)]
  | case3 a n hn half ho ih =>
    have hodd : 2 * (n / 2) + 1 = n := by omega
    calc
      (a * half).toInt ≡ a.toInt * half.toInt [ZMOD 2 ^ 64] := toInt_mul_modEq a half
      _ ≡ a.toInt * (a * a).toInt ^ (n / 2) [ZMOD 2 ^ 64] := ih.mul_left _
      _ ≡ a.toInt * (a.toInt * a.toInt) ^ (n / 2) [ZMOD 2 ^ 64] :=
        ((toInt_mul_modEq a a).pow _).mul_left _
      _ = a.toInt ^ (2 * (n / 2) + 1) := by rw [← pow_two, ← pow_mul, pow_succ']
      _ = a.toInt ^ n := by rw [hodd]

/-- What two integers give: the word congruent to the exact result, but in a division the quotient
cut off toward zero unless that is no word, and for a power whose exponent is negative or has more
than 32 bits a float. -/
inductive OnWords (a b : Int64) : Operator → Except ValueError Number → Prop where
  | add {c : Int64} : c.toInt ≡ a.toInt + b.toInt [ZMOD 2 ^ 64] → OnWords a b .add (.ok (.int c))
  | sub {c : Int64} : c.toInt ≡ a.toInt - b.toInt [ZMOD 2 ^ 64] → OnWords a b .sub (.ok (.int c))
  | mul {c : Int64} : c.toInt ≡ a.toInt * b.toInt [ZMOD 2 ^ 64] → OnWords a b .mul (.ok (.int c))
  | byZero : b = 0 → OnWords a b .div (.error .divisionByZero)
  | quotient {c : Int64} : b ≠ 0 → ¬(a = Int64.minValue ∧ b = -1) →
    c.toInt = a.toInt.tdiv b.toInt → OnWords a b .div (.ok (.int c))
  | leastQuotient : a = Int64.minValue → b = -1 → OnWords a b .div (.ok (.int Int64.minValue))
  | power {c : Int64} : 0 ≤ b.toInt → b.toInt < 2 ^ 32 →
    c.toInt ≡ a.toInt ^ b.toInt.toNat [ZMOD 2 ^ 64] → OnWords a b .pow (.ok (.int c))
  | floatPower : ¬(0 ≤ b.toInt ∧ b.toInt < 2 ^ 32) →
    OnWords a b .pow (.ok (.float ((Binary.ofInt a.toInt).pow (Binary.ofInt b.toInt))))

section

variable {a b : Int64} {op : Operator} {r : Except ValueError Number}

theorem exponent_iff : (0 ≤ b ∧ b.toInt.toNat < UInt32.size) ↔ 0 ≤ b.toInt ∧ b.toInt < 2 ^ 32 := by
  rw [Int64.le_iff_toInt_le, Int64.toInt_zero, UInt32.size]
  omega

theorem onWords_onInts (op : Operator) (a b : Int64) : OnWords a b op (op.onInts a b) := by
  cases op with
  | add => exact .add (toInt_add_modEq a b)
  | sub => exact .sub (toInt_sub_modEq a b)
  | mul => exact .mul (toInt_mul_modEq a b)
  | div =>
    rw [onInts]
    split
    · rename_i hb
      exact .byZero hb
    · rename_i hb
      by_cases h : a = Int64.minValue ∧ b = -1
      · obtain ⟨rfl, rfl⟩ := h
        rw [Int64.minValue_div_neg_one]
        exact .leastQuotient rfl rfl
      · exact .quotient hb h (toInt_div_of_not_least h)
  | pow =>
    rw [onInts]
    split
    · rename_i h
      obtain ⟨h0, h32⟩ := exponent_iff.1 h
      exact .power h0 h32 (toInt_power_modEq a _)
    · rename_i h
      exact .floatPower (mt exponent_iff.2 h)

theorem OnWords.eq_onInts (h : OnWords a b op r) : op.onInts a b = r := by
  cases h with
  | add hc => rw [onInts, eq_of_toInt_modEq (toInt_add_modEq a b) hc]
  | sub hc => rw [onInts, eq_of_toInt_modEq (toInt_sub_modEq a b) hc]
  | mul hc => rw [onInts, eq_of_toInt_modEq (toInt_mul_modEq a b) hc]
  | byZero hb => rw [onInts, if_pos hb]
  | quotient hb hl hc =>
    have hq := Int64.toInt_inj.1 ((toInt_div_of_not_least hl).trans hc.symm)
    rw [onInts, if_neg hb, hq]
  | leastQuotient ha hb => rw [onInts, ha, hb, if_neg (by decide), Int64.minValue_div_neg_one]
  | power h0 h32 hc =>
    rw [onInts, if_pos (exponent_iff.2 ⟨h0, h32⟩), eq_of_toInt_modEq (toInt_power_modEq a _) hc]
  | floatPower h => rw [onInts, if_neg (mt exponent_iff.1 h)]

end

end Operator

def Number.isFloat : Number → Bool
  | .int _ => false
  | .float _ => true

namespace Value

/-- What an operator gives for two values. The left one is looked at first. -/
inductive Applies (op : Operator) (x y : Value) : Except ValueError Value → Prop where
  | left {s : String} : x = .string s → (∀ n, ¬x.CountsAs n) →
    Applies op x y (.error (.notNumeric s))
  | right {m : Number} {s : String} : x.CountsAs m → y = .string s → (∀ n, ¬y.CountsAs n) →
    Applies op x y (.error (.notNumeric s))
  | words {a b : Int64} {r : Except ValueError Number} : x.CountsAs (.int a) →
    y.CountsAs (.int b) → op.OnWords a b r → Applies op x y (r.map .number)
  | floats {m n : Number} : x.CountsAs m → y.CountsAs n → (m.isFloat || n.isFloat) = true →
    Applies op x y (.ok (.number (.float (op.onFloats m.toFloat n.toFloat))))

section

variable {op : Operator} {x y : Value} {m n : Number}

theorem apply_of_error {e : ValueError} (h : x.toNumber = .error e) (op : Operator) (y : Value) :
    x.apply op y = .error e := by
  rw [apply, h]
  rfl

theorem apply_of_ok_error {e : ValueError} (hx : x.toNumber = .ok m) (hy : y.toNumber = .error e)
    (op : Operator) : x.apply op y = .error e := by
  rw [apply, hx, hy]
  rfl

theorem apply_of_ok (hx : x.toNumber = .ok m) (hy : y.toNumber = .ok n) (op : Operator) :
    x.apply op y = (op.onNumbers m n).map .number := by
  rw [apply, hx, hy]
  cases h : op.onNumbers m n with
  | error e => simp [h, bind, Except.bind, Except.map]
  | ok v => simp [h, bind, Except.bind, Except.map, pure, Except.pure]

end

theorem onNumbers_of_isFloat {m n : Number} (h : (m.isFloat || n.isFloat) = true) (op : Operator) :
    op.onNumbers m n = .ok (.float (op.onFloats m.toFloat n.toFloat)) := by
  cases m with
  | int a => cases n with
    | int b => contradiction
    | float y => rfl
  | float x => rfl

/-- Each operator gives what its rule says, and nothing else. -/
theorem apply_eq_iff (op : Operator) (x y : Value) (r : Except ValueError Value) :
    x.apply op y = r ↔ Applies op x y r := by
  constructor
  · rintro rfl
    cases hx : x.toNumber with
    | error e =>
      obtain ⟨s, hs, rfl, hn⟩ := toNumber_eq_error_iff.1 hx
      rw [apply_of_error hx]
      exact .left hs hn
    | ok m =>
      have hm := toNumber_eq_ok_iff.1 hx
      cases hy : y.toNumber with
      | error e =>
        obtain ⟨s, hs, rfl, hn⟩ := toNumber_eq_error_iff.1 hy
        rw [apply_of_ok_error hx hy]
        exact .right hm hs hn
      | ok n =>
        have hn := toNumber_eq_ok_iff.1 hy
        rw [apply_of_ok hx hy]
        cases hf : m.isFloat || n.isFloat with
        | true =>
          rw [onNumbers_of_isFloat hf]
          exact .floats hm hn hf
        | false =>
          cases m with
          | int a => cases n with
            | int b => exact .words hm hn (op.onWords_onInts a b)
            | float y => contradiction
          | float x => contradiction
  · intro h
    cases h with
    | left hs hn => rw [apply_of_error (toNumber_eq_error_iff.2 ⟨_, hs, rfl, hn⟩)]
    | right hm hs hn =>
      rw [apply_of_ok_error (toNumber_eq_ok_iff.2 hm) (toNumber_eq_error_iff.2 ⟨_, hs, rfl, hn⟩)]
    | words ha hb hr =>
      rw [apply_of_ok (toNumber_eq_ok_iff.2 ha) (toNumber_eq_ok_iff.2 hb), ← hr.eq_onInts]
      rfl
    | floats hm hn hf =>
      rw [apply_of_ok (toNumber_eq_ok_iff.2 hm) (toNumber_eq_ok_iff.2 hn),
        onNumbers_of_isFloat hf]
      rfl

end Value

end Stencil
