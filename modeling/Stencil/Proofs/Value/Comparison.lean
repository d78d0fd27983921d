import Stencil.Proofs.Value.Arithmetic

set_option autoImplicit false

namespace Stencil

namespace Number

variable {a b c : Number}

def rank (a : Number) : Int := Binary.rank a.toFloat

theorem ofFloat_toFloat_ne_nan (h : a.isNaN = false) : Binary.ofFloat a.toFloat ≠ .nan := by
  cases a with
  | int n => exact Binary.ofFloat_float_ne_nan _ (Binary.nearestMagnitude_le _ _)
  | float x => exact of_decide_eq_false h

theorem compare_of_isFloat (h : (a.isFloat || b.isFloat) = true) (ha : a.isNaN = false)
    (hb : b.isNaN = false) : a.compare b = Ord.compare a.rank b.rank := by
  have hna := ofFloat_toFloat_ne_nan ha
  have hnb := ofFloat_toFloat_ne_nan hb
  have hc : a.compare b = if a.toFloat < b.toFloat then .lt
      else if a.toFloat == b.toFloat then .eq else .gt := by
    cases a <;> cases b <;> first | rfl | contradiction
  rw [hc, rank, rank]
  simp only [Binary.lt_iff_rank hna hnb, Binary.beq_iff_rank hna hnb]
  rfl

theorem compare_int (i j : Int64) : (int i).compare (.int j) = Ord.compare i.toInt j.toInt := rfl

theorem compare_swap (ha : a.isNaN = false) (hb : b.isNaN = false) :
    b.compare a = (a.compare b).swap := by
  cases h : a.isFloat || b.isFloat with
  | true =>
    rw [compare_of_isFloat h ha hb, compare_of_isFloat (Bool.or_comm _ _ ▸ h) hb ha]
    exact Std.OrientedOrd.eq_swap
  | false =>
    cases a with
    | int i => cases b with
      | int j => exact Std.OrientedOrd.eq_swap
      | float y => contradiction
    | float x => contradiction

theorem rank_le_of_compare (ha : a.isNaN = false) (hb : b.isNaN = false)
    (h : (a.compare b).isLE = true) : a.rank ≤ b.rank := by
  cases hf : a.isFloat || b.isFloat with
  | true =>
    rw [compare_of_isFloat hf ha hb] at h
    exact Int.isLE_compare.1 h
  | false =>
    cases a with
    | int i => cases b with
      | int j => exact Binary.rank_ofInt_mono (Int.isLE_compare.1 h)
      | float y => contradiction
    | float x => contradiction

/-- A float between two integers, the greater one first, that both are rounded to. -/
def Blurs (a b c : Number) : Prop :=
  ∃ i j x, a = .int i ∧ b = .float x ∧ c = .int j ∧ j.toInt < i.toInt ∧
    (a.toFloat == x) = true ∧ (c.toFloat == x) = true

theorem blurs_of_compare (ha : a.isNaN = false) (hb : b.isNaN = false) (hc : c.isNaN = false)
    (hab : (a.compare b).isLE = true) (hbc : (b.compare c).isLE = true)
    (hac : a.compare c = .gt) : Blurs a b c := by
  have hrab := rank_le_of_compare ha hb hab
  have hrbc := rank_le_of_compare hb hc hbc
  cases hf : a.isFloat || c.isFloat with
  | true =>
    rw [compare_of_isFloat hf ha hc, Int.compare_eq_gt] at hac
    omega
  | false =>
    cases a with
    | float x => contradiction
    | int i => cases c with
      | float z => contradiction
      | int j =>
        rw [compare_int, Int.compare_eq_gt] at hac
        cases b with
        | int k =>
          have hik := Int.isLE_compare.1 hab
          have hkj := Int.isLE_compare.1 hbc
          omega
        | float x =>
          have hr : (int j).rank ≤ (int i).rank := Binary.rank_ofInt_mono hac.le
          have hx := ofFloat_toFloat_ne_nan hb
          refine ⟨i, j, x, rfl, rfl, rfl, hac, ?_, ?_⟩
          · exact (Binary.beq_iff_rank (ofFloat_toFloat_ne_nan ha) hx).2
              (le_antisymm hrab (hrbc.trans hr))
          · exact (Binary.beq_iff_rank (ofFloat_toFloat_ne_nan hc) hx).2
              (le_antisymm (hr.trans hrab) hrbc)

theorem Blurs.compare (h : Blurs a b c) (hb : b.isNaN = false) :
    a.compare b = .eq ∧ b.compare c = .eq ∧ a.compare c = .gt := by
  obtain ⟨i, j, x, rfl, rfl, rfl, hij, hi, hj⟩ := h
  have hi' := (Binary.beq_iff_rank (ofFloat_toFloat_ne_nan (a := .int i) rfl)
    (ofFloat_toFloat_ne_nan hb)).1 hi
  have hj' := (Binary.beq_iff_rank (ofFloat_toFloat_ne_nan (a := .int j) rfl)
    (ofFloat_toFloat_ne_nan hb)).1 hj
  rw [compare_of_isFloat rfl rfl hb, compare_of_isFloat rfl hb rfl, compare_int]
  exact ⟨compare_eq_iff_eq.2 hi', compare_eq_iff_eq.2 hj'.symm, Int.compare_eq_gt.2 hij⟩

end Number

namespace Value

variable {x y z : Value} {a b c : Number}

theorem compare_eq (hx : x.toNumber = .ok a) (hy : y.toNumber = .ok b) :
    x.compare y = .ok (a.compare b) := by
  rw [compare, hx, hy]
  rfl

/-- Away from NaN, comparison is antisymmetric, and transitive unless a float blurs two integers. -/
theorem compare_order (hx : x.toNumber = .ok a) (hy : y.toNumber = .ok b) (hz : z.toNumber = .ok c)
    (ha : a.isNaN = false) (hb : b.isNaN = false) (hc : c.isNaN = false) :
    ∃ o p q, x.compare y = .ok o ∧ y.compare x = .ok o.swap ∧ y.compare z = .ok p ∧
      x.compare z = .ok q ∧ (o ≠ .gt ∧ p ≠ .gt ∧ q = .gt ↔ Number.Blurs a b c) := by
  refine ⟨_, _, _, compare_eq hx hy, ?_, compare_eq hy hz, compare_eq hx hz, ?_, ?_⟩
  · rw [compare_eq hy hx, Number.compare_swap ha hb]
  · rintro ⟨hab, hbc, hac⟩
    exact Number.blurs_of_compare ha hb hc (Ordering.isLE_iff_ne_gt.2 hab)
      (Ordering.isLE_iff_ne_gt.2 hbc) hac
  · intro h
    obtain ⟨hab, hbc, hac⟩ := h.compare hb
    exact ⟨by simp [hab], by simp [hbc], hac⟩

theorem compare_order_at_two_pow : ∃ o p q,
    (number (.int 9007199254740993)).compare (number (.float 9007199254740992)) = .ok o ∧
    (number (.float 9007199254740992)).compare (number (.int 9007199254740993)) = .ok o.swap ∧
    (number (.float 9007199254740992)).compare (string "9007199254740992") = .ok p ∧
    (number (.int 9007199254740993)).compare (string "9007199254740992") = .ok q ∧
    (o ≠ .gt ∧ p ≠ .gt ∧ q = .gt ↔ Number.Blurs (.int 9007199254740993) (.float 9007199254740992)
      (.int 9007199254740992)) :=
  compare_order rfl rfl (by decide +kernel) rfl (by decide +kernel) rfl

/-- Two integers, one above the other, that both equal the same float. -/
theorem compare_not_transitive : ¬∀ (x y z : Value) (a b c : Number), x.toNumber = .ok a →
    y.toNumber = .ok b → z.toNumber = .ok c → a.isNaN = false → b.isNaN = false →
    c.isNaN = false → ∃ o p q, x.compare y = .ok o ∧ y.compare x = .ok o.swap ∧
      y.compare z = .ok p ∧ x.compare z = .ok q ∧ (o ≠ .gt → p ≠ .gt → q ≠ .gt) := by
  intro h
  obtain ⟨o, p, q, ho, -, hp, hq, hn⟩ := h (number (.int 9007199254740993))
    (number (.float 9007199254740992)) (number (.int 9007199254740992)) _ _ _ rfl rfl rfl
    rfl (by decide +kernel) rfl
  have hb : Number.Blurs (.int 9007199254740993) (.float 9007199254740992)
      (.int 9007199254740992) :=
    ⟨_, _, _, rfl, rfl, rfl, by decide, by decide +kernel, by decide +kernel⟩
  obtain ⟨hab, hbc, hac⟩ := hb.compare (by decide +kernel)
  rw [compare_eq rfl rfl, hab] at ho
  rw [compare_eq rfl rfl, hbc] at hp
  rw [compare_eq rfl rfl, hac] at hq
  cases ho
  cases hp
  cases hq
  exact hn (by decide) (by decide) rfl

end Value

end Stencil
