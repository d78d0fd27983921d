import Mathlib.Data.List.DropRight
import Stencil.Echo.Evaluation
import Stencil.Proofs.Number.Printed

/-! Numbers written by a pattern: the digits that it asks for, and the value that they have. -/

set_option autoImplicit false

namespace Stencil

theorem ofDigitChars_eq_zero_iff {ds : List Char} (h : AllDigits ds) {init : Nat} :
    Nat.ofDigitChars 10 ds init = 0 ↔ init = 0 ∧ ∀ c ∈ ds, c = '0' := by
  induction ds generalizing init with
  | nil => simp
  | cons c cs ih =>
    obtain ⟨hc, hcs⟩ := List.forall_mem_cons.1 h
    have hl : 48 ≤ c.toNat := (Char.isDigit_iff_toNat.1 hc).1
    have hz : c = '0' ↔ c.toNat = 48 := Char.toNat_inj.symm
    rw [Nat.ofDigitChars_cons, ih hcs, List.forall_mem_cons, hz]
    change _ + (_ - 48) = 0 ∧ _ ↔ _
    constructor
    · rintro ⟨hi, ha⟩
      exact ⟨by omega, by omega, ha⟩
    · rintro ⟨hi, hd, ha⟩
      exact ⟨by omega, ha⟩

theorem natOfDigits_zeros_append (k : Nat) (ds : List Char) :
    natOfDigits (List.replicate k '0' ++ ds) = natOfDigits ds := by
  rw [natOfDigits, Nat.ofDigitChars_append, Nat.ofDigitChars_replicate_zero, Nat.mul_zero,
    natOfDigits]

theorem natOfDigits_append_zeros (ds : List Char) (k : Nat) :
    natOfDigits (ds ++ List.replicate k '0') = 10 ^ k * natOfDigits ds := by
  rw [natOfDigits, Nat.ofDigitChars_append, Nat.ofDigitChars_replicate_zero, natOfDigits]

namespace Decimal

@[simp] theorem places_round (d : Decimal) (k : Nat) : (d.round k).places = k := by
  unfold round
  split <;> rfl

theorem length_placeDigits (d : Decimal) : d.placeDigits.length = d.places := by
  simp [placeDigits, length_lastDigits]

theorem allDigits_placeDigits (d : Decimal) : AllDigits d.placeDigits :=
  allDigits_lastDigits _ _ (by simp [AllDigits])

theorem wholeDigits_eq_zero_iff (d : Decimal) : d.wholeDigits = ['0'] ↔ d.whole = 0 := by
  constructor
  · intro h
    have hn := @Nat.ofDigitChars_ten_toDigits d.whole
    rw [← wholeDigits, h] at hn
    exact hn.symm
  · intro h
    rw [wholeDigits, h, Nat.toDigits_zero]

end Decimal

namespace Pattern

def AllMarks (cs : List Char) : Prop := ∀ c ∈ cs, c = '0' ∨ c = '#'

/-- Empty, or with a character that is neither a mark nor a point, or with two points. -/
def Malformed (cs : List Char) : Prop :=
  cs = [] ∨ (∃ c ∈ cs, c ≠ '0' ∧ c ≠ '#' ∧ c ≠ '.') ∨ 2 ≤ cs.count '.'

/-- The marks of a pattern before its point and after it. -/
inductive IsSplit : List Char → List Char → List Char → Prop where
  | whole {w : List Char} : w ≠ [] → AllMarks w → IsSplit w w []
  | places {w f : List Char} : AllMarks w → AllMarks f → IsSplit (w ++ '.' :: f) w f

section

variable {cs w f : List Char}

theorem AllMarks.not_mem (h : AllMarks cs) : '.' ∉ cs := by
  intro hp
  simpa using h _ hp

theorem allMarks_iff : AllMarks cs ↔ cs.all isMark = true := by
  simp [AllMarks, isMark]

theorem not_malformed_iff : ¬Malformed cs ↔ ∃ w f, IsSplit cs w f := by
  constructor
  · intro h
    simp only [Malformed, not_or, not_exists, not_and, Nat.not_le] at h
    obtain ⟨hn, hc, hp⟩ := h
    have hm {c : Char} (h : c ∈ cs) (hd : c ≠ '.') : c = '0' ∨ c = '#' := by
      by_contra hno
      rw [not_or] at hno
      exact hc c h hno.1 hno.2 hd
    by_cases hd : '.' ∈ cs
    · obtain ⟨w, f, rfl, hw⟩ := List.eq_append_cons_of_mem hd
      have hf : '.' ∉ f := by
        rw [List.count_append, List.count_cons_self] at hp
        exact List.count_eq_zero.1 (by omega)
      exact ⟨w, f, .places
        (fun c h => hm (by simp [h]) (by rintro rfl; exact hw h))
        (fun c h => hm (by simp [h]) (by rintro rfl; exact hf h))⟩
    · exact ⟨cs, [], .whole hn fun c h => hm h (by rintro rfl; exact hd h)⟩
  · rintro ⟨w, f, h⟩
    cases h with
    | whole hn hw =>
      rintro (h | ⟨c, hc, h0, hs, -⟩ | h)
      · exact hn h
      · exact (hw c hc).elim h0 hs
      · rw [List.count_eq_zero.2 hw.not_mem] at h
        omega
    | places hw hf =>
      rintro (h | ⟨c, hc, h0, hs, hp⟩ | h)
      · simp at h
      · rcases List.mem_append.1 hc with hc | hc
        · exact (hw c hc).elim h0 hs
        · rcases List.mem_cons.1 hc with rfl | hc
          · exact hp rfl
          · exact (hf c hc).elim h0 hs
      · rw [List.count_append, List.count_cons_self, List.count_eq_zero.2 hw.not_mem,
          List.count_eq_zero.2 hf.not_mem] at h
        omega

theorem AllMarks.span_append (h : AllMarks w) {rest : List Char}
    (hr : ∀ c ∈ rest.head?, c = '.') : (w ++ rest).span (· != '.') = (w, rest) := by
  refine Stencil.span_append (fun c hc => bne_iff_ne.2 ?_) fun c hc => by simp [hr c hc]
  rintro rfl
  exact h.not_mem hc

theorem read?_of_isSplit (h : IsSplit cs w f) :
    read? cs = some ⟨w.count '0', f.count '0', f.length⟩ := by
  unfold read?
  cases h with
  | whole hn hw =>
    have hs := @AllMarks.span_append _ hw [] (by simp)
    rw [List.append_nil] at hs
    rw [hs]
    simp [hn, allMarks_iff.1 hw]
  | places hw hf =>
    rw [hw.span_append (by simp)]
    simp [allMarks_iff.1 hw, allMarks_iff.1 hf]

theorem exists_isSplit_of_read? {p : Pattern} (h : read? cs = some p) :
    ∃ w f, IsSplit cs w f := by
  unfold read? at h
  rw [List.span_eq_takeWhile_dropWhile] at h
  dsimp only at h
  have hcs : cs.takeWhile (· != '.') ++ cs.dropWhile (· != '.') = cs :=
    List.takeWhile_append_dropWhile
  split at h
  · rename_i hm
    obtain ⟨hn, hw, hf⟩ := hm
    rw [← allMarks_iff] at hw hf
    cases hd : cs.dropWhile (· != '.') with
    | nil =>
      rw [hd, List.append_nil] at hcs
      rw [hcs] at hw
      exact ⟨cs, [], .whole hn hw⟩
    | cons c f =>
      have hc := List.head?_dropWhile_not (· != '.') cs
      rw [hd] at hc hf hcs
      obtain rfl : c = '.' := by simpa using hc
      rw [← hcs]
      exact ⟨_, f, .places hw hf⟩
  · contradiction

theorem read?_eq_none_iff : read? cs = none ↔ Malformed cs := by
  rw [← not_iff_not, not_malformed_iff]
  constructor
  · intro h
    obtain ⟨p, hp⟩ := Option.ne_none_iff_exists'.1 h
    exact exists_isSplit_of_read? hp
  · rintro ⟨w, f, h⟩
    simp [read?_of_isSplit h]

end

theorem exists_dropZeros (n : Nat) (ds : List Char) :
    ∃ k, ds = dropZeros n ds ++ List.replicate k '0' := by
  have hz : ∀ c ∈ (ds.drop n).rtakeWhile (· == '0'), c = '0' := fun c hc => by
    simpa using List.mem_rtakeWhile_imp hc
  refine ⟨((ds.drop n).rtakeWhile (· == '0')).length, ?_⟩
  rw [← List.eq_replicate_of_mem hz]
  change ds = ds.take n ++ (ds.drop n).rdropWhile (· == '0') ++ _
  rw [List.append_assoc, List.rdropWhile_append_rtakeWhile, List.take_append_drop]

theorem allDigits_dropZeros (n : Nat) {ds : List Char} (h : AllDigits ds) :
    AllDigits (dropZeros n ds) := by
  obtain ⟨k, hk⟩ := exists_dropZeros n ds
  intro c hc
  exact h c (hk ▸ List.mem_append_left _ hc)

theorem le_length_dropZeros {n : Nat} {ds : List Char} (h : n ≤ ds.length) :
    n ≤ (dropZeros n ds).length := by
  simp [dropZeros, h]

theorem getLast?_dropZeros {n : Nat} {ds : List Char} (h : n < (dropZeros n ds).length) :
    (dropZeros n ds).getLast? ≠ some '0' := by
  have hd : dropZeros n ds = ds.take n ++ (ds.drop n).rdropWhile (· == '0') := rfl
  rw [hd] at h ⊢
  have hn : (ds.drop n).rdropWhile (· == '0') ≠ [] := by
    intro hn
    rw [hn, List.append_nil, List.length_take] at h
    omega
  rw [List.getLast?_append_of_ne_nil _ hn, List.getLast?_eq_some_getLast hn]
  simpa using List.rdropWhile_last_not _ _ hn

/-- How a number that is `r` but for its sign is written by the marks `w` and `f`: which digits
stand before the point, or instead of it, and which after it. -/
structure Writes (w f : List Char) (below : Prop) (r : Decimal) (negative : Bool)
    (whole places : List Char) : Prop where
  sign : negative = true ↔ below ∧ r.coefficient ≠ 0
  padded : r.whole ≠ 0 ∨ '0' ∈ w →
    whole = List.replicate (w.count '0' - r.wholeDigits.length) '0' ++ r.wholeDigits
  omitted : r.whole = 0 → '0' ∉ w → whole = if places = [] then ['0'] else []
  digits : AllDigits (whole ++ places)
  least : f.count '0' ≤ places.length
  needed : f.count '0' < places.length → places.getLast? ≠ some '0'
  value : (natOfDigits (whole ++ places) : ℚ) / 10 ^ places.length = r.coefficient / r.scale

section

variable {p : Pattern} {d r : Decimal}

theorem wholePart_of_ne (h : r.whole ≠ 0 ∨ p.leastWhole ≠ 0) :
    p.wholePart r.wholeDigits =
      List.replicate (p.leastWhole - r.wholeDigits.length) '0' ++ r.wholeDigits := by
  rw [wholePart, if_neg]
  rw [r.wholeDigits_eq_zero_iff]
  tauto

theorem wholePart_of_eq (h : r.whole = 0) (hp : p.leastWhole = 0) :
    p.wholePart r.wholeDigits = [] := by
  rw [wholePart, if_pos ⟨r.wholeDigits_eq_zero_iff.2 h, hp⟩]

theorem allDigits_wholePart (p : Pattern) (r : Decimal) :
    AllDigits (p.wholePart r.wholeDigits) := by
  unfold wholePart
  split
  · simp [AllDigits]
  · rintro c hc
    rcases List.mem_append.1 hc with hc | hc
    · rw [List.eq_of_mem_replicate hc]
      rfl
    · exact allDigits_toDigits _ _ hc

theorem natOfDigits_wholePart_append (p : Pattern) (r : Decimal) (ds : List Char) :
    natOfDigits (p.wholePart r.wholeDigits ++ ds) = natOfDigits (r.wholeDigits ++ ds) := by
  by_cases h : r.whole = 0 ∧ p.leastWhole = 0
  · rw [wholePart_of_eq h.1 h.2, r.wholeDigits_eq_zero_iff.2 h.1]
    exact (natOfDigits_zeros_append 1 ds).symm
  · rw [wholePart_of_ne (by tauto), List.append_assoc, natOfDigits_zeros_append]

theorem exists_coefficient_eq (p : Pattern) (r : Decimal) :
    ∃ k, r.places = (dropZeros p.leastPlaces r.placeDigits).length + k ∧
      r.coefficient = 10 ^ k *
        natOfDigits (p.wholePart r.wholeDigits ++ dropZeros p.leastPlaces r.placeDigits) := by
  obtain ⟨k, hk⟩ := exists_dropZeros p.leastPlaces r.placeDigits
  have hl := congrArg List.length hk
  rw [r.length_placeDigits, List.length_append, List.length_replicate] at hl
  refine ⟨k, hl, ?_⟩
  rw [natOfDigits_wholePart_append, ← natOfDigits_append_zeros, List.append_assoc, ← hk,
    r.natOfDigits_digits]

theorem any_ne_zero_iff (p : Pattern) (r : Decimal) :
    (p.wholePart r.wholeDigits ++ dropZeros p.leastPlaces r.placeDigits).any (· != '0') = true ↔
      r.coefficient ≠ 0 := by
  obtain ⟨k, -, hk⟩ := exists_coefficient_eq p r
  have hd := List.forall_mem_append.2
    ⟨allDigits_wholePart p r, allDigits_dropZeros p.leastPlaces r.allDigits_placeDigits⟩
  generalize p.wholePart r.wholeDigits ++ dropZeros p.leastPlaces r.placeDigits = ds at hk hd ⊢
  have hz := @ofDigitChars_eq_zero_iff ds hd 0
  rw [hk, Nat.mul_ne_zero_iff, natOfDigits, ne_eq (Nat.ofDigitChars 10 ds 0), hz]
  simp

def rescued (whole places : List Char) : List Char :=
  if whole = [] ∧ places = [] then ['0'] else whole

theorem wire_eq_plain (p : Pattern) (negative : Bool) (d : Decimal) {r : Decimal}
    {whole places : List Char} (hr : d.round p.mostPlaces = r)
    (hw : p.wholePart r.wholeDigits = whole) (hp : dropZeros p.leastPlaces r.placeDigits = places) :
    p.wire negative d =
      Numeral.plain (negative && (whole ++ places).any (· != '0')) (rescued whole places)
        (if places = [] then none else some places) := by
  rw [wire, hr, hw, hp, Numeral.plain, rescued]
  by_cases hps : places = []
  · by_cases hws : whole = [] <;> simp [hps, hws]
  · simp [hps]

theorem natOfDigits_rescued_append (whole places : List Char) :
    natOfDigits (rescued whole places ++ places) = natOfDigits (whole ++ places) := by
  unfold rescued
  split
  · rename_i h
    rw [h.1, h.2]
    rfl
  · rfl

theorem allDigits_rescued {whole : List Char} (h : AllDigits whole) (places : List Char) :
    AllDigits (rescued whole places) := by
  unfold rescued
  split
  · simp [AllDigits]
  · exact h

theorem exists_writes (w f : List Char) (negative : Bool) (d : Decimal) :
    ∃ sign whole places,
      wire ⟨w.count '0', f.count '0', f.length⟩ negative d =
        Numeral.plain sign whole (if places = [] then none else some places) ∧
      Writes w f (negative = true) (d.round f.length) sign whole places := by
  have hl : f.count '0' ≤ (d.round f.length).placeDigits.length := by
    rw [Decimal.length_placeDigits, Decimal.places_round]
    exact List.count_le_length
  refine ⟨_, _, _, wire_eq_plain _ negative d rfl rfl rfl, ?_⟩
  dsimp only
  generalize d.round f.length = r at hl
  generalize hp : (⟨w.count '0', f.count '0', f.length⟩ : Pattern) = p
  have hw : p.leastWhole = w.count '0' := by rw [← hp]
  have hf : p.leastPlaces = f.count '0' := by rw [← hp]
  rw [← hf] at hl ⊢
  have hz : p.leastWhole ≠ 0 ↔ '0' ∈ w := by rw [hw, ne_eq, List.count_eq_zero, not_not]
  obtain ⟨k, hk, hc⟩ := exists_coefficient_eq p r
  refine ⟨?_, fun h => ?_, fun h0 h => ?_, ?_, ?_, ?_, ?_⟩
  · rw [Bool.and_eq_true, any_ne_zero_iff]
  · rw [wholePart_of_ne (by tauto), hw, rescued, if_neg]
    simp [wholeDigits_ne_nil]
  · rw [wholePart_of_eq h0 (by tauto), rescued]
    simp
  · exact List.forall_mem_append.2 ⟨allDigits_rescued (allDigits_wholePart p r) _,
      allDigits_dropZeros _ r.allDigits_placeDigits⟩
  · rw [← hf]
    exact le_length_dropZeros hl
  · rw [← hf]
    exact getLast?_dropZeros
  · rw [natOfDigits_rescued_append, Decimal.scale, hc, hk, Nat.pow_eq]
    push_cast
    rw [pow_add]
    field_simp

theorem Writes.isMantissa {w f whole places : List Char} {below : Prop} {r : Decimal}
    {negative : Bool} (h : Writes w f below r negative whole places) :
    Numeral.IsMantissa whole (if places = [] then none else some places) := by
  obtain ⟨hw, hp⟩ := List.forall_mem_append.1 h.digits
  refine ⟨hw, ?_, ?_⟩
  · split
    · simp
    · intro ds hd
      cases hd
      exact hp
  · by_cases hr : r.whole ≠ 0 ∨ '0' ∈ w
    · exact .inl (by simp [h.padded hr, wholeDigits_ne_nil])
    · rw [not_or, not_not] at hr
      rw [h.omitted hr.1 hr.2]
      by_cases hps : places = [] <;> simp [hps]

end

end Pattern

namespace Numeral

theorem read?_plain_of_isMantissa (negative : Bool) {whole : List Char}
    {places : Option (List Char)} (h : IsMantissa whole places) :
    read? (plain negative whole places) = some ⟨negative, whole, places, none⟩ := by
  refine read?_eq_some_iff.2 ⟨Binary.sign negative, [], ?_, sign_mem_signForm negative,
    (decide_sign negative).symm, h, rfl⟩
  rw [List.append_nil, plain, List.append_assoc]
  rfl

end Numeral

namespace Builtin

theorem formatted_eq_error_iff {x : Float} {p : String} {e : BuiltinError} :
    formatted x p = .error e ↔ e = .pattern p ∧ Pattern.Malformed p.toList := by
  rw [← Pattern.read?_eq_none_iff, formatted]
  cases Pattern.read? p.toList with
  | none => simp [eq_comm]
  | some q => simp

theorem significand_ne_zero {m k : Nat} {q : Int}
    (h : ((Binary.decimal m q).round k).coefficient ≠ 0) : m ≠ 0 := by
  rintro rfl
  apply h
  have hc : (Binary.decimal 0 q).coefficient = 0 := by
    unfold Binary.decimal
    split <;> simp
  unfold Decimal.round
  split <;> simp [hc, roundDiv]

/-- Nothing but a malformed pattern is an error. By any other one a finite number is written with
the value that it has after rounding, and in a form that reads back as a number. -/
theorem formatted_by_pattern (x : Float) (p : String) :
    (∀ e, formatted x p = .error e ↔ e = .pattern p ∧ Pattern.Malformed p.toList) ∧
    ∀ negative m q, Binary.ofFloat x = .finite negative m q → ¬Pattern.Malformed p.toList →
      ∃ w f, Pattern.IsSplit p.toList w f ∧
        ∃ sign whole places text,
          formatted x p = .ok text ∧
          text.toList = Numeral.plain sign whole (if places = [] then none else some places) ∧
          Pattern.Writes w f (x < 0) ((Binary.decimal m q).round f.length) sign whole places ∧
          ∃ n, Value.readNumber text = .ok n := by
  refine ⟨fun e => formatted_eq_error_iff, fun negative m q hx hp => ?_⟩
  obtain ⟨w, f, hs⟩ := Pattern.not_malformed_iff.1 hp
  obtain ⟨sign, whole, places, hwire, hw⟩ :=
    Pattern.exists_writes w f negative (Binary.decimal m q)
  have hread := Numeral.read?_plain_of_isMantissa sign hw.isMantissa
  have hsign : sign = true ↔
      x < 0 ∧ ((Binary.decimal m q).round f.length).coefficient ≠ 0 := by
    rw [hw.sign, Binary.lt_zero_iff hx, and_assoc]
    exact and_congr_right fun _ => ⟨fun h => ⟨significand_ne_zero h, h⟩, fun h => h.2⟩
  refine ⟨w, f, hs, sign, whole, places, String.ofList _, ?_, String.toList_ofList,
    { hw with sign := hsign }, ?_⟩
  · rw [formatted, Pattern.read?_of_isSplit hs]
    dsimp only
    rw [Pattern.format, hx]
    dsimp only
    rw [hwire]
  · rw [← String.toList_ofList (l := Numeral.plain ..)] at hread
    exact ⟨_, Value.readNumber_eq_ok_iff.2 ⟨_, hread, rfl⟩⟩

theorem formatted_by_pattern_carried :
    Binary.ofFloat (Float.ofBits 0xc023fdf3b645a1cb) = .finite true 5627247734399435 (-49) ∧
    ¬Pattern.Malformed "#0.0#".toList ∧
    formatted (Float.ofBits 0xc023fdf3b645a1cb) "#0.0#" = .ok "-10.0" ∧
    ∃ n, Value.readNumber "-10.0" = .ok n := by
  have hx : Binary.ofFloat (Float.ofBits 0xc023fdf3b645a1cb) =
      .finite true 5627247734399435 (-49) := rfl
  have hp : ¬Pattern.Malformed "#0.0#".toList := by simp [Pattern.Malformed]
  have ht : formatted (Float.ofBits 0xc023fdf3b645a1cb) "#0.0#" = .ok "-10.0" := by decide +kernel
  obtain ⟨-, -, -, -, -, -, text, hf, -, -, hr⟩ :=
    (formatted_by_pattern (Float.ofBits 0xc023fdf3b645a1cb) "#0.0#").2 _ _ _ hx hp
  rw [ht] at hf
  cases hf
  exact ⟨hx, hp, ht, hr⟩

end Builtin

end Stencil
