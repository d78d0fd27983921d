import Mathlib.Computability.RegularExpressions
import Mathlib.Data.Nat.Digits.Defs
import Stencil.Proofs.Number.Order
import Stencil.Proofs.Number.ReadBack

/-!
The grammars of numerals as regular expressions, and what is read of a text that matches them.
-/

set_option autoImplicit false

namespace Stencil

namespace Numeral

open RegularExpression

def oneOf (cs : List Char) : RegularExpression Char := (cs.map char).sum

def optional (r : RegularExpression Char) : RegularExpression Char := 1 + r

def signForm : RegularExpression Char := optional (oneOf ['+', '-'])

def digitForm : RegularExpression Char :=
  oneOf ['0', '1', '2', '3', '4', '5', '6', '7', '8', '9']

def digitsForm : RegularExpression Char := digitForm * digitForm.star

/-- `[+-]?[0-9]+` -/
def wholeForm : RegularExpression Char := signForm * digitsForm

/-- `[eE][+-]?[0-9]+` -/
def exponentForm : RegularExpression Char := oneOf ['e', 'E'] * signForm * digitsForm

/-- `[+-]?([0-9]+\.?[0-9]*|\.[0-9]+)([eE][+-]?[0-9]+)?` -/
def numeralForm : RegularExpression Char :=
  signForm * (digitsForm * optional (char '.') * digitForm.star + char '.' * digitsForm) *
    optional exponentForm

def decimalValue (ds : List Char) : Nat :=
  Nat.ofDigits 10 (ds.reverse.map fun c => c.toNat - '0'.toNat)

def denoted : List Char → Int
  | '-' :: ds => -(decimalValue ds : Int)
  | '+' :: ds => decimalValue ds
  | ds => decimalValue ds

section

variable {w : List Char}

theorem mem_char {c : Char} : w ∈ (char c).matches' ↔ w = [c] := Iff.rfl

theorem mem_oneOf {cs : List Char} : w ∈ (oneOf cs).matches' ↔ ∃ c ∈ cs, w = [c] := by
  induction cs with
  | nil => simp [oneOf, Language.notMem_zero]
  | cons c cs ih =>
    have hs : oneOf (c :: cs) = char c + oneOf cs := rfl
    rw [hs, matches'_add, Language.mem_add, ih, mem_char]
    simp

theorem mem_optional {r : RegularExpression Char} :
    w ∈ (optional r).matches' ↔ w = [] ∨ w ∈ r.matches' := by
  rw [optional, matches'_add, Language.mem_add, matches'_epsilon, Language.mem_one]

theorem mem_signForm : w ∈ signForm.matches' ↔ w = [] ∨ w = ['+'] ∨ w = ['-'] := by
  simp [signForm, mem_optional, mem_oneOf]

theorem sign_mem_signForm (negative : Bool) : Binary.sign negative ∈ signForm.matches' := by
  rw [mem_signForm]
  cases negative with
  | true => exact .inr (.inr rfl)
  | false => exact .inl rfl

theorem decide_sign (negative : Bool) : decide (Binary.sign negative = ['-']) = negative := by
  cases negative <;> rfl

theorem mem_digitForm : w ∈ digitForm.matches' ↔ ∃ c, c.isDigit = true ∧ w = [c] := by
  rw [digitForm, mem_oneOf]
  refine exists_congr fun c => and_congr_left fun _ => ⟨fun h => ?_, fun h => ?_⟩
  · fin_cases h <;> rfl
  · obtain ⟨hl, hu⟩ := Char.isDigit_iff_toNat.1 h
    change 48 ≤ c.toNat at hl
    change c.toNat ≤ 57 at hu
    rw [← Char.ofNat_toNat c]
    interval_cases c.toNat <;> decide

theorem mem_star_digitForm : w ∈ digitForm.star.matches' ↔ AllDigits w := by
  rw [matches'_star, Language.mem_kstar]
  constructor
  · rintro ⟨ws, rfl, h⟩ c hc
    obtain ⟨v, hv, hc⟩ := List.mem_flatten.1 hc
    obtain ⟨d, hd, rfl⟩ := mem_digitForm.1 (h v hv)
    rwa [List.mem_singleton.1 hc]
  · intro h
    refine ⟨w.map fun c => [c], List.flatMap_singleton' w |>.symm, fun v hv => ?_⟩
    obtain ⟨c, hc, rfl⟩ := List.mem_map.1 hv
    exact mem_digitForm.2 ⟨c, h c hc, rfl⟩

theorem mem_digitsForm : w ∈ digitsForm.matches' ↔ w ≠ [] ∧ AllDigits w := by
  rw [digitsForm, matches'_mul, Language.mem_mul]
  constructor
  · rintro ⟨v, hv, ds, hd, rfl⟩
    obtain ⟨c, hc, rfl⟩ := mem_digitForm.1 hv
    exact ⟨by simp, List.forall_mem_cons.2 ⟨hc, mem_star_digitForm.1 hd⟩⟩
  · rintro ⟨hw, h⟩
    obtain ⟨c, ds, rfl⟩ := List.exists_cons_of_ne_nil hw
    obtain ⟨hc, hd⟩ := List.forall_mem_cons.1 h
    exact ⟨[c], mem_digitForm.2 ⟨c, hc, rfl⟩, ds, mem_star_digitForm.2 hd, rfl⟩

theorem mem_wholeForm : w ∈ wholeForm.matches' ↔
    ∃ s ds, w = s ++ ds ∧ s ∈ signForm.matches' ∧ ds ≠ [] ∧ AllDigits ds := by
  rw [wholeForm, matches'_mul, Language.mem_mul]
  constructor
  · rintro ⟨s, hs, ds, hd, rfl⟩
    exact ⟨s, ds, rfl, hs, mem_digitsForm.1 hd⟩
  · rintro ⟨s, ds, rfl, hs, hd⟩
    exact ⟨s, hs, ds, mem_digitsForm.2 hd, rfl⟩

theorem mem_exponentForm : w ∈ exponentForm.matches' ↔
    ∃ c s ds, w = c :: (s ++ ds) ∧ (c = 'e' ∨ c = 'E') ∧ s ∈ signForm.matches' ∧ ds ≠ [] ∧
      AllDigits ds := by
  rw [exponentForm, matches'_mul, Language.mem_mul]
  simp only [matches'_mul, Language.mem_mul, mem_oneOf]
  constructor
  · rintro ⟨_, ⟨_, ⟨c, hc, rfl⟩, s, hs, rfl⟩, ds, hd, rfl⟩
    exact ⟨c, s, ds, rfl, by simpa using hc, hs, mem_digitsForm.1 hd⟩
  · rintro ⟨c, s, ds, rfl, hc, hs, hd⟩
    exact ⟨c :: s, ⟨[c], ⟨c, by simpa using hc, rfl⟩, s, hs, rfl⟩, ds, mem_digitsForm.2 hd, rfl⟩

def withPoint (places : Option (List Char)) : List Char := (places.map ('.' :: ·)).getD []

/-- A mantissa has digits before its point or after it. -/
def IsMantissa (whole : List Char) (places : Option (List Char)) : Prop :=
  AllDigits whole ∧ (∀ ds ∈ places, AllDigits ds) ∧ (whole ≠ [] ∨ places.getD [] ≠ [])

theorem mem_mantissaForm :
    w ∈ (digitsForm * optional (char '.') * digitForm.star + char '.' * digitsForm).matches' ↔
      ∃ whole places, w = whole ++ withPoint places ∧ IsMantissa whole places := by
  simp only [matches'_add, Language.mem_add, matches'_mul, Language.mem_mul, mem_optional,
    mem_char, mem_digitsForm, mem_star_digitForm]
  constructor
  · rintro (⟨_, ⟨ds, hd, p, rfl | rfl, rfl⟩, es, he, rfl⟩ | ⟨p, rfl, es, he, rfl⟩)
    · have ha : AllDigits (ds ++ es) := List.forall_mem_append.2 ⟨hd.2, he⟩
      exact ⟨ds ++ es, none, by simp [withPoint], ha, by simp, .inl (by simp [hd.1])⟩
    · exact ⟨ds, some es, by simp [withPoint], hd.2, by simpa using he, .inl hd.1⟩
    · exact ⟨[], some es, by simp [withPoint], by simp [AllDigits], by simpa using he.2,
        .inr (by simpa using he.1)⟩
  · rintro ⟨whole, places, rfl, hw, hp, hn⟩
    cases places with
    | none =>
      have hn : whole ≠ [] := by simpa using hn
      exact .inl ⟨whole, ⟨whole, ⟨hn, hw⟩, [], .inl rfl, by simp⟩, [], by simp [AllDigits], rfl⟩
    | some es =>
      have he : AllDigits es := hp es rfl
      by_cases hn' : whole = []
      · subst hn'
        exact .inr ⟨['.'], rfl, es, ⟨by simpa using hn, he⟩, rfl⟩
      · exact .inl ⟨whole ++ ['.'], ⟨whole, ⟨hn', hw⟩, ['.'], .inr rfl, rfl⟩, es, he,
          by simp [withPoint]⟩

theorem mem_numeralForm : w ∈ numeralForm.matches' ↔
    ∃ s whole places e, w = s ++ (whole ++ (withPoint places ++ e)) ∧ s ∈ signForm.matches' ∧
      IsMantissa whole places ∧ e ∈ (optional exponentForm).matches' := by
  rw [numeralForm, matches'_mul, Language.mem_mul]
  simp only [matches'_mul (P := signForm), Language.mem_mul, mem_mantissaForm]
  constructor
  · rintro ⟨_, ⟨s, hs, _, ⟨whole, places, rfl, hm⟩, rfl⟩, e, he, rfl⟩
    exact ⟨s, whole, places, e, by simp, hs, hm, he⟩
  · rintro ⟨s, whole, places, e, rfl, hs, hm, he⟩
    exact ⟨_, ⟨s, hs, _, ⟨whole, places, rfl, hm⟩, rfl⟩, e, he, by simp⟩

end

section

variable {s cs e whole : List Char} {places : Option (List Char)}

theorem readSign_append (hs : s ∈ signForm.matches') (hc : ∀ c ∈ cs.head?, c ≠ '+' ∧ c ≠ '-') :
    readSign (s ++ cs) = (decide (s = ['-']), cs) := by
  rcases mem_signForm.1 hs with rfl | rfl | rfl
  · rw [List.nil_append]
    unfold readSign
    split <;> simp_all
  · rfl
  · rfl

theorem exists_readSign (cs : List Char) :
    ∃ s ∈ signForm.matches', cs = s ++ (readSign cs).2 ∧
      (readSign cs).1 = decide (s = ['-']) := by
  unfold readSign
  split
  · exact ⟨['+'], mem_signForm.2 (by simp), rfl, rfl⟩
  · exact ⟨['-'], mem_signForm.2 (by simp), rfl, rfl⟩
  · exact ⟨[], mem_signForm.2 (by simp), rfl, rfl⟩

theorem readPlaces_append (hp : ∀ ds ∈ places, AllDigits ds)
    (he : ∀ c ∈ e.head?, c.isDigit = false ∧ c ≠ '.') :
    readPlaces (withPoint places ++ e) = (places, e) := by
  cases places with
  | none =>
    rw [withPoint, Option.map_none, Option.getD_none, List.nil_append]
    unfold readPlaces
    split <;> simp_all
  | some ds =>
    have hs := span_digits (hp ds rfl) fun c hc => (he c hc).1
    simp only [withPoint, Option.map_some, Option.getD_some, List.cons_append, readPlaces, hs]

theorem readPlaces_spec (cs : List Char) :
    cs = withPoint (readPlaces cs).1 ++ (readPlaces cs).2 ∧
      ∀ ds ∈ (readPlaces cs).1, AllDigits ds := by
  unfold readPlaces
  split
  · rw [List.span_eq_takeWhile_dropWhile]
    refine ⟨by simp [withPoint], fun ds hd => ?_⟩
    cases hd
    exact List.all_eq_true.1 List.all_takeWhile
  · exact ⟨by simp [withPoint], by simp⟩

theorem readExponent?_isSome_iff :
    (readExponent? e).isSome = true ↔ e ∈ (optional exponentForm).matches' := by
  rw [mem_optional, mem_exponentForm]
  cases e with
  | nil => simp [readExponent?]
  | cons c cs =>
    constructor
    · intro h
      obtain ⟨s, hs, hcs, -⟩ := exists_readSign cs
      simp only [readExponent?] at h
      split at h
      · rename_i hd
        exact .inr ⟨c, s, _, by rw [← hcs], hd.1, hs, hd.2.1, List.all_eq_true.1 hd.2.2⟩
      · contradiction
    · rintro (h | ⟨c, s, ds, h, hc, hs, hn, hd⟩)
      · contradiction
      · obtain ⟨d, ds, rfl⟩ := List.exists_cons_of_ne_nil hn
        have hne := ne_of_isDigit (hd d (by simp))
        have hr : readSign (s ++ d :: ds) = (decide (s = ['-']), d :: ds) :=
          readSign_append hs (by simp [hne])
        have ha : (d :: ds).all Char.isDigit = true := List.all_eq_true.2 hd
        obtain ⟨rfl, rfl⟩ := List.cons.inj h
        simp only [readExponent?, hr]
        rw [if_pos ⟨hc, hn, ha⟩]
        rfl

theorem eq_nil_of_readExponent? (h : readExponent? e = some none) : e = [] := by
  unfold readExponent? at h
  split at h
  · rfl
  · dsimp only at h
    split at h <;> simp at h

theorem head?_of_exponent (h : e ∈ (optional exponentForm).matches') :
    ∀ c ∈ e.head?, c.isDigit = false ∧ c ≠ '.' := by
  rcases mem_optional.1 h with rfl | h
  · simp
  · obtain ⟨c, s, ds, rfl, rfl | rfl, -⟩ := mem_exponentForm.1 h <;> simp

theorem IsMantissa.head?_ne (h : IsMantissa whole places) (e : List Char) :
    ∀ c ∈ (whole ++ (withPoint places ++ e)).head?, c ≠ '+' ∧ c ≠ '-' := by
  obtain ⟨hw, -, hn⟩ := h
  cases whole with
  | cons d ds =>
    have hd := ne_of_isDigit (hw d (by simp))
    simp [hd]
  | nil =>
    cases places with
    | none => simp at hn
    | some ds => simp [withPoint]

theorem exists_of_read? {n : Numeral} (h : read? cs = some n) :
    ∃ s e, cs = s ++ (n.whole ++ (withPoint n.places ++ e)) ∧ s ∈ signForm.matches' ∧
      n.negative = decide (s = ['-']) ∧ IsMantissa n.whole n.places ∧
      readExponent? e = some n.exponent := by
  unfold read? at h
  obtain ⟨s, hs, hcs, hneg⟩ := exists_readSign cs
  generalize readSign cs = r at h hcs hneg
  obtain ⟨negative, cs⟩ := r
  dsimp only at h hcs hneg
  rw [List.span_eq_takeWhile_dropWhile] at h
  have hw : AllDigits (cs.takeWhile Char.isDigit) := List.all_eq_true.1 List.all_takeWhile
  have hcs' : cs.takeWhile Char.isDigit ++ cs.dropWhile Char.isDigit = cs :=
    List.takeWhile_append_dropWhile
  generalize cs.takeWhile Char.isDigit = whole at h hw hcs'
  obtain ⟨hrest, hp⟩ := readPlaces_spec (cs.dropWhile Char.isDigit)
  generalize readPlaces (cs.dropWhile Char.isDigit) = r at h hrest hp
  obtain ⟨places, e⟩ := r
  dsimp only at h hrest hp
  split at h
  · contradiction
  · rename_i hn
    obtain ⟨exponent, he, rfl⟩ := Option.map_eq_some_iff.1 h
    exact ⟨s, e, by rw [hcs, ← hcs', hrest], hs, hneg, ⟨hw, hp, by tauto⟩, he⟩

theorem read?_append {n : Numeral} {s e : List Char} (hs : s ∈ signForm.matches')
    (hneg : n.negative = decide (s = ['-'])) (hm : IsMantissa n.whole n.places)
    (he : readExponent? e = some n.exponent) :
    read? (s ++ (n.whole ++ (withPoint n.places ++ e))) = some n := by
  have hx := head?_of_exponent (readExponent?_isSome_iff.1 (Option.isSome_iff_exists.2 ⟨_, he⟩))
  have hd : ∀ c ∈ (withPoint n.places ++ e).head?, c.isDigit = false := by
    cases hp : n.places with
    | none => simpa [withPoint] using fun c hc => (hx c hc).1
    | some ds => simp [withPoint]
  have hn : ¬(n.whole = [] ∧ n.places.getD [] = []) := by
    have := hm.2.2
    tauto
  simp only [read?, readSign_append hs (hm.head?_ne e), span_digits hm.1 hd,
    readPlaces_append hm.2.1 hx]
  rw [if_neg hn, he, ← hneg]
  rfl

theorem read?_eq_some_iff {n : Numeral} : read? cs = some n ↔
    ∃ s e, cs = s ++ (n.whole ++ (withPoint n.places ++ e)) ∧ s ∈ signForm.matches' ∧
      n.negative = decide (s = ['-']) ∧ IsMantissa n.whole n.places ∧
      readExponent? e = some n.exponent := by
  refine ⟨exists_of_read?, ?_⟩
  rintro ⟨s, e, rfl, hs, hneg, hm, he⟩
  exact read?_append hs hneg hm he

end

section

variable {w : List Char}

theorem readNumeral_isSome_iff : (read? w).isSome = true ↔ w ∈ numeralForm.matches' := by
  rw [Option.isSome_iff_exists, mem_numeralForm]
  constructor
  · rintro ⟨n, h⟩
    obtain ⟨s, e, hw, hs, -, hm, he⟩ := read?_eq_some_iff.1 h
    exact ⟨s, n.whole, n.places, e, hw, hs, hm,
      readExponent?_isSome_iff.1 (Option.isSome_iff_exists.2 ⟨_, he⟩)⟩
  · rintro ⟨s, whole, places, e, hw, hs, hm, he⟩
    obtain ⟨exponent, he⟩ := Option.isSome_iff_exists.1 (readExponent?_isSome_iff.2 he)
    exact ⟨⟨_, whole, places, exponent⟩, read?_eq_some_iff.2 ⟨s, e, hw, hs, rfl, hm, he⟩⟩

theorem natOfDigits_eq_decimalValue (ds : List Char) : natOfDigits ds = decimalValue ds := by
  induction ds using List.reverseRecOn with
  | nil => rfl
  | append_singleton ds c ih =>
    have hd : decimalValue (ds ++ [c]) = c.toNat - '0'.toNat + 10 * decimalValue ds := by
      simp [decimalValue, Nat.ofDigits_cons]
    rw [hd, natOfDigits, Nat.ofDigitChars_append, ← natOfDigits, ih, Nat.add_comm]
    rfl

theorem intOfDigits_eq_denoted {s ds : List Char} (hs : s ∈ signForm.matches') (hn : ds ≠ [])
    (hd : AllDigits ds) : intOfDigits (decide (s = ['-'])) ds = denoted (s ++ ds) := by
  rw [intOfDigits, natOfDigits_eq_decimalValue]
  rcases mem_signForm.1 hs with rfl | rfl | rfl
  · obtain ⟨c, ds, rfl⟩ := List.exists_cons_of_ne_nil hn
    have hc := ne_of_isDigit (hd c (by simp))
    rw [List.nil_append]
    unfold denoted
    split <;> simp_all
  · rfl
  · rfl

theorem int?_eq_some_iff {n : Numeral} {m : Number} : n.int? = some m ↔
    n.places = none ∧ n.exponent = none ∧
      ∃ k : Int64, m = .int k ∧ k.toInt = intOfDigits n.negative n.whole := by
  obtain ⟨negative, whole, places, exponent⟩ := n
  unfold int?
  split
  · rename_i hp he
    dsimp only at hp he ⊢
    subst hp he
    rcases Number.ofInt?_cases (intOfDigits negative whole) with ⟨k, hk, hs⟩ | ⟨hout, hs⟩
    · rw [hs]
      constructor
      · intro h
        cases h
        exact ⟨rfl, rfl, k, rfl, hk⟩
      · rintro ⟨-, -, k', rfl, hk'⟩
        rw [Int64.toInt_inj.1 (hk.trans hk'.symm)]
    · rw [hs]
      constructor
      · intro h
        cases h
      · rintro ⟨-, -, k, -, hk⟩
        have := k.minValue_le_toInt
        have := k.toInt_le
        omega
  · rename_i hn
    constructor
    · intro h
      cases h
    · rintro ⟨hp, he, -⟩
      exact (hn hp he).elim

theorem literal?_eq_some_iff {n : Numeral} {m : Number} : n.literal? = some m ↔
    n.whole ≠ [] ∧ n.exponent = none ∧
      (n.int? = some m ∨ ∃ ds, n.places = some ds ∧ ds ≠ [] ∧ m = .float n.toFloat) := by
  obtain ⟨negative, whole, places, exponent⟩ := n
  unfold literal?
  split
  · rename_i hw hp he
    dsimp only at hw hp he ⊢
    subst hw hp he
    simp
  · rename_i hw hp he
    dsimp only at hw hp he ⊢
    subst hw hp he
    simp [int?, eq_comm]
  · rename_i hwhole hplaces
    dsimp only at hwhole hplaces ⊢
    constructor
    · intro h
      cases h
    · rintro ⟨hw, rfl, hl⟩
      obtain ⟨c, cs, rfl⟩ := List.exists_cons_of_ne_nil hw
      rcases hl with hi | ⟨ds, rfl, hd, -⟩
      · exact (hwhole c cs rfl (int?_eq_some_iff.1 hi).1 rfl).elim
      · obtain ⟨d, ds, rfl⟩ := List.exists_cons_of_ne_nil hd
        exact (hplaces c cs d ds rfl rfl rfl).elim

theorem toNumber_eq_int_iff {n : Numeral} {k : Int64} :
    n.toNumber = .int k ↔ n.int? = some (.int k) := by
  unfold toNumber
  cases n.int? <;> simp

theorem toNumber_eq_float_iff {n : Numeral} {x : Float} :
    n.toNumber = .float x ↔ n.int? = none ∧ n.toFloat = x := by
  unfold toNumber
  cases h : n.int? with
  | none => simp
  | some m =>
    obtain ⟨-, -, k, rfl, -⟩ := int?_eq_some_iff.1 h
    simp

theorem exists_toInt_iff {v : Int} :
    (∃ k : Int64, k.toInt = v) ↔ -2 ^ 63 ≤ v ∧ v < 2 ^ 63 := by
  constructor
  · rintro ⟨k, rfl⟩
    exact ⟨k.le_toInt, k.toInt_lt⟩
  · rintro ⟨hl, hu⟩
    exact ⟨Int64.ofInt v, Int64.toInt_ofInt_of_le hl hu⟩

theorem exists_int?_iff {k : Int64} : (∃ n, read? w = some n ∧ n.int? = some (.int k)) ↔
    w ∈ wholeForm.matches' ∧ denoted w = k.toInt := by
  rw [mem_wholeForm]
  constructor
  · rintro ⟨n, hr, hi⟩
    obtain ⟨s, e, rfl, hs, hneg, hm, he⟩ := read?_eq_some_iff.1 hr
    obtain ⟨hp, hx, k', hk, hv⟩ := int?_eq_some_iff.1 hi
    cases hk
    rw [hx] at he
    obtain rfl := eq_nil_of_readExponent? he
    have hn : n.whole ≠ [] := by simpa [hp] using hm.2.2
    rw [hp, withPoint, Option.map_none, Option.getD_none, List.append_nil, List.append_nil,
      ← intOfDigits_eq_denoted hs hn hm.1, ← hneg]
    exact ⟨⟨s, n.whole, rfl, hs, hn, hm.1⟩, hv.symm⟩
  · rintro ⟨⟨s, ds, rfl, hs, hn, hd⟩, hk⟩
    rw [← intOfDigits_eq_denoted hs hn hd] at hk
    refine ⟨⟨decide (s = ['-']), ds, none, none⟩, read?_eq_some_iff.2 ⟨s, [], ?_⟩,
      int?_eq_some_iff.2 ⟨rfl, rfl, k, rfl, hk.symm⟩⟩
    exact ⟨by simp [withPoint], hs, rfl, ⟨hd, by simp, .inl hn⟩, rfl⟩

end

end Numeral

namespace Value

open Numeral

theorem readNumber_eq_ok_iff {s : String} {m : Number} :
    readNumber s = .ok m ↔ ∃ n, Numeral.read? s.toList = some n ∧ n.toNumber = m := by
  unfold readNumber Number.read?
  cases Numeral.read? s.toList <;> simp

theorem readNumber_eq_error_iff {s : String} {e : ValueError} :
    readNumber s = .error e ↔ Numeral.read? s.toList = none ∧ e = .notNumeric s := by
  unfold readNumber Number.read?
  cases Numeral.read? s.toList <;> simp [eq_comm]

/-- A text is read as an integer just when it is a sign and digits and fits in a word, as a float,
which is no NaN, when it is any other numeral, and nothing else is read. -/
theorem readNumber_by_grammar (s : String) :
    (∀ k : Int64, readNumber s = .ok (.int k) ↔
      s.toList ∈ wholeForm.matches' ∧ denoted s.toList = k.toInt) ∧
    ((∃ x, readNumber s = .ok (.float x)) ↔
      s.toList ∈ numeralForm.matches' ∧
        ¬(s.toList ∈ wholeForm.matches' ∧
          -2 ^ 63 ≤ denoted s.toList ∧ denoted s.toList < 2 ^ 63)) ∧
    (∀ x, readNumber s = .ok (.float x) → Binary.ofFloat x ≠ .nan) ∧
    (∀ e, readNumber s = .error e ↔
      s.toList ∉ numeralForm.matches' ∧ e = .notNumeric s) := by
  refine ⟨fun k => ?_, ?_, fun x hx => ?_, fun e => ?_⟩
  · rw [← exists_int?_iff, readNumber_eq_ok_iff]
    exact exists_congr fun n => and_congr_right fun _ => toNumber_eq_int_iff
  · simp only [readNumber_eq_ok_iff, toNumber_eq_float_iff, ← exists_toInt_iff]
    constructor
    · rintro ⟨x, n, hr, hi, -⟩
      refine ⟨readNumeral_isSome_iff.1 (Option.isSome_iff_exists.2 ⟨n, hr⟩), ?_⟩
      rintro ⟨hw, k, hk⟩
      obtain ⟨n', hr', hi'⟩ := exists_int?_iff.2 ⟨hw, hk.symm⟩
      rw [hr] at hr'
      cases hr'
      rw [hi] at hi'
      contradiction
    · rintro ⟨hn, hw⟩
      obtain ⟨n, hr⟩ := Option.isSome_iff_exists.1 (readNumeral_isSome_iff.2 hn)
      refine ⟨n.toFloat, n, hr, ?_, rfl⟩
      rw [Option.eq_none_iff_forall_ne_some]
      intro m hi
      obtain ⟨-, -, k, rfl, -⟩ := int?_eq_some_iff.1 hi
      obtain ⟨hform, hk⟩ := exists_int?_iff.1 ⟨n, hr, hi⟩
      exact hw ⟨hform, k, hk.symm⟩
  · obtain ⟨n, -, hn⟩ := readNumber_eq_ok_iff.1 hx
    rw [← (toNumber_eq_float_iff.1 hn).2]
    exact n.ofFloat_toFloat_ne_nan
  · rw [← readNumeral_isSome_iff, Bool.not_eq_true, Option.isSome_eq_false_iff,
      Option.isNone_iff_eq_none]
    exact readNumber_eq_error_iff

end Value

end Stencil
