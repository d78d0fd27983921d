import Stencil.Proofs.Settings.Script

set_option autoImplicit false

namespace Stencil

namespace Assignment

variable {n v : List Char}

structure Unbroken (n : List Char) : Prop where
  ne_nil : n ≠ []
  equals_notMem : '=' ∉ n
  any_isBlank : n.any Text.isBlank = false

namespace Unbroken

theorem isBlank (h : Unbroken n) {c : Char} (hc : c ∈ n) : Text.isBlank c = false :=
  Bool.not_eq_true _ ▸ List.any_eq_false.1 h.any_isBlank c hc

theorem isSeparator (h : Unbroken n) {c : Char} (hc : c ∈ n) : isSeparator c = false := by
  rw [Bool.eq_false_iff]
  intro hs
  rcases Bool.or_eq_true_iff.1 hs with he | hs
  · exact h.equals_notMem (beq_iff_eq.1 he ▸ hc)
  · have hb := h.isBlank hc
    rw [Text.isBlank_of_isSpacer hs] at hb
    contradiction

theorem trimmed (h : Unbroken n) (hv : Text.Trimmed v) : Text.Trimmed (n ++ '=' :: v) := by
  refine .append h.ne_nil (List.cons_ne_nil _ _) ?_ ?_
  · rw [Option.any_eq_false]
    intro c hc
    exact Bool.not_eq_true _ ▸ h.isBlank (List.mem_of_mem_head? hc)
  · have hl := hv.last
    rw [List.getLast?_cons]
    cases h : v.getLast? with
    | none => decide
    | some d =>
      rw [h] at hl
      exact hl

end Unbroken

theorem split?_append (hn : Unbroken n) (hv : Text.Trimmed v) :
    split? (n ++ '=' :: v) = some (n, Text.trim (stripEquals v)) := by
  have hw : (n ++ '=' :: v).takeWhile (!isSeparator ·) = n := by
    rw [List.takeWhile_append_of_pos (fun c hc => by simp [hn.isSeparator hc]),
      List.takeWhile_cons_of_neg (by decide), List.append_nil]
  rw [split?]
  simp only [(hn.trimmed hv).trim_eq, hw, List.drop_left, if_neg hn.ne_nil,
    Text.trimStart_of_head? hv.first]

theorem stripEquals_of_head? (h : v.head? ≠ some '=') : stripEquals v = v := by
  fun_cases stripEquals v with
  | case1 w => exact absurd rfl h
  | case2 v hv => rfl

theorem split?_of_head? (hn : Unbroken n) (hv : Text.Trimmed v) (he : v.head? ≠ some '=') :
    split? (n ++ '=' :: v) = some (n, v) := by
  rw [split?_append hn hv, stripEquals_of_head? he, hv.trim_eq]

/-- What stands behind the equals sign is the value as it is, unless it begins with an equals sign
itself: then that one is lost, and the blanks after it. -/
theorem split?_equals (hn : Unbroken n) (hv : Text.Trimmed v) :
    (split? (n ++ '=' :: v) = some (n, v) ↔ v.head? ≠ some '=') ∧
      ∀ w, v = '=' :: w → split? (n ++ '=' :: v) = some (n, Text.trim w) := by
  have hs := split?_append hn hv
  have hw : ∀ w, v = '=' :: w → split? (n ++ '=' :: v) = some (n, Text.trim w) := by
    rintro w rfl
    exact hs
  refine ⟨⟨fun h hv' => ?_, fun h => ?_⟩, hw⟩
  · obtain ⟨w, rfl⟩ := List.head?_eq_some_iff.1 hv'
    rw [hw w rfl] at h
    have hl := (Text.trim_sublist w).length_le
    rw [(Prod.mk.inj (Option.some.inj h)).2, List.length_cons] at hl
    omega
  · rw [hs, stripEquals_of_head? h, hv.trim_eq]

theorem split?_equals_inside :
    split? "eq=x==y".toList = some ("eq".toList, "x==y".toList) ∧
      split? "eq== y".toList = some ("eq".toList, "y".toList) := by
  have hn : Unbroken "eq".toList := ⟨by decide, by decide, by decide⟩
  refine ⟨(split?_equals hn (v := "x==y".toList) ⟨by decide, by decide⟩).1.2 (by decide), ?_⟩
  exact (split?_equals hn (v := "= y".toList) ⟨by decide, by decide⟩).2 " y".toList rfl

theorem equals_lost : ¬∀ n v : List Char, Unbroken n → Text.Trimmed v →
    split? (n ++ '=' :: v) = some (n, v) := by
  intro h
  have hv := h ['n'] ['=', 'v'] ⟨by decide, by decide, by decide⟩ ⟨by decide, by decide⟩
  exact absurd hv (by decide)

/-- Digits of a positive number that fits in a word, after one plus at most. -/
def IsCount (text : List Char) (n : Nat) : Prop :=
  ∃ plus ds, text = plus ++ ds ∧ (plus = [] ∨ plus = ['+']) ∧ ds ≠ [] ∧
    ds.all Char.isDigit = true ∧ natOfDigits ds = n ∧ 0 < n ∧ n < UInt64.size

def unsigned : List Char → List Char
  | '+' :: ds => ds
  | ds => ds

theorem exists_unsigned (text : List Char) :
    ∃ plus, text = plus ++ unsigned text ∧ (plus = [] ∨ plus = ['+']) := by
  fun_cases unsigned text with
  | case1 ds => exact ⟨['+'], rfl, .inr rfl⟩
  | case2 ds h => exact ⟨[], rfl, .inl rfl⟩

theorem unsigned_digits {ds : List Char} (h : ds.all Char.isDigit = true) : unsigned ds = ds := by
  fun_cases unsigned ds with
  | case1 ds => cases h
  | case2 ds h => rfl

theorem positiveCount?_eq_some_iff {text : List Char} {n : Nat} :
    positiveCount? text = some n ↔ IsCount text n := by
  have hc : count? text = if unsigned text ≠ [] ∧ (unsigned text).all Char.isDigit ∧
      natOfDigits (unsigned text) < UInt64.size then some (natOfDigits (unsigned text)) else none :=
    rfl
  rw [positiveCount?, Option.filter_eq_some_iff, hc, Option.ite_none_right_eq_some,
    decide_eq_true_eq, Option.some.injEq]
  constructor
  · rintro ⟨⟨⟨hne, hd, hlt⟩, rfl⟩, hpos⟩
    obtain ⟨plus, he, hp⟩ := exists_unsigned text
    exact ⟨plus, unsigned text, he, hp, hne, hd, rfl, hpos, hlt⟩
  · rintro ⟨plus, ds, rfl, hp, hne, hd, rfl, hpos, hlt⟩
    have hu : unsigned (plus ++ ds) = ds := by
      rcases hp with rfl | rfl
      · exact unsigned_digits hd
      · rfl
    rw [hu]
    exact ⟨⟨⟨hne, hd, hlt⟩, rfl⟩, hpos⟩

theorem mem_of_isName (h : isName n = true) {c : Char} (hc : c ∈ n) :
    c.isAlpha = true ∨ c.isDigit = true ∨ c = '_' := by
  match n, h with
  | d :: ds, h =>
    simp only [isName, Bool.and_eq_true, List.all_eq_true, Bool.or_eq_true, beq_iff_eq,
      Char.isAlphanum] at h
    rcases List.mem_cons.1 hc with rfl | hc
    · exact .inl h.1
    · exact or_assoc.1 (h.2 c hc)

theorem unbroken_of_isName (h : isName n = true) : Unbroken n := by
  refine ⟨?_, ?_, ?_⟩
  · rintro rfl
    contradiction
  · intro hm
    have := mem_of_isName h hm
    contradiction
  · rw [List.any_eq_false]
    intro c hc
    rw [Bool.not_eq_true]
    rcases mem_of_isName h hc with ha | hd | rfl
    · exact Text.isBlank_of_isLetter (Text.isLetter_of_isAlpha ha)
    · exact Text.isBlank_of_isDigit hd
    · decide

theorem ofLine?_assigned (hn : Unbroken n) (hv : Text.Trimmed v) (he : v.head? ≠ some '=') :
    Change.ofLine? ("/let ".toList ++ (n ++ '=' :: v)) = some (Change.ofDefinition n v) := by
  have ht := hn.trimmed hv
  have hline : Text.Trimmed ("/let ".toList ++ (n ++ '=' :: v)) :=
    .append (List.cons_ne_nil _ _) (by simp) (by decide) ht.last
  have hc : Configuration.command? ("/let ".toList ++ (n ++ '=' :: v)) =
      some (.define, n ++ '=' :: v) := by
    rw [Configuration.command?, hline.trim_eq]
    exact congrArg (fun text => some (Command.define, text)) ht.trim_eq
  have hd : Change.ofCommand .define (n ++ '=' :: v) = Change.ofDefinition n v := by
    simp only [Change.ofCommand, split?_of_head? hn hv he]
  rw [Change.ofLine?, hc]
  exact congrArg some hd

theorem readLine_assigned (hn : isName n = true) (hv : Text.Trimmed v) (he : v.head? ≠ some '=')
    (c : Configuration) (errors : List LineError) (k : Nat) :
    Configuration.readLine (c, errors) ("/let ".toList ++ (n ++ '=' :: v), k) =
      (c.change (.define (String.ofList n) (literal v)), errors) := by
  have hl := ofLine?_assigned (unbroken_of_isName hn) hv he
  rw [Change.ofDefinition, if_pos hn] at hl
  simp only [Configuration.readLine_eq, Configuration.accepted?, Configuration.error?,
    Configuration.refused?, hl]
  rfl

theorem readLine_refused (hu : Unbroken n) (hn : isName n = false) (hv : Text.Trimmed v)
    (he : v.head? ≠ some '=') (c : Configuration) (errors : List LineError) (k : Nat) :
    Configuration.readLine (c, errors) ("/let ".toList ++ (n ++ '=' :: v), k) =
      (c, ⟨k, .notName (String.ofList n)⟩ :: errors) := by
  have hl := ofLine?_assigned hu hv he
  rw [Change.ofDefinition, hn, if_neg Bool.false_ne_true] at hl
  simp only [Configuration.readLine_eq, Configuration.accepted?, Configuration.error?,
    Configuration.refused?, hl]
  rfl

theorem lines_assigned (hn : Unbroken n) (hv : '\n' ∉ v) :
    Text.lines ("/let ".toList ++ (n ++ '=' :: v)) = ["/let ".toList ++ (n ++ '=' :: v)] := by
  have hname : '\n' ∉ n := fun h => absurd (hn.isBlank h) (by decide)
  have hline : '\n' ∉ "/let ".toList ++ (n ++ '=' :: v) := by
    simp [hname, hv]
  have hl := Text.lines_intercalate (fun l hl => List.mem_singleton.1 hl ▸ hline)
    (List.cons_ne_nil ("/let ".toList ++ (n ++ '=' :: v)) [])
  rwa [List.intercalate_singleton] at hl

theorem ofChars_assigned (hn : Unbroken n) (hv : '\n' ∉ v) {c : Configuration}
    {errors : List LineError}
    (h : Configuration.readLine (.default, []) ("/let ".toList ++ (n ++ '=' :: v), 1) =
      (c, errors)) :
    Configuration.ofChars ("/let ".toList ++ (n ++ '=' :: v)) = (c, errors.reverse) := by
  rw [Configuration.ofChars, lines_assigned hn hv]
  simp only [List.zipIdx_cons, List.zipIdx_nil, List.foldl_cons, List.foldl_nil, h]

end Assignment

end Stencil
