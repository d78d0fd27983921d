import Stencil.Proofs.Number.Grammar
import Stencil.Proofs.Token.Places
import Stencil.Proofs.Token.Spelling

set_option autoImplicit false

namespace Stencil

theorem Position.line_after {cs : List Char} (h : '\n' ∉ cs) (p : Position) :
    (p.after cs).line = p.line := by
  induction cs generalizing p with
  | nil => rfl
  | cons c cs ih =>
    rw [List.mem_cons, not_or] at h
    exact (ih h.2 (p.step c)).trans (by rw [step, if_neg (Ne.symm h.1)])

open Numeral in
theorem toNumber_of_literal? {w : Numeral} {n : Number} (h : w.literal? = some n) :
    w.toNumber = n := by
  obtain ⟨-, -, hi | ⟨ds, hp, -, rfl⟩⟩ := literal?_eq_some_iff.1 h
  · rw [toNumber, hi]
    rfl
  · rw [toNumber, int?, hp]
    rfl

namespace Value

open Numeral

theorem readNumber_of_literal? {s : String} {n : Number}
    (h : (read? s.toList).bind literal? = some n) : readNumber s = .ok n := by
  obtain ⟨w, hr, hl⟩ := Option.bind_eq_some_iff.1 h
  exact readNumber_eq_ok_iff.2 ⟨w, hr, toNumber_of_literal? hl⟩

theorem spells_of_readNumber {t : String} {k : Int64} (h : readNumber t = .ok (.int k))
    (hp : t.toList.head? ≠ some '+') : Spells t.toList (.int k) := by
  obtain ⟨w, hr, hn⟩ := readNumber_eq_ok_iff.1 h
  have hi := toNumber_eq_int_iff.1 hn
  obtain ⟨hplaces, hexponent, -⟩ := int?_eq_some_iff.1 hi
  obtain ⟨s, e, ht, hs, hneg, hm, he⟩ := read?_eq_some_iff.1 hr
  obtain ⟨negative, whole, places, exponent⟩ := w
  dsimp only at hplaces hexponent hm he ht hneg
  subst hplaces hexponent
  have hw : whole ≠ [] := by simpa using hm.2.2
  obtain rfl := eq_nil_of_readExponent? he
  have hsign : s = Binary.sign negative := by
    rw [hneg]
    rcases mem_signForm.1 hs with rfl | rfl | rfl
    · rfl
    · simp [ht] at hp
    · rfl
  have hplain : t.toList = plain negative whole none := by
    rw [ht, hsign, plain]
    simp [withPoint]
  rw [hplain]
  refine .plain hw hm.1 (by simp) ?_
  obtain ⟨c, cs, rfl⟩ := List.exists_cons_of_ne_nil hw
  exact hi

end Value

namespace Lexer

open Value

variable {l m : Lexer} {p : Placed} {t : List Char} {n : Number}

theorem next_literal {ds : List Char} (h : Spells t n) (hd : BreaksOff isNumeric ds)
    (q : Position) (name : Bool) :
    next ⟨t ++ ds, q, .tag, name⟩ = (.ok ⟨.number n, q⟩, ⟨ds, q.after t, .tag, false⟩) :=
  (Reads.item Blanks.none.2 (.number (numberWord_of_spells h hd) (literal?_of_spells h))).next q

theorem passes_text (h : l.next = (.ok p, m)) (ht : l.rest = l.blanks ++ (t ++ m.rest)) :
    l.Passes m (l.blanks ++ t) ∧ p.position = l.position.after l.blanks ∧
      p.token.ReadFrom t m.rest := by
  obtain ⟨cs, hm, hp, hr⟩ := passes_of_next h
  have hcs : t ++ m.rest = cs ++ m.rest := by
    have hrest := ht.symm.trans hm.1
    rwa [List.append_assoc, List.append_cancel_left_eq] at hrest
  rw [List.append_cancel_right hcs]
  exact ⟨hm, hp, hr⟩

theorem literal_of_next (h : l.next = (.ok p, m)) (hp : p.token = .number n)
    (ht : l.rest = l.blanks ++ (t ++ m.rest)) :
    (Numeral.read? t).bind Numeral.literal? = some n := by
  have hr := (passes_text h ht).2.2
  rwa [hp] at hr

theorem readNumber_of_next {s : String} (h : l.next = (.ok p, m)) (hp : p.token = .number n)
    (ht : l.rest = l.blanks ++ (s.toList ++ m.rest)) : readNumber s = .ok n :=
  readNumber_of_literal? (literal_of_next h hp ht)

theorem mem_literal {w : Numeral} (hr : Numeral.read? t = some w) (hl : w.literal? = some n) :
    ∀ c ∈ t, c.isDigit = true ∨ c = '+' ∨ c = '-' ∨ c = '.' := by
  obtain ⟨s, e, rfl, hs, -, ⟨hw, hp, -⟩, he⟩ := Numeral.read?_eq_some_iff.1 hr
  rw [(Numeral.literal?_eq_some_iff.1 hl).2.1] at he
  obtain rfl := Numeral.eq_nil_of_readExponent? he
  intro c hc
  simp only [List.append_nil, List.mem_append] at hc
  rcases hc with hc | hc | hc
  · rcases Numeral.mem_signForm.1 hs with rfl | rfl | rfl
    · contradiction
    · exact .inr (.inl (List.mem_singleton.1 hc))
    · exact .inr (.inr (.inl (List.mem_singleton.1 hc)))
  · exact .inl (hw c hc)
  · cases hd : w.places with
    | none => simp [hd, Numeral.withPoint] at hc
    | some ds =>
      rw [hd] at hc
      rcases List.mem_cons.1 hc with rfl | hc
      · exact .inr (.inr (.inr rfl))
      · exact .inl (hp ds hd c hc)

theorem notMem_literal {w : Numeral} (hr : Numeral.read? t = some w) (hl : w.literal? = some n)
    {c : Char} (hc : c.isDigit = false ∧ c ≠ '+' ∧ c ≠ '-' ∧ c ≠ '.') : c ∉ t := by
  intro ht
  have h := mem_literal hr hl c ht
  simp [hc] at h

theorem flatMap_escape_literal {w : Numeral} (hr : Numeral.read? t = some w)
    (hl : w.literal? = some n) : t.flatMap Element.escape = t := by
  have he : ∀ c ∈ t, Element.escape c = [c] := by
    intro c hc
    have hne {d : Char} (hd : d.isDigit = false ∧ d ≠ '+' ∧ d ≠ '-' ∧ d ≠ '.') : c ≠ d :=
      ne_of_mem_of_not_mem hc (notMem_literal hr hl hd)
    have hq : c ≠ '"' := hne (by decide)
    have hb : c ≠ '\\' := hne (by decide)
    have hn : c ≠ '\n' := hne (by decide)
    have hr : c ≠ '\r' := hne (by decide)
    have ht : c ≠ '\t' := hne (by decide)
    simp [Element.escape, hq, hb, hn, hr, ht]
  rw [List.flatMap_congr he, List.flatMap_singleton']

theorem next_quoted (h : l.next = (.ok p, m)) (hp : p.token = .number n)
    (ht : l.rest = l.blanks ++ (t ++ m.rest)) :
    next { l with rest := l.blanks ++ ('"' :: (t ++ ['"']) ++ m.rest) } =
      (.ok ⟨.string (String.ofList t), p.position⟩,
        m.moved (p.position.after ('"' :: (t ++ ['"'])))) := by
  have hmode : l.mode = .tag := by
    cases hmode : l.mode with
    | tag => rfl
    | text => rcases next_between_tags hmode h with ⟨h, -⟩ | ⟨h, -⟩ | ⟨s, h, -⟩ <;> simp [hp] at h
  obtain ⟨hname, hm⟩ := next_in_tag hmode h
  have hm : m.mode = .tag := by simpa [hp, Token.isItem] using hm
  obtain ⟨-, hpos, -⟩ := passes_text h ht
  obtain ⟨w, hr, hl⟩ := Option.bind_eq_some_iff.1 (literal_of_next h hp ht)
  have hs : ReadsInTag l.expectsName [] ('"' :: (t ++ ['"'])) m.rest
      (.ok (.string (String.ofList t))) := by
    have hrun := stringRun_escapes t
    rw [flatMap_escape_literal hr hl] at hrun
    exact .string hrun
  have hn := (Reads.item l.allBlank_blanks hs).next l.position
  rw [Reading.step, ← hpos] at hn
  rw [hmode, moved, hm, hname]
  exact hn

theorem line_after_quoted (h : l.next = (.ok p, m)) (hp : p.token = .number n)
    (ht : l.rest = l.blanks ++ (t ++ m.rest)) :
    m.position.SameLine (p.position.after ('"' :: (t ++ ['"']))) := by
  obtain ⟨w, hr, hl⟩ := Option.bind_eq_some_iff.1 (literal_of_next h hp ht)
  obtain ⟨hm, hpos, -⟩ := passes_text h ht
  have hn : '\n' ∉ t := notMem_literal hr hl (by decide)
  rw [Position.SameLine, hm.2, Position.after_append, ← hpos, Position.line_after hn,
    Position.line_after (by simp [hn])]

theorem Gives.quoted {before after : List Char} {ps : List Placed}
    (hg : Gives (ofChars (before ++ (t ++ after)) .text) ps l) (h : l.next = (.ok p, m))
    (hp : p.token = .number n) (ht : l.rest = l.blanks ++ (t ++ m.rest)) (ha : m.rest = after) :
    ∃ l' q, Gives (ofChars (before ++ ('"' :: (t ++ ['"']) ++ after)) .text) ps l' ∧
      l'.next = (.ok ⟨.string (String.ofList t), p.position⟩, m.moved q) ∧
      m.position.SameLine q := by
  subst ha
  obtain ⟨w, hr, hl⟩ := Option.bind_eq_some_iff.1 (literal_of_next h hp ht)
  obtain ⟨c, cs, rfl⟩ : ∃ c cs, t = c :: cs := by
    refine List.exists_cons_of_ne_nil ?_
    rintro rfl
    have hn : Numeral.read? [] = none := rfl
    rw [hn] at hr
    contradiction
  have hc {d : Char} (hd : d.isDigit = false ∧ d ≠ '+' ∧ d ≠ '-' ∧ d ≠ '.') : c ≠ d :=
    ne_of_mem_of_not_mem List.mem_cons_self (notMem_literal hr hl hd)
  have hx : Untagged (c :: cs ++ m.rest) := .of_head (hc (by decide)) (hc (by decide)) _
  have hy : BreaksOff isNumeric ('"' :: (c :: cs ++ ['"']) ++ m.rest) := by
    rw [List.cons_append, breaksOff_cons]
    rfl
  -- What is before the literal is read without looking at it, and so before its quote.
  let k : Lexer := ⟨l.blanks, l.position, l.mode, l.expectsName⟩
  have hk : l = k.extend (c :: cs ++ m.rest) := by
    rw [Lexer.extend, ← ht]
  rw [hk] at hg
  exact ⟨_, _, Gives.exchange (l := ofChars before .text) hx hy (List.cons_ne_nil _ _) hg,
    next_quoted h hp ht, line_after_quoted h hp ht⟩

end Lexer

namespace Numeral

def IsPointed (run whole places : List Char) : Prop :=
  run = whole ++ '.' :: places ∧ whole ≠ [] ∧ AllDigits whole ∧ places ≠ [] ∧ AllDigits places

/-- The number that a sign and the characters after it make as a literal. -/
inductive Makes (negative : Bool) (run : List Char) : Number → Prop where
  | whole {k : Int64} : AllDigits run → denoted (Binary.sign negative ++ run) = k.toInt →
    Makes negative run (.int k)
  | pointed {whole places : List Char} : IsPointed run whole places →
    Makes negative run (.float (toFloat ⟨negative, whole, some places, none⟩))

variable {negative : Bool} {run : List Char} {n : Number}

theorem Makes.isDigit_or (h : Makes negative run n) : ∀ c ∈ run, c.isDigit = true ∨ c = '.' := by
  cases h with
  | whole hd => exact fun c hc => .inl (hd c hc)
  | pointed h =>
    obtain ⟨rfl, -, hw, -, hp⟩ := h
    intro c hc
    rcases List.mem_append.1 hc with hc | hc
    · exact .inl (hw c hc)
    · rcases List.mem_cons.1 hc with rfl | hc
      · exact .inr rfl
      · exact .inl (hp c hc)

theorem denoted_sign (hn : run ≠ []) (hd : AllDigits run) :
    denoted (Binary.sign negative ++ run) = intOfDigits negative run := by
  rw [← intOfDigits_eq_denoted (sign_mem_signForm negative) hn hd, decide_sign]

theorem read?_sign_eq_some_iff (hd : ∃ d ∈ run.head?, d.isDigit = true) {w : Numeral} :
    read? (Binary.sign negative ++ run) = some w ↔
      w.negative = negative ∧ ∃ e, run = w.whole ++ (withPoint w.places ++ e) ∧
        IsMantissa w.whole w.places ∧ readExponent? e = some w.exponent := by
  obtain ⟨d, hd, hdigit⟩ := hd
  have hne : ∀ c ∈ run.head?, c ≠ '+' ∧ c ≠ '-' := by
    intro c hc
    cases Option.mem_unique hc hd
    exact ⟨(ne_of_isDigit hdigit).1, (ne_of_isDigit hdigit).2.1⟩
  rw [read?_eq_some_iff]
  constructor
  · rintro ⟨s, e, hw, hs, hneg, hm, he⟩
    have hr := readSign_append (sign_mem_signForm negative) hne
    rw [hw, readSign_append hs (hm.head?_ne e), ← hneg, decide_sign] at hr
    obtain ⟨hn, hrun⟩ := Prod.ext_iff.1 hr
    exact ⟨hn, e, hrun.symm, hm, he⟩
  · rintro ⟨hneg, e, hrun, hm, he⟩
    exact ⟨Binary.sign negative, e, by rw [← hrun], sign_mem_signForm negative,
      by rw [decide_sign, hneg], hm, he⟩

theorem makes_of_literal (hd : ∃ d ∈ run.head?, d.isDigit = true)
    (h : (read? (Binary.sign negative ++ run)).bind literal? = some n) : Makes negative run n := by
  have hrun : run ≠ [] := by
    rintro rfl
    simp at hd
  obtain ⟨⟨_, whole, places, exponent⟩, hr, hl⟩ := Option.bind_eq_some_iff.1 h
  obtain ⟨hn, e, rfl, hm, he⟩ := (read?_sign_eq_some_iff hd).1 hr
  obtain ⟨hw, hx, hl⟩ := literal?_eq_some_iff.1 hl
  dsimp only at hn hm he hw hx hl hrun
  subst hn hx
  obtain rfl := eq_nil_of_readExponent? he
  rcases hl with hi | ⟨ds, hp, hds, rfl⟩
  · obtain ⟨hp, -, k, rfl, hk⟩ := int?_eq_some_iff.1 hi
    dsimp only at hp hk
    subst hp
    simp only [withPoint, Option.map_none, Option.getD_none, List.append_nil] at hrun ⊢
    exact .whole hm.1 (by rw [denoted_sign hrun hm.1, hk])
  · subst hp
    exact .pointed ⟨by simp [withPoint], hw, hm.1, hds, hm.2.1 ds rfl⟩

theorem Makes.literal (h : Makes negative run n) (hrun : run ≠ []) :
    (read? (Binary.sign negative ++ run)).bind literal? = some n := by
  cases h with
  | whole hd hk =>
    have hr := @read?_plain negative run none hd hrun (by simp)
    rw [plain, Option.map_none, Option.getD_none, List.append_nil] at hr
    rw [denoted_sign hrun hd] at hk
    rw [hr, Option.bind_some]
    have hi : int? ⟨negative, run, none, none⟩ = some (.int _) :=
      int?_eq_some_iff.2 ⟨rfl, rfl, _, rfl, hk.symm⟩
    exact literal?_eq_some_iff.2 ⟨hrun, rfl, .inl hi⟩
  | @pointed whole places h =>
    obtain ⟨rfl, hw, hwd, hp, hpd⟩ := h
    have hr := @read?_plain negative whole (some places) hwd hw (by simpa using hpd)
    rw [plain, List.append_assoc] at hr
    change read? (Binary.sign negative ++ (whole ++ '.' :: places)) = _ at hr
    rw [hr, Option.bind_some]
    exact literal?_eq_some_iff.2 ⟨hw, rfl, .inr ⟨places, rfl, hp, rfl⟩⟩

theorem literal_iff_makes (hd : ∃ d ∈ run.head?, d.isDigit = true) :
    (read? (Binary.sign negative ++ run)).bind literal? = some n ↔ Makes negative run n := by
  refine ⟨makes_of_literal hd, fun h => h.literal ?_⟩
  rintro rfl
  simp at hd

end Numeral

def Text.InNumber (c : Char) : Prop :=
  c = '.' ∨ c = '_' ∨ isLetter c = true ∨ numeric.contains c = true

instance : DecidablePred Text.InNumber := fun _ => inferInstanceAs (Decidable (_ ∨ _))

namespace Lexer

theorem decide_inNumber : (decide <| Text.InNumber ·) = isNumeric := by
  funext c
  rw [Bool.eq_iff_iff, decide_eq_true_iff]
  simp only [Text.InNumber, isNumeric, Text.isWord, Bool.or_eq_true, beq_iff_eq]
  tauto

theorem exists_cons_of_isDigit {cs : List Char} (h : ∃ d ∈ cs.head?, d.isDigit = true) :
    ∃ d ds, cs = d :: ds ∧ d.isDigit = true ∧ isNumeric d = true := by
  obtain ⟨d, hd, hdigit⟩ := h
  obtain ⟨ds, hcs⟩ := List.head?_eq_some_iff.1 hd
  exact ⟨d, ds, hcs, hdigit, by simp [isNumeric, Text.isWord_of_isDigit hdigit]⟩

end Lexer

end Stencil
