import Stencil.Proofs.Token.Spelling
import Stencil.Proofs.Tree.Derivation
import Stencil.Proofs.Tree.Shape

set_option autoImplicit false

namespace Stencil

namespace Element

def isNaN : Element → Bool
  | .number n => n.isNaN
  | _ => false

theorem alike_self {e : Element} (h : e.isNaN = false) : e.alike e = true := by
  cases e with
  | number n =>
    cases n with
    | int n => simp [alike, Number.alike]
    | float x => exact Binary.beq_self (by simpa [isNaN, Number.isNaN] using h)
  | _ => simp [alike]

end Element

theorem Header.alike_self {h : Header} (hb : ∀ e ∈ h.bounds, e.isNaN = false) :
    h.alike h = true := by
  obtain ⟨v, a, b, s⟩ := h
  have ha := Element.alike_self (hb a (by simp [bounds]))
  have hb' := Element.alike_self (hb b (by simp [bounds]))
  cases s with
  | none => simp [alike, ha, hb']
  | some s => simp [alike, ha, hb', Element.alike_self (hb s (by simp [bounds]))]

theorem elementsAlike_self {es : List Element} (h : ∀ e ∈ es, e.isNaN = false) :
    elementsAlike es es = true := by
  induction es with
  | nil => rfl
  | cons e es ih =>
    rw [elementsAlike, Element.alike_self (h e (by simp)), ih fun d hd => h d (by simp [hd])]
    rfl

namespace Node

mutual

theorem alike_self : ∀ (t : Node), (∀ e ∈ t.elements, e.isNaN = false) → t.alike t = true
  | .document children, h => by
    rw [alike]
    exact allAlike_self children h
  | .text s, _ => by simp [alike]
  | .loop header body, h => by
    simp only [elements, Header.arguments, List.forall_mem_append, List.forall_mem_cons] at h
    rw [alike, Header.alike_self h.1.2, allAlike_self body h.2]
    rfl
  | .echo es, h => by
    rw [alike]
    exact elementsAlike_self h

theorem allAlike_self : ∀ (ns : List Node),
    (∀ e ∈ elementsOfAll ns, e.isNaN = false) → allAlike ns ns = true
  | [], _ => rfl
  | n :: ns, h => by
    simp only [elementsOfAll, List.forall_mem_append] at h
    rw [allAlike, alike_self n h.1, allAlike_self ns h.2]
    rfl

end

end Node

namespace IsElement

theorem given {t : Token} {e : Element} (h : IsElement t e) (ht : t.isGiven = true) :
    e.isNamed = true ∧ e.isNaN = false := by
  cases h with
  | number n => exact ⟨rfl, by simpa [Token.isGiven, Element.isNaN] using ht⟩
  | string s => exact ⟨rfl, rfl⟩
  | «variable» name => exact ⟨ht, rfl⟩
  | function name => exact ⟨ht, rfl⟩
  | operator op => exact ⟨rfl, rfl⟩

end IsElement

theorem IsBound.isElement {t : Token} {e : Element} (h : IsBound t e) : IsElement t e := by
  cases h with
  | number n => exact .number n
  | «variable» name => exact .variable name
  | string _ => exact .string _

theorem IsBound.isBound {t : Token} {e : Element} (h : IsBound t e) : e.isBound = true := by
  cases h with
  | number n => rfl
  | «variable» name => rfl
  | string hs => exact hs

theorem forall₂_given {ts : List Token} {es : List Element} (h : List.Forall₂ IsElement ts es)
    (ht : ∀ t ∈ ts, t.isGiven = true) : ∀ e ∈ es, e.isNamed = true ∧ e.isNaN = false := by
  induction h with
  | nil => simp
  | cons he _ ih =>
    rw [List.forall_mem_cons] at ht ⊢
    exact ⟨he.given ht.1, ih ht.2⟩

namespace IsHeader

theorem forall₂ {ts : List Token} {h : Header} (hh : IsHeader ts h) :
    List.Forall₂ IsElement ts h.arguments := by
  cases hh with
  | two ha hb => exact .cons (.variable _) (.cons ha.isElement (.cons hb.isElement .nil))
  | three ha hb hs =>
    exact .cons (.variable _)
      (.cons ha.isElement (.cons hb.isElement (.cons hs.isElement .nil)))

theorem isBound {ts : List Token} {h : Header} (hh : IsHeader ts h) :
    ∀ e ∈ h.bounds, e.isBound = true := by
  cases hh with
  | two ha hb => simp [Header.bounds, ha.isBound, hb.isBound]
  | three ha hb hs => simp [Header.bounds, ha.isBound, hb.isBound, hs.isBound]

end IsHeader

namespace Items

open Node

theorem startsText {ts : List Token} {ns : List Node} {t : Token} (h : Items ts ns)
    (ht : t.isText = true) (hc : (t :: ts).IsChain Lexer.Apart) : startsText ns = false := by
  cases h with
  | nil => rfl
  | text _ => simpa [Token.isText] using (List.isChain_cons_cons.1 hc).1 ht
  | echo _ _ => rfl
  | loop _ _ _ => rfl

theorem tidy {ts : List Token} {ns : List Node} (h : Items ts ns)
    (hg : ∀ t ∈ ts, t.isGiven = true) (hc : ts.IsChain Lexer.Apart) : Tidy ns := by
  induction h with
  | nil => exact .nil
  | text hi ih =>
    rw [List.forall_mem_cons] at hg
    exact .text (by simpa [Token.isGiven] using hg.1) (hi.startsText rfl hc) (ih hg.2 hc.tail)
  | echo _ _ ih =>
    rw [List.forall_mem_append] at hg
    exact .echo (ih hg.2 hc.right_of_append)
  | loop _ _ _ ihb ih =>
    simp only [List.forall_mem_append] at hg
    have hr := hc.right_of_append
    exact .loop (ihb hg.2.1 hr.left_of_append)
      (ih hg.2.2.2 hr.right_of_append.right_of_append)

theorem given {ts : List Token} {ns : List Node} (h : Items ts ns)
    (hg : ∀ t ∈ ts, t.isGiven = true) :
    ∀ e ∈ elementsOfAll ns, e.isNamed = true ∧ e.isNaN = false := by
  induction h with
  | nil => simp [elementsOfAll]
  | text _ ih =>
    rw [List.forall_mem_cons] at hg
    exact ih hg.2
  | echo ha _ ih =>
    simp only [tagTokens, List.cons_append, List.forall_mem_cons, List.forall_mem_append] at hg
    simp only [elementsOfAll, elements, List.forall_mem_append]
    exact ⟨forall₂_given ha hg.2.2.1.1, ih hg.2.2.2⟩
  | loop ha _ _ ihb ih =>
    simp only [tagTokens, List.cons_append, List.forall_mem_cons, List.forall_mem_append] at hg
    simp only [elementsOfAll, elements, List.forall_mem_append]
    exact ⟨⟨forall₂_given ha.forall₂ hg.2.2.1.1, ihb hg.2.2.2.1⟩, ih hg.2.2.2.2.2.2.2⟩

theorem isBound {ts : List Token} {ns : List Node} (h : Items ts ns) :
    ∀ e ∈ boundsOfAll ns, e.isBound = true := by
  induction h with
  | nil => simp [boundsOfAll]
  | text _ ih => exact ih
  | echo _ _ ih => exact ih
  | loop ha _ _ ihb ih =>
    simp only [boundsOfAll, bounds, List.forall_mem_append]
    exact ⟨⟨ha.isBound, ihb⟩, ih⟩

theorem wireAll_ne_nil {ts : List Token} {ns : List Node} (h : Items ts ns) (hn : ts ≠ [])
    (ht : Tidy ns) : wireAll ns ≠ [] := by
  cases h with
  | nil => contradiction
  | @text s ts ns hi =>
    cases ht with
    | text hs =>
      obtain ⟨c, cs, hc⟩ := List.exists_cons_of_ne_nil (l := s.toList) (by simpa using hs)
      simp only [wireAll, wire, hc, escapeText, List.flatMap_cons]
      split <;> simp
  | echo _ _ => simp [wireAll, wire, echoWire]
  | loop _ _ _ => simp [wireAll, wire, Header.wire]

end Items

namespace Lexes

theorem ne_nil {source : List Char} {ts : List Token} (h : Lexes source ts) (hs : source ≠ []) :
    ts ≠ [] := by
  rintro rfl
  obtain ⟨ps, m, hp, hg, hr, -⟩ := h.gives
  obtain rfl := List.map_eq_nil_iff.1 hp
  cases hg
  exact hs hr

theorem given {source : List Char} {ts : List Token} (h : Lexes source ts) :
    (∀ t ∈ ts, t.isGiven = true) ∧ ts.IsChain Lexer.Apart := by
  obtain ⟨ps, m, rfl, hg, -⟩ := h.gives
  simpa using hg.given

end Lexes

/-- What holds of every tree that is parsed. -/
structure Node.Parsed (t : Node) : Prop where
  isTidy : t.IsTidy
  nonempty : t.wire ≠ []
  named : ∀ e ∈ t.elements, e.isNamed = true
  notNaN : ∀ e ∈ t.elements, e.isNaN = false
  isBound : ∀ e ∈ t.bounds, e.isBound = true

theorem parsed_of_ofChars {source : List Char} {t : Node} (h : Node.ofChars source = .ok t) :
    t.Parsed := by
  obtain ⟨hs, ts, ns, rfl, hl, hi⟩ := items_of_ofChars_eq_ok h
  obtain ⟨hg, hc⟩ := hl.given
  have ht := hi.tidy hg hc
  exact ⟨⟨ns, rfl, ht⟩, hi.wireAll_ne_nil (hl.ne_nil hs) ht, fun e he => (hi.given hg e he).1,
    fun e he => (hi.given hg e he).2, hi.isBound⟩

end Stencil
