import Mathlib.Data.List.Forall2
import Stencil.Proofs.Prelude
import Stencil.Tree.Parser

set_option autoImplicit false

namespace Stencil

inductive IsElement : Token → Element → Prop where
  | number (n : Number) : IsElement (.number n) (.number n)
  | string (s : String) : IsElement (.string s) (.string s)
  | variable (name : String) : IsElement (.variable name) (.variable name)
  | function (name : String) : IsElement (.function name) (.function name)
  | operator (op : Operator) : IsElement (.operator op.symbol) (.operator op)

inductive IsBound : Token → Element → Prop where
  | number (n : Number) : IsBound (.number n) (.number n)
  | variable (name : String) : IsBound (.variable name) (.variable name)
  | string {s : String} : (Number.read? s.toList).isSome → IsBound (.string s) (.string s)

inductive IsHeader : List Token → Header → Prop where
  | two {v : String} {t u : Token} {a b : Element} :
    IsBound t a → IsBound u b → IsHeader [.variable v, t, u] ⟨v, a, b, none⟩
  | three {v : String} {t u w : Token} {a b s : Element} :
    IsBound t a → IsBound u b → IsBound w s →
    IsHeader [.variable v, t, u, w] ⟨v, a, b, some s⟩

def tagTokens (name : String) (args : List Token) : List Token :=
  .tagOpen :: .tagName name :: (args ++ [.tagClose])

/-- The grammar of documents: what a list of tokens is derived as. -/
inductive Items : List Token → List Node → Prop where
  | nil : Items [] []
  | text {s : String} {ts : List Token} {ns : List Node} :
    Items ts ns → Items (.text s :: ts) (.text s :: ns)
  | echo {args ts : List Token} {es : List Element} {ns : List Node} :
    List.Forall₂ IsElement args es → Items ts ns →
    Items (tagTokens "=" args ++ ts) (.echo es :: ns)
  | loop {args body ts : List Token} {h : Header} {ms ns : List Node} :
    IsHeader args h → Items body ms → Items ts ns →
    Items (tagTokens "FOR" args ++ (body ++ (tagTokens "END" [] ++ ts))) (.loop h ms :: ns)

theorem Items.append {ts us : List Token} {ns ms : List Node} (h : Items ts ns)
    (hu : Items us ms) : Items (ts ++ us) (ns ++ ms) := by
  induction h with
  | nil => exact hu
  | text _ ih => exact .text ih
  | echo ha _ ih =>
    rw [List.append_assoc]
    exact .echo ha ih
  | loop ha hb _ _ ih =>
    simp only [List.append_assoc]
    exact .loop ha hb ih

namespace Operator

theorem ofSymbol?_eq_some_iff {c : Char} {op : Operator} :
    ofSymbol? c = some op ↔ c = op.symbol := by
  constructor
  · intro h
    unfold ofSymbol? at h
    split at h <;> cases h <;> rfl
  · rintro rfl
    cases op <;> rfl

end Operator

namespace Element

theorem ofToken_eq_ok_iff {p : Placed} {e : Element} :
    ofToken p = .ok e ↔ IsElement p.token e := by
  obtain ⟨t, q⟩ := p
  constructor
  · intro h
    cases t with
    | number n => cases h; exact .number n
    | string s => cases h; exact .string s
    | «variable» name => cases h; exact .variable name
    | function name => cases h; exact .function name
    | operator c =>
      simp only [ofToken] at h
      split at h
      · rename_i op ho
        cases h
        rw [Operator.ofSymbol?_eq_some_iff.1 ho]
        exact .operator op
      · contradiction
    | _ => cases h
  · intro h
    cases h with
    | operator op => simp [ofToken, Operator.ofSymbol?_eq_some_iff.2 rfl]
    | _ => rfl

theorem ofBound_eq_ok_iff {part : LoopPart} {p : Placed} {e : Element} :
    ofBound part p = .ok e ↔ IsBound p.token e := by
  obtain ⟨t, q⟩ := p
  constructor
  · intro h
    cases t with
    | number n => cases h; exact .number n
    | «variable» name => cases h; exact .variable name
    | string s =>
      simp only [ofBound] at h
      split at h
      · rename_i hs
        cases h
        exact .string hs
      · contradiction
    | _ => cases h
  · intro h
    cases h with
    | string hs => simp [ofBound, hs]
    | _ => rfl

theorem mapM_ofToken_eq_ok_iff {ps : List Placed} {es : List Element} :
    ps.mapM ofToken = .ok es ↔ List.Forall₂ IsElement (ps.map (·.token)) es := by
  induction ps generalizing es with
  | nil =>
    simp only [List.mapM_nil, List.map_nil, List.forall₂_nil_left_iff]
    constructor
    · intro h
      cases h
      rfl
    · rintro rfl
      rfl
  | cons p ps ih =>
    rw [List.mapM_cons, List.map_cons, List.forall₂_cons_left_iff]
    constructor
    · intro h
      obtain ⟨e, he, h⟩ := bind_eq_ok h
      obtain ⟨es, hs, h⟩ := bind_eq_ok h
      cases h
      exact ⟨e, es, ofToken_eq_ok_iff.1 he, ih.1 hs, rfl⟩
    · rintro ⟨e, es, he, hs, rfl⟩
      rw [ofToken_eq_ok_iff.2 he, ih.2 hs]
      rfl

end Element

namespace Header

theorem counterOf_eq_ok_iff {p : Placed} {v : String} :
    counterOf p = .ok v ↔ p.token = .variable v := by
  obtain ⟨t, q⟩ := p
  cases t <;> simp [counterOf]

theorem ofArguments_eq_ok_iff {position : Position} {ps : List Placed} {h : Header} :
    ofArguments position ps = .ok h ↔ IsHeader (ps.map (·.token)) h := by
  constructor
  · intro ho
    unfold ofArguments at ho
    split at ho
    · rename_i p q r
      obtain ⟨v, hv, ho⟩ := bind_eq_ok ho
      obtain ⟨a, ha, ho⟩ := bind_eq_ok ho
      obtain ⟨b, hb, ho⟩ := bind_eq_ok ho
      cases ho
      simp only [List.map_cons, List.map_nil, counterOf_eq_ok_iff.1 hv]
      exact .two (Element.ofBound_eq_ok_iff.1 ha) (Element.ofBound_eq_ok_iff.1 hb)
    · rename_i p q r s
      obtain ⟨v, hv, ho⟩ := bind_eq_ok ho
      obtain ⟨a, ha, ho⟩ := bind_eq_ok ho
      obtain ⟨b, hb, ho⟩ := bind_eq_ok ho
      obtain ⟨c, hc, ho⟩ := bind_eq_ok ho
      cases ho
      simp only [List.map_cons, List.map_nil, counterOf_eq_ok_iff.1 hv]
      exact .three (Element.ofBound_eq_ok_iff.1 ha) (Element.ofBound_eq_ok_iff.1 hb)
        (Element.ofBound_eq_ok_iff.1 hc)
    · contradiction
  · intro hi
    generalize hts : ps.map (·.token) = ts at hi
    cases hi with
    | two ha hb =>
      simp only [List.map_eq_cons_iff, List.map_eq_nil_iff] at hts
      obtain ⟨p, _, rfl, hp, q, _, rfl, rfl, r, _, rfl, rfl, rfl⟩ := hts
      rw [ofArguments, counterOf_eq_ok_iff.2 hp, Element.ofBound_eq_ok_iff.2 ha,
        Element.ofBound_eq_ok_iff.2 hb]
      rfl
    | three ha hb hs =>
      simp only [List.map_eq_cons_iff, List.map_eq_nil_iff] at hts
      obtain ⟨p, _, rfl, hp, q, _, rfl, rfl, r, _, rfl, rfl, s, _, rfl, rfl, rfl⟩ := hts
      rw [ofArguments, counterOf_eq_ok_iff.2 hp, Element.ofBound_eq_ok_iff.2 ha,
        Element.ofBound_eq_ok_iff.2 hb, Element.ofBound_eq_ok_iff.2 hs]
      rfl

end Header

def Token.Inner (t : Token) : Prop := t ≠ .tagClose ∧ t ≠ .endOfInput

theorem IsElement.inner {t : Token} {e : Element} (h : IsElement t e) : t.Inner := by
  cases h <;> simp [Token.Inner]

theorem IsBound.inner {t : Token} {e : Element} (h : IsBound t e) : t.Inner := by
  cases h <;> simp [Token.Inner]

theorem inner_of_forall₂ {ts : List Token} {es : List Element} (h : List.Forall₂ IsElement ts es) :
    ∀ t ∈ ts, t.Inner := by
  induction h with
  | nil => simp
  | cons he _ ih =>
    intro t ht
    rcases List.mem_cons.1 ht with rfl | ht
    · exact he.inner
    · exact ih t ht

theorem IsHeader.inner {ts : List Token} {h : Header} (hh : IsHeader ts h) :
    ∀ t ∈ ts, t.Inner := by
  cases hh with
  | two ha hb => simp [Token.Inner, ha.inner.1, ha.inner.2, hb.inner.1, hb.inner.2]
  | three ha hb hs =>
    simp [Token.Inner, ha.inner.1, ha.inner.2, hb.inner.1, hb.inner.2, hs.inner.1, hs.inner.2]

namespace Builder

theorem foldlM_args {tag : Tag} {position : Position} {ps : List Placed} {nodes : List Node}
    {loops : List OpenLoop} (h : ∀ p ∈ ps, p.token.Inner) (done : List Placed) :
    ps.foldlM step ⟨.inside tag position done, nodes, loops⟩ =
      .ok ⟨.inside tag position (ps.reverse ++ done), nodes, loops⟩ := by
  induction ps generalizing done with
  | nil => rfl
  | cons p ps ih =>
    have hp : step ⟨.inside tag position done, nodes, loops⟩ p =
        .ok ⟨.inside tag position (p :: done), nodes, loops⟩ := by
      obtain ⟨hc, he⟩ := h p (by simp)
      unfold step
      split <;> simp_all
    have hi := ih (fun q hq => h q (by simp [hq])) (p :: done)
    simpa [hp] using hi

theorem foldlM_opening {name : String} {tag : Tag} {o q : Placed} {args : List Placed}
    (ht : Tag.ofName? name = some tag) (ho : o.token = .tagOpen) (hq : q.token = .tagName name)
    (ha : ∀ p ∈ args, p.token.Inner) (nodes : List Node) (loops : List OpenLoop) :
    (o :: q :: args).foldlM step ⟨.content, nodes, loops⟩ =
      .ok ⟨.inside tag q.position args.reverse, nodes, loops⟩ := by
  have ho : step ⟨.content, nodes, loops⟩ o = .ok ⟨.opened, nodes, loops⟩ := by
    unfold step
    rw [ho]
  have hn : step ⟨.opened, nodes, loops⟩ q = .ok ⟨.inside tag q.position [], nodes, loops⟩ := by
    unfold step
    rw [hq]
    simp only [ht]
  simp [ho, hn, foldlM_args ha]

theorem foldlM_placed {name : String} {tag : Tag} {o q c : Placed} {args : List Placed}
    (ht : Tag.ofName? name = some tag) (ho : o.token = .tagOpen) (hq : q.token = .tagName name)
    (ha : ∀ p ∈ args, p.token.Inner) (hc : c.token = .tagClose) (nodes : List Node)
    (loops : List OpenLoop) :
    (o :: q :: (args ++ [c])).foldlM step ⟨.content, nodes, loops⟩ =
      addTag ⟨.content, nodes, loops⟩ q.position args tag := by
  have hc (done : List Placed) : step ⟨.inside tag q.position done, nodes, loops⟩ c =
      addTag ⟨.content, nodes, loops⟩ q.position done.reverse tag := by
    unfold step
    rw [hc]
    cases tag <;> rfl
  have ho := foldlM_opening ht ho hq ha nodes loops
  rw [← List.cons_append, ← List.cons_append, List.foldlM_append, ho]
  simp [hc]

theorem foldlM_tag {name : String} {tag : Tag} {args : List Token} {ps : List Placed}
    (ht : Tag.ofName? name = some tag) (ha : ∀ t ∈ args, t.Inner)
    (hp : ps.map (·.token) = tagTokens name args) (nodes : List Node) (loops : List OpenLoop) :
    ∃ position as, as.map (·.token) = args ∧
      ps.foldlM step ⟨.content, nodes, loops⟩ =
        addTag ⟨.content, nodes, loops⟩ position as tag := by
  simp only [tagTokens, List.map_eq_cons_iff, List.map_eq_append_iff, List.map_eq_nil_iff] at hp
  obtain ⟨p, _, rfl, hopen, q, _, rfl, hname, as, _, rfl, rfl, r, _, rfl, hclose, rfl⟩ := hp
  have hi : ∀ p ∈ as, p.token.Inner := fun p h => ha _ (List.mem_map_of_mem h)
  exact ⟨q.position, as, rfl, foldlM_placed ht hopen hname hi hclose nodes loops⟩

end Builder

open Builder in
/-- What the grammar derives is built, whatever loops are open. -/
theorem Items.foldlM {ts : List Token} {ns : List Node} (h : Items ts ns) {ps : List Placed}
    (hp : ps.map (·.token) = ts) (nodes : List Node) (loops : List OpenLoop) :
    ps.foldlM step ⟨.content, nodes, loops⟩ = .ok ⟨.content, ns.reverse ++ nodes, loops⟩ := by
  induction h generalizing ps nodes loops with
  | nil =>
    rw [List.map_eq_nil_iff] at hp
    subst hp
    rfl
  | @text s ts ns _ ih =>
    obtain ⟨p, qs, rfl, hs, hq⟩ := List.map_eq_cons_iff.1 hp
    have hst : step ⟨.content, nodes, loops⟩ p = .ok ⟨.content, .text s :: nodes, loops⟩ := by
      unfold step
      rw [hs]
      rfl
    simpa [hst] using ih hq (.text s :: nodes) loops
  | @echo args ts es ns ha _ ih =>
    obtain ⟨ps, qs, rfl, hps, hq⟩ := List.map_eq_append_iff.1 hp
    have ht : Tag.ofName? "=" = some .echo := rfl
    obtain ⟨position, as, has, hf⟩ := foldlM_tag ht (inner_of_forall₂ ha) hps nodes loops
    have hm := Element.mapM_ofToken_eq_ok_iff.2 (has ▸ ha)
    simpa [hf, addTag, hm, add] using ih hq (.echo es :: nodes) loops
  | @loop args body ts h ms ns ha _ _ ihb ih =>
    obtain ⟨ps, qs, rfl, hps, hq⟩ := List.map_eq_append_iff.1 hp
    obtain ⟨bs, rs, rfl, hb, hr⟩ := List.map_eq_append_iff.1 hq
    obtain ⟨es, rs, rfl, he, hr⟩ := List.map_eq_append_iff.1 hr
    have ht : Tag.ofName? "FOR" = some .loop := rfl
    have ht' : Tag.ofName? "END" = some .endLoop := rfl
    obtain ⟨position, as, has, hf⟩ := foldlM_tag ht ha.inner hps nodes loops
    obtain ⟨last, as', has', hf'⟩ :=
      foldlM_tag ht' (by simp) he ms.reverse (⟨h, position, nodes⟩ :: loops)
    rw [List.map_eq_nil_iff] at has'
    subst has'
    have hh := (@Header.ofArguments_eq_ok_iff position as h).2 (has ▸ ha)
    have hm := ihb hb [] (⟨h, position, nodes⟩ :: loops)
    simpa [hf, addTag, hh, openLoop, hm, hf', endLoop] using ih hr (.loop h ms :: nodes) loops

end Stencil
