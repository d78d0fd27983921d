import Stencil.Proofs.Tree.Parsed
import Stencil.Render.Template

set_option autoImplicit false

namespace Stencil

namespace Element

theorem isElement_token (e : Element) : IsElement e.token e := by
  cases e with
  | number n => exact .number n
  | string s => exact .string s
  | «variable» name => exact .variable name
  | function name => exact .function name
  | operator op => exact .operator op

theorem isBound_token {e : Element} (h : e.isBound = true) : IsBound e.token e := by
  cases e with
  | number n => exact .number n
  | string s => exact .string h
  | «variable» name => exact .variable name
  | function name => contradiction
  | operator op => contradiction

theorem finite_or_exists (es : List Element) :
    (∀ e ∈ es, e.isFinite = true) ∨ ∃ e ∈ es, e.isFinite = false := by
  cases h : es.all isFinite with
  | true => exact .inl (List.all_eq_true.1 h)
  | false => exact .inr (by simpa using h)

theorem exists_not_finite_append {es fs : List Element} (he : ∀ e ∈ es, e.isFinite = true)
    (h : ∃ e ∈ es ++ fs, e.isFinite = false) : ∃ e ∈ fs, e.isFinite = false := by
  obtain ⟨e, hm, hf⟩ := h
  rcases List.mem_append.1 hm with hm | hm
  · simp [he e hm] at hf
  · exact ⟨e, hm, hf⟩

theorem forall₂_token (es : List Element) : List.Forall₂ IsElement (es.map token) es := by
  induction es with
  | nil => exact .nil
  | cons e es ih => exact .cons e.isElement_token ih

end Element

namespace Header

theorem isHeader_token {h : Header} (hb : ∀ e ∈ h.bounds, e.isBound = true) :
    IsHeader (h.arguments.map Element.token) h := by
  obtain ⟨v, a, b, s⟩ := h
  have ha := Element.isBound_token (hb a (by simp [bounds]))
  have hb' := Element.isBound_token (hb b (by simp [bounds]))
  cases s with
  | none => exact .two ha hb'
  | some s => exact .three ha hb' (Element.isBound_token (hb s (by simp [bounds])))

end Header

namespace Yields

open Lexer

theorem plainTag (lead : Blanks) {w : List Char} {name : String} (hw : IsTagName w name)
    (es : List Element) (h : ∀ e ∈ es, e.isNamed = true ∧ e.isFinite = true) (tail : List Char) :
    Yields .text ('{' :: '$' :: (lead.1 ++ (w ++ (spaced es ++ ' ' :: '$' :: '}' :: tail))))
      (tagTokens name (es.map Element.token)) .text tail := by
  have hg : ∀ i ∈ es.map (Blanks.one, ·), i.1.1 ≠ [] := by simp [Blanks.one]
  have hy := tag lead .one hw (fun i hi => hg i (List.mem_of_mem_tail hi)) (.inr hg)
    (by simpa using h) tail
  rw [← spaced_eq_itemsWire, List.map_map] at hy
  exact hy

theorem echo {es : List Element} (h : ∀ e ∈ es, e.isNamed = true ∧ e.isFinite = true)
    (tail : List Char) :
    Yields .text (echoWire es ++ tail) (tagTokens "=" (es.map Element.token)) .text tail := by
  simpa [echoWire, Blanks.none] using plainTag .none .echo es h tail

theorem loopName (h : Header) (tail : List Char) :
    Yields .text (h.wire ++ tail) [.tagOpen, .tagName "FOR"] .tag
      (spaced h.arguments ++ ' ' :: '$' :: '}' :: tail) := by
  have hn := tagName .one (.loop (w := ['F', 'O', 'R']) rfl)
    (spaced h.arguments ++ ' ' :: '$' :: '}' :: tail) (.inr (Lexer.breaksOff_cons.2 (by decide)))
  simpa [Header.wire, Header.arguments, Blanks.one] using hn

theorem header {h : Header} (he : ∀ e ∈ h.arguments, e.isNamed = true ∧ e.isFinite = true)
    (tail : List Char) :
    Yields .text (h.wire ++ tail) (tagTokens "FOR" (h.arguments.map Element.token)) .text tail := by
  have hy := plainTag .one (.loop (w := ['F', 'O', 'R']) rfl) h.arguments he tail
  simpa [Header.wire, Header.arguments, Blanks.one] using hy

theorem endTag (tail : List Char) :
    Yields .text (endWire ++ tail) (tagTokens "END" []) .text tail :=
  plainTag .one (.endLoop (w := ['E', 'N', 'D']) rfl) [] (by simp) tail

end Yields

namespace Node

open Lexer

theorem opensTag_wireAll {ns : List Node} {tail : List Char} (h : Tidy ns)
    (hs : startsText ns = false) (ht : tail = [] ∨ opensTag tail = true) :
    wireAll ns ++ tail = [] ∨ opensTag (wireAll ns ++ tail) = true := by
  cases h with
  | nil => exact ht
  | text => contradiction
  | loop => exact .inr rfl
  | echo => exact .inr rfl

theorem items_of_tidy {ns : List Node} (h : Tidy ns)
    (he : ∀ e ∈ elementsOfAll ns, e.isNamed = true ∧ e.isFinite = true)
    (hb : ∀ e ∈ boundsOfAll ns, e.isBound = true) :
    ∃ ts, Items ts ns ∧ ∀ tail, tail = [] ∨ opensTag tail = true →
      Yields .text (wireAll ns ++ tail) ts .text tail := by
  induction h with
  | nil => exact ⟨[], .nil, fun tail _ => .nil _ tail⟩
  | @text s ns hs hn hns ih =>
    obtain ⟨ts, hi, hy⟩ := ih he hb
    refine ⟨.text s :: ts, .text hi, fun tail ht => ?_⟩
    have hy := (Yields.text hs (opensTag_wireAll hns hn ht)).append (hy tail ht)
    simpa [wireAll, wire] using hy
  | @loop h body ns _ _ ihb ih =>
    simp only [elementsOfAll, elements, List.forall_mem_append] at he
    simp only [boundsOfAll, Node.bounds, List.forall_mem_append] at hb
    obtain ⟨us, hu, hyu⟩ := ihb he.1.2 hb.1.2
    obtain ⟨ts, hi, hy⟩ := ih he.2 hb.2
    refine ⟨_, .loop (Header.isHeader_token hb.1.1) hu hi, fun tail ht => ?_⟩
    have hh := Yields.header he.1.1 (wireAll body ++ (endWire ++ (wireAll ns ++ tail)))
    have hy := hh.append ((hyu _ (.inr rfl)).append ((Yields.endTag _).append (hy tail ht)))
    simpa [wireAll, wire] using hy
  | @echo es ns _ ih =>
    simp only [elementsOfAll, elements, List.forall_mem_append] at he
    obtain ⟨ts, hi, hy⟩ := ih he.2 hb
    refine ⟨_, .echo (Element.forall₂_token es) hi, fun tail ht => ?_⟩
    have hy := (Yields.echo he.1 (wireAll ns ++ tail)).append (hy tail ht)
    simpa [wireAll, wire] using hy

theorem ofChars_of_yields {source : List Char} {ts : List Token} {ns : List Node}
    (hs : source ≠ []) (hy : Yields .text source ts .text []) (hi : Items ts ns) :
    ofChars source = .ok (.document ns) := by
  obtain ⟨ps, q, rfl, hg⟩ := hy .start
  have hn : Ends ⟨[], q, .text, false⟩ (.ok ⟨.endOfInput, q⟩) := .endOfInput rfl rfl
  refine ofChars_eq_ok_of_items hs ⟨ps, ⟨.endOfInput, q⟩, rfl, rfl, ?_⟩ hi
  rw [List.map_append]
  exact hg.ends hn

theorem ofChars_wire {t : Node} (h : t.IsTidy) (hw : t.wire ≠ [])
    (he : ∀ e ∈ t.elements, e.isNamed = true ∧ e.isFinite = true)
    (hb : ∀ e ∈ t.bounds, e.isBound = true) : ofChars t.wire = .ok t := by
  obtain ⟨ns, rfl, hn⟩ := h
  obtain ⟨ts, hi, hy⟩ := items_of_tidy hn he hb
  have hy := hy [] (.inl rfl)
  rw [List.append_nil] at hy
  exact ofChars_of_yields hw hy hi

theorem fails_of_tidy {ns : List Node} (h : Tidy ns) (hn : ∀ e ∈ elementsOfAll ns, e.isNamed = true)
    (hb : ∀ e ∈ boundsOfAll ns, e.isBound = true)
    (hf : ∃ e ∈ elementsOfAll ns, e.isFinite = false) (tail : List Char)
    (ht : tail = [] ∨ opensTag tail = true) : Fails .text (wireAll ns ++ tail) := by
  induction h generalizing tail with
  | nil => simp [elementsOfAll] at hf
  | @text s ns hs hstart hns ih =>
    have hy := Yields.text hs (opensTag_wireAll hns hstart ht)
    simpa [wireAll, wire] using hy.fails (ih hn hb hf tail ht)
  | @loop h body ns hbody hns ihb ih =>
    simp only [elementsOfAll, elements, List.append_assoc] at hf
    simp only [elementsOfAll, elements, List.forall_mem_append] at hn
    simp only [boundsOfAll, Node.bounds, List.forall_mem_append] at hb
    have hw : wireAll (.loop h body :: ns) ++ tail =
        h.wire ++ (wireAll body ++ (endWire ++ (wireAll ns ++ tail))) := by
      simp [wireAll, wire]
    rw [hw]
    rcases Element.finite_or_exists h.arguments with hh | hh
    · have hy := Yields.header fun e he => ⟨hn.1.1 e he, hh e he⟩
      refine (hy _).fails ?_
      rcases Element.finite_or_exists (elementsOfAll body) with hbf | hbf
      · obtain ⟨us, -, hyu⟩ := items_of_tidy hbody (fun e he => ⟨hn.1.2 e he, hbf e he⟩) hb.1.2
        have hr := Element.exists_not_finite_append hbf (Element.exists_not_finite_append hh hf)
        exact (hyu _ (.inr rfl)).fails ((Yields.endTag _).fails (ih hn.2 hb.2 hr tail ht))
      · exact ihb hn.1.2 hb.1.2 hbf _ (.inr rfl)
    · exact (Yields.loopName h _).fails (Fails.elements hn.1.1 hh _)
  | @echo es ns _ ih =>
    simp only [elementsOfAll, elements] at hf
    simp only [elementsOfAll, elements, List.forall_mem_append] at hn
    rcases Element.finite_or_exists es with hes | hes
    · have hy := Yields.echo fun e he => ⟨hn.1 e he, hes e he⟩
      have hr := Element.exists_not_finite_append hes hf
      simpa [wireAll, wire] using (hy _).fails (ih hn.2 hb hr tail ht)
    · have hy := Yields.tagName .none .echo
        (spaced es ++ ' ' :: '$' :: '}' :: (wireAll ns ++ tail)) (.inl rfl)
      simpa [wireAll, wire, echoWire, Blanks.none] using hy.fails (Fails.elements hn.1 hes _)

theorem ofChars_ne_ok_of_fails {source : List Char} (h : Fails .text source) (t : Node) :
    ofChars source ≠ .ok t := by
  intro ho
  obtain ⟨-, -, -, -, ⟨ps, p, -, -, hl⟩, -⟩ := items_of_ofChars_eq_ok ho
  obtain ⟨qs, l, e, r, hg, he⟩ := h .start
  have hr := hg.ends (.error he)
  rw [List.map_append] at hl
  have hlast := congrArg List.getLast? (hr.symm.trans hl)
  simp at hlast

/-- The leaves of the tree can be written: names are names, floats are finite, bounds are bounds. -/
structure Spelled (t : Node) : Prop where
  named : ∀ e ∈ t.elements, e.isNamed = true
  finite : ∀ e ∈ t.elements, e.isFinite = true
  isBound : ∀ e ∈ t.bounds, e.isBound = true

theorem source_ne_empty_iff (t : Node) : t.source ≠ "" ↔ t.wire ≠ [] := by
  simp [source]

theorem parse_source (t : Node) : parse t.source = ofChars t.wire := by
  rw [parse, source, String.toList_ofList]

theorem elements_tidied (t : Node) : t.tidied.elements = t.elements := seamless_elements.tidied t

theorem bounds_tidied (t : Node) : t.tidied.bounds = t.bounds := seamless_bounds.tidied t

theorem wire_tidied (t : Node) : t.tidied.wire = t.wire := seamless_wire.tidied t

theorem isTidy_tidied (t : Node) : t.tidied.IsTidy := ⟨_, rfl, tidy_tidyOnto t .nil⟩

theorem ofChars_wire_tidied {t : Node} (h : t.Spelled) (hw : t.wire ≠ []) :
    ofChars t.wire = .ok t.tidied := by
  have ht := t.isTidy_tidied
  rw [← wire_tidied] at hw ⊢
  refine ofChars_wire ht hw (fun e he => ?_) fun e he => ?_
  · rw [elements_tidied] at he
    exact ⟨h.named e he, h.finite e he⟩
  · rw [bounds_tidied] at he
    exact h.isBound e he

theorem parse_source_self {t : Node} (h : t.Spelled) (hw : t.wire ≠ []) (ht : t.tidied = t) :
    parse t.source = .ok t := by
  rw [parse_source, ofChars_wire_tidied h hw, ht]

section

variable (settings : Settings) (context : Context)

theorem seamless_render : Seamless (M := Render String Unit) (fun a b => do a; b)
    (render settings context) (renderAll settings context) where
  assoc x y z := bind_assoc x _ _
  nil x := pure_bind () fun _ => x
  right_nil x := bind_pure x
  cons _ _ := by rw [renderAll]
  document _ := by rw [render]
  empty x := by
    funext p
    simp [render, Render.write, Sink.write, bind, EStateM.bind]
  text s t := by
    funext p
    simp [render, Render.write, Sink.write, bind, EStateM.bind, String.append_assoc]
  loop _ _ _ h := by rw [render, render, h]

theorem renderInto_tidied (t : Node) (sink : String) :
    t.tidied.renderInto settings context sink = t.renderInto settings context sink := by
  rw [renderInto, renderInto, (seamless_render settings context).tidied t]

end

end Node

open Node

/-- The source of a tree is parsed as its tidy shape, which is the tree itself if it has that shape,
and writes the same text with the same result. -/
theorem parse_source_eq_tidied {t : Node} (h : t.Spelled) :
    (t.source ≠ "" → parse t.source = .ok t.tidied) ∧
      t.tidied.IsTidy ∧ (t.IsTidy → t.tidied = t) ∧
      ∀ (settings : Settings) (context : Context) (sink : String),
        t.tidied.renderInto settings context sink = t.renderInto settings context sink := by
  refine ⟨fun hs => ?_, isTidy_tidied t, tidied_of_isTidy, fun s c k => renderInto_tidied s c t k⟩
  rw [parse_source]
  exact ofChars_wire_tidied h ((source_ne_empty_iff t).1 hs)

def patchwork : Node :=
  .loop ⟨"i", .number (.int Int64.minValue), .string "1e1",
      some (.number (.float (Float.ofBits 0x3FB999999999999A)))⟩
    [.document [.text "\x7b", .text ""], .document [.document [], .text "$= \\"],
      .echo [.function "f", .string "\"\\\n", .operator .sub, .variable "é_1",
        .number (.float (Float.ofBits 0x8000000000000000))]]

theorem patchwork_spelled : patchwork.Spelled :=
  ⟨by decide +kernel, by decide +kernel, by decide +kernel⟩

theorem patchwork_wire : patchwork.wire ≠ [] := by decide +kernel

theorem parse_patchwork :
    patchwork.Spelled ∧ patchwork.source ≠ "" ∧
      parse patchwork.source = .ok (.document [.loop
        ⟨"i", .number (.int Int64.minValue), .string "1e1",
          some (.number (.float (Float.ofBits 0x3FB999999999999A)))⟩
        [.text "\x7b$= \\", .echo [.function "f", .string "\"\\\n", .operator .sub,
          .variable "é_1", .number (.float (Float.ofBits 0x8000000000000000))]]]) := by
  have hs := (source_ne_empty_iff _).2 patchwork_wire
  refine ⟨patchwork_spelled, hs, ((parse_source_eq_tidied patchwork_spelled).1 hs).trans ?_⟩
  simp [patchwork, tidied, tidyOnto, tidyAllOnto, consText]

theorem ofChars_wire_of_parsed {t : Node} (h : t.Parsed)
    (hf : ∀ e ∈ t.elements, e.isFinite = true) : ofChars t.wire = .ok t :=
  ofChars_wire h.isTidy h.nonempty (fun e he => ⟨h.named e he, hf e he⟩) h.isBound

theorem ofChars_wire_ne_ok {t u : Node} (h : t.Parsed)
    (hf : ∃ e ∈ t.elements, e.isFinite = false) : ofChars t.wire ≠ .ok u := by
  obtain ⟨ns, rfl, ht⟩ := h.isTidy
  have hw := fails_of_tidy ht h.named h.isBound hf [] (.inl rfl)
  rw [List.append_nil] at hw
  exact ofChars_ne_ok_of_fails hw u

/-- A parsed tree comes back from its source just when all of its floats are finite. -/
theorem parse_source_alike_iff {source : String} {t : Node} (h : parse source = .ok t) :
    ((∃ u, parse t.source = .ok u ∧ u.alike t = true) ↔ ∀ e ∈ t.elements, e.isFinite = true) ∧
      ((∀ e ∈ t.elements, e.isFinite = true) → parse t.source = .ok t) := by
  have hp := parsed_of_ofChars h
  have ho := parse_source t
  refine ⟨⟨fun ⟨u, hu, _⟩ => ?_, fun hf => ?_⟩, fun hf => ?_⟩
  · exact (Element.finite_or_exists t.elements).resolve_right fun hn =>
      ofChars_wire_ne_ok hp hn (ho ▸ hu)
  · exact ⟨t, ho.trans (ofChars_wire_of_parsed hp hf), alike_self t hp.notNaN⟩
  · exact ho.trans (ofChars_wire_of_parsed hp hf)

theorem patchwork_alike :
    parse patchwork.source = .ok patchwork.tidied ∧
      ∃ u, parse patchwork.tidied.source = .ok u ∧ u.alike patchwork.tidied = true := by
  have h := (parse_source _).trans (ofChars_wire_tidied patchwork_spelled patchwork_wire)
  refine ⟨h, (parse_source_alike_iff h).1.2 fun e he => patchwork_spelled.finite e ?_⟩
  rwa [elements_tidied] at he

def overlong : Numeral := ⟨false, '1' :: List.replicate 309 '0', some ['0'], none⟩

def overlongSource : List Char :=
  '{' :: '$' :: '=' :: ' ' ::
    (Numeral.plain false overlong.whole overlong.places ++ [' ', '$', '}'])

theorem ofChars_overlong :
    ofChars overlongSource = .ok (.document [.echo [.number (.float overlong.toFloat)]]) := by
  have hw : overlong.whole.all Char.isDigit = true := by decide +kernel
  have hp : ['0'].all Char.isDigit = true := by decide
  have hs : Spells (Numeral.plain false overlong.whole overlong.places) (.float overlong.toFloat) :=
    .plain (List.cons_ne_nil _ _) (List.all_eq_true.1 hw)
      (fun ds hds => by cases hds; exact List.all_eq_true.1 hp) rfl
  have hn := Yields.tagName .none .echo
    (' ' :: (Numeral.plain false overlong.whole overlong.places ++ [' ', '$', '}'])) (.inl rfl)
  have hb : Lexer.BreaksOff Lexer.isNumeric [' ', '$', '}'] := Lexer.breaksOff_cons.2 (by decide)
  have hy := hn.append ((Yields.literal .one hs hb).append (Yields.tagClose .one []))
  exact ofChars_of_yields (List.cons_ne_nil _ _) hy (.echo (.cons (.number _) .nil) .nil)

theorem overlong_isFinite : (Number.float overlong.toFloat).isFinite = false := by decide +kernel

theorem overlong_not_alike :
    parse (String.ofList overlongSource) =
        .ok (.document [.echo [.number (.float overlong.toFloat)]]) ∧
      ∀ u, parse (source (.document [.echo [.number (.float overlong.toFloat)]])) ≠ .ok u := by
  refine ⟨?_, fun u => ?_⟩
  · rw [parse, String.toList_ofList, ofChars_overlong]
  · rw [parse_source]
    exact ofChars_wire_ne_ok (parsed_of_ofChars ofChars_overlong)
      ⟨_, List.mem_singleton.2 rfl, overlong_isFinite⟩

end Stencil
