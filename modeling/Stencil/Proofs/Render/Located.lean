import Stencil.Proofs.Render.Failure

set_option autoImplicit false

namespace Stencil

theorem Site.source_loop (header : Header) : (Site.loop header).source = header.source := by
  obtain ⟨counter, start, stop, step⟩ := header
  apply String.toList_injective
  cases step <;>
    simp [source, Header.source, Header.wire, Header.bounds, spaced, Element.wire, Element.text]

namespace Node

def site? : Node → Option Site
  | .loop header _ => some (.loop header)
  | .echo elements => some (.echo elements)
  | .document _ | .text _ => none

/-- The tree `m` is the other one or a part of it. -/
inductive Within (m : Node) : Node → Prop where
  | self : Within m m
  | document {c : Node} {ns : List Node} : c ∈ ns → Within m c → Within m (.document ns)
  | loop {header : Header} {c : Node} {body : List Node} :
    c ∈ body → Within m c → Within m (.loop header body)

section

variable {m n : Node} {ns : List Node} {site : Site} {around : List String}

mutual

theorem exists_within_of_mem_tags :
    ∀ (n : Node) {outer : List String}, (site, around) ∈ n.tags outer →
      ∃ m : Node, m.Within n ∧ m.site? = some site
  | .document children, _, h => by
    obtain ⟨c, hc, m, hm, hs⟩ := exists_within_of_mem_tagsOfAll children h
    exact ⟨m, .document hc hm, hs⟩
  | .text _, _, h => by contradiction
  | .loop header body, outer, h => by
    rcases List.mem_cons.1 h with h | h
    · cases h
      exact ⟨.loop header body, .self, rfl⟩
    · obtain ⟨c, hc, m, hm, hs⟩ := exists_within_of_mem_tagsOfAll body h
      exact ⟨m, .loop hc hm, hs⟩
  | .echo elements, outer, h => by
    cases List.mem_singleton.1 h
    exact ⟨.echo elements, .self, rfl⟩

theorem exists_within_of_mem_tagsOfAll :
    ∀ (ns : List Node) {outer : List String}, (site, around) ∈ tagsOfAll outer ns →
      ∃ c ∈ ns, ∃ m : Node, m.Within c ∧ m.site? = some site
  | [], _, h => by contradiction
  | n :: ns, outer, h => by
    rcases List.mem_append.1 h with h | h
    · exact ⟨n, List.mem_cons_self, exists_within_of_mem_tags n h⟩
    · obtain ⟨c, hc, hm⟩ := exists_within_of_mem_tagsOfAll ns h
      exact ⟨c, List.mem_cons_of_mem n hc, hm⟩

end

theorem wire_infix_wireAll (h : n ∈ ns) : n.wire <:+: wireAll ns := by
  induction ns with
  | nil => contradiction
  | cons c cs ih =>
    rcases List.mem_cons.1 h with rfl | h
    · exact (List.prefix_append n.wire (wireAll cs)).isInfix
    · exact (ih h).trans (List.suffix_append c.wire (wireAll cs)).isInfix

theorem Within.wire_infix (h : m.Within n) : m.wire <:+: n.wire := by
  induction h with
  | self => exact List.infix_rfl
  | document hc _ ih => exact ih.trans (wire_infix_wireAll hc)
  | @loop header c body hc _ ih =>
    exact (ih.trans (wire_infix_wireAll hc)).trans ⟨header.wire, endWire, rfl⟩

theorem source_prefix_of_site? (h : m.site? = some site) : site.source.toList <+: m.wire := by
  cases m with
  | loop header body =>
    cases h
    rw [Site.source_loop, Header.source, String.toList_ofList, wire, List.append_assoc]
    exact List.prefix_append _ _
  | echo elements =>
    cases h
    rw [Site.source, echoSource, String.toList_ofList]
    exact List.prefix_rfl
  | document children => cases h
  | text s => cases h

end

/-- A loop is written with the header that an error names it by. And what fails but a write names a
loop of the tree by its header or an echo of the tree by its source, which stands in that of the
tree. -/
theorem renderInto_error_located :
    (∀ header body, (Node.loop header body).source =
      (Site.loop header).source ++ (Node.document body).source ++ String.ofList endWire) ∧
    ∀ {σ : Type} [Sink σ] (settings : Settings) (context : Context) (n : Node) (sink : σ) e,
      (n.renderInto settings context sink).1 = .error e → (∀ reason, e ≠ .write reason) →
        ∃ site f, e = .fault site f ∧ e.message = site.source ++ ": " ++ f.message ∧
          ((∃ header body, (Node.loop header body).Within n ∧ site.source = header.source) ∨
            ∃ elements, (Node.echo elements).Within n ∧
              site.source = (Node.echo elements).source) ∧
          site.source.toList <:+: n.source.toList := by
  refine ⟨fun header body => ?_, fun settings context n sink e h hw => ?_⟩
  · rw [Site.source_loop, Header.source, source, source, ← String.ofList_append,
      ← String.ofList_append]
    rfl
  · rcases failsAmong_renderInto h with ⟨reason, hr⟩ | ⟨site, around, f, ht, rfl, -⟩
    · exact absurd hr (hw reason)
    obtain ⟨m, hm, hs⟩ := exists_within_of_mem_tags n ht
    refine ⟨site, f, rfl, rfl, ?_, ?_⟩
    · cases m with
      | loop header body =>
        cases hs
        exact .inl ⟨header, body, hm, Site.source_loop header⟩
      | echo elements =>
        cases hs
        exact .inr ⟨elements, hm, rfl⟩
      | document children => cases hs
      | text s => cases hs
    · rw [source, String.toList_ofList]
      exact (source_prefix_of_site? hs).isInfix.trans hm.wire_infix

def slipped : Node :=
  .document [.text "\x7b", .loop ⟨"i", .number (.int 1), .number (.int 2), none⟩
    [.loop ⟨"j", .number (.int 0), .string "\"", some (.number (.float 1))⟩ [.text "-"]]]

theorem renderInto_slipped : ∃ site f,
    (slipped.renderInto ⟨9, true⟩ (fun _ => none) "").1 = .error (.fault site f) ∧
      site.source = "\x7b$ FOR j 0 \"\\\"\" 1.0 $\x7d" ∧
      site.source.toList <:+: slipped.source.toList := by
  have h : (slipped.renderInto ⟨9, true⟩ (fun _ => none) "").1 = .error (.fault
      (.loop ⟨"j", .number (.int 0), .string "\"", some (.number (.float 1))⟩)
      (.value (.notNumeric "\""))) := rfl
  obtain ⟨site, f, he, -, -, hsource⟩ := renderInto_error_located.2 _ _ slipped "" _ h (by simp)
  cases he
  exact ⟨_, _, h, by decide +kernel, hsource⟩

end Node

end Stencil
