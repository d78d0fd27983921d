import Stencil.Proofs.Tree.Grammar

/-! What a builder has read, as a derivation that is not yet complete. -/

set_option autoImplicit false

namespace Stencil

/-- The tokens `ts` open the loops `loops` and give `nodes`, last one first, in the innermost. -/
inductive Opens : List Token → List OpenLoop → List Node → Prop where
  | nodes {ts : List Token} {ns : List Node} : Items ts ns → Opens ts [] ns.reverse
  | loop {ts args us : List Token} {loops : List OpenLoop} {before ns : List Node} {h : Header}
    {position : Position} :
    Opens ts loops before → IsHeader args h → Items us ns →
    Opens (ts ++ (tagTokens "FOR" args ++ us)) (⟨h, position, before⟩ :: loops) ns.reverse

namespace Opens

theorem add {ts us : List Token} {loops : List OpenLoop} {nodes : List Node} {n : Node}
    (h : Opens ts loops nodes) (hu : Items us [n]) : Opens (ts ++ us) loops (n :: nodes) := by
  cases h with
  | nodes hi => simpa using Opens.nodes (hi.append hu)
  | loop ho hh hi => simpa using ho.loop hh (hi.append hu)

theorem close {ts : List Token} {l : OpenLoop} {loops : List OpenLoop} {nodes : List Node}
    (h : Opens ts (l :: loops) nodes) :
    Opens (ts ++ tagTokens "END" []) loops (.loop l.header nodes.reverse :: l.before) := by
  cases h with
  | loop ho hh hi => simpa using ho.add (.loop hh hi .nil)

theorem items {ts : List Token} {nodes : List Node} (h : Opens ts [] nodes) :
    Items ts nodes.reverse := by
  cases h with
  | nodes hi => simpa using hi

end Opens

namespace Tag

def word : Tag → String
  | .loop => "FOR"
  | .endLoop => "END"
  | .echo => "="

theorem eq_word_of_ofName? {name : String} {tag : Tag} (h : ofName? name = some tag) :
    name = tag.word := by
  unfold ofName? at h
  split at h
  · cases h
    assumption
  · split at h
    · cases h
      assumption
    · split at h
      · cases h
        assumption
      · contradiction

end Tag

namespace Builder

/-- The builder has read `ts`, of which its open loops and its nodes are derived. -/
def HasRead (b : Builder) (ts : List Token) : Prop :=
  match b.place with
  | .content => Opens ts b.loops b.nodes
  | .opened => ∃ us, ts = us ++ [.tagOpen] ∧ Opens us b.loops b.nodes
  | .inside tag _ args => ∃ us name,
    ts = us ++ .tagOpen :: .tagName name :: (args.reverse.map (·.token)) ∧
      Tag.ofName? name = some tag ∧ Opens us b.loops b.nodes

theorem hasRead_addTag {b c : Builder} {ts : List Token} {name : String} {tag : Tag}
    {position : Position} {args : List Placed} (ht : Tag.ofName? name = some tag)
    (ho : Opens ts b.loops b.nodes) (hc : b.addTag position args tag = .ok c) :
    c.HasRead (ts ++ tagTokens name (args.map (·.token))) := by
  obtain rfl := Tag.eq_word_of_ofName? ht
  cases tag with
  | loop =>
    obtain ⟨h, hh, hc⟩ := bind_eq_ok hc
    cases hc
    have hl : Opens _ (⟨h, position, b.nodes⟩ :: b.loops) _ :=
      ho.loop (Header.ofArguments_eq_ok_iff.1 hh) .nil
    rw [List.append_nil] at hl
    exact hl
  | endLoop =>
    cases args with
    | cons p ps => contradiction
    | nil =>
      obtain ⟨place, nodes, loops⟩ := b
      cases loops with
      | nil => contradiction
      | cons l loops =>
        cases hc
        exact ho.close
  | echo =>
    obtain ⟨es, hes, hc⟩ := bind_eq_ok hc
    cases hc
    have he := Items.echo (Element.mapM_ofToken_eq_ok_iff.1 hes) .nil
    rw [List.append_nil] at he
    exact ho.add he

theorem hasRead_step {b c : Builder} {ts : List Token} {p : Placed} (h : b.HasRead ts)
    (hp : p.token ≠ .endOfInput) (hc : b.step p = .ok c) : c.HasRead (ts ++ [p.token]) := by
  obtain ⟨place, nodes, loops⟩ := b
  obtain ⟨t, q⟩ := p
  unfold step at hc
  cases place with
  | content =>
    cases t with
    | text s =>
      cases hc
      exact Opens.add h (.text .nil)
    | tagOpen =>
      cases hc
      exact ⟨ts, rfl, h⟩
    | endOfInput => contradiction
    | _ => contradiction
  | opened =>
    obtain ⟨us, rfl, ho⟩ := h
    cases t with
    | tagName name =>
      dsimp only at hc
      split at hc
      · rename_i tag ht
        cases hc
        exact ⟨us, name, by simp, ht, ho⟩
      · contradiction
    | _ => contradiction
  | inside tag position args =>
    obtain ⟨us, name, rfl, ht, ho⟩ := h
    cases t with
    | tagClose =>
      have := hasRead_addTag (b := ⟨.inside tag position args, nodes, loops⟩) ht ho hc
      simpa [tagTokens] using this
    | endOfInput => contradiction
    | _ =>
      cases hc
      exact ⟨us, name, by simp, ht, ho⟩

theorem hasRead_foldlM {b c : Builder} {ts : List Token} {ps : List Placed} (h : b.HasRead ts)
    (hp : ∀ p ∈ ps, p.token ≠ .endOfInput) (hc : ps.foldlM step b = .ok c) :
    c.HasRead (ts ++ ps.map (·.token)) := by
  induction ps generalizing b ts with
  | nil =>
    cases hc
    simpa using h
  | cons p ps ih =>
    rw [List.foldlM_cons] at hc
    obtain ⟨d, hd, hc⟩ := bind_eq_ok hc
    have hs := hasRead_step h (hp p (by simp)) hd
    simpa using ih hs (fun q hq => hp q (by simp [hq])) hc

theorem items_of_result {b : Builder} {ts : List Token} {p : Placed} {t : Node}
    (h : b.HasRead ts) (hp : p.token = .endOfInput) (hr : b.step p >>= result = .ok t) :
    ∃ ns, t = .document ns ∧ Items ts ns := by
  obtain ⟨c, hc, hr⟩ := bind_eq_ok hr
  obtain ⟨place, nodes, loops⟩ := b
  unfold step at hc
  rw [hp] at hc
  cases place with
  | content =>
    cases hc
    cases loops with
    | nil =>
      cases hr
      exact ⟨nodes.reverse, rfl, h.items⟩
    | cons l loops => contradiction
  | _ => contradiction

theorem foldlM_read (ps : List Placed) (b : Builder) :
    (ps.map Except.ok).foldlM read b = ps.foldlM step b := by
  rw [List.foldlM_map]
  rfl

end Builder

open Builder in
theorem ofChars_eq_ok_of_items {source : List Char} {ts : List Token} {ns : List Node}
    (hs : source ≠ []) (hl : Lexes source ts) (hi : Items ts ns) :
    Node.ofChars source = .ok (.document ns) := by
  obtain ⟨ps, p, rfl, hp, hr⟩ := hl
  have he : step ⟨.content, ns.reverse ++ [], []⟩ p = .ok ⟨.content, ns.reverse ++ [], []⟩ := by
    unfold step
    rw [hp]
  rw [Node.ofChars, if_neg hs, hr, foldlM_read, List.foldlM_append, Builder.empty,
    hi.foldlM rfl, ok_bind, List.foldlM_cons, he]
  simp [result]

theorem ofChars_of_ends {source : List Char} {ps : List Placed} {m : Lexer}
    {r : Except LexError Placed} (hs : source ≠ [])
    (hg : Lexer.Gives (Lexer.ofChars source .text) ps m) (he : Lexer.Ends m r) :
    Node.ofChars source =
      ps.foldlM Builder.step .empty >>= fun b => b.read r >>= Builder.result := by
  have hr : Lexer.results source = ps.map .ok ++ [r] := hg.ends he
  rw [Node.ofChars, if_neg hs, hr, List.foldlM_append, Builder.foldlM_read, bind_assoc]
  simp

theorem items_of_ofChars_eq_ok {source : List Char} {t : Node}
    (h : Node.ofChars source = .ok t) :
    source ≠ [] ∧ ∃ ts ns, t = .document ns ∧ Lexes source ts ∧ Items ts ns := by
  by_cases hs : source = []
  · rw [Node.ofChars, if_pos hs] at h
    contradiction
  · obtain ⟨ps, m, r, hg, he⟩ := (Lexer.ofChars source .text).exists_ends
    have hr : Lexer.results source = ps.map .ok ++ [r] := hg.ends he
    rw [ofChars_of_ends hs hg he] at h
    obtain ⟨b, hb, h⟩ := bind_eq_ok h
    cases he with
    | error he => contradiction
    | @endOfInput _ p _ hp =>
      have hi := Builder.hasRead_foldlM (b := .empty) (.nodes .nil) hg.ne_endOfInput hb
      obtain ⟨ns, rfl, hn⟩ := Builder.items_of_result hi hp h
      exact ⟨hs, _, ns, rfl, ⟨ps, p, rfl, hp, by simpa using hr⟩, by simpa using hn⟩

/-- A template is parsed just when the grammar derives its tokens, and the tree of a derivation is
unique. -/
theorem parse_eq_ok_iff_derives (source : String) (t : Node) :
    (Node.parse source = .ok t ↔
      source ≠ "" ∧ ∃ ts ns, t = .document ns ∧ Lexes source.toList ts ∧ Items ts ns) ∧
    ∀ ts ns ms, Items ts ns → Items ts ms → ns = ms := by
  refine ⟨⟨fun h => ?_, fun ⟨hs, ts, ns, ht, hl, hi⟩ => ?_⟩, fun ts ns ms hn hm => ?_⟩
  · obtain ⟨hs, hd⟩ := items_of_ofChars_eq_ok h
    exact ⟨by simpa using hs, hd⟩
  · rw [ht]
    exact ofChars_eq_ok_of_items (by simpa using hs) hl hi
  · have hp : (ts.map (Placed.mk · .start)).map (·.token) = ts := by
      rw [List.map_map]
      exact List.map_id ts
    have hb := (hn.foldlM hp [] []).symm.trans (hm.foldlM hp [] [])
    simpa using hb

end Stencil
