import Stencil.Proofs.Token.Layout
import Stencil.Proofs.Tree.Derivation
import Stencil.Proofs.Tree.Nesting

/-! Which loop tags belong together, by their nesting alone. -/

set_option autoImplicit false

namespace Stencil

inductive ProperTag : List Placed → Prop where
  | loop {position : Position} {args : List Placed} {h : Header} :
    IsHeader (args.map (·.token)) h → ProperTag (⟨.tagName "FOR", position⟩ :: args)
  | endLoop {position : Position} : ProperTag [⟨.tagName "END", position⟩]
  | echo {position : Position} {args : List Placed} : ProperTag (⟨.tagName "=", position⟩ :: args)

def loopTag? : List Placed → Option LoopTag
  | ⟨.tagName name, position⟩ :: args =>
    match Tag.ofName? name, args with
    | some .loop, ⟨.variable counter, _⟩ :: _ => some (.opens counter position)
    | some .endLoop, _ => some (.closes position)
    | _, _ => none
  | _ => none

def loopTags (ps : List Placed) : List LoopTag := (tagsOf ps).filterMap loopTag?

theorem isElement_of_isItem {t : Token} (h : t.isItem = true) : ∃ e, IsElement t e := by
  cases t with
  | number n => exact ⟨_, .number n⟩
  | string s => exact ⟨_, .string s⟩
  | function name => exact ⟨_, .function name⟩
  | «variable» name => exact ⟨_, .variable name⟩
  | operator c =>
    obtain ⟨op, ho⟩ := Option.isSome_iff_exists.1 h
    rw [Operator.ofSymbol?_eq_some_iff.1 ho]
    exact ⟨_, .operator op⟩
  | _ => contradiction

theorem exists_mapM_ofToken {ps : List Placed} (h : ∀ p ∈ ps, p.token.isItem = true) :
    ∃ es, ps.mapM Element.ofToken = .ok es := by
  induction ps with
  | nil => exact ⟨[], rfl⟩
  | cons p ps ih =>
    rw [List.forall_mem_cons] at h
    obtain ⟨e, he⟩ := isElement_of_isItem h.1
    obtain ⟨es, hs⟩ := ih h.2
    rw [Element.mapM_ofToken_eq_ok_iff] at hs
    exact ⟨e :: es, Element.mapM_ofToken_eq_ok_iff.2 (.cons he hs)⟩

theorem loopTag?_of_isHeader {position : Position} {args : List Placed} {h : Header}
    (hh : IsHeader (args.map (·.token)) h) :
    loopTag? (⟨.tagName "FOR", position⟩ :: args) = some (.opens h.counter position) := by
  cases args with
  | nil => cases hh
  | cons a args =>
    obtain ⟨t, q⟩ := a
    have ht : t = .variable h.counter := by
      rw [List.map_cons] at hh
      generalize args.map (·.token) = ts at hh
      cases hh <;> rfl
    rw [ht]
    rfl

def OpenLoop.label (l : OpenLoop) : String × Position := (l.header.counter, l.position)

namespace Builder

open LoopTag

/-- What has been read after the loop tags `tags`: the builder waits for the ends of the loops that
they leave open, or it has failed at the first tag that ends none. -/
def Follows (tags : List LoopTag) (r : Except ParseError Builder) : Prop :=
  (∃ nodes loops, r = .ok ⟨.content, nodes, loops⟩ ∧ Leaves tags (loops.map OpenLoop.label)) ∨
    ∃ before position after, tags = before ++ .closes position :: after ∧ Balanced before ∧
      r = .error (.unmatchedEnd position)

theorem Follows.bind {tags more : List LoopTag} {r : Except ParseError Builder}
    {f : Builder → Except ParseError Builder} (h : Follows tags r)
    (hf : ∀ nodes loops, Leaves tags (loops.map OpenLoop.label) →
      Follows (tags ++ more) (f ⟨.content, nodes, loops⟩)) : Follows (tags ++ more) (r >>= f) := by
  rcases h with ⟨nodes, loops, rfl, hl⟩ | ⟨before, position, after, rfl, hb, rfl⟩
  · exact hf nodes loops hl
  · exact .inr ⟨before, position, after ++ more, by simp, hb, rfl⟩

theorem foldlM_body {name : String} {tag : Tag} {o c : Placed} {position : Position}
    {args : List Placed} (ht : Tag.ofName? name = some tag) (ho : o.token = .tagOpen)
    (hb : IsTagBody (⟨.tagName name, position⟩ :: args)) (hc : c.token = .tagClose)
    (nodes : List Node) (loops : List OpenLoop) :
    (o :: (⟨.tagName name, position⟩ :: args ++ [c])).foldlM step ⟨.content, nodes, loops⟩ =
      addTag ⟨.content, nodes, loops⟩ position args tag := by
  have hi : ∀ p ∈ args, p.token.Inner := by
    intro p hp
    obtain ⟨e, he⟩ := isElement_of_isItem (hb.items p hp)
    exact he.inner
  exact foldlM_placed ht ho rfl hi hc nodes loops

theorem follows_tag {o c : Placed} {tag : List Placed} (ho : o.token = .tagOpen)
    (hb : IsTagBody tag) (hc : c.token = .tagClose) (hw : ProperTag tag) {tags : List LoopTag}
    {loops : List OpenLoop} (hl : Leaves tags (loops.map OpenLoop.label)) (nodes : List Node) :
    Follows (tags ++ (loopTag? tag).toList)
      ((o :: (tag ++ [c])).foldlM step ⟨.content, nodes, loops⟩) := by
  cases hw with
  | loop hh =>
    rw [foldlM_body rfl ho hb hc, addTag, Header.ofArguments_eq_ok_iff.2 hh,
      loopTag?_of_isHeader hh]
    exact .inl ⟨[], _, rfl, hl.opens .nil⟩
  | @endLoop position =>
    rw [foldlM_body rfl ho hb hc]
    cases loops with
    | nil =>
      cases hl with
      | balanced hb => exact .inr ⟨tags, position, [], rfl, hb, rfl⟩
    | cons l loops => exact .inl ⟨_, _, rfl, hl.close position⟩
  | @echo position args =>
    -- No echo is refused: what is read in a tag after its name are elements.
    obtain ⟨es, he⟩ := exists_mapM_ofToken hb.items
    have ht : loopTag? (⟨.tagName "=", position⟩ :: args) = none := rfl
    rw [foldlM_body rfl ho hb hc, addTag, he, ht, Option.toList_none, List.append_nil]
    exact .inl ⟨_, _, rfl, hl⟩

theorem follows_pieces {ps : List Placed} (h : Pieces ps) (hw : ∀ tag ∈ tagsOf ps, ProperTag tag)
    {tags : List LoopTag} {loops : List OpenLoop}
    (hl : Leaves tags (loops.map OpenLoop.label)) (nodes : List Node) :
    Follows (tags ++ loopTags ps) (ps.foldlM step ⟨.content, nodes, loops⟩) := by
  induction h generalizing tags loops nodes with
  | @stop p hp =>
    have hs : step ⟨.content, nodes, loops⟩ p = .ok ⟨.content, nodes, loops⟩ := by
      unfold step
      rw [hp]
    have ht : loopTags [p] = [] := by simp [loopTags, tagsOf, hp]
    rw [ht, List.append_nil, List.foldlM_cons, hs]
    exact .inl ⟨nodes, loops, rfl, hl⟩
  | @text p ps s hp _ ih =>
    have hs : step ⟨.content, nodes, loops⟩ p = .ok ⟨.content, .text s :: nodes, loops⟩ := by
      unfold step
      rw [hp]
      rfl
    have ht := tagsOf_cons (p := p) (by simp [hp]) ps
    rw [loopTags, ht, List.foldlM_cons, hs]
    exact ih (ht ▸ hw) hl _
  | @tag o c tag ps ho hb hc _ ih =>
    have ht := tagsOf_tag ho hb hc ps
    rw [ht, List.forall_mem_cons] at hw
    have hf := follows_tag ho hb hc hw.1 hl nodes
    have hs : o :: (tag ++ c :: ps) = (o :: (tag ++ [c])) ++ ps := by simp
    have he : tags ++ loopTags (o :: (tag ++ c :: ps)) =
        tags ++ (loopTag? tag).toList ++ loopTags ps := by
      rw [loopTags, ht, List.filterMap_cons]
      cases loopTag? tag <;> simp [loopTags]
    rw [he, hs, List.foldlM_append]
    exact hf.bind fun nodes loops hl => ih hw.2 hl nodes

end Builder

open LoopTag

section

variable {source : String} {ps : List Placed}

theorem parse_cases (hs : source ≠ "") (hl : Lexer.results source.toList = ps.map .ok)
    (hw : ∀ tag ∈ tagsOf ps, ProperTag tag) :
    (Balanced (loopTags ps) ∧ ∃ t, Node.parse source = .ok t) ∨
      (∃ between position after, loopTags ps = between ++ .closes position :: after ∧
        Balanced between ∧ Node.parse source = .error (.unmatchedEnd position)) ∨
      Founded (loopTags ps) ∧ closed (loopTags ps) < opened (loopTags ps) ∧
        ∃ before counter position after,
          loopTags ps = before ++ .opens counter position :: after ∧ LeftOpen after ∧
          (∀ between c p rest, after = between ++ .opens c p :: rest → ¬LeftOpen rest) ∧
          Node.parse source = .error (.unclosedLoop counter position) := by
  have hp : Node.parse source = ps.foldlM Builder.step .empty >>= Builder.result := by
    rw [Node.parse, Node.ofChars, if_neg (by simpa using hs), hl, Builder.foldlM_read]
  have hnil : Leaves [] (([] : List OpenLoop).map OpenLoop.label) := .balanced .nil
  have hf := Builder.follows_pieces (Lexer.pieces_of_results hl) hw hnil []
  rw [List.nil_append] at hf
  rw [hp, Builder.empty]
  rcases hf with ⟨nodes, loops, hr, hn⟩ | ⟨between, position, after, ht, hb, hr⟩
  · rw [hr, ok_bind]
    obtain ⟨hfounded, hcount⟩ := hn.founded
    cases loops with
    | nil => exact .inl ⟨⟨hfounded, hcount⟩, _, rfl⟩
    | cons l loops =>
      obtain ⟨before, after, ht, ho, hlast⟩ := hn.last
      have hlt : closed (loopTags ps) < opened (loopTags ps) := by
        rw [hcount, List.map_cons, List.length_cons]
        omega
      exact .inr (.inr ⟨hfounded, hlt, before, _, _, after, ht, ho, hlast, rfl⟩)
  · rw [hr]
    exact .inr (.inl ⟨between, position, after, ht, hb, rfl⟩)

/-- A source whose tags are right by themselves is parsed just when its loop tags are balanced. The
first tag that ends a loop too many is what is wrong with it; if there is none, the last loop that
is left open. -/
theorem parse_iff_balanced (hs : source ≠ "") (hl : Lexer.results source.toList = ps.map .ok)
    (hw : ∀ tag ∈ tagsOf ps, ProperTag tag) :
    ((∃ t, Node.parse source = .ok t) ↔ Balanced (loopTags ps)) ∧
      (∀ before, before <+: loopTags ps → opened before < closed before →
        ∃ between position after, loopTags ps = between ++ .closes position :: after ∧
          Balanced between ∧ Node.parse source = .error (.unmatchedEnd position)) ∧
      (Founded (loopTags ps) → closed (loopTags ps) < opened (loopTags ps) →
        ∃ before counter position after,
          loopTags ps = before ++ .opens counter position :: after ∧ LeftOpen after ∧
          (∀ between c p rest, after = between ++ .opens c p :: rest → ¬LeftOpen rest) ∧
          Node.parse source = .error (.unclosedLoop counter position)) := by
  rcases parse_cases hs hl hw with
    ⟨hb, t, ht⟩ | ⟨between, position, after, ht, hb, he⟩ | ⟨hf, hlt, before, c, p, after, ht, hr⟩
  · refine ⟨⟨fun _ => hb, fun _ => ⟨t, ht⟩⟩, fun before hp hlt => ?_, fun _ hlt => ?_⟩
    · exact absurd (hb.1 before hp) (Nat.not_le.2 hlt)
    · exact absurd hb.2 (Nat.ne_of_gt hlt)
  · have hn : ¬Founded (loopTags ps) := ht ▸ hb.not_founded
    refine ⟨⟨fun ⟨t, hok⟩ => ?_, fun hb => absurd hb.1 hn⟩, fun _ _ _ => ?_, fun hf => absurd hf hn⟩
    · rw [he] at hok
      contradiction
    · exact ⟨between, position, after, ht, hb, he⟩
  · refine ⟨⟨fun ⟨t, hok⟩ => ?_, fun hb => absurd hb.2 (Nat.ne_of_gt hlt)⟩,
      fun before hp hlt => absurd (hf before hp) (Nat.not_le.2 hlt), fun _ _ => ?_⟩
    · rw [hr.2.2] at hok
      contradiction
    · exact ⟨before, c, p, after, ht, hr⟩

end

def halfClosed : String := "\x7b$FOR i 1 2$\x7d\x7b$FOR j 1 2$\x7d\x7b$END$\x7d"

def halfClosedTokens : List Placed := [
  ⟨.tagOpen, ⟨1, 1⟩⟩, ⟨.tagName "FOR", ⟨1, 3⟩⟩, ⟨.variable "i", ⟨1, 7⟩⟩,
  ⟨.number (.int 1), ⟨1, 9⟩⟩, ⟨.number (.int 2), ⟨1, 11⟩⟩, ⟨.tagClose, ⟨1, 12⟩⟩,
  ⟨.tagOpen, ⟨1, 14⟩⟩, ⟨.tagName "FOR", ⟨1, 16⟩⟩, ⟨.variable "j", ⟨1, 20⟩⟩,
  ⟨.number (.int 1), ⟨1, 22⟩⟩, ⟨.number (.int 2), ⟨1, 24⟩⟩, ⟨.tagClose, ⟨1, 25⟩⟩,
  ⟨.tagOpen, ⟨1, 27⟩⟩, ⟨.tagName "END", ⟨1, 29⟩⟩, ⟨.tagClose, ⟨1, 32⟩⟩]

def halfClosedEnd : Placed := ⟨.endOfInput, ⟨1, 34⟩⟩

theorem results_halfClosed :
    Lexer.results halfClosed.toList = (halfClosedTokens ++ [halfClosedEnd]).map .ok :=
  Lexer.steps_of_calls (n := 16) (by decide +kernel) (by decide +kernel) rfl

theorem properTag_halfClosed :
    ∀ tag ∈ tagsOf (halfClosedTokens ++ [halfClosedEnd]), ProperTag tag := by
  change ∀ tag ∈ [_, _, _], ProperTag tag
  simp only [List.forall_mem_cons]
  exact ⟨.loop (.two (.number _) (.number _)), .loop (.two (.number _) (.number _)), .endLoop,
    by simp⟩

theorem parse_halfClosed :
    halfClosed ≠ "" ∧
      Lexer.results halfClosed.toList = (halfClosedTokens ++ [halfClosedEnd]).map .ok ∧
      (∀ tag ∈ tagsOf (halfClosedTokens ++ [halfClosedEnd]), ProperTag tag) ∧
      (¬∃ t, Node.parse halfClosed = .ok t) ∧
      Node.parse halfClosed = .error (.unclosedLoop "i" ⟨1, 3⟩) := by
  have hs : halfClosed ≠ "" := by decide
  have ht : loopTags (halfClosedTokens ++ [halfClosedEnd]) =
      [.opens "i" ⟨1, 3⟩, .opens "j" ⟨1, 16⟩, .closes ⟨1, 29⟩] := by decide +kernel
  have hf : Founded [.opens "i" ⟨1, 3⟩, .opens "j" ⟨1, 16⟩, .closes ⟨1, 29⟩] :=
    (Balanced.nil.loop "j" ⟨1, 16⟩ ⟨1, 29⟩).1.opens _ _
  obtain ⟨hok, -, hopen⟩ := parse_iff_balanced hs results_halfClosed properTag_halfClosed
  rw [ht] at hok hopen
  obtain ⟨before, c, p, after, he, hl, -, hr⟩ := hopen hf (by decide)
  refine ⟨hs, results_halfClosed, properTag_halfClosed, fun h => ?_, ?_⟩
  · exact absurd (hok.1 h).2 (by decide)
  · match before, he with
    | [], he =>
      cases he
      exact hr
    | [_], he =>
      cases he
      exact absurd .nil (hl [] ⟨1, 29⟩ [] rfl)
    | [_, _], he => cases he
    | _ :: _ :: _ :: _, he => simp at he

end Stencil
