import Stencil.Proofs.Token.Elsewhere
import Stencil.Proofs.Tree.Matching

set_option autoImplicit false

namespace Stencil

/-- The errors that a source which is not empty can have. -/
def ParseError.Occurs : ParseError → Prop
  | .emptySource => False
  | .unexpected .tagName found _ => found = .tagClose ∨ found.isItem = true
  | .unexpected .tagClose found _ => found.isItem = true
  | .unexpected _ _ _ => False
  | _ => True

def Proper {α : Type} (x : Except ParseError α) : Prop := ∀ e, x = .error e → e.Occurs

namespace Proper

variable {α β : Type}

theorem ok (a : α) : Proper (.ok a) := by
  intro _ h
  contradiction

theorem error {e : ParseError} (h : e.Occurs) : Proper (.error e : Except ParseError α) := by
  intro _ he
  cases he
  exact h

theorem bind {x : Except ParseError α} {f : α → Except ParseError β} (hx : Proper x)
    (hf : ∀ a, Proper (f a)) : Proper (x >>= f) := by
  intro e h
  rcases bind_eq_error h with he | ⟨a, -, he⟩
  · exact hx e he
  · exact hf a e he

end Proper

theorem proper_counterOf (p : Placed) : Proper (Header.counterOf p) := by
  unfold Header.counterOf
  split
  · exact .ok _
  · exact .error trivial

theorem proper_ofBound (part : LoopPart) (p : Placed) : Proper (Element.ofBound part p) := by
  unfold Element.ofBound
  split
  · exact .ok _
  · exact .ok _
  · split
    · exact .ok _
    · exact .error trivial
  · exact .error trivial

theorem proper_ofArguments (position : Position) (ps : List Placed) :
    Proper (Header.ofArguments position ps) := by
  unfold Header.ofArguments
  split
  · exact (proper_counterOf _).bind fun _ => (proper_ofBound _ _).bind fun _ =>
      (proper_ofBound _ _).bind fun _ => .ok _
  · exact (proper_counterOf _).bind fun _ => (proper_ofBound _ _).bind fun _ =>
      (proper_ofBound _ _).bind fun _ => (proper_ofBound _ _).bind fun _ => .ok _
  · exact .error trivial

namespace Builder

/-- The builder stands where the lexer does: between tags or in one, whose name comes or is read. -/
def Aligned (l : Lexer) (b : Builder) : Prop :=
  match b.place with
  | .content => l.mode = .text
  | .opened => l.mode = .tag
  | .inside _ _ args =>
    l.mode = .tag ∧ l.expectsName = false ∧ ∀ p ∈ args, p.token.isItem = true

/-- The builder goes on beside the lexer, or stops at an error that a source can have. -/
def InStep (l : Lexer) : Except ParseError Builder → Prop
  | .ok b => b.Aligned l
  | .error e => e.Occurs

theorem InStep.bind {l m : Lexer} {x : Except ParseError Builder}
    {f : Builder → Except ParseError Builder} (h : InStep l x)
    (hf : ∀ b, Aligned l b → InStep m (f b)) : InStep m (x >>= f) := by
  cases x with
  | error e => exact h
  | ok b => exact hf b h

theorem inStep_addTag {l : Lexer} (hm : l.mode = .text) (b : Builder) (position : Position)
    {args : List Placed} (ha : ∀ p ∈ args, p.token.isItem = true) (tag : Tag) :
    InStep l (b.addTag position args tag) := by
  cases tag with
  | loop =>
    cases hh : Header.ofArguments position args with
    | error e =>
      rw [addTag, hh]
      exact proper_ofArguments position args e hh
    | ok h =>
      rw [addTag, hh]
      exact hm
  | endLoop =>
    cases args with
    | nil =>
      rw [addTag, endLoop]
      cases b.loops with
      | nil => exact trivial
      | cons l loops => exact hm
    | cons p args => exact ha p (by simp)
  | echo =>
    obtain ⟨es, he⟩ := exists_mapM_ofToken ha
    rw [addTag, he]
    exact hm

theorem inStep_step {l m : Lexer} {b : Builder} {p : Placed} (h : b.Aligned l)
    (hn : l.next = (.ok p, m)) : InStep m (b.step p) := by
  obtain ⟨place, nodes, loops⟩ := b
  obtain ⟨t, q⟩ := p
  unfold step
  cases place with
  | content =>
    rcases Lexer.next_between_tags h hn with
      ⟨ht, -, hm, -⟩ | ⟨ht, -, hm, -⟩ | ⟨s, ht, -, -, -, hm, -⟩
    · cases ht
      exact hm
    · cases ht
      exact hm
    · cases ht
      exact hm
  | opened =>
    rcases (Lexer.next_in_tag h hn).2 with ⟨ht, hm⟩ | ⟨name, ht, he, hm⟩ | ⟨hi, hm⟩
    · cases ht
      exact .inl rfl
    · cases ht
      dsimp only
      split
      · exact ⟨hm, (Lexer.next_in_tag h hn).1, by simp⟩
      · exact trivial
    · cases t with
      | tagName name => contradiction
      | _ => exact .inr hi
  | inside tag position args =>
    obtain ⟨hmode, hname, ha⟩ := h
    obtain ⟨hk, ⟨ht, hm⟩ | ⟨name, ht, he, hm⟩ | ⟨hi, hm⟩⟩ := Lexer.next_in_tag hmode hn
    · cases ht
      exact inStep_addTag hm _ position (by simpa using ha) tag
    · rw [hname] at he
      contradiction
    · have hc : Aligned m ⟨.inside tag position (⟨t, q⟩ :: args), nodes, loops⟩ :=
        ⟨hm, hk, List.forall_mem_cons.2 ⟨hi, ha⟩⟩
      cases t with
      | tagClose => contradiction
      | endOfInput => contradiction
      | _ => exact hc

theorem inStep_foldlM {l m : Lexer} {b : Builder} {ps : List Placed} (hg : Lexer.Gives l ps m)
    (h : b.Aligned l) : InStep m (ps.foldlM step b) := by
  induction hg generalizing b with
  | nil => exact h
  | cons hn _ _ ih =>
    rw [List.foldlM_cons]
    exact (inStep_step h hn).bind fun c hc => ih hc

theorem InStep.proper_bind {α : Type} {l : Lexer} {x : Except ParseError Builder}
    {f : Builder → Except ParseError α} (h : InStep l x)
    (hf : ∀ b, Aligned l b → Proper (f b)) : Proper (x >>= f) := by
  cases x with
  | error e => exact .error h
  | ok b => exact hf b h

theorem proper_result (b : Builder) : Proper b.result := by
  unfold result
  split
  · exact .ok _
  · exact .error trivial

theorem proper_read {l : Lexer} {b : Builder} {r : Except LexError Placed} (h : b.Aligned l)
    (he : Lexer.Ends l r) : Proper (b.read r >>= result) := by
  cases he with
  | endOfInput hn _ => exact (inStep_step h hn).proper_bind fun c _ => proper_result c
  | error => exact .error trivial

end Builder

theorem proper_parse {source : String} (hs : source ≠ "") : Proper (Node.parse source) := by
  obtain ⟨ps, m, r, hg, he⟩ := (Lexer.ofChars source.toList .text).exists_ends
  rw [Node.parse, ofChars_of_ends (by simpa using hs) hg he]
  exact (Builder.inStep_foldlM (b := .empty) hg rfl).proper_bind fun b hb =>
    Builder.proper_read hb he

theorem parse_empty : Node.parse "" = .error .emptySource := by
  rw [Node.parse, Node.ofChars, if_pos (by simp)]

theorem occurs_of_parse {source : String} {e : ParseError} (he : Node.parse source = .error e)
    (hn : e ≠ .emptySource) : e.Occurs := by
  by_cases hs : source = ""
  · rw [hs, parse_empty] at he
    cases he
    contradiction
  · exact proper_parse hs e he

/-- Up to its end or the first error, a source gives tags with texts between them; hence some of the
errors that the builder tests for never come. -/
theorem layout_and_faults (source : String) :
    (∃ (ps : List Placed) (r : Except LexError Placed),
      Lexer.results source.toList = ps.map .ok ++ [r] ∧ Layout (ps.map (·.token)) r ∧
      (ps.map (·.token)).IsChain Lexer.Apart ∧
      ∀ before name after, ps.map (·.token) = before ++ .tagName name :: after →
        before.getLast? = some .tagOpen) ∧
      (∀ (l m : Lexer) (p : Placed), l.next = (.ok p, m) →
        (l.mode = .text ↔
          p.token.isText = true ∨ p.token = .tagOpen ∨ p.token = .endOfInput)) ∧
      (∀ expected ∈ [Expected.content, .operator, .echoElement], ∀ found position,
        Node.parse source ≠ .error (.unexpected expected found position)) ∧
      (∀ position, Node.parse source ≠ .error (.unexpected .tagClose .endOfInput position)) ∧
      (Node.parse source = .error .emptySource ↔ source = "") := by
  obtain ⟨ps, m, r, hg, hend⟩ := (Lexer.ofChars source.toList .text).exists_ends
  refine ⟨⟨ps, r, hg.ends hend, hg.hasGiven_ofChars.layout hend, hg.given.2,
    fun _ _ _ hs => Lexer.getLast?_before_name hg hs⟩, fun _ _ _ => Lexer.mode_eq_text_iff,
    fun expected hx found position he => ?_, fun position he => ?_, fun he => ?_, ?_⟩
  · have ho := occurs_of_parse he (by simp)
    simp only [List.mem_cons, List.not_mem_nil, or_false] at hx
    rcases hx with rfl | rfl | rfl <;> exact ho
  · have ho := occurs_of_parse he (by simp)
    contradiction
  · by_contra hs
    exact proper_parse hs _ he
  · rintro rfl
    exact parse_empty

/-- What is wrong with a tag that has been read to its end, or with an escape. -/
def ParseError.isSettled : ParseError → Bool
  | .unmatchedEnd _ => true
  | .loopArity _ _ => true
  | .loopArgument _ _ _ => true
  | .unexpected .tagClose _ _ => true
  | .lex ⟨.invalidEscape (some _), _⟩ => true
  | _ => false

namespace Builder

theorem tagClose_of_step {b : Builder} {p : Placed} {e : ParseError} (h : b.step p = .error e)
    (hs : e.isSettled = true) (ho : e.Occurs) : p.token = .tagClose := by
  obtain ⟨place, nodes, loops⟩ := b
  obtain ⟨t, q⟩ := p
  unfold step at h
  cases place with
  | content => cases t <;> cases h <;> contradiction
  | opened =>
    cases t with
    | tagName name =>
      dsimp only at h
      split at h <;> cases h
      contradiction
    | _ => cases h; contradiction
  | inside tag position args =>
    cases t with
    | tagClose => rfl
    | endOfInput => cases h; contradiction
    | _ => contradiction

theorem isSettled_of_result {b : Builder} {e : ParseError} (h : b.result = .error e) :
    e.isSettled = false := by
  unfold result at h
  split at h
  · contradiction
  · cases h
    rfl

theorem exists_step_of_foldlM {b : Builder} {ps : List Placed} {e : ParseError}
    (h : ps.foldlM step b = .error e) :
    ∃ qs p rs c, ps = qs ++ p :: rs ∧ qs.foldlM step b = .ok c ∧ c.step p = .error e := by
  induction ps generalizing b with
  | nil => contradiction
  | cons p ps ih =>
    rw [List.foldlM_cons] at h
    rcases bind_eq_error h with he | ⟨c, hc, he⟩
    · exact ⟨[], p, ps, b, rfl, rfl, he⟩
    · obtain ⟨qs, q, rs, d, rfl, hd, hq⟩ := ih he
      refine ⟨p :: qs, q, rs, d, rfl, ?_, hq⟩
      rw [List.foldlM_cons, hc]
      exact hd

end Builder

/-- Why reading stops at an error where `ps` have been read and `m` is left: the last of them is the
end of a tag that the builder refuses, or an escape comes that is wrong. -/
inductive Stops (ps : List Placed) (m : Lexer) : ParseError → Prop where
  | tag {e : ParseError} : ps.foldlM Builder.step .empty = .error e →
    ps.getLast?.map (·.token) = some .tagClose → Stops ps m e
  | escape {b : Builder} {c : Char} {q : Position} : ps.foldlM Builder.step .empty = .ok b →
    m.next.1 = .error ⟨.invalidEscape (some c), q⟩ →
    Stops ps m (.lex ⟨.invalidEscape (some c), q⟩)

namespace Stops

open Lexer

variable {cs : List Char} {ps : List Placed} {m : Lexer} {e : ParseError}

theorem ofChars (h : Stops ps m e) (hs : cs ≠ []) (hg : Gives (Lexer.ofChars cs .text) ps m) :
    Node.ofChars cs = .error e := by
  cases h with
  | tag he _ =>
    obtain ⟨qs, n, r, hq, hr⟩ := m.exists_ends
    rw [ofChars_of_ends hs (hg.append hq) hr, List.foldlM_append, he]
    rfl
  | @escape b c q hb he =>
    have hr : Ends m (.error ⟨.invalidEscape (some c), q⟩) :=
      .error (m := m.next.2) (Prod.ext he rfl)
    rw [ofChars_of_ends hs hg hr, hb]
    rfl

theorem extend (h : Stops ps m e) (hg : Gives (Lexer.ofChars cs .text) ps m) (es : List Char) :
    Stops ps (m.extend es) e ∧ Gives (Lexer.ofChars (cs ++ es) .text) ps (m.extend es) := by
  cases h with
  | tag he ht => exact ⟨.tag he ht, hg.extend fun _ => .inr ht⟩
  | escape hb he =>
    exact ⟨.escape hb (next_extend_of_escape he es),
      hg.extend fun hr => absurd hr (rest_ne_nil_of_escape he)⟩

end Stops

theorem exists_stops {cs : List Char} {e : ParseError} (h : Node.ofChars cs = .error e)
    (hn : cs ≠ []) (hs : e.isSettled = true) (ho : e.Occurs) :
    ∃ ps m, Lexer.Gives (Lexer.ofChars cs .text) ps m ∧ Stops ps m e := by
  obtain ⟨ps, m, r, hg, hr⟩ := (Lexer.ofChars cs .text).exists_ends
  rw [ofChars_of_ends hn hg hr] at h
  rcases bind_eq_error h with he | ⟨b, hb, h⟩
  · -- The builder fails at a token, and the run is cut behind it.
    obtain ⟨qs, p, rs, c, rfl, hc, hp⟩ := Builder.exists_step_of_foldlM he
    have ht := Builder.tagClose_of_step hp hs ho
    rw [List.append_cons] at hg
    obtain ⟨k, hk, -⟩ := hg.split
    refine ⟨qs ++ [p], k, hk, .tag ?_ (by simp [ht])⟩
    rw [List.foldlM_append, hc, ok_bind, List.foldlM_cons, hp]
    rfl
  · cases hr with
    | @endOfInput n p hn hp =>
      rcases bind_eq_error h with he | ⟨c, -, he⟩
      · have ht := Builder.tagClose_of_step he hs ho
        rw [hp] at ht
        contradiction
      · rw [Builder.isSettled_of_result he] at hs
        contradiction
    | @error n e hn =>
      cases h
      obtain ⟨fault, q⟩ := e
      match fault, hs with
      | .invalidEscape (some c), _ => exact ⟨ps, m, hg, .escape hb (by rw [hn])⟩

/-- What is wrong with a tag that is complete, or with an escape, is wrong at the same place however
the source goes on. -/
theorem parse_append_of_isSettled {p s : String} {e : ParseError} (h : Node.parse p = .error e)
    (hs : e.isSettled = true) : Node.parse (p ++ s) = .error e := by
  have hne : e ≠ .emptySource := by
    rintro rfl
    contradiction
  have hp : p.toList ≠ [] := by
    intro hp
    rw [Node.parse, Node.ofChars, if_pos hp] at h
    cases h
    contradiction
  obtain ⟨ps, m, hg, hstop⟩ := exists_stops h hp hs (occurs_of_parse h hne)
  obtain ⟨hstop, hg⟩ := hstop.extend hg s.toList
  rw [Node.parse, String.toList_append]
  exact hstop.ofChars (by simp [hp]) hg

def wrongStart : String := "\\\x7b$ \x7b$for i \"x\" 2$\x7d"

def wrongStartTokens : List Placed := [
  ⟨.text "\x7b$ ", ⟨1, 1⟩⟩, ⟨.tagOpen, ⟨1, 5⟩⟩, ⟨.tagName "FOR", ⟨1, 7⟩⟩, ⟨.variable "i", ⟨1, 11⟩⟩,
  ⟨.string "x", ⟨1, 13⟩⟩, ⟨.number (.int 2), ⟨1, 17⟩⟩, ⟨.tagClose, ⟨1, 18⟩⟩]

theorem results_wrongStart :
    Lexer.results wrongStart.toList =
      (wrongStartTokens ++ [Placed.mk .endOfInput ⟨1, 20⟩]).map .ok :=
  Lexer.steps_of_calls (n := 8) (by decide +kernel) (by decide +kernel) rfl

theorem parse_wrongStart :
    Node.parse wrongStart = .error (.loopArgument .start (.string "x") ⟨1, 13⟩) := by
  rw [Node.parse, Node.ofChars, if_neg (by decide), results_wrongStart, Builder.foldlM_read]
  rfl

theorem parse_wrongStart_append :
    Node.parse wrongStart = .error (.loopArgument .start (.string "x") ⟨1, 13⟩) ∧
      ParseError.isSettled (.loopArgument .start (.string "x") ⟨1, 13⟩) = true ∧
      Node.parse (wrongStart ++ "\x7b$END$\x7d\\q") =
        .error (.loopArgument .start (.string "x") ⟨1, 13⟩) :=
  ⟨parse_wrongStart, rfl, parse_append_of_isSettled parse_wrongStart rfl⟩

end Stencil
