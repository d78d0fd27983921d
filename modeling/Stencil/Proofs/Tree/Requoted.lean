import Stencil.Proofs.Token.Literals
import Stencil.Proofs.Tree.Faults

/-! Quotes around the bounds of loops, from the tokens to the tree. -/

set_option autoImplicit false

namespace Stencil

section

variable {ε α β : Type} {E : ε → ε → Prop} {S : α → α → Prop} {T : β → β → Prop}

theorem Alike.bind {x y : Except ε α} {f g : α → Except ε β} (h : Alike E S x y)
    (hf : ∀ a b, S a b → Alike E T (f a) (g b)) : Alike E T (x >>= f) (y >>= g) := by
  cases h with
  | ok h => exact hf _ _ h
  | error h => exact .error h

theorem Alike.foldlM {f : β → α → Except ε β} {as bs : List α} (h : List.Forall₂ S as bs)
    (hf : ∀ c d a b, T c d → S a b → Alike E T (f c a) (f d b)) {c d : β} (hc : T c d) :
    Alike E T (as.foldlM f c) (bs.foldlM f d) := by
  induction h generalizing c d with
  | nil => exact .ok hc
  | cons ha _ ih =>
    rw [List.foldlM_cons, List.foldlM_cons]
    exact (hf _ _ _ _ hc ha).bind fun _ _ h => ih h

theorem Alike.mapM {f : α → Except ε β} {as bs : List α} (h : List.Forall₂ S as bs)
    (hf : ∀ a b, S a b → Alike E T (f a) (f b)) :
    Alike E (List.Forall₂ T) (as.mapM f) (bs.mapM f) := by
  induction h with
  | nil => exact .ok .nil
  | cons ha _ ih =>
    rw [List.mapM_cons, List.mapM_cons]
    exact (hf _ _ ha).bind fun _ _ hc => ih.bind fun _ _ hcs => .ok (.cons hc hcs)

end

inductive ParseError.Same (R : Position → Position → Prop) : ParseError → ParseError → Prop where
  | lex {e f : LexError} : e.Same R f → Same R (.lex e) (.lex f)
  | emptySource : Same R .emptySource .emptySource
  | unexpected (expected : Expected) (found : Token) {p q : Position} : R p q →
    Same R (.unexpected expected found p) (.unexpected expected found q)
  | unknownTag (name : String) {p q : Position} : R p q →
    Same R (.unknownTag name p) (.unknownTag name q)
  | unmatchedEnd {p q : Position} : R p q → Same R (.unmatchedEnd p) (.unmatchedEnd q)
  | unclosedLoop (counter : String) {p q : Position} : R p q →
    Same R (.unclosedLoop counter p) (.unclosedLoop counter q)
  | loopArity (found : Nat) {p q : Position} : R p q →
    Same R (.loopArity found p) (.loopArity found q)
  | loopArgument (part : LoopPart) (found : Token) {p q : Position} : R p q →
    Same R (.loopArgument part found p) (.loopArgument part found q)

theorem ParseError.Same.refl {R : Position → Position → Prop} (hR : ∀ p, R p p) (e : ParseError) :
    e.Same R e := by
  cases e with
  | lex e => exact .lex ⟨rfl, hR _⟩
  | emptySource => exact .emptySource
  | unexpected expected found position => exact .unexpected _ _ (hR _)
  | unknownTag name position => exact .unknownTag _ (hR _)
  | unmatchedEnd position => exact .unmatchedEnd (hR _)
  | unclosedLoop counter position => exact .unclosedLoop _ (hR _)
  | loopArity found position => exact .loopArity _ (hR _)
  | loopArgument part found position => exact .loopArgument _ _ (hR _)

inductive Token.Requotes : Token → Token → Prop where
  | refl (t : Token) : Requotes t t
  | quoted {n : Number} {s : String} : Value.readNumber s = .ok n → Requotes (.number n) (.string s)

inductive Element.Requotes : Element → Element → Prop where
  | refl (e : Element) : Requotes e e
  | quoted {n : Number} {s : String} : Value.readNumber s = .ok n → Requotes (.number n) (.string s)

structure Header.Requotes (g h : Header) : Prop where
  counter : g.counter = h.counter
  start : g.start.Requotes h.start
  stop : g.stop.Requotes h.stop
  step : Option.Rel Element.Requotes g.step h.step

/-- The same tree, but for quotes around bounds. -/
inductive Node.Requotes : Node → Node → Prop where
  | document {ms ns : List Node} : List.Forall₂ Requotes ms ns →
    Requotes (.document ms) (.document ns)
  | text (s : String) : Requotes (.text s) (.text s)
  | loop {g h : Header} {ms ns : List Node} : g.Requotes h → List.Forall₂ Requotes ms ns →
    Requotes (.loop g ms) (.loop h ns)
  | echo (es : List Element) : Requotes (.echo es) (.echo es)

theorem Header.Requotes.refl (h : Header) : h.Requotes h := by
  refine ⟨rfl, .refl _, .refl _, ?_⟩
  cases h.step with
  | none => exact .none
  | some e => exact .some (.refl e)

mutual

theorem Node.Requotes.refl : ∀ n : Node, n.Requotes n
  | .document ns => .document (Node.Requotes.refl_all ns)
  | .text s => .text s
  | .loop h ns => .loop (.refl h) (Node.Requotes.refl_all ns)
  | .echo es => .echo es

theorem Node.Requotes.refl_all : ∀ ns : List Node, List.Forall₂ Node.Requotes ns ns
  | [] => .nil
  | n :: ns => .cons (Node.Requotes.refl n) (Node.Requotes.refl_all ns)

end

section

variable {R : Position → Position → Prop}

open Lexer (SameToken)

def Placed.Requotes (R : Position → Position → Prop) (p q : Placed) : Prop :=
  p.token.Requotes q.token ∧ R p.position q.position

theorem alike_ofToken {p q : Placed} (h : SameToken R p q) :
    Alike (ParseError.Same R) Eq (Element.ofToken p) (Element.ofToken q) := by
  obtain ⟨t, p⟩ := p
  obtain ⟨u, q⟩ := q
  obtain ⟨ht, hpos⟩ := h
  dsimp only at ht
  subst ht
  unfold Element.ofToken
  dsimp only
  split
  · exact .ok rfl
  · exact .ok rfl
  · exact .ok rfl
  · exact .ok rfl
  · split
    · exact .ok rfl
    · exact .error (.unexpected _ _ hpos)
  · exact .error (.unexpected _ _ hpos)

theorem alike_counterOf {p q : Placed} (h : SameToken R p q) :
    Alike (ParseError.Same R) Eq (Header.counterOf p) (Header.counterOf q) := by
  obtain ⟨t, p⟩ := p
  obtain ⟨u, q⟩ := q
  obtain ⟨ht, hpos⟩ := h
  dsimp only at ht
  subst ht
  unfold Header.counterOf
  dsimp only
  split
  · exact .ok rfl
  · exact .error (.loopArgument _ _ hpos)

theorem alike_ofBound (part : LoopPart) {p q : Placed} (h : p.Requotes R q) :
    Alike (ParseError.Same R) Element.Requotes (Element.ofBound part p)
      (Element.ofBound part q) := by
  obtain ⟨t, p⟩ := p
  obtain ⟨u, q⟩ := q
  obtain ⟨ht, hpos⟩ := h
  unfold Element.ofBound
  cases ht with
  | quoted hr =>
    rename_i n s
    have hs : (Number.read? s.toList).isSome = true := by
      rw [Number.read?, Option.isSome_map]
      obtain ⟨w, hw, -⟩ := Value.readNumber_eq_ok_iff.1 hr
      exact Option.isSome_of_mem hw
    dsimp only
    rw [if_pos hs]
    exact .ok (.quoted hr)
  | refl =>
    dsimp only
    split
    · exact .ok (.refl _)
    · exact .ok (.refl _)
    · split
      · exact .ok (.refl _)
      · exact .error (.loopArgument _ _ hpos)
    · exact .error (.loopArgument _ _ hpos)

theorem Lexer.SameToken.requotes {p q : Placed} (h : SameToken R p q) : p.Requotes R q :=
  ⟨h.1 ▸ .refl _, h.2⟩

/-- The same arguments of a tag, but for quotes around the bounds of a loop. -/
inductive Arguments (R : Position → Position → Prop) : Tag → List Placed → List Placed → Prop where
  | same (tag : Tag) {as bs : List Placed} : List.Forall₂ (SameToken R) as bs →
    Arguments R tag as bs
  | bounds {v w : Placed} {as bs : List Placed} : SameToken R v w →
    List.Forall₂ (Placed.Requotes R) as bs → Arguments R .loop (v :: as) (w :: bs)

namespace Arguments

variable {as bs : List Placed} {x y : Placed}

theorem of_loop (h : Arguments R .loop as bs) :
    as = [] ∧ bs = [] ∨ ∃ v w cs ds, as = v :: cs ∧ bs = w :: ds ∧ SameToken R v w ∧
      List.Forall₂ (Placed.Requotes R) cs ds := by
  cases h with
  | bounds hv h => exact .inr ⟨_, _, _, _, rfl, rfl, hv, h⟩
  | same _ h =>
    cases h with
    | nil => exact .inl ⟨rfl, rfl⟩
    | cons hv h =>
      exact .inr ⟨_, _, _, _, rfl, rfl, hv, h.imp fun _ _ => Lexer.SameToken.requotes⟩

theorem snoc {tag : Tag} (h : Arguments R tag as bs) (hx : SameToken R x y) :
    Arguments R tag (as ++ [x]) (bs ++ [y]) := by
  cases h with
  | same _ h => exact .same _ (List.rel_append h (.cons hx .nil))
  | bounds hv h => exact .bounds hv (List.rel_append h (.cons hx.requotes .nil))

theorem snoc_bound (h : Arguments R .loop as bs) (hn : as ≠ []) (hx : x.Requotes R y) :
    Arguments R .loop (as ++ [x]) (bs ++ [y]) := by
  rcases h.of_loop with ⟨rfl, rfl⟩ | ⟨v, w, cs, ds, rfl, rfl, hv, h⟩
  · contradiction
  · exact .bounds hv (List.rel_append h (.cons hx .nil))

end Arguments

theorem alike_ofArguments {p q : Position} {as bs : List Placed} (hpos : R p q)
    (h : Arguments R .loop as bs) :
    Alike (ParseError.Same R) Header.Requotes (Header.ofArguments p as)
      (Header.ofArguments q bs) := by
  rcases h.of_loop with ⟨rfl, rfl⟩ | ⟨v, w, cs, ds, rfl, rfl, hv, hbounds⟩
  · exact .error (.loopArity _ hpos)
  have hlength := hbounds.length_eq
  cases hbounds with
  | nil => exact .error (.loopArity _ hpos)
  | cons ha hbounds =>
    cases hbounds with
    | nil => exact .error (.loopArity _ hpos)
    | cons hb hbounds =>
      cases hbounds with
      | nil =>
        exact (alike_counterOf hv).bind fun _ _ hv => (alike_ofBound _ ha).bind fun _ _ ha =>
          (alike_ofBound _ hb).bind fun _ _ hb => .ok ⟨hv, ha, hb, .none⟩
      | cons hs hbounds =>
        cases hbounds with
        | nil =>
          exact (alike_counterOf hv).bind fun _ _ hv => (alike_ofBound _ ha).bind fun _ _ ha =>
            (alike_ofBound _ hb).bind fun _ _ hb => (alike_ofBound _ hs).bind fun _ _ hs =>
              .ok ⟨hv, ha, hb, .some hs⟩
        | cons _ _ =>
          simp only [Header.ofArguments, List.length_cons] at hlength ⊢
          rw [hlength]
          exact .error (.loopArity _ hpos)

namespace Builder

inductive SamePlace (R : Position → Position → Prop) : Place → Place → Prop where
  | content : SamePlace R .content .content
  | opened : SamePlace R .opened .opened
  | inside {tag : Tag} {p q : Position} {as bs : List Placed} : R p q →
    Arguments R tag as.reverse bs.reverse → SamePlace R (.inside tag p as) (.inside tag q bs)

structure SameLoop (R : Position → Position → Prop) (l m : OpenLoop) : Prop where
  header : l.header.Requotes m.header
  position : R l.position m.position
  before : List.Forall₂ Node.Requotes l.before m.before

structure Requotes (R : Position → Position → Prop) (b c : Builder) : Prop where
  place : SamePlace R b.place c.place
  nodes : List.Forall₂ Node.Requotes b.nodes c.nodes
  loops : List.Forall₂ (SameLoop R) b.loops c.loops

variable {b c : Builder} {p q : Placed}

theorem Requotes.add (h : b.Requotes R c) {m n : Node} (hn : m.Requotes n) :
    (b.add m).Requotes R (c.add n) :=
  ⟨.content, .cons hn h.nodes, h.loops⟩

theorem Requotes.openLoop (h : b.Requotes R c) {g k : Header} (hk : g.Requotes k) {p q : Position}
    (hpos : R p q) : (b.openLoop g p).Requotes R (c.openLoop k q) :=
  ⟨.content, .nil, .cons ⟨hk, hpos, h.nodes⟩ h.loops⟩

theorem Requotes.endLoop (h : b.Requotes R c) {p q : Position} (hpos : R p q) :
    Alike (ParseError.Same R) (Requotes R) (b.endLoop p) (c.endLoop q) := by
  obtain ⟨place, nodes, loops⟩ := b
  obtain ⟨place', nodes', loops'⟩ := c
  obtain ⟨-, hn, hl⟩ := h
  cases hl with
  | nil => exact .error (.unmatchedEnd hpos)
  | cons hl hls =>
    exact .ok ⟨.content, .cons (.loop hl.header (List.forall₂_reverse_iff.2 hn)) hl.before, hls⟩

theorem Requotes.addTag (h : b.Requotes R c) {p q : Position} (hpos : R p q) {tag : Tag}
    {as bs : List Placed} (ha : Arguments R tag as bs) :
    Alike (ParseError.Same R) (Requotes R) (b.addTag p as tag) (c.addTag q bs tag) := by
  cases tag with
  | loop => exact (alike_ofArguments hpos ha).bind fun _ _ hk => .ok (h.openLoop hk hpos)
  | endLoop =>
    obtain ⟨_, ha⟩ := ha
    cases ha with
    | nil => exact h.endLoop hpos
    | cons hp _ =>
      simp only [Builder.addTag, hp.1]
      exact .error (.unexpected _ _ hp.2)
  | echo =>
    obtain ⟨_, ha⟩ := ha
    refine (Alike.mapM ha fun _ _ => alike_ofToken).bind fun es _ he => ?_
    rw [List.forall₂_eq_eq_eq] at he
    exact he ▸ .ok (h.add (.echo es))

theorem Requotes.step (h : b.Requotes R c) (hp : SameToken R p q) :
    Alike (ParseError.Same R) (Requotes R) (b.step p) (c.step q) := by
  obtain ⟨place, nodes, loops⟩ := b
  obtain ⟨place', nodes', loops'⟩ := c
  obtain ⟨hplace, hn, hl⟩ := h
  obtain ⟨t, p⟩ := p
  obtain ⟨u, q⟩ := q
  obtain ⟨ht, hpos⟩ := hp
  dsimp only at ht hplace hn hl
  subst ht
  unfold Builder.step
  cases hplace with
  | content =>
    cases t with
    | endOfInput => exact .ok ⟨.content, hn, hl⟩
    | text s => exact .ok ⟨.content, .cons (.text s) hn, hl⟩
    | tagOpen => exact .ok ⟨.opened, hn, hl⟩
    | _ => exact .error (.unexpected _ _ hpos)
  | opened =>
    cases t with
    | tagName name =>
      dsimp only
      split
      · exact .ok ⟨.inside hpos (.same _ .nil), hn, hl⟩
      · exact .error (.unknownTag _ hpos)
    | _ => exact .error (.unexpected _ _ hpos)
  | inside hname ha =>
    cases t with
    | tagClose => exact Requotes.addTag ⟨.inside hname ha, hn, hl⟩ hname ha
    | endOfInput => exact .error (.unexpected _ _ hpos)
    | _ =>
      refine .ok ⟨.inside hname ?_, hn, hl⟩
      rw [List.reverse_cons, List.reverse_cons]
      exact ha.snoc ⟨rfl, hpos⟩

theorem Requotes.step_bound (h : b.Requotes R c) {position : Position} {as : List Placed}
    (hb : b.place = .inside .loop position as) (hn : as ≠ []) {n : Number} {s : String}
    (hr : Value.readNumber s = .ok n) {p q : Position} (hpos : R p q) :
    Alike (ParseError.Same R) (Requotes R) (b.step ⟨.number n, p⟩) (c.step ⟨.string s, q⟩) := by
  obtain ⟨place, nodes, loops⟩ := b
  obtain ⟨place', nodes', loops'⟩ := c
  obtain ⟨hplace, hnodes, hl⟩ := h
  dsimp only at hb hplace hnodes hl
  subst hb
  cases hplace with
  | inside hname ha =>
    refine .ok ⟨.inside hname ?_, hnodes, hl⟩
    rw [List.reverse_cons, List.reverse_cons]
    exact ha.snoc_bound (mt List.reverse_eq_nil_iff.1 hn) ⟨.quoted hr, hpos⟩

theorem Requotes.read (h : b.Requotes R c) {x y : Except LexError Placed}
    (hx : Alike (LexError.Same R) (SameToken R) x y) :
    Alike (ParseError.Same R) (Requotes R) (b.read x) (c.read y) := by
  cases hx with
  | ok hp => exact h.step hp
  | error he => exact .error (.lex he)

theorem Requotes.result (h : b.Requotes R c) :
    Alike (ParseError.Same R) Node.Requotes b.result c.result := by
  obtain ⟨place, nodes, loops⟩ := b
  obtain ⟨place', nodes', loops'⟩ := c
  obtain ⟨-, hn, hl⟩ := h
  cases hl with
  | nil => exact .ok (.document (List.forall₂_reverse_iff.2 hn))
  | cons hl _ =>
    simp only [Builder.result, hl.header.counter]
    exact .error (.unclosedLoop _ hl.position)

theorem Requotes.refl (hR : ∀ p, R p p) (b : Builder) : b.Requotes R b := by
  have hp (ps : List Placed) : List.Forall₂ (SameToken R) ps ps :=
    List.forall₂_same.2 fun p _ => ⟨rfl, hR p.position⟩
  have hn := Node.Requotes.refl_all
  refine ⟨?_, hn _, List.forall₂_same.2 fun l _ => ⟨.refl _, hR _, hn _⟩⟩
  cases b.place with
  | content => exact .content
  | opened => exact .opened
  | inside tag position args => exact .inside (hR _) (.same _ (hp _))

end Builder

end

/-- In the source of `before`, `t` and `after`, `t` is a literal of `n` in the tag of a loop,
but not the first of its arguments. -/
inductive BoundLiteral (before t after : String) (n : Number) : Prop where
  | intro {ps args : List Placed} {o q : Placed} {l m : Lexer} {p : Position} :
    Lexer.Gives (Lexer.ofChars (before ++ t ++ after).toList .text) (ps ++ o :: q :: args) l →
    o.token = .tagOpen → q.token = .tagName "FOR" →
    args ≠ [] → (∀ r ∈ args, r.token ≠ .tagClose) →
    l.next = (.ok ⟨.number n, p⟩, m) →
    l.rest = l.blanks ++ (t.toList ++ m.rest) → m.rest = after.toList →
    BoundLiteral before t after n

open Builder in
theorem Builder.opening_of_gives {source : List Char} {ps args : List Placed} {o q : Placed}
    {l : Lexer} {name : String} {tag : Tag}
    (hg : Lexer.Gives (Lexer.ofChars source .text) (ps ++ o :: q :: args) l)
    (ht : Tag.ofName? name = some tag) (ho : o.token = .tagOpen) (hq : q.token = .tagName name)
    (ha : ∀ r ∈ args, r.token ≠ .tagClose) :
    (∃ e, (ps ++ o :: q :: args).foldlM step .empty = .error e) ∨
      ∃ nodes loops, (ps ++ o :: q :: args).foldlM step .empty =
        .ok ⟨.inside tag q.position args.reverse, nodes, loops⟩ := by
  have hargs : ∀ r ∈ args, r.token.Inner := fun r hr =>
    ⟨ha r hr, hg.ne_endOfInput r (by simp [hr])⟩
  obtain ⟨k, hps, hopen⟩ := hg.split
  have hs := inStep_foldlM (b := .empty) hps rfl
  rw [List.foldlM_append]
  cases hb : ps.foldlM step .empty with
  | error e => exact .inl ⟨e, rfl⟩
  | ok b =>
    rw [hb] at hs
    obtain ⟨place, nodes, loops⟩ := b
    cases hopen with
    | cons hn _ _ =>
      have hmode : k.mode = .text := (Lexer.mode_eq_text_iff hn).2 (.inr (.inl ho))
      -- Only between tags does another tag open.
      have hplace : place = .content := by
        cases place with
        | content => rfl
        | opened => exact absurd (hmode.symm.trans hs) (by simp)
        | inside => exact absurd (hmode.symm.trans hs.1) (by simp)
      subst hplace
      exact .inr ⟨nodes, loops, foldlM_opening ht ho hq hargs nodes loops⟩

theorem Node.ofChars_of_gives {source : List Char} {ps : List Placed} {l : Lexer}
    (hs : source ≠ []) (hg : Lexer.Gives (Lexer.ofChars source .text) ps l) :
    Node.ofChars source = ps.foldlM Builder.step .empty >>= fun b =>
      (l.steps.map (·.1)).foldlM Builder.read b >>= Builder.result := by
  have hr : Lexer.results source = ps.map .ok ++ l.steps.map (·.1) := hg.steps
  rw [Node.ofChars, if_neg hs, hr, List.foldlM_append, Builder.foldlM_read, bind_assoc]

theorem BoundLiteral.parse {before t after : String} {n : Number}
    (h : BoundLiteral before t after n) :
    Alike (ParseError.Same Position.SameLine) Node.Requotes (Node.parse (before ++ t ++ after))
      (Node.parse (before ++ ("\"" ++ t ++ "\"") ++ after)) := by
  obtain @⟨ps, args, o, q, l, m, p, hg, ho, hq, hargs, ha, hn, ht, hm⟩ := h
  have hsource : (before ++ t ++ after).toList = before.toList ++ (t.toList ++ after.toList) := by
    simp
  have hquoted : (before ++ ("\"" ++ t ++ "\"") ++ after).toList =
      before.toList ++ ('"' :: (t.toList ++ ['"']) ++ after.toList) := by
    simp
  rw [hsource] at hg
  obtain ⟨l', r, hg', hn', hline⟩ := hg.quoted hn rfl ht hm
  have hs : before.toList ++ (t.toList ++ after.toList) ≠ [] := fun hnil =>
    Lexer.rest_ne_nil_of_next hn (by simp) (List.suffix_nil.1 (hnil ▸ hg.suffix))
  have hR (p : Position) : p.SameLine p := rfl
  -- Up to the literal both give the same tokens, behind it the same at other columns.
  rw [Node.parse, Node.parse, hsource, hquoted, Node.ofChars_of_gives hs hg,
    Node.ofChars_of_gives (by simp) hg']
  rcases Builder.opening_of_gives hg rfl ho hq ha with ⟨e, he⟩ | ⟨nodes, loops, hb⟩
  · rw [he]
    exact .error (.refl hR e)
  · rw [hb, ok_bind, ok_bind, Lexer.steps_of_token hn (by simp), Lexer.steps_of_token hn' (by simp),
      List.map_cons, List.map_cons, List.foldlM_cons, List.foldlM_cons, String.ofList_toList]
    let b : Builder := ⟨.inside .loop q.position args.reverse, nodes, loops⟩
    have hstep := Builder.Requotes.step_bound (.refl hR b) rfl
      (mt List.reverse_eq_nil_iff.1 hargs) (Lexer.readNumber_of_next hn rfl ht) (hR p)
    refine (hstep.bind fun c d hc => ?_).bind fun _ _ => Builder.Requotes.result
    exact Alike.foldlM (Lexer.sameSteps Position.isKept_sameLine hline)
      (fun _ _ _ _ hb => hb.read) hc

end Stencil
