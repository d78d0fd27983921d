import Stencil.Proofs.Render.Replay
import Stencil.Proofs.Tree.Requoted

set_option autoImplicit false

namespace Stencil

/-- The same failure, but for quotes around the bounds of the loop that fails. -/
inductive RenderError.Requotes : RenderError → RenderError → Prop where
  | refl (e : RenderError) : Requotes e e
  | loop {g h : Header} (f : Fault) : g.Requotes h →
    Requotes (.fault (.loop g) f) (.fault (.loop h) f)

theorem Render.bound_requotes {settings : Settings} {context : Context} {k : Stacks Value}
    {d e : Element} (h : d.Requotes e) :
    bound settings context k d = bound settings context k e := by
  cases h with
  | refl => rfl
  | quoted hr => simp [bound, Element.constant?, Value.toNumber, hr]

structure Trace.Requotes (t u : Trace) : Prop where
  writes : t.writes = u.writes
  result : Alike RenderError.Requotes Eq t.result u.result

namespace Trace

theorem Requotes.refl (t : Trace) : t.Requotes t := by
  refine ⟨rfl, ?_⟩
  cases t.result with
  | ok _ => exact .ok rfl
  | error e => exact .error (.refl e)

theorem Requotes.andThen {t t' u u' : Trace} (h : t.Requotes t') (hu : u.Requotes u') :
    (t.andThen u).Requotes (t'.andThen u') := by
  obtain ⟨ws, r⟩ := t
  obtain ⟨ws', r'⟩ := t'
  obtain ⟨rfl, hr⟩ := h
  cases hr with
  | ok _ => exact ⟨congrArg (ws ++ ·) hu.writes, hu.result⟩
  | error he => exact ⟨rfl, .error he⟩

variable {g h : Header} (hg : g.Requotes h)
include hg

theorem Requotes.ofSite {α : Type} (x : Except Fault α) {f f' : α → Trace}
    (hf : ∀ a, (f a).Requotes (f' a)) :
    (Trace.ofSite (.loop g) x f).Requotes (Trace.ofSite (.loop h) x f') := by
  cases x with
  | ok a => exact hf a
  | error e => exact ⟨rfl, .error (.loop e hg)⟩

theorem Requotes.iterate (limit : Nat) (stop step : Value) {body body' : Value → Trace}
    (hb : ∀ v, (body v).Requotes (body' v)) (left : Nat) (v : Value) :
    (Trace.iterate g limit stop step body left v).Requotes
      (Trace.iterate h limit stop step body' left v) := by
  induction left generalizing v with
  | zero =>
    refine .ofSite hg _ fun past => ?_
    cases past with
    | true => exact .refl _
    | false => exact ⟨rfl, .error (.loop _ hg)⟩
  | succ left ih =>
    refine .ofSite hg _ fun past => ?_
    cases past with
    | true => exact .refl _
    | false =>
      refine (hb v).andThen (.ofSite hg _ fun next => ?_)
      cases next with
      | none => exact .refl _
      | some w => exact ih w

omit hg

theorem Requotes.play {σ : Type} [Sink σ] {t u : Trace} (h : t.Requotes u) (sink : σ) :
    (t.play sink).2 = (u.play sink).2 ∧
      Alike RenderError.Requotes Eq (t.play sink).1 (u.play sink).1 := by
  obtain ⟨hw, hr⟩ := h
  unfold Trace.play
  rw [hw]
  generalize u.writes = ws
  induction ws generalizing sink with
  | nil => exact ⟨rfl, hr⟩
  | cons w ws ih =>
    unfold Trace.playAll
    cases Sink.write w sink with
    | ok _ sink => exact ih sink
    | error reason sink => exact ⟨rfl, .error (.refl _)⟩

end Trace

theorem Header.Requotes.increment {g h : Header} (hg : g.Requotes h) :
    (g.step.getD (.number (.int 1))).Requotes (h.step.getD (.number (.int 1))) := by
  obtain ⟨counter, start, stop, step⟩ := g
  obtain ⟨counter', start', stop', step'⟩ := h
  cases hg.step with
  | some he => exact he
  | none => exact .refl _

namespace Node

open Render (bound_requotes)

variable (settings : Settings) (context : Context)

mutual

theorem trace_requotes : ∀ {m n : Node}, m.Requotes n → ∀ scope : Context,
    (m.trace settings context scope).Requotes (n.trace settings context scope)
  | _, _, .document hs, scope => by
    rw [trace, trace]
    exact traceAll_requotes hs scope
  | _, _, .text s, _ => .refl _
  | _, _, .echo es, _ => .refl _
  | _, _, .loop (g := g) (h := h) hg hs, scope => by
    rw [trace, trace]
    dsimp only
    rw [bound_requotes hg.start, bound_requotes hg.stop, bound_requotes hg.increment, hg.counter]
    refine .ofSite hg _ fun start => .ofSite hg _ fun stop => .ofSite hg _ fun step => ?_
    exact .iterate hg _ _ _ (fun v => traceAll_requotes hs _) _ _

theorem traceAll_requotes : ∀ {ms ns : List Node}, List.Forall₂ Node.Requotes ms ns →
    ∀ scope : Context,
      (traceAll settings context scope ms).Requotes (traceAll settings context scope ns)
  | _, _, .nil, _ => .refl _
  | _, _, .cons hn hs, scope => by
    rw [traceAll, traceAll]
    exact (trace_requotes hn scope).andThen (traceAll_requotes hs scope)

end

end Node

/-- In any context and into any sink both write the same, and end the same but for quotes. -/
def Node.RendersAlike (m n : Node) : Prop :=
  ∀ (settings : Settings) (context : Context) (σ : Type) [Sink σ] (sink : σ),
    (m.renderInto settings context sink).2 = (n.renderInto settings context sink).2 ∧
      Alike RenderError.Requotes Eq (m.renderInto settings context sink).1
        (n.renderInto settings context sink).1

theorem Node.Requotes.rendersAlike {m n : Node} (h : m.Requotes n) : m.RendersAlike n := by
  intro settings context σ _ sink
  rw [Node.renderInto_eq_play, Node.renderInto_eq_play]
  exact (Node.trace_requotes settings context h context).play sink

/-- A literal is the number that its text is read as, what is read as an integer is a literal unless
it begins with a plus, and a bound renders the same as a literal and as a string. -/
theorem literal_as_string :
    (∀ (l m : Lexer) (p : Position) (t : String) (n : Number),
      l.next = (.ok ⟨.number n, p⟩, m) → l.rest = l.blanks ++ (t.toList ++ m.rest) →
        Value.readNumber t = .ok n) ∧
    (∀ (t : String) (k : Int64), t.toList.head? ≠ some '+' → Value.readNumber t = .ok (.int k) →
      ∀ (p : Position) (name : Bool) (rest : List Char),
        (∀ c ∈ rest.head?, Lexer.isNumeric c = false) →
          Lexer.next ⟨t.toList ++ rest, p, .tag, name⟩ =
            (.ok ⟨.number (.int k), p⟩, ⟨rest, p.after t.toList, .tag, false⟩)) ∧
    ∀ (before t after : String) (n : Number), BoundLiteral before t after n →
      Alike (ParseError.Same Position.SameLine) Node.RendersAlike
        (Node.parse (before ++ t ++ after))
        (Node.parse (before ++ ("\"" ++ t ++ "\"") ++ after)) := by
  refine ⟨fun l m p t n h ht => ?_, fun t k hp hk p name rest hr => ?_, fun _ _ _ _ h => ?_⟩
  · exact Lexer.readNumber_of_next h rfl ht
  · exact Lexer.next_literal (Value.spells_of_readNumber hk hp) hr p name
  · exact h.parse.imp fun _ _ => Node.Requotes.rendersAlike

theorem boundLiteral_one :
    BoundLiteral "\x7b$FOR i " "1" " 3$\x7d\x7b$= i $\x7d\x7b$END$\x7d" (.int 1) := by
  let o : Placed := ⟨.tagOpen, ⟨1, 1⟩⟩
  let q : Placed := ⟨.tagName "FOR", ⟨1, 3⟩⟩
  let v : Placed := ⟨.variable "i", ⟨1, 7⟩⟩
  have hg : Lexer.Gives (Lexer.ofChars
      ("\x7b$FOR i " ++ "1" ++ " 3$\x7d\x7b$= i $\x7d\x7b$END$\x7d").toList .text)
      ([] ++ o :: q :: [v])
      ⟨" 1 3$\x7d\x7b$= i $\x7d\x7b$END$\x7d".toList, ⟨1, 8⟩, .tag, false⟩ :=
    .cons rfl (by decide) (.cons rfl (by decide) (.cons rfl (by decide) (.nil _)))
  exact .intro (p := ⟨1, 9⟩) hg rfl rfl (by simp) (by simp [v]) rfl rfl rfl

theorem literal_as_string_from_one :
    BoundLiteral "\x7b$FOR i " "1" " 3$\x7d\x7b$= i $\x7d\x7b$END$\x7d" (.int 1) ∧
      Alike (ParseError.Same Position.SameLine) Node.RendersAlike
        (Node.parse ("\x7b$FOR i " ++ "1" ++ " 3$\x7d\x7b$= i $\x7d\x7b$END$\x7d"))
        (Node.parse ("\x7b$FOR i " ++ ("\"" ++ "1" ++ "\"") ++
          " 3$\x7d\x7b$= i $\x7d\x7b$END$\x7d")) :=
  ⟨boundLiteral_one, literal_as_string.2.2 _ _ _ _ boundLiteral_one⟩

end Stencil
