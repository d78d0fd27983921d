import Stencil.Proofs.Render.Scope
import Stencil.Proofs.Tree.Grammar

/-! The tags at which a render can fail, and the variables that can be unknown there. -/

set_option autoImplicit false

namespace Stencil

namespace Trace

def FailsWith (t : Trace) (P : RenderError → Prop) : Prop := ∀ e, t.result = .error e → P e

namespace FailsWith

variable {t u : Trace} {P Q : RenderError → Prop}

theorem done : Trace.done.FailsWith P := by
  intro _ h
  contradiction

theorem write (s : String) : (Trace.write s).FailsWith P := by
  intro _ h
  contradiction

theorem fail {e : RenderError} (h : P e) : (Trace.fail e).FailsWith P := by
  intro _ he
  cases he
  exact h

theorem mono (h : t.FailsWith P) (hp : ∀ e, P e → Q e) : t.FailsWith Q :=
  fun e he => hp e (h e he)

theorem andThen (h : t.FailsWith P) (hu : u.FailsWith P) : (t.andThen u).FailsWith P := by
  intro e he
  cases ht : t.result with
  | ok _ =>
    rw [andThen_of_ok ht] at he
    exact hu e he
  | error _ =>
    rw [andThen_of_error ht] at he
    exact h e he

theorem ofSite {α : Type} {site : Site} {x : Except Fault α} {f : α → Trace}
    (hx : ∀ e, x = .error e → P (.fault site e)) (h : ∀ a, (f a).FailsWith P) :
    (Trace.ofSite site x f).FailsWith P := by
  cases x with
  | ok a => exact h a
  | error e => exact fail (hx e rfl)

theorem iterate {header : Header} {limit : Nat} {stop step : Value} {body : Value → Trace}
    (hvalue : ∀ e, P (.fault (.loop header) (.value e)))
    (hlimit : P (.fault (.loop header) (.iterationLimit limit)))
    (hbody : ∀ v, (body v).FailsWith P) (left : Nat) (v : Value) :
    (Trace.iterate header limit stop step body left v).FailsWith P := by
  have hpast : ∀ w e, Render.isPast w stop = .error e → P (.fault (.loop header) e) := by
    intro w e he
    unfold Render.isPast at he
    split at he <;> cases he
    exact hvalue _
  have hadvance : ∀ w e, Render.advance w step = .error e → P (.fault (.loop header) e) := by
    intro w e he
    unfold Render.advance at he
    split at he
    · cases he
    · split at he <;> cases he
      exact hvalue _
  induction left generalizing v with
  | zero =>
    refine ofSite (hpast v) fun past => ?_
    cases past with
    | true => exact done
    | false => exact fail hlimit
  | succ left ih =>
    refine ofSite (hpast v) fun past => ?_
    cases past with
    | true => exact done
    | false =>
      refine (hbody v).andThen (ofSite (hadvance v) fun next => ?_)
      cases next with
      | none => exact done
      | some w => exact ih w

end FailsWith

theorem error_of_play {σ : Type} [Sink σ] {t : Trace} {sink : σ} {e : RenderError}
    (h : (t.play sink).1 = .error e) : (∃ reason, e = .write reason) ∨ t.result = .error e := by
  obtain ⟨ws, r⟩ := t
  simp only [play] at h
  induction ws generalizing sink with
  | nil => exact .inr h
  | cons w ws ih =>
    simp only [playAll] at h
    cases hw : Sink.write w sink with
    | ok _ sink =>
      rw [hw] at h
      exact ih h
    | error reason sink =>
      rw [hw] at h
      cases h
      exact .inl ⟨reason, rfl⟩

end Trace

def Site.elements : Site → List Element
  | .loop header => header.bounds
  | .echo elements => elements

namespace Node

mutual

/-- The tags of a tree, each with the counters of the loops around it, innermost first. -/
def tags (around : List String) : Node → List (Site × List String)
  | .document children => tagsOfAll around children
  | .text _ => []
  | .loop h body => (.loop h, around) :: tagsOfAll (h.counter :: around) body
  | .echo es => [(.echo es, around)]

def tagsOfAll (around : List String) : List Node → List (Site × List String)
  | [] => []
  | n :: ns => n.tags around ++ tagsOfAll around ns

end

end Node

/-- What `name` must be to be unknown at a tag: a variable of the tag which no loop around the tag
counts with, and which the context does not have, where variables are strict. -/
structure Unknown (settings : Settings) (context : Context) (site : Site) (around : List String)
    (name : String) : Prop where
  strict : settings.strict = true
  mem : .variable name ∈ site.elements
  uncounted : name ∉ around
  missing : context name = none

def FailsAmong (settings : Settings) (context : Context) (tags : List (Site × List String))
    (e : RenderError) : Prop :=
  ∃ site around f, (site, around) ∈ tags ∧ e = .fault site f ∧
    ∀ name, f = .unknownVariable name → Unknown settings context site around name

theorem FailsAmong.mono {settings : Settings} {context : Context}
    {tags tags' : List (Site × List String)} (hs : tags ⊆ tags') {e : RenderError}
    (h : FailsAmong settings context tags e) : FailsAmong settings context tags' e := by
  obtain ⟨site, around, f, hm, he, hf⟩ := h
  exact ⟨site, around, f, hs hm, he, hf⟩

/-- A name for which nothing stands in `scope` is no counter, and nothing stands for it outside. -/
def Covers (scope outer : Context) (around : List String) : Prop :=
  ∀ name, scope name = none → name ∉ around ∧ outer name = none

theorem covers_self (scope : Context) : Covers scope scope [] := fun _ hn => ⟨by simp, hn⟩

theorem Covers.extend {scope outer : Context} {around : List String}
    (h : Covers scope outer around) (counter : String) (v : Value) :
    Covers (scope.extend counter v) outer (counter :: around) := by
  intro name hn
  by_cases hc : name = counter
  · simp [Context.extend, hc] at hn
  · rw [Context.extend, if_neg hc] at hn
    simpa [hc] using h name hn

theorem Covers.unknown {settings : Settings} {scope outer : Context} {site : Site}
    {around : List String} {name : String} (h : Covers scope outer around)
    (hs : settings.strict = true ∧ scope name = none) (he : .variable name ∈ site.elements) :
    Unknown settings outer site around name :=
  ⟨hs.1, he, (h name hs.2).1, (h name hs.2).2⟩

namespace Echo

variable {context : Context} {lookup : String → Except Fault Value}

theorem onOperator_ne_unknown (op : Operator) (stack : List Value) (name : String) :
    onOperator op stack ≠ .error (.unknownVariable name) := by
  unfold onOperator
  split
  · split <;> simp
  · simp

theorem onFunction_ne_unknown (context : Context) (function : String) (stack : List Value)
    (name : String) : onFunction context function stack ≠ .error (.unknownVariable name) := by
  unfold onFunction
  split
  · simp
  · split
    · simp
    · rename_i e _ _
      cases e <;> simp [Fault.ofBuiltin]

theorem step_unknown {stack : List Value} {e : Element} {name : String}
    (h : step context lookup stack e = .error (.unknownVariable name)) :
    ∃ m, e = .variable m ∧ lookup m = .error (.unknownVariable name) := by
  cases e with
  | «variable» m =>
    refine ⟨m, rfl, ?_⟩
    simp only [step] at h
    cases hl : lookup m with
    | ok v => simp [hl, Except.map] at h
    | error f => simpa [hl, Except.map] using h
  | operator op => exact absurd h (onOperator_ne_unknown op stack name)
  | function f => exact absurd h (onFunction_ne_unknown context f stack name)
  | number n => cases h
  | string s => cases h

theorem foldlM_unknown {es : List Element} {stack : List Value} {name : String}
    (h : es.foldlM (step context lookup) stack = .error (.unknownVariable name)) :
    ∃ m, .variable m ∈ es ∧ lookup m = .error (.unknownVariable name) := by
  induction es generalizing stack with
  | nil => cases h
  | cons e es ih =>
    rw [List.foldlM_cons] at h
    rcases bind_eq_error h with hs | ⟨next, -, hn⟩
    · obtain ⟨m, rfl, hl⟩ := step_unknown hs
      exact ⟨m, List.mem_cons_self, hl⟩
    · obtain ⟨m, hm, hl⟩ := ih hn
      exact ⟨m, List.mem_cons_of_mem _ hm, hl⟩

theorem value_unknown {es : List Element} {name : String}
    (h : value context lookup es = .error (.unknownVariable name)) :
    ∃ m, .variable m ∈ es ∧ lookup m = .error (.unknownVariable name) := by
  rcases bind_eq_error h with hf | ⟨stack, -, hs⟩
  · exact foldlM_unknown hf
  · split at hs <;> cases hs

end Echo

namespace Render

variable {settings : Settings} {scope : Context}

theorem lookup_eq_error {name : String} {f : Fault}
    (h : lookup settings scope .empty name = .error f) :
    f = .unknownVariable name ∧ settings.strict = true ∧ scope name = none := by
  simp only [lookup, Stacks.top, Stacks.stack_empty] at h
  split at h
  · cases h
  · rename_i hs
    split at h <;> cases h
    exact ⟨rfl, by assumption, hs⟩

def numberOf (v : Value) : Except Fault Value :=
  match v.toNumber with
  | .ok n => .ok (.number n)
  | .error e => .error (.value e)

theorem bound_variable (settings : Settings) (context : Context) (k : Stacks Value)
    (name : String) :
    bound settings context k (.variable name) = lookup settings context k name >>= numberOf := rfl

theorem bound_constant (settings : Settings) (context : Context) (k : Stacks Value) {e : Element}
    (h : ∀ name, e ≠ .variable name) :
    bound settings context k e = numberOf (e.constant?.getD .null) := by
  cases e with
  | «variable» name => exact absurd rfl (h name)
  | _ => rfl

theorem numberOf_ne_unknown (v : Value) (name : String) :
    numberOf v ≠ .error (.unknownVariable name) := by
  unfold numberOf
  split <;> simp

theorem bound_unknown {e : Element} {name : String}
    (h : bound settings scope .empty e = .error (.unknownVariable name)) :
    e = .variable name ∧ settings.strict = true ∧ scope name = none := by
  by_cases he : ∃ m, e = .variable m
  · obtain ⟨m, rfl⟩ := he
    rw [bound_variable] at h
    rcases bind_eq_error h with hl | ⟨v, -, hv⟩
    · obtain ⟨hm, hs⟩ := lookup_eq_error hl
      cases hm
      exact ⟨rfl, hs⟩
    · exact absurd hv (numberOf_ne_unknown v name)
  · rw [bound_constant settings scope .empty (not_exists.1 he)] at h
    exact absurd h (numberOf_ne_unknown _ name)

end Render

namespace Node

open Trace

mutual

theorem failsAmong_trace (settings : Settings) (context : Context) :
    ∀ (n : Node) {scope outer : Context} {around : List String}, Covers scope outer around →
      (n.trace settings context scope).FailsWith (FailsAmong settings outer (n.tags around))
  | .document children, _, _, _, h => failsAmong_traceAll settings context children h
  | .text s, _, _, _, _ => .write s
  | .echo es, _, _, around, h => by
    refine .ofSite (fun f hf => ?_) fun v => .write v.text
    refine ⟨.echo es, around, f, List.mem_singleton.2 rfl, rfl, fun name hn => ?_⟩
    subst hn
    obtain ⟨m, hm, hl⟩ := Echo.value_unknown hf
    obtain ⟨hname, hs⟩ := Render.lookup_eq_error hl
    cases hname
    exact h.unknown hs hm
  | .loop header body, scope, outer, around, h => by
    -- The header stands outside the loop, so its own counter is not around it; the body is inside.
    have hsite : ∀ f, (∀ name, f = .unknownVariable name →
          .variable name ∈ header.bounds ∧ settings.strict = true ∧ scope name = none) →
        FailsAmong settings outer (tags around (.loop header body)) (.fault (.loop header) f) :=
      fun f hf => ⟨.loop header, around, f, List.mem_cons_self, rfl,
        fun name hn => h.unknown (hf name hn).2 (hf name hn).1⟩
    have hbound : ∀ e, (∀ name, e = .variable name → .variable name ∈ header.bounds) →
        ∀ f, Render.bound settings scope .empty e = .error f →
          FailsAmong settings outer (tags around (.loop header body))
            (.fault (.loop header) f) := by
      refine fun e he f hf => hsite f fun name hn => ?_
      subst hn
      obtain ⟨hv, hs⟩ := Render.bound_unknown hf
      exact ⟨he name hv, hs⟩
    have hbody : ∀ v, (traceAll settings context (scope.extend header.counter v) body).FailsWith
        (FailsAmong settings outer (tags around (.loop header body))) := fun v =>
      (failsAmong_traceAll settings context body (h.extend header.counter v)).mono fun _ =>
        .mono (List.subset_cons_self _ _)
    refine .ofSite (hbound _ fun name hn => ?_) fun start =>
      .ofSite (hbound _ fun name hn => ?_) fun stop =>
        .ofSite (hbound _ fun name hn => Header.mem_bounds_of_step hn) fun step =>
          .iterate (fun e => hsite _ (by simp)) (hsite _ (by simp)) hbody _ start
    · simp [Header.bounds, hn]
    · simp [Header.bounds, hn]

theorem failsAmong_traceAll (settings : Settings) (context : Context) :
    ∀ (ns : List Node) {scope outer : Context} {around : List String}, Covers scope outer around →
      (traceAll settings context scope ns).FailsWith
        (FailsAmong settings outer (tagsOfAll around ns))
  | [], _, _, _, _ => .done
  | n :: ns, _, _, _, h =>
    ((failsAmong_trace settings context n h).mono fun _ =>
        .mono (List.subset_append_left _ _)).andThen
      ((failsAmong_traceAll settings context ns h).mono fun _ =>
        .mono (List.subset_append_right _ _))

end

theorem failsAmong_renderInto {σ : Type} [Sink σ] {settings : Settings} {context : Context}
    {n : Node} {sink : σ} {e : RenderError}
    (h : (n.renderInto settings context sink).1 = .error e) :
    (∃ reason, e = .write reason) ∨ FailsAmong settings context (n.tags []) e := by
  rw [renderInto_eq_play] at h
  exact (error_of_play h).imp_right (failsAmong_trace settings context n (covers_self context) e)

end Node

end Stencil
