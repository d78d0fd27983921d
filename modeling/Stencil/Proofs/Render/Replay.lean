import Stencil.Proofs.Render.Trace

/-!
Rendering as playing a trace: whatever the stacks and the sink, a tree writes what its trace does,
and leaves every stack as it was.
-/

set_option autoImplicit false

namespace Stencil

namespace Stacks

variable {α : Type}

def Same (s t : Stacks α) : Prop := ∀ m, t.stack m = s.stack m

def Over (s : Stacks α) (name : String) (a : α) (t : Stacks α) : Prop :=
  ∀ m, t.stack m = if m = name then a :: s.stack name else s.stack m

variable {s t u : Stacks α} {name : String} {a b : α}

theorem Same.trans (h : s.Same t) (hu : t.Same u) : s.Same u := fun m => (hu m).trans (h m)

theorem Over.same (h : s.Over name a t) (hu : t.Same u) : s.Over name a u :=
  fun m => (hu m).trans (h m)

theorem over_push (s : Stacks α) (name : String) (a : α) : s.Over name a (s.push name a) := by
  intro m
  simp [push]

theorem Over.stack (h : s.Over name a t) : t.stack name = a :: s.stack name := by
  simp [h name]

theorem Over.top (h : s.Over name a t) : t.top name = .ok a := by
  simp [Stacks.top, h.stack]

theorem Over.pop (h : s.Over name a t) : ∃ u, t.pop name = .ok (a, u) ∧ s.Same u := by
  refine ⟨t.replace name (s.stack name), by simp [Stacks.pop, h.stack], fun m => ?_⟩
  rw [stack_replace]
  split
  · rename_i hm
    rw [hm]
  · rename_i hm
    simp [h m, hm]

theorem Over.setTop (h : s.Over name a t) (b : α) :
    ∃ u, t.setTop name b = .ok (a, u) ∧ s.Over name b u := by
  refine ⟨t.replace name (b :: s.stack name), by simp [Stacks.setTop, h.stack], fun m => ?_⟩
  rw [stack_replace]
  split
  · rfl
  · rename_i hm
    simp [h m, hm]

@[simp] theorem stack_empty (name : String) : (empty : Stacks α).stack name = [] := by
  simp [stack, empty]

end Stacks

namespace Render

variable {settings : Settings} {context : Context} {k k' : Stacks Value}

/-- What the names stand for: the innermost loop that counts with one, else the context. -/
def scope (context : Context) (k : Stacks Value) : Context := fun name =>
  match k.stack name with
  | v :: _ => some v
  | [] => context name

theorem scope_same (h : k.Same k') : scope context k' = scope context k := by
  funext m
  simp [scope, h m]

theorem scope_over {name : String} {v : Value} (h : k.Over name v k') :
    scope context k' = (scope context k).extend name v := by
  funext m
  by_cases hm : m = name
  · subst hm
    simp [scope, Context.extend, h.stack]
  · simp [scope, Context.extend, h m, hm]

theorem scope_empty (context : Context) : scope context .empty = context := by
  funext m
  simp [scope]

theorem lookup_scope (settings : Settings) (context : Context) (k : Stacks Value) :
    lookup settings context k = lookup settings (scope context k) .empty := by
  funext name
  unfold lookup Stacks.top scope
  cases h : k.stack name with
  | nil => simp
  | cons v vs => simp

theorem bound_scope (settings : Settings) (context : Context) (k : Stacks Value) (e : Element) :
    bound settings context k e = bound settings (scope context k) .empty e := by
  unfold bound
  rw [lookup_scope]

variable {σ : Type} [Sink σ]

def ending : Except RenderError Unit × σ → Stacks Value → EStateM.Result RenderError (Pass σ) Unit
  | (.ok (), sink), k => .ok () ⟨k, sink⟩
  | (.error e, sink), k => .error e ⟨k, sink⟩

/-- How `m` ends over the stacks `k`, and the sink after it. -/
def outcome (m : Render σ Unit) (k : Stacks Value) (sink : σ) : Except RenderError Unit × σ :=
  match m ⟨k, sink⟩ with
  | .ok _ p => (.ok (), p.sink)
  | .error e p => (.error e, p.sink)

/-- Over the stacks `k` and into any sink, `m` plays `t` and leaves stacks that `keeps` holds of. -/
def Plays (m : Render σ Unit) (k : Stacks Value) (keeps : Stacks Value → Prop) (t : Trace) : Prop :=
  ∀ sink, ∃ k', keeps k' ∧ m ⟨k, sink⟩ = ending (t.play sink) k'

namespace Plays

variable {m m' : Render σ Unit} {keeps keeps' : Stacks Value → Prop} {t u : Trace}

theorem done (h : keeps k) : Plays (pure () : Render σ Unit) k keeps .done :=
  fun _ => ⟨k, h, rfl⟩

theorem fail {e : RenderError} (h : keeps k) :
    Plays (throw e : Render σ Unit) k keeps (.fail e) :=
  fun _ => ⟨k, h, rfl⟩

theorem write {s : String} (h : keeps k) :
    Plays (Render.write s : Render σ Unit) k keeps (.write s) := by
  intro sink
  refine ⟨k, h, ?_⟩
  simp only [Render.write, Trace.write, Trace.play, Trace.playAll]
  cases Sink.write s sink with
  | ok _ sink => rfl
  | error reason sink => rfl

theorem outcome_eq (h : Plays m k keeps t) (sink : σ) : outcome m k sink = t.play sink := by
  obtain ⟨k', -, hm⟩ := h sink
  rw [outcome, hm]
  cases t.play sink with
  | mk r sink' => cases r <;> rfl

theorem mono (h : Plays m k keeps t) (hk : ∀ k', keeps k' → keeps' k') : Plays m k keeps' t := by
  intro sink
  obtain ⟨k', hk', hm⟩ := h sink
  exact ⟨k', hk k' hk', hm⟩

theorem andThen (h : Plays m k keeps t) (hu : ∀ k', keeps k' → Plays m' k' keeps' u)
    (hk : ∀ k', keeps k' → keeps' k') : Plays (do m; m') k keeps' (t.andThen u) := by
  intro sink
  obtain ⟨k', hk', hm⟩ := h sink
  rw [Trace.play_andThen]
  cases ht : t.play sink with
  | mk r sink' =>
    cases r with
    | ok _ =>
      obtain ⟨k'', hk'', hm'⟩ := hu k' hk' sink'
      refine ⟨k'', hk'', ?_⟩
      change EStateM.bind m (fun _ => m') ⟨k, sink⟩ = _
      rw [EStateM.bind, hm, ht]
      exact hm'
    | error e =>
      refine ⟨k', hk k' hk', ?_⟩
      change EStateM.bind m (fun _ => m') ⟨k, sink⟩ = _
      rw [EStateM.bind, hm, ht]
      rfl

theorem ofSite {α : Type} {site : Site} {x : Except Fault α} {f : α → Render σ Unit}
    {g : α → Trace} (hk : keeps k) (h : ∀ a, Plays (f a) k keeps (g a)) :
    Plays (do f (← Render.ofSite site x)) k keeps (.ofSite site x g) := by
  cases x with
  | ok a => exact h a
  | error e => exact fun _ => ⟨k, hk, rfl⟩

theorem read {α : Type} {r : Render σ α} {a : α} {f : α → Render σ Unit}
    (hr : ∀ sink, r ⟨k, sink⟩ = .ok a ⟨k, sink⟩) (h : Plays (f a) k keeps t) :
    Plays (do f (← r)) k keeps t := by
  intro sink
  obtain ⟨k', hk', hm⟩ := h sink
  refine ⟨k', hk', ?_⟩
  change EStateM.bind r f ⟨k, sink⟩ = _
  rw [EStateM.bind, hr]
  exact hm

theorem change {r : Render σ Unit} {k' : Stacks Value}
    (hr : ∀ sink, r ⟨k, sink⟩ = .ok () ⟨k', sink⟩) (h : Plays m k' keeps t) :
    Plays (do r; m) k keeps t := by
  intro sink
  obtain ⟨k'', hk', hm⟩ := h sink
  refine ⟨k'', hk', ?_⟩
  change EStateM.bind r (fun _ => m) ⟨k, sink⟩ = _
  rw [EStateM.bind, hr]
  exact hm

theorem keepsCounter {name : String} {v : Value} (t : Context → Trace)
    (h : Plays m k' k'.Same (t (scope context k'))) (hk : k.Over name v k') :
    Plays m k' (k.Over name v) (t ((scope context k).extend name v)) := by
  rw [← scope_over hk]
  exact h.mono fun _ hs => hk.same hs

end Plays

section Loop

variable {header : Header} {limit : Nat} {stop step : Value} {body : Render σ Unit}
  {trace : Value → Trace}

theorem plays_finished {v : Value} {f : Bool → Render σ Unit} {g : Bool → Trace}
    {keeps : Stacks Value → Prop} (h : k.Over header.counter v k') (hk : keeps k')
    (hf : ∀ b, Plays (f b) k' keeps (g b)) :
    Plays (do f (← finished header stop)) k' keeps
      (.ofSite (.loop header) (isPast v stop) g) := by
  have ht : ∀ sink : σ, top header.counter ⟨k', sink⟩ = .ok v ⟨k', sink⟩ := by
    intro sink
    simp [top, h.top]
  have hs : Plays (do f (← Render.ofSite (.loop header) (isPast v stop))) k' keeps
      (.ofSite (.loop header) (isPast v stop) g) := .ofSite hk hf
  have hr := Plays.read (f := fun w => do f (← Render.ofSite (.loop header) (isPast w stop))) ht hs
  simpa [finished] using hr

theorem plays_iterate
    (hbody : ∀ v k', k.Over header.counter v k' → Plays body k' (k.Over header.counter v) (trace v))
    {left : Nat} {v : Value} (h : k.Over header.counter v k') :
    Plays (iterate header limit stop step body left) k' (fun l => ∃ w, k.Over header.counter w l)
      (Trace.iterate header limit stop step trace left v) := by
  induction left generalizing v k' with
  | zero =>
    refine plays_finished h ⟨v, h⟩ fun past => ?_
    cases past with
    | true => exact .done ⟨v, h⟩
    | false => exact .fail ⟨v, h⟩
  | succ left ih =>
    refine plays_finished h ⟨v, h⟩ fun past => ?_
    cases past with
    | true => exact .done ⟨v, h⟩
    | false =>
      refine Plays.andThen (hbody v k' h) (fun l hl => ?_) fun l hl => ⟨v, hl⟩
      have ht : ∀ sink : σ, top header.counter ⟨l, sink⟩ = .ok v ⟨l, sink⟩ := by
        intro sink
        simp [top, hl.top]
      refine Plays.read ht (Plays.ofSite ⟨v, hl⟩ fun next => ?_)
      cases next with
      | none => exact .done ⟨v, hl⟩
      | some w =>
        obtain ⟨l', hset, hl'⟩ := hl.setTop w
        have hs : ∀ sink : σ, setTop header.counter w ⟨l, sink⟩ = .ok () ⟨l', sink⟩ := by
          intro sink
          simp [setTop, hset]
        exact .change hs (ih hl')

theorem plays_withCounter {name : String} {v : Value} {t : Trace}
    (h : ∀ l, k.Over name v l → Plays body l (fun l => ∃ w, k.Over name w l) t) :
    Plays (withCounter name v body) k k.Same t := by
  intro sink
  obtain ⟨l, ⟨w, hw⟩, hb⟩ := h _ (k.over_push name v) sink
  obtain ⟨k', hp, hk'⟩ := hw.pop
  refine ⟨k', hk', ?_⟩
  simp only [withCounter, bind, EStateM.bind, push, hb]
  cases t.play sink with
  | mk r sink' =>
    cases r with
    | ok _ => simp [ending, pop, hp]
    | error e => simp [ending, pop, hp]

end Loop

end Render

open Render

namespace Node

variable {σ : Type} [Sink σ]

mutual

/-- A tree renders as its trace is played, and leaves the stacks as they were. -/
theorem plays_render (settings : Settings) (context : Context) : ∀ (n : Node) (k : Stacks Value),
    Plays (σ := σ) (n.render settings context) k k.Same
      (n.trace settings context (scope context k))
  | .document children, k => by
    rw [render, trace]
    exact plays_renderAll settings context children k
  | .text s, k => by
    rw [render, trace]
    exact .write fun _ => rfl
  | .echo es, k => by
    rw [render, trace, ← lookup_scope]
    have he : Plays (do
        let v ← Render.ofSite (.echo es) (Echo.value context (lookup settings context k) es)
        Render.write (σ := σ) v.text) k k.Same _ :=
      .ofSite (fun _ => rfl) fun v => .write fun _ => rfl
    exact fun sink => he sink
  | .loop h body, k => by
    have hb : ∀ v l, k.Over h.counter v l → Plays (renderAll (σ := σ) settings context body) l
        (k.Over h.counter v)
        (traceAll settings context ((scope context k).extend h.counter v) body) :=
      fun v l hl => .keepsCounter (traceAll settings context · body)
        (plays_renderAll settings context body l) hl
    rw [render, trace]
    simp only [← bound_scope]
    have hl : Plays (do
        let start ← Render.ofSite (.loop h) (bound settings context k h.start)
        let stop ← Render.ofSite (.loop h) (bound settings context k h.stop)
        let step ← Render.ofSite (.loop h)
          (bound settings context k (h.step.getD (.number (.int 1))))
        withCounter h.counter start (iterate h settings.maxIterations stop step
          (renderAll (σ := σ) settings context body) settings.maxIterations)) k k.Same _ :=
      .ofSite (fun _ => rfl) fun start => .ofSite (fun _ => rfl) fun stop =>
        .ofSite (fun _ => rfl) fun step => plays_withCounter fun l hl => plays_iterate hb hl
    exact fun sink => hl sink

theorem plays_renderAll (settings : Settings) (context : Context) :
    ∀ (ns : List Node) (k : Stacks Value),
      Plays (σ := σ) (renderAll settings context ns) k k.Same
        (traceAll settings context (scope context k) ns)
  | [], k => by
    rw [renderAll, traceAll]
    exact .done fun _ => rfl
  | n :: ns, k => by
    rw [renderAll, traceAll]
    refine .andThen (plays_render settings context n k) (fun k' hk => ?_) fun _ h => h
    rw [← scope_same hk]
    exact (plays_renderAll settings context ns k').mono fun _ h => hk.trans h

end

theorem outcome_render (settings : Settings) (context : Context) (n : Node) (k : Stacks Value)
    (sink : σ) :
    outcome (n.render settings context) k sink =
      (n.trace settings context (scope context k)).play sink :=
  (plays_render settings context n k).outcome_eq sink

theorem outcome_echo (settings : Settings) (context : Context) (es : List Element)
    (k : Stacks Value) (sink : σ) :
    outcome ((Node.echo es).render settings context) k sink =
      (Trace.ofSite (.echo es) (Echo.value context (lookup settings context k) es)
        fun v => .write v.text).play sink := by
  rw [outcome_render, trace, ← lookup_scope]

theorem renderInto_eq_play (settings : Settings) (context : Context) (n : Node) (sink : σ) :
    n.renderInto settings context sink = (n.trace settings context context).play sink := by
  have h := outcome_render settings context n .empty sink
  rwa [scope_empty] at h

end Node

end Stencil
