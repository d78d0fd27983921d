import Stencil.Proofs.Render.Replay

set_option autoImplicit false

namespace Stencil

namespace Node

variable {σ : Type}

mutual

/-- The order in which the nodes of a tree are rendered, for texts and echoes of any kind. -/
def renderWith (settings : Settings) (context : Context) (onText : String → Render σ Unit)
    (onEcho : List Element → Render σ Unit) : Node → Render σ Unit
  | .document children => renderAllWith settings context onText onEcho children
  | .text s => onText s
  | .loop header body =>
    Render.loop settings context header (renderAllWith settings context onText onEcho body)
  | .echo elements => onEcho elements

def renderAllWith (settings : Settings) (context : Context) (onText : String → Render σ Unit)
    (onEcho : List Element → Render σ Unit) : List Node → Render σ Unit
  | [] => pure ()
  | n :: ns => do
    n.renderWith settings context onText onEcho
    renderAllWith settings context onText onEcho ns

end

mutual

theorem render_eq_renderWith [Sink σ] (settings : Settings) (context : Context) :
    ∀ n : Node, n.render settings context =
      n.renderWith (σ := σ) settings context Render.write (Render.echo settings context)
  | .document children => by
    rw [render, renderWith, renderAll_eq_renderAllWith settings context children]
  | .text _ => by rw [render, renderWith]
  | .loop _ body => by
    rw [render, renderWith, renderAll_eq_renderAllWith settings context body]
  | .echo _ => by rw [render, renderWith]

theorem renderAll_eq_renderAllWith [Sink σ] (settings : Settings) (context : Context) :
    ∀ ns : List Node, renderAll settings context ns =
      renderAllWith (σ := σ) settings context Render.write (Render.echo settings context) ns
  | [] => by rw [renderAll, renderAllWith]
  | n :: ns => by
    rw [renderAll, renderAllWith, render_eq_renderWith settings context n,
      renderAll_eq_renderAllWith settings context ns]

end

end Node

/-- A text or an echo that a render comes to, and what the echo gives there. -/
inductive Visit where
  | text (s : String)
  | echo (elements : List Element) (value : Except Fault Value)

def Visit.written? : Visit → Option String
  | .text s => some s
  | .echo _ (.ok v) => some v.text
  | .echo _ (.error _) => none

namespace Render

def visit (v : Visit) : Render (List Visit) Unit := fun ⟨counters, visits⟩ =>
  .ok () ⟨counters, visits ++ [v]⟩

def visitEcho (settings : Settings) (context : Context) (elements : List Element) :
    Render (List Visit) Unit := do
  let counters := (← get).counters
  let value := Echo.value context (lookup settings context counters) elements
  visit (.echo elements value)
  let _ ← ofSite (.echo elements) value

end Render

def Node.visits (settings : Settings) (context : Context) (n : Node) :
    Except RenderError Unit × List Visit :=
  let visit := n.renderWith settings context (fun s => Render.visit (.text s))
    (Render.visitEcho settings context)
  match visit ⟨.empty, []⟩ with
  | .ok _ p => (.ok (), p.sink)
  | .error e p => (.error e, p.sink)

namespace Render

variable {σ τ α β : Type} {g : σ → τ}

def mapSink (g : σ → τ) :
    EStateM.Result RenderError (Pass σ) α → EStateM.Result RenderError (Pass τ) α
  | .ok a p => .ok a ⟨p.counters, g p.sink⟩
  | .error e p => .error e ⟨p.counters, g p.sink⟩

/-- `m'` does to what `g` shows of a sink what `m` does to the sink. -/
def SeenAs (g : σ → τ) (m : Render σ α) (m' : Render τ α) : Prop :=
  ∀ counters sink, m' ⟨counters, g sink⟩ = mapSink g (m ⟨counters, sink⟩)

namespace SeenAs

theorem pure (a : α) : SeenAs g (Pure.pure a) (Pure.pure a) := fun _ _ => rfl

theorem throw (e : RenderError) :
    SeenAs g (MonadExcept.throw e : Render σ α) (MonadExcept.throw e) := fun _ _ => rfl

theorem bind {m : Render σ α} {m' : Render τ α} {f : α → Render σ β} {f' : α → Render τ β}
    (h : SeenAs g m m') (hf : ∀ a, SeenAs g (f a) (f' a)) : SeenAs g (m >>= f) (m' >>= f') := by
  intro counters sink
  change EStateM.bind m' f' _ = mapSink g (EStateM.bind m f _)
  rw [EStateM.bind, EStateM.bind, h counters sink]
  cases m ⟨counters, sink⟩ with
  | ok a p => exact hf a p.counters p.sink
  | error e p => rfl

theorem ofSite (site : Site) (x : Except Fault α) :
    SeenAs g (Render.ofSite site x) (Render.ofSite site x) := by
  cases x with
  | ok a => exact pure a
  | error f => exact throw _

theorem top (name : String) : SeenAs g (Render.top name) (Render.top name) := by
  intro counters sink
  simp only [Render.top]
  cases counters.top name <;> rfl

theorem setTop (name : String) (v : Value) :
    SeenAs g (Render.setTop name v) (Render.setTop name v) := by
  intro counters sink
  simp only [Render.setTop]
  cases counters.setTop name v <;> rfl

theorem pop (name : String) : SeenAs g (Render.pop name) (Render.pop name) := by
  intro counters sink
  simp only [Render.pop]
  cases counters.pop name <;> rfl

theorem finished (header : Header) (stop : Value) :
    SeenAs g (Render.finished header stop) (Render.finished header stop) :=
  (top _).bind fun _ => ofSite _ _

variable {body : Render σ Unit} {body' : Render τ Unit}

theorem iterate (header : Header) (limit : Nat) (stop step : Value) (h : SeenAs g body body')
    (left : Nat) :
    SeenAs g (Render.iterate header limit stop step body left)
      (Render.iterate header limit stop step body' left) := by
  induction left with
  | zero =>
    refine (finished header stop).bind fun past => ?_
    cases past with
    | true => exact pure ()
    | false => exact throw _
  | succ left ih =>
    refine (finished header stop).bind fun past => ?_
    cases past with
    | true => exact pure ()
    | false =>
      refine h.bind fun _ => (top _).bind fun _ => (ofSite _ _).bind fun next => ?_
      cases next with
      | none => exact pure ()
      | some w => exact (setTop _ w).bind fun _ => ih

theorem withCounter (name : String) (v : Value) (h : SeenAs g body body') :
    SeenAs g (Render.withCounter name v body) (Render.withCounter name v body') := by
  intro counters sink
  simp only [Render.withCounter, Bind.bind, EStateM.bind, push, h _ sink]
  cases body ⟨counters.push name v, sink⟩ with
  | ok _ p => exact pop name p.counters p.sink
  | error e p =>
    simp only [mapSink, pop name p.counters p.sink]
    cases Render.pop name p <;> rfl

theorem loop (settings : Settings) (context : Context) (header : Header)
    (h : SeenAs g body body') :
    SeenAs g (Render.loop settings context header body)
      (Render.loop settings context header body') := by
  intro counters sink
  refine (ofSite _ _).bind (fun start => (ofSite _ _).bind fun stop =>
    (ofSite _ _).bind fun step => ?_) counters sink
  exact withCounter header.counter start (iterate header _ stop step h _)

end SeenAs

end Render

open Render (SeenAs)

namespace Node

variable {σ τ : Type} {g : σ → τ} {onText : String → Render σ Unit}
  {onText' : String → Render τ Unit} {onEcho : List Element → Render σ Unit}
  {onEcho' : List Element → Render τ Unit}

mutual

theorem renderWith_seenAs (settings : Settings) (context : Context)
    (ht : ∀ s, SeenAs g (onText s) (onText' s)) (he : ∀ es, SeenAs g (onEcho es) (onEcho' es)) :
    ∀ n : Node, SeenAs g (n.renderWith settings context onText onEcho)
      (n.renderWith settings context onText' onEcho')
  | .document children => by
    rw [renderWith, renderWith]
    exact renderAllWith_seenAs settings context ht he children
  | .text s => by
    rw [renderWith, renderWith]
    exact ht s
  | .loop header body => by
    rw [renderWith, renderWith]
    exact .loop settings context header (renderAllWith_seenAs settings context ht he body)
  | .echo es => by
    rw [renderWith, renderWith]
    exact he es

theorem renderAllWith_seenAs (settings : Settings) (context : Context)
    (ht : ∀ s, SeenAs g (onText s) (onText' s)) (he : ∀ es, SeenAs g (onEcho es) (onEcho' es)) :
    ∀ ns : List Node, SeenAs g (renderAllWith settings context onText onEcho ns)
      (renderAllWith settings context onText' onEcho' ns)
  | [] => by
    rw [renderAllWith, renderAllWith]
    exact .pure ()
  | n :: ns => by
    rw [renderAllWith, renderAllWith]
    exact (renderWith_seenAs settings context ht he n).bind fun _ =>
      renderAllWith_seenAs settings context ht he ns

end

end Node

def writesOf (visits : List Visit) : Array String := (visits.filterMap Visit.written?).toArray

theorem Render.write_seenAs {v : Visit} {s : String} (h : v.written? = some s) :
    SeenAs writesOf (visit v) (write s) := by
  intro counters visits
  simp [write, visit, mapSink, Sink.write, writesOf, h]

theorem Render.echo_seenAs (settings : Settings) (context : Context) (es : List Element) :
    SeenAs writesOf (visitEcho settings context es) (echo settings context es) := by
  intro counters visits
  have hv : ∀ value : Except Fault Value,
      (do
        let v ← ofSite (.echo es) value
        write v.text) ⟨counters, writesOf visits⟩ =
        mapSink writesOf ((do
          visit (.echo es value)
          let _ ← ofSite (.echo es) value) ⟨counters, visits⟩) := by
    intro value
    cases value with
    | ok v =>
      have hw : (Visit.echo es (.ok v)).written? = some v.text := rfl
      exact write_seenAs hw counters visits
    | error f =>
      change EStateM.Result.error _ _ = EStateM.Result.error _ _
      simp [writesOf, Visit.written?]
  exact hv _

namespace Node

theorem renderInto_eq_visits (settings : Settings) (context : Context) (n : Node) :
    n.renderInto settings context (#[] : Array String) =
      ((n.visits settings context).1, writesOf (n.visits settings context).2) := by
  have hv := renderWith_seenAs settings context (fun s => Render.write_seenAs (v := .text s) rfl)
    (Render.echo_seenAs settings context) n .empty []
  change n.renderWith settings context _ _ ⟨.empty, #[]⟩ = _ at hv
  simp only [renderInto, visits, render_eq_renderWith, hv]
  cases n.renderWith settings context _ _ (⟨.empty, []⟩ : Pass (List Visit)) <;> rfl

end Node

/-- A render makes a write for each text that it comes to and for each echo that has a value there,
and none for an echo that fails. A text and bytes take their concatenation; a sink with room for
some of them takes the prefix of that length. -/
theorem renderInto_sinks (settings : Settings) (context : Context) (n : Node) :
    ∃ (r : Except RenderError Unit) (visits : List Visit) (ws : List String),
      n.visits settings context = (r, visits) ∧ ws = visits.filterMap Visit.written? ∧
      n.renderInto settings context (#[] : Array String) = (r, ws.toArray) ∧
      (∀ text : String,
        n.renderInto settings context text = (r, text ++ String.join ws)) ∧
      (∀ bytes : ByteArray,
        n.renderInto settings context bytes = (r, bytes ++ (String.join ws).toUTF8)) ∧
      (∀ room, n.renderInto settings context (Limited.mk room #[]) =
        (if ws.length ≤ room then r else .error (.write "sink full"),
          ⟨room - ws.length, (ws.take room).toArray⟩)) ∧
      ∀ {σ : Type} [Sink σ] (sink : σ),
        n.renderInto settings context sink = Trace.playAll r ws sink := by
  have hv := n.renderInto_eq_visits settings context
  rw [Node.renderInto_eq_play, Trace.play_array, Prod.mk.injEq] at hv
  generalize ht : n.trace settings context context = t at hv
  have hw : t.writes = (n.visits settings context).2.filterMap Visit.written? := by
    simpa [writesOf] using hv.2
  refine ⟨t.result, _, t.writes, Prod.ext hv.1.symm rfl, hw, ?_⟩
  simp only [Node.renderInto_eq_play, ht]
  refine ⟨?_, fun text => t.play_string text, fun bytes => t.play_bytes bytes, fun room => ?_,
    fun _ => rfl⟩
  · simp [Trace.play_array]
  · simp [Trace.play_limited]

end Stencil
