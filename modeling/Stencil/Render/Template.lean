import Stencil.Echo.Evaluation
import Stencil.Settings.Script
import Stencil.Tree.Parser

set_option autoImplicit false

namespace Stencil

/-- A write goes on with the sink after it; a write that fails gives the reason. -/
class Sink (σ : Type) where
  write : String → EStateM String σ Unit

instance : Sink String where
  write s t := .ok () (t ++ s)

instance : Sink (Array String) where
  write s ws := .ok () (ws.push s)

instance : Sink ByteArray where
  write s bytes := .ok () (bytes ++ s.toUTF8)

/-- The writes that a sink has taken which has room for `room` more. -/
structure Limited where
  room : Nat
  writes : Array String
  deriving DecidableEq, Repr

instance : Sink Limited where
  write s l :=
    match l with
    | ⟨0, ws⟩ => .error "sink full" ⟨0, ws⟩
    | ⟨n + 1, ws⟩ => .ok () ⟨n, ws.push s⟩

inductive Site where
  | loop (header : Header)
  | echo (elements : List Element)
  deriving DecidableEq

/-- The tag as an error names it: an echo by its source, a loop by the words of its header. -/
def Site.source : Site → String
  | .loop header =>
    let step := match header.step with
      | some step => " " ++ step.text
      | none => ""
    "\x7b$ FOR " ++ header.counter ++ " " ++ header.start.text ++ " " ++ header.stop.text ++ step ++
      " $\x7d"
  | .echo elements => echoSource elements

inductive RenderError where
  | fault (site : Site) (fault : Fault)
  | unbound (u : Unbound)
  | write (reason : String)
  deriving DecidableEq

def RenderError.message : RenderError → String
  | .fault site f => site.source ++ ": " ++ f.message
  | .unbound u => u.message
  | .write reason => "write failed: " ++ reason

structure Pass (σ : Type) where
  counters : Stacks Value
  sink : σ

/-- The state is kept where rendering fails. -/
abbrev Render (σ : Type) := EStateM RenderError (Pass σ)

namespace Render

variable {σ : Type}

def ofSite {α : Type} (site : Site) : Except Fault α → Render σ α
  | .ok a => pure a
  | .error f => throw (.fault site f)

def write [Sink σ] (s : String) : Render σ Unit := fun ⟨counters, sink⟩ =>
  match Sink.write s sink with
  | .ok _ sink => .ok () ⟨counters, sink⟩
  | .error reason sink => .error (.write reason) ⟨counters, sink⟩

def lookup (settings : Settings) (context : Context) (counters : Stacks Value) (name : String) :
    Except Fault Value :=
  match counters.top name with
  | .ok v => .ok v
  | .error _ =>
    match context name with
    | some v => .ok v
    | none => if settings.strict then .error (.unknownVariable name) else .ok .null

/-- The number that a bound of a loop stands for; what is no constant stands for null. -/
def bound (settings : Settings) (context : Context) (counters : Stacks Value) (e : Element) :
    Except Fault Value := do
  let v ← match e with
    | .variable name => lookup settings context counters name
    | e => pure (e.constant?.getD .null)
  match v.toNumber with
  | .ok n => return .number n
  | .error e => throw (.value e)

def top (name : String) : Render σ Value := fun p =>
  match p.counters.top name with
  | .ok v => .ok v p
  | .error u => .error (.unbound u) p

def push (name : String) (v : Value) : Render σ Unit := fun p =>
  .ok () { p with counters := p.counters.push name v }

def pop (name : String) : Render σ Unit := fun p =>
  match p.counters.pop name with
  | .ok (_, counters) => .ok () { p with counters }
  | .error u => .error (.unbound u) p

def setTop (name : String) (v : Value) : Render σ Unit := fun p =>
  match p.counters.setTop name v with
  | .ok (_, counters) => .ok () { p with counters }
  | .error u => .error (.unbound u) p

/-- The value after `v`: none where an integer would leave its word. -/
def advance (v step : Value) : Except Fault (Option Value) :=
  match v, step with
  | .number (.int a), .number (.int b) =>
    .ok ((Number.ofInt? (a.toInt + b.toInt)).map .number)
  | v, step =>
    match v.apply .add step with
    | .ok w => .ok (some w)
    | .error e => .error (.value e)

def isPast (v stop : Value) : Except Fault Bool :=
  match v.compare stop with
  | .ok order => .ok (order == .gt)
  | .error e => .error (.value e)

def finished (header : Header) (stop : Value) : Render σ Bool := do
  ofSite (.loop header) (isPast (← top header.counter) stop)

/-- Runs `body` for the values of the counter from the present one up to `stop`, at most `left`
times. -/
def iterate (header : Header) (limit : Nat) (stop step : Value) (body : Render σ Unit) :
    Nat → Render σ Unit
  | 0 => do
    unless ← finished header stop do
      throw (.fault (.loop header) (.iterationLimit limit))
  | left + 1 => do
    unless ← finished header stop do
      body
      match ← ofSite (.loop header) (advance (← top header.counter) step) with
      | none => pure ()
      | some v =>
        setTop header.counter v
        iterate header limit stop step body left

/-- Runs `body` with `v` on the stack of `name`, and takes it off again whatever happens. -/
def withCounter (name : String) (v : Value) (body : Render σ Unit) : Render σ Unit := do
  push name v
  fun p =>
    match body p with
    | .ok _ q => pop name q
    | .error e q =>
      match pop name q with
      | .ok _ r => .error e r
      | .error e' r => .error e' r

def loop (settings : Settings) (context : Context) (header : Header) (body : Render σ Unit) :
    Render σ Unit := do
  let counters := (← get).counters
  let number := fun e => ofSite (.loop header) (bound settings context counters e)
  let start ← number header.start
  let stop ← number header.stop
  let step ← number (header.step.getD (.number (.int 1)))
  withCounter header.counter start
    (iterate header settings.maxIterations stop step body settings.maxIterations)

def echo [Sink σ] (settings : Settings) (context : Context) (elements : List Element) :
    Render σ Unit := do
  let counters := (← get).counters
  let v ← ofSite (.echo elements) (Echo.value context (lookup settings context counters) elements)
  write v.text

end Render

namespace Node

variable {σ : Type} [Sink σ]

mutual

def render (settings : Settings) (context : Context) : Node → Render σ Unit
  | .document children => renderAll settings context children
  | .text s => Render.write s
  | .loop header body => Render.loop settings context header (renderAll settings context body)
  | .echo elements => Render.echo settings context elements

def renderAll (settings : Settings) (context : Context) : List Node → Render σ Unit
  | [] => pure ()
  | n :: ns => do
    n.render settings context
    renderAll settings context ns

end

def renderInto (settings : Settings) (context : Context) (n : Node) (sink : σ) :
    Except RenderError Unit × σ :=
  match n.render settings context ⟨.empty, sink⟩ with
  | .ok _ p => (.ok (), p.sink)
  | .error e p => (.error e, p.sink)

end Node

inductive TemplateError where
  | parse (e : ParseError)
  | render (e : RenderError)
  deriving DecidableEq

def TemplateError.message : TemplateError → String
  | .parse e => "parse error: " ++ e.message
  | .render e => "render error: " ++ e.message

def renderString (source : String) (context : Context) : Except TemplateError String :=
  match Node.parse source with
  | .error e => .error (.parse e)
  | .ok tree =>
    match tree.renderInto .default context "" with
    | (.ok (), text) => .ok text
    | (.error e, _) => .error (.render e)

end Stencil
