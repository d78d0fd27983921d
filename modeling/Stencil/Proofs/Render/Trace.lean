import Stencil.Render.Template

/-!
Rendering without stacks and sinks: what a tree writes where its names stand for given values.
-/

set_option autoImplicit false

namespace Stencil

/-- What a render writes, and how it ends. -/
structure Trace where
  writes : List String
  result : Except RenderError Unit

namespace Trace

def done : Trace := ⟨[], .ok ()⟩

def fail (e : RenderError) : Trace := ⟨[], .error e⟩

def write (s : String) : Trace := ⟨[s], .ok ()⟩

def andThen (t u : Trace) : Trace :=
  match t.result with
  | .ok () => ⟨t.writes ++ u.writes, u.result⟩
  | .error _ => t

def ofSite {α : Type} (site : Site) (x : Except Fault α) (f : α → Trace) : Trace :=
  match x with
  | .ok a => f a
  | .error e => fail (.fault site e)

theorem andThen_of_ok {t : Trace} (h : t.result = .ok ()) (u : Trace) :
    t.andThen u = ⟨t.writes ++ u.writes, u.result⟩ := by
  simp [andThen, h]

theorem andThen_of_error {t : Trace} {e : RenderError} (h : t.result = .error e) (u : Trace) :
    t.andThen u = t := by
  simp [andThen, h]

section Play

variable {σ : Type} [Sink σ]

def playAll (result : Except RenderError Unit) : List String → σ → Except RenderError Unit × σ
  | [], sink => (result, sink)
  | w :: ws, sink =>
    match Sink.write w sink with
    | .ok _ sink => playAll result ws sink
    | .error reason sink => (.error (.write reason), sink)

def play (t : Trace) (sink : σ) : Except RenderError Unit × σ := playAll t.result t.writes sink

/-- Runs one after the other, up to the first that fails. -/
def inTurn : List (σ → Except RenderError Unit × σ) → σ → Except RenderError Unit × σ
  | [], sink => (.ok (), sink)
  | f :: fs, sink =>
    match f sink with
    | (.ok (), sink) => inTurn fs sink
    | (.error e, sink) => (.error e, sink)

theorem playAll_append (result : Except RenderError Unit) (ws vs : List String) (sink : σ) :
    playAll result (ws ++ vs) sink =
      match playAll (.ok ()) ws sink with
      | (.ok (), sink) => playAll result vs sink
      | (.error e, sink) => (.error e, sink) := by
  induction ws generalizing sink with
  | nil => rfl
  | cons w ws ih =>
    simp only [List.cons_append, playAll]
    cases Sink.write w sink with
    | ok _ sink => exact ih sink
    | error reason sink => rfl

theorem playAll_error (e : RenderError) (ws : List String) (sink : σ) :
    ∃ e' sink', playAll (.error e) ws sink = (.error e', sink') := by
  induction ws generalizing sink with
  | nil => exact ⟨e, sink, rfl⟩
  | cons w ws ih =>
    simp only [playAll]
    cases Sink.write w sink with
    | ok _ sink => exact ih sink
    | error reason sink => exact ⟨_, sink, rfl⟩

theorem play_andThen (t u : Trace) (sink : σ) :
    (t.andThen u).play sink =
      match t.play sink with
      | (.ok (), sink) => u.play sink
      | (.error e, sink) => (.error e, sink) := by
  obtain ⟨ws, r⟩ := t
  cases r with
  | ok _ => exact playAll_append u.result ws u.writes sink
  | error e =>
    obtain ⟨e', sink', h⟩ := playAll_error e ws sink
    simp [andThen, play, h]

theorem play_array (t : Trace) (ws : Array String) :
    t.play ws = (t.result, ws ++ t.writes.toArray) := by
  obtain ⟨vs, r⟩ := t
  simp only [play]
  induction vs generalizing ws with
  | nil => simp [playAll]
  | cons v vs ih =>
    simp only [playAll, Sink.write, ih]
    simp

theorem play_string (t : Trace) (s : String) :
    t.play s = (t.result, s ++ String.join t.writes) := by
  obtain ⟨vs, r⟩ := t
  simp only [play]
  induction vs generalizing s with
  | nil => simp [playAll]
  | cons v vs ih =>
    simp only [playAll, Sink.write, ih]
    simp [String.join_cons, String.append_assoc]

theorem play_bytes (t : Trace) (bytes : ByteArray) :
    t.play bytes = (t.result, bytes ++ (String.join t.writes).toUTF8) := by
  obtain ⟨vs, r⟩ := t
  simp only [play]
  induction vs generalizing bytes with
  | nil => simp [playAll]
  | cons v vs ih =>
    simp only [playAll, Sink.write, ih]
    simp [String.join_cons, ByteArray.append_assoc]

theorem play_limited (t : Trace) (room : Nat) (ws : Array String) :
    t.play (Limited.mk room ws) =
      (if t.writes.length ≤ room then t.result else .error (.write "sink full"),
        ⟨room - t.writes.length, ws ++ (t.writes.take room).toArray⟩) := by
  obtain ⟨vs, r⟩ := t
  simp only [play]
  induction vs generalizing room ws with
  | nil => simp [playAll]
  | cons v vs ih =>
    cases room with
    | zero => simp [playAll, Sink.write]
    | succ room =>
      simp only [playAll, Sink.write, ih]
      simp

end Play

end Trace

def Context.extend (context : Context) (name : String) (v : Value) : Context :=
  fun m => if m = name then some v else context m

namespace Trace

/-- The trace of a loop from the value `v` of its counter on. -/
def iterate (header : Header) (limit : Nat) (stop step : Value) (body : Value → Trace) :
    Nat → Value → Trace
  | 0, v => ofSite (.loop header) (Render.isPast v stop) fun past =>
    if past then done else fail (.fault (.loop header) (.iterationLimit limit))
  | left + 1, v => ofSite (.loop header) (Render.isPast v stop) fun past =>
    if past then done
    else (body v).andThen <| ofSite (.loop header) (Render.advance v step) fun next =>
      match next with
      | none => done
      | some w => iterate header limit stop step body left w

end Trace

namespace Node

open Trace
open Render (bound lookup)

mutual

/-- `scope` gives what the names stand for; `context` is what functions see. -/
def trace (settings : Settings) (context scope : Context) : Node → Trace
  | .document children => traceAll settings context scope children
  | .text s => .write s
  | .loop h body =>
    let number := fun e => ofSite (.loop h) (bound settings scope .empty e)
    number h.start fun start => number h.stop fun stop =>
      number (h.step.getD (.number (.int 1))) fun step =>
        iterate h settings.maxIterations stop step
          (fun v => traceAll settings context (scope.extend h.counter v) body)
          settings.maxIterations start
  | .echo es =>
    ofSite (.echo es) (Echo.value context (lookup settings scope .empty) es) fun v => .write v.text

def traceAll (settings : Settings) (context scope : Context) : List Node → Trace
  | [] => .done
  | n :: ns => (n.trace settings context scope).andThen (traceAll settings context scope ns)

end

end Node

end Stencil
