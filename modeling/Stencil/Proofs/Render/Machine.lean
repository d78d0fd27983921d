import Mathlib.Logic.Relation
import Stencil.Render.Template

/-!
Rendering in single steps. A state is what remains to be done, the error while one makes its way
out, and the pass. Every state that is reached from a tree by itself is on the way to where the
render of the tree ends.
-/

set_option autoImplicit false

namespace Stencil

/-- A loop whose bounds have their values, and how many rounds the limit leaves it. -/
structure Rounds where
  header : Header
  stop : Value
  step : Value
  body : List Node
  left : Nat

/-- A node to be rendered, the test before a round, the step after one, or the end of a counter. -/
inductive Task where
  | visit (n : Node)
  | test (r : Rounds)
  | next (r : Rounds)
  | leave (counter : String)

def Task.counter? : Task → Option String
  | .leave counter => some counter
  | _ => none

structure Machine (σ : Type) where
  tasks : List Task
  failure : Option RenderError
  pass : Pass σ

variable {σ : Type}

open Render in
/-- Does the task: what is to be done after it, before all else. -/
def Task.run [Sink σ] (settings : Settings) (context : Context) : Task → Render σ (List Task)
  | .visit (.document children) => pure (children.map .visit)
  | .visit (.text s) => do
    write s
    return []
  | .visit (.echo es) => do
    echo settings context es
    return []
  | .visit (.loop h body) => do
    let counters := (← get).counters
    let number := fun e => ofSite (.loop h) (bound settings context counters e)
    let start ← number h.start
    let stop ← number h.stop
    let step ← number (h.step.getD (.number (.int 1)))
    push h.counter start
    return [.test ⟨h, stop, step, body, settings.maxIterations⟩, .leave h.counter]
  | .test r => do
    if ← finished r.header r.stop then return []
    else
      match r.left with
      | 0 => throw (.fault (.loop r.header) (.iterationLimit settings.maxIterations))
      | left + 1 => return r.body.map .visit ++ [.next { r with left }]
  | .next r => do
    match ← ofSite (.loop r.header) (advance (← top r.header.counter) r.step) with
    | none => return []
    | some v =>
      setTop r.header.counter v
      return [.test r]
  | .leave counter => do
    pop counter
    return []

namespace Machine

def start (n : Node) (sink : σ) : Machine σ := ⟨[.visit n], none, ⟨.empty, sink⟩⟩

/-- Where a task ends that stood before `ts`. -/
def onto (ts : List Task) : EStateM.Result RenderError (Pass σ) (List Task) → Machine σ
  | .ok new p => ⟨new ++ ts, none, p⟩
  | .error e p => ⟨ts, some e, p⟩

def after (ts : List Task) : EStateM.Result RenderError (Pass σ) Unit → Machine σ
  | .ok _ p => ⟨ts, none, p⟩
  | .error e p => ⟨ts, some e, p⟩

/-- An error that meets a task: a loop is left, anything else is not done. -/
def unwind (e : RenderError) (ts : List Task) (p : Pass σ) (t : Task) : Machine σ :=
  match t.counter? with
  | none => ⟨ts, some e, p⟩
  | some counter =>
    match Render.pop counter p with
    | .ok _ q => ⟨ts, some e, q⟩
    | .error e' q => ⟨ts, some e', q⟩

theorem onto_action (ts : List Task) (m : Render σ Unit) (p : Pass σ) :
    onto ts ((do m; return []) p) = after ts (m p) := by
  change onto ts (EStateM.bind m (fun _ => pure []) p) = after ts (m p)
  rw [EStateM.bind]
  cases m p with
  | ok _ q => rfl
  | error e q => rfl

variable [Sink σ]

def step (settings : Settings) (context : Context) (m : Machine σ) : Option (Machine σ) :=
  match m.tasks, m.failure with
  | [], _ => none
  | t :: ts, none => some (onto ts (t.run settings context m.pass))
  | t :: ts, some e => some (unwind e ts m.pass t)

def Reaches (settings : Settings) (context : Context) : Machine σ → Machine σ → Prop :=
  Relation.ReflTransGen fun m m' => m.step settings context = some m'

variable {settings : Settings} {context : Context}

theorem Reaches.head {m m' m'' : Machine σ} (h : m.step settings context = some m')
    (h' : Reaches settings context m' m'') : Reaches settings context m m'' :=
  Relation.ReflTransGen.head h h'

theorem Reaches.trans {m m' m'' : Machine σ} (h : Reaches settings context m m')
    (h' : Reaches settings context m' m'') : Reaches settings context m m'' :=
  Relation.ReflTransGen.trans h h'

theorem reaches_over {ts : List Task} {e : RenderError} {p : Pass σ} :
    ∀ new : List Task, (∀ t ∈ new, t.counter? = none) →
      Reaches settings context ⟨new ++ ts, some e, p⟩ ⟨ts, some e, p⟩
  | [], _ => .refl
  | t :: new, h => by
    obtain ⟨ht, hnew⟩ := List.forall_mem_cons.1 h
    have hs : unwind e (new ++ ts) p t = ⟨new ++ ts, some e, p⟩ := by
      simp only [unwind, ht]
    exact .head (congrArg some hs) (reaches_over new hnew)

/-- The tasks that `f` gives come to where `m` ends, whatever remains after them. -/
def Does (settings : Settings) (context : Context) (f : Render σ (List Task))
    (m : Render σ Unit) : Prop :=
  ∀ ts p, Reaches settings context (onto ts (f p)) (after ts (m p))

namespace Does

variable {m m' : Render σ Unit}

theorem done : Does (σ := σ) settings context (pure []) (pure ()) := fun _ _ => .refl

theorem fail (e : RenderError) : Does (σ := σ) settings context (throw e) (throw e) :=
  fun _ _ => .refl

theorem bind {α : Type} {r : Render σ α} {f : α → Render σ (List Task)} {g : α → Render σ Unit}
    (h : ∀ a, Does settings context (f a) (g a)) :
    Does settings context (do f (← r)) (do g (← r)) := by
  intro ts p
  change Reaches settings context (onto ts (EStateM.bind r f p)) (after ts (EStateM.bind r g p))
  rw [EStateM.bind, EStateM.bind]
  cases r p with
  | ok a q => exact h a ts q
  | error e q => exact .refl

theorem action (m : Render σ Unit) : Does settings context (do m; return []) m := by
  intro ts p
  rw [onto_action]
  exact .refl

theorem task {t : Task} (h : Does settings context (t.run settings context) m) :
    Does settings context (pure [t]) m :=
  fun ts p => .head rfl (h ts p)

theorem append {new new' : List Task} (h : Does settings context (pure new) m)
    (h' : Does settings context (pure new') m') (hskip : ∀ t ∈ new', t.counter? = none) :
    Does settings context (pure (new ++ new')) (do m; m') := by
  intro ts p
  have hfirst := h (new' ++ ts) p
  change Reaches settings context ⟨(new ++ new') ++ ts, none, p⟩
    (after ts (EStateM.bind m (fun _ => m') p))
  rw [List.append_assoc, EStateM.bind]
  -- After an error of `m` the machine still holds `new'`, of which the render knows nothing.
  refine Reaches.trans hfirst ?_
  cases m p with
  | ok _ q => exact h' ts q
  | error e q => exact reaches_over new' hskip

theorem leave {t : Task} (counter : String) (h : Does settings context (pure [t]) m) :
    Does settings context (pure [t, .leave counter]) (fun p =>
      match m p with
      | .ok _ q => Render.pop counter q
      | .error e q =>
        match Render.pop counter q with
        | .ok _ q => .error e q
        | .error e' q => .error e' q) := by
  have hleave : Does (σ := σ) settings context (pure [.leave counter]) (Render.pop counter) :=
    task (action (Render.pop counter))
  intro ts p
  refine Reaches.trans (h (.leave counter :: ts) p) ?_
  cases hm : m p with
  | ok _ q =>
    simp only [hm]
    exact hleave ts q
  | error e q =>
    simp only [hm]
    refine Reaches.head rfl ?_
    simp only [unwind, Task.counter?, after]
    cases Render.pop counter q with
    | ok _ q' => exact .refl
    | error e' q' => exact .refl

theorem test {h : Header} {stop v : Value} {body : List Node}
    (hbody : Does settings context (pure (body.map .visit)) m) (left : Nat) :
    Does settings context (pure [.test ⟨h, stop, v, body, left⟩])
      (Render.iterate h settings.maxIterations stop v m left) := by
  induction left with
  | zero =>
    refine task (bind fun past => ?_)
    cases past with
    | true => exact done
    | false => exact fail _
  | succ left ih =>
    refine task (bind fun past => ?_)
    cases past with
    | true => exact done
    | false =>
      refine append hbody (task (bind fun w => bind fun next => ?_)) (by simp [Task.counter?])
      cases next with
      | none => exact done
      | some w => exact bind fun _ => ih

end Does

mutual

theorem does_visit (settings : Settings) (context : Context) : ∀ n : Node,
    Does (σ := σ) settings context (pure [.visit n]) (n.render settings context)
  | .document children => .task (does_visits settings context children)
  | .text s => .task (.action (Render.write s))
  | .echo es => .task (.action (Render.echo settings context es))
  | .loop h body => .task <| .bind fun _ => .bind fun _ => .bind fun _ => .bind fun _ =>
    .bind fun _ => .leave h.counter (.test (does_visits settings context body) _)

theorem does_visits (settings : Settings) (context : Context) : ∀ ns : List Node,
    Does (σ := σ) settings context (pure (ns.map .visit)) (Node.renderAll settings context ns)
  | [] => .done
  | n :: ns => .append (does_visit settings context n) (does_visits settings context ns) <| by
    simp [Task.counter?]

end

theorem step_end (r : EStateM.Result RenderError (Pass σ) Unit) :
    (after [] r).step settings context = none := by
  cases r with
  | ok _ p => rfl
  | error e p => rfl

/-- Whatever the machine comes to from its start, it goes on to where the tree ends. -/
theorem reaches_end {n : Node} {sink : σ} {m : Machine σ}
    (h : Reaches settings context (start n sink) m) :
    Reaches settings context m (after [] (n.render settings context ⟨.empty, sink⟩)) := by
  have hend : Reaches settings context (start n sink)
      (after [] (n.render settings context ⟨.empty, sink⟩)) :=
    does_visit settings context n [] ⟨.empty, sink⟩
  have hunique : Relator.RightUnique fun m m' : Machine σ => m.step settings context = some m' :=
    fun _ _ _ h h' => Option.some.inj (h.symm.trans h')
  rcases Relation.ReflTransGen.total_of_right_unique hunique h hend with hm | hm
  · exact hm
  · rcases Relation.ReflTransGen.cases_head hm with rfl | ⟨m', hs, -⟩
    · exact .refl
    · rw [step_end] at hs
      cases hs

end Machine

end Stencil
