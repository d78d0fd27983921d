import Mathlib.Algebra.Order.Ring.Nat
import Stencil.Proofs.Render.Counts
import Stencil.Proofs.Render.Sinks

/-!
How often a loop runs its body, counted beside the sink, and how many writes a tree makes at most.
-/

set_option autoImplicit false

namespace Stencil

namespace Render

variable {σ α β : Type}

/-- Does `m`, and counts beside the sink that it has been begun once more. -/
def counted (m : Render σ Unit) : Render (σ × Nat) Unit := fun ⟨counters, sink, runs⟩ =>
  match m ⟨counters, sink⟩ with
  | .ok _ p => .ok () ⟨p.counters, p.sink, runs + 1⟩
  | .error e p => .error e ⟨p.counters, p.sink, runs + 1⟩

def runsOf : EStateM.Result RenderError (Pass (σ × Nat)) α → Nat
  | .ok _ p => p.sink.2
  | .error _ p => p.sink.2

theorem counted_seenAs (m : Render σ Unit) : SeenAs Prod.fst (counted m) m := by
  rintro counters ⟨sink, runs⟩
  simp only [counted]
  cases m ⟨counters, sink⟩ <;> rfl

def RunsAtMost (k : Nat) (m : Render (σ × Nat) α) : Prop := ∀ p, runsOf (m p) ≤ p.sink.2 + k

namespace RunsAtMost

variable {j k : Nat}

theorem pure (a : α) : RunsAtMost 0 (Pure.pure a : Render (σ × Nat) α) := fun _ => Nat.le_refl _

theorem throw (e : RenderError) : RunsAtMost 0 (MonadExcept.throw e : Render (σ × Nat) α) :=
  fun _ => Nat.le_refl _

theorem mono {m : Render (σ × Nat) α} (h : RunsAtMost j m) (hk : j ≤ k) : RunsAtMost k m :=
  fun p => Nat.le_trans (h p) (Nat.add_le_add_left hk _)

theorem bind {m : Render (σ × Nat) α} {f : α → Render (σ × Nat) β} (h : RunsAtMost j m)
    (hf : ∀ a, RunsAtMost k (f a)) : RunsAtMost (j + k) (m >>= f) := by
  intro p
  have hm := h p
  change runsOf (EStateM.bind m f p) ≤ _
  rw [EStateM.bind]
  cases hr : m p with
  | ok a q =>
    have hq := hf a q
    simp only [hr, runsOf] at hm
    dsimp only
    omega
  | error e q =>
    simp only [hr, runsOf] at hm ⊢
    omega

theorem after {m : Render (σ × Nat) α} {f : α → Render (σ × Nat) β} (h : RunsAtMost 0 m)
    (hf : ∀ a, RunsAtMost k (f a)) : RunsAtMost k (m >>= f) :=
  (h.bind hf).mono (Nat.le_of_eq (Nat.zero_add k))

theorem ofSite (site : Site) (x : Except Fault α) :
    RunsAtMost 0 (Render.ofSite site x : Render (σ × Nat) α) := by
  cases x with
  | ok a => exact pure a
  | error f => exact throw _

theorem top (name : String) : RunsAtMost 0 (Render.top name : Render (σ × Nat) Value) := by
  intro p
  simp only [Render.top]
  cases p.counters.top name <;> exact Nat.le_refl _

theorem setTop (name : String) (v : Value) :
    RunsAtMost 0 (Render.setTop name v : Render (σ × Nat) Unit) := by
  intro p
  simp only [Render.setTop]
  cases p.counters.setTop name v <;> exact Nat.le_refl _

theorem pop (name : String) : RunsAtMost 0 (Render.pop name : Render (σ × Nat) Unit) := by
  intro p
  simp only [Render.pop]
  cases p.counters.pop name <;> exact Nat.le_refl _

theorem finished (header : Header) (stop : Value) :
    RunsAtMost 0 (Render.finished header stop : Render (σ × Nat) Bool) :=
  (top _).after fun _ => ofSite _ _

theorem counted (m : Render σ Unit) : RunsAtMost 1 (Render.counted m) := by
  rintro ⟨counters, sink, runs⟩
  simp only [Render.counted]
  cases m ⟨counters, sink⟩ <;> exact Nat.le_refl _

variable {body : Render (σ × Nat) Unit}

theorem iterate (h : RunsAtMost 1 body) (header : Header) (limit : Nat) (stop step : Value)
    (left : Nat) : RunsAtMost left (Render.iterate header limit stop step body left) := by
  induction left with
  | zero =>
    refine (finished header stop).after fun past => ?_
    cases past with
    | true => exact pure ()
    | false => exact throw _
  | succ left ih =>
    refine RunsAtMost.mono (j := 1 + left) ?_ (by omega)
    refine (finished header stop).after fun past => ?_
    cases past with
    | true => exact (pure ()).mono (Nat.zero_le _)
    | false =>
      refine h.bind fun _ => (top _).after fun _ => (ofSite _ _).after fun next => ?_
      cases next with
      | none => exact (pure ()).mono (Nat.zero_le _)
      | some w => exact (setTop _ w).after fun _ => ih

theorem withCounter (h : RunsAtMost k body) (name : String) (v : Value) :
    RunsAtMost k (Render.withCounter name v body) := by
  intro p
  have hb := h ⟨p.counters.push name v, p.sink⟩
  simp only [Render.withCounter, Bind.bind, EStateM.bind, push]
  cases hr : body ⟨p.counters.push name v, p.sink⟩ with
  | ok _ q =>
    have hp := pop name q
    simp only [hr, runsOf] at hb
    exact Nat.le_trans hp hb
  | error e q =>
    have hp := pop name q
    simp only [hr, runsOf] at hb
    cases hr' : Render.pop name q <;> simp only [hr', runsOf] at hp ⊢ <;> omega

theorem loop (h : RunsAtMost 1 body) (settings : Settings) (context : Context) (header : Header) :
    RunsAtMost settings.maxIterations (Render.loop settings context header body) := by
  intro p
  refine (ofSite _ _).after (fun start => (ofSite _ _).after fun stop =>
    (ofSite _ _).after fun step => ?_) p
  exact (h.iterate header _ stop step _).withCounter header.counter start

end RunsAtMost

end Render

namespace Trace

def WritesAtMost (k : Nat) (t : Trace) : Prop := t.writes.length ≤ k

namespace WritesAtMost

variable {j k : Nat} {t u : Trace}

theorem done : Trace.done.WritesAtMost k := Nat.zero_le k

theorem fail (e : RenderError) : (Trace.fail e).WritesAtMost k := Nat.zero_le k

theorem write (s : String) : (Trace.write s).WritesAtMost 1 := Nat.le_refl 1

theorem mono (h : t.WritesAtMost j) (hk : j ≤ k) : t.WritesAtMost k := Nat.le_trans h hk

theorem andThen (h : t.WritesAtMost j) (hu : u.WritesAtMost k) :
    (t.andThen u).WritesAtMost (j + k) := by
  cases ht : t.result with
  | ok _ =>
    rw [andThen_of_ok ht, WritesAtMost, List.length_append]
    exact Nat.add_le_add h hu
  | error e =>
    rw [andThen_of_error ht]
    exact h.mono (Nat.le_add_right j k)

theorem ofSite {α : Type} {site : Site} {x : Except Fault α} {f : α → Trace}
    (h : ∀ a, (f a).WritesAtMost k) : (Trace.ofSite site x f).WritesAtMost k := by
  cases x with
  | ok a => exact h a
  | error e => exact fail _

theorem iterate {header : Header} {limit : Nat} {stop step : Value} {body : Value → Trace}
    (hbody : ∀ v, (body v).WritesAtMost k) (left : Nat) (v : Value) :
    (Trace.iterate header limit stop step body left v).WritesAtMost (left * k) := by
  induction left generalizing v with
  | zero =>
    refine ofSite fun past => ?_
    cases past with
    | true => exact done
    | false => exact fail _
  | succ left ih =>
    refine ofSite fun past => ?_
    cases past with
    | true => exact done
    | false =>
      rw [Nat.succ_mul, Nat.add_comm]
      refine (hbody v).andThen (ofSite fun next => ?_)
      cases next with
      | none => exact done
      | some w => exact ih w

end WritesAtMost

end Trace

namespace Census

/-- How often the texts and echoes of a tree can be written if no loop has more than `limit` rounds.
The limit counts for one at least: what stands outside the loops is written all the same. -/
def volume (c : Census) (limit : Nat) : Nat := (c.texts + c.echoes) * max 1 limit ^ c.depth

theorem volume_beside (a b : Census) (limit : Nat) :
    a.volume limit + b.volume limit ≤ (a.beside b).volume limit := by
  have hbase : 0 < max 1 limit := by omega
  have ha : a.volume limit ≤ (a.texts + a.echoes) * max 1 limit ^ max a.depth b.depth :=
    Nat.mul_le_mul_left _ (Nat.pow_le_pow_right hbase (Nat.le_max_left ..))
  have hb : b.volume limit ≤ (b.texts + b.echoes) * max 1 limit ^ max a.depth b.depth :=
    Nat.mul_le_mul_left _ (Nat.pow_le_pow_right hbase (Nat.le_max_right ..))
  calc a.volume limit + b.volume limit
      ≤ (a.texts + a.echoes + (b.texts + b.echoes)) * max 1 limit ^ max a.depth b.depth := by
        rw [Nat.add_mul]
        exact Nat.add_le_add ha hb
    _ = (a.beside b).volume limit := by
        rw [volume, beside, Nat.add_add_add_comm]

end Census

namespace Node

open Trace

mutual

theorem writesAtMost_trace (settings : Settings) (context : Context) :
    ∀ (n : Node) (scope : Context), (n.trace settings context scope).WritesAtMost
      (n.census.volume settings.maxIterations)
  | .document children, scope => writesAtMost_traceAll settings context children scope
  | .text s, _ => (WritesAtMost.write s).mono (by simp [census, Census.volume, Census.empty])
  | .echo es, _ => .ofSite fun v =>
    (WritesAtMost.write v.text).mono (by simp [census, Census.volume, Census.empty])
  | .loop h body, scope => by
    have hbody : ∀ v, (traceAll settings context (scope.extend h.counter v) body).WritesAtMost
        ((censusAll body).volume settings.maxIterations) :=
      fun v => writesAtMost_traceAll settings context body _
    -- The rounds are one factor more, and the loop is one level more.
    have hrounds : settings.maxIterations * (censusAll body).volume settings.maxIterations ≤
        (census (.loop h body)).volume settings.maxIterations := by
      simp only [census, Census.volume]
      rw [Nat.mul_comm, Nat.pow_succ, ← Nat.mul_assoc]
      exact Nat.mul_le_mul_left _ (Nat.le_max_right ..)
    exact .ofSite fun start => .ofSite fun stop => .ofSite fun step =>
      (WritesAtMost.iterate hbody _ start).mono hrounds

theorem writesAtMost_traceAll (settings : Settings) (context : Context) :
    ∀ (ns : List Node) (scope : Context), (traceAll settings context scope ns).WritesAtMost
      ((censusAll ns).volume settings.maxIterations)
  | [], _ => .done
  | n :: ns, scope =>
    ((writesAtMost_trace settings context n scope).andThen
      (writesAtMost_traceAll settings context ns scope)).mono (Census.volume_beside ..)

end

end Node

open Node Render in
/-- In every state of a render, a loop begins its body at most as often as the limit allows, as one
that counts this shows. All writes of a render, into any sink, are at most as many as its texts and
echoes, times the limit, or one if that is zero, for each loop around the innermost place. -/
theorem renderInto_volume (settings : Settings) (context : Context) :
    (∀ {σ : Type} [Sink σ] (h : Header) (body : List Node) (p : Pass σ),
      let r := Render.loop settings context h (counted (renderAll settings context body))
        ⟨p.counters, p.sink, 0⟩
      mapSink Prod.fst r = (Node.loop h body).render settings context p ∧
        runsOf r ≤ settings.maxIterations) ∧
    ∀ n : Node, ∃ (r : Except RenderError Unit) (ws : List String),
      n.renderInto settings context (#[] : Array String) = (r, ws.toArray) ∧
      ws.length ≤
        (n.census.texts + n.census.echoes) * max 1 settings.maxIterations ^ n.census.depth ∧
      ∀ {σ : Type} [Sink σ] (sink : σ),
        n.renderInto settings context sink = Trace.playAll r ws sink := by
  refine ⟨fun {σ} _ h body p => ⟨?_, ?_⟩, fun n => ?_⟩
  · have hs : SeenAs Prod.fst _ (renderAll (σ := σ) settings context body) := counted_seenAs _
    exact (hs.loop settings context h p.counters (p.sink, 0)).symm
  · have hr := (RunsAtMost.counted (renderAll (σ := σ) settings context body)).loop settings context
      h ⟨p.counters, p.sink, 0⟩
    simpa using hr
  · refine ⟨(n.trace settings context context).result, _, ?_,
      writesAtMost_trace settings context n context, renderInto_eq_play settings context n⟩
    simp [renderInto_eq_play, Trace.play_array]

end Stencil
