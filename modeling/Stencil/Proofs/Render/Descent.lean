import Stencil.Proofs.Render.Unrolling

/-! Loops whose step is not positive, which end at the limit or below the least integer. -/

set_option autoImplicit false

namespace Stencil

namespace Trace

variable {σ : Type}

theorem inTurn_append (fs gs : List (σ → Except RenderError Unit × σ)) (sink : σ) :
    inTurn (fs ++ gs) sink =
      match inTurn fs sink with
      | (.ok (), sink) => inTurn gs sink
      | (.error e, sink) => (.error e, sink) := by
  induction fs generalizing sink with
  | nil => rfl
  | cons f fs ih =>
    simp only [List.cons_append, inTurn]
    cases f sink with
    | mk r sink' =>
      cases r with
      | ok _ => exact ih sink'
      | error e => rfl

theorem inTurn_of_ok {fs : List (σ → Except RenderError Unit × σ)}
    (h : ∀ f ∈ fs, ∀ sink, (f sink).1 = .ok ()) (sink : σ) : (inTurn fs sink).1 = .ok () := by
  induction fs generalizing sink with
  | nil => rfl
  | cons f fs ih =>
    rw [List.forall_mem_cons] at h
    have hf := h.1 sink
    simp only [inTurn]
    cases hs : f sink with
    | mk r sink' =>
      rw [hs] at hf
      cases hf
      exact ih h.2 sink'

theorem inTurn_concat_of_ok {fs : List (σ → Except RenderError Unit × σ)}
    (h : ∀ f ∈ fs, ∀ sink, (f sink).1 = .ok ()) (g : σ → Except RenderError Unit) (sink : σ) :
    inTurn (fs ++ [fun sink => (g sink, sink)]) sink =
      (g (inTurn fs sink).2, (inTurn fs sink).2) := by
  have hr := inTurn_of_ok h sink
  rw [inTurn_append]
  cases hs : inTurn fs sink with
  | mk r sink' =>
    rw [hs] at hr
    cases hr
    simp only [inTurn]
    cases g sink' <;> rfl

theorem counted_le_add {a s : Int64} (hs : s.toInt ≤ 0) (k : Nat) :
    counted a s (k + 1) ≤ a.toInt + s.toInt := by
  have h : (k : Int) * s.toInt ≤ 0 := Int.mul_nonpos_of_nonneg_of_nonpos (by omega) hs
  have hk : ((k + 1 : Nat) : Int) * s.toInt = k * s.toInt + s.toInt := by
    simp [Int.add_mul]
  unfold counted
  omega

section Down

variable [Sink σ] {header : Header} {limit : Nat} {b s : Int64} {body : Value → Trace}

def roundsFrom (body : Value → Trace) (a s : Int64) (n : Nat) :
    List (σ → Except RenderError Unit × σ) :=
  (List.range n).map fun k => (body (.number (.int (Int64.ofInt (counted a s k))))).play

theorem roundsFrom_succ {a c s : Int64} (hc : c.toInt = a.toInt + s.toInt) (n : Nat) :
    roundsFrom (σ := σ) body a s (n + 1) =
      (body (.number (.int a))).play :: roundsFrom body c s n := by
  rw [roundsFrom, List.range_succ_eq_map, List.map_cons, List.map_map, ofInt_counted_zero,
    roundsFrom]
  congr 2
  funext k
  simp only [Function.comp, Nat.succ_eq_add_one, counted_succ hc]

theorem iterate_down_limit (hs : s.toInt ≤ 0) (left : Nat) (a : Int64) (hab : a.toInt ≤ b.toInt)
    (hw : Int64.minValue.toInt ≤ counted a s left) (sink : σ) :
    (iterate header limit (.number (.int b)) (.number (.int s)) body left (.number (.int a))).play
        sink =
      inTurn (roundsFrom body a s left ++
        [fun sink => (.error (.fault (.loop header) (.iterationLimit limit)), sink)]) sink := by
  induction left generalizing a sink with
  | zero => simp [play_last hab, roundsFrom, inTurn]
  | succ left ih =>
    have hle := counted_le_add (a := a) hs left
    have hmax := a.toInt_le
    rcases Number.ofInt?_cases (a.toInt + s.toInt) with ⟨c, hc, hn⟩ | ⟨hout, -⟩
    · rw [counted_succ hc] at hw
      rw [play_round hab, roundsFrom_succ hc, List.cons_append, inTurn, hn]
      cases (body (.number (.int a))).play sink with
      | mk r sink' =>
        cases r with
        | error e => rfl
        | ok _ => exact ih c (by omega) hw sink'
    · omega

theorem iterate_down_end (hs : s.toInt ≤ 0) (left : Nat) (a : Int64) (hab : a.toInt ≤ b.toInt)
    (hw : counted a s left < Int64.minValue.toInt) :
    ∃ n < left, Int64.minValue.toInt ≤ counted a s n ∧
      counted a s (n + 1) < Int64.minValue.toInt ∧
      ∀ sink : σ,
        (iterate header limit (.number (.int b)) (.number (.int s)) body left
          (.number (.int a))).play sink = inTurn (roundsFrom body a s (n + 1)) sink := by
  have hmin := a.minValue_le_toInt
  induction left generalizing a with
  | zero =>
    simp only [counted, Nat.cast_zero, Int.zero_mul] at hw
    omega
  | succ left ih =>
    have hmax := a.toInt_le
    rcases Number.ofInt?_cases (a.toInt + s.toInt) with ⟨c, hc, hn⟩ | ⟨hout, hn⟩
    · rw [counted_succ hc] at hw
      obtain ⟨n, hlt, hge, hend, hplay⟩ := ih c (by omega) hw c.minValue_le_toInt
      refine ⟨n + 1, by omega, by rwa [counted_succ hc], by rwa [counted_succ hc], fun sink => ?_⟩
      rw [play_round hab, roundsFrom_succ hc, inTurn, hn]
      cases (body (.number (.int a))).play sink with
      | mk r sink' =>
        cases r with
        | error e => rfl
        | ok _ => exact hplay sink'
    · refine ⟨0, by omega, by simpa [counted] using hmin, ?_, fun sink => ?_⟩
      · have hle := counted_le_add (a := a) hs 0
        omega
      · have hr : roundsFrom (σ := σ) body a s 1 = [(body (.number (.int a))).play] := by
          simp [roundsFrom]
        rw [play_round hab, hn, hr]
        rfl

theorem play_down (hs : s.toInt ≤ 0) {a : Int64} (hab : a.toInt ≤ b.toInt)
    (hbody : ∀ (n : Int64) (sink : σ), ((body (.number (.int n))).play sink).1 = .ok ())
    (left : Nat) (sink : σ) :
    ((iterate header limit (.number (.int b)) (.number (.int s)) body left
          (.number (.int a))).play sink =
        (.error (.fault (.loop header) (.iterationLimit limit)),
          (inTurn (roundsFrom body a s left) sink).2) ↔
      Int64.minValue.toInt ≤ counted a s left) ∧
    (counted a s left < Int64.minValue.toInt →
      ∃ n < left, Int64.minValue.toInt ≤ counted a s n ∧
        counted a s (n + 1) < Int64.minValue.toInt ∧
        (iterate header limit (.number (.int b)) (.number (.int s)) body left
            (.number (.int a))).play sink =
          (.ok (), (inTurn (roundsFrom body a s (n + 1)) sink).2)) := by
  have hok (n : Nat) : ∀ f ∈ roundsFrom (σ := σ) body a s n, ∀ sink, (f sink).1 = .ok () := by
    rw [roundsFrom, List.forall_mem_map]
    exact fun i _ => hbody _
  have hend (hw : counted a s left < Int64.minValue.toInt) :
      ∃ n < left, Int64.minValue.toInt ≤ counted a s n ∧
        counted a s (n + 1) < Int64.minValue.toInt ∧
        (iterate header limit (.number (.int b)) (.number (.int s)) body left
            (.number (.int a))).play sink =
          (.ok (), (inTurn (roundsFrom body a s (n + 1)) sink).2) := by
    obtain ⟨n, hn, hge, hlt, hplay⟩ := iterate_down_end (σ := σ) hs left a hab hw
    refine ⟨n, hn, hge, hlt, (hplay sink).trans ?_⟩
    exact Prod.ext (inTurn_of_ok (hok _) sink) rfl
  refine ⟨⟨fun hl => ?_, fun hw => ?_⟩, hend⟩
  · by_contra hw
    obtain ⟨n, -, -, -, ho⟩ := hend (Int.not_le.1 hw)
    rw [ho] at hl
    cases hl
  · rw [iterate_down_limit hs left a hab hw, inTurn_concat_of_ok (hok left)]

end Down

end Trace

open Node Trace
open Render (bound outcome scope)

/-- What the first `n` rounds of a loop leave of a sink: over the stacks `k`, the body is rendered
for the counter at `a`, at `a + s` and so on. -/
def afterRounds {σ : Type} [Sink σ] (settings : Settings) (context : Context) (k : Stacks Value)
    (counter : String) (body : List Node) (a s : Int64) (n : Nat) (sink : σ) : σ :=
  (inTurn ((List.range n).map fun i => outcome (renderAll settings context body)
    (k.push counter (.number (.int (Int64.ofInt (counted a s i)))))) sink).2

section Loop

variable {σ : Type} [Sink σ] {settings : Settings} {context : Context} {k : Stacks Value}
  {h : Header} {body : List Node} {a b s : Int64}

theorem outcome_body (settings : Settings) (context : Context) (k : Stacks Value) (counter : String)
    (body : List Node) (v : Value) :
    outcome (σ := σ) (renderAll settings context body) (k.push counter v) =
      (traceAll settings context ((scope context k).extend counter v) body).play := by
  funext sink
  rw [(plays_renderAll settings context body (k.push counter v)).outcome_eq,
    Render.scope_over (k.over_push counter v)]

/-- A loop over integers whose step is not positive renders its body as often as the limit allows
and then fails, exactly if the counter is still a word after that. Otherwise it ends without an
error in the round whose next value is none. -/
theorem render_loop_down
    (ha : bound settings context k h.start = .ok (.number (.int a)))
    (hb : bound settings context k h.stop = .ok (.number (.int b)))
    (hs : bound settings context k (h.step.getD (.number (.int 1))) = .ok (.number (.int s)))
    (hab : a.toInt ≤ b.toInt) (hdown : s.toInt ≤ 0)
    (hbody : ∀ (n : Int64) (sink : σ), (outcome (renderAll settings context body)
      (k.push h.counter (.number (.int n))) sink).1 = .ok ()) (sink : σ) :
    (outcome ((Node.loop h body).render settings context) k sink =
        (.error (.fault (.loop h) (.iterationLimit settings.maxIterations)),
          afterRounds settings context k h.counter body a s settings.maxIterations sink) ↔
      Int64.minValue.toInt ≤ counted a s settings.maxIterations) ∧
    (counted a s settings.maxIterations < Int64.minValue.toInt →
      ∃ n < settings.maxIterations, Int64.minValue.toInt ≤ counted a s n ∧
        counted a s (n + 1) < Int64.minValue.toInt ∧
        outcome ((Node.loop h body).render settings context) k sink =
          (.ok (), afterRounds settings context k h.counter body a s (n + 1) sink)) := by
  rw [Render.bound_scope] at ha hb hs
  rw [outcome_render, trace]
  simp only [ofSite, ha, hb, hs, afterRounds, outcome_body] at hbody ⊢
  exact play_down hdown hab hbody settings.maxIterations sink

end Loop

def sinking : Header := ⟨"i", .variable "n", .number (.int 0), some (.string "-2")⟩

def sinkingBody : List Node := [.echo [.variable "i"], .text " "]

def deep : Context := Context.extend (fun _ => none) "n" (.number (.int (Int64.minValue + 4)))

theorem render_sinking :
    (∀ (limit : Nat) (n : Int64) (sink : String),
      (outcome (renderAll ⟨limit, false⟩ deep sinkingBody)
        (Stacks.empty.push "i" (.number (.int n))) sink).1 = .ok ()) ∧
    (Node.loop sinking sinkingBody).renderInto ⟨2, false⟩ deep "" =
      (.error (.fault (.loop sinking) (.iterationLimit 2)),
        "-9223372036854775804 -9223372036854775806 ") ∧
    (Node.loop sinking sinkingBody).renderInto ⟨9, false⟩ deep "" =
      (.ok (), "-9223372036854775804 -9223372036854775806 -9223372036854775808 ") := by
  have ha (limit : Nat) : bound ⟨limit, false⟩ deep .empty sinking.start =
      .ok (.number (.int (Int64.minValue + 4))) := rfl
  have hb (limit : Nat) : bound ⟨limit, false⟩ deep .empty sinking.stop =
      .ok (.number (.int 0)) := rfl
  have hs (limit : Nat) : bound ⟨limit, false⟩ deep .empty (sinking.step.getD (.number (.int 1))) =
      .ok (.number (.int (-2))) := rfl
  have hbody (limit : Nat) (n : Int64) (sink : String) :
      (outcome (renderAll ⟨limit, false⟩ deep sinkingBody)
        (Stacks.empty.push "i" (.number (.int n))) sink).1 = .ok () := rfl
  have hrounds (limit : Nat) :=
    render_loop_down (ha limit) (hb limit) (hs limit) (by decide) (by decide) (hbody limit) ""
  refine ⟨hbody, ?_, ?_⟩
  · refine ((hrounds 2).1.2 (by decide +kernel)).trans (congrArg _ ?_)
    decide +kernel
  · obtain ⟨n, -, hge, hlt, ho⟩ := (hrounds 9).2 (by decide +kernel)
    have hn : n = 2 := by
      have hmin : Int64.minValue.toInt = -2 ^ 63 := by decide
      have hstart : (Int64.minValue + 4).toInt = -2 ^ 63 + 4 := by decide
      have hstep : (-2 : Int64).toInt = -2 := by decide
      simp only [counted, hmin, hstart, hstep] at hge hlt
      omega
    subst hn
    refine ho.trans (congrArg _ ?_)
    decide +kernel

def plunge : Header :=
  ⟨"i", .number (.int Int64.minValue), .number (.int 0), some (.number (.int (-1)))⟩

/-- The loop has a negative step and a body that never fails, and ends after one round without an
error, where the limit allows five. -/
theorem renderInto_plunge :
    bound ⟨5, false⟩ (fun _ => none) .empty plunge.start = .ok (.number (.int Int64.minValue)) ∧
    bound ⟨5, false⟩ (fun _ => none) .empty plunge.stop = .ok (.number (.int 0)) ∧
    bound ⟨5, false⟩ (fun _ => none) .empty (plunge.step.getD (.number (.int 1))) =
      .ok (.number (.int (-1))) ∧
    Int64.minValue.toInt ≤ (0 : Int64).toInt ∧ (-1 : Int64).toInt ≤ 0 ∧
    (∀ (v : Value) (sink : String),
      (outcome (renderAll ⟨5, false⟩ (fun _ => none) [.text "x"]) (Stacks.empty.push "i" v)
        sink).1 = .ok ()) ∧
    afterRounds ⟨5, false⟩ (fun _ => none) .empty "i" [.text "x"] Int64.minValue (-1) 5 "" =
      "xxxxx" ∧
    (Node.loop plunge [.text "x"]).renderInto ⟨5, false⟩ (fun _ => none) "" = (.ok (), "x") := by
  refine ⟨rfl, rfl, rfl, by decide, by decide, fun _ _ => rfl, ?_, ?_⟩
  · decide +kernel
  · decide +kernel

end Stencil
