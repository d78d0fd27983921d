import Stencil.Proofs.Number.ReadBack
import Stencil.Proofs.Render.Scope

set_option autoImplicit false

namespace Stencil

/-- How many of the values `a`, `a + s`, … are at most `b`. -/
def rounds (a b s : Int) : Nat := if b < a then 0 else ((b - a) / s + 1).toNat

theorem rounds_eq_zero {a b : Int} (s : Int) (h : b < a) : rounds a b s = 0 := if_pos h

theorem rounds_eq_succ {a b s : Int} (h : a ≤ b) (hs : 1 ≤ s) :
    rounds a b s = rounds (a + s) b s + 1 := by
  have hd : (b - a) / s = (b - (a + s)) / s + 1 := by
    rw [← Int.add_mul_ediv_right _ 1 (by omega)]
    congr 1
    omega
  unfold rounds
  rw [if_neg (by omega)]
  split
  · have hz : (b - a) / s = 0 := Int.ediv_eq_zero_of_lt (by omega) (by omega)
    simp [hz]
  · have hp : 0 ≤ (b - (a + s)) / s := Int.ediv_nonneg (by omega) (by omega)
    omega

theorem add_mul_le_of_lt_rounds {a b s : Int} {k : Nat} (hs : 1 ≤ s) (hk : k < rounds a b s) :
    a + k * s ≤ b := by
  unfold rounds at hk
  split at hk
  · omega
  · have hd : (k : Int) ≤ (b - a) / s := by omega
    rw [Int.le_ediv_iff_mul_le (by omega)] at hd
    omega

namespace Trace

variable {σ : Type} [Sink σ]

theorem isPast_ints (a b : Int64) :
    Render.isPast (.number (.int a)) (.number (.int b)) = .ok (decide (b.toInt < a.toInt)) := by
  have hc : (Value.number (.int a)).compare (.number (.int b)) =
      .ok (compare a.toInt b.toInt) := rfl
  rw [Render.isPast, hc]
  by_cases h : b.toInt < a.toInt
  · simp [Int.compare_eq_gt.2 h, h]
  · have hn := mt Int.compare_eq_gt.1 h
    simp [hn, h]

theorem advance_ints (a s : Int64) :
    Render.advance (.number (.int a)) (.number (.int s)) =
      .ok ((Number.ofInt? (a.toInt + s.toInt)).map .number) := rfl

/-- The value of the counter in the round `k`, which starts at zero. -/
def counted (a s : Int64) (k : Nat) : Int := a.toInt + k * s.toInt

theorem toInt_ofInt_counted {a b s : Int64} {k : Nat} (hs : 1 ≤ s.toInt)
    (hk : k < rounds a.toInt b.toInt s.toInt) :
    (Int64.ofInt (counted a s k)).toInt = counted a s k := by
  have hle := add_mul_le_of_lt_rounds hs hk
  have hks : 0 ≤ (k : Int) * s.toInt := Int.mul_nonneg (by omega) (by omega)
  have ha := a.le_toInt
  have hb := b.toInt_lt
  exact Int64.toInt_ofInt_of_le (by unfold counted; omega) (by unfold counted; omega)

theorem next_value (a b : Int64) {s : Int64} (hs : 1 ≤ s.toInt) :
    (∃ c : Int64, c.toInt = a.toInt + s.toInt ∧
      Number.ofInt? (a.toInt + s.toInt) = some (.int c)) ∨
    (b.toInt < a.toInt + s.toInt ∧ Number.ofInt? (a.toInt + s.toInt) = none) := by
  have ha := a.minValue_le_toInt
  have hb := b.toInt_le
  exact (Number.ofInt?_cases (a.toInt + s.toInt)).imp_right (And.imp_left (by omega))

theorem counted_succ {a c s : Int64} (hc : c.toInt = a.toInt + s.toInt) (k : Nat) :
    counted a s (k + 1) = counted c s k := by
  simp only [counted, hc, Nat.cast_add, Nat.cast_one]
  ring

@[simp] theorem ofInt_counted_zero (a s : Int64) : Int64.ofInt (counted a s 0) = a := by
  simp [counted]

section Rounds

variable {header : Header} {limit : Nat} {a b s : Int64} {body : Value → Trace}

theorem play_round (h : a.toInt ≤ b.toInt) (left : Nat) (sink : σ) :
    (iterate header limit (.number (.int b)) (.number (.int s)) body (left + 1)
        (.number (.int a))).play sink =
      match (body (.number (.int a))).play sink with
      | (.ok (), sink) =>
        match Number.ofInt? (a.toInt + s.toInt) with
        | none => (.ok (), sink)
        | some c => (iterate header limit (.number (.int b)) (.number (.int s)) body left
            (.number c)).play sink
      | (.error e, sink) => (.error e, sink) := by
  have hn : ¬b.toInt < a.toInt := by omega
  simp only [iterate, isPast_ints, ofSite, hn, decide_false, Bool.false_eq_true, if_false,
    play_andThen, advance_ints]
  cases Number.ofInt? (a.toInt + s.toInt) <;> rfl

theorem play_last (h : a.toInt ≤ b.toInt) (sink : σ) :
    (iterate header limit (.number (.int b)) (.number (.int s)) body 0 (.number (.int a))).play
        sink = (.error (.fault (.loop header) (.iterationLimit limit)), sink) := by
  have hn : ¬b.toInt < a.toInt := by omega
  simp [iterate, isPast_ints, ofSite, hn, fail, play, playAll]

theorem play_past (h : b.toInt < a.toInt) (left : Nat) (sink : σ) :
    (iterate header limit (.number (.int b)) (.number (.int s)) body left (.number (.int a))).play
        sink = (.ok (), sink) := by
  cases left <;> simp [iterate, isPast_ints, ofSite, h, done, play, playAll]

theorem iterate_ints (hs : 1 ≤ s.toInt) (left : Nat) (a : Int64) (sink : σ) :
    (iterate header limit (.number (.int b)) (.number (.int s)) body left (.number (.int a))).play
        sink =
      inTurn ((List.range (min (rounds a.toInt b.toInt s.toInt) left)).map
          (fun k => (body (.number (.int (Int64.ofInt (counted a s k))))).play) ++
        [fun sink => (if rounds a.toInt b.toInt s.toInt ≤ left then .ok ()
          else .error (.fault (.loop header) (.iterationLimit limit)), sink)]) sink := by
  induction left generalizing a sink with
  | zero =>
    by_cases h : b.toInt < a.toInt
    · simp [play_past h, rounds_eq_zero _ h, inTurn]
    · have hr : rounds a.toInt b.toInt s.toInt ≠ 0 := by
        rw [rounds_eq_succ (by omega) hs]
        omega
      simp [play_last (Int.not_lt.1 h), hr, inTurn]
  | succ left ih =>
    by_cases h : b.toInt < a.toInt
    · simp [play_past h, rounds_eq_zero _ h, inTurn]
    · rw [rounds_eq_succ (by omega) hs, Nat.add_min_add_right, List.range_succ_eq_map,
        List.map_cons, List.map_map, List.cons_append, inTurn, ofInt_counted_zero,
        play_round (Int.not_lt.1 h)]
      cases (body (.number (.int a))).play sink with
      | mk r sink' =>
        cases r with
        | error e => rfl
        | ok _ =>
          rcases next_value a b hs with ⟨c, hc, hn⟩ | ⟨hlt, hn⟩
          · have hk (k : Nat) : counted c s k = counted a s (k + 1) := (counted_succ hc k).symm
            simp only [hn, ih c sink', hc, hk, Nat.add_le_add_iff_right]
            rfl
          · simp [hn, rounds_eq_zero _ hlt, inTurn]

end Rounds

end Trace

open Node Trace in
/-- A loop over integers renders its body for each value in turn, at most as often as the limit
allows, and fails after that only if there are more values. -/
theorem renderInto_loop_eq_inTurn {σ : Type} [Sink σ] {settings : Settings} {context : Context}
    {h : Header} {body : List Node} {a b s : Int64}
    (ha : Render.bound settings context .empty h.start = .ok (.number (.int a)))
    (hb : Render.bound settings context .empty h.stop = .ok (.number (.int b)))
    (hs : Render.bound settings context .empty (h.step.getD (.number (.int 1))) =
      .ok (.number (.int s)))
    (hpos : 1 ≤ s.toInt) (hbody : .function "paramGet" ∉ elementsOfAll body) (sink : σ) :
    (∀ k < rounds a.toInt b.toInt s.toInt, (Int64.ofInt (counted a s k)).toInt = counted a s k) ∧
      (Node.loop h body).renderInto settings context sink =
        inTurn ((List.range (min (rounds a.toInt b.toInt s.toInt) settings.maxIterations)).map
            (fun k => (Node.document body).renderInto settings
              (context.extend h.counter (.number (.int (Int64.ofInt (counted a s k)))))) ++
          [fun sink => (if rounds a.toInt b.toInt s.toInt ≤ settings.maxIterations then .ok ()
            else .error (.fault (.loop h) (.iterationLimit settings.maxIterations)), sink)])
        sink := by
  refine ⟨fun k hk => toInt_ofInt_counted hpos hk, ?_⟩
  have hround (v : Value) : (Node.document body).renderInto settings (context.extend h.counter v) =
      (traceAll settings context (context.extend h.counter v) body).play (σ := σ) := by
    funext sink
    rw [renderInto_eq_play, trace, traceAll_context settings _ context body _ hbody]
  simp only [hround]
  rw [renderInto_eq_play, trace]
  simp only [ofSite, ha, hb, hs]
  exact iterate_ints hpos _ _ _

def summit : Header := ⟨"v", .variable "v", .number (.int Int64.maxValue), some (.string "2")⟩

def summitBody : List Node :=
  [.loop ⟨"v", .number (.int 1), .number (.int 2), none⟩ [.echo [.variable "v"]],
    .echo [.variable "v"]]

def summitContext : Context := Context.extend (fun _ => none) "v" (.string "9223372036854775804")

open Node Trace in
theorem renderInto_summit :
    Render.bound ⟨2, true⟩ summitContext .empty summit.start =
        .ok (.number (.int (Int64.maxValue - 3))) ∧
      Render.bound ⟨2, true⟩ summitContext .empty summit.stop =
        .ok (.number (.int Int64.maxValue)) ∧
      Render.bound ⟨2, true⟩ summitContext .empty (summit.step.getD (.number (.int 1))) =
        .ok (.number (.int 2)) ∧
      .function "paramGet" ∉ elementsOfAll summitBody ∧
      (Node.loop summit summitBody).renderInto ⟨2, true⟩ summitContext "" =
        inTurn [(Node.document summitBody).renderInto ⟨2, true⟩
              (summitContext.extend "v" (.number (.int (Int64.maxValue - 3)))),
            (Node.document summitBody).renderInto ⟨2, true⟩
              (summitContext.extend "v" (.number (.int (Int64.maxValue - 1)))),
            fun sink => (.ok (), sink)] "" := by
  have ha : Render.bound ⟨2, true⟩ summitContext .empty summit.start =
      .ok (.number (.int (Int64.maxValue - 3))) := by decide +kernel
  have hb : Render.bound ⟨2, true⟩ summitContext .empty summit.stop =
      .ok (.number (.int Int64.maxValue)) := by decide +kernel
  have hs : Render.bound ⟨2, true⟩ summitContext .empty (summit.step.getD (.number (.int 1))) =
      .ok (.number (.int 2)) := by decide +kernel
  have hbody : .function "paramGet" ∉ elementsOfAll summitBody := by decide +kernel
  have hr : rounds (Int64.maxValue - 3).toInt Int64.maxValue.toInt (2 : Int64).toInt = 2 := by
    decide +kernel
  have h := (renderInto_loop_eq_inTurn ha hb hs (by decide) hbody "").2
  rw [hr] at h
  exact ⟨ha, hb, hs, hbody, h⟩

end Stencil
