import Stencil.Proofs.Render.Failure

set_option autoImplicit false

namespace Stencil

namespace Trace

def FailsAtTag (t : Trace) : Prop := ∀ e, t.result = .error e → ∃ site f, e = .fault site f

theorem FailsWith.atTag {t : Trace} {settings : Settings} {context : Context}
    {tags : List (Site × List String)} (h : t.FailsWith (FailsAmong settings context tags)) :
    t.FailsAtTag := by
  intro e he
  obtain ⟨site, around, f, -, hf, -⟩ := h e he
  exact ⟨site, f, hf⟩

theorem FailsAtTag.iterate {header : Header} {limit : Nat} {stop step : Value}
    {body : Value → Trace} (hbody : ∀ v, (body v).FailsAtTag) (left : Nat) (v : Value) :
    (Trace.iterate header limit stop step body left v).FailsAtTag :=
  FailsWith.iterate (fun _ => ⟨_, _, rfl⟩) ⟨_, _, rfl⟩ hbody left v

theorem play_ne_unbound {σ : Type} [Sink σ] {t : Trace} (h : t.FailsAtTag) (sink : σ)
    (u : Unbound) : (t.play sink).1 ≠ .error (.unbound u) := by
  intro hu
  rcases error_of_play hu with ⟨reason, hr⟩ | hr
  · cases hr
  · obtain ⟨site, f, hf⟩ := h _ hr
    cases hf

end Trace

namespace Node

variable (settings : Settings) (context : Context)

theorem failsAtTag_trace (n : Node) (scope : Context) :
    (n.trace settings context scope).FailsAtTag :=
  (failsAmong_trace settings context n (covers_self scope)).atTag

theorem failsAtTag_traceAll (ns : List Node) (scope : Context) :
    (traceAll settings context scope ns).FailsAtTag :=
  (failsAmong_traceAll settings context ns (covers_self scope)).atTag

end Node

namespace Render

variable {σ : Type}

def passAfter : EStateM.Result RenderError (Pass σ) Unit → Pass σ
  | .ok _ p => p
  | .error _ p => p

def MissesCounter (r : EStateM.Result RenderError (Pass σ) Unit) : Prop :=
  ∃ u p, r = .error (.unbound u) p

theorem passAfter_ending (r : Except RenderError Unit × σ) (k : Stacks Value) :
    (passAfter (ending r k)).counters = k := by
  obtain ⟨r, sink⟩ := r
  cases r <;> rfl

theorem eq_error_of_ending {r : Except RenderError Unit × σ} {k : Stacks Value} {e : RenderError}
    {p : Pass σ} (h : ending r k = .error e p) : r.1 = .error e := by
  obtain ⟨r, sink⟩ := r
  cases r with
  | ok _ => cases h
  | error e => cases h; rfl

theorem Plays.balanced [Sink σ] {m : Render σ Unit} {k : Stacks Value} {keeps : Stacks Value → Prop}
    {t : Trace} (h : Plays m k keeps t) (ht : t.FailsAtTag) (sink : σ) :
    keeps (passAfter (m ⟨k, sink⟩)).counters ∧ ¬MissesCounter (m ⟨k, sink⟩) := by
  obtain ⟨k', hk, hm⟩ := h sink
  rw [hm, passAfter_ending]
  refine ⟨hk, ?_⟩
  rintro ⟨u, p, hu⟩
  exact Trace.play_ne_unbound ht sink u (eq_error_of_ending hu)

end Render

open Render Node in
/-- A visit leaves every stack as it was and never finds one empty; nor does a loop on its way,
which leaves its counter on top of what was there. -/
theorem counters_render {σ : Type} [Sink σ] (settings : Settings) (context : Context) :
    (∀ (n : Node) (p : Pass σ),
      (∀ name, (passAfter (n.render settings context p)).counters.stack name =
        p.counters.stack name) ∧
      ¬MissesCounter (n.render settings context p)) ∧
    (∀ (n : Node) (sink : σ) (u : Unbound),
      (n.renderInto settings context sink).1 ≠ .error (.unbound u)) ∧
    ∀ (h : Header) (body : List Node) (limit left : Nat) (start stop step : Value) (p : Pass σ),
      let r := iterate h limit stop step (renderAll settings context body) left
        { p with counters := p.counters.push h.counter start }
      ¬MissesCounter r ∧ ∃ v counters,
        (passAfter r).counters.pop h.counter = .ok (v, counters) ∧
          ∀ name, counters.stack name = p.counters.stack name := by
  refine ⟨fun n p => ?_, fun n sink u => ?_, fun h body limit left start stop step p => ?_⟩
  · exact (plays_render settings context n p.counters).balanced
      (failsAtTag_trace settings context n _) p.sink
  · rw [renderInto_eq_play]
    exact Trace.play_ne_unbound (failsAtTag_trace settings context n context) sink u
  · have hp := p.counters.over_push h.counter start
    have hb : Plays (iterate h limit stop step (renderAll (σ := σ) settings context body) left)
        (p.counters.push h.counter start) (fun l => ∃ w, p.counters.Over h.counter w l) _ :=
      plays_iterate (fun v l hl => .keepsCounter (traceAll settings context · body)
        (plays_renderAll settings context body l) hl) hp
    obtain ⟨⟨w, hw⟩, hm⟩ := hb.balanced
      (.iterate (fun v => failsAtTag_traceAll settings context body _) left start) p.sink
    obtain ⟨counters, hc, hs⟩ := hw.pop
    exact ⟨hm, w, counters, hc, hs⟩

namespace Value

def IsNumber (v : Value) : Prop := ∃ n, v = .number n

theorem compare_of_isNumber {v w : Value} (hv : v.IsNumber) (hw : w.IsNumber) :
    ∃ order, v.compare w = .ok order := by
  obtain ⟨m, rfl⟩ := hv
  obtain ⟨n, rfl⟩ := hw
  exact ⟨_, rfl⟩

theorem add_of_isNumber {v w : Value} (hv : v.IsNumber) (hw : w.IsNumber) :
    ∃ sum : Value, v.apply .add w = .ok sum ∧ sum.IsNumber := by
  obtain ⟨m, rfl⟩ := hv
  obtain ⟨n, rfl⟩ := hw
  cases m <;> cases n <;> exact ⟨_, rfl, _, rfl⟩

theorem toNumber_eq_error {v : Value} {e : ValueError} (h : v.toNumber = .error e) :
    ∃ s, v = .string s ∧ e = .notNumeric s ∧ Number.read? s.toList = none := by
  cases v with
  | null => cases h
  | number n => cases h
  | string s =>
    simp only [toNumber, readNumber] at h
    split at h <;> cases h
    exact ⟨s, rfl, rfl, by assumption⟩

end Value

namespace Stacks

/-- Only numbers are on the stacks, and each stack is as high as its name is often in `names`. -/
structure Counts (k : Stacks Value) (names : List String) : Prop where
  number : ∀ name, ∀ v ∈ k.stack name, v.IsNumber
  depth : ∀ name, k.depth name = names.count name

namespace Counts

variable {k : Stacks Value} {names names' : List String} {name : String} {v : Value}

theorem empty : Counts .empty [] := ⟨by simp, fun _ => by simp [Stacks.depth]⟩

theorem stack_of_mem (h : k.Counts names) (hn : name ∈ names) :
    ∃ v vs, k.stack name = v :: vs ∧ v.IsNumber := by
  cases hs : k.stack name with
  | nil =>
    have hd := h.depth name
    rw [Stacks.depth, hs] at hd
    exact absurd hn (List.count_eq_zero.1 hd.symm)
  | cons v vs => exact ⟨v, vs, rfl, h.number name v (by simp [hs])⟩

theorem stack_of_notMem (h : k.Counts names) (hn : name ∉ names) : k.stack name = [] := by
  rw [← List.length_eq_zero_iff]
  exact (h.depth name).trans (List.count_eq_zero.2 hn)

theorem replace {vs : List Value} (h : k.Counts names) (hvs : ∀ v ∈ vs, v.IsNumber)
    (hd : vs.length = names'.count name) (hm : ∀ m, m ≠ name → names'.count m = names.count m) :
    (k.replace name vs).Counts names' := by
  constructor
  · intro m
    rw [stack_replace]
    split
    · exact hvs
    · exact h.number m
  · intro m
    rw [Stacks.depth, stack_replace]
    split
    · rename_i he
      rw [he, hd]
    · rename_i hne
      rw [hm m hne]
      exact h.depth m

theorem push (h : k.Counts names) (hv : v.IsNumber) : (k.push name v).Counts (name :: names) := by
  refine h.replace (List.forall_mem_cons.2 ⟨hv, h.number name⟩) ?_ fun m hm => ?_
  · simpa [Stacks.depth] using h.depth name
  · exact List.count_cons_of_ne (Ne.symm hm)

theorem pop (h : k.Counts (name :: names)) :
    ∃ v k', k.pop name = .ok (v, k') ∧ k'.Counts names := by
  obtain ⟨v, vs, hs, -⟩ := h.stack_of_mem List.mem_cons_self
  refine ⟨v, k.replace name vs, by simp [Stacks.pop, hs], h.replace ?_ ?_ fun m hm => ?_⟩
  · exact fun w hw => h.number name w (by simp [hs, hw])
  · simpa [Stacks.depth, hs] using h.depth name
  · exact (List.count_cons_of_ne (Ne.symm hm)).symm

theorem top (h : k.Counts names) (hn : name ∈ names) : ∃ v, k.top name = .ok v ∧ v.IsNumber := by
  obtain ⟨v, vs, hs, hv⟩ := h.stack_of_mem hn
  exact ⟨v, by simp [Stacks.top, hs], hv⟩

theorem setTop (h : k.Counts names) (hn : name ∈ names) (hv : v.IsNumber) :
    ∃ w k', k.setTop name v = .ok (w, k') ∧ k'.Counts names := by
  obtain ⟨w, vs, hs, -⟩ := h.stack_of_mem hn
  refine ⟨w, k.replace name (v :: vs), by simp [Stacks.setTop, hs], h.replace ?_ ?_ fun _ _ => rfl⟩
  · exact List.forall_mem_cons.2 ⟨hv, fun u hu => h.number name u (by simp [hs, hu])⟩
  · simpa [Stacks.depth, hs] using h.depth name

end Counts

end Stacks

/-- `s` is no number, and is a bound of the loop, or what the context gives for a bound that no loop
around counts with. -/
structure Misread (context : Context) (around : List String) (h : Header) (s : String) : Prop where
  unread : Number.read? s.toList = none
  bound : .string s ∈ h.bounds ∨
    ∃ name, .variable name ∈ h.bounds ∧ name ∉ around ∧ context name = some (.string s)

namespace Render

variable {settings : Settings} {context : Context} {k : Stacks Value} {around : List String}
  {e : Element}

theorem numberOf_eq_ok {v w : Value} (h : numberOf v = .ok w) : w.IsNumber := by
  unfold numberOf at h
  split at h <;> cases h
  exact ⟨_, rfl⟩

theorem numberOf_eq_error {v : Value} {x : ValueError} (h : numberOf v = .error (.value x)) :
    ∃ s, v = .string s ∧ x = .notNumeric s ∧ Number.read? s.toList = none := by
  unfold numberOf at h
  split at h <;> cases h
  exact Value.toNumber_eq_error (by assumption)

theorem isNumber_of_bound {v : Value} (h : bound settings context k e = .ok v) : v.IsNumber := by
  by_cases he : ∃ name, e = .variable name
  · obtain ⟨name, rfl⟩ := he
    rw [bound_variable] at h
    obtain ⟨w, -, hw⟩ := bind_eq_ok h
    exact numberOf_eq_ok hw
  · rw [bound_constant settings context k (not_exists.1 he)] at h
    exact numberOf_eq_ok h

theorem lookup_eq_string {name s : String} (hk : k.Counts around)
    (h : lookup settings context k name = .ok (.string s)) :
    name ∉ around ∧ context name = some (.string s) := by
  have hn : name ∉ around := by
    intro hn
    obtain ⟨v, ht, n, rfl⟩ := hk.top hn
    simp only [lookup, ht] at h
    cases h
  refine ⟨hn, ?_⟩
  simp only [lookup, Stacks.top, hk.stack_of_notMem hn] at h
  split at h
  · rename_i hc
    cases h
    exact hc
  · split at h <;> cases h

theorem bound_eq_value {x : ValueError} (hk : k.Counts around)
    (h : bound settings context k e = .error (.value x)) :
    ∃ s, x = .notNumeric s ∧ Number.read? s.toList = none ∧ (e = .string s ∨
      ∃ name, e = .variable name ∧ name ∉ around ∧ context name = some (.string s)) := by
  by_cases he : ∃ name, e = .variable name
  · obtain ⟨name, rfl⟩ := he
    rw [bound_variable] at h
    rcases bind_eq_error h with hl | ⟨v, hl, hv⟩
    · rw [lookup_scope] at hl
      cases (lookup_eq_error hl).1
    · obtain ⟨s, rfl, hx, hs⟩ := numberOf_eq_error hv
      exact ⟨s, hx, hs, .inr ⟨name, rfl, lookup_eq_string hk hl⟩⟩
  · rw [bound_constant settings context k (not_exists.1 he)] at h
    obtain ⟨s, hc, hx, hs⟩ := numberOf_eq_error h
    refine ⟨s, hx, hs, .inl ?_⟩
    cases e with
    | string t => cases hc; rfl
    | _ => cases hc

theorem isPast_of_isNumber {v stop : Value} (hv : v.IsNumber) (hs : stop.IsNumber) :
    ∃ past, isPast v stop = .ok past := by
  obtain ⟨order, ho⟩ := Value.compare_of_isNumber hv hs
  exact ⟨order == .gt, by rw [isPast, ho]⟩

section Pass

variable {σ : Type} {p : Pass σ}

theorem bind_of_ok {α β : Type} {r : Render σ α} {f : α → Render σ β} {a : α} {q : Pass σ}
    (h : r p = .ok a q) : (r >>= f) p = f a q := by
  change EStateM.bind r f p = f a q
  rw [EStateM.bind, h]

theorem top_of_counts {name : String} (hk : p.counters.Counts around) (hn : name ∈ around) :
    ∃ v, top name p = .ok v p ∧ v.IsNumber := by
  obtain ⟨v, ht, hv⟩ := hk.top hn
  exact ⟨v, by rw [top, ht], hv⟩

theorem finished_of_counts {h : Header} {stop : Value}
    (hk : p.counters.Counts around) (hn : h.counter ∈ around) (hs : stop.IsNumber) :
    ∃ past, finished h stop p = .ok past p := by
  obtain ⟨v, ht, hv⟩ := top_of_counts hk hn
  obtain ⟨past, hp⟩ := isPast_of_isNumber hv hs
  refine ⟨past, (bind_of_ok ht).trans ?_⟩
  rw [hp]
  rfl

end Pass

theorem advance_of_isNumber {v step : Value} (hv : v.IsNumber) (hs : step.IsNumber) :
    ∃ next, advance v step = .ok next ∧ ∀ w, next = some w → w.IsNumber := by
  obtain ⟨sum, hsum, hn⟩ := Value.add_of_isNumber hv hs
  unfold advance
  split
  · refine ⟨_, rfl, fun w hw => ?_⟩
    obtain ⟨n, -, rfl⟩ := Option.map_eq_some_iff.1 hw
    exact ⟨n, rfl⟩
  · rw [hsum]
    exact ⟨_, rfl, fun w hw => by cases hw; exact hn⟩

end Render

end Stencil
