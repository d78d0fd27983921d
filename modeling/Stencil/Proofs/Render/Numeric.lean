import Stencil.Proofs.Render.Counts
import Stencil.Proofs.Render.Machine
import Stencil.Proofs.Tree.Census

/-!
The values on the stacks are numbers in every state of a render, so that counters are compared and
stepped without an error.
-/

set_option autoImplicit false

namespace Stencil

/-- The counters of the loops that are open before the tasks, innermost first. -/
def openCounters (ts : List Task) : List String := ts.filterMap Task.counter?

@[simp] theorem openCounters_visits (ns : List Node) (ts : List Task) :
    openCounters (ns.map .visit ++ ts) = openCounters ts := by
  simp [openCounters, Task.counter?]

structure Rounds.Fits (tags : List (Site × List String)) (around : List String) (r : Rounds) :
    Prop where
  stop : r.stop.IsNumber
  step : r.step.IsNumber
  counter : r.header.counter ∈ around
  body : Node.tagsOfAll around r.body ⊆ tags

def Task.Fits (tags : List (Site × List String)) (around : List String) : Task → Prop
  | .visit n => n.tags around ⊆ tags
  | .test r => r.Fits tags around
  | .next r => r.Fits tags around
  | .leave _ => True

def AllFit (tags : List (Site × List String)) : List Task → Prop
  | [] => True
  | t :: ts => t.Fits tags (openCounters ts) ∧ AllFit tags ts

theorem allFit_visits {tags : List (Site × List String)} {ts : List Task} {ns : List Node}
    (hn : Node.tagsOfAll (openCounters ts) ns ⊆ tags) (ht : AllFit tags ts) :
    AllFit tags (ns.map .visit ++ ts) := by
  induction ns with
  | nil => exact ht
  | cons n ns ih =>
    obtain ⟨hfirst, hrest⟩ := List.append_subset.1 hn
    refine ⟨?_, ih hrest⟩
    change n.tags (openCounters (ns.map .visit ++ ts)) ⊆ tags
    rw [openCounters_visits]
    exact hfirst

/-- A loop gets no other fault of a value than for a misread string. -/
def Admitted (context : Context) (tags : List (Site × List String)) (e : RenderError) : Prop :=
  ∀ h x, e = .fault (.loop h) (.value x) →
    ∃ s around, x = .notNumeric s ∧ (.loop h, around) ∈ tags ∧ Misread context around h s

theorem admitted_write (context : Context) (tags : List (Site × List String)) (reason : String) :
    Admitted context tags (.write reason) := by
  intro h x he
  cases he

theorem admitted_echo (context : Context) (tags : List (Site × List String)) (es : List Element)
    (f : Fault) : Admitted context tags (.fault (.echo es) f) := by
  intro h x he
  cases he

theorem admitted_iterationLimit (context : Context) (tags : List (Site × List String)) (h : Header)
    (limit : Nat) : Admitted context tags (.fault (.loop h) (.iterationLimit limit)) := by
  intro h x he
  cases he

namespace Machine

variable {σ : Type} {settings : Settings} {context : Context} {tags : List (Site × List String)}

/-- The stacks hold numbers, one for each open loop, and all else fits these. -/
structure Numeric (context : Context) (tags : List (Site × List String)) (m : Machine σ) :
    Prop where
  counts : m.pass.counters.Counts (openCounters m.tasks)
  fit : AllFit tags m.tasks
  failure : ∀ e, m.failure = some e → Admitted context tags e

section Run

variable {ts : List Task} {p : Pass σ}

theorem numeric_ofSite {α : Type} {site : Site} {x : Except Fault α} {f : α → Render σ (List Task)}
    (hx : ∀ e, x = .error e → Numeric context tags ⟨ts, some (.fault site e), p⟩)
    (hf : ∀ a, x = .ok a → Numeric context tags (onto ts (f a p))) :
    Numeric context tags (onto ts ((Render.ofSite site x >>= f) p)) := by
  cases x with
  | ok a => exact hf a rfl
  | error e => exact hx e rfl

section Tasks

variable (hcounts : p.counters.Counts (openCounters ts)) (hfit : AllFit tags ts)
include hcounts hfit

theorem numeric_going : Numeric context tags ⟨ts, none, p⟩ :=
  ⟨hcounts, hfit, fun _ he => nomatch he⟩

theorem numeric_fail {e : RenderError} (he : Admitted context tags e) :
    Numeric context tags ⟨ts, some e, p⟩ := by
  refine ⟨hcounts, hfit, fun e' hf => ?_⟩
  rw [← Option.some.inj hf]
  exact he

theorem numeric_visits {ns : List Node} (hn : Node.tagsOfAll (openCounters ts) ns ⊆ tags) :
    Numeric context tags ⟨ns.map .visit ++ ts, none, p⟩ := by
  refine numeric_going ?_ (allFit_visits hn hfit)
  rwa [openCounters_visits]

theorem numeric_write [Sink σ] (s : String) :
    Numeric context tags (after ts (Render.write s p)) := by
  rw [Render.write]
  cases Sink.write s p.sink with
  | ok _ sink => exact numeric_going (p := ⟨p.counters, sink⟩) hcounts hfit
  | error reason sink =>
    exact numeric_fail (p := ⟨p.counters, sink⟩) hcounts hfit (admitted_write context tags reason)

theorem numeric_echo [Sink σ] (es : List Element) :
    Numeric context tags (after ts (Render.echo settings context es p)) := by
  have he : Render.echo settings context es p = (do
      let v ← Render.ofSite (.echo es)
        (Echo.value context (Render.lookup settings context p.counters) es)
      Render.write v.text) p := rfl
  rw [he]
  cases Echo.value context (Render.lookup settings context p.counters) es with
  | ok v => exact numeric_write hcounts hfit v.text
  | error f => exact numeric_fail hcounts hfit (admitted_echo context tags es f)

theorem numeric_bound {h : Header} {e : Element} (htag : (.loop h, openCounters ts) ∈ tags)
    (he : e ∈ h.bounds ∨ ∃ n, e = .number n) {f : Fault}
    (hf : Render.bound settings context p.counters e = .error f) :
    Numeric context tags ⟨ts, some (.fault (.loop h) f), p⟩ := by
  refine numeric_fail hcounts hfit fun h' x hx => ?_
  cases hx
  obtain ⟨s, rfl, hs, hb⟩ := Render.bound_eq_value hcounts hf
  have he : e ∈ h.bounds := he.resolve_right fun ⟨n, hn⟩ => by
    rw [hn] at hb
    rcases hb with hb | ⟨_, hb, -⟩ <;> cases hb
  refine ⟨s, openCounters ts, rfl, htag, hs, ?_⟩
  rcases hb with rfl | ⟨name, rfl, hout⟩
  · exact .inl he
  · exact .inr ⟨name, he, hout⟩

theorem numeric_loop [Sink σ] {h : Header} {body : List Node}
    (ht : (Node.loop h body).tags (openCounters ts) ⊆ tags) :
    Numeric context tags (onto ts ((Task.visit (.loop h body)).run settings context p)) := by
  obtain ⟨htag, hbody⟩ := List.cons_subset.1 ht
  have hrun : (Task.visit (.loop h body)).run settings context p = (do
      let start ← Render.ofSite (.loop h) (Render.bound settings context p.counters h.start)
      let stop ← Render.ofSite (.loop h) (Render.bound settings context p.counters h.stop)
      let step ← Render.ofSite (.loop h)
        (Render.bound settings context p.counters (h.step.getD (.number (.int 1))))
      Render.push h.counter start
      return [Task.test ⟨h, stop, step, body, settings.maxIterations⟩, Task.leave h.counter]) p :=
    rfl
  rw [hrun]
  have hstep : h.step.getD (.number (.int 1)) ∈ h.bounds ∨
      ∃ n, h.step.getD (.number (.int 1)) = .number n := by
    cases hs : h.step with
    | none => exact .inr ⟨_, rfl⟩
    | some e => exact .inl (by simp [Header.bounds, hs])
  refine numeric_ofSite (fun f => numeric_bound hcounts hfit htag (.inl (by simp [Header.bounds])))
    fun start hstart => ?_
  refine numeric_ofSite (fun f => numeric_bound hcounts hfit htag (.inl (by simp [Header.bounds])))
    fun stop hstop => ?_
  refine numeric_ofSite (fun f => numeric_bound hcounts hfit htag hstep) fun step hs => ?_
  have hpush : Render.push h.counter start p =
      .ok () ⟨p.counters.push h.counter start, p.sink⟩ := rfl
  rw [Render.bind_of_ok hpush]
  have hr : Rounds.Fits tags (h.counter :: openCounters ts)
      ⟨h, stop, step, body, settings.maxIterations⟩ :=
    ⟨Render.isNumber_of_bound hstop, Render.isNumber_of_bound hs, List.mem_cons_self, hbody⟩
  exact numeric_going (hcounts.push (Render.isNumber_of_bound hstart)) ⟨hr, trivial, hfit⟩

theorem numeric_test [Sink σ] {r : Rounds} (hr : r.Fits tags (openCounters ts)) :
    Numeric context tags (onto ts ((Task.test r).run settings context p)) := by
  obtain ⟨past, hpast⟩ := Render.finished_of_counts hcounts hr.counter hr.stop
  have hrun : (Task.test r).run settings context p = _ := Render.bind_of_ok hpast
  rw [hrun]
  cases past with
  | true => exact numeric_going hcounts hfit
  | false =>
    simp only [Bool.false_eq_true, ↓reduceIte]
    cases hleft : r.left with
    | zero =>
      exact numeric_fail hcounts hfit (admitted_iterationLimit context tags r.header _)
    | succ left =>
      have hnext : AllFit tags (.next { r with left } :: ts) :=
        ⟨⟨hr.stop, hr.step, hr.counter, hr.body⟩, hfit⟩
      -- The step after the round comes between the body and the end of the loop.
      have hopen : p.counters.Counts (openCounters (.next { r with left } :: ts)) := hcounts
      have hround : Numeric context tags
          ⟨r.body.map .visit ++ (.next { r with left } :: ts), none, p⟩ :=
        numeric_visits hopen hnext hr.body
      simpa only [onto, pure, EStateM.pure, List.append_assoc, List.singleton_append] using hround

theorem numeric_next [Sink σ] {r : Rounds} (hr : r.Fits tags (openCounters ts)) :
    Numeric context tags (onto ts ((Task.next r).run settings context p)) := by
  obtain ⟨v, htop, hv⟩ := Render.top_of_counts hcounts hr.counter
  obtain ⟨next, hnext, hnumber⟩ := Render.advance_of_isNumber hv hr.step
  have hrun : (Task.next r).run settings context p = _ := Render.bind_of_ok htop
  rw [hrun, hnext]
  cases next with
  | none => exact numeric_going hcounts hfit
  | some w =>
    obtain ⟨u, k', hset, hk'⟩ := hcounts.setTop hr.counter (hnumber w rfl)
    have hs : Render.setTop r.header.counter w p = .ok () ⟨k', p.sink⟩ := by
      rw [Render.setTop, hset]
    have hrun' : (Render.setTop r.header.counter w >>= fun _ => pure [Task.test r]) p =
        .ok [.test r] ⟨k', p.sink⟩ := Render.bind_of_ok hs
    exact hrun' ▸ numeric_going hk' ⟨hr, hfit⟩

theorem numeric_visit [Sink σ] (n : Node) (hn : n.tags (openCounters ts) ⊆ tags) :
    Numeric context tags (onto ts ((Task.visit n).run settings context p)) := by
  cases n with
  | document children => exact numeric_visits hcounts hfit hn
  | text s =>
    have hrun := onto_action ts (Render.write s) p
    exact hrun ▸ numeric_write hcounts hfit s
  | echo es =>
    have hrun := onto_action ts (Render.echo settings context es) p
    exact hrun ▸ numeric_echo hcounts hfit es
  | loop h body => exact numeric_loop hcounts hfit hn

end Tasks

section Leave

variable {counter : String} (hcounts : p.counters.Counts (counter :: openCounters ts))
include hcounts

theorem pop_of_counts :
    ∃ k', Render.pop counter p = .ok () ⟨k', p.sink⟩ ∧ k'.Counts (openCounters ts) := by
  obtain ⟨_, k', hpop, hk'⟩ := hcounts.pop
  exact ⟨k', by rw [Render.pop, hpop], hk'⟩

theorem numeric_leave [Sink σ] (hfit : AllFit tags ts) :
    Numeric context tags (onto ts ((Task.leave counter).run settings context p)) := by
  obtain ⟨k', hpop, hk'⟩ := pop_of_counts hcounts
  have hrun : (Task.leave counter).run settings context p = .ok [] ⟨k', p.sink⟩ :=
    Render.bind_of_ok hpop
  exact hrun ▸ numeric_going hk' hfit

end Leave

theorem Numeric.counts_tail {t : Task} {failure : Option RenderError}
    (h : Numeric context tags ⟨t :: ts, failure, p⟩) (ht : t.counter? = none) :
    p.counters.Counts (openCounters ts) := by
  have hc := h.counts
  rwa [openCounters, List.filterMap_cons_none ht] at hc

theorem Numeric.counts_leave {counter : String} {failure : Option RenderError}
    (h : Numeric context tags ⟨.leave counter :: ts, failure, p⟩) :
    p.counters.Counts (counter :: openCounters ts) := h.counts

theorem numeric_run [Sink σ] {t : Task} (h : Numeric context tags ⟨t :: ts, none, p⟩) :
    Numeric context tags (onto ts (t.run settings context p)) := by
  obtain ⟨ht, hfit⟩ := h.fit
  cases t with
  | visit n => exact numeric_visit (h.counts_tail rfl) hfit n ht
  | test r => exact numeric_test (h.counts_tail rfl) hfit ht
  | next r => exact numeric_next (h.counts_tail rfl) hfit ht
  | leave counter => exact numeric_leave h.counts_leave hfit

theorem numeric_unwind {t : Task} {e : RenderError}
    (h : Numeric context tags ⟨t :: ts, some e, p⟩) : Numeric context tags (unwind e ts p t) := by
  have hfit : AllFit tags ts := h.fit.2
  cases t with
  | leave counter =>
    obtain ⟨k', hpop, hk'⟩ := pop_of_counts h.counts_leave
    simp only [unwind, Task.counter?, hpop]
    exact ⟨hk', hfit, h.failure⟩
  | _ => exact ⟨h.counts, hfit, h.failure⟩

end Run

theorem numeric_start (context : Context) (n : Node) (sink : σ) :
    Numeric context (n.tags []) (start n sink) :=
  numeric_going .empty ⟨List.Subset.refl _, trivial⟩

variable [Sink σ]

theorem numeric_step {m m' : Machine σ} (h : Numeric context tags m)
    (hs : m.step settings context = some m') : Numeric context tags m' := by
  obtain ⟨ts, failure, p⟩ := m
  cases ts with
  | nil => cases hs
  | cons t ts =>
    cases failure with
    | some e =>
      cases hs
      exact numeric_unwind h
    | none =>
      cases hs
      exact numeric_run h

theorem numeric_reaches {m m' : Machine σ} (h : Numeric context tags m)
    (hr : Reaches settings context m m') : Numeric context tags m' := by
  induction hr with
  | refl => exact h
  | tail _ hs ih => exact numeric_step ih hs

theorem admitted_renderInto {n : Node} {sink : σ} {e : RenderError}
    (h : (n.renderInto settings context sink).1 = .error e) :
    Admitted context (n.tags []) e := by
  have hend : Numeric context (n.tags [])
      (after [] (n.render settings context ⟨.empty, sink⟩)) :=
    numeric_reaches (numeric_start context n sink) (reaches_end .refl)
  unfold Node.renderInto at h
  cases hr : n.render settings context ⟨.empty, sink⟩ with
  | ok _ p =>
    rw [hr] at h
    cases h
  | error e' p =>
    rw [hr] at h hend
    cases h
    exact hend.failure e rfl

end Machine

namespace Node

mutual

theorem bounds_subset_of_mem_tags : ∀ (n : Node) {around around' : List String} {h : Header},
    (.loop h, around') ∈ n.tags around → h.bounds ⊆ n.bounds
  | .document children, _, _, _, hm => bounds_subset_of_mem_tagsOfAll children hm
  | .text s, _, _, _, hm => nomatch hm
  | .echo es, _, _, _, hm => by simp [tags] at hm
  | .loop h body, around, around', h', hm => by
    rcases List.mem_cons.1 hm with hh | hb
    · cases hh
      exact List.subset_append_left _ _
    · exact List.subset_append_of_subset_right _ (bounds_subset_of_mem_tagsOfAll body hb)

theorem bounds_subset_of_mem_tagsOfAll :
    ∀ (ns : List Node) {around around' : List String} {h : Header},
      (.loop h, around') ∈ tagsOfAll around ns → h.bounds ⊆ boundsOfAll ns
  | [], _, _, _, hm => nomatch hm
  | n :: ns, _, _, _, hm => by
    rcases List.mem_append.1 hm with hn | hns
    · exact List.subset_append_of_subset_left _ (bounds_subset_of_mem_tags n hn)
    · exact List.subset_append_of_subset_right _ (bounds_subset_of_mem_tagsOfAll ns hns)

end

end Node

open Machine in
/-- Every state that the steps of a render reach is on the way to where it ends. The values on the
stacks are numbers there, and where a counter is compared or stepped it is there and this succeeds.
So a loop has no fault of arithmetic; and a loop of a parsed tree finds a string that is no number
only if the context gives it for a bound that no loop around counts with. -/
theorem render_numeric {σ : Type} [Sink σ] (settings : Settings) (context : Context) (n : Node)
    (sink : σ) :
    (∀ m, Reaches settings context (start n sink) m →
      Reaches settings context m (after [] (n.render settings context ⟨.empty, sink⟩)) ∧
      (∀ name, ∀ v ∈ m.pass.counters.stack name, v.IsNumber) ∧
      (∀ r ts, m.tasks = .test r :: ts → ∃ v order,
        m.pass.counters.top r.header.counter = .ok v ∧ v.compare r.stop = .ok order) ∧
      ∀ r ts, m.tasks = .next r :: ts → ∃ v sum,
        m.pass.counters.top r.header.counter = .ok v ∧ v.apply .add r.step = .ok sum) ∧
    (∀ h, (n.renderInto settings context sink).1 ≠
      .error (.fault (.loop h) (.value .divisionByZero))) ∧
    ∀ source h s, Node.parse source = .ok n →
      (n.renderInto settings context sink).1 = .error (.fault (.loop h) (.value (.notNumeric s))) →
      Number.read? s.toList = none ∧ ∃ around name, (.loop h, around) ∈ n.tags [] ∧
        .variable name ∈ h.bounds ∧ name ∉ around ∧ context name = some (.string s) := by
  refine ⟨fun m hm => ⟨reaches_end hm, ?_⟩, fun h he => ?_, fun source h s hp he => ?_⟩
  · have hn := numeric_reaches (numeric_start context n sink) hm
    obtain ⟨tasks, failure, p⟩ := m
    refine ⟨hn.counts.number, ?_, ?_⟩
    · rintro r ts rfl
      obtain ⟨v, ht, hv⟩ := (hn.counts_tail rfl).top hn.fit.1.counter
      obtain ⟨order, ho⟩ := Value.compare_of_isNumber hv hn.fit.1.stop
      exact ⟨v, order, ht, ho⟩
    · rintro r ts rfl
      obtain ⟨v, ht, hv⟩ := (hn.counts_tail rfl).top hn.fit.1.counter
      obtain ⟨sum, hs, -⟩ := Value.add_of_isNumber hv hn.fit.1.step
      exact ⟨v, sum, ht, hs⟩
  · obtain ⟨s, -, hs, -, -⟩ := admitted_renderInto he h _ rfl
    cases hs
  · obtain ⟨t, around, ht, htag, hread, hb⟩ := admitted_renderInto he h _ rfl
    cases ht
    refine ⟨hread, around, ?_⟩
    rcases hb with hb | ⟨name, hb, hout⟩
    · -- A string that is a bound of a parsed loop spells a number.
      have hbound := (Node.shape_of_parse hp).2.2.2 _ (Node.bounds_subset_of_mem_tags n htag hb)
      simp [Element.isBound, hread] at hbound
    · exact ⟨name, htag, hb, hout⟩

def stairs : Node :=
  .document [.loop ⟨"i", .number (.int 1), .string "2", none⟩
    [.loop ⟨"j", .variable "i", .variable "n", none⟩ [.echo [.variable "j"]]]]

theorem parse_stairs : Node.parse stairs.source = .ok stairs := by
  have h : stairs.Spelled := ⟨by decide +kernel, by decide +kernel, by decide +kernel⟩
  refine Node.parse_source_self h (by decide +kernel) ?_
  simp [stairs, Node.tidied, Node.tidyOnto, Node.tidyAllOnto]

theorem render_numeric_stairs :
    let inner : Header := ⟨"j", .variable "i", .variable "n", none⟩
    let words : Context := Context.extend (fun _ => none) "n" (.string "two")
    Node.parse stairs.source = .ok stairs ∧
    (stairs.renderInto ⟨9, false⟩ words "").1 =
      .error (.fault (.loop inner) (.value (.notNumeric "two"))) ∧
    Number.read? "two".toList = none ∧ ∃ around name, (.loop inner, around) ∈ stairs.tags [] ∧
      .variable name ∈ inner.bounds ∧ name ∉ around ∧ words name = some (.string "two") := by
  intro inner words
  have he : (stairs.renderInto ⟨9, false⟩ words "").1 =
      .error (.fault (.loop inner) (.value (.notNumeric "two"))) := by
    decide +kernel
  exact ⟨parse_stairs, he,
    (render_numeric ⟨9, false⟩ words stairs "").2.2 stairs.source inner "two" parse_stairs he⟩

end Stencil
