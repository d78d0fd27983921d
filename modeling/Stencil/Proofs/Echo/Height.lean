import Stencil.Proofs.Render.Failure

/-! The height of the stack of an echo, walked from its elements alone. -/

set_option autoImplicit false

namespace Stencil

namespace Element

/-- How many values the element needs on the stack. A function that does not exist needs none: it
fails whatever is there. -/
def need : Element → Nat
  | .number _ | .string _ | .variable _ => 0
  | .operator _ => 2
  | .function name =>
    match name with
    | "sin" | "cos" | "dup" => 1
    | "swap" | "decfmt" | "paramGet" => 2
    | _ => 0

def gain : Element → Int
  | .number _ | .string _ | .variable _ => 1
  | .operator _ => -1
  | .function name =>
    match name with
    | "dup" => 1
    | "decfmt" | "paramGet" => -1
    | _ => 0

def label : Element → String
  | .operator op => Echo.operatorName op
  | .function name => "@" ++ name
  | e => e.text

end Element

def Fault.isOfHeight : Fault → Bool
  | .underflow _ _ _ | .imbalance _ => true
  | _ => false

namespace Builtin

variable {f : Builtin} {rest : List Value}

theorem name_of_ofName? {name : String} (h : ofName? name = some f) : f.name = name := by
  simpa using List.find?_some h

theorem need_name (f : Builtin) : (Element.function f.name).need = f.arity := by
  cases f <;> rfl

theorem ofName?_eq_none_iff {name : String} :
    ofName? name = none ↔ ∀ f : Builtin, f.name ≠ name := by
  have hall : ∀ f : Builtin, f ∈ all := by
    intro f
    cases f <;> decide
  simp [ofName?, List.find?_eq_none, hall]

theorem need_of_ofName?_eq_none {name : String} (h : ofName? name = none) :
    (Element.function name).need = 0 := by
  have hn := ofName?_eq_none_iff.1 h
  simp only [Element.need]
  split
  · exact (hn .sin rfl).elim
  · exact (hn .cos rfl).elim
  · exact (hn .dup rfl).elim
  · exact (hn .swap rfl).elim
  · exact (hn .decfmt rfl).elim
  · exact (hn .paramGet rfl).elim
  · rfl

structure Completes (f : Builtin) (height : Nat) (c : Call) : Prop where
  enough : ∀ g found, c.1 ≠ .error (.underflow g found)
  length : c.1 = .ok () → (c.2.length : Int) = height + (Element.function f.name).gain

theorem completes_ok {height : Nat} {left : List Value}
    (h : (left.length : Int) = height + (Element.function f.name).gain) :
    Completes f height (.ok (), left) :=
  ⟨fun _ _ he => (nomatch he), fun _ => h⟩

theorem completes_give {height : Nat} {x : Except BuiltinError Value}
    (hx : ∀ g found, x ≠ .error (.underflow g found))
    (h : ((rest.length + 1 : Nat) : Int) = height + (Element.function f.name).gain) :
    Completes f height (give rest x) := by
  cases x with
  | ok v => exact completes_ok h
  | error e =>
    refine ⟨fun g found he => hx g found ?_, fun ho => nomatch ho⟩
    simpa [give] using he

theorem real_ne_underflow (v : Value) (g : Builtin) (found : Nat) :
    real v ≠ .error (.underflow g found) := by
  unfold real
  split <;> simp

theorem map_angle_ne_underflow (v : Value) (r : Float → Value) (g : Builtin) (found : Nat) :
    (angle v).map r ≠ .error (.underflow g found) := by
  have hr := real_ne_underflow v g found
  unfold angle
  cases h : real v with
  | ok x => simp [Except.map]
  | error e => simpa [Except.map, h] using hr

theorem formatted_ne_underflow (x : Float) (text : String) (g : Builtin) (found : Nat) :
    formatted x text ≠ .error (.underflow g found) := by
  unfold formatted
  split <;> simp

theorem call_cases (context : Context) (f : Builtin) (stack : List Value) :
    (stack.length < f.arity ∧ f.call context stack = (.error (.underflow f stack.length), stack)) ∨
      f.arity ≤ stack.length ∧ f.Completes stack.length (f.call context stack) := by
  rcases stack with _ | ⟨y, _ | ⟨x, rest⟩⟩
  · exact .inl ⟨by cases f <;> decide, by cases f <;> rfl⟩
  · cases f with
    | sin | cos => exact .inr ⟨Nat.le_refl 1, completes_give (map_angle_ne_underflow y _) rfl⟩
    | dup => exact .inr ⟨Nat.le_refl 1, completes_ok rfl⟩
    | swap | decfmt | paramGet => exact .inl ⟨Nat.one_lt_two, rfl⟩
  · have harity : f.arity ≤ 2 := by cases f <;> decide
    refine .inr ⟨Nat.le_trans harity (Nat.le_add_left 2 rest.length), ?_⟩
    cases f with
    | sin | cos => exact completes_give (map_angle_ne_underflow y _) (by simp [Element.gain, name])
    | dup => exact completes_ok (by simp [Element.gain, name])
    | swap => exact completes_ok (by simp [Element.gain, name])
    | paramGet => exact completes_ok (by simp only [List.length_cons, Element.gain, name]; omega)
    | decfmt =>
      refine completes_give (fun g found he => ?_)
        (by simp only [List.length_cons, Element.gain, name]; omega)
      rcases bind_eq_error he with hr | ⟨a, -, ht⟩
      · exact real_ne_underflow x g found hr
      · rcases bind_eq_error ht with hf | ⟨t, -, hp⟩
        · exact formatted_ne_underflow a y.text g found hf
        · cases hp

end Builtin

namespace Echo

/-- Where a walk over the elements ends: at a height, or before an element that needs more. -/
inductive Walk where
  | ends (height : Nat)
  | short (need height : Nat)
  deriving DecidableEq, Repr

def walk (n : Nat) : List Element → Walk
  | [] => .ends n
  | e :: es => if n < e.need then .short e.need n else walk (n + e.gain).toNat es

theorem walk_append {n m : Nat} {before after : List Element} (h : walk n before = .ends m) :
    walk n (before ++ after) = walk m after := by
  induction before generalizing n with
  | nil => cases h; rfl
  | cons e es ih =>
    rw [walk] at h
    split at h
    · cases h
    · rw [List.cons_append, walk, if_neg ‹_›]
      exact ih h

variable {context : Context} {lookup : String → Except Fault Value} {stack left : List Value}

structure Steps (height : Nat) (e : Element) (r : Except Fault (List Value)) : Prop where
  enough : ∀ f, r = .error f → f.isOfHeight = false
  length : ∀ left, r = .ok left → left.length = (height + e.gain).toNat

theorem steps_ok {height : Nat} {e : Element} (h : (left.length : Int) = height + e.gain) :
    Steps height e (.ok left) := by
  refine ⟨fun f hf => (nomatch hf), fun l hl => ?_⟩
  cases hl
  omega

theorem steps_error {height : Nat} {e : Element} {f : Fault} (h : f.isOfHeight = false) :
    Steps height e (.error f) := by
  refine ⟨fun g hg => ?_, fun left hl => (nomatch hl)⟩
  cases hg
  exact h

theorem onOperator_cases (op : Operator) (stack : List Value) :
    (stack.length < 2 ∧
        onOperator op stack = .error (.underflow (operatorName op) 2 stack.length)) ∨
      2 ≤ stack.length ∧ Steps stack.length (.operator op) (onOperator op stack) := by
  rcases stack with _ | ⟨y, _ | ⟨x, rest⟩⟩
  · exact .inl ⟨Nat.two_pos, rfl⟩
  · exact .inl ⟨Nat.one_lt_two, rfl⟩
  · refine .inr ⟨Nat.le_add_left 2 rest.length, ?_⟩
    rw [onOperator]
    cases x.apply op y with
    | ok v => exact steps_ok (by simp only [List.length_cons, Element.gain]; omega)
    | error e => exact steps_error rfl

theorem onFunction_cases (context : Context) (name : String) (stack : List Value) :
    (stack.length < (Element.function name).need ∧ onFunction context name stack =
        .error (.underflow ("@" ++ name) (Element.function name).need stack.length)) ∨
      (Element.function name).need ≤ stack.length ∧
        Steps stack.length (.function name) (onFunction context name stack) := by
  cases hf : Builtin.ofName? name with
  | none =>
    have ho : onFunction context name stack = .error (.unknownFunction name) := by
      simp only [onFunction, hf]
    rw [Builtin.need_of_ofName?_eq_none hf, ho]
    exact .inr ⟨Nat.zero_le _, steps_error rfl⟩
  | some f =>
    obtain rfl := Builtin.name_of_ofName? hf
    rw [Builtin.need_name]
    rcases Builtin.call_cases context f stack with ⟨hs, hc⟩ | ⟨hs, hc⟩
    · refine .inl ⟨hs, ?_⟩
      simp only [onFunction, hf, hc]
      rfl
    · refine .inr ⟨hs, ?_⟩
      cases hr : f.call context stack with
      | mk r left =>
        rw [hr] at hc
        simp only [onFunction, hf, hr]
        cases r with
        | ok _ => exact steps_ok (hc.length rfl)
        | error e =>
          refine steps_error ?_
          cases e with
          | underflow g found => exact (hc.enough g found rfl).elim
          | pattern text => rfl
          | value e => rfl

variable (context) in
theorem step_cases (hl : ∀ name f, lookup name = .error f → f.isOfHeight = false)
    (stack : List Value) (e : Element) :
    (stack.length < e.need ∧
        step context lookup stack e = .error (.underflow e.label e.need stack.length)) ∨
      e.need ≤ stack.length ∧ Steps stack.length e (step context lookup stack e) := by
  cases e with
  | operator op => exact onOperator_cases op stack
  | function name => exact onFunction_cases context name stack
  | number n => exact .inr ⟨Nat.zero_le _, steps_ok rfl⟩
  | string s => exact .inr ⟨Nat.zero_le _, steps_ok rfl⟩
  | «variable» name =>
    refine .inr ⟨Nat.zero_le _, ?_⟩
    simp only [step]
    cases hv : lookup name with
    | ok v => exact steps_ok rfl
    | error f => exact steps_error (hl name f hv)

theorem value_eq_error_iff {es : List Element} {f : Fault} :
    value context lookup es = .error f ↔
      es.foldlM (step context lookup) [] = .error f ∨
        ∃ left, es.foldlM (step context lookup) [] = .ok left ∧ left.length ≠ 1 ∧
          f = .imbalance left.length := by
  unfold value
  cases es.foldlM (step context lookup) [] with
  | error e => simp [bind, Except.bind]
  | ok left =>
    rcases left with _ | ⟨v, _ | ⟨w, rest⟩⟩
    · change Except.error (Fault.imbalance 0) = .error f ↔ _
      simp [eq_comm]
    · simp [ok_bind, pure, Except.pure]
    · change Except.error (Fault.imbalance (rest.length + 2)) = .error f ↔ _
      simp [eq_comm]

section Run

variable {es : List Element} (hl : ∀ name f, lookup name = .error f → f.isOfHeight = false)
include hl

theorem walk_of_foldlM (h : es.foldlM (step context lookup) stack = .ok left) :
    walk stack.length es = .ends left.length := by
  induction es generalizing stack with
  | nil => cases h; rfl
  | cons e es ih =>
    rw [List.foldlM_cons] at h
    obtain ⟨next, hn, hr⟩ := bind_eq_ok h
    rcases step_cases context hl stack e with ⟨-, hs⟩ | ⟨hle, hs⟩
    · rw [hs] at hn
      cases hn
    · rw [walk, if_neg (Nat.not_lt.2 hle), ← hs.length next hn]
      exact ih hr

theorem foldlM_eq_error_iff {f : Fault} (hf : f.isOfHeight = true) :
    es.foldlM (step context lookup) stack = .error f ↔
      ∃ before e after reached, es = before ++ e :: after ∧
        before.foldlM (step context lookup) stack = .ok reached ∧ reached.length < e.need ∧
        f = .underflow e.label e.need reached.length := by
  constructor
  · intro h
    induction es generalizing stack with
    | nil => cases h
    | cons e es ih =>
      rw [List.foldlM_cons] at h
      rcases bind_eq_error h with hs | ⟨next, hn, hr⟩
      · rcases step_cases context hl stack e with ⟨hlt, hu⟩ | ⟨-, hu⟩
        · rw [hu] at hs
          cases hs
          exact ⟨[], e, es, stack, rfl, rfl, hlt, rfl⟩
        · rw [hu.enough f hs] at hf
          cases hf
      · obtain ⟨before, d, after, reached, rfl, hb, hlt, rfl⟩ := ih hr
        refine ⟨e :: before, d, after, reached, rfl, ?_, hlt, rfl⟩
        rw [List.foldlM_cons, hn]
        exact hb
  · rintro ⟨before, e, after, reached, rfl, hb, hlt, rfl⟩
    rw [List.foldlM_append, hb]
    rcases step_cases context hl reached e with ⟨-, hu⟩ | ⟨hle, -⟩
    · change ((e :: after).foldlM (step context lookup) reached) = _
      rw [List.foldlM_cons, hu]
      rfl
    · omega

theorem value_underflow_iff {what : String} {needed found : Nat} :
    value context lookup es = .error (.underflow what needed found) ↔
      ∃ before e after reached, es = before ++ e :: after ∧
        before.foldlM (step context lookup) [] = .ok reached ∧ walk 0 before = .ends found ∧
        found < e.need ∧ needed = e.need ∧ what = e.label := by
  rw [value_eq_error_iff, foldlM_eq_error_iff hl rfl]
  constructor
  · rintro (⟨before, e, after, reached, rfl, hb, hlt, hf⟩ | ⟨_, -, -, hf⟩)
    · cases hf
      exact ⟨before, e, after, reached, rfl, hb, walk_of_foldlM hl hb, hlt, rfl, rfl⟩
    · cases hf
  · rintro ⟨before, e, after, reached, rfl, hb, hw, hlt, rfl, rfl⟩
    cases (walk_of_foldlM hl hb).symm.trans hw
    exact .inl ⟨before, e, after, reached, rfl, hb, hlt, rfl⟩

theorem value_imbalance_iff {found : Nat} :
    value context lookup es = .error (.imbalance found) ↔
      (∃ left, es.foldlM (step context lookup) [] = .ok left) ∧ walk 0 es = .ends found ∧
        found ≠ 1 := by
  rw [value_eq_error_iff, foldlM_eq_error_iff hl rfl]
  constructor
  · rintro (⟨_, _, _, _, -, -, -, hf⟩ | ⟨left, hr, hne, hf⟩)
    · cases hf
    · cases hf
      exact ⟨⟨left, hr⟩, walk_of_foldlM hl hr, hne⟩
  · rintro ⟨⟨left, hr⟩, hw, hne⟩
    cases (walk_of_foldlM hl hr).symm.trans hw
    exact .inr ⟨left, hr, hne, rfl⟩

theorem walk_of_value {v : Value} (h : value context lookup es = .ok v) : walk 0 es = .ends 1 := by
  obtain ⟨left, hf, hm⟩ := bind_eq_ok h
  have hw := walk_of_foldlM hl hf
  split at hm
  · exact hw
  · cases hm

end Run

end Echo

open Render (outcome)

section Render

variable {σ : Type} [Sink σ] {settings : Settings} {context : Context} {k : Stacks Value}
  {es : List Element} {sink : σ}

variable (settings context k) in
theorem Render.isOfHeight_of_lookup (name : String) (f : Fault)
    (h : lookup settings context k name = .error f) : f.isOfHeight = false := by
  rw [lookup_scope] at h
  rw [(lookup_eq_error h).1]
  rfl

theorem outcome_echo_eq_fault_iff {site : Site} {f : Fault} :
    (outcome ((Node.echo es).render settings context) k sink).1 = .error (.fault site f) ↔
      site = .echo es ∧ Echo.value context (Render.lookup settings context k) es = .error f := by
  rw [Node.outcome_echo]
  cases Echo.value context (Render.lookup settings context k) es with
  | ok v =>
    simp only [Trace.ofSite, Trace.play, Trace.write, Trace.playAll]
    cases Sink.write v.text sink <;> simp
  | error g => simp [Trace.ofSite, Trace.fail, Trace.play, Trace.playAll, eq_comm]

theorem value_of_outcome_echo
    (h : (outcome ((Node.echo es).render settings context) k sink).1 = .ok ()) :
    ∃ v, Echo.value context (Render.lookup settings context k) es = .ok v := by
  rw [Node.outcome_echo] at h
  cases hv : Echo.value context (Render.lookup settings context k) es with
  | ok v => exact ⟨v, rfl⟩
  | error f =>
    rw [hv] at h
    cases h

end Render

open Echo in
/-- Over any stacks and into any sink, the stack of an echo is as high before each element that is
reached as the walk is there. The echo finds too few values exactly at an element that is reached
and needs more than the walk has, and another number than one left exactly after the last element.
So it does neither if the walk ends at one, and has no value if the walk does not. -/
theorem render_echo_walk {σ : Type} [Sink σ] (settings : Settings) (context : Context)
    (k : Stacks Value) (es : List Element) :
    let run := List.foldlM (step context (Render.lookup settings context k)) []
    (∀ before after reached, es = before ++ after → run before = .ok reached →
      walk 0 before = .ends reached.length) ∧
    ∀ sink : σ, let result := (outcome ((Node.echo es).render settings context) k sink).1
      (∀ site what needed found, result = .error (.fault site (.underflow what needed found)) ↔
        site = .echo es ∧ ∃ before e after reached, es = before ++ e :: after ∧
          run before = .ok reached ∧ walk 0 before = .ends found ∧ found < e.need ∧
          needed = e.need ∧ what = e.label) ∧
      (∀ site found, result = .error (.fault site (.imbalance found)) ↔
        site = .echo es ∧ (∃ left, run es = .ok left) ∧ walk 0 es = .ends found ∧ found ≠ 1) ∧
      (walk 0 es = .ends 1 →
        ∀ site f, result = .error (.fault site f) → f.isOfHeight = false) ∧
      (walk 0 es ≠ .ends 1 → result ≠ .ok ()) := by
  intro run
  have hl := Render.isOfHeight_of_lookup settings context k
  have hwalk : ∀ before reached, run before = .ok reached → walk 0 before = .ends reached.length :=
    fun before reached h => walk_of_foldlM hl h
  refine ⟨fun before _ reached _ h => hwalk before reached h, fun sink => ?_⟩
  intro result
  have hunder : ∀ site what needed found,
      result = .error (.fault site (.underflow what needed found)) ↔ _ := fun _ _ _ _ =>
    outcome_echo_eq_fault_iff.trans (and_congr_right' (Echo.value_underflow_iff hl))
  have himb : ∀ site found, result = .error (.fault site (.imbalance found)) ↔ _ := fun _ _ =>
    outcome_echo_eq_fault_iff.trans (and_congr_right' (Echo.value_imbalance_iff hl))
  refine ⟨hunder, himb, fun hone site f hf => ?_, fun hne hok => ?_⟩
  · rw [← Bool.not_eq_true]
    intro hheight
    cases f with
    | underflow what needed found =>
      obtain ⟨-, before, e, after, _, rfl, -, hw, hlt, -, -⟩ := (hunder _ _ _ _).1 hf
      rw [walk_append hw, walk, if_pos hlt] at hone
      cases hone
    | imbalance found =>
      obtain ⟨-, -, hw, hne⟩ := (himb _ _).1 hf
      rw [hone] at hw
      cases hw
      exact hne rfl
    | _ => cases hheight
  · obtain ⟨v, hv⟩ := value_of_outcome_echo hok
    exact hne (walk_of_value hl hv)

def squared : List Element := [.variable "x", .function "dup", .operator .mul]

def lone : List Element := [.variable "x", .operator .mul]

theorem render_echo_walk_squared :
    let words : Context := Context.extend (fun _ => none) "x" (.string "abc")
    Echo.walk 0 squared = .ends 1 ∧
    (Node.echo squared).renderInto ⟨9, false⟩ words "" =
      (.error (.fault (.echo squared) (.value (.notNumeric "abc"))), "") ∧
    (Fault.value (.notNumeric "abc")).isOfHeight = false ∧
    Echo.walk 0 lone = .short 2 1 ∧
    (∀ settings : Settings, settings.strict = false → ∀ sink : String,
      ((Node.echo lone).renderInto settings (fun _ => none) sink).1 =
        .error (.fault (.echo lone) (.underflow "operator `*`" 2 1))) := by
  intro words
  have hs : (Node.echo squared).renderInto ⟨9, false⟩ words "" =
      (.error (.fault (.echo squared) (.value (.notNumeric "abc"))), "") := by
    decide +kernel
  refine ⟨by decide, hs, ?_, by decide, fun settings hstrict sink => ?_⟩
  · exact ((render_echo_walk ⟨9, false⟩ words .empty squared).2 "").2.2.1 (by decide) _ _
      (congrArg Prod.fst hs)
  · refine (((render_echo_walk settings (fun _ => none) .empty lone).2 sink).1 _ _ _ _).2
      ⟨rfl, [.variable "x"], .operator .mul, [], [.null], rfl, ?_, rfl, by decide, rfl, by decide⟩
    simp [Echo.step, Render.lookup, Stacks.top, hstrict]
    rfl

end Stencil
