import Stencil.Proofs.Render.Replay
import Stencil.Proofs.Tree.Shape

set_option autoImplicit false

namespace Stencil

def variableNames (es : List Element) : List String :=
  es.filterMap fun e =>
    match e with
    | .variable name => some name
    | _ => none

theorem mem_variableNames {name : String} {es : List Element} :
    name ∈ variableNames es ↔ .variable name ∈ es := by
  rw [variableNames, List.mem_filterMap]
  constructor
  · rintro ⟨e, he, hn⟩
    cases e with
    | «variable» m =>
      cases hn
      exact he
    | _ => contradiction
  · exact fun h => ⟨_, h, rfl⟩

theorem Header.mem_bounds_of_step {h : Header} {name : String}
    (hs : h.step.getD (.number (.int 1)) = .variable name) : .variable name ∈ h.bounds := by
  cases hd : h.step with
  | none => simp [hd] at hs
  | some s =>
    rw [hd, Option.getD_some] at hs
    simp [bounds, hd, hs]

namespace Node

mutual

/-- The variables that stand in no body of a loop which counts with them. The header of a loop
stands outside its body. -/
def free : Node → List String
  | .document children => freeOfAll children
  | .text _ => []
  | .loop h body => variableNames h.bounds ++ (freeOfAll body).filter (· ≠ h.counter)
  | .echo es => variableNames es

def freeOfAll : List Node → List String
  | [] => []
  | n :: ns => n.free ++ freeOfAll ns

end

end Node

theorem Builtin.call_context (context context' : Context) {f : Builtin} {stack : List Value}
    (h : f ≠ .paramGet) : f.call context stack = f.call context' stack := by
  cases f with
  | paramGet => contradiction
  | _ => rcases stack with _ | ⟨x, _ | ⟨y, rest⟩⟩ <;> rfl

namespace Echo

variable {context context' : Context} {lookup lookup' : String → Except Fault Value}

theorem step_context (context context' : Context) {lookup : String → Except Fault Value}
    {stack : List Value} {e : Element} (h : e ≠ .function "paramGet") :
    step context lookup stack e = step context' lookup stack e := by
  cases e with
  | function name =>
    simp only [step, onFunction]
    cases hf : Builtin.ofName? name with
    | none => rfl
    | some f =>
      have hp : f ≠ .paramGet := by
        rintro rfl
        have hn := List.find?_some hf
        simp only [Builtin.name, beq_iff_eq] at hn
        exact h (congrArg Element.function hn.symm)
      simp only [Builtin.call_context context context' hp]
  | _ => rfl

theorem value_congr {es : List Element}
    (h : ∀ e ∈ es, ∀ stack, step context lookup stack e = step context' lookup' stack e) :
    value context lookup es = value context' lookup' es := by
  have hf : ∀ stack, es.foldlM (step context lookup) stack =
      es.foldlM (step context' lookup') stack := by
    induction es with
    | nil => exact fun _ => rfl
    | cons e es ih =>
      rw [List.forall_mem_cons] at h
      intro stack
      simp only [List.foldlM_cons, h.1, ih h.2]
  rw [value, value, hf]

theorem value_context (context context' : Context) {es : List Element}
    (h : .function "paramGet" ∉ es) : value context lookup es = value context' lookup es :=
  value_congr fun _ he _ => step_context context context' fun hp => h (hp ▸ he)

theorem value_lookup {es : List Element}
    (h : ∀ name ∈ variableNames es, lookup name = lookup' name) :
    value context lookup es = value context lookup' es := by
  refine value_congr fun e he stack => ?_
  cases e with
  | «variable» name => simp only [step, h name (mem_variableNames.2 he)]
  | _ => rfl

end Echo

theorem Context.extend_congr {scope scope' : Context} {counter : String} {names : List String}
    (v : Value) (h : ∀ name ∈ names.filter (· ≠ counter), scope name = scope' name) :
    ∀ name ∈ names, scope.extend counter v name = scope'.extend counter v name := by
  intro name hn
  by_cases hc : name = counter
  · simp [Context.extend, hc]
  · simpa [Context.extend, hc] using h name (by simp [hn, hc])

namespace Render

variable {scope scope' : Context}

theorem lookup_congr (settings : Settings) {name : String} (h : scope name = scope' name) :
    lookup settings scope .empty name = lookup settings scope' .empty name := by
  simp only [lookup, h]

theorem bound_congr (settings : Settings) {e : Element}
    (h : ∀ name, e = .variable name → scope name = scope' name) :
    bound settings scope .empty e = bound settings scope' .empty e := by
  cases e with
  | «variable» name => simp only [bound, lookup_congr settings (h name rfl)]
  | _ => rfl

end Render

namespace Node

variable (settings : Settings)

mutual

theorem trace_context (context context' : Context) : ∀ (n : Node) (scope : Context),
    .function "paramGet" ∉ n.elements →
      n.trace settings context scope = n.trace settings context' scope
  | .document children, scope, h => by
    rw [trace, trace, traceAll_context context context' children scope h]
  | .text _, _, _ => rfl
  | .loop header body, scope, h => by
    simp only [elements, List.mem_append, not_or] at h
    simp only [trace, traceAll_context context context' body _ h.2]
  | .echo es, scope, h => by
    rw [elements] at h
    simp only [trace, Echo.value_context context context' h]

theorem traceAll_context (context context' : Context) : ∀ (ns : List Node) (scope : Context),
    .function "paramGet" ∉ elementsOfAll ns →
      traceAll settings context scope ns = traceAll settings context' scope ns
  | [], _, _ => rfl
  | n :: ns, scope, h => by
    simp only [elementsOfAll, List.mem_append, not_or] at h
    rw [traceAll, traceAll, trace_context context context' n scope h.1,
      traceAll_context context context' ns scope h.2]

end

mutual

theorem trace_scope (context : Context) : ∀ (n : Node) {scope scope' : Context},
    (∀ name ∈ n.free, scope name = scope' name) →
      n.trace settings context scope = n.trace settings context scope'
  | .document children, _, _, h => by
    rw [trace, trace, traceAll_scope context children h]
  | .text _, _, _, _ => rfl
  | .loop header body, scope, scope', h => by
    rw [free, List.forall_mem_append] at h
    have hb : ∀ e, (∀ name, e = .variable name → .variable name ∈ header.bounds) →
        Render.bound settings scope .empty e = Render.bound settings scope' .empty e :=
      fun e he => Render.bound_congr settings fun name hn =>
        h.1 name (mem_variableNames.2 (he name hn))
    have hbody : ∀ v, traceAll settings context (scope.extend header.counter v) body =
        traceAll settings context (scope'.extend header.counter v) body :=
      fun v => traceAll_scope context body (Context.extend_congr v h.2)
    simp only [trace, hb header.start fun name hn => by simp [Header.bounds, hn],
      hb header.stop fun name hn => by simp [Header.bounds, hn],
      hb _ fun _ => Header.mem_bounds_of_step, hbody]
  | .echo es, scope, scope', h => by
    have hl : ∀ name ∈ variableNames es, Render.lookup settings scope .empty name =
        Render.lookup settings scope' .empty name :=
      fun name hn => Render.lookup_congr settings (h name hn)
    simp only [trace, Echo.value_lookup hl]

theorem traceAll_scope (context : Context) : ∀ (ns : List Node) {scope scope' : Context},
    (∀ name ∈ freeOfAll ns, scope name = scope' name) →
      traceAll settings context scope ns = traceAll settings context scope' ns
  | [], _, _, _ => rfl
  | n :: ns, _, _, h => by
    rw [freeOfAll, List.forall_mem_append] at h
    rw [traceAll, traceAll, trace_scope context n h.1, traceAll_scope context ns h.2]

end

end Node

/-- Two contexts that give the free variables of a tree the same values let it write the same and
end the same, in any sink. -/
theorem renderInto_congr_free {n : Node} {context context' : Context}
    (hp : .function "paramGet" ∉ n.elements)
    (h : ∀ name ∈ n.free, context name = context' name) (settings : Settings) {σ : Type} [Sink σ]
    (sink : σ) : n.renderInto settings context sink = n.renderInto settings context' sink := by
  rw [Node.renderInto_eq_play, Node.renderInto_eq_play,
    Node.trace_context settings context context' n context hp,
    Node.trace_scope settings context' n h]

def veiled : Node :=
  .document
    [.loop ⟨"i", .variable "i", .variable "n", none⟩
      [.loop ⟨"inner", .variable "i", .number (.int 2), some (.variable "i")⟩
        [.echo [.variable "inner", .variable "i", .operator .mul]]],
      .text "|", .echo [.variable "i", .variable "missing", .operator .div]]

def veiledContext (inner : Value) : Context :=
  (Context.extend (Context.extend (fun _ => none) "i" (.string "1")) "n" (.number (.int 2))).extend
    "inner" inner

theorem renderInto_veiled :
    .function "paramGet" ∉ veiled.elements ∧
      (∀ name ∈ veiled.free, veiledContext .null name = veiledContext (.string "x") name) ∧
      "i" ∈ veiled.free ∧ veiledContext .null "inner" ≠ veiledContext (.string "x") "inner" ∧
      veiled.renderInto .default (veiledContext .null) (#[] : Array String) =
        veiled.renderInto .default (veiledContext (.string "x")) #[] := by
  have hp : .function "paramGet" ∉ veiled.elements := by decide +kernel
  have hf : ∀ name ∈ veiled.free, veiledContext .null name = veiledContext (.string "x") name := by
    decide +kernel
  exact ⟨hp, hf, by decide +kernel, by decide +kernel, renderInto_congr_free hp hf .default #[]⟩

end Stencil
