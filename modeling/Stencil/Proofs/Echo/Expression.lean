import Stencil.Render.Template

/-! Expression trees and the echoes that list them in postorder. -/

set_option autoImplicit false

namespace Stencil

inductive Expr where
  | number (n : Number)
  | string (s : String)
  | variable (name : String)
  | binary (op : Operator) (left right : Expr)

namespace Expr

/-- The tree in postfix form. -/
def listing : Expr → List Element
  | .number n => [.number n]
  | .string s => [.string s]
  | .variable name => [.variable name]
  | .binary op left right => left.listing ++ right.listing ++ [.operator op]

def postorder : Expr → List Expr
  | .binary op left right => left.postorder ++ right.postorder ++ [.binary op left right]
  | e => [e]

def combine (op : Operator) (x y : Value) : Except Fault Value :=
  match x.apply op y with
  | .ok v => .ok v
  | .error e => .error (.value e)

def value (lookup : String → Except Fault Value) : Expr → Except Fault Value
  | .number n => .ok (.number n)
  | .string s => .ok (.string s)
  | .variable name => lookup name
  | .binary op left right => do
    let x ← left.value lookup
    let y ← right.value lookup
    combine op x y

/-- The fault of a node by itself; an operator has none where an operand has no value. -/
def fault? (lookup : String → Except Fault Value) : Expr → Option Fault
  | .number _ | .string _ => none
  | .variable name =>
    match lookup name with
    | .ok _ => none
    | .error f => some f
  | .binary op left right =>
    match left.value lookup, right.value lookup with
    | .ok x, .ok y =>
      match combine op x y with
      | .ok _ => none
      | .error f => some f
    | _, _ => none

variable {context : Context} {lookup : String → Except Fault Value}

theorem findSome?_postorder (lookup : String → Except Fault Value) (e : Expr) :
    e.postorder.findSome? (fault? lookup) =
      match e.value lookup with
      | .ok _ => none
      | .error f => some f := by
  induction e with
  | number n => rfl
  | string s => rfl
  | «variable» name =>
    simp only [postorder, value, List.findSome?_cons, fault?]
    cases lookup name with
    | ok v => rfl
    | error f => rfl
  | binary op left right hl hr =>
    rw [postorder, List.findSome?_append, List.findSome?_append, hl, hr, value]
    cases hx : left.value lookup with
    | error f => rfl
    | ok x =>
      cases hy : right.value lookup with
      | error f => rfl
      | ok y =>
        simp only [List.findSome?_cons, fault?, hx, hy, bind, Except.bind]
        cases combine op x y with
        | ok v => rfl
        | error f => rfl

theorem step_operator (op : Operator) (x y : Value) (stack : List Value) :
    Echo.step context lookup (y :: x :: stack) (.operator op) =
      (· :: stack) <$> combine op x y := by
  simp only [Echo.step, Echo.onOperator, combine]
  cases x.apply op y with
  | ok v => rfl
  | error e => rfl

variable (context lookup) in
theorem foldlM_listing (e : Expr) (rest : List Element) (stack : List Value) :
    (e.listing ++ rest).foldlM (Echo.step context lookup) stack =
      (e.value lookup >>= fun v => rest.foldlM (Echo.step context lookup) (v :: stack)) := by
  induction e generalizing rest stack with
  | number n => rfl
  | string s => rfl
  | «variable» name => exact bind_map_left _ (lookup name) _
  | binary op left right hl hr =>
    rw [listing, List.append_assoc, List.append_assoc, hl, value, bind_assoc]
    refine bind_congr fun x => ?_
    rw [hr, bind_assoc]
    refine bind_congr fun y => ?_
    rw [List.singleton_append, List.foldlM_cons, step_operator, bind_map_left]

variable (context lookup) in
theorem value_listing (e : Expr) : Echo.value context lookup e.listing = e.value lookup := by
  have h := foldlM_listing context lookup e [] []
  rw [List.append_nil] at h
  rw [Echo.value, h, bind_assoc]
  exact bind_pure (e.value lookup)

end Expr

open Render (lookup)

/-- Whatever the stacks and the sink, the echo that lists a tree writes the text of its value. Where
the tree has no value, the echo writes nothing and fails with the fault of the first node in
postorder that has one. -/
theorem render_listing {σ : Type} [Sink σ] (settings : Settings) (context : Context) (e : Expr)
    (k : Stacks Value) (sink : σ) :
    (∀ v, e.value (lookup settings context k) = .ok v →
      (Node.echo e.listing).render settings context ⟨k, sink⟩ = Render.write v.text ⟨k, sink⟩) ∧
    (∀ f, e.value (lookup settings context k) = .error f →
      e.postorder.findSome? (Expr.fault? (lookup settings context k)) = some f ∧
      (Node.echo e.listing).render settings context ⟨k, sink⟩ =
        .error (.fault (.echo e.listing) f) ⟨k, sink⟩) := by
  have hrender : (Node.echo e.listing).render settings context ⟨k, sink⟩ =
      (do
        let v ← Render.ofSite (.echo e.listing) (e.value (lookup settings context k))
        Render.write (σ := σ) v.text) ⟨k, sink⟩ := by
    rw [← Expr.value_listing context, Node.render]
    rfl
  refine ⟨fun v hv => ?_, fun f hf => ⟨?_, ?_⟩⟩
  · rw [hrender, hv]
    rfl
  · rw [Expr.findSome?_postorder, hf]
  · rw [hrender, hf]
    rfl

def offset : Expr :=
  .binary .sub (.number (.int 7)) (.binary .mul (.string "2") (.variable "i"))

def spoiled : Expr :=
  .binary .add (.binary .mul (.string "two") (.number (.int 2))) (.variable "j")

theorem render_listing_offset :
    let counters : Stacks Value := Stacks.empty.push "i" (.number (.int 3))
    let settings : Settings := ⟨9, true⟩
    (Node.echo offset.listing).render settings (fun _ => none) ⟨counters, "a"⟩ =
      .ok () ⟨counters, "a1"⟩ ∧
    (Node.echo spoiled.listing).render settings (fun _ => none) ⟨counters, "a"⟩ =
      .error (.fault (.echo spoiled.listing) (.value (.notNumeric "two"))) ⟨counters, "a"⟩ := by
  intro counters settings
  have hoffset : offset.value (lookup settings (fun _ => none) counters) =
      .ok (.number (.int 1)) := rfl
  have hspoiled : spoiled.value (lookup settings (fun _ => none) counters) =
      .error (.value (.notNumeric "two")) := rfl
  constructor
  · refine ((render_listing settings (fun _ => none) offset counters "a").1 _ hoffset).trans ?_
    rfl
  · exact ((render_listing settings (fun _ => none) spoiled counters "a").2 _ hspoiled).2

end Stencil
