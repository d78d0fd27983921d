import Stencil.Proofs.Echo.Height

set_option autoImplicit false

namespace Stencil

namespace Builtin

variable {f : Builtin} {context : Context} {args : List Value}

/-- The outcome of a call, if there is such a function, and the stack that it leaves. -/
def named (context : Context) (name : String) (stack : List Value) :
    Option (Except BuiltinError Unit) × List Value :=
  match ofName? name with
  | none => (none, stack)
  | some f => (f.call context stack).map some id

theorem onFunction_eq_named (context : Context) (name : String) (stack : List Value) :
    Echo.onFunction context name stack =
      match named context name stack with
      | (none, _) => .error (.unknownFunction name)
      | (some (.ok _), left) => .ok left
      | (some (.error e), _) => .error (.ofBuiltin e) := by
  rw [Echo.onFunction, named]
  cases ofName? name with
  | none => rfl
  | some f =>
    dsimp only [Prod.map]
    rcases f.call context stack with ⟨_ | _, left⟩ <;> rfl

theorem ofName?_name (f : Builtin) : ofName? f.name = some f := by
  cases f <;> decide

theorem named_name (context : Context) (f : Builtin) (stack : List Value) :
    named context f.name stack = (f.call context stack).map some id := by
  rw [named, ofName?_name]

/-- What a call has found, in place of its arguments, which stood on `rest`. -/
def put (rest : List Value) : Except BuiltinError (List Value) → Call
  | .ok vs => (.ok (), vs ++ rest)
  | .error e => (.error e, rest)

theorem put_append (rest base : List Value) (r : Except BuiltinError (List Value)) :
    put (rest ++ base) r = ((put rest r).1, (put rest r).2 ++ base) := by
  cases r with
  | ok vs => rw [put, put, List.append_assoc]
  | error e => rfl

theorem give_eq_put (rest : List Value) (r : Except BuiltinError Value) :
    give rest r = put rest (r.map ([·])) := by
  cases r <;> rfl

theorem exists_call (context : Context) (h : args.length = f.arity) :
    ∃ r, ∀ rest, f.call context (args ++ rest) = put rest r := by
  rcases args with _ | ⟨y, _ | ⟨x, _ | ⟨z, zs⟩⟩⟩
  · cases f <;> cases h
  · cases f with
    | sin | cos => exact ⟨_, fun rest => give_eq_put rest _⟩
    | dup => exact ⟨.ok [y, y], fun rest => rfl⟩
    | swap | decfmt | paramGet => cases h
  · cases f with
    | decfmt => exact ⟨_, fun rest => give_eq_put rest _⟩
    | swap => exact ⟨.ok [x, y], fun rest => rfl⟩
    | paramGet => exact ⟨.ok [(context x.text).getD y], fun rest => rfl⟩
    | sin | cos | dup => cases h
  · cases f <;> cases h

theorem exists_call_drop (context : Context) {stack : List Value} (h : f.arity ≤ stack.length) :
    ∃ r, ∀ base, f.call context (stack ++ base) = put (stack.drop f.arity ++ base) r := by
  obtain ⟨r, hr⟩ := exists_call context (List.length_take_of_le h)
  refine ⟨r, fun base => ?_⟩
  rw [← hr, ← List.append_assoc, List.take_append_drop]

theorem call_append (context : Context) (base : List Value) (h : f.arity ≤ args.length) :
    f.call context (args ++ base) = ((f.call context args).1, (f.call context args).2 ++ base) := by
  obtain ⟨r, hr⟩ := exists_call_drop context h
  have ha := hr []
  rw [List.append_nil, List.append_nil] at ha
  rw [hr, put_append, ha]

theorem call_error {stack : List Value} {e : BuiltinError} (h : f.arity ≤ stack.length)
    (he : (f.call context stack).1 = .error e) :
    (f.call context stack).2 = stack.drop f.arity := by
  obtain ⟨r, hr⟩ := exists_call_drop context h
  have hs := hr []
  rw [List.append_nil, List.append_nil] at hs
  rw [hs] at he ⊢
  cases r with
  | ok vs => cases he
  | error e => rfl

theorem call_of_lt (context : Context) {stack : List Value} (h : stack.length < f.arity) :
    f.call context stack = (.error (.underflow f stack.length), stack) := by
  rcases call_cases context f stack with ⟨-, hc⟩ | ⟨hl, -⟩
  · exact hc
  · omega

/-- On a stack with `args` on top of `base`: a name of no function leaves it as it was, and so does
a function that finds too few values on all of it. One that finds enough among `args` does what it
does without `base`. One that fails for another reason has taken just its arguments. -/
theorem named_frame (context : Context) (args base : List Value) :
    (∀ name, (∀ f : Builtin, f.name ≠ name) →
      named context name (args ++ base) = (none, args ++ base)) ∧
    ∀ f : Builtin,
      ((args ++ base).length < f.arity → ∃ e,
        named context f.name (args ++ base) = (some (.error e), args ++ base) ∧
        e = .underflow f (args ++ base).length ∧
        e.message = tooFew ("@" ++ f.name) f.arity (args ++ base).length) ∧
      (f.arity ≤ args.length → named context f.name (args ++ base) =
        ((named context f.name args).1, (named context f.name args).2 ++ base)) ∧
      ∀ e, (named context f.name (args ++ base)).1 = some (.error e) →
        (∀ g found, e ≠ .underflow g found) → f.arity ≤ (args ++ base).length ∧
          (named context f.name (args ++ base)).2 = (args ++ base).drop f.arity := by
  refine ⟨fun name hn => ?_, fun f => ?_⟩
  · rw [named, ofName?_eq_none_iff.2 hn]
  simp only [named_name]
  refine ⟨fun h => ?_, fun h => ?_, fun e he hu => ?_⟩
  · rw [call_of_lt context h]
    exact ⟨_, rfl, rfl, rfl⟩
  · rw [call_append context base h]
    rfl
  · have he : (f.call context (args ++ base)).1 = .error e := Option.some.inj he
    have hl : f.arity ≤ (args ++ base).length := by
      by_contra hl
      rw [call_of_lt context (Nat.lt_of_not_le hl)] at he
      exact hu _ _ (Except.error.inj he).symm
    exact ⟨hl, call_error hl he⟩

theorem named_frame_decfmt :
    named (fun _ => none) "decfmt" [.string "#x", .number (.int 5), .string "below"] =
        (some (.error (.pattern "#x")), [.string "below"]) ∧
      named (fun _ => none) "swap" [.string "below"] =
        (some (.error (.underflow .swap 1)), [.string "below"]) ∧
      named (fun _ => none) "tan" [.string "below"] = (none, [.string "below"]) := by
  have hd := (named_frame (fun _ => none) [.string "#x", .number (.int 5)] [.string "below"]).2
    .decfmt
  have hs := named_frame (fun _ => none) [] [.string "below"]
  have he := hd.2.1 (Nat.le_refl 2)
  refine ⟨Prod.ext ?_ ?_, ?_, ?_⟩
  · exact congrArg Prod.fst he
  · exact (hd.2.2 (.pattern "#x") (congrArg Prod.fst he) (by simp)).2
  · obtain ⟨e, h, rfl, -⟩ := (hs.2 .swap).1 Nat.one_lt_two
    exact h
  · refine hs.1 "tan" fun f => ?_
    cases f <;> decide

end Builtin

end Stencil
