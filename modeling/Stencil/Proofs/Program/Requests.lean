import Stencil.Program.Run
import Stencil.Proofs.Prelude

set_option autoImplicit false

namespace Stencil

inductive Switch where
  | debug
  | strict
  deriving DecidableEq, Repr

def Switch.letter : Switch → Char
  | .debug => 'd'
  | .strict => 's'

inductive Request where
  | switch (s : Switch)
  | script (choice : ScriptChoice)
  | define (name : String) (v : Value)
  | limit (n : Nat)
  deriving DecidableEq

namespace Request

def script? : Request → Option ScriptChoice
  | .script choice => some choice
  | _ => none

def value? (name : String) : Request → Option Value
  | .define m v => if name = m then some v else none
  | _ => none

def limit? : Request → Option Nat
  | .limit n => some n
  | _ => none

end Request

namespace Options

def ask (o : Options) : Request → Options
  | .switch .debug => { o with debug := true }
  | .switch .strict => { o with strict := true }
  | .script choice => { o with script := choice }
  | .define name v => { o with defines := o.defines.insert name v }
  | .limit n => { o with maxIterations := some n }

def isOn (o : Options) : Switch → Bool
  | .debug => o.debug
  | .strict => o.strict

theorem isOn_ask (o : Options) (r : Request) (s : Switch) :
    (o.ask r).isOn s = true ↔ o.isOn s = true ∨ .switch s = r := by
  cases r with
  | switch s' => cases s <;> cases s' <;> simp [ask, isOn]
  | script choice => cases s <;> simp [ask, isOn]
  | define name v => cases s <;> simp [ask, isOn]
  | limit n => cases s <;> simp [ask, isOn]

theorem isOn_foldl (s : Switch) (rs : List Request) (o : Options) :
    (rs.foldl ask o).isOn s = true ↔ o.isOn s = true ∨ .switch s ∈ rs := by
  induction rs generalizing o with
  | nil => simp
  | cons r rs ih => rw [List.foldl_cons, ih, isOn_ask, List.mem_cons, or_assoc]

theorem script_ask (o : Options) (r : Request) :
    (o.ask r).script = r.script?.elim o.script id := by
  rcases r with (_ | _) | _ | _ | _ <;> rfl

theorem maxIterations_ask (o : Options) (r : Request) :
    (o.ask r).maxIterations = r.limit?.elim o.maxIterations some := by
  rcases r with (_ | _) | _ | _ | _ <;> rfl

theorem get?_defines_ask (name : String) (o : Options) (r : Request) :
    (o.ask r).defines.get? name = (r.value? name).elim (o.defines.get? name) some := by
  rcases r with (_ | _) | _ | ⟨m, v⟩ | _
  case define =>
    rw [ask, Table.get?_insert, Request.value?]
    split <;> rfl
  all_goals rfl

/-- Each option is as `rs` ask for it last, or else as by default. -/
structure Meets (o : Options) (rs : List Request) : Prop where
  debug : o.debug = true ↔ .switch .debug ∈ rs
  strict : o.strict = true ↔ .switch .strict ∈ rs
  script : o.script = (lastOf? Request.script? rs).getD .search
  defines : ∀ name, o.defines.get? name = lastOf? (Request.value? name) rs
  maxIterations : o.maxIterations = lastOf? Request.limit? rs

theorem meets_foldl (rs : List Request) : (rs.foldl ask default).Meets rs where
  debug := (isOn_foldl .debug rs default).trans (or_iff_right Bool.false_ne_true)
  strict := (isOn_foldl .strict rs default).trans (or_iff_right Bool.false_ne_true)
  script := by
    rw [get_foldl Options.script Request.script? id script_ask]
    cases lastOf? Request.script? rs <;> rfl
  defines name := by
    have hd := get_foldl (fun o : Options => o.defines.get? name) (Request.value? name) some
      (get?_defines_ask name) default rs
    rw [hd]
    cases lastOf? (Request.value? name) rs <;> rfl
  maxIterations := by
    rw [get_foldl Options.maxIterations Request.limit? some maxIterations_ask]
    cases lastOf? Request.limit? rs <;> rfl

end Options

end Stencil
