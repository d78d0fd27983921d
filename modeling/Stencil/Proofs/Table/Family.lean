import Mathlib.Logic.Function.Basic
import Stencil.Table.Stacks

/-! The stacks of all names against one list for each name. -/

set_option autoImplicit false

namespace Stencil.Stacks

variable {α σ : Type}

inductive Call (α : Type) where
  | push (a : α)
  | pop
  | top
  | setTop (a : α)
  | depth
  | isEmpty

inductive Answer (α : Type) where
  | done
  | value (a : α)
  | count (n : Nat)
  | flag (b : Bool)

namespace Call

def NeedsTop : Call α → Prop
  | pop | top | setTop _ => True
  | push _ | depth | isEmpty => False

/-- The answer of one list, its top first, and what is left of it. -/
def onList : Call α → List α → Option (Answer α) × List α
  | push a, as => (some .done, a :: as)
  | depth, as => (some (.count as.length), as)
  | isEmpty, as => (some (.flag (decide (as.length = 0))), as)
  | pop, a :: as => (some (.value a), as)
  | top, a :: as => (some (.value a), a :: as)
  | setTop b, a :: as => (some (.value a), b :: as)
  | _, [] => (none, [])

/-- The list of `name` answers, and the lists of the others are left as they are. -/
def onFamily (c : Call α) (name : String) (f : String → List α) :
    Except Unbound (Answer α) × (String → List α) :=
  ((c.onList (f name)).1.elim (.error ⟨name⟩) .ok, Function.update f name (c.onList (f name)).2)

def taken (s : Stacks α) : Except Unbound (α × Stacks α) → Except Unbound (Answer α) × Stacks α
  | .ok (a, t) => (.ok (.value a), t)
  | .error u => (.error u, s)

def onStacks (c : Call α) (name : String) (s : Stacks α) : Except Unbound (Answer α) × Stacks α :=
  match c with
  | push a => (.ok .done, s.push name a)
  | pop => taken s (s.pop name)
  | top => ((s.top name).map .value, s)
  | setTop a => taken s (s.setTop name a)
  | depth => (.ok (.count (s.depth name)), s)
  | isEmpty => (.ok (.flag (s.isEmpty name)), s)

def run (step : Call α → String → σ → Except Unbound (Answer α) × σ) :
    List (Call α × String) → σ → List (Except Unbound (Answer α)) × σ
  | [], s => ([], s)
  | (c, name) :: calls, s =>
    let r := run step calls (step c name s).2
    ((step c name s).1 :: r.1, r.2)

def left (calls : List (Call α)) (as : List α) : List α :=
  calls.foldl (fun as c => (c.onList as).2) as

def own (name : String) (calls : List (Call α × String)) : List (Call α) :=
  (calls.filter fun c => decide (c.2 = name)).map Prod.fst

theorem onList_eq_none_iff {c : Call α} {as : List α} :
    (c.onList as).1 = none ↔ c.NeedsTop ∧ as = [] := by
  cases c <;> cases as <;> simp [onList, NeedsTop]

theorem onStacks_cases (c : Call α) (name : String) (s : Stacks α) :
    (c.onStacks name s).1 = (c.onList (s.stack name)).1.elim (.error ⟨name⟩) .ok ∧
      ((c.onStacks name s).2 = s ∧ (c.onList (s.stack name)).2 = s.stack name ∨
        (c.onList (s.stack name)).1 ≠ none ∧
          (c.onStacks name s).2 = s.replace name (c.onList (s.stack name)).2) := by
  cases c with
  | push a => exact ⟨rfl, .inr ⟨nofun, rfl⟩⟩
  | depth => exact ⟨rfl, .inl ⟨rfl, rfl⟩⟩
  | isEmpty => exact ⟨rfl, .inl ⟨rfl, rfl⟩⟩
  | pop => cases h : s.stack name <;> simp [onStacks, Stacks.pop, taken, onList, h]
  | top => cases h : s.stack name <;> simp [onStacks, Stacks.top, Except.map, onList, h]
  | setTop a => cases h : s.stack name <;> simp [onStacks, Stacks.setTop, taken, onList, h]

theorem onStacks_eq_error_iff {c : Call α} {name : String} {s : Stacks α} {u : Unbound} :
    (c.onStacks name s).1 = .error u ↔ c.NeedsTop ∧ s.stack name = [] ∧ u = ⟨name⟩ := by
  rw [(c.onStacks_cases name s).1, ← and_assoc, ← onList_eq_none_iff]
  cases (c.onList (s.stack name)).1 <;> simp [eq_comm]

theorem onStacks_of_error {c : Call α} {name : String} {s : Stacks α} {u : Unbound}
    (h : (c.onStacks name s).1 = .error u) : (c.onStacks name s).2 = s := by
  obtain ⟨hn, hs, -⟩ := onStacks_eq_error_iff.1 h
  rcases (c.onStacks_cases name s).2 with ⟨h', -⟩ | ⟨h', -⟩
  · exact h'
  · exact absurd (onList_eq_none_iff.2 ⟨hn, hs⟩) h'

end Call

theorem get?_replace (s : Stacks α) {name m : String} (h : m ≠ name) (as : List α) :
    (s.replace name as).table.get? m = s.table.get? m := by
  cases as <;> simp [replace, h]

theorem Call.get?_onStacks (c : Call α) (s : Stacks α) {name m : String} (h : m ≠ name) :
    (c.onStacks name s).2.table.get? m = s.table.get? m := by
  rcases (c.onStacks_cases name s).2 with ⟨h', -⟩ | ⟨-, h'⟩
  · rw [h']
  · rw [h', get?_replace s h]

/-- Each name has its list on its stack, and no name is kept twice or without anything. -/
structure Holds (s : Stacks α) (f : String → List α) : Prop where
  stack : ∀ name, s.stack name = f name
  distinct : s.table.Distinct
  nonempty : ∀ e ∈ s.table.entries, e.2 ≠ []

namespace Holds

variable {s : Stacks α} {f : String → List α}

theorem empty : Holds (empty : Stacks α) fun _ => [] :=
  ⟨fun _ => rfl, Table.distinct_empty, fun _ h => absurd h List.not_mem_nil⟩

theorem replace (h : s.Holds f) (name : String) (as : List α) :
    (s.replace name as).Holds (Function.update f name as) where
  stack m := by rw [stack_replace, Function.update_apply, h.stack]
  distinct := by
    cases as with
    | nil => exact h.distinct.erase name
    | cons a as => exact h.distinct.insert name (a :: as)
  nonempty e he := by
    cases as with
    | nil => exact h.nonempty e (List.mem_filter.1 he).1
    | cons a as =>
      rcases Table.mem_put he with rfl | he
      · exact List.cons_ne_nil a as
      · exact h.nonempty e he

theorem call (h : s.Holds f) (c : Call α) (name : String) :
    (c.onStacks name s).1 = (c.onFamily name f).1 ∧
      (c.onStacks name s).2.Holds (c.onFamily name f).2 := by
  obtain ⟨ha, hc⟩ := c.onStacks_cases name s
  rw [h.stack] at ha hc
  refine ⟨ha, ?_⟩
  unfold Call.onFamily
  rcases hc with ⟨hs, hl⟩ | ⟨-, hs⟩
  · rwa [hs, hl, Function.update_eq_self]
  · rw [hs]
    exact h.replace name _

theorem run (h : s.Holds f) (calls : List (Call α × String)) :
    (Call.run Call.onStacks calls s).1 = (Call.run Call.onFamily calls f).1 ∧
      (Call.run Call.onStacks calls s).2.Holds (Call.run Call.onFamily calls f).2 := by
  induction calls generalizing s f with
  | nil => exact ⟨rfl, h⟩
  | cons c calls ih =>
    obtain ⟨ha, hc⟩ := h.call c.1 c.2
    obtain ⟨has, hcs⟩ := ih hc
    exact ⟨by rw [Call.run, Call.run, ha, has], hcs⟩

end Holds

theorem Call.run_onFamily (calls : List (Call α × String)) (f : String → List α) (name : String) :
    (run onFamily calls f).2 name = left (own name calls) (f name) := by
  induction calls generalizing f with
  | nil => rfl
  | cons c calls ih =>
    obtain ⟨c, m⟩ := c
    rw [run, ih]
    by_cases h : m = name
    · subst h
      simp [own, left, onFamily]
    · simp [own, onFamily, h, Function.update_of_ne (Ne.symm h)]

/-- From no stacks on, the answers are those of a list for each name, and what is left of the list
of a name is what the calls on that name alone leave of it. At every point only an empty list fails,
under its name, and changes nothing, and no call changes what is kept for other names. -/
theorem family_answers (calls : List (Call α × String)) : ∃ answers s f,
    Call.run Call.onStacks calls empty = (answers, s) ∧
    Call.run Call.onFamily calls (fun _ => []) = (answers, f) ∧
    s.Holds f ∧ (∀ name, f name = Call.left (Call.own name calls) []) ∧
    ∀ (c : Call α) name,
      (∀ u, (c.onStacks name s).1 = .error u ↔ c.NeedsTop ∧ f name = [] ∧ u = ⟨name⟩) ∧
      (∀ u, (c.onStacks name s).1 = .error u → (c.onStacks name s).2 = s) ∧
      ∀ m, m ≠ name → (c.onStacks name s).2.table.get? m = s.table.get? m := by
  obtain ⟨ha, hs⟩ := Holds.empty.run calls
  refine ⟨_, _, _, rfl, Prod.ext ha.symm rfl, hs, fun name => Call.run_onFamily calls _ name,
    fun c name => ⟨fun u => ?_, fun u => Call.onStacks_of_error, fun m => c.get?_onStacks _⟩⟩
  rw [Call.onStacks_eq_error_iff, hs.stack]

end Stencil.Stacks
