import Stencil.Tree.Node

set_option autoImplicit false

namespace Stencil

namespace Node

def children : Node → List Node
  | .document children => children
  | .loop _ body => body
  | .text _ | .echo _ => []

/-- The node at the end of a path, which says for each level which child to take. -/
def at? : Node → List Nat → Option Node
  | n, [] => some n
  | n, i :: path => n.children[i]?.bind (·.at? path)

mutual

def echoes : Node → List (List Nat × List Element)
  | .document children => echoesFrom 0 children
  | .text _ => []
  | .loop _ body => echoesFrom 0 body
  | .echo elements => [([], elements)]

def echoesFrom (i : Nat) : List Node → List (List Nat × List Element)
  | [] => []
  | n :: ns => n.echoes.map (fun e => (i :: e.1, e.2)) ++ echoesFrom (i + 1) ns

end

/-- The lexicographic order of paths. -/
def Precedes (e f : List Nat × List Element) : Prop := List.Lex (· < ·) e.1 f.1

mutual

theorem mem_echoes :
    ∀ {n : Node} {path : List Nat} {elements : List Element},
      (path, elements) ∈ n.echoes ↔ n.at? path = some (.echo elements)
  | .document children, path, elements => by
    rw [echoes, mem_echoesFrom]
    cases path <;> simp [at?, Node.children, and_assoc]
  | .text _, path, elements => by
    cases path <;> simp [echoes, at?, Node.children]
  | .loop _ body, path, elements => by
    rw [echoes, mem_echoesFrom]
    cases path <;> simp [at?, Node.children, and_assoc]
  | .echo _, path, elements => by
    cases path <;> simp [echoes, at?, Node.children, eq_comm]

theorem mem_echoesFrom :
    ∀ {ns : List Node} {i : Nat} {path : List Nat} {elements : List Element},
      (path, elements) ∈ echoesFrom i ns ↔ ∃ j rest, path = (i + j) :: rest ∧
        ns[j]?.bind (·.at? rest) = some (.echo elements)
  | [], i, path, elements => by simp [echoesFrom]
  | n :: ns, i, path, elements => by
    rw [echoesFrom, List.mem_append, mem_echoesFrom]
    constructor
    · rintro (h | ⟨j, rest, rfl, h⟩)
      · obtain ⟨⟨rest, es⟩, he, h⟩ := List.mem_map.1 h
        cases h
        exact ⟨0, rest, rfl, mem_echoes.1 he⟩
      · exact ⟨j + 1, rest, by rw [Nat.add_right_comm, Nat.add_assoc], h⟩
    · rintro ⟨j, rest, rfl, h⟩
      cases j with
      | zero => exact .inl (List.mem_map.2 ⟨(rest, elements), mem_echoes.2 h, rfl⟩)
      | succ j => exact .inr ⟨j, rest, by rw [Nat.add_right_comm, Nat.add_assoc], h⟩

end

mutual

theorem pairwise_echoes : ∀ n : Node, n.echoes.Pairwise Precedes
  | .document children => pairwise_echoesFrom 0 children
  | .text _ => .nil
  | .loop _ body => pairwise_echoesFrom 0 body
  | .echo _ => List.pairwise_singleton ..

theorem pairwise_echoesFrom : ∀ (i : Nat) (ns : List Node), (echoesFrom i ns).Pairwise Precedes
  | _, [] => .nil
  | i, n :: ns => by
    rw [echoesFrom, List.pairwise_append, List.pairwise_map]
    refine ⟨(pairwise_echoes n).imp .cons, pairwise_echoesFrom (i + 1) ns, ?_⟩
    -- The paths into the first child part from those into the others at once.
    rintro _ he ⟨path, es⟩ hf
    obtain ⟨e, -, rfl⟩ := List.mem_map.1 he
    obtain ⟨j, rest, rfl, -⟩ := mem_echoesFrom.1 hf
    exact .rel (by omega)

end

section

variable {m : Type → Type} [Monad m] [LawfulMonad m] (visit : List Element → m Unit)

mutual

theorem forEchoes_eq_forM : ∀ n : Node, n.forEchoes visit = forM (n.echoes.map (·.2)) visit
  | .document children => walk_eq_forM 0 children
  | .text _ => rfl
  | .loop _ body => walk_eq_forM 0 body
  | .echo elements => by simp [forEchoes, accept, echoes]

theorem walk_eq_forM :
    ∀ (i : Nat) (ns : List Node),
      walk { echo := visit } ns = forM ((echoesFrom i ns).map (·.2)) visit
  | _, [] => rfl
  | i, n :: ns => by
    have hn : n.accept { echo := visit } = forM (n.echoes.map (·.2)) visit := forEchoes_eq_forM n
    rw [walk, echoesFrom, List.map_append, List.map_map, List.forM_append, hn,
      walk_eq_forM (i + 1) ns]
    rfl

end

end

end Node

namespace Visitor

variable {ε σ : Type}

/-- The calls on `es`, each where the one before has left off, come out well and lead from `s` to
`t`. -/
inductive Succeeds (visit : List Element → EStateM ε σ Unit) : List (List Element) → σ → σ → Prop
    where
  | nil (s : σ) : Succeeds visit [] s s
  | cons {es : List Element} {rest : List (List Element)} {s t u : σ} :
    visit es s = .ok () t → Succeeds visit rest t u → Succeeds visit (es :: rest) s u

/-- `visit` with a note of each call: what it was on, and the error that it ended with, if any. -/
def noted (visit : List Element → EStateM ε σ Unit) (es : List Element) :
    EStateM ε (List (List Element × Option ε) × σ) Unit := fun (calls, s) =>
  match visit es s with
  | .ok _ t => .ok () (calls ++ [(es, none)], t)
  | .error e t => .error e (calls ++ [(es, some e)], t)

variable {visit : List Element → EStateM ε σ Unit} {es : List Element}
  {done : List (List Element)} {s t u : σ} {e : ε}

theorem noted_of_ok (h : visit es s = .ok () t) (calls : List (List Element × Option ε)) :
    noted visit es (calls, s) = .ok () (calls ++ [(es, none)], t) := by
  simp [noted, h]

theorem noted_of_error (h : visit es s = .error e t) (calls : List (List Element × Option ε)) :
    noted visit es (calls, s) = .error e (calls ++ [(es, some e)], t) := by
  simp [noted, h]

theorem Succeeds.noted (h : Succeeds visit done s t) (calls : List (List Element × Option ε)) :
    Succeeds (noted visit) done (calls, s) (calls ++ done.map (·, none), t) := by
  induction h generalizing calls with
  | nil => simpa using Succeeds.nil _
  | @cons es _ _ _ _ hv _ ih =>
    have hs := ih (calls ++ [(es, none)])
    rw [List.append_assoc] at hs
    exact .cons (noted_of_ok hv calls) hs

theorem Succeeds.forM_append (h : Succeeds visit done s t) (later : List (List Element)) :
    forM (done ++ later) visit s = forM later visit t := by
  induction h with
  | nil => rfl
  | cons hv _ ih =>
    rw [List.cons_append, List.forM_cons]
    simp [bind, EStateM.bind, hv, ih]

theorem Succeeds.forM_eq (h : Succeeds visit done s t) : forM done visit s = .ok () t := by
  rw [← List.append_nil done, h.forM_append]
  rfl

theorem Succeeds.forM_eq_error (h : Succeeds visit done s t) (he : visit es t = .error e u)
    (later : List (List Element)) : forM (done ++ es :: later) visit s = .error e u := by
  rw [h.forM_append, List.forM_cons]
  simp [bind, EStateM.bind, he]

theorem succeeds_or_fails (visit : List Element → EStateM ε σ Unit) (es : List (List Element))
    (s : σ) :
    (∃ t, Succeeds visit es s t) ∨ ∃ done d later t e u, es = done ++ d :: later ∧
      Succeeds visit done s t ∧ visit d t = .error e u := by
  induction es generalizing s with
  | nil => exact .inl ⟨s, .nil s⟩
  | cons d ds ih =>
    cases hd : visit d s with
    | error e u => exact .inr ⟨[], d, ds, s, e, u, rfl, .nil s, hd⟩
    | ok _ t =>
      rcases ih t with ⟨u, h⟩ | ⟨done, f, later, u, e, v, rfl, h, hf⟩
      · exact .inl ⟨u, .cons hd h⟩
      · exact .inr ⟨d :: done, f, later, u, e, v, rfl, .cons hd h, hf⟩

end Visitor

namespace Node

open Visitor

/-- The echoes of a tree stand in its order, and they are all that stand in it, each once. A visitor
that only looks at echoes is called on them in that order: either each call comes out well, and so
does the visit, or the visit ends with the first that fails and with its error, and no call comes
after it. -/
theorem forEchoes_in_order (n : Node) :
    n.echoes.Pairwise Precedes ∧
    (∀ path elements, (path, elements) ∈ n.echoes ↔ n.at? path = some (.echo elements)) ∧
    ∀ {ε σ : Type} (visit : List Element → EStateM ε σ Unit) (s : σ),
      (∃ t, Succeeds visit (n.echoes.map (·.2)) s t ∧ n.forEchoes visit s = .ok () t ∧
        n.forEchoes (noted visit) ([], s) = .ok () ((n.echoes.map (·.2)).map (·, none), t)) ∨
      ∃ done es later t e u, n.echoes.map (·.2) = done ++ es :: later ∧
        Succeeds visit done s t ∧ visit es t = .error e u ∧ n.forEchoes visit s = .error e u ∧
        n.forEchoes (noted visit) ([], s) =
          .error e (done.map (·, none) ++ [(es, some e)], u) := by
  refine ⟨pairwise_echoes n, fun _ _ => mem_echoes, fun visit s => ?_⟩
  simp only [forEchoes_eq_forM]
  rcases succeeds_or_fails visit (n.echoes.map (·.2)) s with
    ⟨t, h⟩ | ⟨done, es, later, t, e, u, hn, h, he⟩
  · exact .inl ⟨t, h, h.forM_eq, (h.noted []).forM_eq⟩
  · rw [hn]
    exact .inr ⟨done, es, later, t, e, u, rfl, h, he, h.forM_eq_error he later,
      (h.noted []).forM_eq_error (noted_of_error he _) later⟩

end Node

end Stencil
