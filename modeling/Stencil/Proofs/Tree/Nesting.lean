import Stencil.Token.Lexer

/-! How the tags that begin loops and the tags that end them nest. -/

set_option autoImplicit false

namespace Stencil

inductive LoopTag where
  | opens (counter : String) (position : Position)
  | closes (position : Position)
  deriving DecidableEq

namespace LoopTag

def isOpening : LoopTag → Bool
  | .opens _ _ => true
  | .closes _ => false

def opened (tags : List LoopTag) : Nat := tags.countP isOpening

def closed (tags : List LoopTag) : Nat := tags.countP (!isOpening ·)

section

variable (c : String) (p : Position) (tags us : List LoopTag)

@[simp] theorem opened_nil : opened [] = 0 := rfl

@[simp] theorem closed_nil : closed [] = 0 := rfl

@[simp] theorem opened_opens : opened (.opens c p :: tags) = opened tags + 1 :=
  List.countP_cons_of_pos rfl

@[simp] theorem closed_opens : closed (.opens c p :: tags) = closed tags :=
  List.countP_cons_of_neg Bool.false_ne_true

@[simp] theorem opened_closes : opened (.closes p :: tags) = opened tags :=
  List.countP_cons_of_neg Bool.false_ne_true

@[simp] theorem closed_closes : closed (.closes p :: tags) = closed tags + 1 :=
  List.countP_cons_of_pos rfl

@[simp] theorem opened_append : opened (tags ++ us) = opened tags + opened us := by
  simp [opened]

@[simp] theorem closed_append : closed (tags ++ us) = closed tags + closed us := by
  simp [closed]

end

/-- No loop is closed before it is opened. -/
def Founded (tags : List LoopTag) : Prop :=
  ∀ before, before <+: tags → closed before ≤ opened before

def Balanced (tags : List LoopTag) : Prop := Founded tags ∧ opened tags = closed tags

/-- No tag of `after` ends a loop that is begun before them: a tag would, if those between the two
were balanced. -/
def LeftOpen (after : List LoopTag) : Prop :=
  ∀ between position rest, after = between ++ .closes position :: rest → ¬Balanced between

theorem exists_closing {tags : List LoopTag} {depth : Nat} (h : opened tags + depth < closed tags) :
    ∃ between position rest, tags = between ++ .closes position :: rest ∧
      (∀ before, before <+: between → closed before ≤ opened before + depth) ∧
      closed between = opened between + depth := by
  -- `depth` counts the loops that are open, so each tag on the way moves it by one.
  induction tags generalizing depth with
  | nil => simp at h
  | cons t tags ih =>
    cases t with
    | opens c p =>
      rw [opened_opens, closed_opens] at h
      obtain ⟨between, q, rest, rfl, hb, he⟩ := @ih (depth + 1) (by omega)
      refine ⟨.opens c p :: between, q, rest, rfl, fun before hp => ?_, ?_⟩
      · rcases List.prefix_cons_iff.1 hp with rfl | ⟨more, rfl, hm⟩
        · simp
        · have := hb more hm
          rw [opened_opens, closed_opens]
          omega
      · rw [opened_opens, closed_opens]
        omega
    | closes p =>
      rw [opened_closes, closed_closes] at h
      cases depth with
      | zero => exact ⟨[], p, tags, rfl, by simp, rfl⟩
      | succ depth =>
        obtain ⟨between, q, rest, rfl, hb, he⟩ := @ih depth (by omega)
        refine ⟨.closes p :: between, q, rest, rfl, fun before hp => ?_, ?_⟩
        · rcases List.prefix_cons_iff.1 hp with rfl | ⟨more, rfl, hm⟩
          · simp
          · have := hb more hm
            rw [opened_closes, closed_closes]
            omega
        · rw [opened_closes, closed_closes]
          omega

theorem exists_first_closing {tags : List LoopTag} (h : opened tags < closed tags) :
    ∃ between position rest, tags = between ++ .closes position :: rest ∧ Balanced between := by
  obtain ⟨between, q, rest, ht, hb, he⟩ := @exists_closing tags 0 h
  exact ⟨between, q, rest, ht, hb, he.symm⟩

namespace Founded

variable {tags us : List LoopTag}

theorem append (h : Founded tags) (hu : Founded us) : Founded (tags ++ us) := by
  intro before hp
  rcases List.prefix_or_prefix_of_prefix hp (List.prefix_append tags us) with ht | ht
  · exact h before ht
  · obtain ⟨more, rfl⟩ := ht
    have hm := hu more ((List.prefix_append_right_inj tags).1 hp)
    have ht := h tags List.prefix_rfl
    rw [opened_append, closed_append]
    omega

theorem opens (c : String) (p : Position) (h : Founded tags) : Founded (.opens c p :: tags) := by
  intro before hp
  rcases List.prefix_cons_iff.1 hp with rfl | ⟨more, rfl, hm⟩
  · simp
  · have := h more hm
    rw [opened_opens, closed_opens]
    omega

end Founded

namespace Balanced

variable {tags us : List LoopTag}

theorem nil : Balanced [] := ⟨fun before hp => by simp [List.prefix_nil.1 hp], rfl⟩

theorem append (h : Balanced tags) (hu : Balanced us) : Balanced (tags ++ us) :=
  ⟨h.1.append hu.1, by rw [opened_append, closed_append, h.2, hu.2]⟩

theorem loop (c : String) (p q : Position) (h : Balanced tags) :
    Balanced (.opens c p :: (tags ++ [.closes q])) := by
  refine ⟨fun before hp => ?_, by simp [h.2]⟩
  rcases List.prefix_cons_iff.1 hp with rfl | ⟨more, rfl, hm⟩
  · simp
  · rw [opened_opens, closed_opens]
    rcases List.prefix_concat_iff.1 hm with rfl | hm
    · simp [h.2]
    · have := h.1 more hm
      omega

theorem not_founded {p : Position} (h : Balanced tags) :
    ¬Founded (tags ++ .closes p :: us) := by
  intro hf
  have hp := hf (tags ++ [.closes p]) ⟨us, by simp⟩
  have := h.2
  simp only [opened_append, opened_closes, opened_nil, closed_append, closed_closes] at hp
  omega

end Balanced

/-- After `tags`, the loops of `loops` are open, innermost first. -/
inductive Leaves : List LoopTag → List (String × Position) → Prop where
  | balanced {tags : List LoopTag} : Balanced tags → Leaves tags []
  | opens {tags us : List LoopTag} {loops : List (String × Position)} {c : String}
    {p : Position} :
    Leaves tags loops → Balanced us → Leaves (tags ++ .opens c p :: us) ((c, p) :: loops)

namespace Leaves

variable {tags us : List LoopTag} {loops : List (String × Position)} {c : String} {p : Position}

theorem append (h : Leaves tags loops) (hu : Balanced us) : Leaves (tags ++ us) loops := by
  cases h with
  | balanced hb => exact .balanced (hb.append hu)
  | opens hl hb => simpa using hl.opens (hb.append hu)

theorem close {l : String × Position} (h : Leaves tags (l :: loops)) (q : Position) :
    Leaves (tags ++ [.closes q]) loops := by
  cases h with
  | opens hl hb => simpa using hl.append (hb.loop _ _ q)

theorem founded (h : Leaves tags loops) :
    Founded tags ∧ opened tags = closed tags + loops.length := by
  induction h with
  | balanced hb => exact hb
  | opens _ hb ih =>
    refine ⟨ih.1.append (hb.1.opens _ _), ?_⟩
    have := hb.2
    simp only [opened_append, opened_opens, closed_append, closed_opens, List.length_cons]
    omega

theorem last (h : Leaves tags ((c, p) :: loops)) :
    ∃ before after, tags = before ++ .opens c p :: after ∧ LeftOpen after ∧
      ∀ between c' p' rest, after = between ++ .opens c' p' :: rest → ¬LeftOpen rest := by
  cases h with
  | @opens before after _ _ _ _ hb =>
    refine ⟨before, after, rfl, fun between q rest he hn => ?_,
      fun between c' p' rest he hl => ?_⟩
    · exact hn.not_founded (he ▸ hb.1)
    · -- `after` is balanced and `between` ends no more than it begins, so `rest` ends too many.
      have hp := hb.1 between ⟨_, he.symm⟩
      have hc := hb.2
      simp only [he, opened_append, opened_opens, closed_append, closed_opens] at hc
      obtain ⟨tags, q, us, hr, hn⟩ := @exists_first_closing rest (by omega)
      exact hl tags q us hr hn

end Leaves

end LoopTag

end Stencil
