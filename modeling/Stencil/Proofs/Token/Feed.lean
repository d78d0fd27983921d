import Stencil.Proofs.Token.Steps

set_option autoImplicit false

namespace Stencil

namespace Lexer

variable {l m : Lexer} {ps : List Placed} {r : Except LexError Placed}

theorem exists_taken {p : Placed} (h : l.next = (.ok p, m)) (hp : p.token ≠ .endOfInput) :
    ∃ cs, cs ≠ [] ∧ l.rest = cs ++ m.rest := by
  obtain ⟨skipped, taken, hl, -, -, hr⟩ := next_eq_ok_iff.1 h
  have ht : taken ≠ [] := hr.taken_ne_nil rfl hp
  exact ⟨skipped ++ taken, by simp [ht], by rw [hl, List.append_assoc]⟩

theorem Gives.length_le (h : Gives l ps m) : ps.length + m.rest.length ≤ l.rest.length := by
  induction h with
  | nil => simp
  | cons hn hp _ ih =>
    obtain ⟨cs, hcs, hl⟩ := exists_taken hn hp
    have := List.length_pos_iff.2 hcs
    rw [hl, List.length_append, List.length_cons]
    omega

theorem Ends.end_or_error (h : Ends l r) :
    (∃ p, r = .ok p ∧ p.token = .endOfInput) ∨ ∃ e, r = .error e := by
  cases h with
  | endOfInput _ hp => exact .inl ⟨_, rfl, hp⟩
  | error => exact .inr ⟨_, rfl⟩

theorem Ends.next (h : Ends l r) : l.next.1 = r := by
  cases h with
  | endOfInput h _ => rw [h]
  | error h => rw [h]

theorem Ends.mode {p : Placed} (h : Ends l (.ok p)) : l.mode = .text := by
  cases h with
  | endOfInput h hp => exact (mode_eq_text_iff h).2 (.inr (.inr hp))

end Lexer

namespace Feed

open Lexer

variable {l m : Lexer} {ps : List Placed} {r : Except LexError Placed}

theorem next?_of_finished {f : Feed} (h : f.finished = true) : f.next? = (none, f) := if_pos h

theorem after_of_finished {f : Feed} (h : f.finished = true) (n : Nat) : f.after n = f := by
  induction n with
  | zero => rfl
  | succ n ih => rw [after, next?_of_finished h, ih]

theorem next?_of_token {p : Placed} (h : l.next = (.ok p, m)) (hp : p.token ≠ .endOfInput) :
    next? ⟨l, false⟩ = (some (.ok p), ⟨m, false⟩) := by
  simp [next?, h, isLast, hp]

theorem next?_of_ends (h : Ends l r) : next? ⟨l, false⟩ = (some r, ⟨l.next.2, true⟩) := by
  rcases h.end_or_error with ⟨p, hr, hp⟩ | ⟨e, hr⟩
  · simp [next?, h.next, hr, isLast, hp]
  · simp [next?, h.next, hr, isLast]

theorem item?_of_ends (h : Ends l r) (n : Nat) : item? ⟨l, false⟩ n = [r][n]? := by
  cases n with
  | zero => rw [item?, after, next?_of_ends h]; rfl
  | succ n =>
    rw [item?, after, next?_of_ends h, after_of_finished rfl, next?_of_finished rfl]
    rfl

theorem item?_of_gives (hg : Gives l ps m) (he : Ends m r) (n : Nat) :
    item? ⟨l, false⟩ n = (ps.map .ok ++ [r])[n]? := by
  induction hg generalizing n with
  | nil => exact item?_of_ends he n
  | cons hn hp _ ih =>
    cases n with
    | zero => rw [item?, after, next?_of_token hn hp]; rfl
    | succ n =>
      rw [item?, after, next?_of_token hn hp]
      exact ih he n

theorem exists_closes (h : Gives l ps m) (hl : l.mode = .tag) (hm : m.mode = .text) :
    ∃ i p, ps[i]? = some p ∧ p.token = .tagClose ∧
      (after ⟨l, false⟩ (i + 1)).lexer.mode = .text := by
  induction h with
  | nil => rw [hl] at hm; contradiction
  | @cons l k m p ps hn hp _ ih =>
    have hk := (next_in_tag hl hn).2
    cases hmode : k.mode with
    | text =>
      refine ⟨0, p, rfl, ?_, by rw [after, next?_of_token hn hp]; exact hmode⟩
      rcases hk with ⟨ht, -⟩ | ⟨-, -, -, hk⟩ | ⟨-, hk⟩
      · exact ht
      · rw [hmode] at hk; contradiction
      · rw [hmode] at hk; contradiction
    | tag =>
      obtain ⟨i, q, hi, hq, ha⟩ := ih hmode hm
      exact ⟨i + 1, q, hi, hq, by rwa [after, next?_of_token hn hp]⟩

/-- Every token takes a piece off what is to be read. So a source is given as at most one token for
each of its characters, and then its end or an error, and nothing after that; the end of a source
that begins inside a tag is given only if a tag was closed before, which led back to text. -/
theorem items_of_source :
    (∀ (l m : Lexer) (p : Placed), l.next = (.ok p, m) → p.token ≠ .endOfInput →
      ∃ cs, cs ≠ [] ∧ l.rest = cs ++ m.rest) ∧
    ∀ (source : List Char) (mode : Mode), ∃ (ps : List Placed) (r : Except LexError Placed),
      ps.length ≤ source.length ∧ (∀ p ∈ ps, p.token ≠ .endOfInput) ∧
      ((∃ p, r = .ok p ∧ p.token = .endOfInput) ∨ ∃ e, r = .error e) ∧
      (Lexer.ofChars source mode).steps.map (·.1) = ps.map .ok ++ [r] ∧
      (∀ n, (ofChars source mode).item? n = (ps.map .ok ++ [r])[n]?) ∧
      (mode = .tag → (∃ e, r = .error e) ∨ ∃ i p, ps[i]? = some p ∧ p.token = .tagClose ∧
        ((ofChars source mode).after (i + 1)).lexer.mode = .text) := by
  refine ⟨fun l m p => exists_taken, fun source mode => ?_⟩
  obtain ⟨ps, m, r, hg, he⟩ := exists_ends (.ofChars source mode)
  refine ⟨ps, r, Nat.le_of_add_right_le hg.length_le, hg.ne_endOfInput, he.end_or_error,
    hg.ends he, item?_of_gives hg he, fun hmode => ?_⟩
  cases r with
  | error e => exact .inl ⟨e, rfl⟩
  | ok p => exact .inr (exists_closes hg hmode he.mode)

end Feed

end Stencil
