import Mathlib.Data.List.Forall2
import Stencil.Proofs.Token.Steps

set_option autoImplicit false

namespace Stencil

namespace Position

def IsKept (R : Position → Position → Prop) : Prop :=
  ∀ ⦃p q⦄, R p q → ∀ c, R (p.step c) (q.step c)

theorem IsKept.after {R : Position → Position → Prop} (hR : IsKept R) {p q : Position} (h : R p q)
    (cs : List Char) : R (p.after cs) (q.after cs) := by
  induction cs generalizing p q with
  | nil => exact h
  | cons c cs ih => exact ih (hR h c)

def SameLine (p q : Position) : Prop := p.line = q.line

theorem isKept_sameLine : IsKept SameLine := by
  intro p q h c
  unfold SameLine step at *
  split
  · exact congrArg (· + 1) h
  · exact h

end Position

/-- Both come out well, with what `S` relates, or both fail, with what `E` relates. -/
inductive Alike {ε α : Type} (E : ε → ε → Prop) (S : α → α → Prop) :
    Except ε α → Except ε α → Prop where
  | ok {a b : α} : S a b → Alike E S (.ok a) (.ok b)
  | error {e f : ε} : E e f → Alike E S (.error e) (.error f)

theorem Alike.imp {ε α : Type} {E : ε → ε → Prop} {S T : α → α → Prop} {x y : Except ε α}
    (h : Alike E S x y) (hs : ∀ a b, S a b → T a b) : Alike E T x y := by
  cases h with
  | ok h => exact .ok (hs _ _ h)
  | error h => exact .error h

def LexError.Same (R : Position → Position → Prop) (e f : LexError) : Prop :=
  e.fault = f.fault ∧ R e.position f.position

namespace Lexer

def moved (l : Lexer) (q : Position) : Lexer := { l with position := q }

section

variable {R : Position → Position → Prop}

def SameToken (R : Position → Position → Prop) (p q : Placed) : Prop :=
  p.token = q.token ∧ R p.position q.position

/-- Both times the same is given, and the same is left. -/
def SameStep (R : Position → Position → Prop) (s t : Step) : Prop :=
  Alike (LexError.Same R) (SameToken R) s.1 t.1 ∧ ∃ r, R s.2.position r ∧ t.2 = s.2.moved r

/-- A step gives the same wherever it begins, at the place that is reached past `skipped`. -/
theorem alike_next (l : Lexer) : ∃ skipped taken, l.rest = skipped ++ (taken ++ l.next.2.rest) ∧
    ∀ {R : Position → Position → Prop} {q : Position},
      R (l.position.after skipped) (q.after skipped) →
        Alike (LexError.Same R) (SameToken R) l.next.1 (l.moved q).next.1 := by
  obtain ⟨r, hl, hr, hn⟩ := l.reads_next
  refine ⟨r.skipped, r.taken, by rw [hn, ← hl]; rfl, fun {R q} h => ?_⟩
  have hq : (l.moved q).next = r.step q := next_of_reads (l := l.moved q) hl.symm hr
  rw [hn, hq]
  unfold Reading.step
  cases r.result with
  | ok t => exact .ok ⟨rfl, h⟩
  | error f => exact .error ⟨rfl, h⟩

/-- What a step passes does not depend on where it begins. -/
theorem next_snd (l : Lexer) : ∃ cs, l.rest = cs ++ l.next.2.rest ∧
    ∀ q, (l.moved q).next.2 = l.next.2.moved (q.after cs) := by
  obtain ⟨r, hl, hr, hn⟩ := l.reads_next
  refine ⟨r.skipped ++ r.taken, by rw [hn, ← hl, List.append_assoc]; rfl, fun q => ?_⟩
  rw [next_of_reads (l := l.moved q) hl.symm hr, hn, Position.after_append]
  rfl

variable {l : Lexer} {q : Position} (hR : Position.IsKept R) (h : R l.position q)
include hR h

theorem sameStep_next : SameStep R l.next (l.moved q).next := by
  obtain ⟨skipped, -, -, ha⟩ := l.alike_next
  obtain ⟨cs, -, hm⟩ := l.next_snd
  have hl : l.next.2.position = l.position.after cs := congrArg Lexer.position (hm l.position)
  exact ⟨ha (hR.after h skipped), q.after cs, hl ▸ hR.after h cs, hm q⟩

theorem sameSteps : List.Forall₂ (Alike (LexError.Same R) (SameToken R)) (l.steps.map (·.1))
    ((l.moved q).steps.map (·.1)) := by
  generalize hn : l.rest.length = n
  induction n using Nat.strongRecOn generalizing l q with
  | ind n ih =>
    obtain ⟨hs, r, hr, hl⟩ := sameStep_next hR h
    rcases hx : l.next with ⟨x, m⟩
    rcases hy : (l.moved q).next with ⟨y, k⟩
    rw [hx, hy] at hs hl
    rw [hx] at hr
    cases hs with
    | error hp =>
      rw [steps_of_error hx, steps_of_error hy]
      exact .cons (.error hp) .nil
    | @ok a b hab =>
      by_cases ht : a.token = .endOfInput
      · rw [steps_of_end hx ht, steps_of_end hy (hab.1 ▸ ht)]
        exact .cons (.ok hab) .nil
      · have hlt := length_rest_next (l := l) (t := a) (by rw [hx]) ht
        rw [hx] at hlt
        rw [steps_of_token hx ht, steps_of_token hy (hab.1 ▸ ht)]
        dsimp only at hl
        rw [hl]
        exact .cons (.ok hab) (ih _ (by simpa [hn] using hlt) hr rfl)

end

theorem next_moved {l m : Lexer} {p : Placed} (h : l.next = (.ok p, m)) (q : Position) :
    ∃ q' r, (l.moved q).next = (.ok ⟨p.token, q'⟩, m.moved r) := by
  obtain ⟨skipped, taken, hl, -, -, hr⟩ := next_eq_ok_iff.1 h
  exact ⟨q.after skipped, (q.after skipped).after taken,
    next_eq_ok_iff.2 ⟨skipped, taken, hl, rfl, rfl, hr⟩⟩

theorem Gives.moved {l m : Lexer} {ps : List Placed} (h : Gives l ps m) (q : Position) :
    ∃ qs r, qs.map (·.token) = ps.map (·.token) ∧ Gives (l.moved q) qs (m.moved r) := by
  induction h generalizing q with
  | nil => exact ⟨[], q, rfl, .nil _⟩
  | cons hp ht _ ih =>
    obtain ⟨q', r, hn⟩ := next_moved hp q
    obtain ⟨qs, r', hqs, hg⟩ := ih r
    exact ⟨⟨_, q'⟩ :: qs, r', congrArg (_ :: ·) hqs, .cons hn ht hg⟩

def extend (l : Lexer) (es : List Char) : Lexer := { l with rest := l.rest ++ es }

theorem extend_nil (l : Lexer) : l.extend [] = l := by
  rw [extend, List.append_nil]

theorem extend_inj {l m : Lexer} {es : List Char} (h : l.extend es = m.extend es) : l = m := by
  obtain ⟨rest, position, mode, name⟩ := l
  simp only [extend, Lexer.mk.injEq, List.append_cancel_right_eq] at h
  obtain ⟨rfl, rfl, rfl, rfl⟩ := h
  rfl

theorem exists_extend {l : Lexer} {es : List Char} (h : es <:+ l.rest) :
    ∃ k : Lexer, l = k.extend es := by
  obtain ⟨rest, position, mode, name⟩ := l
  obtain ⟨ds, rfl⟩ := h
  exact ⟨⟨ds, position, mode, name⟩, rfl⟩

end Lexer

open Lexer in
/-- What may be left behind a token that is read from `taken`. -/
def Token.Follows (taken rest : List Char) : Token → Prop
  | .number _ => BreaksOff isNumeric rest
  | .function _ => BreaksOff Text.isWord rest
  | .variable _ => BreaksOff Text.isWord rest
  | .tagName _ => taken = ['='] ∨ BreaksOff Text.isWord rest
  | .operator c => startsNumber (c :: rest) = false
  | .text _ => EndsText rest
  | .endOfInput => rest = []
  | _ => True

namespace Lexer

section

variable {mode mode' : Mode} {name name' : Bool} {skipped taken us vs : List Char} {t : Token}

theorem Reads.follows (h : Reads mode name ⟨skipped, taken, us, .ok t, mode', name'⟩) :
    t.Follows taken us := by
  cases h with
  | endOfInput => rfl
  | text _ _ _ hr => exact hr
  | tagOpen => trivial
  | tagClose => trivial
  | inTag _ hi =>
    cases hi with
    | echo => exact .inl rfl
    | tagName _ hw => exact .inr hw.ends
    | number hw _ => exact hw.ends
    | string => trivial
    | function hw => exact hw.ends
    | «variable» _ hw => exact hw.ends
    | operator _ hs => exact hs

/-- What is left matters for a token only as far as it may follow. -/
theorem Reads.with_rest (h : Reads mode name ⟨skipped, taken, us, .ok t, mode', name'⟩)
    (hv : t.Follows taken vs) : Reads mode name ⟨skipped, taken, vs, .ok t, mode', name'⟩ := by
  cases h with
  | endOfInput =>
    cases hv
    exact .endOfInput _
  | text _ ht hn _ => exact .text _ ht hn hv
  | tagOpen => exact .tagOpen _ _
  | tagClose _ _ hb => exact .tagClose _ _ hb
  | inTag hb hi =>
    refine .inTag hb ?_
    cases hi with
    | echo hn => exact .echo hn
    | tagName hn hw =>
      refine .tagName hn { hw with ends := hv.resolve_left ?_ }
      rintro rfl
      exact absurd hw.starts (by decide)
    | number hw hr => exact .number { hw with ends := hv } hr
    | string hr => exact .string hr
    | function hw => exact .function { hw with ends := hv }
    | «variable» hn hw => exact .variable hn { hw with ends := hv }
    | operator ho _ => exact .operator ho hv

end

section

variable {l m : Lexer} {p : Placed} {xs ys es : List Char}

theorem next_exchange_of_follows (h : (l.extend xs).next = (.ok p, m.extend xs))
    (hf : ∀ taken, p.token.Follows taken (m.rest ++ xs) → p.token.Follows taken (m.rest ++ ys)) :
    (l.extend ys).next = (.ok p, m.extend ys) := by
  obtain ⟨skipped, taken, hl, hp, hm, hr⟩ := next_eq_ok_iff.1 h
  have hl' : l.rest ++ xs = skipped ++ (taken ++ m.rest) ++ xs := by
    rw [List.append_assoc, List.append_assoc]
    exact hl
  refine next_eq_ok_iff.2 ⟨skipped, taken, ?_, hp, hm, hr.with_rest (hf taken hr.follows)⟩
  simp [extend, List.append_cancel_right hl']

theorem BreaksOff.cons_append {f : Char → Bool} {c : Char} {us : List Char}
    (h : BreaksOff f (c :: us)) : BreaksOff f (c :: us ++ es) := h

theorem EndsText.append {us : List Char} (h : EndsText us) (hn : us ≠ []) :
    EndsText (us ++ es) := by
  obtain ⟨ds, rfl⟩ := eq_of_opensTag (h.resolve_left hn)
  exact .inr rfl

theorem follows_append {t : Token} {taken us : List Char} (h : t.Follows taken us)
    (ht : t ≠ .endOfInput) (hu : us = [] → es = [] ∨ t = .tagClose) :
    t.Follows taken (us ++ es) := by
  cases us with
  | nil =>
    rcases hu rfl with rfl | rfl
    · exact h
    · trivial
  | cons c us =>
    cases t with
    | endOfInput => contradiction
    | text s => exact h.append (List.cons_ne_nil c us)
    | number n => exact h.cons_append
    | function name => exact h.cons_append
    | «variable» name => exact h.cons_append
    | tagName name => exact h.imp_right BreaksOff.cons_append
    | operator o =>
      change startsNumber (o :: c :: (us ++ es)) = false
      change startsNumber (o :: c :: us) = false at h
      rwa [startsNumber_cons_cons] at h ⊢
    | _ => trivial

theorem next_extend (h : l.next = (.ok p, m)) (hp : p.token ≠ .endOfInput)
    (hm : m.rest = [] → es = [] ∨ p.token = .tagClose) :
    (l.extend es).next = (.ok p, m.extend es) := by
  rw [← extend_nil l, ← extend_nil m] at h
  refine next_exchange_of_follows h fun taken hf => ?_
  rw [List.append_nil] at hf
  exact follows_append hf hp hm

theorem Gives.extend {ps : List Placed} (h : Gives l ps m)
    (hm : m.rest = [] → es = [] ∨ ps.getLast?.map (·.token) = some .tagClose) :
    Gives (l.extend es) ps (m.extend es) := by
  induction h with
  | nil l => exact .nil _
  | @cons l m n p ps hp ht hg ih =>
    cases hg with
    | nil => exact .cons (next_extend hp ht (by simpa using hm)) ht (.nil _)
    | cons hp' ht' hg' =>
      have hr : m.rest ≠ [] := rest_ne_nil_of_next hp' ht'
      exact .cons (next_extend hp ht fun h => absurd h hr) ht (ih (by simpa using hm))

/-- No tag opens at the beginning of `es` or across it. -/
def Untagged (es : List Char) : Prop := ∀ cs, opensTag (cs ++ es) = true → opensTag cs = true

theorem Untagged.of_head {c : Char} (h : c ≠ '{') (hd : c ≠ '$') (cs : List Char) :
    Untagged (c :: cs) := by
  intro ds ho
  match ds with
  | [] =>
    rw [List.nil_append, opensTag_cons h] at ho
    contradiction
  | [d] => simp [opensTag_cons_cons, hd] at ho
  | d :: e :: ds => simpa only [List.cons_append, opensTag_cons_cons] using ho

theorem Untagged.not_endsText (h : Untagged xs) (hn : xs ≠ []) : ¬EndsText xs := by
  rintro (he | ho)
  · exact hn he
  · exact absurd (h [] ho) (by decide)

theorem follows_exchange {t : Token} {taken us : List Char} (h : t.Follows taken (us ++ xs))
    (hx : Untagged xs) (hy : BreaksOff isNumeric ys) (hn : us ++ xs ≠ []) :
    t.Follows taken (us ++ ys) := by
  have hw : BreaksOff Text.isWord ys := hy.mono fun c hc => by simp [isNumeric, hc]
  cases us with
  | nil =>
    cases t with
    | endOfInput => contradiction
    | text s => exact absurd h (hx.not_endsText hn)
    | number n => exact hy
    | function name => exact hw
    | «variable» name => exact hw
    | tagName name => exact .inr hw
    | operator o =>
      exact startsNumber_of_breaksOff (isDigit_of_startsNumber h) hy
    | _ => trivial
  | cons c us =>
    cases t with
    | endOfInput => contradiction
    | text s =>
      have ho : EndsText (c :: us) := .inr (hx _ (h.resolve_left hn))
      exact ho.append (List.cons_ne_nil c us)
    | number n => exact h
    | function name => exact h
    | «variable» name => exact h
    | tagName name => exact h
    | operator o =>
      change startsNumber (o :: c :: (us ++ xs)) = false at h
      change startsNumber (o :: c :: (us ++ ys)) = false
      rwa [startsNumber_cons_cons] at h ⊢
    | _ => trivial

theorem next_exchange (hx : Untagged xs) (hy : BreaksOff isNumeric ys) (hn : m.rest ++ xs ≠ [])
    (h : (l.extend xs).next = (.ok p, m.extend xs)) : (l.extend ys).next = (.ok p, m.extend ys) :=
  next_exchange_of_follows h fun _ hf => follows_exchange hf hx hy hn

theorem Gives.exchange {ps : List Placed} (hx : Untagged xs) (hy : BreaksOff isNumeric ys)
    (hn : xs ≠ []) (h : Gives (l.extend xs) ps (m.extend xs)) :
    Gives (l.extend ys) ps (m.extend ys) := by
  generalize hl : l.extend xs = l' at h
  generalize hm : m.extend xs = m' at h
  induction h generalizing l with
  | nil =>
    rw [extend_inj (hl.trans hm.symm)]
    exact .nil _
  | cons hp ht hg ih =>
    subst hl hm
    obtain ⟨k, rfl⟩ := exists_extend ((List.suffix_append _ _).trans hg.suffix)
    exact .cons (next_exchange hx hy (by simp [hn]) hp) ht (ih rfl rfl)

end

theorem Reads.escape_with_rest {mode mode' : Mode} {name name' : Bool}
    {skipped taken us : List Char} {c : Char}
    (h : Reads mode name ⟨skipped, taken, us, .error (.invalidEscape (some c)), mode', name'⟩) :
    taken ≠ [] ∧ ∀ vs,
      Reads mode name ⟨skipped, taken, vs, .error (.invalidEscape (some c)), mode', name'⟩ := by
  cases h with
  | escape _ ht hw => exact ⟨List.cons_ne_nil _ _, fun vs => .escape _ ht ⟨hw.1, by simp⟩⟩
  | inTag hb hi =>
    cases hi with
    | escape hr hc => exact ⟨List.cons_ne_nil _ _, fun vs => .inTag hb (.escape hr hc)⟩

section

variable {l : Lexer} {c : Char} {q : Position}
  (h : l.next.1 = .error ⟨.invalidEscape (some c), q⟩)
include h

theorem rest_ne_nil_of_escape : l.rest ≠ [] := by
  obtain ⟨skipped, taken, hl, -, -, hr⟩ :=
    next_eq_error_iff.1 (Prod.ext h rfl : l.next = (.error _, l.next.2))
  have ht : taken ≠ [] := hr.escape_with_rest.1
  simp [hl, ht]

theorem next_extend_of_escape (es : List Char) :
    (l.extend es).next.1 = .error ⟨.invalidEscape (some c), q⟩ := by
  obtain ⟨skipped, taken, hl, hp, hm, hr⟩ :=
    next_eq_error_iff.1 (Prod.ext h rfl : l.next = (.error _, l.next.2))
  have hn : (l.extend es).next = (.error _, l.next.2.extend es) :=
    next_eq_error_iff.2 ⟨skipped, taken, by simp [Lexer.extend, hl], hp, hm,
      hr.escape_with_rest.2 _⟩
  rw [hn]

end

end Lexer

end Stencil
