import Mathlib.Data.List.Chain
import Stencil.Proofs.Number.Order
import Stencil.Token.Stream

set_option autoImplicit false

namespace Stencil

def Text.isName (name : String) : Bool :=
  match name.toList with
  | [] => false
  | c :: cs => Text.isLetter c && cs.all Text.isWord

theorem exists_of_isName {name : String} (h : Text.isName name = true) :
    ∃ c cs, name.toList = c :: cs ∧ Text.isLetter c = true ∧ ∀ d ∈ cs, Text.isWord d = true := by
  unfold Text.isName at h
  split at h
  · contradiction
  · rename_i c cs hn
    rw [Bool.and_eq_true, List.all_eq_true] at h
    exact ⟨c, cs, hn, h⟩

theorem Lexer.NameWord.isName {w rest : List Char} (h : Lexer.NameWord w rest) :
    Text.isName (String.ofList w) = true := by
  obtain ⟨c, cs, rfl, hc⟩ := h.eq_cons
  have hcs := (List.forall_mem_cons.1 h.inside).2
  simpa [Text.isName, hc] using hcs

namespace Token

def isItem : Token → Bool
  | .number _ => true
  | .string _ => true
  | .function _ => true
  | .variable _ => true
  | .operator c => (Operator.ofSymbol? c).isSome
  | _ => false

def isText : Token → Bool
  | .text _ => true
  | _ => false

/-- What every token of a source is. -/
def isGiven : Token → Bool
  | .text s => decide (s ≠ "")
  | .number n => !n.isNaN
  | .variable name => Text.isName name
  | .function name => Text.isName name
  | _ => true

end Token

namespace Lexer

section

variable {name name' : Bool} {mode' : Mode} {skipped taken rest : List Char} {t : Token}

theorem ReadsInTag.name_or_item (h : ReadsInTag name skipped taken rest (.ok t)) :
    (∃ s, t = .tagName s ∧ name = true) ∨ t.isItem = true := by
  cases h with
  | echo hn => exact .inl ⟨_, rfl, hn⟩
  | tagName hn _ => exact .inl ⟨_, rfl, hn⟩
  | operator ho _ => exact .inr ho
  | _ => exact .inr rfl

theorem ReadsInTag.isGiven (h : ReadsInTag name skipped taken rest (.ok t)) :
    t.isGiven = true := by
  cases h with
  | number _ hr =>
    obtain ⟨w, -, hw⟩ := Option.bind_eq_some_iff.1 hr
    simp [Token.isGiven, Numeral.isNaN_of_literal? hw]
  | function hw => exact hw.isName
  | «variable» _ hw => exact hw.isName
  | _ => rfl

theorem Reads.in_tag (h : Reads .tag name ⟨skipped, taken, rest, .ok t, mode', name'⟩) :
    name' = false ∧ ((t = .tagClose ∧ mode' = .text) ∨
      (∃ s, t = .tagName s ∧ name = true ∧ mode' = .tag) ∨ (t.isItem = true ∧ mode' = .tag)) := by
  cases h with
  | tagClose => exact ⟨rfl, .inl ⟨rfl, rfl⟩⟩
  | inTag _ hi =>
    rcases hi.name_or_item with ⟨s, hs, hn⟩ | hi
    · exact ⟨rfl, .inr (.inl ⟨s, hs, hn, rfl⟩)⟩
    · exact ⟨rfl, .inr (.inr ⟨hi, rfl⟩)⟩

theorem TextRun.ne_nil {cs ds : List Char} (h : TextRun cs ds) (hn : cs ≠ []) : ds ≠ [] := by
  cases h with
  | nil => contradiction
  | plain => exact List.cons_ne_nil _ _
  | escaped => exact List.cons_ne_nil _ _

theorem TextRun.not_endsText {cs ds : List Char} (h : TextRun cs ds) (hn : cs ≠ [])
    (hr : EndsText rest) : ¬EndsText (cs ++ rest) := by
  rintro (he | ho)
  · exact hn (List.append_eq_nil_iff.1 he).1
  · rw [h.opensTag hn (hr.seam cs)] at ho
    contradiction

theorem Reads.between_tags (h : Reads .text name ⟨skipped, taken, rest, .ok t, mode', name'⟩) :
    (t = .endOfInput ∧ skipped ++ (taken ++ rest) = [] ∧ mode' = .text ∧ name' = name) ∨
    (t = .tagOpen ∧ opensTag (skipped ++ (taken ++ rest)) = true ∧ mode' = .tag ∧ name' = true) ∨
    ∃ s, t = .text s ∧ s ≠ "" ∧ ¬EndsText (skipped ++ (taken ++ rest)) ∧ EndsText rest ∧
      mode' = .text ∧ name' = name := by
  cases h with
  | endOfInput => exact .inl ⟨rfl, rfl, rfl, rfl⟩
  | tagOpen => exact .inr (.inl ⟨rfl, rfl, rfl, rfl⟩)
  | text _ ht hn hr =>
    exact .inr (.inr ⟨_, rfl, by simpa using ht.ne_nil hn, ht.not_endsText hn hr, hr, rfl, rfl⟩)

theorem Reads.isGiven {mode : Mode}
    (h : Reads mode name ⟨skipped, taken, rest, .ok t, mode', name'⟩) : t.isGiven = true := by
  cases h with
  | text _ ht hn _ => simpa [Token.isGiven] using ht.ne_nil hn
  | inTag _ hi => exact hi.isGiven
  | _ => rfl

end

section

variable {l m : Lexer} {p : Placed} {r : Except LexError Placed}

theorem suffix_of_next (h : l.next = (r, m)) : m.rest <:+ l.rest := by
  cases r with
  | error e =>
    obtain ⟨skipped, taken, hl, -⟩ := next_eq_error_iff.1 h
    exact ⟨skipped ++ taken, by rw [hl, List.append_assoc]⟩
  | ok p =>
    obtain ⟨skipped, taken, hl, -⟩ := next_eq_ok_iff.1 h
    exact ⟨skipped ++ taken, by rw [hl, List.append_assoc]⟩

theorem rest_ne_nil_of_next (h : l.next = (.ok p, m)) (hp : p.token ≠ .endOfInput) :
    l.rest ≠ [] := by
  obtain ⟨skipped, taken, hl, -, -, hr⟩ := next_eq_ok_iff.1 h
  have ht : taken ≠ [] := hr.taken_ne_nil rfl hp
  simp [hl, ht]

theorem next_in_tag (hm : l.mode = .tag) (h : l.next = (.ok p, m)) :
    m.expectsName = false ∧
      ((p.token = .tagClose ∧ m.mode = .text) ∨
        (∃ name, p.token = .tagName name ∧ l.expectsName = true ∧ m.mode = .tag) ∨
        (p.token.isItem = true ∧ m.mode = .tag)) := by
  obtain ⟨_, _, -, -, -, hr⟩ := next_eq_ok_iff.1 h
  rw [hm] at hr
  exact hr.in_tag

theorem next_between_tags (hm : l.mode = .text) (h : l.next = (.ok p, m)) :
    (p.token = .endOfInput ∧ l.rest = [] ∧ m.mode = .text ∧ m.expectsName = l.expectsName) ∨
    (p.token = .tagOpen ∧ opensTag l.rest = true ∧ m.mode = .tag ∧ m.expectsName = true) ∨
    ∃ s, p.token = .text s ∧ s ≠ "" ∧ ¬EndsText l.rest ∧ EndsText m.rest ∧ m.mode = .text ∧
      m.expectsName = l.expectsName := by
  obtain ⟨_, _, hl, -, -, hr⟩ := next_eq_ok_iff.1 h
  rw [hm] at hr
  rw [hl]
  exact hr.between_tags

theorem mode_of_next (h : l.next = (.ok p, m)) (hc : p.token ≠ .tagClose)
    (hn : ∀ name, p.token ≠ .tagName name) (hi : p.token.isItem = false) : l.mode = .text := by
  cases hm : l.mode with
  | text => rfl
  | tag =>
    rcases (next_in_tag hm h).2 with ⟨ht, -⟩ | ⟨name, ht, -⟩ | ⟨ht, -⟩
    · exact absurd ht hc
    · exact absurd ht (hn name)
    · simp [hi] at ht

theorem mode_eq_text_iff (h : l.next = (.ok p, m)) :
    l.mode = .text ↔
      p.token.isText = true ∨ p.token = .tagOpen ∨ p.token = .endOfInput := by
  constructor
  · intro hm
    rcases next_between_tags hm h with ⟨ht, -⟩ | ⟨ht, -⟩ | ⟨s, ht, -⟩ <;> simp [ht, Token.isText]
  · intro ht
    refine mode_of_next h ?_ ?_ ?_ <;> rcases ht with ht | ht | ht <;> revert ht <;>
      cases p.token <;> simp [Token.isText, Token.isItem]

theorem expectsName_next (hl : l.mode = .text → l.expectsName = false) (h : l.next = (.ok p, m))
    (hm : m.mode = .text) : m.expectsName = false := by
  cases hmode : l.mode with
  | tag => exact (next_in_tag hmode h).1
  | text =>
    rcases next_between_tags hmode h with ⟨-, -, -, hn⟩ | ⟨-, -, ht, -⟩ | ⟨-, -, -, -, -, -, hn⟩
    · rw [hn, hl hmode]
    · rw [hm] at ht
      contradiction
    · rw [hn, hl hmode]

theorem next_isGiven (h : l.next = (.ok p, m)) : p.token.isGiven = true := by
  obtain ⟨_, _, -, -, -, hr⟩ := next_eq_ok_iff.1 h
  exact hr.isGiven

theorem next_isText (h : l.next = (.ok p, m)) (ht : p.token.isText = true) :
    m.mode = .text ∧ EndsText m.rest := by
  have hm : l.mode = .text := (mode_eq_text_iff h).2 (.inl ht)
  rcases next_between_tags hm h with ⟨hp, -⟩ | ⟨hp, -⟩ | ⟨s, -, -, -, hr, hm, -⟩
  · simp [hp, Token.isText] at ht
  · simp [hp, Token.isText] at ht
  · exact ⟨hm, hr⟩

theorem next_after_text (hm : l.mode = .text) (hr : EndsText l.rest) (h : l.next = (.ok p, m)) :
    p.token.isText = false := by
  rcases next_between_tags hm h with ⟨hp, -⟩ | ⟨hp, -⟩ | ⟨s, -, -, hn, -⟩
  · simp [hp, Token.isText]
  · simp [hp, Token.isText]
  · exact absurd hr hn

theorem next_of_endsText (hm : l.mode = .text) (h : EndsText l.rest) :
    ∃ p m, l.next = (.ok p, m) := by
  obtain ⟨cs, q, mode, name⟩ := l
  dsimp only at hm h
  subst hm
  rcases h with rfl | ho
  · exact ⟨_, _, (Reads.endOfInput name).next q⟩
  · obtain ⟨ds, rfl⟩ := eq_of_opensTag ho
    exact ⟨_, _, (Reads.tagOpen name ds).next q⟩

theorem rest_of_endOfInput (h : l.next = (.ok p, m)) (hp : p.token = .endOfInput) :
    l.rest = [] := by
  have hm : l.mode = .text := (mode_eq_text_iff h).2 (.inr (.inr hp))
  rcases next_between_tags hm h with ⟨-, hr, -⟩ | ⟨ht, -⟩ | ⟨s, ht, -⟩
  · exact hr
  · simp [ht] at hp
  · simp [ht] at hp

end

/-- No text stands beside a text. -/
def Apart (t u : Token) : Prop := t.isText = true → u.isText = false

namespace Gives

variable {l m : Lexer} {ps qs : List Placed}

theorem suffix (h : Gives l ps m) : m.rest <:+ l.rest := by
  induction h with
  | nil => exact List.suffix_refl _
  | cons hn _ _ ih => exact ih.trans (suffix_of_next hn)

theorem expectsName (h : Gives l ps m) (hl : l.mode = .text → l.expectsName = false)
    (hm : m.mode = .text) : m.expectsName = false := by
  induction h with
  | nil => exact hl hm
  | cons hn _ _ ih => exact ih (expectsName_next hl hn) hm

theorem given (h : Gives l ps m) :
    (∀ p ∈ ps, p.token.isGiven = true) ∧ (ps.map (·.token)).IsChain Apart := by
  induction h with
  | nil => exact ⟨by simp, .nil⟩
  | @cons l m n p ps hp ht hg ih =>
    refine ⟨List.forall_mem_cons.2 ⟨next_isGiven hp, ih.1⟩, ?_⟩
    cases hg with
    | nil => exact .singleton _
    | cons hq _ _ =>
      refine .cons_cons (fun hs => ?_) ih.2
      obtain ⟨hm, hr⟩ := next_isText hp hs
      exact next_after_text hm hr hq

theorem split (h : Gives l (ps ++ qs) m) : ∃ k, Gives l ps k ∧ Gives k qs m := by
  induction ps generalizing l with
  | nil => exact ⟨l, .nil l, h⟩
  | cons p ps ih =>
    cases h with
    | cons hp ht hg =>
      obtain ⟨k, hk, hm⟩ := ih hg
      exact ⟨k, .cons hp ht hk, hm⟩

end Gives

end Lexer

open Lexer in
theorem Lexes.gives {source : List Char} {ts : List Token} (h : Lexes source ts) :
    ∃ ps m, ps.map (·.token) = ts ∧ Gives (ofChars source .text) ps m ∧ m.rest = [] ∧
      m.mode = .text ∧ m.expectsName = false := by
  obtain ⟨ps, p, rfl, he, hr⟩ := h
  obtain ⟨qs, m, r, hg, hend⟩ := (ofChars source .text).exists_ends
  have hq := (hg.ends hend).symm.trans hr
  rw [List.map_append] at hq
  obtain ⟨hps, hlast⟩ := List.append_inj' hq rfl
  rw [List.map_inj_right (by simp)] at hps
  subst hps
  cases hlast
  cases hend with
  | endOfInput hn _ =>
    have hm := (mode_eq_text_iff hn).2 (.inr (.inr he))
    exact ⟨qs, m, rfl, hg, rest_of_endOfInput hn he, hm, hg.expectsName (fun _ => rfl) hm⟩

end Stencil
