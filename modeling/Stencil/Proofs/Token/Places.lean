import Mathlib.Logic.Function.Iterate
import Stencil.Proofs.Token.Elsewhere

/-! The positions of tokens and errors, and how they differ behind the opening of a tag. -/

set_option autoImplicit false

namespace Stencil

namespace Position

def lineOf (cs : List Char) : Nat := cs.count '\n' + 1

def columnOf (cs : List Char) : Nat := (cs.reverse.takeWhile (· ≠ '\n')).length + 1

/-- Where a reader stands that has read `cs`, whose counters wrap around. -/
def reached (cs : List Char) : Position := ⟨.ofNat (lineOf cs), .ofNat (columnOf cs)⟩

section

variable (cs ds : List Char)

theorem lineOf_append : lineOf (cs ++ ds) = lineOf cs + ds.count '\n' := by
  rw [lineOf, lineOf, List.count_append]
  omega

theorem columnOf_append :
    columnOf (cs ++ ds) = if '\n' ∈ ds then columnOf ds else columnOf cs + ds.length := by
  unfold columnOf
  rw [List.reverse_append]
  split
  · rename_i h
    have hne : (ds.reverse.takeWhile (· ≠ '\n')).length ≠ ds.reverse.length := by
      intro hl
      have he := (List.takeWhile_prefix (· ≠ '\n')).eq_of_length hl
      have hn := List.takeWhile_eq_self_iff.1 he '\n' (List.mem_reverse.2 h)
      simp at hn
    rw [List.takeWhile_append, if_neg hne]
  · rename_i h
    have ha : ∀ c ∈ ds.reverse, decide (c ≠ '\n') = true := fun c hc =>
      decide_eq_true (ne_of_mem_of_not_mem (List.mem_reverse.1 hc) h)
    rw [List.takeWhile_append_of_pos ha, List.length_append, List.length_reverse]
    omega

theorem lineOf_add_columnOf_le : lineOf cs + columnOf cs ≤ cs.length + 2 := by
  induction cs using List.reverseRecOn with
  | nil => decide
  | append_singleton cs c ih =>
    have hp : 1 ≤ columnOf cs := Nat.le_add_left 1 _
    rw [lineOf_append, columnOf_append, List.length_append, List.length_singleton]
    by_cases hc : c = '\n'
    · have hn : columnOf ['\n'] = 1 := by decide
      simp only [hc, List.count_singleton_self, List.mem_singleton, if_true, hn]
      omega
    · have hn : '\n' ∉ [c] := by simpa using Ne.symm hc
      rw [if_neg hn, List.count_eq_zero_of_not_mem hn]
      omega

theorem reached_snoc (c : Char) : reached (cs ++ [c]) = (reached cs).step c := by
  unfold reached step
  rw [lineOf_append, columnOf_append]
  by_cases hc : c = '\n'
  · simp [hc, columnOf]
  · simp [hc, Ne.symm hc]

theorem reached_after : (reached cs).after ds = reached (cs ++ ds) := by
  induction ds using List.reverseRecOn with
  | nil => simp [after]
  | append_singleton ds c ih =>
    rw [after_append, ih, ← List.append_assoc, reached_snoc]
    rfl

theorem start_after : start.after cs = reached cs := reached_after [] cs

end

/-- The counters are exact where they cannot wrap around. -/
theorem toNat_reached (cs : List Char) (h : cs.length ≤ 2 ^ 32 - 2) :
    (reached cs).line.toNat = lineOf cs ∧ (reached cs).column.toNat = columnOf cs := by
  have hle := lineOf_add_columnOf_le cs
  have hl : 1 ≤ lineOf cs := Nat.le_add_left 1 _
  have hc : 1 ≤ columnOf cs := Nat.le_add_left 1 _
  exact ⟨UInt32.toNat_ofNat_of_lt' (by change _ < 2 ^ 32; omega),
    UInt32.toNat_ofNat_of_lt' (by change _ < 2 ^ 32; omega)⟩

/-- The lexicographic order. -/
def Before (p q : Position) : Prop := p.line < q.line ∨ p.line = q.line ∧ p.column < q.column

theorem reached_before {cs ds : List Char} (hd : ds ≠ []) (h : (cs ++ ds).length ≤ 2 ^ 32 - 2) :
    (reached cs).Before (reached (cs ++ ds)) := by
  have hlen : (cs ++ ds).length = cs.length + ds.length := List.length_append
  obtain ⟨hl, hc⟩ := toNat_reached cs (by omega)
  obtain ⟨hl', hc'⟩ := toNat_reached (cs ++ ds) h
  rw [lineOf_append] at hl'
  rw [columnOf_append] at hc'
  unfold Before
  rw [UInt32.lt_iff_toNat_lt, UInt32.lt_iff_toNat_lt, ← UInt32.toNat_inj]
  by_cases hn : '\n' ∈ ds
  · have := List.count_pos_iff.2 hn
    omega
  · have := List.length_pos_iff.2 hd
    rw [List.count_eq_zero_of_not_mem hn] at hl'
    rw [if_neg hn] at hc'
    omega

theorem reached_opened (cs : List Char) :
    reached ('{' :: '$' :: cs) =
      if '\n' ∈ cs then reached cs else ⟨1, (reached cs).column + 2⟩ := by
  have hl : lineOf ('{' :: '$' :: cs) = lineOf cs := by simp [lineOf]
  have hc : columnOf (['{', '$'] ++ cs) = _ := columnOf_append ['{', '$'] cs
  have ho : columnOf ['{', '$'] = 3 := by decide
  rw [List.cons_append, List.cons_append, List.nil_append, ho] at hc
  unfold reached
  rw [hl, hc]
  split
  · rfl
  · rename_i hn
    have hs : columnOf cs = 1 + cs.length := by
      rw [← List.nil_append cs, columnOf_append, if_neg hn]
      rfl
    have he : 3 + cs.length = columnOf cs + 2 := by omega
    rw [lineOf, List.count_eq_zero_of_not_mem hn, he, UInt32.ofNat_add (columnOf cs) 2]
    rfl

end Position

/-- What a token is read from; nothing is left after the end of the input. -/
def Token.ReadFrom : Token → List Char → List Char → Prop
  | .endOfInput, cs, rest => cs = [] ∧ rest = []
  | .text _, cs, _ => cs ≠ []
  | .tagOpen, cs, _ => cs = ['{', '$']
  | .tagClose, cs, _ => cs = ['$', '}']
  | .tagName s, cs, _ => cs ≠ [] ∧ s = String.ofList (Text.upperCase cs)
  | .number n, cs, _ => (Numeral.read? cs).bind Numeral.literal? = some n
  | .string _, cs, _ => ∃ body, cs = '"' :: (body ++ ['"'])
  | .function name, cs, _ => cs = '@' :: name.toList
  | .variable name, cs, _ => cs ≠ [] ∧ cs = name.toList
  | .operator c, cs, _ => cs = [c]

theorem Token.ReadFrom.ne_nil {t : Token} {cs rest : List Char} (h : t.ReadFrom cs rest)
    (ht : t ≠ .endOfInput) : cs ≠ [] := by
  rintro rfl
  cases t with
  | endOfInput => contradiction
  | number n =>
    have hn : Numeral.read? [] = none := rfl
    simp [ReadFrom, hn] at h
  | _ => simp [ReadFrom] at h

/-- What is read from the position of a fault on, and what is left. -/
def LexFault.Faces : LexFault → List Char → List Char → Prop
  | .unterminatedTag, cs, rest => cs = [] ∧ rest = []
  | .unterminatedString, cs, rest => cs.head? = some '"' ∧ rest = []
  | .invalidEscape next, cs, rest => cs = '\\' :: next.toList ∧ (next = none → rest = [])
  | .invalidNumber word, cs, rest => cs = word.toList ∧ Lexer.startsNumber (cs ++ rest) = true
  | .unexpectedChar c, cs, rest => (cs ++ rest).head? = some c

namespace Lexer

theorem upperCase_equals : "=" = String.ofList (Text.upperCase ['=']) := by decide +kernel

section

variable {mode mode' : Mode} {name name' : Bool} {skipped taken rest : List Char}

theorem ReadsInTag.readFrom {t : Token} (h : ReadsInTag name skipped taken rest (.ok t)) :
    t.ReadFrom taken rest := by
  have ne_nil {w : List Char} (hw : NameWord w rest) : w ≠ [] := by
    obtain ⟨c, cs, rfl, -⟩ := hw.eq_cons
    exact List.cons_ne_nil c cs
  cases h with
  | echo => exact ⟨List.cons_ne_nil _ _, upperCase_equals⟩
  | tagName _ hw => exact ⟨ne_nil hw, rfl⟩
  | number _ hr => exact hr
  | string => exact ⟨_, rfl⟩
  | function => simp [Token.ReadFrom]
  | «variable» _ hw => exact ⟨ne_nil hw, by simp⟩
  | operator => rfl

theorem Reads.readFrom {t : Token}
    (h : Reads mode name ⟨skipped, taken, rest, .ok t, mode', name'⟩) : t.ReadFrom taken rest := by
  cases h with
  | endOfInput => exact ⟨rfl, rfl⟩
  | tagOpen => rfl
  | text _ _ hn _ => exact hn
  | tagClose => rfl
  | inTag _ hi => exact hi.readFrom

theorem ReadsInTag.faces {f : LexFault} (h : ReadsInTag name skipped taken rest (.error f)) :
    f.Faces taken rest := by
  cases h with
  | invalidNumber hw _ => exact ⟨by simp, startsNumber_append hw.starts rest⟩
  | unterminated => exact ⟨rfl, rfl⟩
  | escape => exact ⟨rfl, by simp⟩
  | nameless => rfl
  | stray => rfl

theorem Reads.faces {f : LexFault}
    (h : Reads mode name ⟨skipped, taken, rest, .error f, mode', name'⟩) : f.Faces taken rest := by
  cases h with
  | escape _ _ hw => exact ⟨rfl, hw.2⟩
  | unterminated => exact ⟨rfl, rfl⟩
  | inTag _ hi => exact hi.faces

end

/-- The blanks that the next step passes. -/
def blanks (l : Lexer) : List Char :=
  match l.mode with
  | .text => []
  | .tag => l.rest.takeWhile Text.isBlank

theorem allBlank_blanks (l : Lexer) : Text.AllBlank l.blanks := by
  intro c h
  unfold blanks at h
  split at h
  · contradiction
  · exact List.mem_takeWhile_imp h

theorem ReadsInTag.skipped_eq {name : Bool} {skipped taken rest : List Char}
    {r : Except LexFault Token} (h : ReadsInTag name skipped taken rest r) :
    skipped = [] ∨ ∃ next, r = .error (.invalidEscape next) := by
  cases h with
  | escape => exact .inr ⟨_, rfl⟩
  | _ => exact .inl rfl

/-- Only blanks are skipped, but before an escape that is wrong. -/
theorem Reads.skipped_eq {mode : Mode} {name : Bool} {r : Reading} (h : Reads mode name r)
    (p : Position) :
    r.skipped = blanks ⟨r.source, p, mode, name⟩ ∨
      ∃ next, r.result = .error (.invalidEscape next) := by
  have blanks {bs cs : List Char} (hb : Text.AllBlank bs) (hc : BreaksOff Text.isBlank cs) :
      bs = (bs ++ cs).takeWhile Text.isBlank := (hc.takeWhile hb).symm
  cases h with
  | endOfInput => exact .inl rfl
  | tagOpen => exact .inl rfl
  | text => exact .inl rfl
  | escape => exact .inr ⟨_, rfl⟩
  | unterminated _ hb => exact .inl (blanks hb (by simp [BreaksOff]))
  | tagClose _ _ hb => exact .inl (blanks hb (by simp [BreaksOff]; decide))
  | inTag hb hi =>
    rcases hi.skipped_eq with rfl | he
    · obtain ⟨-, c, ds, hc, hblank⟩ := hi.beginsInTag
      rw [List.nil_append] at hc
      refine .inl ?_
      rw [List.append_nil]
      refine blanks hb ?_
      rw [hc]
      simp [BreaksOff, hblank]
    · exact .inr he

/-- From `l` to `m` the characters `cs` are passed. -/
def Passes (l m : Lexer) (cs : List Char) : Prop :=
  l.rest = cs ++ m.rest ∧ m.position = l.position.after cs

theorem Passes.refl (l : Lexer) : l.Passes l [] := ⟨rfl, rfl⟩

theorem Passes.trans {l m n : Lexer} {cs ds : List Char} (h : l.Passes m cs)
    (hn : m.Passes n ds) : l.Passes n (cs ++ ds) :=
  ⟨by rw [h.1, hn.1, List.append_assoc], by rw [hn.2, h.2, Position.after_append]⟩

section

variable {l m : Lexer}

theorem passes_of_next {p : Placed} (h : l.next = (.ok p, m)) :
    ∃ cs, l.Passes m (l.blanks ++ cs) ∧ p.position = l.position.after l.blanks ∧
      p.token.ReadFrom cs m.rest := by
  obtain ⟨skipped, taken, hl, hp, hm, hr⟩ := next_eq_ok_iff.1 h
  have hs := hr.skipped_eq l.position
  rw [Reading.source, ← hl] at hs
  obtain hs | ⟨next, he⟩ := hs
  · change skipped = l.blanks at hs
    rw [← hs]
    refine ⟨taken, ⟨by rw [hl, List.append_assoc], ?_⟩, hp, hr.readFrom⟩
    rw [hm, hp, Position.after_append]
  · contradiction

theorem passes_of_error {e : LexError} (h : l.next = (.error e, m)) :
    ∃ skipped cs, l.Passes m (skipped ++ cs) ∧ e.position = l.position.after skipped ∧
      e.fault.Faces cs m.rest ∧ (skipped = l.blanks ∨ ∃ next, e.fault = .invalidEscape next) := by
  obtain ⟨skipped, taken, hl, hp, hm, hr⟩ := next_eq_error_iff.1 h
  refine ⟨skipped, taken, ⟨by rw [hl, List.append_assoc], ?_⟩, hp, hr.faces, ?_⟩
  · rw [hm, hp, Position.after_append]
  · have hs := hr.skipped_eq l.position
    rw [Reading.source, ← hl] at hs
    simpa using hs

end

theorem passes_next (l : Lexer) : ∃ cs, l.Passes l.next.2 cs ∧
    ∀ q, (l.moved q).next.2 = l.next.2.moved (q.after cs) := by
  obtain ⟨cs, hl, hm⟩ := l.next_snd
  exact ⟨cs, ⟨hl, congrArg Lexer.position (hm l.position)⟩, hm⟩

/-- The lexer that `n` calls leave, the calls after an error counted too. -/
def afterCalls (n : Nat) (l : Lexer) : Lexer := (fun l : Lexer => l.next.2)^[n] l

theorem passes_afterCalls (n : Nat) (l : Lexer) : ∃ cs, l.Passes (afterCalls n l) cs ∧
    ∀ q, afterCalls n (l.moved q) = (afterCalls n l).moved (q.after cs) := by
  induction n generalizing l with
  | zero => exact ⟨[], .refl l, fun _ => rfl⟩
  | succ n ih =>
    obtain ⟨cs, hc, hm⟩ := passes_next l
    obtain ⟨ds, hd, hn⟩ := ih l.next.2
    refine ⟨cs ++ ds, hc.trans hd, fun q => ?_⟩
    change afterCalls n (l.moved q).next.2 = (afterCalls n l.next.2).moved _
    rw [hm, hn, Position.after_append]

/-- The source ends with `cs`, which begins at `p`. -/
def BeginsAt (source cs : List Char) (p : Position) : Prop :=
  ∃ before, source = before ++ cs ∧ p = .reached before

theorem Passes.beginsAt {source before cs : List Char} {mode : Mode} {l : Lexer}
    (h : (ofChars source mode).Passes l before) (skipped : List Char)
    (hl : l.rest = skipped ++ cs) :
    BeginsAt source cs (l.position.after skipped) := by
  refine ⟨before ++ skipped, ?_, ?_⟩
  · rw [List.append_assoc, ← hl]
    exact h.1
  · rw [h.2, ← Position.after_append]
    exact Position.start_after _

theorem before_of_next {source : List Char} {mode : Mode} {i n : Nat} {p q : Placed}
    (hs : source.length ≤ 2 ^ 32 - 2)
    (hp : (afterCalls i (ofChars source mode)).next.1 = .ok p)
    (hq : (afterCalls n (afterCalls i (ofChars source mode)).next.2).next.1 = .ok q)
    (ht : p.token ≠ .endOfInput) : p.position.Before q.position := by
  obtain ⟨as, ha, -⟩ := passes_afterCalls i (ofChars source mode)
  generalize afterCalls i (ofChars source mode) = l at ha hp hq
  obtain ⟨cs, hm, hpos, hr⟩ := passes_of_next (Prod.ext hp rfl : l.next = (.ok p, l.next.2))
  obtain ⟨ds, hd, -⟩ := passes_afterCalls n l.next.2
  generalize afterCalls n l.next.2 = j at hq hd
  obtain ⟨es, hk, hpos', -⟩ := passes_of_next (Prod.ext hq rfl : j.next = (.ok q, j.next.2))
  have hp' : p.position = .reached (as ++ l.blanks) := by
    rw [hpos, ha.2, ← Position.after_append]
    exact Position.start_after _
  have hq' : q.position = .reached (as ++ l.blanks ++ (cs ++ (ds ++ j.blanks))) := by
    rw [hpos', hd.2, hm.2, ha.2, ← Position.after_append, ← Position.after_append,
      ← Position.after_append, ← Position.start_after]
    simp [ofChars]
  rw [hp', hq']
  refine Position.reached_before (by simp [hr.ne_nil ht]) ?_
  have hlen := congrArg List.length ((ha.trans hm).trans hd).1
  have hlen' := congrArg List.length hk.1
  simp only [ofChars, List.length_append] at hlen hlen' ⊢
  omega

/-- The position of a lexer is where it stands, however often it was called; that of a token is
where its first character stands, and that of an error where the character stands that is wrong. In
a source that the counters can count, positions are the numbers of lines and columns, and grow from
token to token. -/
theorem places_exact (source : List Char) (mode : Mode) :
    (∀ n, let l := afterCalls n (ofChars source mode)
      BeginsAt source l.rest l.position ∧
      (∀ p m, l.next = (.ok p, m) → ∃ cs, l.rest = l.blanks ++ (cs ++ m.rest) ∧
        BeginsAt source (cs ++ m.rest) p.position ∧ p.token.ReadFrom cs m.rest) ∧
      ∀ e m, l.next = (.error e, m) → ∃ skipped cs, l.rest = skipped ++ (cs ++ m.rest) ∧
        BeginsAt source (cs ++ m.rest) e.position ∧ e.fault.Faces cs m.rest ∧
        (skipped = l.blanks ∨ ∃ next, e.fault = .invalidEscape next)) ∧
    (source.length ≤ 2 ^ 32 - 2 →
      (∀ cs p, BeginsAt source cs p → ∃ before, source = before ++ cs ∧
        p.line.toNat = before.count '\n' + 1 ∧
        p.column.toNat = (before.reverse.takeWhile (· ≠ '\n')).length + 1) ∧
      ∀ i j p q, i < j → (afterCalls i (ofChars source mode)).next.1 = .ok p →
        (afterCalls j (ofChars source mode)).next.1 = .ok q → p.token ≠ .endOfInput →
        p.position.Before q.position) := by
  refine ⟨fun n => ?_, fun hs => ⟨fun cs p hb => ?_, fun i j p q hij hp hq ht => ?_⟩⟩
  · obtain ⟨before, hl, -⟩ := passes_afterCalls n (ofChars source mode)
    generalize afterCalls n (ofChars source mode) = l at hl
    refine ⟨hl.beginsAt [] rfl, fun p m hn => ?_, fun e m hn => ?_⟩
    · obtain ⟨cs, hm, hp, ht⟩ := passes_of_next hn
      have hr : l.rest = l.blanks ++ (cs ++ m.rest) := by rw [hm.1, List.append_assoc]
      exact ⟨cs, hr, hp ▸ hl.beginsAt l.blanks hr, ht⟩
    · obtain ⟨skipped, cs, hm, hp, ht, hskip⟩ := passes_of_error hn
      have hr : l.rest = skipped ++ (cs ++ m.rest) := by rw [hm.1, List.append_assoc]
      exact ⟨skipped, cs, hr, hp ▸ hl.beginsAt skipped hr, ht, hskip⟩
  · obtain ⟨before, rfl, rfl⟩ := hb
    rw [List.length_append] at hs
    exact ⟨before, rfl, Position.toNat_reached before (by omega)⟩
  · obtain ⟨n, rfl⟩ := Nat.exists_eq_add_of_lt hij
    refine before_of_next (n := n) hs hp ?_ ht
    rw [← hq, afterCalls, afterCalls, afterCalls, Nat.add_assoc, Nat.add_comm,
      Function.iterate_add_apply]
    rfl

/-- `p` is where `cs` ends, and `q` has the line of `p`, and two more columns unless `cs` has a
newline. -/
def IsOpened (cs : List Char) (p q : Position) : Prop :=
  p = .reached cs ∧ q = if '\n' ∈ cs then p else ⟨p.line, p.column + 2⟩

theorem isOpened_reached (cs : List Char) :
    IsOpened cs (.reached cs) (.reached ('{' :: '$' :: cs)) := by
  refine ⟨rfl, ?_⟩
  rw [Position.reached_opened]
  split
  · rfl
  · rename_i hn
    rw [Position.reached, Position.lineOf, List.count_eq_zero_of_not_mem hn]
    rfl

theorem IsOpened.counts {cs : List Char} {p q : Position} (h : IsOpened cs p q)
    (hs : cs.length ≤ 2 ^ 32 - 4) :
    q.line = p.line ∧ (p.line = 1 → q.column.toNat = p.column.toNat + 2) ∧
      (p.line ≠ 1 → q.column = p.column) := by
  obtain ⟨rfl, rfl⟩ := h
  obtain ⟨hl, hc⟩ := Position.toNat_reached cs (by omega)
  have hsum := Position.lineOf_add_columnOf_le cs
  split
  · rename_i hn
    have hp := List.count_pos_iff.2 hn
    refine ⟨rfl, fun h1 => ?_, fun _ => rfl⟩
    rw [h1, Position.lineOf] at hl
    change 1 = _ at hl
    omega
  · rename_i hn
    refine ⟨rfl, fun _ => ?_, fun h1 => absurd ?_ h1⟩
    · rw [UInt32.toNat_add, hc]
      change (_ + 2) % 2 ^ 32 = _
      have h1 : 1 ≤ Position.lineOf cs := Nat.le_add_left 1 _
      omega
    · rw [← UInt32.toNat_inj, hl, Position.lineOf, List.count_eq_zero_of_not_mem hn]
      rfl

/-- A source that opens a tag gives the opening first. Each call after it gives and leaves what the
call does on the source without the opening, with a reader that begins inside a tag; only columns on
the first line, up to the first newline, are smaller by two there. Where the counters do not pass
their range, the first line is where the line is 1. -/
theorem calls_inside_tag (source : List Char) :
    let opening := (ofChars ('{' :: '$' :: source) .text).next
    opening.1 = .ok ⟨.tagOpen, .start⟩ ∧
      (∀ n, let l := afterCalls n (ofChars source .tag)
        let m := afterCalls n opening.2
        ∃ before skipped taken, source = before ++ l.rest ∧
          l.rest = skipped ++ (taken ++ l.next.2.rest) ∧
          m = l.moved m.position ∧ IsOpened before l.position m.position ∧
          Alike (LexError.Same (IsOpened (before ++ skipped)))
            (SameToken (IsOpened (before ++ skipped))) l.next.1 m.next.1) ∧
      (source.length ≤ 2 ^ 32 - 4 → ∀ cs p q, cs <+: source → IsOpened cs p q →
        q.line = p.line ∧ (p.line = 1 → q.column.toNat = p.column.toNat + 2) ∧
          (p.line ≠ 1 → q.column = p.column)) := by
  have ho : (ofChars ('{' :: '$' :: source) .text).next =
      (.ok ⟨.tagOpen, .start⟩, (ofChars source .tag).moved (.reached ['{', '$'])) :=
    (Reads.tagOpen _ source).next .start
  rw [ho]
  refine ⟨rfl, fun n => ?_, fun hs cs p q hc h => h.counts (hc.length_le.trans hs)⟩
  obtain ⟨before, hl, hm⟩ := passes_afterCalls n (ofChars source .tag)
  dsimp only
  rw [hm, Position.reached_after]
  generalize afterCalls n (ofChars source .tag) = l at hl
  obtain ⟨skipped, taken, hr, ha⟩ := l.alike_next
  have hp : l.position = .reached before := hl.2.trans (Position.start_after before)
  refine ⟨before, skipped, taken, hl.1, hr, rfl, hp ▸ isOpened_reached before, ha ?_⟩
  rw [hp, Position.reached_after, Position.reached_after]
  exact isOpened_reached (before ++ skipped)

end Lexer

end Stencil
