import Stencil.Token.Reading

set_option autoImplicit false

namespace Stencil

namespace Lexer

theorem exists_numberWord {cs : List Char} (h : startsNumber cs = true) :
    ∃ w rest, cs = w ++ rest ∧ NumberWord w rest := by
  cases cs with
  | nil => contradiction
  | cons c cs =>
    refine ⟨c :: cs.takeWhile isNumeric, cs.dropWhile isNumeric, by simp, ?_,
      List.all_eq_true.1 List.all_takeWhile, breaksOff_dropWhile isNumeric cs⟩
    by_cases hc : c = '-'
    · subst hc
      cases cs with
      | nil => contradiction
      | cons d ds =>
        have hd : d.isDigit = true := h
        have hn : isNumeric d = true := by simp [isNumeric, Text.isWord_of_isDigit hd]
        rw [List.takeWhile_cons, if_pos hn]
        exact hd
    · rwa [startsNumber_cons hc] at h ⊢

theorem exists_nameWord {c : Char} (h : Text.isLetter c = true) (cs : List Char) :
    ∃ w rest, c :: cs = w ++ rest ∧ NameWord w rest := by
  refine ⟨(c :: cs).takeWhile Text.isWord, (c :: cs).dropWhile Text.isWord,
    List.takeWhile_append_dropWhile.symm, ?_, List.all_eq_true.1 List.all_takeWhile,
    breaksOff_dropWhile Text.isWord (c :: cs)⟩
  simp [Text.isWord_of_isLetter h, h]

def HasReading (name : Bool) (cs : List Char) : Prop :=
  ∃ skipped taken rest result, cs = skipped ++ (taken ++ rest) ∧
    ReadsInTag name skipped taken rest result

section

variable (name : Bool)

theorem hasReading_number {cs : List Char} (h : startsNumber cs = true) : HasReading name cs := by
  obtain ⟨w, rest, he, hw⟩ := exists_numberWord h
  cases hr : (Numeral.read? w).bind Numeral.literal? with
  | some n => exact ⟨[], w, rest, _, he, .number hw hr⟩
  | none => exact ⟨[], w, rest, _, he, .invalidNumber hw hr⟩

theorem hasReading_quoted (cs : List Char) : HasReading name ('"' :: cs) := by
  obtain ⟨as, ds, rest, rfl, ha, rfl | rfl | ⟨es, rfl⟩ | ⟨d, es, rfl, hd⟩⟩ := exists_stringRun cs
  · exact ⟨[], _, [], _, by simp, .unterminated ha (.inl rfl)⟩
  · exact ⟨[], _, [], _, by simp, .unterminated ha (.inr rfl)⟩
  · exact ⟨[], _, es, _, by simp, .string ha⟩
  · exact ⟨_, _, es, _, rfl, .escape ha hd⟩

theorem hasReading_function (cs : List Char) : HasReading name ('@' :: cs) := by
  cases cs with
  | nil => exact ⟨[], ['@'], [], _, rfl, .nameless (by simp [BreaksOff])⟩
  | cons d ds =>
    cases hd : Text.isLetter d with
    | true =>
      obtain ⟨w, rest, he, hw⟩ := exists_nameWord hd ds
      exact ⟨[], '@' :: w, rest, _, by simp [he], .function hw⟩
    | false => exact ⟨[], ['@'], d :: ds, _, rfl, .nameless (by simp [BreaksOff, hd])⟩

theorem hasReading_name {c : Char} (h : Text.isLetter c = true) (cs : List Char) :
    HasReading name (c :: cs) := by
  obtain ⟨w, rest, he, hw⟩ := exists_nameWord h cs
  cases name with
  | true => exact ⟨[], w, rest, _, he, .tagName rfl hw⟩
  | false => exact ⟨[], w, rest, _, he, .variable rfl hw⟩

theorem BeginsInTag.hasReading {cs : List Char} (h : BeginsInTag cs) : HasReading name cs := by
  obtain ⟨hcl, c, cs, rfl, hb⟩ := h
  cases hs : startsNumber (c :: cs) with
  | true => exact hasReading_number name hs
  | false =>
    by_cases hq : c = '"'
    · exact hq ▸ hasReading_quoted name cs
    by_cases ha : c = '@'
    · exact ha ▸ hasReading_function name cs
    cases hl : Text.isLetter c with
    | true => exact hasReading_name name hl cs
    | false =>
      by_cases he : name = true ∧ c = '='
      · rw [he.2]
        exact ⟨[], ['='], cs, _, rfl, .echo he.1⟩
      cases ho : Operator.ofSymbol? c with
      | some op => exact ⟨[], [c], cs, _, rfl, .operator (by simp [ho]) hs⟩
      | none =>
        exact ⟨[], [], c :: cs, _, rfl, .stray ⟨hb, hcl, hs, hq, ha, hl, ho, not_and.1 he⟩⟩

end

theorem exists_reads (m : Mode) (name : Bool) (cs : List Char) :
    ∃ r : Reading, r.source = cs ∧ Reads m name r := by
  cases m with
  | text =>
    by_cases hn : cs = []
    · subst hn
      exact ⟨_, rfl, .endOfInput name⟩
    by_cases ho : opensTag cs = true
    · obtain ⟨ds, rfl⟩ := eq_of_opensTag ho
      exact ⟨_, rfl, .tagOpen name ds⟩
    obtain ⟨as, ds, rest, rfl, ht, he | ⟨next, rest, rfl, hw⟩⟩ := exists_textRun cs
    · refine ⟨_, rfl, .text name ht ?_ he⟩
      rintro rfl
      exact he.elim hn ho
    · exact ⟨_, rfl, .escape name ht hw⟩
  | tag =>
    have hb : Text.AllBlank (cs.takeWhile Text.isBlank) :=
      List.all_eq_true.1 List.all_takeWhile
    have hcs : cs.takeWhile Text.isBlank ++ cs.dropWhile Text.isBlank = cs :=
      List.takeWhile_append_dropWhile
    have hd := breaksOff_dropWhile Text.isBlank cs
    generalize cs.takeWhile Text.isBlank = bs at hb hcs
    generalize cs.dropWhile Text.isBlank = ds at hd hcs
    subst hcs
    cases ds with
    | nil => exact ⟨_, rfl, .unterminated name hb⟩
    | cons c ds =>
      by_cases hc : closesTag (c :: ds) = true
      · obtain ⟨es, he⟩ := eq_of_closesTag hc
        rw [he]
        exact ⟨_, rfl, .tagClose name es hb⟩
      · rw [Bool.not_eq_true] at hc
        have hbegins : BeginsInTag (c :: ds) := ⟨hc, c, ds, rfl, hd c rfl⟩
        obtain ⟨skipped, taken, rest, result, he, hr⟩ := hbegins.hasReading name
        rw [he]
        exact ⟨_, List.append_assoc .., .inTag hb hr⟩

/-- Every step is that of a reading. -/
theorem reads_next (l : Lexer) :
    ∃ r : Reading,
      r.source = l.rest ∧ Reads l.mode l.expectsName r ∧ l.next = r.step l.position := by
  obtain ⟨cs, p, m, name⟩ := l
  obtain ⟨r, rfl, hr⟩ := exists_reads m name cs
  exact ⟨r, rfl, hr, hr.next p⟩

theorem place_eq_ok_iff {q : Position} {r : Except LexFault Token} {p : Placed} :
    place q r = .ok p ↔ r = .ok p.token ∧ p.position = q := by
  obtain ⟨t, q'⟩ := p
  cases r <;> simp [place, eq_comm]

theorem place_eq_error_iff {q : Position} {r : Except LexFault Token} {e : LexError} :
    place q r = .error e ↔ r = .error e.fault ∧ e.position = q := by
  obtain ⟨f, q'⟩ := e
  cases r <;> simp [place, eq_comm]

section

variable {l m : Lexer}

theorem next_of_reads {r : Reading} (hl : l.rest = r.source) (h : Reads l.mode l.expectsName r) :
    l.next = r.step l.position := by
  obtain ⟨cs, p, m, name⟩ := l
  subst hl
  exact h.next p

theorem next_eq_ok_iff {p : Placed} :
    l.next = (.ok p, m) ↔ ∃ skipped taken, l.rest = skipped ++ (taken ++ m.rest) ∧
      p.position = l.position.after skipped ∧ m.position = p.position.after taken ∧
      Reads l.mode l.expectsName ⟨skipped, taken, m.rest, .ok p.token, m.mode, m.expectsName⟩ := by
  constructor
  · intro h
    obtain ⟨⟨skipped, taken, rest, result, mode, name⟩, hl, hr, hn⟩ := l.reads_next
    obtain ⟨hp, rfl⟩ := Prod.mk.inj (hn.symm.trans h)
    obtain ⟨rfl, hq⟩ := place_eq_ok_iff.1 hp
    exact ⟨skipped, taken, hl.symm, hq, by rw [hq], hr⟩
  · rintro ⟨skipped, taken, hl, hp, hm, hr⟩
    rw [next_of_reads hl hr, Reading.step, ← hp, ← hm]
    rfl

theorem next_eq_error_iff {e : LexError} :
    l.next = (.error e, m) ↔ ∃ skipped taken, l.rest = skipped ++ (taken ++ m.rest) ∧
      e.position = l.position.after skipped ∧ m.position = e.position.after taken ∧
      Reads l.mode l.expectsName
        ⟨skipped, taken, m.rest, .error e.fault, m.mode, m.expectsName⟩ := by
  constructor
  · intro h
    obtain ⟨⟨skipped, taken, rest, result, mode, name⟩, hl, hr, hn⟩ := l.reads_next
    obtain ⟨he, rfl⟩ := Prod.mk.inj (hn.symm.trans h)
    obtain ⟨rfl, hq⟩ := place_eq_error_iff.1 he
    exact ⟨skipped, taken, hl.symm, hq, by rw [hq], hr⟩
  · rintro ⟨skipped, taken, hl, hp, hm, hr⟩
    rw [next_of_reads hl hr, Reading.step, ← hp, ← hm]
    rfl

end

theorem ReadsInTag.taken_ne_nil {name : Bool} {skipped taken rest : List Char} {t : Token}
    (h : ReadsInTag name skipped taken rest (.ok t)) : taken ≠ [] := by
  cases h with
  | tagName _ hw =>
    obtain ⟨c, cs, rfl, -⟩ := hw.eq_cons
    exact List.cons_ne_nil c cs
  | number hw _ =>
    obtain ⟨c, cs, rfl, -⟩ := hw.eq_cons
    exact List.cons_ne_nil c cs
  | «variable» _ hw =>
    obtain ⟨c, cs, rfl, -⟩ := hw.eq_cons
    exact List.cons_ne_nil c cs
  | _ => exact List.cons_ne_nil _ _

theorem Reads.taken_ne_nil {m : Mode} {name : Bool} {r : Reading} {t : Token} (h : Reads m name r)
    (hr : r.result = .ok t) (ht : t ≠ .endOfInput) : r.taken ≠ [] := by
  cases h with
  | endOfInput =>
    cases hr
    contradiction
  | text _ _ hn _ => exact hn
  | inTag _ hi =>
    subst hr
    exact hi.taken_ne_nil
  | unterminated => contradiction
  | _ => exact List.cons_ne_nil _ _

/-- Every token but the end of the input takes at least one character. -/
theorem length_rest_next {l : Lexer} {t : Placed} (h : l.next.1 = .ok t)
    (ht : t.token ≠ .endOfInput) : l.next.2.rest.length < l.rest.length := by
  obtain ⟨skipped, taken, hl, -, -, hr⟩ :=
    next_eq_ok_iff.1 (Prod.ext h rfl : l.next = (.ok t, l.next.2))
  have hlen : 0 < taken.length := List.length_pos_iff.2 (hr.taken_ne_nil rfl ht)
  rw [hl, List.length_append, List.length_append]
  omega

/-- The steps from `l` on, after those in `done`, which come last first. -/
def stepsAfter (done : List Step) (l : Lexer) : List Step :=
  match _h : l.next with
  | (.error e, m) => ((.error e, m) :: done).reverse
  | (.ok t, m) =>
    if t.token = .endOfInput then ((.ok t, m) :: done).reverse
    else stepsAfter ((.ok t, m) :: done) m
termination_by l.rest.length
decreasing_by
  have := length_rest_next (l := l) (t := t) (by simp [_h]) (by assumption)
  simpa [_h] using this

/-- The steps from `l` on: each gives a token, but for the last, which gives the end of the input
or an error. -/
def steps (l : Lexer) : List Step := stepsAfter [] l

def calls : Nat → Lexer → List Step
  | 0, _ => []
  | n + 1, l => l.next :: calls n l.next.2

def results (source : List Char) : List (Except LexError Placed) :=
  (ofChars source .text).steps.map (·.1)

def isLast : Except LexError Placed → Bool
  | .ok p => decide (p.token = .endOfInput)
  | .error _ => true

theorem stepsAfter_append (before done : List Step) (l : Lexer) :
    stepsAfter (done ++ before) l = before.reverse ++ stepsAfter done l := by
  fun_induction stepsAfter done l with
  | case1 done l e m h =>
    rw [stepsAfter.eq_def]
    split <;> simp_all
  | case2 done l t m h ht =>
    rw [stepsAfter.eq_def]
    split <;> simp_all
  | case3 done l t m h ht ih =>
    rw [← ih, stepsAfter.eq_def]
    split <;> simp_all

theorem steps_of_error {l m : Lexer} {e : LexError} (h : l.next = (.error e, m)) :
    l.steps = [(.error e, m)] := by
  rw [steps, stepsAfter.eq_def]
  split <;> simp_all

theorem steps_of_end {l m : Lexer} {p : Placed} (h : l.next = (.ok p, m))
    (hp : p.token = .endOfInput) : l.steps = [(.ok p, m)] := by
  rw [steps, stepsAfter.eq_def]
  split <;> simp_all

theorem steps_of_token {l m : Lexer} {p : Placed} (h : l.next = (.ok p, m))
    (hp : p.token ≠ .endOfInput) : l.steps = (.ok p, m) :: m.steps := by
  have hs : stepsAfter [] l = stepsAfter ([] ++ [(.ok p, m)]) m := by
    rw [stepsAfter.eq_def]
    split <;> simp_all
  rw [steps, hs, stepsAfter_append]
  rfl

/-- From `l` on, the tokens are given one after the other, and `m` is left. -/
inductive Gives : Lexer → List Placed → Lexer → Prop where
  | nil (l : Lexer) : Gives l [] l
  | cons {l m n : Lexer} {p : Placed} {ps : List Placed} :
    l.next = (.ok p, m) → p.token ≠ .endOfInput → Gives m ps n → Gives l (p :: ps) n

theorem Gives.append {l m n : Lexer} {ps qs : List Placed} (hp : Gives l ps m)
    (hq : Gives m qs n) : Gives l (ps ++ qs) n := by
  induction hp with
  | nil => exact hq
  | cons h ht _ ih => exact .cons h ht (ih hq)

theorem Gives.steps {l m : Lexer} {ps : List Placed} (h : Gives l ps m) :
    l.steps.map (·.1) = ps.map .ok ++ m.steps.map (·.1) := by
  induction h with
  | nil => rfl
  | cons h ht _ ih => rw [steps_of_token h ht, List.map_cons, ih]; rfl

theorem Gives.ne_endOfInput {l m : Lexer} {ps : List Placed} (h : Gives l ps m) :
    ∀ p ∈ ps, p.token ≠ .endOfInput := by
  induction h with
  | nil => simp
  | cons _ ht _ ih =>
    intro q hq
    rcases List.mem_cons.1 hq with rfl | hq
    · exact ht
    · exact ih q hq

/-- What is left when nothing more is given: the end of the input, or an error. -/
inductive Ends : Lexer → Except LexError Placed → Prop where
  | endOfInput {l m : Lexer} {p : Placed} :
    l.next = (.ok p, m) → p.token = .endOfInput → Ends l (.ok p)
  | error {l m : Lexer} {e : LexError} : l.next = (.error e, m) → Ends l (.error e)

theorem Ends.steps {l : Lexer} {r : Except LexError Placed} (h : Ends l r) :
    l.steps.map (·.1) = [r] := by
  cases h with
  | endOfInput h hp => rw [steps_of_end h hp]; rfl
  | error h => rw [steps_of_error h]; rfl

theorem exists_ends (l : Lexer) : ∃ ps m r, Gives l ps m ∧ Ends m r := by
  generalize hn : l.rest.length = n
  induction n using Nat.strongRecOn generalizing l with
  | ind n ih =>
    rcases h : l.next with ⟨e | p, m⟩
    · exact ⟨[], l, .error e, .nil l, .error h⟩
    · by_cases hp : p.token = .endOfInput
      · exact ⟨[], l, .ok p, .nil l, .endOfInput h hp⟩
      · have hlt := length_rest_next (l := l) (t := p) (by rw [h]) hp
        rw [h] at hlt
        obtain ⟨ps, k, r, hg, he⟩ := ih m.rest.length (by simpa [hn] using hlt) m rfl
        exact ⟨p :: ps, k, r, .cons h hp hg, he⟩

theorem Gives.ends {l m : Lexer} {ps : List Placed} {r : Except LexError Placed}
    (hg : Gives l ps m) (he : Ends m r) : l.steps.map (·.1) = ps.map .ok ++ [r] := by
  rw [hg.steps, he.steps]

theorem steps_of_calls {l : Lexer} {n : Nat} {ps : List Placed} {p : Placed}
    (h : (calls n l).map (·.1) = (ps ++ [p]).map .ok) (hps : ∀ q ∈ ps, q.token ≠ .endOfInput)
    (hp : p.token = .endOfInput) : l.steps.map (·.1) = (ps ++ [p]).map .ok := by
  induction ps generalizing l n with
  | nil =>
    cases n with
    | zero => contradiction
    | succ n =>
      rcases hn : l.next with ⟨r, m⟩
      simp only [calls, hn, List.map_cons, List.nil_append, List.map_nil, List.cons.injEq] at h
      rw [steps_of_end (hn.trans (by rw [h.1])) hp]
      rfl
  | cons q ps ih =>
    cases n with
    | zero => contradiction
    | succ n =>
      rcases hn : l.next with ⟨r, m⟩
      simp only [calls, hn, List.map_cons, List.cons_append, List.cons.injEq] at h
      rw [List.forall_mem_cons] at hps
      rw [steps_of_token (hn.trans (by rw [h.1])) hps.1, List.map_cons, ih h.2 hps.2]
      rfl

end Lexer

/-- The source is made of the tokens `ts`, up to its end. -/
def Lexes (source : List Char) (ts : List Token) : Prop :=
  ∃ (ps : List Placed) (p : Placed), ps.map (·.token) = ts ∧ p.token = .endOfInput ∧
    Lexer.results source = (ps ++ [p]).map .ok

structure Feed where
  lexer : Lexer
  finished : Bool

namespace Feed

def ofChars (source : List Char) (mode : Mode) : Feed := ⟨.ofChars source mode, false⟩

/-- What is given next, and nothing once the feed is finished. -/
def next? (f : Feed) : Option (Except LexError Placed) × Feed :=
  if f.finished then (none, f)
  else (some f.lexer.next.1, ⟨f.lexer.next.2, Lexer.isLast f.lexer.next.1⟩)

def after (f : Feed) : Nat → Feed
  | 0 => f
  | n + 1 => f.next?.2.after n

def item? (f : Feed) (n : Nat) : Option (Except LexError Placed) := (f.after n).next?.1

end Feed

end Stencil
