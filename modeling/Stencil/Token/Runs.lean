import Stencil.Token.Lexer

set_option autoImplicit false

namespace Stencil

namespace Lexer

/-- No character of the class `f` is next. -/
def BreaksOff (f : Char → Bool) (rest : List Char) : Prop := ∀ c ∈ rest.head?, f c = false

section

variable {f : Char → Bool} {cs rest : List Char}

@[simp] theorem breaksOff_nil : BreaksOff f [] := by simp [BreaksOff]

@[simp] theorem breaksOff_cons {c : Char} : BreaksOff f (c :: cs) ↔ f c = false := by
  simp [BreaksOff]

theorem BreaksOff.takeWhile (hb : BreaksOff f rest) (h : ∀ c ∈ cs, f c = true) :
    (cs ++ rest).takeWhile f = cs := by
  rw [List.takeWhile_append_of_pos h]
  cases rest with
  | nil => simp
  | cons c rest => simp [hb c rfl]

theorem BreaksOff.mono {g : Char → Bool} (hb : BreaksOff f rest)
    (h : ∀ c, g c = true → f c = true) : BreaksOff g rest := by
  intro c hc
  have := hb c hc
  cases hg : g c with
  | false => rfl
  | true => simp [h c hg] at this

theorem breaksOff_dropWhile (f : Char → Bool) (cs : List Char) : BreaksOff f (cs.dropWhile f) := by
  induction cs with
  | nil => simp [BreaksOff]
  | cons c cs ih =>
    cases hc : f c with
    | false => simp [BreaksOff, hc]
    | true => simpa [hc] using ih

theorem drop_append (ds : List Char) (p : Position) (m : Mode) (name : Bool) :
    drop ⟨cs ++ ds, p, m, name⟩ cs.length = ⟨ds, p.after cs, m, name⟩ := by
  simp [drop]

end

section

variable {c d : Char} {cs ds : List Char}

theorem eq_of_opensTag (h : opensTag cs = true) : ∃ ds, cs = '{' :: '$' :: ds := by
  unfold opensTag at h
  split at h
  · exact ⟨_, rfl⟩
  · contradiction

theorem eq_of_closesTag (h : closesTag cs = true) : ∃ ds, cs = '$' :: '}' :: ds := by
  unfold closesTag at h
  split at h
  · exact ⟨_, rfl⟩
  · contradiction

theorem opensTag_cons (hc : c ≠ '{') : opensTag (c :: cs) = false := by
  unfold opensTag
  split <;> simp_all

theorem opensTag_cons_cons : opensTag (c :: d :: cs) = decide (c = '{' ∧ d = '$') := by
  unfold opensTag
  split <;> simp_all

theorem closesTag_cons (hc : c ≠ '$') : closesTag (c :: cs) = false := by
  unfold closesTag
  split <;> simp_all

theorem startsNumber_cons (hc : c ≠ '-') : startsNumber (c :: cs) = c.isDigit := by
  simp [startsNumber, hc]

theorem startsNumber_cons_cons :
    startsNumber (c :: d :: cs) = if c = '-' then d.isDigit else c.isDigit := by
  by_cases hc : c = '-'
  · subst hc
    rfl
  · simp [startsNumber, hc]

theorem isDigit_or_eq_of_startsNumber (h : startsNumber (c :: cs) = true) :
    c.isDigit = true ∨ c = '-' := by
  by_cases hc : c = '-'
  · exact .inr hc
  · exact .inl (startsNumber_cons hc ▸ h)

theorem isDigit_of_startsNumber (h : startsNumber (c :: cs) = false) : c.isDigit = false := by
  by_cases hc : c = '-'
  · rw [hc]
    rfl
  · rwa [startsNumber_cons hc] at h

theorem startsNumber_of_breaksOff (hc : c.isDigit = false) (h : BreaksOff isNumeric cs) :
    startsNumber (c :: cs) = false := by
  cases cs with
  | nil => simp [startsNumber, hc]
  | cons d ds =>
    rw [startsNumber_cons_cons, hc]
    cases hd : d.isDigit with
    | false => simp
    | true => simp [isNumeric, Text.isWord_of_isDigit hd] at h

theorem startsNumber_append (h : startsNumber cs = true) (ds : List Char) :
    startsNumber (cs ++ ds) = true := by
  unfold startsNumber at h
  split at h
  · exact h
  · rename_i hc
    rename_i c cs
    by_cases hm : c = '-'
    · subst hm
      contradiction
    · rwa [List.cons_append, startsNumber_cons hm]
  · contradiction

end

/-- No tag opens where `cs` ends and `es` begins. -/
def Seam (cs es : List Char) : Prop := cs.getLast? = some '{' → es.head? ≠ some '$'

theorem Seam.suffix {cs ds es : List Char} (h : Seam cs es) (hd : ds <:+ cs) : Seam ds es := by
  intro hl
  obtain ⟨bs, rfl⟩ := hd
  exact h (by simp [List.getLast?_append, hl])

theorem seam_nil (cs : List Char) : Seam cs [] := by
  intro _ h
  contradiction

theorem Seam.opensTag {c : Char} {cs es : List Char} (h : Seam (c :: cs) es)
    (ho : opensTag (c :: cs) = false) : Lexer.opensTag (c :: (cs ++ es)) = false := by
  cases cs with
  | nil =>
    cases es with
    | nil => exact ho
    | cons e es =>
      have he : ¬(c = '{' ∧ e = '$') := by simpa [Seam] using h
      rw [List.nil_append, opensTag_cons_cons, decide_eq_false he]
  | cons d cs => rwa [List.cons_append, opensTag_cons_cons, ← @opensTag_cons_cons c d cs]

/-- Text in which no tag opens, and the characters that it stands for. -/
inductive TextRun : List Char → List Char → Prop where
  | nil : TextRun [] []
  | plain {c : Char} {cs ds : List Char} : c ≠ '\\' → opensTag (c :: cs) = false →
    TextRun cs ds → TextRun (c :: cs) (c :: ds)
  | escaped {c : Char} {cs ds : List Char} : c = '{' ∨ c = '\\' → TextRun cs ds →
    TextRun ('\\' :: c :: cs) (c :: ds)

/-- The inside of a string, and the characters that it stands for. -/
inductive StringRun : List Char → List Char → Prop where
  | nil : StringRun [] []
  | plain {c : Char} {cs ds : List Char} : c ≠ '"' → c ≠ '\\' → StringRun cs ds →
    StringRun (c :: cs) (c :: ds)
  | escaped {c d : Char} {cs ds : List Char} : unescape? c = some d → StringRun cs ds →
    StringRun ('\\' :: c :: cs) (d :: ds)

def EndsText (rest : List Char) : Prop := rest = [] ∨ opensTag rest = true

theorem EndsText.seam {rest : List Char} (h : EndsText rest) (cs : List Char) : Seam cs rest := by
  rcases h with rfl | h
  · exact seam_nil cs
  · obtain ⟨ds, rfl⟩ := eq_of_opensTag h
    simp [Seam]

/-- A backslash before `next` escapes nothing between tags. -/
def IsWrong (next : Option Char) (rest : List Char) : Prop :=
  (∀ c ∈ next, c ≠ '{' ∧ c ≠ '\\') ∧ (next = none → rest = [])

namespace TextRun

variable {cs ds rest : List Char}

theorem opensTag (h : TextRun cs ds) (hn : cs ≠ []) (hs : Seam cs rest) :
    opensTag (cs ++ rest) = false := by
  cases h with
  | nil => contradiction
  | plain _ ho _ => exact hs.opensTag ho
  | escaped _ _ => exact opensTag_cons (by decide)

theorem readText (h : TextRun cs ds) (hs : Seam cs rest) (p : Position) (taken : List Char) :
    readText p taken (cs ++ rest) = Lexer.readText (p.after cs) (ds.reverse ++ taken) rest := by
  induction h generalizing p taken with
  | nil => rfl
  | @plain c cs ds hc ho h ih =>
    have ho' := hs.opensTag ho
    rw [List.cons_append, Lexer.readText.eq_def]
    simp only [ho', hc, Bool.false_eq_true, if_false]
    rw [ih (hs.suffix (List.suffix_cons c cs))]
    simp [Position.after]
  | @escaped c cs ds hc h ih =>
    have ho : Lexer.opensTag ('\\' :: c :: (cs ++ rest)) = false := opensTag_cons (by decide)
    rw [List.cons_append, List.cons_append, Lexer.readText.eq_def]
    simp only [ho, hc, Bool.false_eq_true, if_false, if_true]
    rw [ih (hs.suffix (List.suffix_append ['\\', c] cs))]
    simp [Position.after]

end TextRun

theorem readText_of_endsText {rest : List Char} (h : EndsText rest) (p : Position)
    (taken : List Char) : readText p taken rest = ⟨.ok taken.reverse, p, rest⟩ := by
  rcases h with rfl | h
  · rfl
  · obtain ⟨ds, rfl⟩ := eq_of_opensTag h
    rw [readText.eq_def]
    simp [h]

theorem readText_of_isWrong {next : Option Char} {rest : List Char} (h : IsWrong next rest)
    (p : Position) (taken : List Char) :
    readText p taken ('\\' :: (next.toList ++ rest)) =
      ⟨.error ⟨.invalidEscape next, p⟩, p.after ('\\' :: next.toList), rest⟩ := by
  obtain ⟨hn, hr⟩ := h
  rw [readText.eq_def]
  cases next with
  | none => simp [hr rfl, opensTag_cons, Position.after]
  | some d =>
    have hd := hn d rfl
    simp [hd, opensTag_cons, Position.after]

theorem exists_textRun : ∀ cs : List Char, ∃ as ds rest, cs = as ++ rest ∧ TextRun as ds ∧
    (EndsText rest ∨
      ∃ next rest', rest = '\\' :: (next.toList ++ rest') ∧ IsWrong next rest')
  | [] => ⟨[], [], [], rfl, .nil, .inl (.inl rfl)⟩
  | c :: cs => by
    by_cases ho : opensTag (c :: cs) = true
    · exact ⟨[], [], c :: cs, rfl, .nil, .inl (.inr ho)⟩
    by_cases hc : c = '\\'
    · subst hc
      match cs with
      | [] => exact ⟨[], [], ['\\'], rfl, .nil, .inr ⟨none, [], rfl, by simp [IsWrong]⟩⟩
      | d :: cs =>
        by_cases hd : d = '{' ∨ d = '\\'
        · obtain ⟨as, ds, rest, rfl, h, hrest⟩ := exists_textRun cs
          exact ⟨'\\' :: d :: as, d :: ds, rest, rfl, .escaped hd h, hrest⟩
        · refine ⟨[], [], '\\' :: d :: cs, rfl, .nil, .inr ⟨some d, cs, rfl, ?_⟩⟩
          simpa [IsWrong, not_or] using hd
    · obtain ⟨as, ds, rest, rfl, h, hrest⟩ := exists_textRun cs
      refine ⟨c :: as, c :: ds, rest, rfl, .plain hc ?_ h, hrest⟩
      cases as with
      | nil => simp [opensTag]
      | cons a as => simpa [opensTag_cons_cons] using ho

namespace StringRun

variable {cs ds : List Char}

theorem readString (h : StringRun cs ds) (rest : List Char) (o p : Position)
    (taken : List Char) :
    readString o p taken (cs ++ rest) =
      Lexer.readString o (p.after cs) (ds.reverse ++ taken) rest := by
  induction h generalizing p taken with
  | nil => rfl
  | plain hq hb _ ih =>
    rw [List.cons_append, Lexer.readString.eq_def]
    simp only [hq, hb, if_false]
    rw [ih]
    simp [Position.after]
  | escaped hd _ ih =>
    rw [List.cons_append, List.cons_append, Lexer.readString.eq_def]
    simp only [hd, if_true, show '\\' ≠ '"' by decide, if_false]
    rw [ih]
    simp [Position.after]

end StringRun

theorem readString_quote {ds taken : List Char} {o p : Position} :
    readString o p taken ('"' :: ds) = ⟨.ok taken.reverse, p.step '"', ds⟩ := by
  rw [readString.eq_def]
  simp

theorem readString_of_end {tail taken : List Char} (h : tail = [] ∨ tail = ['\\'])
    (o p : Position) :
    readString o p taken tail = ⟨.error ⟨.unterminatedString, o⟩, p.after tail, []⟩ := by
  rcases h with rfl | rfl
  · rfl
  · rfl

theorem readString_of_wrong {c : Char} {ds taken : List Char} (h : unescape? c = none)
    (o p : Position) :
    readString o p taken ('\\' :: c :: ds) =
      ⟨.error ⟨.invalidEscape (some c), p⟩, (p.step '\\').step c, ds⟩ := by
  rw [readString.eq_def]
  simp [h]

theorem exists_stringRun : ∀ cs : List Char, ∃ as ds rest, cs = as ++ rest ∧ StringRun as ds ∧
    (rest = [] ∨ rest = ['\\'] ∨ (∃ es, rest = '"' :: es) ∨
      ∃ c es, rest = '\\' :: c :: es ∧ unescape? c = none)
  | [] => ⟨[], [], [], rfl, .nil, .inl rfl⟩
  | c :: cs => by
    by_cases hq : c = '"'
    · subst hq
      exact ⟨[], [], _, rfl, .nil, .inr (.inr (.inl ⟨cs, rfl⟩))⟩
    by_cases hb : c = '\\'
    · subst hb
      match cs with
      | [] => exact ⟨[], [], _, rfl, .nil, .inr (.inl rfl)⟩
      | d :: cs =>
        cases hd : unescape? d with
        | none => exact ⟨[], [], _, rfl, .nil, .inr (.inr (.inr ⟨d, cs, rfl, hd⟩))⟩
        | some e =>
          obtain ⟨as, ds, rest, rfl, h, hrest⟩ := exists_stringRun cs
          exact ⟨'\\' :: d :: as, e :: ds, rest, rfl, .escaped hd h, hrest⟩
    · obtain ⟨as, ds, rest, rfl, h, hrest⟩ := exists_stringRun cs
      exact ⟨c :: as, c :: ds, rest, rfl, .plain hq hb h, hrest⟩

end Lexer

end Stencil
