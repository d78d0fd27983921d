import Stencil.Token.Runs

/-!
The steps of the lexer as a relation between the characters before a step and what it gives. Each
function of the lexer has one spec, from this relation; what else is said of a step is read off the
relation.
-/

set_option autoImplicit false

namespace Stencil

namespace Text

def AllBlank (cs : List Char) : Prop := ∀ c ∈ cs, isBlank c = true

end Text

namespace Lexer

/-- A maximal word that begins as a number. -/
structure NumberWord (w rest : List Char) : Prop where
  starts : startsNumber w = true
  inside : ∀ c ∈ w.tail, isNumeric c = true
  ends : BreaksOff isNumeric rest

/-- A maximal word that begins with a letter. -/
structure NameWord (w rest : List Char) : Prop where
  starts : w.head?.any Text.isLetter = true
  inside : ∀ c ∈ w, Text.isWord c = true
  ends : BreaksOff Text.isWord rest

structure IsStray (name : Bool) (c : Char) (rest : List Char) : Prop where
  blank : Text.isBlank c = false
  closes : closesTag (c :: rest) = false
  number : startsNumber (c :: rest) = false
  quote : c ≠ '"'
  sign : c ≠ '@'
  letter : Text.isLetter c = false
  operator : Operator.ofSymbol? c = none
  echo : name = true → c ≠ '='

/-- What is read in a tag before its end where no blank stands: the characters before the place of
the result, those that are passed from there on, those that are left, and the result. A name is
read only where one is expected. -/
inductive ReadsInTag (name : Bool) :
    List Char → List Char → List Char → Except LexFault Token → Prop where
  | echo {rest : List Char} : name = true → ReadsInTag name [] ['='] rest (.ok (.tagName "="))
  | tagName {w rest : List Char} : name = true → NameWord w rest →
    ReadsInTag name [] w rest (.ok (.tagName (String.ofList (Text.upperCase w))))
  | number {w rest : List Char} {n : Number} : NumberWord w rest →
    (Numeral.read? w).bind Numeral.literal? = some n →
    ReadsInTag name [] w rest (.ok (.number n))
  | invalidNumber {w rest : List Char} : NumberWord w rest →
    (Numeral.read? w).bind Numeral.literal? = none →
    ReadsInTag name [] w rest (.error (.invalidNumber (String.ofList w)))
  | string {cs ds rest : List Char} : StringRun cs ds →
    ReadsInTag name [] ('"' :: (cs ++ ['"'])) rest (.ok (.string (String.ofList ds)))
  | unterminated {cs ds tail : List Char} : StringRun cs ds → tail = [] ∨ tail = ['\\'] →
    ReadsInTag name [] ('"' :: (cs ++ tail)) [] (.error .unterminatedString)
  | escape {cs ds rest : List Char} {c : Char} : StringRun cs ds → unescape? c = none →
    ReadsInTag name ('"' :: cs) ['\\', c] rest (.error (.invalidEscape (some c)))
  | function {w rest : List Char} : NameWord w rest →
    ReadsInTag name [] ('@' :: w) rest (.ok (.function (String.ofList w)))
  | «variable» {w rest : List Char} : name = false → NameWord w rest →
    ReadsInTag name [] w rest (.ok (.variable (String.ofList w)))
  | operator {c : Char} {rest : List Char} : (Operator.ofSymbol? c).isSome = true →
    startsNumber (c :: rest) = false → ReadsInTag name [] [c] rest (.ok (.operator c))
  | nameless {rest : List Char} : BreaksOff Text.isLetter rest →
    ReadsInTag name [] ['@'] rest (.error (.unexpectedChar '@'))
  | stray {c : Char} {rest : List Char} : IsStray name c rest →
    ReadsInTag name [] [] (c :: rest) (.error (.unexpectedChar c))

/-- What a step makes of the characters before it: those before the place of its result, those that
it passes from there on, those that it leaves, and how it goes on. -/
structure Reading where
  skipped : List Char
  taken : List Char
  rest : List Char
  result : Except LexFault Token
  mode : Mode
  expectsName : Bool

/-- The steps of a lexer by its mode and whether it expects a name. -/
inductive Reads : Mode → Bool → Reading → Prop where
  | endOfInput (name : Bool) : Reads .text name ⟨[], [], [], .ok .endOfInput, .text, name⟩
  | tagOpen (name : Bool) (rest : List Char) :
    Reads .text name ⟨[], ['{', '$'], rest, .ok .tagOpen, .tag, true⟩
  | text {cs ds rest : List Char} (name : Bool) : TextRun cs ds → cs ≠ [] → EndsText rest →
    Reads .text name ⟨[], cs, rest, .ok (.text (String.ofList ds)), .text, name⟩
  | escape {cs ds rest : List Char} {next : Option Char} (name : Bool) : TextRun cs ds →
    IsWrong next rest →
    Reads .text name ⟨cs, '\\' :: next.toList, rest, .error (.invalidEscape next), .text, name⟩
  | unterminated {bs : List Char} (name : Bool) : Text.AllBlank bs →
    Reads .tag name ⟨bs, [], [], .error .unterminatedTag, .tag, name⟩
  | tagClose {bs : List Char} (name : Bool) (rest : List Char) : Text.AllBlank bs →
    Reads .tag name ⟨bs, ['$', '}'], rest, .ok .tagClose, .text, false⟩
  | inTag {bs skipped taken rest : List Char} {name : Bool} {result : Except LexFault Token} :
    Text.AllBlank bs → ReadsInTag name skipped taken rest result →
    Reads .tag name ⟨bs ++ skipped, taken, rest, result, .tag, false⟩

theorem Reads.item {bs taken rest : List Char} {name : Bool} {result : Except LexFault Token}
    (hb : Text.AllBlank bs) (h : ReadsInTag name [] taken rest result) :
    Reads .tag name ⟨bs, taken, rest, result, .tag, false⟩ := by
  simpa using Reads.inTag hb h

def place (p : Position) : Except LexFault Token → Except LexError Placed
  | .ok t => .ok ⟨t, p⟩
  | .error f => .error ⟨f, p⟩

namespace Reading

def source (r : Reading) : List Char := r.skipped ++ (r.taken ++ r.rest)

def step (r : Reading) (p : Position) : Step :=
  (place (p.after r.skipped) r.result,
    ⟨r.rest, (p.after r.skipped).after r.taken, r.mode, r.expectsName⟩)

end Reading

theorem NameWord.eq_cons {w rest : List Char} (h : NameWord w rest) :
    ∃ c cs, w = c :: cs ∧ Text.isLetter c = true := by
  have hs := h.starts
  cases w with
  | nil => contradiction
  | cons c cs => exact ⟨c, cs, rfl, hs⟩

theorem NumberWord.eq_cons {w rest : List Char} (h : NumberWord w rest) :
    ∃ c cs, w = c :: cs ∧ (c.isDigit = true ∨ c = '-') := by
  have hs := h.starts
  cases w with
  | nil => contradiction
  | cons c cs => exact ⟨c, cs, rfl, isDigit_or_eq_of_startsNumber hs⟩

theorem ne_of_isLetter {c d : Char} (h : Text.isLetter c = true)
    (hd : Text.isLetter d = false := by decide) : c ≠ d := by
  rintro rfl
  rw [h] at hd
  contradiction

theorem startsNumber_of_isLetter {c : Char} (h : Text.isLetter c = true) (cs : List Char) :
    startsNumber (c :: cs) = false := by
  have hd : c.isDigit = false := by
    cases hd : c.isDigit with
    | false => rfl
    | true => simp [Text.isLetter_of_isDigit hd] at h
  rw [startsNumber_cons (ne_of_isLetter h), hd]

theorem nextWord_append {w rest : List Char} (h : NameWord w rest) (skip : List Char)
    (token : List Char → Token) (p : Position) (m : Mode) (name : Bool) :
    nextWord ⟨skip ++ (w ++ rest), p, m, name⟩ skip.length token =
      (.ok ⟨token w, p⟩, ⟨rest, p.after (skip ++ w), m, name⟩) := by
  simp only [nextWord, List.drop_left, h.ends.takeWhile h.inside]
  rw [← List.append_assoc, ← List.length_append, drop_append]

theorem nextItem_number {w rest : List Char} (h : NumberWord w rest) (p : Position) (m : Mode) :
    nextItem ⟨w ++ rest, p, m, false⟩ =
      (match (Numeral.read? w).bind Numeral.literal? with
        | some n => .ok ⟨.number n, p⟩
        | none => .error ⟨.invalidNumber (String.ofList w), p⟩,
        ⟨rest, p.after w, m, false⟩) := by
  obtain ⟨c, cs, rfl, -⟩ := h.eq_cons
  have hs : startsNumber (c :: (cs ++ rest)) = true := startsNumber_append h.starts rest
  have ht : (cs ++ rest).takeWhile isNumeric = cs := h.ends.takeWhile h.inside
  have hd : drop ⟨c :: (cs ++ rest), p, m, false⟩ (c :: cs).length = _ := drop_append ..
  simp only [nextItem, List.cons_append, hs, if_true, nextNumber, ht, hd]
  cases (Numeral.read? (c :: cs)).bind Numeral.literal? with
  | some n => rfl
  | none => rfl

theorem nextItem_string {cs ds : List Char} (h : StringRun cs ds) (tail : List Char) (p : Position)
    (m : Mode) :
    nextItem ⟨'"' :: (cs ++ tail), p, m, false⟩ =
      let s := readString p (p.after ('"' :: cs)) ds.reverse tail
      (s.result.map fun es => ⟨.string (String.ofList es), p⟩, ⟨s.rest, s.position, m, false⟩) := by
  have hs : startsNumber ('"' :: (cs ++ tail)) = false := startsNumber_cons (by decide)
  have hr := h.readString tail p (p.step '"') []
  rw [List.append_nil] at hr
  have hd : drop ⟨'"' :: (cs ++ tail), p, m, false⟩ 1 = ⟨cs ++ tail, p.step '"', m, false⟩ := rfl
  simp only [nextItem, hs, Bool.false_eq_true, if_false, if_true, nextString, hd, hr]
  rfl

def BeginsInTag (cs : List Char) : Prop :=
  closesTag cs = false ∧ ∃ c ds, cs = c :: ds ∧ Text.isBlank c = false

theorem BeginsInTag.of_cons {c : Char} (hb : Text.isBlank c = false) (hc : c ≠ '$')
    (cs : List Char) : BeginsInTag (c :: cs) :=
  ⟨closesTag_cons hc, c, cs, rfl, hb⟩

theorem NameWord.beginsInTag {w rest : List Char} (h : NameWord w rest) :
    BeginsInTag (w ++ rest) := by
  obtain ⟨c, cs, rfl, hc⟩ := h.eq_cons
  exact .of_cons (Text.isBlank_of_isLetter hc) (ne_of_isLetter hc) _

theorem NumberWord.beginsInTag {w rest : List Char} (h : NumberWord w rest) :
    BeginsInTag (w ++ rest) := by
  obtain ⟨c, cs, rfl, hc⟩ := h.eq_cons
  rcases hc with hc | rfl
  · refine .of_cons (Text.isBlank_of_isDigit hc) ?_ _
    rintro rfl
    contradiction
  · exact .of_cons (by decide) (by decide) _

theorem operator_is_none_else {c : Char} (h : (Operator.ofSymbol? c).isSome = true) :
    Text.isBlank c = false ∧ Text.isLetter c = false ∧ c ≠ '$' ∧ c ≠ '"' ∧ c ≠ '@' ∧ c ≠ '=' := by
  unfold Operator.ofSymbol? at h
  split at h <;> first | contradiction | decide

theorem not_named_of_number {c : Char} (h : c.isDigit = true ∨ c = '-') :
    c ≠ '=' ∧ Text.isLetter c = false := by
  rcases h with h | rfl
  · refine ⟨?_, Text.isLetter_of_isDigit h⟩
    rintro rfl
    contradiction
  · decide

namespace ReadsInTag

variable {name : Bool} {skipped taken rest : List Char} {result : Except LexFault Token}

theorem beginsInTag (h : ReadsInTag name skipped taken rest result) :
    BeginsInTag (skipped ++ (taken ++ rest)) := by
  cases h with
  | echo => exact .of_cons (by decide) (by decide) _
  | tagName _ hw => exact hw.beginsInTag
  | number hw _ => exact hw.beginsInTag
  | invalidNumber hw _ => exact hw.beginsInTag
  | string => exact .of_cons (by decide) (by decide) _
  | unterminated => exact .of_cons (by decide) (by decide) _
  | escape => exact .of_cons (by decide) (by decide) _
  | function => exact .of_cons (by decide) (by decide) _
  | «variable» _ hw => exact hw.beginsInTag
  | operator ho _ =>
    obtain ⟨hb, -, hc, -⟩ := operator_is_none_else ho
    exact .of_cons hb hc _
  | nameless => exact .of_cons (by decide) (by decide) _
  | stray hs => exact ⟨hs.closes, _, _, rfl, hs.blank⟩

theorem nextItem (h : ReadsInTag false skipped taken rest result) (p : Position) (m : Mode) :
    nextItem ⟨skipped ++ (taken ++ rest), p, m, false⟩ =
      (place (p.after skipped) result, ⟨rest, (p.after skipped).after taken, m, false⟩) := by
  cases h with
  | echo hn => contradiction
  | tagName hn => contradiction
  | number hw hr =>
    rw [List.nil_append, nextItem_number hw, hr]
    rfl
  | invalidNumber hw hr =>
    rw [List.nil_append, nextItem_number hw, hr]
    rfl
  | string hr =>
    rw [List.nil_append, List.cons_append, List.append_assoc, nextItem_string hr]
    simp [readString_quote, Position.after, place, Except.map]
  | unterminated hr ht =>
    rw [List.nil_append, List.append_nil, nextItem_string hr, readString_of_end ht]
    simp [Position.after, place, Except.map]
  | escape hr hc =>
    rw [List.cons_append, nextItem_string hr, List.cons_append, List.cons_append, List.nil_append,
      readString_of_wrong hc]
    rfl
  | @function w _ hw =>
    have hn := nextWord_append hw ['@'] (fun cs => .function (String.ofList cs)) p m false
    obtain ⟨c, cs, rfl, hc⟩ := hw.eq_cons
    have hs : startsNumber ('@' :: c :: (cs ++ rest)) = false := startsNumber_cons (by decide)
    simp only [Lexer.nextItem, List.nil_append, List.cons_append, hs, Bool.false_eq_true, if_false,
      show '@' ≠ '"' by decide, if_true, List.head?_cons, Option.any_some, hc]
    exact hn
  | «variable» _ hw =>
    have hn := nextWord_append hw [] (fun cs => .variable (String.ofList cs)) p m false
    obtain ⟨c, cs, rfl, hc⟩ := hw.eq_cons
    have hq : c ≠ '"' := ne_of_isLetter hc
    have ha : c ≠ '@' := ne_of_isLetter hc
    simp only [Lexer.nextItem, List.nil_append, List.cons_append, startsNumber_of_isLetter hc, hq,
      ha, hc, if_true, if_false, Bool.false_eq_true]
    exact hn
  | operator ho hs =>
    obtain ⟨-, hl, -, hq, ha, -⟩ := operator_is_none_else ho
    simp [Lexer.nextItem, hs, hq, ha, hl, ho, drop, Position.after, place]
  | nameless hl =>
    have hs : startsNumber ('@' :: rest) = false := startsNumber_cons (by decide)
    have hf : rest.head?.any Text.isLetter = false := by
      cases rest with
      | nil => rfl
      | cons c rest => exact hl c rfl
    simp [Lexer.nextItem, hs, hf, drop, Position.after, place]
  | stray hs =>
    simp [Lexer.nextItem, hs.number, hs.quote, hs.sign, hs.letter, hs.operator, Position.after,
      place]

theorem nextName (h : ReadsInTag true skipped taken rest result) (p : Position) (m : Mode) :
    nextName ⟨skipped ++ (taken ++ rest), p, m, true⟩ =
      (place (p.after skipped) result, ⟨rest, (p.after skipped).after taken, m, false⟩) := by
  -- What does not begin as a name is read as where none is expected.
  have item {s t : List Char} {c : Char} {cs : List Char} {r : Except LexFault Token}
      (h : ReadsInTag false s t rest r) (hcs : s ++ (t ++ rest) = c :: cs)
      (hc : c ≠ '=' ∧ Text.isLetter c = false) :
      Lexer.nextName ⟨s ++ (t ++ rest), p, m, true⟩ =
        (place (p.after s) r, ⟨rest, (p.after s).after t, m, false⟩) := by
    rw [← h.nextItem p m, hcs, Lexer.nextName]
    simp [hc.1, hc.2]
  cases h with
  | echo => rfl
  | tagName _ hw =>
    have hn := nextWord_append hw [] (fun cs => .tagName (String.ofList (Text.upperCase cs))) p m
      false
    obtain ⟨c, cs, rfl, hc⟩ := hw.eq_cons
    have he : c ≠ '=' := ne_of_isLetter hc
    simp only [Lexer.nextName, List.nil_append, List.cons_append, he, hc, if_true, if_false]
    exact hn
  | number hw hr =>
    obtain ⟨c, cs, rfl, hc⟩ := hw.eq_cons
    exact item (.number hw hr) rfl (not_named_of_number hc)
  | invalidNumber hw hr =>
    obtain ⟨c, cs, rfl, hc⟩ := hw.eq_cons
    exact item (.invalidNumber hw hr) rfl (not_named_of_number hc)
  | string hr => exact item (.string hr) rfl (by decide)
  | unterminated hr ht => exact item (.unterminated hr ht) rfl (by decide)
  | escape hr hc => exact item (.escape hr hc) rfl (by decide)
  | function hw => exact item (.function hw) rfl (by decide)
  | «variable» hn => contradiction
  | operator ho hs =>
    obtain ⟨-, hl, -, -, -, he⟩ := operator_is_none_else ho
    exact item (.operator ho hs) rfl ⟨he, hl⟩
  | nameless hl => exact item (.nameless hl) rfl (by decide)
  | stray hs =>
    exact item (.stray { hs with echo := by simp }) rfl ⟨hs.echo rfl, hs.letter⟩

end ReadsInTag

theorem nextInTag_blanks {bs : List Char} (hb : Text.AllBlank bs) (cs : List Char) (p : Position)
    (name : Bool) :
    nextInTag ⟨bs ++ cs, p, .tag, name⟩ = nextInTag ⟨cs, p.after bs, .tag, name⟩ := by
  have hd : dropWhile ⟨bs ++ cs, p, .tag, name⟩ Text.isBlank =
      dropWhile ⟨cs, p.after bs, .tag, name⟩ Text.isBlank := by
    simp [dropWhile, drop, List.takeWhile_append_of_pos hb, List.take_length_add_append,
      Position.after_append]
  rw [nextInTag, nextInTag, hd]

theorem nextInTag_of_begins {cs : List Char} (h : BeginsInTag cs) (p : Position) (name : Bool) :
    nextInTag ⟨cs, p, .tag, name⟩ =
      if name then nextName ⟨cs, p, .tag, name⟩ else nextItem ⟨cs, p, .tag, name⟩ := by
  obtain ⟨hc, c, ds, rfl, hb⟩ := h
  simp [nextInTag, dropWhile, drop, hb, hc, Position.after]

theorem Reads.nextInTag {name : Bool} {r : Reading} (h : Reads .tag name r) (p : Position) :
    nextInTag ⟨r.source, p, .tag, name⟩ = r.step p := by
  cases h with
  | unterminated _ hb =>
    rw [Reading.source, List.append_nil, nextInTag_blanks hb]
    rfl
  | tagClose _ rest hb =>
    rw [Reading.source, nextInTag_blanks hb]
    have hd : Text.isBlank '$' = false := by decide
    simp [Lexer.nextInTag, dropWhile, drop, hd, closesTag, Reading.step, place, Position.after]
  | inTag hb hi =>
    rw [Reading.source, List.append_assoc, nextInTag_blanks hb, nextInTag_of_begins hi.beginsInTag,
      Reading.step, Position.after_append]
    cases name with
    | true => exact hi.nextName _ _
    | false => exact hi.nextItem _ _

theorem Reads.nextInText {name : Bool} {r : Reading} (h : Reads .text name r) (p : Position) :
    nextInText ⟨r.source, p, .text, name⟩ = r.step p := by
  cases h with
  | endOfInput => rfl
  | tagOpen => simp [Reading.source, Reading.step, Lexer.nextInText, opensTag, drop, place,
      Position.after]
  | @text cs ds rest _ ht hn he =>
    have ho := ht.opensTag hn (he.seam cs)
    have hr := ht.readText (he.seam cs) p []
    rw [readText_of_endsText he] at hr
    simp [Reading.source, Reading.step, Lexer.nextInText, hn, ho, hr, resume, place,
      Position.after, Except.map]
  | @escape cs ds rest next _ ht hw =>
    have hs : Seam cs ('\\' :: (next.toList ++ rest)) := by simp [Seam]
    have hr := ht.readText hs p []
    rw [readText_of_isWrong hw] at hr
    have ho : opensTag (cs ++ '\\' :: (next.toList ++ rest)) = false := by
      by_cases hn : cs = []
      · rw [hn]
        exact opensTag_cons (by decide)
      · exact ht.opensTag hn hs
    simp [Reading.source, Reading.step, Lexer.nextInText, ho, hr, resume, place, Except.map]

/-- The spec of `next`: a reading is what a step does, wherever it stands. -/
theorem Reads.next {m : Mode} {name : Bool} {r : Reading} (h : Reads m name r) (p : Position) :
    next ⟨r.source, p, m, name⟩ = r.step p := by
  cases m with
  | text => exact h.nextInText p
  | tag => exact h.nextInTag p

end Lexer

end Stencil
