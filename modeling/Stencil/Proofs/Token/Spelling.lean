import Stencil.Proofs.Number.ReadBack
import Stencil.Proofs.Token.Steps

/-! Elements and texts as they are written, read back as single tokens however they are spaced. -/

set_option autoImplicit false

namespace Stencil

namespace Lexer

theorem isNumeric_of_isWord {c : Char} (h : Text.isWord c = true) : isNumeric c = true := by
  simp [isNumeric, h]

theorem isNumeric_of_isBlank {c : Char} (h : Text.isBlank c = true) : isNumeric c = false := by
  obtain ⟨hw, hc⟩ := Text.isWord_of_isBlank h
  simp [isNumeric, hw, hc]

theorem BreaksOff.isWord {rest : List Char} (h : BreaksOff isNumeric rest) :
    BreaksOff Text.isWord rest := h.mono fun _ => isNumeric_of_isWord

section

variable {negative : Bool} {w cs ds rest : List Char} {n : Number}

theorem startsNumber_sign (h : ∃ d ∈ cs.head?, d.isDigit = true) (negative : Bool) :
    startsNumber (Binary.sign negative ++ cs) = true := by
  obtain ⟨d, hd, hdigit⟩ := h
  obtain ⟨ds, rfl⟩ := List.head?_eq_some_iff.1 hd
  cases negative with
  | true => exact hdigit
  | false =>
    have hm : d ≠ '-' := by
      rintro rfl
      contradiction
    exact (startsNumber_cons hm).trans hdigit

theorem numberWord_sign (h : ∃ d ∈ cs.head?, d.isDigit = true)
    (hn : ∀ c ∈ cs, isNumeric c = true) (hr : BreaksOff isNumeric rest) :
    NumberWord (Binary.sign negative ++ cs) rest := by
  refine ⟨startsNumber_sign h negative, fun c hc => hn c ?_, hr⟩
  cases negative with
  | true => exact hc
  | false => exact List.mem_of_mem_tail hc

theorem numberWord_of_spells (h : Spells w n) (hr : BreaksOff isNumeric rest) :
    NumberWord w rest := by
  cases h with
  | @plain negative whole places _ hne hw hp hl =>
    have isNumeric {c : Char} (hc : c.isDigit = true) : isNumeric c = true :=
      isNumeric_of_isWord (Text.isWord_of_isDigit hc)
    rw [Numeral.plain, List.append_assoc]
    refine numberWord_sign ?_ (fun c hc => ?_) hr
    · obtain ⟨d, ds, rfl⟩ := List.exists_cons_of_ne_nil hne
      exact ⟨d, rfl, hw d List.mem_cons_self⟩
    · rcases List.mem_append.1 hc with hc | hc
      · exact isNumeric (hw c hc)
      · cases places with
        | none => simp at hc
        | some ds =>
          rcases List.mem_cons.1 hc with rfl | hc
          · rfl
          · exact isNumeric (hp ds rfl c hc)

theorem literal?_of_spells (h : Spells w n) :
    (Numeral.read? w).bind Numeral.literal? = some n := by
  cases h with
  | plain hn hw hp hl => rw [Numeral.read?_plain hw hn hp, Option.bind_some, hl]

theorem nameWord_cons {c : Char} (hc : Text.isLetter c = true)
    (hcs : ∀ d ∈ cs, Text.isWord d = true) (hr : BreaksOff Text.isWord rest) :
    NameWord (c :: cs) rest :=
  ⟨hc, List.forall_mem_cons.2 ⟨Text.isWord_of_isLetter hc, hcs⟩, hr⟩

theorem nameWord_of_isName {name : String} (h : Text.isName name = true)
    (hr : BreaksOff Text.isWord rest) : NameWord name.toList rest := by
  obtain ⟨c, cs, hn, hc, hcs⟩ := exists_of_isName h
  rw [hn]
  exact nameWord_cons hc hcs hr

theorem StringRun.escape (h : StringRun cs ds) (c : Char) :
    StringRun (Element.escape c ++ cs) (c :: ds) := by
  unfold Element.escape
  split
  · rename_i hc
    rcases hc with rfl | rfl <;> exact .escaped rfl h
  rename_i hc
  split
  · rename_i hn
    subst hn
    exact .escaped rfl h
  split
  · rename_i hr
    subst hr
    exact .escaped rfl h
  split
  · rename_i ht
    subst ht
    exact .escaped rfl h
  · exact .plain (not_or.1 hc).1 (not_or.1 hc).2 h

theorem stringRun_escapes (cs : List Char) : StringRun (cs.flatMap Element.escape) cs := by
  induction cs with
  | nil => exact .nil
  | cons c cs ih => exact ih.escape c

theorem textRun_escapeText (cs : List Char) : TextRun (escapeText cs) cs := by
  induction cs with
  | nil => exact .nil
  | cons c cs ih =>
    by_cases hc : c = '{' ∨ c = '\\'
    · have hw : escapeText (c :: cs) = '\\' :: c :: escapeText cs := by simp [escapeText, hc]
      exact hw ▸ .escaped hc ih
    · have hw : escapeText (c :: cs) = c :: escapeText cs := by simp [escapeText, hc]
      rw [not_or] at hc
      exact hw ▸ .plain hc.2 (opensTag_cons hc.1) ih

end

end Lexer

open Lexer

/-- Wherever they stand, the characters `cs` are read as `ts`, and then `ds` are left. -/
def Yields (m : Mode) (cs : List Char) (ts : List Token) (n : Mode) (ds : List Char) : Prop :=
  ∀ p : Position, ∃ ps q, ps.map (·.token) = ts ∧ Gives ⟨cs, p, m, false⟩ ps ⟨ds, q, n, false⟩

/-- Wherever they stand, the characters `cs` give tokens and then an error. -/
def Fails (m : Mode) (cs : List Char) : Prop :=
  ∀ p : Position, ∃ ps l e r, Gives ⟨cs, p, m, false⟩ ps l ∧ l.next = (.error e, r)

namespace Yields

variable {m n k : Mode} {cs ds es : List Char}

theorem nil (m : Mode) (cs : List Char) : Yields m cs [] m cs :=
  fun p => ⟨[], p, rfl, .nil _⟩

theorem append {ts us : List Token} (h : Yields m cs ts n ds) (hu : Yields n ds us k es) :
    Yields m cs (ts ++ us) k es := by
  intro p
  obtain ⟨ps, q, rfl, hg⟩ := h p
  obtain ⟨qs, r, rfl, hh⟩ := hu q
  exact ⟨ps ++ qs, r, List.map_append, hg.append hh⟩

theorem of_reads {skipped taken rest : List Char} {t : Token}
    (h : Reads m false ⟨skipped, taken, rest, .ok t, n, false⟩) (ht : t ≠ .endOfInput) :
    Yields m (skipped ++ (taken ++ rest)) [t] n rest :=
  fun p => ⟨[⟨t, p.after skipped⟩], _, rfl, .cons (h.next p) ht (.nil _)⟩

theorem fails {ts : List Token} (h : Yields m cs ts n ds) (hf : Fails n ds) : Fails m cs := by
  intro p
  obtain ⟨ps, q, -, hg⟩ := h p
  obtain ⟨qs, l, e, r, hh, he⟩ := hf q
  exact ⟨ps ++ qs, l, e, r, hg.append hh, he⟩

end Yields

namespace Element

def token : Element → Token
  | .number n => .number n
  | .string s => .string s
  | .variable name => .variable name
  | .function name => .function name
  | .operator op => .operator op.symbol

def isNamed : Element → Bool
  | .variable name => Text.isName name
  | .function name => Text.isName name
  | _ => true

def isFinite : Element → Bool
  | .number n => n.isFinite
  | _ => true

theorem token_ne_endOfInput (e : Element) : e.token ≠ .endOfInput := by
  cases e <;> simp [token]

theorem readsInTag {e : Element} (hn : e.isNamed = true) (hf : e.isFinite = true)
    {rest : List Char} (hr : BreaksOff isNumeric rest) :
    ReadsInTag false [] e.wire rest (.ok e.token) := by
  cases e with
  | number n =>
    have hs := spells_wire hf
    exact .number (numberWord_of_spells hs hr) (literal?_of_spells hs)
  | string s =>
    have h : ReadsInTag false [] _ rest _ := .string (stringRun_escapes s.toList)
    rwa [String.ofList_toList] at h
  | «variable» name =>
    have h : ReadsInTag false [] _ rest _ := .variable rfl (nameWord_of_isName hn hr.isWord)
    rwa [String.ofList_toList] at h
  | function name =>
    have h : ReadsInTag false [] _ rest _ := .function (nameWord_of_isName hn hr.isWord)
    rwa [String.ofList_toList] at h
  | operator op =>
    have ho : (Operator.ofSymbol? op.symbol).isSome = true ∧ op.symbol.isDigit = false := by
      cases op <;> exact ⟨rfl, rfl⟩
    exact .operator ho.1 (startsNumber_of_breaksOff ho.2 hr)

end Element

abbrev Blanks := {cs : List Char // ∀ c ∈ cs, Text.isBlank c = true}

namespace Blanks

def none : Blanks := ⟨[], by simp⟩

def one : Blanks := ⟨[' '], List.forall_mem_singleton.2 (by decide)⟩

end Blanks

/-- How a tag is named: a sign for an echo, or a word, of whose letters the case does not matter. -/
inductive IsTagName : List Char → String → Prop where
  | echo : IsTagName ['='] "="
  | word {c : Char} {cs : List Char} : Text.isLetter c = true → (∀ d ∈ cs, Text.isWord d = true) →
    IsTagName (c :: cs) (String.ofList (Text.upperCase (c :: cs)))

namespace IsTagName

theorem of_map_toUpper {w name : List Char} (h : w.map Char.toUpper = name)
    (hn : name ≠ []) (hu : ∀ c ∈ name, c.isUpper = true) : IsTagName w (String.ofList name) := by
  subst h
  have ha : ∀ c ∈ w, c.isAlpha = true := fun c hc =>
    Text.isAlpha_of_isUpper_toUpper (hu _ (List.mem_map_of_mem hc))
  rw [← Text.upperCase_of_isAlpha ha]
  cases w with
  | nil => contradiction
  | cons c cs =>
    rw [List.forall_mem_cons] at ha
    exact .word (Text.isLetter_of_isAlpha ha.1) fun d hd =>
      Text.isWord_of_isLetter (Text.isLetter_of_isAlpha (ha.2 d hd))

theorem loop {w : List Char} (h : w.map Char.toUpper = ['F', 'O', 'R']) : IsTagName w "FOR" :=
  .of_map_toUpper h (List.cons_ne_nil _ _) (List.all_eq_true.1 rfl)

theorem endLoop {w : List Char} (h : w.map Char.toUpper = ['E', 'N', 'D']) : IsTagName w "END" :=
  .of_map_toUpper h (List.cons_ne_nil _ _) (List.all_eq_true.1 rfl)

theorem readsInTag {w rest : List Char} {name : String} (h : IsTagName w name)
    (hr : w = ['='] ∨ BreaksOff isNumeric rest) :
    ReadsInTag true [] w rest (.ok (.tagName name)) := by
  cases h with
  | echo => exact .echo rfl
  | word hc hcs =>
    refine .tagName rfl (nameWord_cons hc hcs ?_)
    exact (hr.resolve_left fun he => ne_of_isLetter hc (by decide)
      (List.cons.inj he).1).isWord

end IsTagName

def itemsWire (items : List (Blanks × Element)) : List Char :=
  items.flatMap fun i => i.1.1 ++ i.2.wire

theorem spaced_eq_itemsWire (es : List Element) :
    spaced es = itemsWire (es.map (Blanks.one, ·)) := by
  simp [spaced, itemsWire, Blanks.one, List.flatMap_map]

section

variable {cs : List Char}

theorem breaksOff_of_ne_nil {b : Blanks} (hb : b.1 ≠ []) (cs : List Char) :
    BreaksOff isNumeric (b.1 ++ cs) := by
  obtain ⟨c, bs, hc⟩ := List.exists_cons_of_ne_nil hb
  rw [hc, List.cons_append, breaksOff_cons]
  exact isNumeric_of_isBlank (b.2 c (by simp [hc]))

theorem breaksOff_blanks (b : Blanks) (h : BreaksOff isNumeric cs) :
    BreaksOff isNumeric (b.1 ++ cs) := by
  by_cases hb : b.1 = []
  · rwa [hb]
  · exact breaksOff_of_ne_nil hb cs

theorem breaksOff_items {items : List (Blanks × Element)} (hi : ∀ i ∈ items, i.1.1 ≠ [])
    (h : BreaksOff isNumeric cs) : BreaksOff isNumeric (itemsWire items ++ cs) := by
  cases items with
  | nil => exact h
  | cons i items => simpa [itemsWire] using breaksOff_of_ne_nil (hi i (by simp)) _

end

namespace Yields

theorem element (b : Blanks) {e : Element} (hn : e.isNamed = true) (hf : e.isFinite = true)
    {cs : List Char} (hcs : BreaksOff isNumeric cs) :
    Yields .tag (b.1 ++ (e.wire ++ cs)) [e.token] .tag cs :=
  .of_reads (.item b.2 (Element.readsInTag hn hf hcs)) e.token_ne_endOfInput

theorem literal (b : Blanks) {w : List Char} {n : Number} (h : Spells w n) {cs : List Char}
    (hcs : BreaksOff isNumeric cs) : Yields .tag (b.1 ++ (w ++ cs)) [.number n] .tag cs :=
  .of_reads (.item b.2 (.number (numberWord_of_spells h hcs) (literal?_of_spells h))) (by simp)

theorem items {items : List (Blanks × Element)} (hg : ∀ i ∈ items.tail, i.1.1 ≠ [])
    (he : ∀ i ∈ items, i.2.isNamed = true ∧ i.2.isFinite = true) {cs : List Char}
    (hcs : BreaksOff isNumeric cs) :
    Yields .tag (itemsWire items ++ cs) (items.map (·.2.token)) .tag cs := by
  induction items with
  | nil => exact .nil _ _
  | cons i items ih =>
    rw [List.forall_mem_cons] at he
    -- The blanks before the next element end this one, or else what stands behind them all.
    have hb : BreaksOff isNumeric (itemsWire items ++ cs) := breaksOff_items hg hcs
    have hi := ih (fun j hj => hg j (List.mem_of_mem_tail hj)) he.2
    simpa [itemsWire] using (element i.1 he.1.1 he.1.2 hb).append hi

theorem tagClose (b : Blanks) (cs : List Char) :
    Yields .tag (b.1 ++ '$' :: '}' :: cs) [.tagClose] .text cs :=
  .of_reads (.tagClose false cs b.2) (by simp)

theorem tagName (b : Blanks) {w : List Char} {name : String} (hw : IsTagName w name)
    (cs : List Char) (hcs : w = ['='] ∨ BreaksOff isNumeric cs) :
    Yields .text ('{' :: '$' :: (b.1 ++ (w ++ cs))) [.tagOpen, .tagName name] .tag cs :=
  fun p => ⟨[⟨.tagOpen, p⟩, ⟨.tagName name, (p.after ['{', '$']).after b.1⟩], _, rfl,
    .cons ((Reads.tagOpen false _).next p) (by simp)
      (.cons ((Reads.item b.2 (hw.readsInTag hcs)).next _) (by simp) (.nil _))⟩

theorem tag (lead trail : Blanks) {w : List Char} {name : String} (hw : IsTagName w name)
    {items : List (Blanks × Element)} (hg : ∀ i ∈ items.tail, i.1.1 ≠ [])
    (hi : w = ['='] ∨ ∀ i ∈ items, i.1.1 ≠ [])
    (he : ∀ i ∈ items, i.2.isNamed = true ∧ i.2.isFinite = true) (cs : List Char) :
    Yields .text
      ('{' :: '$' :: (lead.1 ++ (w ++ (itemsWire items ++ (trail.1 ++ '$' :: '}' :: cs)))))
      (.tagOpen :: .tagName name :: (items.map (·.2.token) ++ [.tagClose])) .text cs := by
  have hb : BreaksOff isNumeric (trail.1 ++ '$' :: '}' :: cs) :=
    breaksOff_blanks trail (breaksOff_cons.2 (by decide))
  have hn := tagName lead hw _ (hi.imp_right fun hi => breaksOff_items hi hb)
  exact hn.append ((Yields.items hg he hb).append (tagClose trail cs))

theorem text {s : String} (hs : s ≠ "") {tail : List Char} (ht : EndsText tail) :
    Yields .text (escapeText s.toList ++ tail) [.text s] .text tail := by
  have hr := textRun_escapeText s.toList
  have hn : escapeText s.toList ≠ [] := by
    intro hn
    rw [hn] at hr
    cases hw : s.toList with
    | nil => exact hs (by simpa using hw)
    | cons c cs =>
      rw [hw] at hr
      contradiction
  have h := Yields.of_reads (.text false hr hn ht) (by simp)
  rwa [String.ofList_toList] at h

end Yields

namespace Fails

variable {ds : List Char}

theorem of_reads {m n : Mode} {skipped taken rest : List Char} {f : LexFault} {name : Bool}
    (h : Reads m false ⟨skipped, taken, rest, .error f, n, name⟩) :
    Fails m (skipped ++ (taken ++ rest)) :=
  fun p => ⟨[], _, ⟨f, p.after skipped⟩, _, .nil _, h.next p⟩

theorem word (b : Blanks) {c : Char} {cs : List Char} (hc : Text.isLetter c = true)
    (hcs : cs.all Text.isWord = true) (ds : List Char) :
    Fails .tag (b.1 ++ (c :: cs ++ '.' :: ds)) := by
  have hw : NameWord (c :: cs) ('.' :: ds) :=
    nameWord_cons hc (List.all_eq_true.1 hcs) (breaksOff_cons.2 (by decide))
  have hp : IsStray false '.' ds :=
    ⟨by decide, closesTag_cons (by decide), startsNumber_cons (by decide), by decide, by decide,
      by decide, rfl, by simp⟩
  exact (Yields.of_reads (.item b.2 (.variable rfl hw)) (by simp)).fails
    (.of_reads (.item Blanks.none.2 (.stray hp)))

theorem element {e : Element} (h : e.isFinite = false) (ds : List Char) :
    Fails .tag (' ' :: (e.wire ++ ds)) := by
  have hi (b : Blanks) : Fails .tag (b.1 ++ ('i' :: ['n', 'f'] ++ '.' :: '0' :: ds)) :=
    .word b (by decide) (by decide) _
  have hn : Fails .tag (Blanks.one.1 ++ ('N' :: ['a', 'N'] ++ '.' :: '0' :: ds)) :=
    .word .one (by decide) (by decide) _
  have hs : Yields .tag (Blanks.one.1 ++ (['-'] ++ 'i' :: 'n' :: 'f' :: '.' :: '0' :: ds))
      [.operator '-'] .tag ('i' :: 'n' :: 'f' :: '.' :: '0' :: ds) :=
    .of_reads (.item Blanks.one.2 (.operator rfl rfl)) (by simp)
  cases e with
  | number n =>
    cases n with
    | int n => contradiction
    | float x =>
      simp only [Element.isFinite, Number.isFinite] at h
      split at h
      · contradiction
      · rename_i hx
        cases hb : Binary.ofFloat x with
        | nan =>
          simpa [Element.wire, Number.plainWire, hb, Binary.wire, Element.pointed,
            Blanks.one] using hn
        | finite s m q => exact absurd hb (hx s m q)
        | infinite negative =>
          cases negative with
          | false =>
            simpa [Element.wire, Number.plainWire, hb, Binary.wire, Element.pointed,
              Binary.sign, Blanks.one] using hi .one
          | true =>
            simpa [Element.wire, Number.plainWire, hb, Binary.wire, Element.pointed,
              Binary.sign, Blanks.one] using hs.fails (hi .none)
  | _ => contradiction

theorem elements {es : List Element} (hn : ∀ e ∈ es, e.isNamed = true)
    (hf : ∃ e ∈ es, e.isFinite = false) (ds : List Char) :
    Fails .tag (spaced es ++ ' ' :: ds) := by
  induction es with
  | nil => simp at hf
  | cons e es ih =>
    have hb : BreaksOff isNumeric (spaced es ++ ' ' :: ds) := by
      rw [spaced_eq_itemsWire]
      exact breaksOff_items (by simp [Blanks.one]) (breaksOff_cons.2 (by decide))
    by_cases he : e.isFinite = true
    · have hd : ∃ d ∈ es, d.isFinite = false := by
        obtain ⟨d, hd, hdf⟩ := hf
        rcases List.mem_cons.1 hd with rfl | hd
        · simp [he] at hdf
        · exact ⟨d, hd, hdf⟩
      have hi := ih (fun d hd => hn d (by simp [hd])) hd
      have hy := Yields.element .one (hn e (by simp)) he hb
      simpa [spaced, Blanks.one] using hy.fails hi
    · rw [Bool.not_eq_true] at he
      simpa [spaced] using element he (spaced es ++ ' ' :: ds)

end Fails

end Stencil
