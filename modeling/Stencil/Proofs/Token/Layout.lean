import Stencil.Proofs.Token.Steps

/-!
How the tokens of a source lie: up to its end or the first error they are tags with texts before
them, and then a last text or the beginning of a tag. A name stands only where a tag has just been
opened.
-/

set_option autoImplicit false

namespace Stencil

/-- What stands in each tag, in the order of the tags: its name and its arguments. -/
def tagsOf : List Placed → List (List Placed)
  | [] => []
  | p :: ps =>
    if p.token = .tagOpen then ps.takeWhile (·.token ≠ .tagClose) :: tagsOf ps else tagsOf ps

def IsTagBody (tag : List Placed) : Prop :=
  ∃ (name : Option Placed) (args : List Placed), tag = name.toList ++ args ∧
    (∀ q ∈ name, ∃ s, q.token = .tagName s) ∧ ∀ q ∈ args, q.token.isItem = true

/-- Texts and tags, up to the end of the input. -/
inductive Pieces : List Placed → Prop where
  | stop {p : Placed} : p.token = .endOfInput → Pieces [p]
  | text {p : Placed} {ps : List Placed} {s : String} :
    p.token = .text s → Pieces ps → Pieces (p :: ps)
  | tag {o c : Placed} {tag ps : List Placed} :
    o.token = .tagOpen → IsTagBody tag → c.token = .tagClose → Pieces ps →
    Pieces (o :: (tag ++ c :: ps))

namespace IsTagBody

variable {tag : List Placed}

theorem of_items (h : ∀ q ∈ tag, q.token.isItem = true) : IsTagBody tag :=
  ⟨none, tag, rfl, by simp, h⟩

theorem of_name {q : Placed} {s : String} (hq : q.token = .tagName s)
    (h : ∀ q ∈ tag, q.token.isItem = true) : IsTagBody (q :: tag) :=
  ⟨some q, tag, rfl, by simp [hq], h⟩

theorem inner (h : IsTagBody tag) : ∀ q ∈ tag, q.token ≠ .tagOpen ∧ q.token ≠ .tagClose := by
  obtain ⟨name, args, rfl, hn, ha⟩ := h
  refine List.forall_mem_append.2 ⟨fun q hq => ?_, fun q hq => ?_⟩
  · obtain ⟨s, hs⟩ := hn q (by simpa using hq)
    simp [hs]
  · have hi := ha q hq
    constructor <;> intro ht <;> simp [ht, Token.isItem] at hi

theorem items {name : String} {position : Position} {args : List Placed}
    (h : IsTagBody (⟨.tagName name, position⟩ :: args)) : ∀ q ∈ args, q.token.isItem = true := by
  obtain ⟨n, as, he, -, ha⟩ := h
  cases n with
  | none =>
    rw [Option.toList_none, List.nil_append] at he
    simp [← he, Token.isItem] at ha
  | some n =>
    obtain rfl := (List.cons.inj he).2
    exact ha

end IsTagBody

theorem tagsOf_cons {p : Placed} (h : p.token ≠ .tagOpen) (ps : List Placed) :
    tagsOf (p :: ps) = tagsOf ps := by
  rw [tagsOf, if_neg h]

theorem tagsOf_append {as : List Placed} (h : ∀ q ∈ as, q.token ≠ .tagOpen) (ps : List Placed) :
    tagsOf (as ++ ps) = tagsOf ps := by
  induction as with
  | nil => rfl
  | cons a as ih =>
    rw [List.forall_mem_cons] at h
    rw [List.cons_append, tagsOf_cons h.1, ih h.2]

theorem tagsOf_tag {o c : Placed} {tag : List Placed} (ho : o.token = .tagOpen)
    (ht : IsTagBody tag) (hc : c.token = .tagClose) (ps : List Placed) :
    tagsOf (o :: (tag ++ c :: ps)) = tag :: tagsOf ps := by
  have hw : (tag ++ c :: ps).takeWhile (·.token ≠ .tagClose) = tag := by
    rw [List.takeWhile_append_of_pos fun q hq => by simpa using (ht.inner q hq).2]
    simp [hc]
  have ha := tagsOf_append (fun q hq => (ht.inner q hq).1) (c :: ps)
  rw [tagsOf, if_pos ho, hw, ha, tagsOf_cons (by simp [hc])]

namespace Lexer

/-- What is read from inside a tag on: the tag to its end, and then pieces. -/
def Closes (l : Lexer) (ps : List Placed) : Prop :=
  ∃ tag c qs, ps = tag ++ c :: qs ∧ c.token = .tagClose ∧ Pieces qs ∧ IsTagBody tag ∧
    (l.expectsName = false → ∀ q ∈ tag, q.token.isItem = true)

theorem pieces_of_gives {l m : Lexer} {ps : List Placed} {p : Placed} (h : Gives l ps m)
    (he : Ends m (.ok p)) :
    (l.mode = .text → Pieces (ps ++ [p])) ∧ (l.mode = .tag → l.Closes (ps ++ [p])) := by
  -- Inside a tag, the run is cut where that tag ends: only its name, if it still comes, is no item.
  induction h with
  | nil l =>
    cases he with
    | endOfInput hn hp =>
      refine ⟨fun _ => .stop hp, fun hm => ?_⟩
      rcases (next_in_tag hm hn).2 with ⟨ht, -⟩ | ⟨s, ht, -⟩ | ⟨ht, -⟩
      · simp [hp] at ht
      · simp [hp] at ht
      · simp [hp, Token.isItem] at ht
  | @cons l k m q ps hn hq _ ih =>
    obtain ⟨hi, ht⟩ := ih he
    refine ⟨fun hm => ?_, fun hm => ?_⟩
    · rcases next_between_tags hm hn with ⟨hp, -⟩ | ⟨ho, -, hk, -⟩ | ⟨s, hs, -, -, -, hk, -⟩
      · contradiction
      · obtain ⟨tag, c, qs, hqs, hc, hp, hb, -⟩ := ht hk
        rw [List.cons_append, hqs]
        exact .tag ho hb hc hp
      · exact .text hs (hi hk)
    · obtain ⟨hk, hcase⟩ := next_in_tag hm hn
      rcases hcase with ⟨hc, hmode⟩ | ⟨s, hs, hname, hmode⟩ | ⟨hitem, hmode⟩
      · exact ⟨[], q, _, rfl, hc, hi hmode, .of_items (by simp), by simp⟩
      · obtain ⟨tag, c, qs, hqs, hc, hp, -, hb⟩ := ht hmode
        exact ⟨q :: tag, c, qs, by simp [hqs], hc, hp, .of_name hs (hb hk), by simp [hname]⟩
      · obtain ⟨tag, c, qs, hqs, hc, hp, -, hb⟩ := ht hmode
        have ha : ∀ r ∈ q :: tag, r.token.isItem = true :=
          List.forall_mem_cons.2 ⟨hitem, hb hk⟩
        exact ⟨q :: tag, c, qs, by simp [hqs], hc, hp, .of_items ha, fun _ => ha⟩

theorem pieces_of_results {source : List Char} {ps : List Placed}
    (h : results source = ps.map .ok) : Pieces ps := by
  obtain ⟨qs, m, r, hg, he⟩ := (ofChars source .text).exists_ends
  have hr := (hg.ends he).symm.trans h
  obtain ⟨as, bs, rfl, ha, hb⟩ := List.map_eq_append_iff.1 hr.symm
  obtain ⟨p, rfl, rfl⟩ := List.map_eq_singleton_iff.1 hb
  rw [List.map_inj_right (by simp)] at ha
  subst ha
  exact (pieces_of_gives hg he).1 rfl

end Lexer

abbrev Passage := {s : String // s ≠ ""}

def passageTokens (text : Option Passage) : List Token := (text.map fun s => .text s.1).toList

/-- A tag with the text before it, if there is any. -/
structure TaggedText where
  text : Option Passage
  name : Option String
  items : List Token
  isItem : ∀ t ∈ items, t.isItem = true

namespace TaggedText

def ofText (text : Option Passage) : TaggedText := ⟨text, none, [], by simp⟩

def snoc (c : TaggedText) {t : Token} (h : t.isItem = true) : TaggedText :=
  { c with
    items := c.items ++ [t]
    isItem := List.forall_mem_append.2 ⟨c.isItem, by simpa using h⟩ }

def opening (c : TaggedText) : List Token :=
  passageTokens c.text ++ .tagOpen :: ((c.name.map .tagName).toList ++ c.items)

def tokens (c : TaggedText) : List Token := c.opening ++ [.tagClose]

@[simp] theorem opening_snoc (c : TaggedText) {t : Token} (h : t.isItem = true) :
    (c.snoc h).opening = c.opening ++ [t] := by
  simp [opening, snoc]

end TaggedText

/-- Tags with texts before them; then, at the end of the input, maybe a text, and at an error maybe
the beginning of a tag. -/
inductive Layout : List Token → Except LexError Placed → Prop where
  | whole (cs : List TaggedText) (text : Option Passage) {p : Placed} : p.token = .endOfInput →
    Layout (cs.flatMap TaggedText.tokens ++ passageTokens text) (.ok p)
  | between (cs : List TaggedText) (e : LexError) :
    Layout (cs.flatMap TaggedText.tokens) (.error e)
  | inside (cs : List TaggedText) (last : TaggedText) (e : LexError) :
    Layout (cs.flatMap TaggedText.tokens ++ last.opening) (.error e)

namespace Lexer

/-- What has been given when `l` is left. After a text no other can come; a name can come only where
a tag has just been opened. -/
inductive HasGiven (l : Lexer) : List Token → Prop where
  | between (cs : List TaggedText) (text : Option Passage) : l.mode = .text →
    (text ≠ none → EndsText l.rest) →
    HasGiven l (cs.flatMap TaggedText.tokens ++ passageTokens text)
  | inside (cs : List TaggedText) (last : TaggedText) : l.mode = .tag →
    (l.expectsName = true → last = .ofText last.text) →
    HasGiven l (cs.flatMap TaggedText.tokens ++ last.opening)

theorem hasGiven_next {l m : Lexer} {ts : List Token} {p : Placed} (h : l.HasGiven ts)
    (hn : l.next = (.ok p, m)) (hp : p.token ≠ .endOfInput) : m.HasGiven (ts ++ [p.token]) := by
  cases h with
  | between cs text hm ht =>
    rcases next_between_tags hm hn with ⟨he, -⟩ | ⟨ho, -, hm', -⟩ | ⟨s, hs, hne, hrest, hr, hm', -⟩
    · contradiction
    · rw [ho, List.append_assoc]
      exact .inside cs (.ofText text) hm' fun _ => rfl
    · obtain rfl : text = none := not_imp_comm.1 ht hrest
      rw [hs, List.append_assoc]
      exact .between cs (some ⟨s, hne⟩) hm' fun _ => hr
  | inside cs last hm hl =>
    obtain ⟨hname, hc | ⟨name, ht, he, hm'⟩ | ⟨hi, hm'⟩⟩ := next_in_tag hm hn
    · have := HasGiven.between (l := m) (cs ++ [last]) none hc.2 (by simp)
      simpa [hc.1, TaggedText.tokens, passageTokens] using this
    · have := HasGiven.inside (l := m) cs ⟨last.text, some name, [], by simp⟩ hm' (by simp [hname])
      rw [hl he]
      simpa [ht, TaggedText.opening, TaggedText.ofText] using this
    · have := HasGiven.inside (l := m) cs (last.snoc hi) hm' (by simp [hname])
      simpa using this

theorem Gives.hasGiven {l m : Lexer} {ps : List Placed} (h : Gives l ps m) {ts : List Token}
    (hl : l.HasGiven ts) : m.HasGiven (ts ++ ps.map (·.token)) := by
  induction h generalizing ts with
  | nil => simpa using hl
  | cons hn hp _ ih => simpa using ih (hasGiven_next hl hn hp)

theorem Gives.hasGiven_ofChars {source : List Char} {m : Lexer} {ps : List Placed}
    (h : Gives (ofChars source .text) ps m) : m.HasGiven (ps.map (·.token)) :=
  h.hasGiven (.between [] none rfl (by simp))

theorem HasGiven.layout {l : Lexer} {ts : List Token} {r : Except LexError Placed}
    (h : l.HasGiven ts) (he : Ends l r) : Layout ts r := by
  cases he with
  | @endOfInput m p hn hp =>
    cases h with
    | between cs text => exact .whole cs text hp
    | inside cs last hm =>
      have := (mode_eq_text_iff hn).2 (.inr (.inr hp))
      simp [hm] at this
  | @error m e hn =>
    cases h with
    | between cs text hm ht =>
      -- Where a text has just ended, there is nothing that could be wrong.
      have hrest : ¬EndsText l.rest := by
        intro hr
        obtain ⟨p, k, hk⟩ := next_of_endsText hm hr
        simp [hn] at hk
      obtain rfl : text = none := not_imp_comm.1 ht hrest
      rw [passageTokens, Option.map_none, Option.toList_none, List.append_nil]
      exact .between cs e
    | inside cs last => exact .inside cs last e

theorem HasGiven.getLast? {l : Lexer} {ts : List Token} (h : l.HasGiven ts) (hm : l.mode = .tag)
    (he : l.expectsName = true) : ts.getLast? = some .tagOpen := by
  cases h with
  | between cs text ht => simp [hm] at ht
  | inside cs last _ hl =>
    rw [hl he]
    simp [TaggedText.opening, TaggedText.ofText]

theorem getLast?_before_name {source : List Char} {m : Lexer} {ps : List Placed}
    (h : Gives (ofChars source .text) ps m) {before after : List Token} {name : String}
    (hs : ps.map (·.token) = before ++ .tagName name :: after) :
    before.getLast? = some .tagOpen := by
  obtain ⟨qs, _, rfl, rfl, hrs⟩ := List.map_eq_append_iff.1 hs
  obtain ⟨p, rs, rfl, hp, -⟩ := List.map_eq_cons_iff.1 hrs
  obtain ⟨k, hk, hn⟩ := h.split
  cases hn with
  | cons hn =>
    cases hm : k.mode with
    | text =>
      rcases next_between_tags hm hn with ⟨ht, -⟩ | ⟨ht, -⟩ | ⟨s, ht, -⟩ <;> simp [hp] at ht
    | tag =>
      rcases (next_in_tag hm hn).2 with ⟨ht, -⟩ | ⟨_, -, he, -⟩ | ⟨ht, -⟩
      · simp [hp] at ht
      · exact hk.hasGiven_ofChars.getLast? hm he
      · simp [hp, Token.isItem] at ht

end Lexer

end Stencil
