import Stencil.Proofs.Token.Elsewhere
import Stencil.Proofs.Tree.RoundTrip

set_option autoImplicit false

namespace Stencil

namespace Node

/-- The nodes `ms` before `ns`; a text that ends the ones and a text that begins the others become
one. -/
def joined (ms ns : List Node) : List Node :=
  match ms.getLast?, ns with
  | some (.text s), .text t :: ns => ms.dropLast ++ .text (s ++ t) :: ns
  | _, _ => ms ++ ns

theorem joined_text (ms ns : List Node) (s t : String) :
    joined (ms ++ [.text s]) (.text t :: ns) = ms ++ .text (s ++ t) :: ns := by
  simp [joined]

theorem joined_of_startsText {ns : List Node} (h : startsText ns = false) (ms : List Node) :
    joined ms ns = ms ++ ns := by
  unfold joined
  split
  · contradiction
  · rfl

theorem joined_of_getLast? {ms : List Node} (h : ∀ s, ms.getLast? ≠ some (.text s))
    (ns : List Node) : joined ms ns = ms ++ ns := by
  unfold joined
  split
  · rename_i s t ns hs
    exact absurd hs (h s)
  · rfl

theorem Seamless.joined {M : Type} {op : M → M → M} {f : Node → M} {F : List Node → M}
    (h : Seamless op f F) (ms ns : List Node) : F (joined ms ns) = op (F ms) (F ns) := by
  have ha : ∀ ms ns, F (ms ++ ns) = op (F ms) (F ns) := by
    intro ms ns
    induction ms with
    | nil => exact (h.nil _).symm
    | cons m ms ih => rw [List.cons_append, h.cons, h.cons, ih, h.assoc]
  unfold Node.joined
  split
  · rename_i s t ns hs
    obtain ⟨ms, rfl⟩ := List.getLast?_eq_some_iff.1 hs
    rw [List.dropLast_concat, ha, ha, h.cons, h.cons, h.cons, h.right_nil, h.text, h.assoc, h.assoc]
  · exact ha ms _

end Node

theorem getLast?_tagTokens (name : String) (args : List Token) :
    (tagTokens name args).getLast? = some .tagClose := by
  rw [tagTokens, ← List.cons_append, ← List.cons_append, List.getLast?_concat]

theorem Items.first {ts : List Token} {ns : List Node} (h : Items ts ns) :
    ts = [] ∨
    (∃ us ms s, ts = .text s :: us ∧ ns = .text s :: ms ∧ Items us ms) ∨
    ((∃ us, ts = .tagOpen :: us) ∧ Node.startsText ns = false) := by
  cases h with
  | nil => exact .inl rfl
  | @text s ts ns hi => exact .inr (.inl ⟨ts, ns, s, rfl, rfl, hi⟩)
  | echo _ _ => exact .inr (.inr ⟨⟨_, rfl⟩, rfl⟩)
  | loop _ _ _ => exact .inr (.inr ⟨⟨_, rfl⟩, rfl⟩)

/-- How the tokens and the nodes of a source end: with nothing, with one text, or with a tag. -/
inductive EndsAlike : List Token → List Node → Prop where
  | nil : EndsAlike [] []
  | text {ts : List Token} {ns : List Node} (s : String) :
    Items ts ns → EndsAlike (ts ++ [.text s]) (ns ++ [.text s])
  | tag {ts : List Token} {ns : List Node} {n : Node} :
    ts.getLast? = some .tagClose → ns.getLast? = some n → (∀ s, n ≠ .text s) → EndsAlike ts ns

theorem EndsAlike.after_tag {us : List Token} {n : Node} (hu : us.getLast? = some .tagClose)
    (hn : ∀ s, n ≠ .text s) (hi : ∀ {ts ns}, Items ts ns → Items (us ++ ts) (n :: ns))
    {ts : List Token} {ns : List Node} (h : EndsAlike ts ns) : EndsAlike (us ++ ts) (n :: ns) := by
  cases h with
  | nil => exact .tag (by simpa using hu) rfl hn
  | text s h =>
    rw [← List.append_assoc]
    exact .text s (hi h)
  | tag ht hl hs => exact .tag (by simp [ht]) (by simp [List.getLast?_cons, hl]) hs

theorem Items.endsAlike {ts : List Token} {ns : List Node} (h : Items ts ns) :
    EndsAlike ts ns := by
  induction h with
  | nil => exact .nil
  | text _ ih =>
    rename_i s ts ns _
    cases ih with
    | nil => exact @EndsAlike.text [] [] s .nil
    | text s' hi => exact @EndsAlike.text (.text s :: _) (.text s :: _) s' (.text hi)
    | tag ht hl hs =>
      exact .tag (by simp [List.getLast?_cons, ht]) (by simp [List.getLast?_cons, hl]) hs
  | echo ha _ ih => exact ih.after_tag (getLast?_tagTokens ..) (by simp) (.echo ha)
  | @loop args body ts h _ _ ha hb _ _ ih =>
    rw [← List.append_assoc, ← List.append_assoc]
    refine ih.after_tag (by simp [getLast?_tagTokens]) (by simp) fun hi => ?_
    rw [List.append_assoc, List.append_assoc]
    exact .loop ha hb hi

namespace Lexer

theorem Gives.yields {l m : Lexer} {ps : List Placed} (h : Gives l ps m) (es : List Char)
    (hl : l.expectsName = false) (hn : m.expectsName = false)
    (hm : m.rest = [] → es = [] ∨ ps.getLast?.map (·.token) = some .tagClose) :
    Yields l.mode (l.rest ++ es) (ps.map (·.token)) m.mode (m.rest ++ es) := by
  intro q
  obtain ⟨qs, r, hqs, hg⟩ := (h.extend hm).moved q
  rw [Lexer.moved, Lexer.moved, Lexer.extend, Lexer.extend, hl, hn] at hg
  exact ⟨qs, r, hqs, hg⟩

theorem TextRun.append {as bs cs ds : List Char} (h : TextRun as cs) (hd : TextRun bs ds)
    (hs : Seam as bs) : TextRun (as ++ bs) (cs ++ ds) := by
  induction h with
  | nil => exact hd
  | @plain c cs ds hc ho _ ih =>
    exact .plain hc (hs.opensTag ho) (ih (hs.suffix (List.suffix_cons c cs)))
  | @escaped c cs ds hc _ ih =>
    exact .escaped hc (ih (hs.suffix (List.suffix_append ['\\', c] cs)))

theorem Seam.of_append {as bs cs : List Char} (h : Seam as (bs ++ cs)) : Seam as bs := by
  cases bs with
  | nil => exact seam_nil as
  | cons b bs => exact h

theorem Reads.textRun {mode mode' : Mode} {name name' : Bool} {skipped taken rest : List Char}
    {s : String} (h : Reads mode name ⟨skipped, taken, rest, .ok (.text s), mode', name'⟩) :
    skipped = [] ∧ taken ≠ [] ∧ TextRun taken s.toList ∧ EndsText rest := by
  cases h with
  | text _ ht hn hr => exact ⟨rfl, hn, by rwa [String.toList_ofList], hr⟩
  | inTag _ hi => cases hi

theorem textRun_of_next {l m : Lexer} {p : Placed} {s : String} (h : l.next = (.ok p, m))
    (hp : p.token = .text s) :
    ∃ cs, l.rest = cs ++ m.rest ∧ cs ≠ [] ∧ TextRun cs s.toList ∧ EndsText m.rest := by
  obtain ⟨skipped, taken, hl, -, -, hr⟩ := next_eq_ok_iff.1 h
  rw [hp] at hr
  obtain ⟨rfl, hn, ht, he⟩ := hr.textRun
  exact ⟨taken, hl, hn, ht, he⟩

end Lexer

namespace Lexes

open Lexer

variable {a b : List Char} {ts us : List Token}

theorem yields (h : Lexes a ts) : Yields .text a ts .text [] := by
  obtain ⟨ps, m, rfl, hg, hr, hm, hn⟩ := h.gives
  have hy := hg.yields [] rfl hn fun _ => .inl rfl
  rw [hr, hm] at hy
  simpa [ofChars] using hy

theorem yields_of_tagClose (h : Lexes a ts) (ht : ts.getLast? = some .tagClose) :
    Yields .text (a ++ b) ts .text b := by
  obtain ⟨ps, m, rfl, hg, hr, hm, hn⟩ := h.gives
  have hy := hg.yields b rfl hn fun _ => .inr (by simpa using ht)
  rw [hr, hm] at hy
  simpa [ofChars] using hy

theorem yields_of_text {s t : String} {bs rest : List Char} (h : Lexes a (ts ++ [.text s]))
    (hs : Seam a bs) (hb : TextRun bs t.toList) (hrest : EndsText rest) :
    Yields .text (a ++ (bs ++ rest)) (ts ++ [.text (s ++ t)]) .text rest := by
  obtain ⟨ps, m, hps, hg, hr, -, -⟩ := h.gives
  obtain ⟨ps, last, rfl, rfl, hlast⟩ := List.map_eq_append_iff.1 hps
  obtain ⟨p, ls, rfl, hp, hnil⟩ := List.map_eq_cons_iff.1 hlast
  obtain rfl := List.map_eq_nil_iff.1 hnil
  obtain ⟨k, hk, hlast⟩ := hg.split
  cases hlast with
  | cons hnext hne hg =>
    cases hg
    have hmode := (mode_eq_text_iff hnext).2 (.inl (by rw [hp]; rfl))
    have hname := hk.expectsName (fun _ => rfl) hmode
    have hy := hk.yields (bs ++ rest) rfl hname fun h => absurd h (rest_ne_nil_of_next hnext hne)
    obtain ⟨cs, hcs, hn, ht, -⟩ := textRun_of_next hnext hp
    rw [hr, List.append_nil] at hcs
    have hrun : TextRun (cs ++ bs) (s.toList ++ t.toList) :=
      ht.append hb (hs.suffix (hcs ▸ hk.suffix))
    have hlast := Yields.of_reads (.text false hrun (by simp [hn]) hrest) (by simp)
    rw [← String.toList_append, String.ofList_toList, List.nil_append, List.append_assoc,
      ← hcs] at hlast
    rw [hmode] at hy
    exact hy.append hlast

theorem yields_of_opensTag {ns : List Node} (h : Lexes a ts) (hi : Items ts ns)
    (hb : opensTag b = true) : Yields .text (a ++ b) ts .text b := by
  cases hi.endsAlike with
  | nil =>
    obtain rfl : a = [] := by
      by_contra hn
      exact h.ne_nil hn rfl
    exact .nil _ _
  | text s _ =>
    have hy := h.yields_of_text (t := "") (seam_nil a) .nil (.inr hb)
    rwa [String.append_empty] at hy
  | tag ht _ _ => exact h.yields_of_tagClose ht

theorem exists_textRun {t : String} (h : Lexes b (.text t :: us)) :
    ∃ bs rest, b = bs ++ rest ∧ TextRun bs t.toList ∧ EndsText rest ∧
      Yields .text rest us .text [] := by
  obtain ⟨ps, m, hps, hg, hr, hm, hn⟩ := h.gives
  obtain ⟨p, ps, rfl, hp, rfl⟩ := List.map_eq_cons_iff.1 hps
  cases hg with
  | @cons _ k _ _ _ hnext _ hg =>
    obtain ⟨bs, hb, -, ht, he⟩ := textRun_of_next hnext hp
    have hk := (next_isText hnext (by rw [hp]; rfl)).1
    have hname := expectsName_next (fun _ => rfl) hnext hk
    have hy := hg.yields [] hname hn fun _ => .inl rfl
    rw [hr, hm, hk, List.append_nil] at hy
    exact ⟨bs, k.rest, hb, ht, he, hy⟩

theorem opensTag_of_tagOpen (h : Lexes b (.tagOpen :: us)) : opensTag b = true := by
  obtain ⟨ps, m, hps, hg, -⟩ := h.gives
  obtain ⟨p, ps, rfl, hp, rfl⟩ := List.map_eq_cons_iff.1 hps
  cases hg with
  | cons hnext _ _ =>
    rcases next_between_tags rfl hnext with ⟨ht, -⟩ | ⟨-, ho, -⟩ | ⟨s, ht, -⟩
    · simp [ht] at hp
    · exact ho
    · simp [ht] at hp

end Lexes

namespace Node

open Lexer

theorem ofChars_append {a b : List Char} {ms ns : List Node} (hs : Seam a b)
    (ha : ofChars a = .ok (.document ms)) (hb : ofChars b = .ok (.document ns)) :
    ofChars (a ++ b) = .ok (.document (joined ms ns)) := by
  obtain ⟨hna, ts, _, hd, hla, hia⟩ := items_of_ofChars_eq_ok ha
  obtain ⟨hnb, us, _, he, hlb, hib⟩ := items_of_ofChars_eq_ok hb
  cases hd
  cases he
  have hn : a ++ b ≠ [] := by simp [hna]
  cases hia.endsAlike with
  | nil => exact absurd rfl (hla.ne_nil hna)
  | @text ts ms s hi =>
    rcases hib.first with rfl | ⟨us, ns, t, rfl, rfl, hj⟩ | ⟨⟨us, rfl⟩, hj⟩
    · exact absurd rfl (hlb.ne_nil hnb)
    · -- The texts at the seam are read as one.
      obtain ⟨bs, rest, rfl, ht, he, hy⟩ := hlb.exists_textRun
      rw [joined_text]
      exact ofChars_of_yields hn ((hla.yields_of_text hs.of_append ht he).append hy)
        (by simpa using hi.append (.text hj))
    · -- The tag at the seam ends the text before it.
      have hya := hla.yields_of_opensTag hia hlb.opensTag_of_tagOpen
      rw [joined_of_startsText hj]
      exact ofChars_of_yields hn (hya.append hlb.yields) (hia.append hib)
  | tag ht hm htext =>
    have hj : ∀ s, ms.getLast? ≠ some (.text s) := by simpa [hm] using htext
    rw [joined_of_getLast? hj]
    exact ofChars_of_yields hn ((hla.yields_of_tagClose ht).append hlb.yields) (hia.append hib)

end Node

/-- What a tag has beside its name: blanks before that, elements that can be written, each behind
blanks that keep it off the one before, and blanks before the end. -/
structure Spacing where
  lead : Blanks
  items : List (Blanks × Element)
  trail : Blanks
  apart : ∀ i ∈ items.tail, i.1.1 ≠ []
  written : ∀ i ∈ items, i.2.isNamed = true ∧ i.2.isFinite = true

namespace Spacing

def elements (t : Spacing) : List Element := t.items.map (·.2)

def wire (t : Spacing) (w : List Char) : List Char :=
  '{' :: '$' :: (t.lead.1 ++ (w ++ (itemsWire t.items ++ (t.trail.1 ++ ['$', '}']))))

theorem yields (t : Spacing) {w : List Char} {name : String} (hw : IsTagName w name)
    (hi : w = ['='] ∨ ∀ i ∈ t.items, i.1.1 ≠ []) (cs : List Char) :
    Yields .text (t.wire w ++ cs) (tagTokens name (t.elements.map Element.token)) .text cs := by
  have hy := Yields.tag t.lead t.trail hw t.apart hi t.written cs
  simpa [wire, elements, tagTokens, Function.comp_def] using hy

end Spacing

namespace Node

theorem ofChars_echo_wire (t : Spacing) :
    ofChars (t.wire ['=']) = .ok (.document [.echo t.elements]) := by
  have hy := t.yields .echo (.inl rfl) []
  have hi := Items.echo (Element.forall₂_token t.elements) .nil
  rw [List.append_nil] at hy hi
  exact ofChars_of_yields (List.cons_ne_nil _ _) hy hi

theorem exists_body {body : List Char} {ns : List Node}
    (hb : body = [] ∧ ns = [] ∨ ofChars body = .ok (.document ns)) :
    ∃ ts, Items ts ns ∧ ∀ cs, Lexer.opensTag cs = true → Yields .text (body ++ cs) ts .text cs := by
  rcases hb with ⟨rfl, rfl⟩ | hb
  · exact ⟨[], .nil, fun cs _ => .nil _ cs⟩
  · obtain ⟨-, ts, _, hd, hl, hi⟩ := items_of_ofChars_eq_ok hb
    cases hd
    exact ⟨ts, hi, fun cs hc => hl.yields_of_opensTag hi hc⟩

/-- Blanks of any kind, newlines included, and the case of tag names change nothing of what an echo
and a loop are parsed as. -/
theorem parse_spaced :
    (∀ t : Spacing,
      parse (String.ofList (t.wire ['='])) = .ok (.document [.echo t.elements])) ∧
    ∀ (t u : Spacing) (opening closing : List Char) (h : Header) (body : String) (ns : List Node),
      opening.map Char.toUpper = ['F', 'O', 'R'] → closing.map Char.toUpper = ['E', 'N', 'D'] →
      t.elements = h.arguments → u.elements = [] → (∀ i ∈ t.items, i.1.1 ≠ []) →
      (∀ e ∈ h.bounds, e.isBound = true) →
      (body = "" ∧ ns = [] ∨ parse body = .ok (.document ns)) →
      parse (String.ofList (t.wire opening ++ (body.toList ++ u.wire closing))) =
        .ok (.document [.loop h ns]) := by
  refine ⟨fun t => ?_, fun t u opening closing h body ns ho hc ha hu hi hb hbody => ?_⟩
  · rw [parse, String.toList_ofList, ofChars_echo_wire]
  · obtain ⟨ts, hts, hy⟩ := exists_body (hbody.imp_left (And.imp_left (by simp [·])))
    have hui : ∀ i ∈ u.items, i.1.1 ≠ [] := by
      rw [List.map_eq_nil_iff.1 hu]
      simp
    have hyt := t.yields (.loop ho) (.inr hi) (body.toList ++ u.wire closing)
    have hyu := u.yields (.endLoop hc) (.inr hui) []
    rw [ha] at hyt
    rw [hu, List.append_nil] at hyu
    rw [parse, String.toList_ofList]
    refine ofChars_of_yields (by simp [Spacing.wire]) (hyt.append ((hy _ rfl).append hyu)) ?_
    simpa using Items.loop (Header.isHeader_token hb) hts .nil

def tightEcho : Spacing where
  lead := .none
  items := [(.none, .string "$\x7d"), (.one, .operator .sub), (.one, .number (.int (-5)))]
  trail := .none
  apart := List.forall_mem_cons.2 ⟨List.cons_ne_nil _ _,
    List.forall_mem_singleton.2 (List.cons_ne_nil _ _)⟩
  written := by decide +kernel

def wideLoop : Spacing where
  lead := ⟨['\n'], List.all_eq_true.1 rfl⟩
  items := [(⟨['\u00a0', '\n'], List.all_eq_true.1 rfl⟩, .variable "i"),
    (⟨['\t'], List.all_eq_true.1 rfl⟩, .number (.int 1)),
    (⟨['\u2003'], List.all_eq_true.1 rfl⟩, .string "2")]
  trail := .none
  apart := by simp
  written := by decide +kernel

def tightEnd : Spacing := ⟨.none, [], .none, by simp, by simp⟩

theorem parse_wideLoop :
    ['f', 'O', 'r'].map Char.toUpper = ['F', 'O', 'R'] ∧
      ['e', 'n', 'D'].map Char.toUpper = ['E', 'N', 'D'] ∧
      parse (String.ofList (wideLoop.wire ['f', 'O', 'r'] ++
        ((String.ofList (tightEcho.wire ['='])).toList ++ tightEnd.wire ['e', 'n', 'D']))) =
        .ok (.document [.loop ⟨"i", .number (.int 1), .string "2", none⟩
          [.echo [.string "$\x7d", .operator .sub, .number (.int (-5))]]]) :=
  ⟨rfl, rfl, parse_spaced.2 wideLoop tightEnd ['f', 'O', 'r'] ['e', 'n', 'D']
    ⟨"i", .number (.int 1), .string "2", none⟩ _ _ rfl rfl rfl rfl (by simp [wideLoop])
    (by decide +kernel) (.inr (parse_spaced.1 tightEcho))⟩

end Node

end Stencil
