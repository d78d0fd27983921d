import Stencil.Proofs.Render.Replay
import Stencil.Proofs.Token.Places
import Stencil.Proofs.Tree.Joined

set_option autoImplicit false

namespace Stencil

namespace Node

variable {settings : Settings} {context : Context} {ms ns : List Node}

theorem renderInto_joined (sink : String) :
    (document (joined ms ns)).renderInto settings context sink =
      (document [.document ms, .document ns]).renderInto settings context sink := by
  have hj := (seamless_render settings context).joined ms ns
  have hd : renderAll (σ := String) settings context [.document ms, .document ns] =
      (do renderAll settings context ms; renderAll settings context ns) := by
    simp [renderAll, render]
  rw [renderInto, renderInto, render, render, hj, hd]

theorem renderInto_joined_of_ok {x y : String}
    (hx : (document ms).renderInto settings context "" = (.ok (), x))
    (hy : (document ns).renderInto settings context "" = (.ok (), y)) :
    (document (joined ms ns)).renderInto settings context "" = (.ok (), x ++ y) := by
  rw [renderInto_joined]
  rw [renderInto_eq_play, trace] at hx hy ⊢
  rw [Trace.play_string, Prod.mk.injEq] at hy
  simp only [traceAll, trace, Trace.play_andThen, hx]
  simp only [Trace.play_string, hy.1]
  simpa [Trace.done] using hy.2

end Node

theorem renderString_eq_ok_iff {source : String} {t : Node} (h : Node.parse source = .ok t)
    (context : Context) (x : String) :
    renderString source context = .ok x ↔ t.renderInto .default context "" = (.ok (), x) := by
  simp only [renderString, h]
  rcases t.renderInto .default context "" with ⟨r, text⟩
  cases r <;> simp

open Node

/-- Where no tag opens at the seam, two sources together are parsed as the nodes of both, and if
both render, the text of both together is their texts together. -/
theorem parse_append_eq_joined {a b : String} {ms ns : List Node}
    (hs : a.toList.getLast? ≠ some '{' ∨ b.toList.head? ≠ some '$')
    (ha : parse a = .ok (.document ms)) (hb : parse b = .ok (.document ns)) :
    parse (a ++ b) = .ok (.document (joined ms ns)) ∧
      (∀ (settings : Settings) (context : Context) (x y : String),
        (Node.document ms).renderInto settings context "" = (.ok (), x) →
        (Node.document ns).renderInto settings context "" = (.ok (), y) →
        (Node.document (joined ms ns)).renderInto settings context "" = (.ok (), x ++ y)) ∧
      ∀ (context : Context) (x y : String), renderString a context = .ok x →
        renderString b context = .ok y → renderString (a ++ b) context = .ok (x ++ y) := by
  have hseam : Lexer.Seam a.toList b.toList := fun hl => hs.resolve_left (not_not_intro hl)
  have hp : parse (a ++ b) = .ok (.document (joined ms ns)) := by
    rw [parse, String.toList_append]
    exact ofChars_append hseam ha hb
  refine ⟨hp, fun settings context x y => renderInto_joined_of_ok, fun context x y hx hy => ?_⟩
  rw [renderString_eq_ok_iff ha] at hx
  rw [renderString_eq_ok_iff hb] at hy
  rw [renderString_eq_ok_iff hp]
  exact renderInto_joined_of_ok hx hy

def opening : Node :=
  .document
    [.loop ⟨"i", .number (.int 1), .number (.int 2), none⟩ [.echo [.variable "i"], .text ","],
      .text "a\x7b"]

def closing : Node := .document [.text "b", .echo [.variable "i"]]

theorem parse_opening : parse opening.source = .ok opening := by
  have h : opening.Spelled := ⟨by decide +kernel, by decide +kernel, by decide +kernel⟩
  refine parse_source_self h (by decide +kernel) ?_
  simp [opening, tidied, tidyOnto, tidyAllOnto, consText]

theorem parse_closing : parse closing.source = .ok closing := by
  have h : closing.Spelled := ⟨by decide +kernel, by decide +kernel, by decide +kernel⟩
  refine parse_source_self h (by decide +kernel) ?_
  simp [closing, tidied, tidyOnto, tidyAllOnto, consText]

def seven : Context := Context.extend (fun _ => none) "i" (.number (.int 7))

theorem renderString_opening : renderString opening.source seven = .ok "1,2,a\x7b" :=
  (renderString_eq_ok_iff parse_opening _ _).2 (by decide +kernel)

theorem renderString_closing : renderString closing.source seven = .ok "b7" :=
  (renderString_eq_ok_iff parse_closing _ _).2 (by decide +kernel)

theorem parse_opening_closing :
    (opening.source.toList.getLast? ≠ some '{' ∨ closing.source.toList.head? ≠ some '$') ∧
      parse (opening.source ++ closing.source) = .ok (.document
        [.loop ⟨"i", .number (.int 1), .number (.int 2), none⟩ [.echo [.variable "i"], .text ","],
          .text "a\x7bb", .echo [.variable "i"]]) ∧
      renderString (opening.source ++ closing.source) seven = .ok "1,2,a\x7bb7" := by
  have hs : opening.source.toList.getLast? ≠ some '{' ∨ closing.source.toList.head? ≠ some '$' :=
    .inr (by decide +kernel)
  obtain ⟨hp, -, hr⟩ := parse_append_eq_joined hs parse_opening parse_closing
  exact ⟨hs, hp, hr seven _ _ renderString_opening renderString_closing⟩

/-- Taking the backslash off each `\{` and each `\\`, from the left on, gives the second list. -/
inductive Unescapes : List Char → List Char → Prop where
  | nil : Unescapes [] []
  | plain {c : Char} {cs ds : List Char} : c ≠ '\\' → Unescapes cs ds →
    Unescapes (c :: cs) (c :: ds)
  | escape {c : Char} {cs ds : List Char} : c = '{' ∨ c = '\\' → Unescapes cs ds →
    Unescapes ('\\' :: c :: cs) (c :: ds)

/-- No tag opens: what stands before a `{$` ends with a backslash that escapes the brace. -/
def Tagless (cs : List Char) : Prop :=
  ∀ before after ds, cs = before ++ '{' :: '$' :: after → ¬Unescapes before ds

theorem Unescapes.append {as bs cs ds : List Char} (h : Unescapes as bs) (hd : Unescapes cs ds) :
    Unescapes (as ++ cs) (bs ++ ds) := by
  induction h with
  | nil => exact hd
  | plain hc _ ih => exact .plain hc ih
  | escape hc _ ih => exact .escape hc ih

theorem unescapes_or_wrong : ∀ cs : List Char, (∃ ds, Unescapes cs ds) ∨
    ∃ before after ds, cs = before ++ '\\' :: after ∧ Unescapes before ds ∧
      after.head? ≠ some '{' ∧ after.head? ≠ some '\\'
  | [] => .inl ⟨[], .nil⟩
  | c :: cs => by
    by_cases hc : c = '\\'
    · subst hc
      match cs with
      | [] => exact .inr ⟨[], [], [], rfl, .nil, by simp, by simp⟩
      | d :: ds =>
        by_cases hd : d = '{' ∨ d = '\\'
        · rcases unescapes_or_wrong ds with ⟨es, h⟩ | ⟨before, after, es, rfl, hb, ha⟩
          · exact .inl ⟨d :: es, .escape hd h⟩
          · exact .inr ⟨'\\' :: d :: before, after, d :: es, rfl, .escape hd hb, ha⟩
        · rw [not_or] at hd
          exact .inr ⟨[], d :: ds, [], rfl, .nil, by simpa using hd.1, by simpa using hd.2⟩
    · rcases unescapes_or_wrong cs with ⟨es, h⟩ | ⟨before, after, es, rfl, hb, ha⟩
      · exact .inl ⟨c :: es, .plain hc h⟩
      · exact .inr ⟨c :: before, after, c :: es, rfl, .plain hc hb, ha⟩

theorem unescapes_self {cs : List Char} (h : '\\' ∉ cs) : Unescapes cs cs := by
  induction cs with
  | nil => exact .nil
  | cons c cs ih =>
    simp only [List.mem_cons, not_or] at h
    exact .plain (Ne.symm h.1) (ih h.2)

namespace Tagless

open Lexer

theorem of_unopened {cs : List Char} (h : ¬['{', '$'] <:+: cs) : Tagless cs := by
  rintro before after ds rfl -
  exact h ⟨before, after, by simp⟩

theorem suffix {before cs ds : List Char} (h : Tagless (before ++ cs)) (hb : Unescapes before ds) :
    Tagless cs := by
  rintro between after es rfl hu
  exact h (before ++ between) after (ds ++ es) (by simp) (hb.append hu)

theorem opensTag {cs : List Char} (h : Tagless cs) : opensTag cs = false := by
  by_contra ho
  obtain ⟨ds, rfl⟩ := eq_of_opensTag (Bool.not_eq_false _ ▸ ho)
  exact h [] ds [] rfl .nil

end Tagless

namespace Lexer

theorem opensTag_of_append {cs ds : List Char} (h : opensTag (cs ++ ds) = false) :
    opensTag cs = false := by
  by_contra ho
  obtain ⟨es, rfl⟩ := eq_of_opensTag (Bool.not_eq_false _ ▸ ho)
  contradiction

theorem textRun_of_unescapes {before tail ds : List Char} (h : Unescapes before ds)
    (ht : Tagless (before ++ tail)) : TextRun before ds := by
  induction h with
  | nil => exact .nil
  | @plain c cs ds hc _ ih =>
    have htail : Tagless (cs ++ tail) :=
      Tagless.suffix (show Tagless ([c] ++ (cs ++ tail)) from ht) (.plain hc .nil)
    exact .plain hc (opensTag_of_append ht.opensTag) (ih htail)
  | @escape c cs ds hc _ ih =>
    have htail : Tagless (cs ++ tail) :=
      Tagless.suffix (show Tagless (['\\', c] ++ (cs ++ tail)) from ht) (.escape hc .nil)
    exact .escaped hc (ih htail)

end Lexer

open Lexer

namespace Node

theorem ofChars_of_unescapes {cs ds : List Char} (hn : cs ≠ []) (ht : Tagless cs)
    (h : Unescapes cs ds) : ofChars cs = .ok (.document [.text (String.ofList ds)]) := by
  have ht : Tagless (cs ++ []) := by rwa [List.append_nil]
  have hr : TextRun cs ds := textRun_of_unescapes h ht
  have hy := Yields.of_reads (.text false hr hn (.inl rfl)) (by simp)
  rw [List.nil_append, List.append_nil] at hy
  exact ofChars_of_yields hn hy (.text .nil)

theorem ofChars_of_wrong {before after ds : List Char} (ht : Tagless (before ++ '\\' :: after))
    (h : Unescapes before ds) (hb : after.head? ≠ some '{') (hs : after.head? ≠ some '\\') :
    ofChars (before ++ '\\' :: after) =
      .error (.lex ⟨.invalidEscape after.head?, .reached before⟩) := by
  have hw : IsWrong after.head? after.tail := by
    refine ⟨fun c hc => ⟨?_, ?_⟩, fun hn => ?_⟩
    · rintro rfl
      exact hb hc
    · rintro rfl
      exact hs hc
    · rw [List.head?_eq_none_iff.1 hn]
      rfl
  have ha : after.head?.toList ++ after.tail = after := by cases after <;> rfl
  have he := (Reads.escape false (textRun_of_unescapes h ht) hw).next .start
  rw [Reading.source, List.cons_append, ha, Reading.step, Position.start_after] at he
  rw [ofChars_of_ends (by simp) (.nil _) (.error he)]
  rfl

theorem renderInto_text (settings : Settings) (context : Context) (s : String)
    (written : Array String) :
    (document [.text s]).renderInto settings context written = (.ok (), written.push s) := rfl

end Node

/-- A source without tags is one text, which is written in one piece; where a backslash escapes
neither a brace nor a backslash, the first that does not is what is wrong with it. A source with
neither tags nor backslashes is written as it is. -/
theorem parse_of_tagless {source : String} (hs : source ≠ "") :
    (Tagless source.toList →
      (∀ ds, Unescapes source.toList ds →
        Node.parse source = .ok (.document [.text (String.ofList ds)]) ∧
        ∀ (settings : Settings) (context : Context) (written : Array String),
          (Node.document [.text (String.ofList ds)]).renderInto settings context written =
            (.ok (), written.push (String.ofList ds))) ∧
      ((∀ ds, ¬Unescapes source.toList ds) →
        ∃ before after ds, source.toList = before ++ '\\' :: after ∧ Unescapes before ds ∧
          after.head? ≠ some '{' ∧ after.head? ≠ some '\\' ∧
          Node.parse source = .error (.lex ⟨.invalidEscape after.head?, .reached before⟩))) ∧
    ('\\' ∉ source.toList → ¬['{', '$'] <:+: source.toList →
      ∀ context, renderString source context = .ok source) := by
  have hn : source.toList ≠ [] := by simpa using hs
  refine ⟨fun ht => ⟨fun ds hd => ⟨Node.ofChars_of_unescapes hn ht hd, fun settings context ws =>
    Node.renderInto_text settings context _ ws⟩, fun hd => ?_⟩, fun hb ht context => ?_⟩
  · rcases unescapes_or_wrong source.toList with ⟨ds, h⟩ | ⟨before, after, ds, he, h, ha, hb⟩
    · exact absurd h (hd ds)
    · refine ⟨before, after, ds, he, h, ha, hb, ?_⟩
      rw [Node.parse, he]
      exact Node.ofChars_of_wrong (he ▸ ht) h ha hb
  · have hp := Node.ofChars_of_unescapes hn (.of_unopened ht) (unescapes_self hb)
    rw [String.ofList_toList] at hp
    rw [renderString_eq_ok_iff hp]
    rfl

theorem tagless_escaped : Tagless "\\\x7b$ $\x7d".toList := by
  change Tagless ['\\', '{', '$', ' ', '$', '}']
  intro before after ds he hu
  cases hu with
  | nil => cases he
  | plain hc _ => exact hc (List.cons.inj he).1.symm
  | @escape c cs ds _ _ =>
    have hr : ['$', ' ', '$', '}'] = cs ++ '{' :: '$' :: after :=
      (List.cons.inj (List.cons.inj he).2).2
    have hm : '{' ∈ cs ++ '{' :: '$' :: after := by simp
    rw [← hr] at hm
    contradiction

theorem not_unescapes_wrong (ds : List Char) : ¬Unescapes "a\\q".toList ds := by
  intro h
  cases h with
  | plain _ h =>
    cases h with
    | plain hc _ => exact hc rfl
    | escape hc _ => exact absurd hc (by decide)

theorem parse_escaped_wrong_plain :
    (Tagless "\\\x7b$ $\x7d".toList ∧
      Node.parse "\\\x7b$ $\x7d" = .ok (.document [.text "\x7b$ $\x7d"])) ∧
    (Tagless "a\\q".toList ∧
      Node.parse "a\\q" = .error (.lex ⟨.invalidEscape (some 'q'), ⟨1, 2⟩⟩)) ∧
    ∀ context, renderString "\x7b $\x7d" context = .ok "\x7b $\x7d" := by
  have hu : Unescapes "\\\x7b$ $\x7d".toList "\x7b$ $\x7d".toList :=
    .escape (.inl rfl) (unescapes_self (by decide))
  have hw : Tagless "a\\q".toList := .of_unopened (by decide)
  refine ⟨⟨tagless_escaped, ?_⟩, ⟨hw, ?_⟩, ?_⟩
  · exact (((parse_of_tagless (by decide)).1 tagless_escaped).1 _ hu).1
  · obtain ⟨before, after, ds, he, h, -, -, hp⟩ :=
      ((parse_of_tagless (by decide)).1 hw).2 not_unescapes_wrong
    match before, he with
    | [_], he =>
      cases he
      exact hp
    | [], he => cases he
    | [_, _], he => cases he
    | _ :: _ :: _ :: _, he => simp at he
  · exact (parse_of_tagless (by decide)).2 (by decide) (by decide)

end Stencil
