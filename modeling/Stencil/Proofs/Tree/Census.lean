import Mathlib.Order.Bounds.Basic
import Stencil.Proofs.Tree.RoundTrip

set_option autoImplicit false

namespace Stencil

namespace Node

mutual

/-- The children of each document and of each loop in a tree, those of the tree first. -/
def childLists : Node → List (List Node)
  | .document children => children :: childListsOfAll children
  | .text _ => []
  | .loop _ body => body :: childListsOfAll body
  | .echo _ => []

def childListsOfAll : List Node → List (List Node)
  | [] => []
  | n :: ns => n.childLists ++ childListsOfAll ns

end

def isDocument : Node → Bool
  | .document _ => true
  | _ => false

def isText : Node → Bool
  | .text _ => true
  | _ => false

namespace Tidy

variable {ns : List Node}

theorem of_mem_childLists (h : Tidy ns) : ∀ ms ∈ childListsOfAll ns, Tidy ms := by
  induction h with
  | nil => simp [childListsOfAll]
  | text _ _ _ ih => simpa [childListsOfAll, childLists] using ih
  | loop hb _ ihb ih =>
    simp only [childListsOfAll, childLists, List.forall_mem_append, List.forall_mem_cons]
    exact ⟨⟨hb, ihb⟩, ih⟩
  | echo _ ih => simpa [childListsOfAll, childLists] using ih

theorem siblings (h : Tidy ns) : ∀ n ∈ ns, n.isDocument = false ∧ n ≠ .text "" := by
  induction h with
  | nil => simp
  | text hs _ _ ih => simpa [isDocument, hs] using ih
  | loop _ _ _ ih => simpa [isDocument] using ih
  | echo _ ih => simpa [isDocument] using ih

theorem isChain (h : Tidy ns) : ns.IsChain fun m n => m.isText = false ∨ n.isText = false := by
  induction h with
  | nil => exact .nil
  | @text s ns _ hn _ ih =>
    refine List.isChain_cons.2 ⟨fun n hm => .inr ?_, ih⟩
    obtain ⟨ms, rfl⟩ := List.head?_eq_some_iff.1 hm
    cases n with
    | text _ => contradiction
    | _ => rfl
  | loop _ _ _ ih => exact List.isChain_cons.2 ⟨fun _ _ => .inl rfl, ih⟩
  | echo _ ih => exact List.isChain_cons.2 ⟨fun _ _ => .inl rfl, ih⟩

end Tidy

/-- A parsed tree is a document with children. In no list of children is there a document, an empty
text or a text next to a text; the names in its tags are names, no number there is NaN, and the
bounds of its loops are numbers, variables or strings that spell numbers. -/
theorem shape_of_parse {source : String} {t : Node} (h : parse source = .ok t) :
    (∃ n ns, t = .document (n :: ns)) ∧
      (∀ ns ∈ t.childLists, (∀ n ∈ ns, n.isDocument = false ∧ n ≠ .text "") ∧
        ns.IsChain fun m n => m.isText = false ∨ n.isText = false) ∧
      (∀ e ∈ t.elements, e.isNamed = true ∧ e.isNaN = false) ∧
      ∀ e ∈ t.bounds, e.isBound = true := by
  have hp := parsed_of_ofChars h
  obtain ⟨ns, rfl, ht⟩ := hp.isTidy
  have hc : ∀ ms ∈ (document ns).childLists, Tidy ms :=
    List.forall_mem_cons.2 ⟨ht, ht.of_mem_childLists⟩
  refine ⟨?_, fun ms hm => ⟨(hc ms hm).siblings, (hc ms hm).isChain⟩,
    fun e he => ⟨hp.named e he, hp.notNaN e he⟩, hp.isBound⟩
  cases ns with
  | nil => exact absurd rfl hp.nonempty
  | cons n ns => exact ⟨n, ns, rfl⟩

theorem shape_of_parse_patchwork :
    parse patchwork.source = .ok patchwork.tidied ∧ patchwork.tidied.childLists.length = 2 ∧
      (∀ ns ∈ patchwork.tidied.childLists,
        ns.IsChain fun m n => m.isText = false ∨ n.isText = false) ∧
      ∀ e ∈ patchwork.tidied.bounds, e.isBound = true := by
  have h := (parse_source _).trans (ofChars_wire_tidied patchwork_spelled patchwork_wire)
  obtain ⟨-, hs, -, hb⟩ := shape_of_parse h
  exact ⟨h, rfl, fun ns hn => (hs ns hn).2, hb⟩

end Node

/-- How many more loops the tokens begin than they end. -/
def nesting (ts : List Token) : Int := ts.count (.tagName "FOR") - ts.count (.tagName "END")

@[simp] theorem nesting_nil : nesting [] = 0 := rfl

@[simp] theorem nesting_append (ts us : List Token) :
    nesting (ts ++ us) = nesting ts + nesting us := by
  simp only [nesting, List.count_append]
  omega

theorem nesting_begin (ts : List Token) : nesting (.tagName "FOR" :: ts) = nesting ts + 1 := by
  simp [nesting]
  omega

theorem nesting_end : nesting [.tagName "END"] = -1 := by decide

@[simp] theorem Census.empty_beside (c : Census) : empty.beside c = c := by simp [beside, empty]

@[simp] theorem Census.beside_empty (c : Census) : c.beside .empty = c := by simp [beside, empty]

def Token.Plain (t : Token) : Prop := t.isText = false ∧ ∀ name, t ≠ .tagName name

theorem IsElement.plain {t : Token} {e : Element} (h : IsElement t e) : t.Plain := by
  cases h <;> exact ⟨rfl, nofun⟩

theorem plain_of_forall₂ {ts : List Token} {es : List Element} (h : List.Forall₂ IsElement ts es) :
    ∀ t ∈ ts, t.Plain := by
  induction h with
  | nil => simp
  | cons he _ ih => exact List.forall_mem_cons.2 ⟨he.plain, ih⟩

/-- At most `depth` loops are open after any of the tokens, and so many after some of them. -/
def Deepest (ts : List Token) (depth : Nat) : Prop :=
  IsGreatest {d | ∃ before, before <+: ts ∧ d = nesting before} (depth : Int)

namespace Deepest

variable {ts us : List Token} {d e : Nat}

theorem flat (hb : ts.count (.tagName "FOR") = 0) : Deepest ts 0 := by
  refine ⟨⟨[], List.nil_prefix, rfl⟩, ?_⟩
  rintro _ ⟨before, hp, rfl⟩
  have := hp.sublist.count_le (.tagName "FOR")
  simp only [nesting]
  omega

theorem append (h : Deepest ts d) (hz : nesting ts = 0) (hu : Deepest us e) :
    Deepest (ts ++ us) (max d e) := by
  obtain ⟨⟨before, hp, hd⟩, hle⟩ := h
  obtain ⟨⟨more, hm, he⟩, hle'⟩ := hu
  refine ⟨?_, ?_⟩
  · rcases Nat.le_total d e with hde | hde
    · rw [Nat.max_eq_right hde]
      exact ⟨ts ++ more, (List.prefix_append_right_inj ts).2 hm, by rw [nesting_append, hz]; omega⟩
    · rw [Nat.max_eq_left hde]
      exact ⟨before, hp.trans (List.prefix_append ts us), hd⟩
  · rintro _ ⟨first, hf, rfl⟩
    rcases List.prefix_or_prefix_of_prefix hf (List.prefix_append ts us) with ht | ⟨rest, rfl⟩
    · have := hle ⟨first, ht, rfl⟩
      omega
    · have := hle' ⟨rest, (List.prefix_append_right_inj ts).1 hf, rfl⟩
      rw [nesting_append, hz]
      omega

theorem loop (h : Deepest ts d) (hz : nesting ts = 0) :
    Deepest (.tagName "FOR" :: (ts ++ [.tagName "END"])) (d + 1) := by
  obtain ⟨⟨before, hp, hd⟩, hle⟩ := h
  refine ⟨⟨.tagName "FOR" :: before, ?_, ?_⟩, ?_⟩
  · exact List.cons_prefix_cons.2 ⟨rfl, hp.trans (List.prefix_append ts _)⟩
  · rw [nesting_begin]
    omega
  · rintro _ ⟨first, hf, rfl⟩
    rcases List.prefix_cons_iff.1 hf with rfl | ⟨rest, rfl, hr⟩
    · rw [nesting_nil]
      omega
    · rw [nesting_begin]
      rcases List.prefix_concat_iff.1 hr with rfl | hr
      · rw [nesting_append, nesting_end, hz]
        omega
      · have := hle ⟨rest, hr, rfl⟩
        omega

end Deepest

/-- The census counts what is in the tokens, which end every loop that they begin. -/
structure Tallies (ts : List Token) (c : Census) : Prop where
  documents : c.documents = 0
  texts : c.texts = ts.countP Token.isText
  echoes : c.echoes = ts.count (.tagName "=")
  begun : c.loops = ts.count (.tagName "FOR")
  ended : c.loops = ts.count (.tagName "END")
  depth : Deepest ts c.depth

namespace Tallies

variable {ts us : List Token} {a b : Census}

theorem nesting_eq_zero (h : Tallies ts a) : nesting ts = 0 := by
  rw [nesting, ← h.begun, ← h.ended]
  omega

theorem append (h : Tallies ts a) (hu : Tallies us b) : Tallies (ts ++ us) (a.beside b) where
  documents := by simp [Census.beside, h.documents, hu.documents]
  texts := by simp [Census.beside, h.texts, hu.texts]
  echoes := by simp [Census.beside, h.echoes, hu.echoes]
  begun := by simp [Census.beside, h.begun, hu.begun]
  ended := by simp [Census.beside, h.ended, hu.ended]
  depth := h.depth.append h.nesting_eq_zero hu.depth

theorem loop (h : Tallies ts a) : Tallies (.tagName "FOR" :: (ts ++ [.tagName "END"]))
    { a with loops := a.loops + 1, depth := a.depth + 1 } where
  documents := h.documents
  texts := by simp [h.texts, Token.isText]
  echoes := by simp [h.echoes]
  begun := by simp [h.begun]
  ended := by simp [h.ended]
  depth := h.depth.loop h.nesting_eq_zero

theorem of_plain (h : ∀ t ∈ ts, t.Plain) : Tallies ts .empty := by
  have hn (name : String) : ts.count (.tagName name) = 0 :=
    List.count_eq_zero.2 fun hm => (h _ hm).2 name rfl
  have ht : ts.countP Token.isText = 0 :=
    List.countP_eq_zero.2 fun t hm => by simp [(h t hm).1]
  exact ⟨rfl, ht.symm, (hn _).symm, (hn _).symm, (hn _).symm, .flat (hn _)⟩

theorem text (s : String) : Tallies [.text s] { Census.empty with texts := 1 } :=
  ⟨rfl, rfl, rfl, rfl, rfl, .flat rfl⟩

theorem echo : Tallies [.tagName "="] { Census.empty with echoes := 1 } :=
  ⟨rfl, rfl, by decide, by decide, by decide, .flat (by decide)⟩

end Tallies

theorem tallies_open : Tallies [.tagOpen] .empty := .of_plain (by simp [Token.Plain, Token.isText])

theorem tallies_close {args : List Token} {es : List Element} (h : List.Forall₂ IsElement args es) :
    Tallies (args ++ [.tagClose]) .empty :=
  .of_plain <| List.forall_mem_append.2
    ⟨plain_of_forall₂ h, by simp [Token.Plain, Token.isText]⟩

theorem Items.tallies {ts : List Token} {ns : List Node} (h : Items ts ns) :
    Tallies ts (Node.censusAll ns) := by
  induction h with
  | nil => exact .of_plain (by simp)
  | @text s ts ns _ ih => exact (Tallies.text s).append ih
  | @echo args ts es ns ha _ ih =>
    have ht := tallies_open.append (Tallies.echo.append ((tallies_close ha).append ih))
    simpa [tagTokens, Node.censusAll, Node.census] using ht
  | @loop args body ts h ms ns ha _ _ ihb ih =>
    -- From name to name, where its own nodes are between the rests of two tags.
    have hb := (((tallies_close ha.forall₂).append ihb).append tallies_open).loop
    have ht := tallies_open.append (hb.append ((tallies_close .nil).append ih))
    simpa [tagTokens, Node.censusAll, Node.census] using ht

/-- The census of a parsed tree counts the tokens of its source, which has as many tags that end a
loop as tags that begin one; its depth is the greatest surplus of the latter over the prefixes of
the tokens. -/
theorem census_of_parse {source : String} {t : Node} (h : Node.parse source = .ok t) :
    ∃ (ps : List Placed) (ts : List Token),
      Lexer.results source.toList = ps.map .ok ∧ ts = ps.map (·.token) ∧
      t.census.documents = 1 ∧
      t.census.texts = ts.countP Token.isText ∧
      t.census.echoes = ts.count (.tagName "=") ∧
      t.census.loops = ts.count (.tagName "FOR") ∧
      t.census.loops = ts.count (.tagName "END") ∧
      IsGreatest {d : Int | ∃ before, before <+: ts ∧
        d = before.count (.tagName "FOR") - before.count (.tagName "END")} t.census.depth := by
  obtain ⟨-, ts, ns, rfl, ⟨ps, p, rfl, hp, hl⟩, hi⟩ := items_of_ofChars_eq_ok h
  have he : Tallies [p.token] .empty := .of_plain (by simp [hp, Token.Plain, Token.isText])
  obtain ⟨hd, ht, hec, hb, hen, hm⟩ := hi.tallies.append he
  rw [Census.beside_empty] at hd ht hec hb hen hm
  exact ⟨ps ++ [p], _, hl, by simp, by simp [Node.census, hd], ht, hec, hb, hen, hm⟩

def trellis : Node :=
  .document [.text "[",
    .loop ⟨"i", .number (.int 1), .number (.int 2), none⟩
      [.loop ⟨"j", .number (.int 1), .variable "i", none⟩ [.echo [.variable "j"]], .text ";",
        .loop ⟨"k", .number (.int 3), .number (.int 1), none⟩ []],
    .echo [.variable "i"]]

theorem parse_trellis : Node.parse trellis.source = .ok trellis := by
  have h : trellis.Spelled := ⟨by decide +kernel, by decide +kernel, by decide +kernel⟩
  refine Node.parse_source_self h (by decide +kernel) ?_
  simp [trellis, Node.tidied, Node.tidyOnto, Node.tidyAllOnto, Node.consText]

theorem census_of_parse_trellis :
    Node.parse trellis.source = .ok trellis ∧ trellis.census = ⟨1, 2, 3, 2, 2⟩ ∧
      ∃ ps : List Placed, Lexer.results trellis.source.toList = ps.map .ok ∧
        (ps.map (·.token)).countP Token.isText = 2 ∧
        (ps.map (·.token)).count (.tagName "END") = 3 := by
  have hc : trellis.census = ⟨1, 2, 3, 2, 2⟩ := by decide +kernel
  obtain ⟨ps, ts, hl, rfl, -, ht, -, -, he, -⟩ := census_of_parse parse_trellis
  rw [hc] at ht he
  exact ⟨parse_trellis, hc, ps, hl, ht.symm, he.symm⟩

end Stencil
