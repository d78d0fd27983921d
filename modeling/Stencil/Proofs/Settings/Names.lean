import Stencil.Proofs.Settings.Assignment
import Stencil.Proofs.Tree.Joined

set_option autoImplicit false

namespace Stencil

namespace Text

variable {name : String}

theorem isWord_of_isName (h : isName name = true) {c : Char} (hc : c ∈ name.toList) :
    isWord c = true :=
  (Lexer.nameWord_of_isName h Lexer.breaksOff_nil).inside c hc

theorem isBlank_of_isWord {c : Char} (h : isWord c = true) : isBlank c = false := by
  rw [Bool.eq_false_iff]
  intro hb
  simp [(isWord_of_isBlank hb).1] at h

theorem unbroken_of_isName (h : isName name = true) : Assignment.Unbroken name.toList := by
  refine ⟨?_, ?_, ?_⟩
  · obtain ⟨d, ds, hn, -⟩ := exists_of_isName h
    simp [hn]
  · intro hc
    exact absurd (isWord_of_isName h hc) (by decide)
  · rw [List.any_eq_false]
    intro c hc
    rw [isBlank_of_isWord (isWord_of_isName h hc)]
    exact Bool.false_ne_true

end Text

theorem lt_of_isName {name : List Char} (h : isName name = true) : ∀ c ∈ name, c.toNat < 128 := by
  intro c hc
  rcases Assignment.mem_of_isName h hc with ha | hd | rfl
  · have := Text.toNat_mem_of_isAlpha ha
    simp only [List.mem_append, List.mem_range'_1] at this
    omega
  · have := Text.toNat_mem_of_isDigit hd
    simp only [List.mem_range'_1] at this
    omega
  · decide

theorem isName_iff {name : String} :
    isName name.toList = true ↔
      Text.isName name = true ∧ ∀ c ∈ name.toList, c.toNat < 128 := by
  have heq (hlt : ∀ c ∈ name.toList, c.toNat < 128) : isName name.toList = Text.isName name := by
    unfold isName Text.isName
    cases hn : name.toList with
    | nil => rfl
    | cons c cs =>
      rw [hn, List.forall_mem_cons] at hlt
      dsimp only
      rw [Text.isLetter_of_lt hlt.1]
      congr 1
      rw [Bool.eq_iff_iff, List.all_eq_true, List.all_eq_true]
      exact forall₂_congr fun d hd => by rw [Text.isWord_of_lt (hlt.2 d hd)]
  constructor
  · intro h
    have hlt := lt_of_isName h
    exact ⟨heq hlt ▸ h, hlt⟩
  · rintro ⟨h, hlt⟩
    exact heq hlt ▸ h

namespace Node

variable {name : String}

theorem isName_of_parse {source : String} {t : Node} (h : parse source = .ok t)
    (he : .variable name ∈ t.elements) : Text.isName name = true :=
  (parsed_of_ofChars h).named _ he

def echoOf (name : String) : String := "\x7b$= " ++ name ++ " $\x7d"

def Spacing.ofName (name : String) (h : Text.isName name = true) : Spacing where
  lead := .none
  items := [(.one, .variable name)]
  trail := .one
  apart _ hi := absurd hi List.not_mem_nil
  written := List.forall_mem_singleton.2 ⟨h, rfl⟩

theorem parse_echoOf_iff :
    parse (echoOf name) = .ok (.document [.echo [.variable name]]) ↔ Text.isName name = true := by
  constructor
  · intro h
    exact isName_of_parse h (by simp [elements, elementsOfAll])
  · intro h
    have hw : (echoOf name).toList = (Spacing.ofName name h).wire ['='] := by
      simp [echoOf, Spacing.ofName, Spacing.wire, itemsWire, Blanks.none, Blanks.one, Element.wire]
    rw [parse, hw, ofChars_echo_wire]
    rfl

end Node

namespace Change

variable {name : String} {v : Value}

theorem ofSetting_ne_define (n w : List Char) : ofSetting n w ≠ .ok (.define name v) := by
  unfold ofSetting
  split
  · cases Assignment.positiveCount? w <;> simp
  · split
    · cases flag? w <;> simp
    · simp

theorem isName_of_ofCommand {command : Command} {text : List Char}
    (h : ofCommand command text = .ok (.define name v)) : isName name.toList = true := by
  unfold ofCommand at h
  split at h
  · contradiction
  · exact absurd h (ofSetting_ne_define _ _)
  · rename_i n w _
    unfold ofDefinition at h
    split at h
    · cases h
      rwa [String.toList_ofList]
    · contradiction

end Change

namespace Configuration

variable {name : String} {c : Configuration}

theorem isName_of_accepted? {line : List Char} {v : Value}
    (h : accepted? line = some (.define name v)) : isName name.toList = true := by
  unfold accepted? at h
  split at h
  · rename_i ch hl
    cases h
    obtain ⟨c, -, hc⟩ := Option.map_eq_some_iff.1 hl
    exact Change.isName_of_ofCommand hc
  · contradiction

def Named (c : Configuration) : Prop :=
  ∀ name v, c.defined.get? name = some v → isName name.toList = true

theorem named_default : Configuration.default.Named := by
  intro name v h
  cases h

theorem Named.change (h : c.Named) {ch : Change}
    (hc : ∀ name v, ch = .define name v → isName name.toList = true) : (c.change ch).Named := by
  intro name v hv
  cases ch with
  | maxIterations n => exact h name v hv
  | strict b => exact h name v hv
  | define m w =>
    rw [Configuration.change, Table.get?_insert] at hv
    split at hv
    · rename_i hm
      exact hm ▸ hc m w rfl
    · exact h name v hv

theorem Named.readLine {state : Configuration × List LineError} (h : state.1.Named)
    (line : List Char × Nat) : (Configuration.readLine state line).1.Named := by
  rw [readLine_eq]
  cases ha : accepted? line.1 with
  | none => exact h
  | some ch => exact h.change fun name v hc => isName_of_accepted? (hc ▸ ha)

theorem Named.foldl {state : Configuration × List LineError} (h : state.1.Named)
    (lines : List (List Char × Nat)) : (lines.foldl Configuration.readLine state).1.Named := by
  induction lines generalizing state with
  | nil => exact h
  | cons line lines ih => exact ih (h.readLine line)

theorem named_read (s : String) : (read s).1.Named := named_default.foldl _

def oneLine (name : String) : String := "/let " ++ name ++ "=1"

theorem toList_oneLine (name : String) :
    (oneLine name).toList = "/let ".toList ++ (name.toList ++ '=' :: ['1']) := by
  simp [oneLine]

theorem readLine_oneLine (h : isName name.toList = true) (c : Configuration)
    (errors : List LineError) (k : Nat) :
    readLine (c, errors) ((oneLine name).toList, k) =
      (c.change (.define name (.number (.int 1))), errors) := by
  have hl : Assignment.literal ['1'] = .number (.int 1) := by decide +kernel
  rw [toList_oneLine, Assignment.readLine_assigned h ⟨by decide, by decide⟩ (by decide), hl,
    String.ofList_toList]

theorem read_oneLine (h : isName name.toList = true) :
    read (oneLine name) = (Configuration.default.change (.define name (.number (.int 1))), []) := by
  have hr := readLine_oneLine h .default [] 1
  rw [toList_oneLine] at hr
  rw [read, toList_oneLine]
  exact Assignment.ofChars_assigned (Assignment.unbroken_of_isName h) (by decide) hr

theorem defines_oneLine_iff :
    (read (oneLine name)).2 = [] ∧
        (read (oneLine name)).1.defined.get? name = some (.number (.int 1)) ↔
      isName name.toList = true := by
  constructor
  · rintro ⟨-, h⟩
    exact named_read _ name _ h
  · intro h
    rw [read_oneLine h]
    refine ⟨rfl, ?_⟩
    rw [get?_defined_change, Change.value?, if_pos rfl]
    rfl

theorem read_oneLine_refused {name : String} (h : Text.isName name = true)
    (hn : ¬∀ c ∈ name.toList, c.toNat < 128) :
    read (oneLine name) = (.default, [⟨1, .notName name⟩]) := by
  have hu := Text.unbroken_of_isName h
  have hf : isName name.toList = false := by
    rw [Bool.eq_false_iff]
    exact fun ht => hn (lt_of_isName ht)
  have hr := Assignment.readLine_refused hu hf (v := ['1']) ⟨by decide, by decide⟩ (by decide)
    .default [] 1
  rw [read, toList_oneLine, Assignment.ofChars_assigned hu (by decide) hr, String.ofList_toList]
  rfl

/-- The line `/let n=1` defines the name `n`, in a script of its own and wherever else it stands,
exactly if the template that echoes `n` alone is parsed as that and `n` is written in ASCII. If it
is not, the template may refer to `n` and the line is still reported. So the names that some script
can define are those in ASCII that some template can refer to. -/
theorem defines_iff_refers (n : String) :
    ((read (oneLine n)).2 = [] ∧
        (read (oneLine n)).1.defined.get? n = some (.number (.int 1)) ↔
      Node.parse (Node.echoOf n) = .ok (.document [.echo [.variable n]]) ∧
        ∀ c ∈ n.toList, c.toNat < 128) ∧
    ((∀ (c : Configuration) (errors : List LineError) (k : Nat),
        readLine (c, errors) ((oneLine n).toList, k) =
          (c.change (.define n (.number (.int 1))), errors)) ↔
      Node.parse (Node.echoOf n) = .ok (.document [.echo [.variable n]]) ∧
        ∀ c ∈ n.toList, c.toNat < 128) ∧
    (Node.parse (Node.echoOf n) = .ok (.document [.echo [.variable n]]) →
      (¬∀ c ∈ n.toList, c.toNat < 128) →
        read (oneLine n) = (.default, [⟨1, .notName n⟩])) ∧
    ((∃ s v, (read s).1.defined.get? n = some v) ↔
      (∃ s t, Node.parse s = .ok t ∧ .variable n ∈ t.elements) ∧
        ∀ c ∈ n.toList, c.toNat < 128) := by
  rw [Node.parse_echoOf_iff, ← isName_iff]
  refine ⟨defines_oneLine_iff, ⟨fun h => ?_, fun h => readLine_oneLine h⟩,
    read_oneLine_refused, ⟨?_, ?_⟩⟩
  · have hl : (readLine (.default, []) ((oneLine n).toList, 1)).1.Named := named_default.readLine _
    rw [h] at hl
    exact hl n (.number (.int 1)) (by simp [Configuration.change])
  · rintro ⟨s, v, h⟩
    obtain ⟨ht, ha⟩ := isName_iff.1 (named_read s n v h)
    exact ⟨⟨Node.echoOf n, _, Node.parse_echoOf_iff.2 ht, by
      simp [Node.elements, Node.elementsOfAll]⟩, ha⟩
  · rintro ⟨⟨s, t, hp, he⟩, ha⟩
    have hn := isName_iff.2 ⟨Node.isName_of_parse hp he, ha⟩
    exact ⟨oneLine n, _, (defines_oneLine_iff.2 hn).2⟩

theorem accent_refused : ¬∀ n : String,
    ((read (oneLine n)).2 = [] ∧
        (read (oneLine n)).1.defined.get? n = some (.number (.int 1)) ↔
      Node.parse (Node.echoOf n) = .ok (.document [.echo [.variable n]])) := by
  intro h
  have hn : Text.isName "é" = true := by decide +kernel
  have hd := defines_oneLine_iff.1 ((h "é").2 (Node.parse_echoOf_iff.2 hn))
  exact absurd hd (by decide)

end Configuration

end Stencil
