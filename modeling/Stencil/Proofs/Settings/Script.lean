import Stencil.Proofs.Prelude

/-! Settings scripts as lists of changes, of which the last one of each part counts. -/

set_option autoImplicit false

namespace Stencil

namespace Change

def maxIterations? : Change → Option Nat
  | .maxIterations n => some n
  | _ => none

def strict? : Change → Option Bool
  | .strict b => some b
  | _ => none

def value? (name : String) : Change → Option Value
  | .define m v => if name = m then some v else none
  | _ => none

/-- The change of a line or its fault; none on the lines that are passed over. -/
def ofLine? (line : List Char) : Option (Except LineFault Change) :=
  (Configuration.command? line).map fun c => ofCommand c.1 c.2

end Change

def LineError.later (n : Nat) (e : LineError) : LineError := { e with line := e.line + n }

namespace Configuration

variable {cs ds : List Char}

def accepted? (line : List Char) : Option Change :=
  match Change.ofLine? line with
  | some (.ok ch) => some ch
  | _ => none

def refused? (line : List Char) : Option LineFault :=
  match Change.ofLine? line with
  | some (.error f) => some f
  | _ => none

def error? (line : List Char × Nat) : Option LineError := (refused? line.1).map (⟨line.2, ·⟩)

def changes (cs : List Char) : List Change := (Text.lines cs).filterMap accepted?

def errors (cs : List Char) : List LineError := ((Text.lines cs).zipIdx 1).filterMap error?

theorem readLine_eq (state : Configuration × List LineError) (line : List Char × Nat) :
    readLine state line = ((accepted? line.1).toList.foldl change state.1,
      (error? line).toList ++ state.2) := by
  rw [readLine, accepted?, error?, refused?, Change.ofLine?]
  rcases command? line.1 with _ | ⟨command, text⟩
  · rfl
  · dsimp only [Option.map]
    rw [follow]
    cases Change.ofCommand command text <;> rfl

theorem foldl_readLine (lines : List (List Char × Nat)) (state : Configuration × List LineError) :
    lines.foldl readLine state = (((lines.map Prod.fst).filterMap accepted?).foldl change state.1,
      (lines.filterMap error?).reverse ++ state.2) := by
  induction lines generalizing state with
  | nil => rfl
  | cons line lines ih =>
    rw [List.foldl_cons, ih, readLine_eq, List.map_cons, List.filterMap_cons, List.filterMap_cons]
    cases accepted? line.1 <;> cases error? line <;> simp

theorem ofChars_eq (cs : List Char) :
    ofChars cs = ((changes cs).foldl change .default, errors cs) := by
  rw [ofChars, foldl_readLine, List.zipIdx_map_fst, List.append_nil, errors]
  simp only [List.reverse_reverse]
  rfl

theorem changes_append (h : cs = [] ∨ cs.getLast? = some '\n') :
    changes (cs ++ ds) = changes cs ++ changes ds := by
  obtain ⟨ls, -, hl⟩ := Text.exists_lines_append h
  have hcs := hl []
  rw [List.append_nil] at hcs
  -- The empty line after the last newline is passed over.
  have hn : (Text.lines []).filterMap accepted? = [] := rfl
  simp only [changes, hl, hcs, List.filterMap_append, hn, List.append_nil]

theorem error?_add (n : Nat) (line : List Char × Nat) :
    error? (line.1, line.2 + n) = (error? line).map (.later n) := by
  rw [error?, error?, Option.map_map]
  rfl

theorem errors_append (h : cs = [] ∨ cs.getLast? = some '\n') :
    errors (cs ++ ds) = errors cs ++ (errors ds).map (.later (cs.count '\n')) := by
  obtain ⟨ls, hn, hl⟩ := Text.exists_lines_append h
  have hcs := hl []
  rw [List.append_nil] at hcs
  have hlast : ((Text.lines []).zipIdx (1 + ls.length)).filterMap error? = [] := rfl
  have hlater : ((Text.lines ds).zipIdx (1 + ls.length)).filterMap error? =
      (errors ds).map (.later ls.length) := by
    rw [Nat.add_comm, ← List.map_snd_add_zipIdx_eq_zipIdx, List.filterMap_map, errors,
      List.map_filterMap]
    exact congrArg (List.filterMap · _) (funext fun line => error?_add ls.length line)
  rw [errors, errors, hl, hcs, List.zipIdx_append, List.zipIdx_append, List.filterMap_append,
    List.filterMap_append, hlast, hlater, List.append_nil, hn]

/-- The script without what stands in the lines of these numbers. -/
def blanked (numbers : List Nat) (cs : List Char) : List Char :=
  ['\n'].intercalate (((Text.lines cs).zipIdx 1).map fun l => if l.2 ∈ numbers then [] else l.1)

def quiet (line : List Char) : List Char := if (refused? line).isSome then [] else line

theorem accepted?_quiet (line : List Char) : accepted? (quiet line) = accepted? line := by
  unfold quiet
  split
  · rename_i h
    have hr : refused? line = none ∨ accepted? line = none := by
      unfold refused? accepted?
      rcases Change.ofLine? line with _ | _ | _ <;> simp
    rcases hr with hr | ha
    · rw [hr] at h
      contradiction
    · rw [ha]
      rfl
  · rfl

theorem refused?_quiet (line : List Char) : refused? (quiet line) = none := by
  unfold quiet
  split
  · rfl
  · rename_i h
    simpa using h

theorem mem_errors_iff {l : List Char × Nat} (hl : l ∈ (Text.lines cs).zipIdx 1) :
    l.2 ∈ (errors cs).map (·.line) ↔ (refused? l.1).isSome = true := by
  constructor
  · intro h
    obtain ⟨e, he, hline⟩ := List.mem_map.1 h
    obtain ⟨m, hm, hf⟩ := List.mem_filterMap.1 he
    obtain ⟨f, hr, rfl⟩ := Option.map_eq_some_iff.1 hf
    -- No other line has the number.
    have hml := (List.mem_zipIdx_iff_le_and_getElem?_sub.1 hm).2
    rw [show m.2 = l.2 from hline, (List.mem_zipIdx_iff_le_and_getElem?_sub.1 hl).2] at hml
    rw [Option.some.inj hml, hr]
    rfl
  · intro h
    obtain ⟨f, hf⟩ := Option.isSome_iff_exists.1 h
    exact List.mem_map.2 ⟨⟨l.2, f⟩, List.mem_filterMap.2 ⟨l, hl, by rw [error?, hf]; rfl⟩, rfl⟩

theorem lines_blanked (cs : List Char) :
    Text.lines (blanked ((errors cs).map (·.line)) cs) = (Text.lines cs).map quiet := by
  have hmap : (((Text.lines cs).zipIdx 1).map fun l =>
      if l.2 ∈ (errors cs).map (·.line) then [] else l.1) = (Text.lines cs).map quiet :=
    calc
      _ = ((Text.lines cs).zipIdx 1).map (quiet ∘ Prod.fst) := by
        refine List.map_congr_left fun l hl => ?_
        simp only [Function.comp_apply, quiet, mem_errors_iff hl]
      _ = (Text.lines cs).map quiet := by rw [← List.map_map, List.zipIdx_map_fst]
  rw [blanked, hmap]
  refine Text.lines_intercalate (fun l hl => ?_) ?_
  · obtain ⟨m, hm, rfl⟩ := List.mem_map.1 hl
    unfold quiet
    split
    · exact List.not_mem_nil
    · exact Text.notMem_of_mem_lines hm
  · simpa using Text.lines_ne_nil cs

theorem changes_blanked (cs : List Char) :
    changes (blanked ((errors cs).map (·.line)) cs) = changes cs := by
  rw [changes, lines_blanked, List.filterMap_map, changes]
  exact congrArg (List.filterMap · _) (funext accepted?_quiet)

theorem errors_blanked (cs : List Char) :
    errors (blanked ((errors cs).map (·.line)) cs) = [] := by
  rw [errors, lines_blanked, List.zipIdx_map, List.filterMap_map, List.filterMap_eq_nil_iff]
  intro l hl
  simp [error?, refused?_quiet]

def last? {α : Type} (part : Change → Option α) (cs : List Char) : Option α :=
  lastOf? part (changes cs)

theorem part_ofChars {α β : Type} (get : Configuration → β) (part : Change → Option α) (f : α → β)
    (h : ∀ c ch, get (change c ch) = (part ch).elim (get c) f) (cs : List Char) :
    get (ofChars cs).1 = (last? part cs).elim (get .default) f := by
  rw [ofChars_eq]
  exact get_foldl get part f h .default (changes cs)

theorem get?_defined_change (name : String) (c : Configuration) (ch : Change) :
    (change c ch).defined.get? name =
      (Change.value? name ch).elim (c.defined.get? name) some := by
  cases ch with
  | maxIterations n => rfl
  | strict b => rfl
  | define m v =>
    rw [change, Table.get?_insert, Change.value?]
    split <;> rfl

theorem get?_defined_ofChars (name : String) (cs : List Char) :
    (ofChars cs).1.defined.get? name = last? (Change.value? name) cs := by
  rw [part_ofChars (·.defined.get? name) _ some (get?_defined_change name)]
  cases last? (Change.value? name) cs <;> rfl

theorem part_ofChars_append {α β : Type} (get : Configuration → β) (part : Change → Option α)
    (f : α → β) (h : ∀ c ch, get (change c ch) = (part ch).elim (get c) f) (ds : List Char)
    (hcs : cs = [] ∨ cs.getLast? = some '\n') :
    get (ofChars (cs ++ ds)).1 = (last? part ds).elim (get (ofChars cs).1) f := by
  rw [ofChars_eq, ofChars_eq, changes_append hcs, List.foldl_append]
  exact get_foldl get part f h _ (changes ds)

theorem setting_ofChars_append {α : Type} (get : Configuration → α) (part : Change → Option α)
    (h : ∀ c ch, get (change c ch) = (part ch).getD (get c)) (ds : List Char)
    (hcs : cs = [] ∨ cs.getLast? = some '\n') :
    get (ofChars (cs ++ ds)).1 = (last? part ds).getD (get (ofChars cs).1) := by
  have hpart : ∀ c ch, get (change c ch) = (part ch).elim (get c) id := by
    intro c ch
    rw [h]
    cases part ch <;> rfl
  rw [part_ofChars_append get part id hpart ds hcs]
  cases last? part ds <;> rfl

theorem get?_ofChars_append (h : cs = [] ∨ cs.getLast? = some '\n') (name : String) :
    (ofChars (cs ++ ds)).1.defined.get? name =
      ((ofChars ds).1.defined.get? name).or ((ofChars cs).1.defined.get? name) := by
  rw [part_ofChars_append (·.defined.get? name) _ some (get?_defined_change name) ds h,
    get?_defined_ofChars name cs, get?_defined_ofChars name ds]
  cases last? (Change.value? name) ds <;> rfl

/-- A script makes the changes of its lines one after the other and reports the others. So when one
script follows another, its variables override those of the other, a setting is as it sets it last
or else as the other left it, and its errors come after those of the other, as many lines further
down as the other has. And lines that are reported might as well be blank. -/
theorem read_lines :
    (∀ s, read s = ((changes s.toList).foldl change .default, errors s.toList)) ∧
    (∀ a b : String, a = "" ∨ a.toList.getLast? = some '\n' →
      (∀ name, (read (a ++ b)).1.defined.get? name =
        ((read b).1.defined.get? name).or ((read a).1.defined.get? name)) ∧
      (read (a ++ b)).1.settings.maxIterations =
        (last? Change.maxIterations? b.toList).getD (read a).1.settings.maxIterations ∧
      (read (a ++ b)).1.settings.strict =
        (last? Change.strict? b.toList).getD (read a).1.settings.strict ∧
      (read (a ++ b)).2 = (read a).2 ++ (read b).2.map (.later (a.toList.count '\n'))) ∧
    ∀ s, read (String.ofList (blanked ((read s).2.map (·.line)) s.toList)) = ((read s).1, []) := by
  refine ⟨fun s => ofChars_eq s.toList, fun a b h => ?_, fun s => ?_⟩
  · have hcs : a.toList = [] ∨ a.toList.getLast? = some '\n' := by simpa using h
    simp only [read, String.toList_append]
    refine ⟨get?_ofChars_append hcs, ?_, ?_, ?_⟩
    · exact setting_ofChars_append (·.settings.maxIterations) _ (fun c ch => by cases ch <;> rfl)
        b.toList hcs
    · exact setting_ofChars_append (·.settings.strict) _ (fun c ch => by cases ch <;> rfl)
        b.toList hcs
    · simp only [ofChars_eq, errors_append hcs]
  · simp only [read, String.toList_ofList, ofChars_eq, changes_blanked, errors_blanked]

theorem read_lines_reported :
    let c := read ("/let x=1\n/set colour=red\n" ++ "/set max_iterations=7\n/let x=two\n/set\n")
    c.1.defined.get? "x" = some (.string "two") ∧ c.1.settings.maxIterations = 7 ∧
      c.1.settings.strict = false ∧
      c.2 = [⟨2, .unknownSetting "colour"⟩, ⟨5, .noAssignment .set⟩] ∧
      read "\n/let x=1" = ((read "/set\n/let x=1").1, []) := by
  obtain ⟨hx, hm, hs, he⟩ := read_lines.2.1 "/let x=1\n/set colour=red\n"
    "/set max_iterations=7\n/let x=two\n/set\n" (.inr (by decide))
  have hb : String.ofList (blanked ((read "/set\n/let x=1").2.map (·.line))
      "/set\n/let x=1".toList) = "\n/let x=1" := by decide +kernel
  refine ⟨(hx "x").trans (by decide +kernel), hm.trans (by decide +kernel),
    hs.trans (by decide +kernel), he.trans (by decide +kernel), ?_⟩
  rw [← hb]
  exact read_lines.2.2 "/set\n/let x=1"

end Configuration

end Stencil
