import Stencil.Proofs.Program.Spelled
import Stencil.Proofs.Render.Replay
import Stencil.Proofs.Tree.RoundTrip

/-! The layers of settings: the command line, over the settings script, over the defaults. -/

set_option autoImplicit false

namespace Stencil

open CommandLine

/-- What the command line says last of a name, or else the script. -/
def resolved (rs : List Request) (script : String) : Context := fun name =>
  (lastOf? (Request.value? name) rs).or
    (Configuration.last? (Change.value? name) script.toList)

/-- Each setting as the command line gives it last, or else the script, or else the default. -/
def settled (rs : List Request) (script : String) : Settings where
  maxIterations := ((lastOf? Request.limit? rs).or
    (Configuration.last? Change.maxIterations? script.toList)).getD 1000000
  strict := decide (.switch .strict ∈ rs) ||
    (Configuration.last? Change.strict? script.toList).getD false

def rendering (rs : List Request) (script : String) (tree : Node) :
    Except RenderError Unit × Array String :=
  tree.renderInto (settled rs script) (resolved rs script) (#[] : Array String)

namespace Options

theorem distinct_foldl (rs : List Request) {o : Options} (h : o.defines.Distinct) :
    (rs.foldl ask o).defines.Distinct := by
  induction rs generalizing o with
  | nil => exact h
  | cons r rs ih =>
    refine ih ?_
    rcases r with (_ | _) | _ | ⟨name, v⟩ | _
    case define => exact h.insert name v
    all_goals exact h

end Options

namespace Program

section Inputs

variable {m : Type → Type} [Monad m]

/-- The settings script, and the empty one where none is read. -/
def scriptText (w : World m) (choice : ScriptChoice) : m (Except ProgramError String) := do
  match ← scriptPath w choice with
  | none => return .ok ""
  | some path => readFile w path

/-- The script and the template. Where the script cannot be read, the template is not read. -/
def inputs (w : World m) (choice : ScriptChoice) (template : TemplateChoice) :
    m (Except ProgramError (String × String)) := do
  match ← scriptText w choice with
  | .error e => return .error e
  | .ok script => return (← readTemplate w template).map (script, ·)

def outcome (o : Options) : Except ProgramError (String × String) → Outcome
  | .error e => failure "" e.message
  | .ok (script, source) => rendered (configured (Configuration.read script).1 o) source

theorem bind_readScript [LawfulMonad m] (w : World m) (choice : ScriptChoice) :
    (scriptPath w choice >>= readScript w) =
      (Except.map fun script => (Configuration.read script).1) <$> scriptText w choice := by
  rw [scriptText, map_bind]
  refine congrArg (scriptPath w choice >>= ·) (funext fun path => ?_)
  cases path with
  | none =>
    rw [map_pure]
    rfl
  | some path => exact bind_pure_comp _ _

theorem runInvocation_eq [LawfulMonad m] (w : World m) (i : Invocation) :
    runInvocation w i = outcome i.options <$> inputs w i.options.script i.template := by
  rw [runInvocation, ← bind_assoc, bind_readScript, bind_map_left, inputs, map_bind]
  refine congrArg (scriptText w i.options.script >>= ·) (funext fun script => ?_)
  cases script with
  | error e =>
    rw [map_pure]
    rfl
  | ok script =>
    rw [map_bind]
    refine congrArg (readTemplate w i.template >>= ·) (funext fun source => ?_)
    rw [map_pure]
    cases source <;> rfl

end Inputs

section Outcomes

variable {rs : List Request} {o : Options}

theorem configured_of_meets (h : o.Meets rs) (hd : o.defines.Distinct) (script : String) :
    (configured (Configuration.read script).1 o).settings = settled rs script ∧
      (configured (Configuration.read script).1 o).defined.get? = resolved rs script := by
  have hmax : (Configuration.read script).1.settings.maxIterations =
      (Configuration.last? Change.maxIterations? script.toList).elim 1000000 id :=
    Configuration.part_ofChars (·.settings.maxIterations) _ id
      (fun c ch => by cases ch <;> rfl) script.toList
  have hstrict : (Configuration.read script).1.settings.strict =
      (Configuration.last? Change.strict? script.toList).elim false id :=
    Configuration.part_ofChars (·.settings.strict) _ id
      (fun c ch => by cases ch <;> rfl) script.toList
  have hon : o.strict = decide (.switch .strict ∈ rs) := by
    rw [Bool.eq_iff_iff, h.strict, decide_eq_true_eq]
  constructor
  · rw [configured, settled, hmax, hstrict, hon, h.maxIterations]
    cases lastOf? Request.limit? rs <;>
      cases Configuration.last? Change.maxIterations? script.toList <;>
      cases Configuration.last? Change.strict? script.toList <;> rfl
  · -- The entries are put in one by one: of a name twice in the table, the last would count.
    funext name
    rw [configured, Table.get?_union _ hd, h.defines, resolved]
    exact congrArg _ (Configuration.get?_defined_ofChars name script.toList)

theorem rendered_of_parse (c : Configuration) {source : String} {tree : Node}
    (h : Node.parse source = .ok tree) :
    ((rendered c source).status = 0 ↔
      (tree.renderInto c.settings c.defined.get? (#[] : Array String)).1 = .ok ()) ∧
    (rendered c source).output =
      String.join (tree.renderInto c.settings c.defined.get? (#[] : Array String)).2.toList := by
  rw [rendered, h]
  -- The trace is the same for the text that is shown and for the writes apart.
  simp only [Node.renderInto_eq_play, Trace.play_string, Trace.play_array]
  cases (tree.trace c.settings c.defined.get? c.defined.get?).result with
  | ok _ => simp
  | error e => simp [failure]

theorem rendered_of_not_parse (c : Configuration) {source : String} {e : ParseError}
    (h : Node.parse source = .error e) :
    (rendered c source).status = 1 ∧ (rendered c source).output = "" := by
  rw [rendered, h]
  exact ⟨rfl, rfl⟩

/-- The outcome of a run that was asked `rs` and has read the script and the template, or failed to.
-/
structure Shows (rs : List Request) (read : Except ProgramError (String × String)) (o : Outcome) :
    Prop where
  status : o.status = 0 ↔ ∃ script source tree, read = .ok (script, source) ∧
    Node.parse source = .ok tree ∧ (rendering rs script tree).1 = .ok ()
  output : ∀ {script source : String} {tree : Node}, read = .ok (script, source) →
    Node.parse source = .ok tree → o.output = String.join (rendering rs script tree).2.toList
  quiet : o.output ≠ "" →
    ∃ script source tree, read = .ok (script, source) ∧ Node.parse source = .ok tree

theorem shows_outcome (h : o.Meets rs) (hd : o.defines.Distinct)
    (read : Except ProgramError (String × String)) : Shows rs read (outcome o read) := by
  rcases read with e | ⟨script, source⟩
  · exact ⟨⟨fun hs => absurd hs Nat.one_ne_zero, fun ⟨_, _, _, hr, _⟩ => nomatch hr⟩,
      fun hr => (nomatch hr), fun ho => absurd rfl ho⟩
  obtain ⟨hset, hdef⟩ := configured_of_meets h hd script
  cases hp : Node.parse source with
  | error e =>
    have hne (tree : Node) : Node.parse source ≠ .ok tree := by simp [hp]
    obtain ⟨hs, ho⟩ := rendered_of_not_parse (configured (Configuration.read script).1 o) hp
    rw [outcome]
    refine ⟨⟨fun h0 => ?_, ?_⟩, ?_, fun h0 => absurd ho h0⟩
    · rw [hs] at h0
      contradiction
    · rintro ⟨_, _, tree, ⟨⟩, ht, -⟩
      exact absurd ht (hne tree)
    · rintro _ _ tree ⟨⟩ ht
      exact absurd ht (hne tree)
  | ok tree =>
    obtain ⟨hs, ho⟩ := rendered_of_parse (configured (Configuration.read script).1 o) hp
    rw [hset, hdef] at hs ho
    rw [outcome]
    refine ⟨hs.trans ⟨fun hr => ⟨script, source, tree, rfl, hp, hr⟩, ?_⟩, ?_,
      fun _ => ⟨script, source, tree, rfl, hp⟩⟩
    · rintro ⟨_, _, tree', ⟨⟩, ht, hr⟩
      rw [hp] at ht
      cases ht
      exact hr
    · rintro _ _ tree' ⟨⟩ ht
      rw [hp] at ht
      cases ht
      exact ho

end Outcomes

/-- Whatever world a command line is run in, and however it spells what it asks for, the outcome is
that of what the script and the template say: the template is rendered with the settings that the
command line, the script and the defaults give in this order, and the output is what it writes. -/
theorem run_layered {arguments : List String} {i : Invocation}
    (h : Invocation.ofArguments arguments = .ok i) :
    (∃ rs t, Spelled rs [t] arguments) ∧ ∀ rs t, Spelled rs [t] arguments →
      ∃ outcome : Except ProgramError (String × String) → Outcome,
        (∀ {m : Type → Type} [Monad m] [LawfulMonad m] (w : World m), run w arguments =
          outcome <$> inputs w ((lastOf? Request.script? rs).getD .search) (.named t)) ∧
        ∀ read, Shows rs read (outcome read) := by
  refine ⟨Invocation.exists_spelled_of_ofArguments h, fun rs t hs => ?_⟩
  have hm := Options.meets_foldl rs
  have hd := Options.distinct_foldl rs (o := .default) Table.distinct_empty
  refine ⟨outcome (rs.foldl Options.ask .default), fun w => ?_, shows_outcome hm hd⟩
  rw [run, Invocation.ofArguments_of_spelled hs]
  dsimp only
  rw [runInvocation_eq, hm.script]

def ninefold : Node :=
  .document [.echo [.variable "x"], .echo [.variable "y"], .text ":",
    .loop ⟨"i", .number (.int 1), .number (.int 9), none⟩ [.echo [.variable "i"]]]

theorem parse_ninefold : Node.parse ninefold.source = .ok ninefold := by
  have h : ninefold.Spelled := ⟨by decide +kernel, by decide +kernel, by decide +kernel⟩
  refine Node.parse_source_self h (by decide +kernel) ?_
  simp [ninefold, Node.tidied, Node.tidyOnto, Node.tidyAllOnto, Node.consText]

def desk (script source : String) : World Id where
  read path := if path = localScript then .ok script else .error .missing
  contains path := path == localScript
  input := .ok source
  userScript := none

theorem inputs_desk (script source : String) :
    inputs (desk script source) .search (.named "-") = .ok (script, source) := rfl

theorem run_layered_ninefold :
    let script := "/let x=1\n/let y=2\n/set max_iterations=9\n/let x=3\n"
    let o : Outcome := run (desk script ninefold.source) ["-Dy=4", "-m3", "-D", "y=5", "-"]
    o.status ≠ 0 ∧ o.output = "35:123" := by
  intro script o
  have h4 : Takes 'D' "y=4".toList (.define (String.ofList ['y']) (Assignment.literal ['4'])) :=
    .define (by decide)
  have h5 : Takes 'D' "y=5".toList (.define (String.ofList ['y']) (Assignment.literal ['5'])) :=
    .define (by decide)
  have h3 : Takes 'm' "3".toList (.limit 3) :=
    .limit ⟨[], ['3'], rfl, .inl rfl, by decide, by decide, by decide, by decide, by decide⟩
  have hs : Spelled _ ["-"]
      [bundle [] "Dy=4".toList, bundle [] "m3".toList, bundle [] ['D'], "y=5", "-"] :=
    .flag [] (.attached h4) <| .flag [] (.attached h3) <| .flag [] (.apart h5) <|
      .other (.inl rfl) .nil
  obtain ⟨outcome, hrun, hshow⟩ := (run_layered (Invocation.ofArguments_of_spelled hs)).2 _ _ hs
  have ho : o = outcome (.ok (script, ninefold.source)) :=
    (hrun (desk script ninefold.source)).trans (congrArg outcome (inputs_desk script _))
  obtain ⟨hstatus, hout, -⟩ := hshow (.ok (script, ninefold.source))
  rw [ho]
  constructor
  · rw [Ne, hstatus]
    rintro ⟨_, _, tree, ⟨⟩, ht, hr⟩
    rw [parse_ninefold] at ht
    cases ht
    revert hr
    decide +kernel
  · exact (hout rfl parse_ninefold).trans (by decide +kernel)

end Program

end Stencil
