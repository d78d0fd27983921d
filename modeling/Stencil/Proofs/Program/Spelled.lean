import Stencil.Proofs.Program.Requests
import Stencil.Proofs.Settings.Assignment

/-! Command lines as the requests that they make, however these are spread over the arguments. -/

set_option autoImplicit false

namespace Stencil

namespace CommandLine

/-- The letter of a flag with a value, the value, and what is asked for. -/
inductive Takes : Char → List Char → Request → Prop
  | define {text name value : List Char} : Assignment.split? text = some (name, value) →
    Takes 'D' text (.define (String.ofList name) (Assignment.literal value))
  | limit {text : List Char} {n : Nat} : Assignment.IsCount text n → Takes 'm' text (.limit n)

/-- The last flag of an argument, and the next argument if the value of the flag stands there. -/
inductive Closes : Request → List Char → Option String → Prop
  | skip : Closes (.script .skip) ['f'] none
  | file {path : List Char} : path ≠ [] →
    Closes (.script (.file (String.ofList path))) ('f' :: path) none
  | attached {c : Char} {text : List Char} {r : Request} : Takes c text r →
    Closes r (c :: text) none
  | apart {c : Char} {text : String} {r : Request} : Takes c text.toList r →
    Closes r [c] (some text)

def bundle (ss : List Switch) (cs : List Char) : String :=
  String.ofList ('-' :: (ss.map Switch.letter ++ cs))

def Stands (t : String) : Prop := t = "-" ∨ t.toList.head? ≠ some '-'

/-- The requests and the other arguments, in the order of the arguments that spell them. -/
inductive Spelled : List Request → List String → List String → Prop
  | nil : Spelled [] [] []
  | switches (ss : List Switch) {rs : List Request} {ts as : List String} : ss ≠ [] →
    Spelled rs ts as → Spelled (ss.map .switch ++ rs) ts (bundle ss [] :: as)
  | flag (ss : List Switch) {r : Request} {cs : List Char} {value : Option String}
    {rs : List Request} {ts as : List String} : Closes r cs value →
    Spelled rs ts as → Spelled (ss.map .switch ++ r :: rs) ts (bundle ss cs :: (value.toList ++ as))
  | other {t : String} {rs : List Request} {ts as : List String} : Stands t →
    Spelled rs ts as → Spelled rs (t :: ts) (t :: as)
  | dashes (ts : List String) : Spelled [] ts ("--" :: ts)

/-- The flags of an argument, before the next argument if there is one: switches, with another flag
behind them at most. -/
inductive IsFlags (next : Option String) : List Char → Bool → Prop
  | switches (ss : List Switch) : IsFlags next (ss.map Switch.letter) false
  | closed (ss : List Switch) {r : Request} {cs : List Char} {value : Option String} :
    Closes r cs value → (∀ t ∈ value, next = some t) →
    IsFlags next (ss.map Switch.letter ++ cs) value.isSome

theorem IsFlags.cons {next : Option String} {fs : List Char} {taken : Bool}
    (h : IsFlags next fs taken) (s : Switch) : IsFlags next (s.letter :: fs) taken := by
  cases h with
  | switches ss => exact .switches (s :: ss)
  | closed ss hc hv => exact .closed (s :: ss) hc hv

theorem IsFlags.exists_cons {fs : List Char} {rest : List String}
    (h : IsFlags rest.head? fs true) : ∃ t as, rest = t :: as := by
  generalize ht : true = taken at h
  cases h with
  | switches ss => contradiction
  | @closed ss r cs value hc hv =>
    obtain ⟨t, rfl⟩ := Option.isSome_iff_exists.1 ht.symm
    exact ⟨t, List.head?_eq_some_iff.1 (hv t rfl)⟩

theorem IsFlags.spelled {fs : List Char} {taken : Bool} {rest : List String}
    (h : IsFlags rest.head? fs taken) (hne : fs ≠ []) {rs : List Request} {ts : List String}
    (hs : Spelled rs ts (if taken then rest.tail else rest)) :
    ∃ rs', Spelled rs' ts (String.ofList ('-' :: fs) :: rest) := by
  cases h with
  | switches ss =>
    have hss : ss ≠ [] := by simpa using hne
    have := Spelled.switches ss hss hs
    rw [bundle, List.append_nil] at this
    exact ⟨_, this⟩
  | @closed ss r cs value hc hv =>
    cases value with
    | none => exact ⟨_, .flag ss hc hs⟩
    | some t =>
      obtain ⟨as, rfl⟩ := List.head?_eq_some_iff.1 (hv t rfl)
      exact ⟨_, .flag ss hc hs⟩

theorem Takes.ne_nil {c : Char} {text : List Char} {r : Request} (h : Takes c text r) :
    text ≠ [] := by
  rintro rfl
  cases h with
  | define h => cases h
  | limit h =>
    obtain ⟨plus, ds, he, -, hds, -⟩ := h
    exact hds (List.append_eq_nil_iff.1 he.symm).2

theorem letter_ne (s : Switch) : s.letter ≠ '-' := by cases s <;> decide

theorem Closes.exists_cons {r : Request} {cs : List Char} {value : Option String}
    (h : Closes r cs value) : ∃ c ds, cs = c :: ds ∧ c ≠ '-' := by
  cases h with
  | skip => exact ⟨_, _, rfl, by decide⟩
  | file h => exact ⟨_, _, rfl, by decide⟩
  | attached h => cases h <;> exact ⟨_, _, rfl, by decide⟩
  | apart h => cases h <;> exact ⟨_, _, rfl, by decide⟩

theorem Stands.ne_dashes {t : String} (h : Stands t) : t ≠ "--" := by
  rintro rfl
  rcases h with h | h
  · contradiction
  · exact h rfl

end CommandLine

open CommandLine

namespace Options

section Flags

variable {o : Options} {next : Option String}

theorem flagValue_of_ne_nil {cs : List Char} (h : cs ≠ []) (missing : UsageError) :
    flagValue cs next missing = .ok (cs, false) := by
  fun_cases flagValue cs next missing with
  | case1 => exact absurd rfl h
  | case2 => exact absurd rfl h
  | case3 => rfl

theorem readFlags_takes {c : Char} {cs text : List Char} {r : Request} {taken : Bool}
    (h : Takes c text r) (hv : ∀ missing, flagValue cs next missing = .ok (text, taken)) :
    o.readFlags next (c :: cs) = .ok (o.ask r, taken) := by
  cases h with
  | define h =>
    simp [readFlags, hv, define, h, ask, bind, Except.bind, pure, Except.pure]
  | limit h =>
    have hn := Assignment.positiveCount?_eq_some_iff.2 h
    simp [readFlags, hv, limit, hn, ask, bind, Except.bind, pure, Except.pure]

theorem readFlags_closes {r : Request} {cs : List Char} {value : Option String}
    (h : Closes r cs value) (as : List String) :
    o.readFlags (value.toList ++ as).head? cs = .ok (o.ask r, value.isSome) := by
  cases h with
  | skip => rfl
  | file h =>
    obtain ⟨c, cs, rfl⟩ := List.exists_cons_of_ne_nil h
    rfl
  | attached h => exact readFlags_takes h fun missing => flagValue_of_ne_nil h.ne_nil missing
  | apart h => exact readFlags_takes h fun missing => rfl

theorem readFlags_switches (ss : List Switch) (cs : List Char) :
    o.readFlags next (ss.map Switch.letter ++ cs) =
      ((ss.map Request.switch).foldl ask o).readFlags next cs := by
  induction ss generalizing o with
  | nil => rfl
  | cons s ss ih => cases s <;> exact ih

theorem isFlags_of_flagValue {c : Char} {cs text : List Char} {r : Request} {taken : Bool}
    {missing : UsageError} (h : flagValue cs next missing = .ok (text, taken))
    (ht : Takes c text r) : IsFlags next (c :: cs) taken := by
  unfold flagValue at h
  split at h
  · contradiction
  · cases h
    exact .closed [] (.apart ht) fun t ht => ht
  · cases h
    exact .closed [] (.attached ht) fun t ht => nomatch ht

theorem exists_takes_of_define {text : List Char} {o' : Options} (h : o.define text = .ok o') :
    ∃ r, Takes 'D' text r := by
  unfold define at h
  split at h
  · exact ⟨_, .define ‹_›⟩
  · contradiction

theorem exists_takes_of_limit {text : List Char} {o' : Options} (h : o.limit text = .ok o') :
    ∃ r, Takes 'm' text r := by
  unfold limit at h
  split at h
  · exact ⟨_, .limit (Assignment.positiveCount?_eq_some_iff.1 ‹_›)⟩
  · contradiction

theorem isFlags_of_readFlags {fs : List Char} {o' : Options} {taken : Bool}
    (h : o.readFlags next fs = .ok (o', taken)) : IsFlags next fs taken := by
  fun_induction readFlags o next fs with
  | case1 o =>
    cases h
    exact .switches []
  | case2 o cs ih => exact (ih h).cons .debug
  | case3 o cs ih => exact (ih h).cons .strict
  | case4 o =>
    cases h
    exact .closed [] .skip fun t ht => nomatch ht
  | case5 o cs hcs =>
    cases h
    exact .closed [] (.file hcs) fun t ht => nomatch ht
  | case6 o cs =>
    obtain ⟨⟨text, taken'⟩, hv, h⟩ := bind_eq_ok h
    obtain ⟨o'', hd, h⟩ := bind_eq_ok h
    cases h
    exact isFlags_of_flagValue hv (exists_takes_of_define hd).choose_spec
  | case7 o cs =>
    obtain ⟨⟨text, taken'⟩, hv, h⟩ := bind_eq_ok h
    obtain ⟨o'', hd, h⟩ := bind_eq_ok h
    cases h
    exact isFlags_of_flagValue hv (exists_takes_of_limit hd).choose_spec
  | case8 o c cs => contradiction

end Flags

section Arguments

variable {o : Options} {others : List String}

theorem flags?_eq_none_iff {t : String} : flags? t = none ↔ Stands t := by
  have ht : t = "-" ↔ t.toList = ['-'] := String.toList_inj.symm
  rw [Stands, ht, flags?]
  split
  · rename_i h
    simp [h]
  · rename_i h
    rw [eq_self, true_iff]
    match he : t.toList with
    | [] => exact .inr (by simp)
    | [c] =>
      by_cases hc : c = '-'
      · exact .inl (by rw [hc])
      · exact .inr (by simpa using hc)
    | c :: d :: ds => exact .inr fun hc => h d ds (by simpa [he] using hc)

theorem flags?_eq_some {a : String} {fs : List Char} (h : flags? a = some fs) :
    a = String.ofList ('-' :: fs) ∧ fs ≠ [] := by
  rw [flags?] at h
  split at h
  · rename_i ha
    rw [← Option.some.inj h, ← ha, String.ofList_toList]
    exact ⟨rfl, List.cons_ne_nil _ _⟩
  · contradiction

theorem readArguments_flags {fs : List Char} {o' : Options} {value : Option String}
    {as : List String} (hne : fs ≠ []) (hd : fs.head? ≠ some '-')
    (h : o.readFlags (value.toList ++ as).head? fs = .ok (o', value.isSome)) :
    o.readArguments others (String.ofList ('-' :: fs) :: (value.toList ++ as)) =
      o'.readArguments others as := by
  obtain ⟨c, cs, rfl⟩ := List.exists_cons_of_ne_nil hne
  have hflags : flags? (String.ofList ('-' :: c :: cs)) = some (c :: cs) := by
    simp [flags?]
  have hdashes : String.ofList ('-' :: c :: cs) ≠ "--" := by
    intro he
    rw [← String.toList_inj, String.toList_ofList] at he
    exact hd (congrArg List.head? (List.cons.inj he).2)
  rw [readArguments, if_neg hdashes, hflags]
  cases value with
  | none =>
    rw [Option.toList_none, List.nil_append] at h ⊢
    simp only [h, Option.isSome_none]
  | some text =>
    simp only [h]
    rfl

theorem readArguments_switches (ss : List Switch) (hss : ss ≠ []) (as : List String) :
    o.readArguments others (bundle ss [] :: as) =
      ((ss.map Request.switch).foldl ask o).readArguments others as := by
  obtain ⟨s, ss, rfl⟩ := List.exists_cons_of_ne_nil hss
  refine readArguments_flags (List.cons_ne_nil _ _) ?_ (show _ = Except.ok (_, none.isSome) from ?_)
  · exact fun h => letter_ne s (Option.some.inj h)
  · exact readFlags_switches (s :: ss) []

theorem readArguments_closes (ss : List Switch) {r : Request} {cs : List Char}
    {value : Option String} (h : Closes r cs value) (as : List String) :
    o.readArguments others (bundle ss cs :: (value.toList ++ as)) =
      ((ss.map Request.switch ++ [r]).foldl ask o).readArguments others as := by
  obtain ⟨c, ds, rfl, hc⟩ := h.exists_cons
  refine readArguments_flags (by simp) ?_ ?_
  · cases ss with
    | nil => exact fun he => hc (Option.some.inj he)
    | cons s ss => exact fun he => letter_ne s (Option.some.inj he)
  · rw [readFlags_switches, readFlags_closes h, List.foldl_append]
    rfl

theorem readArguments_spelled {rs : List Request} {ts arguments : List String}
    (h : Spelled rs ts arguments) :
    o.readArguments others arguments = .ok (rs.foldl ask o, ts.reverse ++ others) := by
  induction h generalizing o others with
  | nil => rfl
  | switches ss hss _ ih => rw [readArguments_switches ss hss, ih, List.foldl_append]
  | flag ss hc _ ih =>
    rw [readArguments_closes ss hc, ih, ← List.foldl_append, List.append_assoc,
      List.singleton_append]
  | @other t rs ts as ht _ ih =>
    rw [readArguments, if_neg ht.ne_dashes, flags?_eq_none_iff.2 ht]
    simp only [ih, List.reverse_cons, List.append_assoc, List.singleton_append]
  | dashes ts => rfl

theorem exists_spelled_flags {a : String} {fs : List Char} {o' : Options} {taken : Bool}
    {rs : List Request} {ts rest : List String} (hf : flags? a = some fs)
    (hr : o.readFlags rest.head? fs = .ok (o', taken))
    (hs : Spelled rs ts (if taken then rest.tail else rest)) :
    ∃ rs', Spelled rs' ts (a :: rest) := by
  obtain ⟨rfl, hne⟩ := flags?_eq_some hf
  exact (isFlags_of_readFlags hr).spelled hne hs

theorem exists_spelled {arguments : List String} {o' : Options} {others' : List String}
    (h : o.readArguments others arguments = .ok (o', others')) :
    ∃ rs ts, Spelled rs ts arguments := by
  fun_induction readArguments o others arguments with
  | case1 => exact ⟨[], [], .nil⟩
  | case2 o others rest => exact ⟨[], rest, .dashes rest⟩
  | case3 o others a rest ha hf ih =>
    obtain ⟨rs, ts, hs⟩ := ih h
    exact ⟨rs, a :: ts, .other (flags?_eq_none_iff.1 hf) hs⟩
  | case4 o others a rest ha cs hf e hr =>
    rw [hr] at h
    contradiction
  | case5 o others a ha fs hf o'' b rest hr ih =>
    rw [hr] at h
    obtain ⟨rs, ts, hs⟩ := ih h
    obtain ⟨rs', hs'⟩ := exists_spelled_flags hf hr hs
    exact ⟨rs', ts, hs'⟩
  | case6 o others a ha fs hf o'' taken rest hn hr ih =>
    cases taken with
    | true =>
      -- The value was taken from an argument behind this one, so there is one.
      obtain ⟨t, as, he⟩ := (isFlags_of_readFlags hr).exists_cons
      exact (hn t as he rfl).elim
    | false =>
      rw [hr] at h
      obtain ⟨rs, ts, hs⟩ := ih h
      obtain ⟨rs', hs'⟩ := exists_spelled_flags hf hr hs
      exact ⟨rs', ts, hs'⟩

end Arguments

end Options

def TemplateChoice.named (t : String) : TemplateChoice := if t = "-" then .input else .file t

namespace Invocation

theorem ofArguments_of_spelled {rs : List Request} {t : String} {arguments : List String}
    (h : Spelled rs [t] arguments) :
    ofArguments arguments = .ok ⟨rs.foldl Options.ask .default, .named t⟩ := by
  rw [ofArguments, Options.readArguments_spelled h, ok_bind, TemplateChoice.named]
  by_cases ht : t = "-"
  · subst ht
    rfl
  · rw [if_neg ht]
    dsimp only
    split
    · rename_i he
      contradiction
    · rename_i he
      exact absurd (List.cons.inj he).1 ht
    · rename_i he
      rw [(List.cons.inj he).1]
      rfl
    · rename_i hn
      exact absurd rfl (hn t)

theorem exists_spelled_of_ofArguments {arguments : List String} {i : Invocation}
    (h : ofArguments arguments = .ok i) : ∃ rs t, Spelled rs [t] arguments := by
  obtain ⟨⟨o, others⟩, hr, h⟩ := bind_eq_ok h
  obtain ⟨rs, ts, hs⟩ := Options.exists_spelled hr
  rw [Options.readArguments_spelled hs, List.append_nil] at hr
  cases hr
  have ht : ∃ t, ts.reverse = [t] := by
    dsimp only at h
    split at h
    · contradiction
    · exact ⟨_, ‹_›⟩
    · exact ⟨_, ‹_›⟩
    · contradiction
  obtain ⟨t, ht⟩ := ht
  rw [← List.reverse_reverse ts, ht] at hs
  exact ⟨rs, t, hs⟩

/-- However a command line spells what is asked for, it is read as that: each option as it is asked
for last. -/
theorem ofArguments_spelled {rs : List Request} {t : String} {arguments : List String}
    (h : Spelled rs [t] arguments) :
    ∃ o : Options, ofArguments arguments = .ok ⟨o, .named t⟩ ∧ o.Meets rs :=
  ⟨_, ofArguments_of_spelled h, Options.meets_foldl rs⟩

theorem ofArguments_spelled_bundled : ∃ o : Options,
    ofArguments ["-dDx=1", "-fsd", "-m", "7", "-D", "-y=2", "-sf", "-Dx=two", "--", "-page"] =
      .ok ⟨o, .file "-page"⟩ ∧
    o.debug = true ∧ o.strict = true ∧ o.script = .skip ∧ o.maxIterations = some 7 ∧
    o.defines.get? "x" = some (.string "two") ∧ o.defines.get? "-y" = some (.number (.int 2)) ∧
    o.defines.get? "z" = none := by
  have hx : Takes 'D' "x=1".toList (.define (String.ofList ['x']) (Assignment.literal ['1'])) :=
    .define (by decide)
  have h7 : Takes 'm' "7".toList (.limit 7) :=
    .limit ⟨[], ['7'], rfl, .inl rfl, by decide, by decide, by decide, by decide, by decide⟩
  have hy : Takes 'D' "-y=2".toList
      (.define (String.ofList ['-', 'y']) (Assignment.literal ['2'])) :=
    .define (by decide)
  have htwo : Takes 'D' "x=two".toList
      (.define (String.ofList ['x']) (Assignment.literal "two".toList)) := .define (by decide)
  have hs : Spelled _ ["-page"]
      [bundle [.debug] "Dx=1".toList, bundle [] "fsd".toList, bundle [] ['m'], "7",
        bundle [] ['D'], "-y=2", bundle [.strict] ['f'], bundle [] "Dx=two".toList, "--",
        "-page"] :=
    .flag [.debug] (.attached hx) <| .flag [] (.file (List.cons_ne_nil _ _)) <|
      .flag [] (.apart h7) <| .flag [] (.apart hy) <| .flag [.strict] .skip <|
      .flag [] (.attached htwo) <| .dashes _
  obtain ⟨o, ho, hm⟩ := ofArguments_spelled hs
  exact ⟨o, ho, hm.debug.2 (by simp), hm.strict.2 (by simp), hm.script, hm.maxIterations,
    (hm.defines "x").trans (by decide +kernel), (hm.defines "-y").trans (by decide +kernel),
    (hm.defines "z").trans (by decide +kernel)⟩

end Invocation

end Stencil
