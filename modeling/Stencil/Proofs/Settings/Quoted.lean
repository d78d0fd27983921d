import Stencil.Proofs.Program.Spelled

set_option autoImplicit false

namespace Stencil.Assignment

open CommandLine

def escape (c : Char) : List Char := if c = '"' ∨ c = '\\' then ['\\', c] else [c]

/-- The text in double quotes, with a backslash before the quotes and backslashes in it. -/
def quoted (cs : List Char) : List Char := '"' :: (cs.flatMap escape ++ ['"'])

theorem trimmed_quoted (cs : List Char) : Text.Trimmed (quoted cs) := by
  have hq : Text.isBlank '"' = false := by decide
  refine ⟨hq, ?_⟩
  rw [quoted, ← List.cons_append, List.getLast?_concat]
  exact hq

section Words

variable {q : Bool} {word : List Char} {words : List (List Char)} {c : Char} {cs : List Char}

theorem wordsAfter_nil : wordsAfter q word words [] = (flush word words).reverse := by
  rw [wordsAfter]

theorem wordsAfter_quote :
    wordsAfter q word words ('"' :: cs) = wordsAfter (!q) word words cs := by
  rw [wordsAfter.eq_def]
  exact if_pos rfl

theorem wordsAfter_escape (c : Char) :
    wordsAfter true word words (escape c ++ cs) = wordsAfter true (c :: word) words cs := by
  unfold escape
  split
  · simp [wordsAfter]
  · rename_i h
    obtain ⟨hq, hb⟩ := not_or.1 h
    rw [List.singleton_append, wordsAfter.eq_def]
    simp [hq, hb]

end Words

theorem wordsAfter_escaped (cs word : List Char) (words : List (List Char)) (ds : List Char) :
    wordsAfter true word words (cs.flatMap escape ++ ds) =
      wordsAfter true (cs.reverse ++ word) words ds := by
  induction cs generalizing word with
  | nil => rfl
  | cons c cs ih =>
    rw [List.flatMap_cons, List.append_assoc, wordsAfter_escape, ih, List.reverse_cons,
      List.append_assoc, List.singleton_append]

theorem words_quoted (cs : List Char) : words (quoted cs) = if cs = [] then [] else [cs] :=
  calc
    words (quoted cs) = wordsAfter true [] [] (cs.flatMap escape ++ ['"']) := wordsAfter_quote
    _ = wordsAfter true cs.reverse [] ['"'] := by rw [wordsAfter_escaped, List.append_nil]
    _ = (flush cs.reverse []).reverse := by rw [wordsAfter_quote, wordsAfter_nil]
    _ = if cs = [] then [] else [cs] := by
      unfold flush
      by_cases h : cs = [] <;> simp [h]

theorem literal_quoted (cs : List Char) : literal (quoted cs) = .string (String.ofList cs) := by
  have hw : [' '].intercalate (words (quoted cs)) = cs := by
    rw [words_quoted]
    split
    · rename_i h
      rw [h]
      rfl
    · exact List.append_nil cs
  rw [literal]
  simp only [(trimmed_quoted cs).trim_eq]
  rw [if_pos (show (quoted cs).head? = some '"' from rfl), hw]

/-- The name, and the value behind an equals sign in quotes. -/
def quotedAs (name value : List Char) : List Char := name ++ '=' :: quoted value

section

variable {n : List Char} (v : List Char)

theorem head?_quoted : (quoted v).head? ≠ some '=' := by
  simp [quoted]

theorem readLine_quotedAs (hn : isName n = true) (c : Configuration) (errors : List LineError)
    (k : Nat) :
    Configuration.readLine (c, errors) ("/let ".toList ++ quotedAs n v, k) =
      (c.change (.define (String.ofList n) (.string (String.ofList v))), errors) :=
  literal_quoted v ▸ readLine_assigned hn (trimmed_quoted v) (head?_quoted v) c errors k

theorem notMem_quoted {c : Char} (hv : c ∉ v) (hq : c ≠ '"') (hb : c ≠ '\\') : c ∉ quoted v := by
  have he : c ∉ v.flatMap escape := by
    intro h
    obtain ⟨d, hd, h⟩ := List.mem_flatMap.1 h
    unfold escape at h
    split at h
    · rcases List.mem_cons.1 h with h | h
      · exact hb h
      · exact hv (List.mem_singleton.1 h ▸ hd)
    · exact hv (List.mem_singleton.1 h ▸ hd)
  simp [quoted, hq, he]

theorem lines_quotedAs (hn : isName n = true) (hv : '\n' ∉ v) :
    Text.lines ("/let ".toList ++ quotedAs n v) = ["/let ".toList ++ quotedAs n v] :=
  lines_assigned (unbroken_of_isName hn) (notMem_quoted v hv (by decide) (by decide))

theorem takes_quotedAs (hn : isName n = true) :
    Takes 'D' (quotedAs n v) (.define (String.ofList n) (.string (String.ofList v))) :=
  literal_quoted v ▸
    .define (split?_of_head? (unbroken_of_isName hn) (trimmed_quoted v) (head?_quoted v))

end

/-- Any text is the value of its quoted form. So a name can be given any text in quotes: by a line
of a settings script, if the text has no newline in it, and by a flag of the command line. -/
theorem quoted_survives (v : List Char) :
    literal (quoted v) = .string (String.ofList v) ∧
    ∀ n : List Char, isName n = true →
      (∀ (c : Configuration) (errors : List LineError) (k : Nat),
        Configuration.readLine (c, errors) ("/let ".toList ++ quotedAs n v, k) =
          (c.change (.define (String.ofList n) (.string (String.ofList v))), errors)) ∧
      ('\n' ∉ v → Configuration.read (String.ofList ("/let ".toList ++ quotedAs n v)) =
        (Configuration.default.change (.define (String.ofList n) (.string (String.ofList v))),
          [])) ∧
      (∀ (o : Options) (others rest : List String),
        o.readArguments others (String.ofList ("-D".toList ++ quotedAs n v) :: rest) =
          (o.ask (.define (String.ofList n) (.string (String.ofList v)))).readArguments
            others rest) ∧
      ∀ t, Stands t → Invocation.ofArguments [String.ofList ("-D".toList ++ quotedAs n v), t] =
        .ok ⟨Options.default.ask (.define (String.ofList n) (.string (String.ofList v))),
          .named t⟩ := by
  refine ⟨literal_quoted v, fun n hn => ⟨readLine_quotedAs v hn, fun hv => ?_, ?_, ?_⟩⟩
  · rw [Configuration.read, String.toList_ofList, Configuration.ofChars, lines_quotedAs v hn hv]
    have hr := readLine_quotedAs v hn .default [] 1
    simp only [List.zipIdx_cons, List.zipIdx_nil, List.foldl_cons, List.foldl_nil, hr]
    rfl
  · intro o others rest
    exact Options.readArguments_closes [] (.attached (takes_quotedAs v hn)) rest
  · intro t ht
    exact Invocation.ofArguments_of_spelled
      (.flag [] (.attached (takes_quotedAs v hn)) (.other ht .nil))

theorem quoted_survives_escaped :
    literal "\" = \\\"1\\\" \\\\ \"".toList = .string " = \"1\" \\ " ∧
    (Configuration.read "/let who=\" = \\\"1\\\" \\\\ \"").1.defined.get? "who" =
      some (.string " = \"1\" \\ ") ∧
    Invocation.ofArguments ["-Dwho=\" = \\\"1\\\" \\\\ \"", "page"] =
      .ok ⟨Options.default.ask (.define "who" (.string " = \"1\" \\ ")), .file "page"⟩ := by
  obtain ⟨hl, h⟩ := quoted_survives " = \"1\" \\ ".toList
  obtain ⟨-, hs, -, ha⟩ := h "who".toList (by decide)
  exact ⟨hl, congrArg (·.1.defined.get? "who") (hs (by decide)), ha "page" (.inr (by decide))⟩

end Stencil.Assignment
