import Stencil.Settings.Script

set_option autoImplicit false

namespace Stencil

section

variable {ε α β : Type}

@[simp] theorem ok_bind (a : α) (f : α → Except ε β) : (Except.ok a >>= f) = f a := rfl

theorem bind_eq_ok {x : Except ε α} {f : α → Except ε β} {b : β} (h : (x >>= f) = .ok b) :
    ∃ a, x = .ok a ∧ f a = .ok b := by
  cases x with
  | error e => contradiction
  | ok a => exact ⟨a, rfl, h⟩

theorem bind_eq_error {x : Except ε α} {f : α → Except ε β} {e : ε} (h : (x >>= f) = .error e) :
    x = .error e ∨ ∃ a, x = .ok a ∧ f a = .error e := by
  cases x with
  | error e => cases h; exact .inl rfl
  | ok a => exact .inr ⟨a, rfl, h⟩

end

section

variable {σ κ α β : Type}

/-- The last that any of `ks` says of a part. -/
def lastOf? (part : κ → Option α) (ks : List κ) : Option α := ks.reverse.findSome? part

theorem lastOf?_cons (part : κ → Option α) (k : κ) (ks : List κ) :
    lastOf? part (k :: ks) = (lastOf? part ks).or (part k) := by
  rw [lastOf?, List.reverse_cons, List.findSome?_append, List.findSome?_singleton, lastOf?]

theorem get_foldl (get : σ → β) (part : κ → Option α) (f : α → β) {act : σ → κ → σ}
    (h : ∀ s k, get (act s k) = (part k).elim (get s) f) (s : σ) (ks : List κ) :
    get (ks.foldl act s) = (lastOf? part ks).elim (get s) f := by
  induction ks generalizing s with
  | nil => rfl
  | cons k ks ih =>
    rw [List.foldl_cons, ih, h, lastOf?_cons]
    cases lastOf? part ks <;> rfl

end

namespace Text

variable {cs ds l : List Char} {ls : List (List Char)}

theorem lines_cons (c : Char) (cs : List Char) :
    lines (c :: cs) = if c = '\n' then [] :: lines cs else consLine c (lines cs) := rfl

theorem lines_ne_nil (cs : List Char) : lines cs ≠ [] := by
  cases cs with
  | nil => exact List.cons_ne_nil _ _
  | cons c cs =>
    rw [lines_cons]
    split
    · exact List.cons_ne_nil _ _
    · cases lines cs <;> exact List.cons_ne_nil _ _

theorem exists_lines_cons (c : Char) (cs : List Char) : ∃ l ls, lines cs = l :: ls ∧
    lines (c :: cs) = if c = '\n' then [] :: l :: ls else (c :: l) :: ls := by
  obtain ⟨l, ls, h⟩ := List.exists_cons_of_ne_nil (lines_ne_nil cs)
  exact ⟨l, ls, h, by rw [lines_cons, h, consLine]⟩

theorem lines_eq_splitOn (cs : List Char) : lines cs = cs.splitOn '\n' := by
  induction cs with
  | nil => rfl
  | cons c cs ih =>
    obtain ⟨l, ls, h, hc⟩ := exists_lines_cons c cs
    rw [hc, List.splitOn_cons_eq_if_modifyHead, ← ih, h]
    by_cases hn : c = '\n' <;> simp [hn]

theorem lines_append_newline (cs ds : List Char) :
    lines (cs ++ '\n' :: ds) = lines cs ++ lines ds := by
  simp only [lines_eq_splitOn, List.splitOn_append_cons_self]

theorem lines_intercalate (h : ∀ l ∈ ls, '\n' ∉ l) (hn : ls ≠ []) :
    lines (['\n'].intercalate ls) = ls := by
  rw [lines_eq_splitOn, List.splitOn_intercalate '\n' h hn]

theorem length_lines (cs : List Char) : (lines cs).length = cs.count '\n' + 1 := by
  induction cs with
  | nil => rfl
  | cons c cs ih =>
    obtain ⟨l, ls, h, hc⟩ := exists_lines_cons c cs
    rw [h, List.length_cons] at ih
    rw [hc]
    by_cases hn : c = '\n' <;> simp [hn, ih]

theorem notMem_of_mem_lines (h : l ∈ lines cs) : '\n' ∉ l := by
  induction cs generalizing l with
  | nil =>
    cases List.mem_singleton.1 h
    exact List.not_mem_nil
  | cons c cs ih =>
    obtain ⟨m, ls, hl, hc⟩ := exists_lines_cons c cs
    rw [hl] at ih
    rw [hc] at h
    split at h
    · rcases List.mem_cons.1 h with rfl | h
      · exact List.not_mem_nil
      · exact ih h
    · rcases List.mem_cons.1 h with rfl | h
      · have hm := ih List.mem_cons_self
        simp [hm, Ne.symm ‹c ≠ '\n'›]
      · exact ih (List.mem_cons_of_mem _ h)

theorem exists_lines_append (h : cs = [] ∨ cs.getLast? = some '\n') :
    ∃ ls : List (List Char), ls.length = cs.count '\n' ∧
      ∀ ds, lines (cs ++ ds) = ls ++ lines ds := by
  rcases h with rfl | h
  · exact ⟨[], rfl, fun ds => rfl⟩
  · obtain ⟨cs, rfl⟩ := List.getLast?_eq_some_iff.1 h
    refine ⟨lines cs, ?_, fun ds => ?_⟩
    · rw [length_lines, List.count_append, List.count_singleton_self]
    · rw [List.append_assoc, List.singleton_append, lines_append_newline]

structure Trimmed (cs : List Char) : Prop where
  first : cs.head?.any isBlank = false
  last : cs.getLast?.any isBlank = false

theorem trimStart_of_head? (h : cs.head?.any isBlank = false) : trimStart cs = cs := by
  cases cs with
  | nil => rfl
  | cons c cs => exact List.dropWhile_cons_of_neg (Bool.not_eq_true _ ▸ h)

namespace Trimmed

theorem trim_eq (h : Trimmed cs) : trim cs = cs := by
  have hr : trimStart cs.reverse = cs.reverse :=
    trimStart_of_head? (by simpa only [List.head?_reverse] using h.last)
  rw [trim, trimStart_of_head? h.first, trimEnd, ← trimStart, hr, List.reverse_reverse]

theorem append (hcs : cs ≠ []) (hds : ds ≠ []) (hc : cs.head?.any isBlank = false)
    (hd : ds.getLast?.any isBlank = false) : Trimmed (cs ++ ds) := by
  obtain ⟨c, cs, rfl⟩ := List.exists_cons_of_ne_nil hcs
  refine ⟨hc, ?_⟩
  rw [List.getLast?_append, List.getLast?_eq_some_getLast hds, Option.some_or]
  simpa only [List.getLast?_eq_some_getLast hds] using hd

end Trimmed

theorem trim_sublist (cs : List Char) : (trim cs).Sublist cs := by
  have he : (trim cs).Sublist (trimStart cs) := by
    rw [← List.reverse_sublist, trim, trimEnd, List.reverse_reverse]
    exact List.dropWhile_sublist _
  exact he.trans (List.dropWhile_sublist _)

theorem isBlank_of_isSpacer {c : Char} (h : isSpacer c = true) : isBlank c = true := by
  simp only [isSpacer, Bool.or_eq_true, beq_iff_eq] at h
  rcases h with (((rfl | rfl) | rfl) | rfl) | rfl <;> decide

end Text

end Stencil
