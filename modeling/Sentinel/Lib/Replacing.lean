import Mathlib

/-!
# Replacing one list by another inside a text

All occurrences are replaced from the left, without overlaps.

* `replace_induction` — the cases of a scan, for facts about a text and its replacement.
* `replace_eq_self_iff` — a shorter replacement changes every text with an occurrence.
* `splitOn_replace` — a separator outside the two lists is left where it is.
* `splitOn_collapse` — a doubled separator made single leaves the fields, but for empty ones.
-/

set_option autoImplicit false

namespace Replacing

variable {α : Type} [DecidableEq α]

/-- The scan; `skip` elements of the last occurrence are still to be passed over. -/
def replaceFrom (old new : List α) : ℕ → List α → List α
  | _, [] => []
  | skip + 1, _ :: rest => replaceFrom old new skip rest
  | 0, c :: rest =>
    if old.isPrefixOf (c :: rest) then new ++ replaceFrom old new (old.length - 1) rest
    else c :: replaceFrom old new 0 rest

def replace (old new text : List α) : List α := replaceFrom old new 0 text

variable {old new text : List α} {sep : α}

/-! ## The cases of the scan -/

theorem replaceFrom_eq (skip : ℕ) (text : List α) :
    replaceFrom old new skip text = replace old new (text.drop skip) := by
  induction skip generalizing text with
  | zero => rfl
  | succ skip ih =>
    cases text with
    | nil => rfl
    | cons c rest => exact ih rest

/-- At an occurrence. -/
theorem replace_append (hold : old ≠ []) (rest : List α) :
    replace old new (old ++ rest) = new ++ replace old new rest := by
  obtain ⟨c, tail, rfl⟩ := List.exists_cons_of_ne_nil hold
  have hprefix : (c :: tail).isPrefixOf (c :: tail ++ rest) = true :=
    List.isPrefixOf_iff_prefix.2 (List.prefix_append _ _)
  rw [List.cons_append] at hprefix ⊢
  rw [replace, replaceFrom, if_pos hprefix, replaceFrom_eq, List.length_cons,
    Nat.add_sub_cancel, List.drop_left]

/-- Elsewhere. -/
theorem replace_cons {c : α} {rest : List α} (h : ¬ old <+: c :: rest) :
    replace old new (c :: rest) = c :: replace old new rest := by
  rw [replace, replaceFrom, if_neg fun hprefix => h (List.isPrefixOf_iff_prefix.1 hprefix)]
  rfl

/-- **Induction along the scan**: at an occurrence it goes on after it, elsewhere one element
further. -/
theorem replace_induction {P : List α → List α → Prop} (hold : old ≠ []) (nil : P [] [])
    (matched : ∀ rest, P rest (replace old new rest) →
      P (old ++ rest) (new ++ replace old new rest))
    (kept : ∀ c rest, ¬ old <+: c :: rest → P rest (replace old new rest) →
      P (c :: rest) (c :: replace old new rest))
    (text : List α) : P text (replace old new text) := by
  induction hlength : text.length using Nat.strong_induction_on generalizing text with
  | h n ih =>
    cases text with
    | nil => exact nil
    | cons c rest =>
      by_cases hprefix : old <+: c :: rest
      · obtain ⟨after, hafter⟩ := hprefix
        rw [← hafter, replace_append hold]
        refine matched after (ih _ ?_ after rfl)
        rw [← hlength, ← hafter, List.length_append]
        exact Nat.lt_add_of_pos_left (List.length_pos_iff.2 hold)
      · rw [replace_cons hprefix]
        refine kept c rest hprefix (ih _ ?_ rest rfl)
        rw [← hlength]
        exact Nat.lt_succ_self _

/-! ## Occurrences -/

theorem replace_of_absent (hold : old ≠ []) (h : ¬ old <:+: text) :
    replace old new text = text := by
  refine replace_induction (P := fun text r => ¬ old <:+: text → r = text) hold ?_ ?_ ?_ text h
  · exact fun _ => rfl
  · intro rest _ hnot
    exact absurd (List.prefix_append old rest).isInfix hnot
  · intro c rest _ ih hnot
    rw [ih fun hinfix => hnot (List.infix_cons hinfix)]

theorem length_replace_le (hold : old ≠ []) (hle : new.length ≤ old.length) (text : List α) :
    (replace old new text).length ≤ text.length := by
  refine replace_induction (P := fun text r => r.length ≤ text.length) hold ?_ ?_ ?_ text
  · exact Nat.le_refl 0
  · intro rest ih
    rw [List.length_append, List.length_append]
    exact Nat.add_le_add hle ih
  · intro c rest _ ih
    exact Nat.succ_le_succ ih

theorem length_replace_lt (hlt : new.length < old.length) (h : old <:+: text) :
    (replace old new text).length < text.length := by
  have hold : old ≠ [] := List.length_pos_iff.1 (Nat.zero_lt_of_lt hlt)
  refine replace_induction (P := fun text r => old <:+: text → r.length < text.length) hold
    ?_ ?_ ?_ text h
  · exact fun hinfix => absurd (List.infix_nil.1 hinfix) hold
  · intro rest _ _
    rw [List.length_append, List.length_append]
    exact Nat.add_lt_add_of_lt_of_le hlt (length_replace_le hold hlt.le rest)
  · intro c rest hprefix ih hinfix
    exact Nat.succ_lt_succ (ih ((List.infix_cons_iff.1 hinfix).resolve_left hprefix))

/-- **A shorter replacement leaves exactly the texts without an occurrence** as they are. -/
theorem replace_eq_self_iff (hlt : new.length < old.length) :
    replace old new text = text ↔ ¬ old <:+: text := by
  have hold : old ≠ [] := List.length_pos_iff.1 (Nat.zero_lt_of_lt hlt)
  constructor
  · intro heq hinfix
    have hlength := length_replace_lt hlt hinfix
    rw [heq] at hlength
    exact lt_irrefl _ hlength
  · exact replace_of_absent hold

theorem mem_replace (hold : old ≠ []) {c : α} (h : c ∈ replace old new text) :
    c ∈ new ∨ c ∈ text := by
  refine replace_induction (P := fun text r => c ∈ r → c ∈ new ∨ c ∈ text) hold ?_ ?_ ?_ text h
  · exact fun hmem => absurd hmem List.not_mem_nil
  · intro rest ih hmem
    rcases List.mem_append.1 hmem with hmem | hmem
    · exact .inl hmem
    · exact (ih hmem).imp_right (List.mem_append_right old)
  · intro d rest _ ih hmem
    rcases List.mem_cons.1 hmem with rfl | hmem
    · exact .inr List.mem_cons_self
    · exact (ih hmem).imp_right (List.mem_cons_of_mem d)

/-- An occurrence puts the replacement into the text. -/
theorem mem_replace_of_occurs (hold : old ≠ []) {c : α} (h : old <:+: text) (hc : c ∈ new) :
    c ∈ replace old new text := by
  refine replace_induction (P := fun text r => old <:+: text → c ∈ r) hold ?_ ?_ ?_ text h
  · exact fun hinfix => absurd (List.infix_nil.1 hinfix) hold
  · exact fun rest _ _ => List.mem_append_left _ hc
  · intro d rest hprefix ih hinfix
    exact List.mem_cons_of_mem d (ih ((List.infix_cons_iff.1 hinfix).resolve_left hprefix))

/-! ## Separators -/

omit [DecidableEq α] in
/-- No occurrence reaches over an element that is not in it. -/
theorem not_prefix_append_cons {xs ys : List α} (hsep : sep ∉ old) (h : ¬ old <+: xs) :
    ¬ old <+: xs ++ sep :: ys := by
  intro hprefix
  have hsplit : xs ++ [sep] <+: xs ++ sep :: ys := ⟨ys, by simp⟩
  rcases List.prefix_or_prefix_of_prefix hprefix hsplit with hshort | hlong
  · rcases List.prefix_concat_iff.1 hshort with rfl | hxs
    · exact hsep (by simp)
    · exact h hxs
  · exact hsep (hlong.subset (by simp))

theorem replace_append_cons (hold : old ≠ []) (hsep : sep ∉ old) (xs ys : List α) :
    replace old new (xs ++ sep :: ys) = replace old new xs ++ sep :: replace old new ys := by
  refine replace_induction
    (P := fun xs r => replace old new (xs ++ sep :: ys) = r ++ sep :: replace old new ys) hold
    ?_ ?_ ?_ xs
  · have hnil : ¬ old <+: [] := fun hprefix => hold (List.prefix_nil.1 hprefix)
    have hnot : ¬ old <+: [] ++ sep :: ys := not_prefix_append_cons hsep hnil
    exact replace_cons hnot
  · intro rest ih
    rw [List.append_assoc, replace_append hold, ih, List.append_assoc]
  · intro c rest hprefix ih
    have hnot : ¬ old <+: c :: (rest ++ sep :: ys) := not_prefix_append_cons hsep hprefix
    rw [List.cons_append, replace_cons hnot, ih]
    rfl

/-- **A separator outside the two lists** is left where it is: the fields are replaced in. -/
theorem splitOn_replace (hold : old ≠ []) (hsep : sep ∉ old) (hnew : sep ∉ new) (text : List α) :
    (replace old new text).splitOn sep = (text.splitOn sep).map (replace old new) := by
  induction hlength : text.length using Nat.strong_induction_on generalizing text with
  | h n ih =>
    by_cases hmem : sep ∈ text
    · obtain ⟨xs, ys, rfl, hxs⟩ := List.eq_append_cons_of_mem hmem
      have hnot : sep ∉ replace old new xs := fun h => (mem_replace hold h).elim hnew hxs
      rw [replace_append_cons hold hsep, List.splitOn_append_cons_self,
        List.splitOn_append_cons_self, List.splitOn_eq_singleton hnot,
        List.splitOn_eq_singleton hxs, ih _ ?_ ys rfl]
      · rfl
      · rw [← hlength, List.length_append, List.length_cons]
        omega
    · have hnot : sep ∉ replace old new text := fun h => (mem_replace hold h).elim hnew hmem
      rw [List.splitOn_eq_singleton hnot, List.splitOn_eq_singleton hmem]
      rfl

/-- **A doubled separator made single**: the first field stays, and the others are among those of
the text. -/
theorem splitOn_collapse (sep : α) (text : List α) :
    ∃ field fields fields', text.splitOn sep = field :: fields ∧
      (replace [sep, sep] [sep] text).splitOn sep = field :: fields' ∧ fields' ⊆ fields := by
  refine replace_induction (P := fun text r => ∃ field fields fields',
    text.splitOn sep = field :: fields ∧ r.splitOn sep = field :: fields' ∧ fields' ⊆ fields)
    (List.cons_ne_nil _ _) ?_ ?_ ?_ text
  · exact ⟨[], [], [], rfl, rfl, List.Subset.refl _⟩
  · rintro rest ⟨field, fields, fields', hfields, hfields', hsubset⟩
    refine ⟨[], [] :: field :: fields, field :: fields', ?_, ?_, ?_⟩
    · simp [List.splitOn_cons_eq_if_modifyHead, hfields]
    · simp [List.splitOn_cons_eq_if_modifyHead, hfields']
    · exact List.subset_cons_of_subset [] (List.cons_subset_cons field hsubset)
  · rintro c rest - ⟨field, fields, fields', hfields, hfields', hsubset⟩
    rw [List.splitOn_cons_eq_if_modifyHead, List.splitOn_cons_eq_if_modifyHead, hfields, hfields']
    by_cases hc : c = sep
    · rw [if_pos (beq_iff_eq.2 hc), if_pos (beq_iff_eq.2 hc)]
      exact ⟨[], _, _, rfl, rfl, List.cons_subset_cons field hsubset⟩
    · rw [if_neg (mt beq_iff_eq.1 hc), if_neg (mt beq_iff_eq.1 hc)]
      exact ⟨c :: field, fields, fields', rfl, rfl, hsubset⟩

theorem mem_splitOn_collapse {sep : α} {field : List α}
    (h : field ∈ (replace [sep, sep] [sep] text).splitOn sep) : field ∈ text.splitOn sep := by
  obtain ⟨first, fields, fields', hfields, hfields', hsubset⟩ := splitOn_collapse sep text
  rw [hfields'] at h
  rw [hfields]
  exact List.cons_subset_cons first hsubset h

end Replacing
