import Sentinel.Lib.JoinedWords

/-!
# Label selectors

`ListAsync` and `WatchAsync` send a list of selectors as one text; the separator of the selectors
is also the separator of the values within one of them.

* `words_toExpression` — a selector ends itself.
* `labelSelector_inj` — the text that is sent determines the selectors.
-/

set_option autoImplicit false

namespace Sentinel

open JoinedWords

/-- The classes that implement `ILabelSelector`. -/
inductive LabelSelector where
  | existsSelector (label : String)
  | notExistsSelector (label : String)
  | equalsSelector (label : String) (values : List String)
  | notEqualsSelector (label : String) (values : List String)
  deriving DecidableEq, Repr

namespace LabelSelector

def toExpression : LabelSelector → String
  | .existsSelector label => label
  | .notExistsSelector label => "!" ++ label
  | .equalsSelector label values => label ++ " in (" ++ ",".intercalate values ++ ")"
  | .notEqualsSelector label values => label ++ " notin (" ++ ",".intercalate values ++ ")"

/-- `string.Join(",", labelSelectors.Select(l => l.ToExpression()))`. -/
def labelSelector (labelSelectors : List LabelSelector) : String :=
  ",".intercalate (labelSelectors.map toExpression)

/-- The characters of labels and of their values are none of those a selector is built with. -/
def IsLetter (c : Char) : Prop := c ∉ [',', ' ', '(', ')', '!']

def label : LabelSelector → String
  | .existsSelector label => label
  | .notExistsSelector label => label
  | .equalsSelector label _ => label
  | .notEqualsSelector label _ => label

/-- The values, if the selector has some. -/
def values : LabelSelector → Option (List String)
  | .existsSelector _ => none
  | .notExistsSelector _ => none
  | .equalsSelector _ values => some values
  | .notEqualsSelector _ values => some values

/-- A label that is not empty, and, where the selector has values, at least one. -/
structure IsLegal (selector : LabelSelector) : Prop where
  label_ne : selector.label ≠ ""
  label : ∀ c ∈ selector.label.toList, IsLetter c
  values : ∀ values ∈ selector.values, values ≠ [] ∧ ∀ v ∈ values, ∀ c ∈ v.toList, IsLetter c

/-! ## The parts of an expression -/

variable {selector selector' : LabelSelector} {labelSelectors labelSelectors' : List LabelSelector}

def negation : LabelSelector → List Char
  | .notExistsSelector _ => ['!']
  | _ => []

/-- What stands before the values. -/
def operator : LabelSelector → List Char
  | .notEqualsSelector _ _ => [' ', 'n', 'o', 't', 'i', 'n', ' ', '(']
  | _ => [' ', 'i', 'n', ' ', '(']

def condition (selector : LabelSelector) : List Char :=
  match selector.values with
  | some values => selector.operator ++ [','].intercalate (values.map String.toList) ++ [')']
  | none => []

theorem toList_toExpression (selector : LabelSelector) :
    selector.toExpression.toList = selector.negation ++ selector.label.toList ++
      selector.condition := by
  have hcomma : ",".toList = [','] := rfl
  have hclose : ")".toList = [')'] := rfl
  cases selector with
  | existsSelector label => exact (List.append_nil _).symm
  | notExistsSelector label =>
    rw [toExpression, String.toList_append]
    exact (List.append_nil _).symm
  | equalsSelector label values =>
    simp only [toExpression, String.toList_append, String.toList_intercalate, hcomma, hclose,
      List.append_assoc]
    rfl
  | notEqualsSelector label values =>
    simp only [toExpression, String.toList_append, String.toList_intercalate, hcomma, hclose,
      List.append_assoc]
    rfl

/-- What comes after the label does not begin with a letter. -/
theorem head?_condition {rest : List Char} (hrest : Ends ',' rest) :
    ∀ c ∈ (selector.condition ++ rest).head?, ¬ IsLetter c := by
  intro c hc
  unfold condition at hc
  split at hc
  · have hoperator : selector.operator.head? = some ' ' := by
      cases selector <;> rfl
    rw [List.append_assoc, List.append_assoc, List.head?_append, hoperator] at hc
    cases hc
    exact fun h => h (by decide)
  · rw [hrest c hc]
    exact fun h => h (by decide)

/-- Nothing but a negation begins with the sign. -/
theorem negation_inj (h : selector.IsLegal) (h' : selector'.IsLegal) {rest rest' : List Char}
    (heq : selector.negation ++ (selector.label.toList ++ rest) =
      selector'.negation ++ (selector'.label.toList ++ rest')) :
    selector.negation = selector'.negation ∧
      selector.label.toList ++ rest = selector'.label.toList ++ rest' := by
  have hfirst : ∀ {s : LabelSelector} {rest tail : List Char}, s.IsLegal →
      s.label.toList ++ rest ≠ '!' :: tail := by
    intro s rest tail hs heq
    cases hlabel : s.label.toList with
    | nil => exact hs.label_ne (String.toList_eq_nil_iff.1 hlabel)
    | cons c cs =>
      rw [hlabel] at heq
      have hletter := hs.label c (by simp [hlabel])
      rw [(List.cons.inj heq).1] at hletter
      exact hletter (by decide)
  have hcases : ∀ s : LabelSelector, s.negation = ['!'] ∨ s.negation = [] := by
    intro s
    cases s <;> simp [negation]
  rcases hcases selector with hsign | hsign
  · rcases hcases selector' with hsign' | hsign'
    · rw [hsign, hsign'] at heq
      exact ⟨hsign.trans hsign'.symm, (List.cons.inj heq).2⟩
    · rw [hsign, hsign'] at heq
      exact absurd heq.symm (hfirst h')
  · rcases hcases selector' with hsign' | hsign'
    · rw [hsign, hsign'] at heq
      exact absurd heq (hfirst h)
    · rw [hsign, hsign'] at heq
      exact ⟨hsign.trans hsign'.symm, heq⟩

/-- The values end at the bracket. -/
theorem values_inj {values values' : List String} {rest rest' : List Char}
    (h : values ≠ [] ∧ ∀ v ∈ values, ∀ c ∈ v.toList, IsLetter c)
    (h' : values' ≠ [] ∧ ∀ v ∈ values', ∀ c ∈ v.toList, IsLetter c)
    (heq : [','].intercalate (values.map String.toList) ++ ')' :: rest =
      [','].intercalate (values'.map String.toList) ++ ')' :: rest') :
    values = values' ∧ rest = rest' := by
  have hbracket : ∀ {values : List String}, (∀ v ∈ values, ∀ c ∈ v.toList, IsLetter c) →
      ∀ c ∈ [','].intercalate (values.map String.toList), c ≠ ')' := by
    rintro values hvalues c hc rfl
    rcases mem_intercalate hc with hsep | ⟨word, hword, hmem⟩
    · exact absurd hsep (by decide)
    · obtain ⟨v, hv, rfl⟩ := List.mem_map.1 hword
      exact hvalues v hv _ hmem (by decide)
  obtain ⟨hjoined, hrest⟩ := append_inj_of_span (· ≠ ')') (hbracket h.2)
    (hbracket h'.2) (by simp) (by simp) heq
  have hwords : Words ',' String.toList {v : String | ∀ c ∈ v.toList, IsLetter c} :=
    words_of_not_mem (fun v _ v' _ hvv => String.toList_inj.1 hvv)
      fun v hv hsep => hv ',' hsep (by decide)
  exact ⟨hwords.intercalate_inj h.1 h'.1 h.2 h'.2 hjoined, (List.cons.inj hrest).2⟩

theorem operator_inj {rest rest' : List Char}
    (heq : selector.operator ++ rest = selector'.operator ++ rest') :
    selector.operator = selector'.operator ∧ rest = rest' := by
  have hcases : ∀ s : LabelSelector, s.operator = [' ', 'i', 'n', ' ', '('] ∨
      s.operator = [' ', 'n', 'o', 't', 'i', 'n', ' ', '('] := by
    intro s
    cases s <;> simp [operator]
  rcases hcases selector with h | h
  · rcases hcases selector' with h' | h'
    · rw [h, h'] at heq
      exact ⟨h.trans h'.symm, List.append_cancel_left heq⟩
    · rw [h, h'] at heq
      exact absurd (List.cons.inj (List.cons.inj heq).2).1 (by decide)
  · rcases hcases selector' with h' | h'
    · rw [h, h'] at heq
      exact absurd (List.cons.inj (List.cons.inj heq).2).1 (by decide)
    · rw [h, h'] at heq
      exact ⟨h.trans h'.symm, List.append_cancel_left heq⟩

theorem condition_inj (h : selector.IsLegal) (h' : selector'.IsLegal) {rest rest' : List Char}
    (hrest : Ends ',' rest) (hrest' : Ends ',' rest')
    (heq : selector.condition ++ rest = selector'.condition ++ rest') :
    selector.values = selector'.values ∧
      (selector.values.isSome = true → selector.operator = selector'.operator) ∧
      rest = rest' := by
  have hspace : ∀ {s : LabelSelector} {tail rest : List Char}, Ends ',' rest →
      rest ≠ s.operator ++ tail := by
    rintro s tail rest hends rfl
    cases s <;> exact absurd (hends ' ' rfl) (by decide)
  cases hvalues : selector.values with
  | none =>
    cases hvalues' : selector'.values with
    | none =>
      simp only [condition, hvalues, hvalues', List.nil_append] at heq
      exact ⟨rfl, nofun, heq⟩
    | some values' =>
      simp only [condition, hvalues, hvalues', List.nil_append, List.append_assoc] at heq
      exact absurd heq (hspace hrest)
  | some values =>
    cases hvalues' : selector'.values with
    | none =>
      simp only [condition, hvalues, hvalues', List.nil_append, List.append_assoc] at heq
      exact absurd heq.symm (hspace hrest')
    | some values' =>
      simp only [condition, hvalues, hvalues', List.append_assoc, List.singleton_append] at heq
      obtain ⟨hoperator, heq⟩ := operator_inj heq
      obtain ⟨rfl, hrests⟩ := values_inj (h.values _ hvalues) (h'.values _ hvalues') heq
      exact ⟨rfl, fun _ => hoperator, hrests⟩

theorem eq_of_parts (hnegation : selector.negation = selector'.negation)
    (hlabel : selector.label = selector'.label) (hvalues : selector.values = selector'.values)
    (hoperator : selector.values.isSome = true → selector.operator = selector'.operator) :
    selector = selector' := by
  cases selector with
  | existsSelector label =>
    cases selector' <;> simp_all [negation, LabelSelector.label, LabelSelector.values]
  | notExistsSelector label =>
    cases selector' <;> simp_all [negation, LabelSelector.label, LabelSelector.values]
  | equalsSelector label values =>
    cases selector' <;>
      simp_all [negation, LabelSelector.label, LabelSelector.values, operator]
  | notEqualsSelector label values =>
    cases selector' <;>
      simp_all [negation, LabelSelector.label, LabelSelector.values, operator]

/-- **A selector ends itself**, also if it has values. -/
theorem words_toExpression :
    Words ',' (fun s : LabelSelector => s.toExpression.toList) {s | s.IsLegal} := by
  intro s hs s' hs' rest rest' hrest hrest' heq
  simp only [toList_toExpression, List.append_assoc] at heq
  obtain ⟨hnegation, heq⟩ := negation_inj hs hs' heq
  obtain ⟨hlabel, heq⟩ := append_inj_of_span IsLetter hs.label hs'.label (head?_condition hrest)
    (head?_condition hrest') heq
  obtain ⟨hvalues, hoperator, hrests⟩ := condition_inj hs hs' hrest hrest' heq
  exact ⟨eq_of_parts hnegation (String.toList_inj.1 hlabel) hvalues hoperator, hrests⟩

theorem toList_labelSelector (labelSelectors : List LabelSelector) :
    (labelSelector labelSelectors).toList =
      [','].intercalate (labelSelectors.map fun s => s.toExpression.toList) := by
  unfold labelSelector
  rw [String.toList_intercalate, List.map_map]
  rfl

theorem labelSelector_ne (hne : labelSelectors ≠ []) (h : ∀ s ∈ labelSelectors, s.IsLegal) :
    labelSelector labelSelectors ≠ "" := by
  obtain ⟨s, rest, rfl⟩ := List.exists_cons_of_ne_nil hne
  obtain ⟨tail, -, htext, -⟩ := exists_rest ','
    (fun s : LabelSelector => s.toExpression.toList) s rest
  intro hempty
  have hlabel := (h s List.mem_cons_self).label_ne
  rw [← String.toList_eq_nil_iff, toList_labelSelector, htext, toList_toExpression] at hempty
  simp only [List.append_eq_nil_iff] at hempty
  exact hlabel (String.toList_eq_nil_iff.1 hempty.1.1.2)

/-- **The text that is sent determines the selectors**, in their order, whatever their values. -/
theorem labelSelector_inj (h : ∀ s ∈ labelSelectors, s.IsLegal)
    (h' : ∀ s ∈ labelSelectors', s.IsLegal) :
    labelSelector labelSelectors = labelSelector labelSelectors' ↔
      labelSelectors = labelSelectors' := by
  refine ⟨fun heq => ?_, fun heq => heq ▸ rfl⟩
  by_cases hnil : labelSelectors = []
  · by_contra hother
    subst hnil
    exact labelSelector_ne (Ne.symm hother) h' heq.symm
  · by_cases hnil' : labelSelectors' = []
    · subst hnil'
      exact absurd heq (labelSelector_ne hnil h)
    · rw [← String.toList_inj, toList_labelSelector, toList_labelSelector] at heq
      exact words_toExpression.intercalate_inj hnil hnil' h h' heq

/-- A value and a label of the next selector are told apart by the brackets. -/
theorem labelSelector_inj_brackets :
    labelSelector [.equalsSelector "app" ["web", "tier"]] ≠
      labelSelector [.equalsSelector "app" ["web"], .existsSelector "tier"] := by
  have hlegal : ∀ s ∈ [LabelSelector.equalsSelector "app" ["web", "tier"],
      .equalsSelector "app" ["web"], .existsSelector "tier"], s.IsLegal := by
    intro s hs
    simp only [List.mem_cons, List.not_mem_nil, or_false] at hs
    rcases hs with rfl | rfl | rfl <;>
      exact ⟨by simp [label], by simp [label, IsLetter], by simp [values, IsLetter]⟩
  intro heq
  have hsame := (labelSelector_inj (fun s hs => hlegal s (List.mem_of_mem_take (i := 1) hs))
    (fun s hs => hlegal s (List.mem_of_mem_drop (i := 1) hs))).1 heq
  exact absurd hsame (by decide)

end LabelSelector

end Sentinel
