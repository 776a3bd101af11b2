import Sentinel.Cron.FieldValues

/-!
# How the parser of a field fails

* `readItem_error`, `parseToken_error` — an item that is not accepted is malformed, has a numeral
  that does not fit in an `int`, or a step that carries the index beyond 32 bits.
* `contract_iff` — when `CrontabField.Parse` returns a field with values or throws a
  `FormatException`, with its own assertion kept.
-/

set_option autoImplicit false

namespace Sentinel

/-! ## Items that are not malformed and yet not accepted -/

section Failures

variable (comparer : CompareInfo) (impl : CrontabFieldImpl)

/-- A numeral that does not fit in an `int`. -/
def Overflows (str : Text) : Prop := intParse str = .error .overflowException

/-- The value, or the first one of a range that cannot be read, is such a numeral. -/
inductive BaseOverflows : Text → Prop
  | value {str : Text} : (∀ first last, ¬ Cut '-' str first last) → StartsWithDigit str →
      Overflows str → BaseOverflows str
  | first {str first last : Text} : Cut '-' str first last → StartsWithDigit first →
      Overflows first → BaseOverflows str
  | last {str first last : Text} {a : ℤ} : Cut '-' str first last →
      ReadsAtom comparer impl first a → StartsWithDigit last → Overflows last → BaseOverflows str

inductive ItemOverflows : Text → Prop
  | step {str before after : Text} : Cut '/' str before after → Overflows after →
      ItemOverflows str
  | stepped {str before after : Text} {every : ℤ} : Cut '/' str before after →
      intParse after = .ok every → BaseOverflows comparer impl before → ItemOverflows str
  | plain {str : Text} : (∀ before after, ¬ Cut '/' str before after) →
      BaseOverflows comparer impl str → ItemOverflows str

/-- The step of the item carries the index beyond 32 bits. -/
def ItemWraps (text : Text) : Prop :=
  ∃ item, ReadsItem comparer impl text item ∧ item.InRange impl ∧ item.Wraps impl

end Failures

def Exn.IsFormat (e : Exn) : Prop := ∃ message inner, e = .formatException message inner

theorem intParse_error {str : Text} {e : Exn} (h : intParse str = .error e) :
    (e = .overflowException ∧ Overflows str) ∨ e.IsFormat := by
  have hcases : e = intFormatException ∨ e = .overflowException := by
    unfold intParse at h
    simp only at h
    split_ifs at h
    · exact Or.inl (Except.error.inj h).symm
    · exact Or.inr (Except.error.inj h).symm
    · exact Or.inr (Except.error.inj h).symm
  rcases hcases with rfl | rfl
  · exact Or.inr ⟨_, _, rfl⟩
  · exact Or.inl ⟨rfl, h⟩

namespace CrontabFieldImpl

variable {comparer : CompareInfo} {impl : CrontabFieldImpl}

theorem parseValue_error {str : Text} {e : Exn} (h : parseValue comparer impl str = .error e) :
    (e = .overflowException ∧ StartsWithDigit str ∧ Overflows str) ∨ e.IsFormat := by
  cases str with
  | nil =>
    cases h
    exact Or.inr ⟨_, _, rfl⟩
  | cons c rest =>
    simp only [parseValue] at h
    split at h
    · rename_i hc
      rcases intParse_error h with ⟨he, hlong⟩ | hformat
      · exact Or.inl ⟨he, ⟨c, rest, rfl, hc⟩, hlong⟩
      · exact Or.inr hformat
    · split at h
      · cases h
        exact Or.inr ⟨_, _, rfl⟩
      · split at h
        · cases h
        · cases h
          exact Or.inr ⟨_, _, rfl⟩

theorem parseValue_of_overflows {str : Text} (hdigit : StartsWithDigit str)
    (hlong : Overflows str) : parseValue comparer impl str = .error .overflowException := by
  obtain ⟨c, rest, rfl, hc⟩ := hdigit
  simp only [parseValue]
  rw [if_pos hc]
  exact hlong

theorem readBase_error {str : Text} {e : Exn} (h : readBase comparer impl str = .error e) :
    (e = .overflowException ∧ BaseOverflows comparer impl str) ∨ e.IsFormat := by
  unfold readBase at h
  simp only at h
  split at h
  · cases h
  · split at h
    · rename_i hdash
      have hcut := cut_of_indexOf_pos hdash
      split at h
      · rename_i hfirst
        cases h
        rcases parseValue_error hfirst with ⟨he, hdigit, hlong⟩ | hformat
        · exact Or.inl ⟨he, .first hcut hdigit hlong⟩
        · exact Or.inr hformat
      · rename_i hfirst
        split at h
        · rename_i hlast
          cases h
          rcases parseValue_error hlast with ⟨he, hdigit, hlong⟩ | hformat
          · exact Or.inl ⟨he, .last hcut (parseValue_ok_iff.1 hfirst) hdigit hlong⟩
          · exact Or.inr hformat
        · cases h
    · rename_i hdash
      split at h
      · rename_i hvalue
        cases h
        rcases parseValue_error hvalue with ⟨he, hdigit, hlong⟩ | hformat
        · exact Or.inl ⟨he, .value (fun _ _ hcut => hdash hcut.indexOf_pos) hdigit hlong⟩
        · exact Or.inr hformat
      · cases h

theorem readBase_of_overflows {str : Text} (h : BaseOverflows comparer impl str) :
    readBase comparer impl str = .error .overflowException := by
  have hstar : ∀ {first last : Text}, Cut '-' str first last → str ≠ ['*'] := by
    rintro first last hcut rfl
    exact absurd hcut.indexOf_pos (by decide)
  unfold readBase
  cases h with
  | value hnot hdigit hlong =>
    have hne : str ≠ ['*'] := by
      rintro rfl
      obtain ⟨c, rest, heq, hc⟩ := hdigit
      cases heq
      exact absurd hc (by decide)
    rw [if_neg hne]
    simp only [parseValue_of_overflows hdigit hlong]
    exact if_neg fun hpos => hnot _ _ (cut_of_indexOf_pos hpos)
  | first hcut hdigit hlong =>
    rw [if_neg (hstar hcut)]
    simp only [hcut.take_eq, parseValue_of_overflows hdigit hlong]
    exact if_pos hcut.indexOf_pos
  | last hcut hfirst hdigit hlong =>
    rw [if_neg (hstar hcut)]
    simp only [hcut.take_eq, hcut.drop_eq, parseValue_ok_iff.2 hfirst,
      parseValue_of_overflows hdigit hlong]
    exact if_pos hcut.indexOf_pos

theorem readItem_error {str : Text} {e : Exn} (h : readItem comparer impl str = .error e) :
    (e = .overflowException ∧ ItemOverflows comparer impl str) ∨ e.IsFormat := by
  unfold readItem splitStep at h
  simp only at h
  split at h
  · rename_i hsplit
    cases h
    split at hsplit
    · rename_i hslash
      split at hsplit
      · rename_i hevery
        cases hsplit
        rcases intParse_error hevery with ⟨he, hlong⟩ | hformat
        · exact Or.inl ⟨he, .step (cut_of_indexOf_pos hslash) hlong⟩
        · exact Or.inr hformat
      · cases hsplit
    · cases hsplit
  · rename_i hsplit
    split at h
    · rename_i hbase
      cases h
      rcases readBase_error hbase with ⟨he, hlong⟩ | hformat
      · left
        refine ⟨he, ?_⟩
        split at hsplit
        · rename_i hslash
          split at hsplit
          · cases hsplit
          · rename_i hevery
            cases hsplit
            exact .stepped (cut_of_indexOf_pos hslash) hevery hlong
        · rename_i hslash
          cases hsplit
          exact .plain (fun _ _ hcut => hslash hcut.indexOf_pos) hlong
      · exact Or.inr hformat
    · cases h

theorem readItem_of_overflows {str : Text} (h : ItemOverflows comparer impl str) :
    readItem comparer impl str = .error .overflowException := by
  unfold readItem splitStep
  simp only
  cases h with
  | step hcut hlong =>
    rw [if_pos hcut.indexOf_pos, hcut.drop_eq, hlong]
  | stepped hcut hevery hbase =>
    rw [if_pos hcut.indexOf_pos, hcut.drop_eq, hcut.take_eq, hevery]
    simp only [readBase_of_overflows hbase]
  | plain hnot hbase =>
    rw [if_neg fun hpos => hnot _ _ (cut_of_indexOf_pos hpos)]
    simp only [readBase_of_overflows hbase]

/-! ## The assertion on the step -/

variable (comparer impl)

/-- `InternalParse` of one item gets to `Debug.Assert(every != 0)` with 0. -/
def failsAssert (str : Text) : Bool :=
  match splitStep str with
  | .error _ => false
  | .ok (every, str) =>
    if str = ['*'] then false
    else if indexOf '-' str > 0 then false
    else
      match parseValue comparer impl str with
      | .error _ => false
      | .ok _ => if every = 1 then false else every == 0

/-- The same for a list: an item is only looked at if the ones before it were accepted. -/
def listFailsAssert : List Text → CrontabField → Bool
  | [], _ => false
  | token :: tokens, f =>
    failsAssert comparer impl token ||
      match parseToken comparer impl CrontabField.accumulator token f with
      | .error _ => false
      | .ok f => listFailsAssert tokens f

variable {comparer impl}

theorem failsAssert_iff {str : Text} : failsAssert comparer impl str = true ↔
    ∃ n, ReadsItem comparer impl str ⟨.value n, 0⟩ := by
  simp only [← readItem_ok_iff]
  unfold failsAssert readItem readBase
  cases splitStep str with
  | error e => simp
  | ok read =>
    obtain ⟨every, before⟩ := read
    simp only
    by_cases hstar : before = ['*']
    · simp [hstar]
    · rw [if_neg hstar, if_neg hstar]
      by_cases hdash : indexOf '-' before > 0
      · rw [if_pos hdash, if_pos hdash]
        cases parseValue comparer impl (before.take (indexOf '-' before).toNat) with
        | error e => simp
        | ok first =>
          cases parseValue comparer impl (before.drop ((indexOf '-' before).toNat + 1)) with
          | error e => simp
          | ok last => simp
      · rw [if_neg hdash, if_neg hdash]
        cases parseValue comparer impl before with
        | error e => simp
        | ok n =>
          simp only [Except.ok.injEq, FieldItem.mk.injEq, ItemBase.value.injEq,
            exists_eq_left', Bool.if_false_left, Bool.and_eq_true, Bool.not_eq_true',
            decide_eq_false_iff_not, beq_iff_eq]
          constructor
          · exact fun h => h.2
          · rintro rfl
            exact ⟨by decide, rfl⟩

end CrontabFieldImpl

namespace CrontabField

open CrontabFieldImpl

variable {comparer : CompareInfo} {impl : CrontabFieldImpl} {f : CrontabField}

/-! ## One item -/

/-- **An item that is not accepted** overflows, wraps or is malformed. -/
theorem parseToken_error (hsmall : impl.maxValue ≤ 59) (hf : Ready impl f) {token : Text} {e : Exn}
    (h : parseToken comparer impl accumulator token f = .error e) :
    (e = .overflowException ∧ ItemOverflows comparer impl token) ∨
    (e = .argumentOutOfRangeException ∧ ItemWraps comparer impl token) ∨ e.IsFormat := by
  rw [parseToken_eq] at h
  split at h
  · rename_i hread
    cases h
    exact (readItem_error hread).imp_right Or.inr
  · rename_i item hread
    rcases apply_outcome hsmall hf.inStep hf.impl_eq (readItem_nonneg hread) with
      ⟨hrange, ⟨hwraps, herror⟩ | ⟨-, f', hf', -⟩⟩ | ⟨-, message, herror⟩
    · cases h.symm.trans herror
      exact Or.inr (Or.inl ⟨rfl, item, readItem_ok_iff.1 hread, hrange, hwraps⟩)
    · cases h.symm.trans hf'
    · cases h.symm.trans herror
      exact Or.inr (Or.inr ⟨_, _, rfl⟩)

theorem parseToken_of_overflows {token : Text} (h : ItemOverflows comparer impl token) :
    parseToken comparer impl accumulator token f = .error .overflowException := by
  rw [parseToken_eq, readItem_of_overflows h]

theorem parseToken_of_wraps (hsmall : impl.maxValue ≤ 59) (hf : Ready impl f) {token : Text}
    (h : ItemWraps comparer impl token) :
    parseToken comparer impl accumulator token f = .error .argumentOutOfRangeException := by
  obtain ⟨item, hitem, hrange, hwraps⟩ := h
  have hread := readItem_ok_iff.2 hitem
  rw [parseToken_eq, hread]
  rcases apply_outcome hsmall hf.inStep hf.impl_eq (readItem_nonneg hread) with
    ⟨-, ⟨-, herror⟩ | ⟨hfits, -⟩⟩ | ⟨hout, -⟩
  · exact herror
  · exact absurd hwraps hfits
  · exact absurd hrange hout

/-! ## The first item that is not accepted -/

/-- The parser gets to the item: all items before it are accepted. -/
def Reaches (comparer : CompareInfo) (impl : CrontabFieldImpl) (tokens : List Text)
    (token : Text) : Prop :=
  ∃ before rest, tokens = before ++ token :: rest ∧ ∀ t ∈ before, Accepted comparer impl t

theorem reaches_head (token : Text) (tokens : List Text) :
    Reaches comparer impl (token :: tokens) token :=
  ⟨[], tokens, rfl, fun _ h => absurd h List.not_mem_nil⟩

theorem reaches_cons {token first : Text} {tokens : List Text}
    (hfirst : Accepted comparer impl first) (h : Reaches comparer impl tokens token) :
    Reaches comparer impl (first :: tokens) token := by
  obtain ⟨before, rest, rfl, hall⟩ := h
  exact ⟨first :: before, rest, rfl, List.forall_mem_cons.2 ⟨hfirst, hall⟩⟩

theorem reaches_cons_iff {token first : Text} {tokens : List Text} :
    Reaches comparer impl (first :: tokens) token ↔
      token = first ∨ (Accepted comparer impl first ∧ Reaches comparer impl tokens token) := by
  constructor
  · rintro ⟨before, rest, heq, hall⟩
    cases before with
    | nil => exact Or.inl (List.cons.inj heq).1.symm
    | cons b before =>
      obtain ⟨rfl, rfl⟩ := List.cons.inj heq
      rw [List.forall_mem_cons] at hall
      exact Or.inr ⟨hall.1, before, rest, rfl, hall.2⟩
  · rintro (rfl | ⟨hfirst, h⟩)
    · exact reaches_head _ _
    · exact reaches_cons hfirst h

/-- A list fails as the first item that is not accepted does. -/
theorem forEach_error (hsmall : impl.maxValue ≤ 59) {tokens : List Text} (hf : Ready impl f)
    {e : Exn} (h : forEach (parseToken comparer impl accumulator) tokens f = .error e) :
    ∃ token g, Reaches comparer impl tokens token ∧ Ready impl g ∧
      parseToken comparer impl accumulator token g = .error e := by
  induction tokens generalizing f with
  | nil => cases h
  | cons token tokens ih =>
    rw [forEach] at h
    split at h
    · rename_i herror
      cases h
      exact ⟨token, f, reaches_head _ _, hf, herror⟩
    · rename_i f₁ hf₁
      have hfirst := accepted_of_parseToken hsmall hf hf₁
      obtain ⟨f₂, hf₂, himpl, hpop, -⟩ := parseToken_accepted hsmall hf hfirst
      cases hf₁.symm.trans hf₂
      obtain ⟨token', g, hreaches, hg, herror⟩ := ih ⟨himpl, hpop.inStep⟩ h
      exact ⟨token', g, reaches_cons hfirst hreaches, hg, herror⟩

/-- An item that fails whatever was added before makes a list that reaches it fail. -/
theorem forEach_of_reaches (hsmall : impl.maxValue ≤ 59) {tokens : List Text} {token : Text}
    {e : Exn} (htoken : ∀ g, Ready impl g →
      parseToken comparer impl accumulator token g = .error e)
    (hf : Ready impl f) (h : Reaches comparer impl tokens token) :
    forEach (parseToken comparer impl accumulator) tokens f = .error e := by
  induction tokens generalizing f with
  | nil =>
    obtain ⟨before, rest, heq, -⟩ := h
    exact absurd heq.symm (by simp)
  | cons first tokens ih =>
    rw [forEach]
    rcases reaches_cons_iff.1 h with rfl | ⟨hfirst, h⟩
    · rw [htoken f hf]
    · obtain ⟨f₁, hf₁, himpl, hpop, -⟩ := parseToken_accepted hsmall hf hfirst
      rw [hf₁]
      exact ih ⟨himpl, hpop.inStep⟩ h

theorem listFailsAssert_iff (hsmall : impl.maxValue ≤ 59) {tokens : List Text} (hf : Ready impl f) :
    listFailsAssert comparer impl tokens f = true ↔
      ∃ token n, Reaches comparer impl tokens token ∧
        ReadsItem comparer impl token ⟨.value n, 0⟩ := by
  induction tokens generalizing f with
  | nil =>
    refine iff_of_false Bool.false_ne_true ?_
    rintro ⟨token, n, ⟨before, rest, heq, -⟩, -⟩
    exact absurd heq.symm (by simp)
  | cons first tokens ih =>
    rw [listFailsAssert, Bool.or_eq_true, failsAssert_iff]
    have hrest : (match parseToken comparer impl accumulator first f with
        | .error _ => false
        | .ok f => listFailsAssert comparer impl tokens f) = true ↔
        Accepted comparer impl first ∧ ∃ token n, Reaches comparer impl tokens token ∧
          ReadsItem comparer impl token ⟨.value n, 0⟩ := by
      split
      · rename_i herror
        refine iff_of_false Bool.false_ne_true fun h => ?_
        obtain ⟨f₁, hf₁, -⟩ := parseToken_accepted hsmall hf h.1
        cases herror.symm.trans hf₁
      · rename_i f₁ hf₁
        have hfirst := accepted_of_parseToken hsmall hf hf₁
        obtain ⟨f₂, hf₂, himpl, hpop, -⟩ := parseToken_accepted hsmall hf hfirst
        cases hf₁.symm.trans hf₂
        rw [ih ⟨himpl, hpop.inStep⟩, and_iff_right hfirst]
    rw [hrest]
    constructor
    · rintro (⟨n, hn⟩ | ⟨hfirst, token, n, hreaches, hn⟩)
      · exact ⟨first, n, reaches_head _ _, hn⟩
      · exact ⟨token, n, reaches_cons hfirst hreaches, hn⟩
    · rintro ⟨token, n, hreaches, hn⟩
      rcases reaches_cons_iff.1 hreaches with rfl | ⟨hfirst, hreaches⟩
      · exact Or.inl ⟨n, hn⟩
      · exact Or.inr ⟨hfirst, token, n, hreaches, hn⟩

/-! ## A whole expression -/

variable {kind : CrontabFieldKind} {expression : Option Text}

/-- `Parse` gets to the assertion on the step with 0. -/
def parseFailsAssert (comparer : CompareInfo) (kind : CrontabFieldKind) :
    Option Text → Bool
  | none => false
  | some [] => false
  | some str => listFailsAssert comparer (fromKind kind) (listItems str) (blank (fromKind kind))

/-- The constructor fails as the loop does; format errors are reported for the whole text. -/
theorem create_cases (comparer : CompareInfo) (impl : CrontabFieldImpl) {str : Text}
    (hne : str ≠ []) :
    (∃ f, forEach (parseToken comparer impl accumulator) (listItems str) (blank impl) = .ok f ∧
      create comparer impl (some str) = .ok f) ∨
    ∃ e e', forEach (parseToken comparer impl accumulator) (listItems str) (blank impl) =
        .error e ∧
      create comparer impl (some str) = .error e' ∧ ((e.IsFormat ∧ e'.IsFormat) ∨ e' = e) := by
  cases h : forEach (parseToken comparer impl accumulator) (listItems str) (blank impl) with
  | ok f => exact Or.inl ⟨f, rfl, (create_ok_iff hne).2 h⟩
  | error e =>
    right
    rw [← internalParse_eq_forEach hne] at h
    obtain ⟨c, rest, rfl⟩ := List.exists_cons_of_ne_nil hne
    unfold create CrontabFieldImpl.parse
    simp only
    split
    · rename_i message inner hparse
      cases h.symm.trans hparse
      exact ⟨_, _, rfl, rfl, Or.inl ⟨⟨_, _, rfl⟩, _, _, rfl⟩⟩
    · exact ⟨e, e, rfl, h, Or.inr rfl⟩

/-- What is asked of `CrontabField.Parse`.  An index outside the bit table would be an exception
other than `FormatException`. -/
structure Contract (comparer : CompareInfo) (kind : CrontabFieldKind) (expression : Option Text) :
    Prop where
  outcome : (∃ f, parse comparer kind expression = .ok f ∧ f.values.Nonempty) ∨
    ∃ e, parse comparer kind expression = .error e ∧ e.IsFormat
  asserts : parseFailsAssert comparer kind expression = false
  inRange : ∀ f str, parse comparer kind expression = .ok f → expression = some str →
    ∀ text ∈ listItems str, ∀ item, ReadsItem comparer (fromKind kind) text item →
      item.InRange (fromKind kind)

/-- The parser gets through the item, or refuses it as malformed or out of range. -/
structure Regular (comparer : CompareInfo) (impl : CrontabFieldImpl) (token : Text) : Prop where
  fits : ¬ ItemOverflows comparer impl token
  inTable : ¬ ItemWraps comparer impl token
  step_ne_zero : ∀ n, ¬ ReadsItem comparer impl token ⟨.value n, 0⟩

/-- An item that fails with another exception makes the constructor fail so too. -/
theorem create_error_of_reaches {impl : CrontabFieldImpl} {str token : Text} {e : Exn}
    (hsmall : impl.maxValue ≤ 59) (hblank : Ready impl (blank impl)) (hne : str ≠ [])
    (hreaches : Reaches comparer impl (listItems str) token) (hnot : ¬ e.IsFormat)
    (htoken : ∀ g, Ready impl g → parseToken comparer impl accumulator token g = .error e) :
    ∃ e', create comparer impl (some str) = .error e' ∧ ¬ e'.IsFormat := by
  have hloop := forEach_of_reaches hsmall htoken hblank hreaches
  rcases create_cases comparer impl hne with ⟨f, hf, -⟩ | ⟨e₁, e₂, he₁, hcreate, hsame⟩
  · cases hloop.symm.trans hf
  · cases hloop.symm.trans he₁
    rcases hsame with ⟨hformat, -⟩ | rfl
    · exact absurd hformat hnot
    · exact ⟨e₂, hcreate, hnot⟩

/-- Regular items give a field with values or a format error. -/
theorem create_outcome_of_regular {str : Text} (hne : str ≠ [])
    (hregular : ∀ token, Reaches comparer (fromKind kind) (listItems str) token →
      Regular comparer (fromKind kind) token) :
    (∃ f, create comparer (fromKind kind) (some str) = .ok f ∧ f.values.Nonempty) ∨
      ∃ e, create comparer (fromKind kind) (some str) = .error e ∧ e.IsFormat := by
  have hsmall := fromKind_maxValue kind
  have hblank := blank_ready (fromKind kind)
  rcases create_cases comparer (fromKind kind) hne with
    ⟨f, -, hcreate⟩ | ⟨e, e', he, hcreate, hsame⟩
  · exact Or.inl ⟨f, hcreate, _, (create_populated hne hcreate).2.least.1⟩
  · obtain ⟨token, g, hreaches, hg, htoken⟩ := forEach_error hsmall hblank he
    have hformat : e.IsFormat := by
      rcases parseToken_error hsmall hg htoken with ⟨-, hlong⟩ | ⟨-, hwraps⟩ | hformat
      · exact absurd hlong (hregular token hreaches).fits
      · exact absurd hwraps (hregular token hreaches).inTable
      · exact hformat
    refine Or.inr ⟨e', hcreate, ?_⟩
    rcases hsame with ⟨-, hformat'⟩ | rfl
    · exact hformat'
    · exact hformat

/-- **The parser keeps its contract** iff the text is neither null nor empty and the parser gets to
no item with a numeral beyond `int`, a step that carries the index beyond 32 bits, or a single value
with step 0. -/
theorem contract_iff (comparer : CompareInfo) (kind : CrontabFieldKind)
    (expression : Option Text) : Contract comparer kind expression ↔
      ∃ str, expression = some str ∧ str ≠ [] ∧
        ∀ token, Reaches comparer (fromKind kind) (listItems str) token →
          Regular comparer (fromKind kind) token := by
  have hsmall := fromKind_maxValue kind
  have hblank := blank_ready (fromKind kind)
  constructor
  · rintro ⟨houtcome, hasserts, -⟩
    have hempty : parse comparer kind expression ≠ .ok (blank (fromKind kind)) := by
      intro hparse
      rcases houtcome with ⟨f, hf, hvalues⟩ | ⟨e, he, -⟩
      · cases hparse.symm.trans hf
        rw [blank_values] at hvalues
        exact Set.not_nonempty_empty hvalues
      · cases hparse.symm.trans he
    obtain ⟨str, rfl⟩ : ∃ str, expression = some str := by
      cases expression with
      | none => exact absurd rfl hempty
      | some str => exact ⟨str, rfl⟩
    have hne : str ≠ [] := by
      rintro rfl
      exact hempty rfl
    have hother : ∀ token e, Reaches comparer (fromKind kind) (listItems str) token →
        ¬ e.IsFormat → ¬ ∀ g, Ready (fromKind kind) g →
          parseToken comparer (fromKind kind) accumulator token g = .error e := by
      intro token e hreaches hnot htoken
      obtain ⟨e', hcreate, hnot'⟩ := create_error_of_reaches hsmall hblank hne hreaches hnot htoken
      rcases houtcome with ⟨f, hf, -⟩ | ⟨e₃, he₃, hformat⟩
      · cases hcreate.symm.trans hf
      · cases hcreate.symm.trans he₃
        exact hnot' hformat
    refine ⟨str, rfl, hne, fun token hreaches => ⟨fun hlong => ?_, fun hwraps => ?_, ?_⟩⟩
    · exact hother token .overflowException hreaches (by rintro ⟨_, _, ⟨⟩⟩)
        fun g _ => parseToken_of_overflows hlong
    · exact hother token .argumentOutOfRangeException hreaches (by rintro ⟨_, _, ⟨⟩⟩)
        fun g hg => parseToken_of_wraps hsmall hg hwraps
    · intro n hn
      obtain ⟨c, rest, rfl⟩ := List.exists_cons_of_ne_nil hne
      have hfails := (listFailsAssert_iff hsmall hblank).2 ⟨token, n, hreaches, hn⟩
      exact Bool.false_ne_true (hasserts.symm.trans hfails)
  · rintro ⟨str, rfl, hne, hregular⟩
    refine ⟨create_outcome_of_regular hne hregular, ?_, ?_⟩
    · obtain ⟨c, rest, rfl⟩ := List.exists_cons_of_ne_nil hne
      rw [← Bool.not_eq_true]
      intro hfails
      obtain ⟨token, n, hreaches, hn⟩ := (listFailsAssert_iff hsmall hblank).1 hfails
      exact (hregular token hreaches).step_ne_zero n hn
    · rintro f _ hparse ⟨⟩ text htext item hitem
      obtain ⟨item', hitem', hrange, -⟩ :=
        accepted_of_forEach hsmall hblank ((create_ok_iff hne).1 hparse) text htext
      rw [readsItem_unique hitem hitem']
      exact hrange

/-- A numeral beyond `int`, a step that carries the index beyond 32 bits, step 0, null. -/
theorem not_contract :
    ¬ Contract .ascii .minute (some "99999999999".toList) ∧
    ¬ Contract .ascii .minute (some "5/2147483647".toList) ∧
    ¬ Contract .ascii .minute (some "5/0".toList) ∧ ¬ Contract .ascii .minute none := by
  have hthrows : ∀ expression e, thrown (parse .ascii .minute expression) = some e →
      ¬ e.IsFormat → ¬ Contract .ascii .minute expression := by
    rintro expression e he hnot ⟨⟨f, hf, -⟩ | ⟨e', he', hformat⟩, -, -⟩
    · rw [hf] at he
      cases he
    · rw [he'] at he
      cases he
      exact hnot hformat
  refine ⟨hthrows _ .overflowException (by decide +kernel) (by rintro ⟨_, _, ⟨⟩⟩),
    hthrows _ .argumentOutOfRangeException (by decide +kernel) (by rintro ⟨_, _, ⟨⟩⟩), ?_, ?_⟩
  · intro h
    exact absurd h.asserts (by decide +kernel)
  · rintro ⟨⟨f, ⟨⟩, hvalues⟩ | ⟨e, ⟨⟩, -⟩, -, -⟩
    rw [blank_values] at hvalues
    exact Set.not_nonempty_empty hvalues

end CrontabField

end Sentinel
