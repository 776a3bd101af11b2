import Sentinel.Cron.FieldMeaning

/-!
# The values of a whole expression

`InternalParse` deals with the items of a list one after the other; whether it accepts one and what
this adds to the field depends on the item alone.

* `internalParse_eq_forEach` — the parser is a loop over the items.
* `parse_of_accepted`, `accepted_of_parse` — an expression is accepted iff each of its items is.
* `contains_iff_selected` — the field contains a value iff some item selects it, so neither the
  order of the items nor repeated items matter.
* `step_refines_iff` — the values of a multiple of a step are among those of the step, but for a
  single value with step 1.
-/

set_option autoImplicit false

namespace Sentinel

section Items

variable (comparer : CompareInfo) (impl : CrontabFieldImpl)

/-- The text is an item that names values of the kind's range only, and whose step fits. -/
def Accepted (text : Text) : Prop :=
  ∃ item, ReadsItem comparer impl text item ∧ item.InRange impl ∧ ¬ item.Wraps impl

/-- The text is an item that selects `v`. -/
def Selects (text : Text) (v : ℤ) : Prop :=
  ∃ item, ReadsItem comparer impl text item ∧ v ∈ item.selected impl

end Items

/-- The items of an expression; null and the empty text have none. -/
def itemsOf : Option Text → List Text
  | none => []
  | some [] => []
  | some str => split ',' str

namespace CrontabFieldImpl

variable {comparer : CompareInfo} {impl : CrontabFieldImpl} {σ : Type}
  {acc : ℤ → ℤ → ℤ → σ → Except Exn σ}

/-- The texts `InternalParse` deals with: a comma at the very start does not make a list. -/
def listItems (str : Text) : List Text := if indexOf ',' str > 0 then split ',' str else [str]

theorem parseToken_eq (token : Text) (st : σ) : parseToken comparer impl acc token st =
    match readItem comparer impl token with
    | .error e => .error e
    | .ok item => item.apply impl acc st := by
  unfold parseToken
  split
  · rename_i htoken
    rw [htoken]
    rfl
  · exact parseItem_eq token st

theorem internalParse_eq_forEach {str : Text} (hne : str ≠ []) (st : σ) :
    internalParse comparer impl acc str st =
      forEach (parseToken comparer impl acc) (listItems str) st := by
  unfold internalParse listItems
  rw [if_neg hne]
  by_cases hcomma : indexOf ',' str > 0
  · rw [if_pos hcomma, if_pos hcomma]
  · rw [if_neg hcomma, if_neg hcomma, forEach_singleton, parseToken, if_neg hne]

/-- Two readings of one text are the same. -/
theorem readsItem_unique {text : Text} {item item' : FieldItem}
    (h : ReadsItem comparer impl text item) (h' : ReadsItem comparer impl text item') :
    item = item' :=
  Except.ok.inj ((readItem_ok_iff.2 h).symm.trans (readItem_ok_iff.2 h'))

/-! ### A comma at the start -/

section Comma

variable (hcomma : comparer.CommaCounts)
  (hletters : ∀ ns ∈ impl.names, ∀ name ∈ ns, ∀ c ∈ name.toList, c.isAlpha = true)

include hcomma hletters

theorem not_readsAtom_of_comma (rest : Text) (n : ℤ) :
    ¬ ReadsAtom comparer impl (',' :: rest) n := by
  rintro (⟨⟨c, rest', heq, hdigit⟩, -⟩ | ⟨-, -, hnames, hi⟩)
  · cases heq
    exact absurd hdigit (by decide)
  · obtain ⟨hlt, hprefix, -⟩ := List.findIdx?_eq_some_iff_getElem.1 hi
    rw [hcomma _ _ (hletters _ hnames _ (List.getElem_mem hlt))] at hprefix
    · cases hprefix
    · simp

theorem not_readsBase_of_comma (rest : Text) (base : ItemBase) :
    ¬ ReadsBase comparer impl (',' :: rest) base := by
  intro h
  cases h with
  | range _ hcut hfirst _ =>
    obtain ⟨c, before, rfl⟩ := List.exists_cons_of_ne_nil hcut.ne_nil
    obtain rfl : ',' = c := (List.cons.inj hcut.eq).1
    exact not_readsAtom_of_comma hcomma hletters _ _ hfirst
  | value _ _ hn => exact not_readsAtom_of_comma hcomma hletters _ _ hn

theorem not_readsItem_of_comma (rest : Text) (item : FieldItem) :
    ¬ ReadsItem comparer impl (',' :: rest) item := by
  intro h
  cases h with
  | step hcut hbase _ =>
    obtain ⟨c, before, rfl⟩ := List.exists_cons_of_ne_nil hcut.ne_nil
    obtain rfl : ',' = c := (List.cons.inj hcut.eq).1
    exact not_readsBase_of_comma hcomma hletters _ _ hbase
  | plain _ hbase => exact not_readsBase_of_comma hcomma hletters _ _ hbase

/-- The texts the parser deals with are the items of the list, unless it starts with a comma: then
neither are accepted. -/
theorem listItems_cases {str : Text} (hne : str ≠ []) :
    listItems str = itemsOf (some str) ∨
    (¬ ∀ text ∈ listItems str, Accepted comparer impl text) ∧
      ¬ ∀ text ∈ itemsOf (some str), Accepted comparer impl text := by
  obtain ⟨c, rest, rfl⟩ := List.exists_cons_of_ne_nil hne
  unfold listItems
  simp only [itemsOf]
  by_cases hlist : indexOf ',' (c :: rest) > 0
  · exact Or.inl (if_pos hlist)
  · rw [if_neg hlist]
    by_cases hmem : ',' ∈ c :: rest
    · right
      obtain ⟨before, after, heq, hfirst⟩ := List.eq_append_cons_of_mem hmem
      have hbefore : before = [] := by
        by_contra hbefore
        exact hlist (Cut.indexOf_pos ⟨heq, hbefore, hfirst⟩)
      rw [hbefore] at heq
      obtain rfl : c = ',' := (List.cons.inj heq).1
      refine ⟨fun hall => ?_, fun hall => ?_⟩
      · obtain ⟨item, hitem, -⟩ := hall _ (List.mem_singleton_self _)
        exact not_readsItem_of_comma hcomma hletters rest item hitem
      · have hempty : [] ∈ split ',' (',' :: rest) := by
          unfold split
          rw [List.splitOn_cons_eq_if_modifyHead]
          exact List.mem_cons_self
        obtain ⟨item, hitem, -⟩ := hall _ hempty
        cases readItem_ok_iff.2 hitem
    · left
      unfold split
      rw [List.splitOn_eq_singleton hmem]

end Comma

end CrontabFieldImpl

/-! ## The loop over the items -/

namespace CrontabField

open CrontabFieldImpl

variable {comparer : CompareInfo} {impl : CrontabFieldImpl} {f f' : CrontabField}

/-- A field of the kind, in step. -/
structure Ready (impl : CrontabFieldImpl) (f : CrontabField) : Prop where
  impl_eq : f.impl = impl
  inStep : f.InStep

theorem blank_ready (impl : CrontabFieldImpl) : Ready impl (blank impl) :=
  ⟨rfl, blank_inStep impl⟩

/-- An accepted item adds the values it selects. -/
theorem parseToken_accepted (hsmall : impl.maxValue ≤ 59) (hf : Ready impl f) {token : Text}
    (h : Accepted comparer impl token) :
    ∃ f', parseToken comparer impl accumulator token f = .ok f' ∧ f'.impl = impl ∧ f'.Populated ∧
      ∀ v, v ∈ f'.values ↔ v ∈ f.values ∨ Selects comparer impl token v := by
  obtain ⟨item, hitem, hrange, hfits⟩ := h
  have hread := readItem_ok_iff.2 hitem
  rw [parseToken_eq, hread]
  rcases apply_outcome hsmall hf.inStep hf.impl_eq (readItem_nonneg hread) with
    ⟨-, ⟨hwraps, -⟩ | ⟨-, f', hf', himpl, hpop, hvalues⟩⟩ | ⟨hout, -⟩
  · exact absurd hwraps hfits
  · refine ⟨f', hf', himpl, hpop, fun v => ?_⟩
    rw [hvalues, Set.mem_union]
    refine or_congr_right ⟨fun hv => ⟨item, hitem, hv⟩, ?_⟩
    rintro ⟨item', hitem', hv⟩
    rw [readsItem_unique hitem hitem']
    exact hv
  · exact absurd hrange hout

/-- An item that the parser gets through is accepted. -/
theorem accepted_of_parseToken (hsmall : impl.maxValue ≤ 59) (hf : Ready impl f) {token : Text}
    (h : parseToken comparer impl accumulator token f = .ok f') :
    Accepted comparer impl token := by
  rw [parseToken_eq] at h
  split at h
  · cases h
  · rename_i item hread
    rcases apply_outcome hsmall hf.inStep hf.impl_eq (readItem_nonneg hread) with
      ⟨hrange, ⟨-, herror⟩ | ⟨hfits, -⟩⟩ | ⟨-, message, herror⟩
    · rw [herror] at h
      cases h
    · exact ⟨item, readItem_ok_iff.1 hread, hrange, hfits⟩
    · rw [herror] at h
      cases h

/-- Accepted items add the values they select, whatever was there before. -/
theorem forEach_accepted (hsmall : impl.maxValue ≤ 59) {tokens : List Text} (hf : Ready impl f)
    (h : ∀ token ∈ tokens, Accepted comparer impl token) :
    ∃ f', forEach (parseToken comparer impl accumulator) tokens f = .ok f' ∧ Ready impl f' ∧
      ∀ v, v ∈ f'.values ↔ v ∈ f.values ∨ ∃ token ∈ tokens, Selects comparer impl token v := by
  induction tokens generalizing f with
  | nil => exact ⟨f, rfl, hf, fun v => by simp⟩
  | cons token tokens ih =>
    rw [List.forall_mem_cons] at h
    obtain ⟨f₁, hf₁, himpl, hpop, hvalues⟩ := parseToken_accepted hsmall hf h.1
    obtain ⟨f', hf', hready, hall⟩ := ih ⟨himpl, hpop.inStep⟩ h.2
    refine ⟨f', by rw [forEach, hf₁]; exact hf', hready, fun v => ?_⟩
    rw [hall, hvalues, List.exists_mem_cons_iff, or_assoc]

/-- Items that the parser gets through are accepted. -/
theorem accepted_of_forEach (hsmall : impl.maxValue ≤ 59) {tokens : List Text} (hf : Ready impl f)
    (h : forEach (parseToken comparer impl accumulator) tokens f = .ok f') :
    ∀ token ∈ tokens, Accepted comparer impl token := by
  induction tokens generalizing f with
  | nil => exact fun token htoken => absurd htoken List.not_mem_nil
  | cons token tokens ih =>
    rw [forEach] at h
    split at h
    · cases h
    · rename_i f₁ hf₁
      have hfirst := accepted_of_parseToken hsmall hf hf₁
      obtain ⟨f₂, hf₂, himpl, hpop, -⟩ := parseToken_accepted hsmall hf hfirst
      cases hf₁.symm.trans hf₂
      exact List.forall_mem_cons.2 ⟨hfirst, ih ⟨himpl, hpop.inStep⟩ h⟩

theorem create_ok_iff {str : Text} (hne : str ≠ []) :
    create comparer impl (some str) = .ok f ↔
      forEach (parseToken comparer impl accumulator) (listItems str) (blank impl) = .ok f := by
  rw [← internalParse_eq_forEach hne]
  obtain ⟨c, rest, rfl⟩ := List.exists_cons_of_ne_nil hne
  unfold create CrontabFieldImpl.parse
  simp only
  split
  · rename_i herror
    rw [herror]
    exact iff_of_false (by rintro ⟨⟩) (by rintro ⟨⟩)
  · rfl

/-! ## The kinds -/

variable {kind : CrontabFieldKind} {expression : Option Text}

theorem fromKind_maxValue (kind : CrontabFieldKind) : (fromKind kind).maxValue ≤ 59 := by
  cases kind <;> decide

theorem fromKind_letters (kind : CrontabFieldKind) :
    ∀ ns ∈ (fromKind kind).names, ∀ name ∈ ns, ∀ c ∈ name.toList, c.isAlpha = true := by
  have hall : ∀ ns ∈ (fromKind kind).names, ∀ name ∈ ns, name.toList.all Char.isAlpha = true := by
    cases kind <;> decide +kernel
  exact fun ns hns name hname c hc => List.all_eq_true.1 (hall ns hns name hname) c hc

/-- **An expression is accepted iff each of its items is**, and has the values they select. -/
theorem parse_of_accepted (hcomma : comparer.CommaCounts)
    (h : ∀ text ∈ itemsOf expression, Accepted comparer (fromKind kind) text) :
    ∃ f, parse comparer kind expression = .ok f ∧ Ready (fromKind kind) f ∧
      (if itemsOf expression = [] then f = blank (fromKind kind) else f.Populated) ∧
      ∀ v, v ∈ f.values ↔ ∃ text ∈ itemsOf expression, Selects comparer (fromKind kind) text v := by
  have hblank : ∃ f, (.ok (blank (fromKind kind)) : Except Exn CrontabField) = .ok f ∧
      Ready (fromKind kind) f ∧ f = blank (fromKind kind) ∧
      ∀ v, v ∈ f.values ↔ ∃ text ∈ ([] : List Text), Selects comparer (fromKind kind) text v := by
    refine ⟨_, rfl, blank_ready _, rfl, fun v => ?_⟩
    rw [blank_values]
    simp
  cases expression with
  | none => exact hblank
  | some str =>
    cases str with
    | nil => exact hblank
    | cons c rest =>
      have hne : c :: rest ≠ [] := List.cons_ne_nil _ _
      have hitems : itemsOf (some (c :: rest)) ≠ [] := List.splitOn_ne_nil ',' (c :: rest)
      rcases listItems_cases hcomma (fromKind_letters kind) hne with hsame | ⟨-, hnot⟩
      · obtain ⟨f, hf, hready, hvalues⟩ := forEach_accepted (fromKind_maxValue kind)
          (blank_ready (fromKind kind)) (hsame ▸ h)
        have hcreate : create comparer (fromKind kind) (some (c :: rest)) = .ok f :=
          (create_ok_iff hne).2 hf
        refine ⟨f, hcreate, hready, ?_, fun v => ?_⟩
        · rw [if_neg hitems]
          exact (create_populated hne hcreate).2
        · rw [hvalues, blank_values, hsame]
          simp
      · exact absurd h hnot

theorem accepted_of_parse (hcomma : comparer.CommaCounts)
    (h : parse comparer kind expression = .ok f) :
    ∀ text ∈ itemsOf expression, Accepted comparer (fromKind kind) text := by
  cases expression with
  | none => exact fun text htext => absurd htext List.not_mem_nil
  | some str =>
    cases str with
    | nil => exact fun text htext => absurd htext List.not_mem_nil
    | cons c rest =>
      have hne : c :: rest ≠ [] := List.cons_ne_nil _ _
      have haccepted := accepted_of_forEach (fromKind_maxValue kind)
        (blank_ready (fromKind kind)) ((create_ok_iff hne).1 h)
      rcases listItems_cases hcomma (fromKind_letters kind) hne with hsame | ⟨hnot, -⟩
      · exact hsame ▸ haccepted
      · exact absurd haccepted hnot

/-- **A field contains exactly the values that some item of its expression selects**; expressions
with the same items, in any order and number, give the same field. -/
theorem contains_iff_selected (hcomma : comparer.CommaCounts)
    (h : parse comparer kind expression = .ok f) :
    (∀ v, (fromKind kind).minValue ≤ v → v ≤ (fromKind kind).maxValue →
      ∃ b, f.contains v = .ok b ∧
        (b = true ↔ ∃ text ∈ itemsOf expression, Selects comparer (fromKind kind) text v)) ∧
    ∀ expression', (∀ text, text ∈ itemsOf expression' ↔ text ∈ itemsOf expression) →
      parse comparer kind expression' = .ok f := by
  have haccepted := accepted_of_parse hcomma h
  obtain ⟨g, hg, hready, hpop, hvalues⟩ := parse_of_accepted hcomma haccepted
  obtain rfl : f = g := Except.ok.inj (h.symm.trans hg)
  refine ⟨fun v hlo hhi => ?_, fun expression' hsame => ?_⟩
  · obtain ⟨b, hb, hmem⟩ := contains_of_length hready.inStep.length (hready.impl_eq.symm ▸ hlo)
      (hready.impl_eq.symm ▸ hhi)
    exact ⟨b, hb, hmem.trans (hvalues v)⟩
  · have haccepted' : ∀ text ∈ itemsOf expression', Accepted comparer (fromKind kind) text :=
      fun text htext => haccepted text ((hsame text).1 htext)
    obtain ⟨g, hg, hready', hpop', hvalues'⟩ := parse_of_accepted hcomma haccepted'
    have hempty : itemsOf expression' = [] ↔ itemsOf expression = [] := by
      simp only [List.eq_nil_iff_forall_not_mem, hsame]
    rw [hg]
    by_cases hnil : itemsOf expression = []
    · rw [if_pos hnil] at hpop
      rw [if_pos (hempty.2 hnil)] at hpop'
      rw [hpop, hpop']
    · rw [if_neg hnil] at hpop
      rw [if_neg fun hnil' => hnil (hempty.1 hnil')] at hpop'
      refine congrArg Except.ok (hpop'.ext hpop (hready'.impl_eq.trans hready.impl_eq.symm) ?_)
      ext v
      simp only [hvalues, hvalues', hsame]

/-- A list of months in another order, with one item twice. -/
theorem contains_iff_selected_months : ∃ f,
    parse .ascii .month (some "feb-4,*/5".toList) = .ok f ∧
    parse .ascii .month (some "*/5,feb-4,*/5".toList) = .ok f ∧ f.contains 6 = .ok true ∧
    ∃ text ∈ itemsOf (some "feb-4,*/5".toList), Selects .ascii (fromKind .month) text 6 := by
  obtain ⟨f, hf, hsix⟩ := exists_of_okAnd
    (show okAnd (parse .ascii .month (some "feb-4,*/5".toList))
      (fun f => decide (f.contains 6 = .ok true)) = true by decide +kernel)
  have hsix := of_decide_eq_true hsix
  obtain ⟨hcontains, hsame⟩ := contains_iff_selected CompareInfo.commaCounts_ascii hf
  obtain ⟨b, hb, hiff⟩ := hcontains 6 (by decide) (by decide)
  cases hsix.symm.trans hb
  refine ⟨f, hf, hsame _ fun text => ?_, hsix, hiff.1 rfl⟩
  rw [show itemsOf (some "*/5,feb-4,*/5".toList) = ["*/5".toList, "feb-4".toList, "*/5".toList] by
    decide +kernel, show itemsOf (some "feb-4,*/5".toList) = ["feb-4".toList, "*/5".toList] by
    decide +kernel]
  simp only [List.mem_cons, List.not_mem_nil, or_false]
  tauto

/-! ## Steps -/

theorem stride_subset {lo hi k m : ℤ} (hm : 1 ≤ m) (hdvd : k ∣ m) :
    stride lo hi m ⊆ stride lo hi k := by
  rintro v ⟨hlo, hhi, hstep⟩
  refine ⟨hlo, hhi, fun htwo => ?_⟩
  have hle : k ≤ m := Int.le_of_dvd (by omega) hdvd
  exact hdvd.trans (hstep (htwo.trans hle))

/-- The values of an expression with one item are those that the item selects. -/
theorem values_of_item {text : Text} {item : FieldItem} (hsingle : ',' ∉ text)
    (hitem : ReadsItem comparer (fromKind kind) text item)
    (h : parse comparer kind (some text) = .ok f) :
    f.values = item.selected (fromKind kind) ∧ item.InRange (fromKind kind) := by
  have hne : text ≠ [] := by
    rintro rfl
    cases readItem_ok_iff.2 hitem
  have hlist : listItems text = [text] := by
    unfold listItems
    rw [indexOf_of_not_mem hsingle]
    rfl
  have hparse := (create_ok_iff hne).1 h
  have haccepted := accepted_of_forEach (fromKind_maxValue kind) (blank_ready _) hparse
  obtain ⟨g, hg, -, hvalues⟩ :=
    forEach_accepted (fromKind_maxValue kind) (blank_ready (fromKind kind)) haccepted
  cases hparse.symm.trans hg
  rw [hlist] at hvalues haccepted
  refine ⟨?_, ?_⟩
  · ext v
    rw [hvalues, blank_values]
    simp only [Set.mem_empty_iff_false, List.mem_singleton, exists_eq_left, false_or]
    constructor
    · rintro ⟨item', hitem', hv⟩
      rw [readsItem_unique hitem hitem']
      exact hv
    · exact fun hv => ⟨item, hitem, hv⟩
  · obtain ⟨item', hitem', hrange, -⟩ := haccepted text (List.mem_singleton_self text)
    rw [readsItem_unique hitem hitem']
    exact hrange

/-- An item with a multiple of the step selects a part of the values, unless it is a single value
with step 1, which selects nothing else. -/
theorem selected_subset_iff {impl : CrontabFieldImpl} {base : ItemBase} {k m : ℤ} (hk : 1 ≤ k)
    (hm : 1 ≤ m) (hdvd : k ∣ m) (hrange : (FieldItem.mk base k).InRange impl) :
    (FieldItem.mk base m).selected impl ⊆ (FieldItem.mk base k).selected impl ↔
      ¬ ∃ n, base = .value n ∧ k = 1 ∧ 2 ≤ m ∧ n + m ≤ impl.maxValue := by
  cases base with
  | wildcard => exact iff_of_true (stride_subset hm hdvd) (by rintro ⟨n, ⟨⟩, -⟩)
  | range first last => exact iff_of_true (stride_subset hm hdvd) (by rintro ⟨n, ⟨⟩, -⟩)
  | value n =>
    unfold FieldItem.selected
    simp only [ItemBase.value.injEq, exists_eq_left']
    by_cases hone : k = 1
    · rw [if_pos hone]
      by_cases hmone : m = 1
      · rw [if_pos hmone]
        exact iff_of_true subset_rfl (by omega)
      · rw [if_neg hmone]
        constructor
        · rintro hsub ⟨-, -, hmax⟩
          have hnext : n + m ∈ stride n impl.maxValue m :=
            ⟨by omega, hmax, fun _ => by rw [add_sub_cancel_left]⟩
          have := hsub hnext
          rw [Set.mem_singleton_iff] at this
          omega
        · rintro hmax v ⟨hlo, hhi, hstep⟩
          -- the next value of the stride would be beyond the range
          by_contra hne
          rw [Set.mem_singleton_iff] at hne
          have hle : m ≤ v - n := Int.le_of_dvd (by omega) (hstep (by omega))
          exact hmax ⟨hone, by omega, by omega⟩
    · have hmone : m ≠ 1 := by
        rintro rfl
        exact hone (Int.eq_one_of_dvd_one (by omega) hdvd)
      rw [if_neg hone, if_neg hmone]
      exact iff_of_true (stride_subset hm hdvd) fun h => hone h.1

/-- **A multiple of a step selects a part of the values**, unless the item is a single value, the
step is 1 and the multiple reaches another value. -/
theorem step_refines_iff {base kText mText : Text} {b : ItemBase} {k m : ℤ} {g : CrontabField}
    (hbase : ReadsBase comparer (fromKind kind) base b) (hslash : '/' ∉ base)
    (hkText : intParse kText = .ok k) (hmText : intParse mText = .ok m) (hk : 1 ≤ k) (hm : 1 ≤ m)
    (hdvd : k ∣ m) (hkItem : ',' ∉ base ++ '/' :: kText) (hmItem : ',' ∉ base ++ '/' :: mText)
    (hf : parse comparer kind (some (base ++ '/' :: kText)) = .ok f)
    (hg : parse comparer kind (some (base ++ '/' :: mText)) = .ok g) :
    g.values ⊆ f.values ↔
      ¬ ∃ n, b = .value n ∧ k = 1 ∧ 2 ≤ m ∧ n + m ≤ (fromKind kind).maxValue := by
  have hne : base ≠ [] := by
    rintro rfl
    cases readBase_ok_iff.2 hbase
  have hcut : ∀ after, Cut '/' (base ++ '/' :: after) base after :=
    fun _ => ⟨rfl, hne, hslash⟩
  obtain ⟨hfvalues, hrange⟩ := values_of_item hkItem (.step (hcut _) hbase hkText) hf
  obtain ⟨hgvalues, -⟩ := values_of_item hmItem (.step (hcut _) hbase hmText) hg
  rw [hfvalues, hgvalues]
  exact selected_subset_iff hk hm hdvd hrange

/-- Every fourth minute from five on is an every second minute from five on. -/
theorem step_refines_iff_fromFive : ∃ f g,
    parse .ascii .minute (some "5/2".toList) = .ok f ∧
    parse .ascii .minute (some "5/4".toList) = .ok g ∧ g.values ⊆ f.values := by
  obtain ⟨f, hf, -⟩ := exists_of_okAnd
    (show okAnd (parse .ascii .minute (some "5/2".toList)) (fun _ => true) = true by
      decide +kernel)
  obtain ⟨g, hg, -⟩ := exists_of_okAnd
    (show okAnd (parse .ascii .minute (some "5/4".toList)) (fun _ => true) = true by
      decide +kernel)
  have hbase : ReadsBase .ascii (fromKind .minute) "5".toList (.value 5) :=
    readBase_ok_iff.1 (by decide +kernel)
  have htwo : intParse "2".toList = .ok 2 := by decide +kernel
  have hfour : intParse "4".toList = .ok 4 := by decide +kernel
  refine ⟨f, g, hf, hg, (step_refines_iff hbase (by decide) htwo hfour (by decide) (by decide)
    (by decide) (by decide) (by decide) hf hg).2 ?_⟩
  rintro ⟨n, -, ⟨⟩, -⟩

/-- With step 1 the item `5` goes no further, with step 2 it does. -/
theorem step_not_refined_fromFive : ∃ f g,
    parse .ascii .minute (some "5/1".toList) = .ok f ∧
    parse .ascii .minute (some "5/2".toList) = .ok g ∧ (1 : ℤ) ∣ 2 ∧ 7 ∈ g.values ∧
    7 ∉ f.values := by
  obtain ⟨f, hf, hseven⟩ := exists_of_okAnd
    (show okAnd (parse .ascii .minute (some "5/1".toList))
      (fun f => decide (f.contains 7 = .ok false)) = true by decide +kernel)
  obtain ⟨g, hg, hseven'⟩ := exists_of_okAnd
    (show okAnd (parse .ascii .minute (some "5/2".toList))
      (fun f => decide (f.contains 7 = .ok true)) = true by decide +kernel)
  have hseven := of_decide_eq_true hseven
  have hseven' := of_decide_eq_true hseven'
  refine ⟨f, g, hf, hg, one_dvd 2, hseven', fun hmem => ?_⟩
  cases hseven.symm.trans hmem

end CrontabField

end Sentinel
