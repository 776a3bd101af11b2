import Sentinel.Cron.CrontabField

/-!
# What a crontab field expression means

The syntax of an item (a wildcard, a value or a range, and a step), the values it selects, and the
parser and the accumulator measured against both.

* `readItem_ok_iff`, `parseItem_eq` — `InternalParse` reads an item by its syntax and makes one
  accumulate call.
* `apply_outcome` — that call adds the values the item selects, or throws.
-/

set_option autoImplicit false

namespace Sentinel

/-! ## Syntax -/

/-- What an item names before its step. -/
inductive ItemBase where
  | wildcard
  | value (n : ℤ)
  | range (first last : ℤ)
  deriving DecidableEq, Repr

/-- An item of a list; the step is 1 if none is written. -/
structure FieldItem where
  base : ItemBase
  step : ℤ
  deriving DecidableEq, Repr

/-- No value is negative. -/
def ItemBase.Nonneg : ItemBase → Prop
  | .wildcard => True
  | .range first last => 0 ≤ first ∧ 0 ≤ last
  | .value n => 0 ≤ n

section Syntax

variable (comparer : CompareInfo) (impl : CrontabFieldImpl)

def StartsWithDigit (str : Text) : Prop := ∃ c rest, str = c :: rest ∧ '0' ≤ c ∧ c ≤ '9'

/-- A numeral, or a text that some name starts with; the first such name counts. -/
inductive ReadsAtom : Text → ℤ → Prop
  | numeral {str : Text} {n : ℤ} : StartsWithDigit str → intParse str = .ok n → ReadsAtom str n
  | name {str : Text} {names : List String} {i : ℕ} : str ≠ [] → ¬ StartsWithDigit str →
      impl.names = some names →
      names.findIdx? (comparer.isPrefixIgnoreCase · (String.ofList str)) = some i →
      ReadsAtom str (i + impl.minValue)

inductive ReadsBase : Text → ItemBase → Prop
  | wildcard : ReadsBase ['*'] .wildcard
  | range {str first last : Text} {a b : ℤ} : str ≠ ['*'] → Cut '-' str first last →
      ReadsAtom comparer impl first a → ReadsAtom comparer impl last b →
      ReadsBase str (.range a b)
  | value {str : Text} {n : ℤ} : str ≠ ['*'] → (∀ first last, ¬ Cut '-' str first last) →
      ReadsAtom comparer impl str n → ReadsBase str (.value n)

inductive ReadsItem : Text → FieldItem → Prop
  | step {str before after : Text} {base : ItemBase} {every : ℤ} : Cut '/' str before after →
      ReadsBase comparer impl before base → intParse after = .ok every →
      ReadsItem str ⟨base, every⟩
  | plain {str : Text} {base : ItemBase} : (∀ before after, ¬ Cut '/' str before after) →
      ReadsBase comparer impl str base → ReadsItem str ⟨base, 1⟩

end Syntax

/-! ## Meaning -/

/-- From `lo` to `hi`; a step of two or more keeps every `step`-th value, counted from `lo`. -/
def stride (lo hi step : ℤ) : Set ℤ := {v | lo ≤ v ∧ v ≤ hi ∧ (2 ≤ step → step ∣ v - lo)}

namespace FieldItem

variable (impl : CrontabFieldImpl)

/-- The values an item selects; with a step, a single value goes on to the greatest value. -/
def selected (item : FieldItem) : Set ℤ :=
  match item.base with
  | .wildcard => stride impl.minValue impl.maxValue item.step
  | .range first last => stride (min first last) (max first last) item.step
  | .value n => if item.step = 1 then {n} else stride n impl.maxValue item.step

/-- The values an item names are in the kind's range. -/
def InRange (item : FieldItem) : Prop :=
  match item.base with
  | .wildcard => True
  | .range first last =>
    (impl.minValue ≤ first ∧ first ≤ impl.maxValue) ∧ impl.minValue ≤ last ∧ last ≤ impl.maxValue
  | .value n => impl.minValue ≤ n ∧ n ≤ impl.maxValue

/-- The least value an item selects. -/
def lowest (item : FieldItem) : ℤ :=
  match item.base with
  | .wildcard => impl.minValue
  | .range first last => min first last
  | .value n => n

/-- The index after the first one does not fit in 32 bits. -/
def Wraps (item : FieldItem) : Prop :=
  intMaxValue < item.lowest impl - impl.minValue + max item.step 1

/-- The accumulate call of an item. -/
def apply {σ : Type} (acc : ℤ → ℤ → ℤ → σ → Except Exn σ) (item : FieldItem) (st : σ) :
    Except Exn σ :=
  match item.base with
  | .wildcard => acc (-1) (-1) item.step st
  | .range first last => acc first last item.step st
  | .value n => if item.step = 1 then acc n n 1 st else acc n impl.maxValue item.step st

end FieldItem

/-! ## The parser reads an item by its syntax -/

namespace CrontabFieldImpl

variable (comparer : CompareInfo) (impl : CrontabFieldImpl)

/-- The wildcard, range or value, as `parseBase` reads it. -/
def readBase (str : Text) : Except Exn ItemBase :=
  if str = ['*'] then .ok .wildcard
  else
    let dashIndex := indexOf '-' str
    if dashIndex > 0 then
      match parseValue comparer impl (str.take dashIndex.toNat) with
      | .error e => .error e
      | .ok first =>
        match parseValue comparer impl (str.drop (dashIndex.toNat + 1)) with
        | .error e => .error e
        | .ok last => .ok (.range first last)
    else
      match parseValue comparer impl str with
      | .error e => .error e
      | .ok value => .ok (.value value)

/-- The item, as `parseItem` reads it. -/
def readItem (str : Text) : Except Exn FieldItem :=
  match splitStep str with
  | .error e => .error e
  | .ok (every, str) =>
    match readBase comparer impl str with
    | .error e => .error e
    | .ok base => .ok ⟨base, every⟩

variable {comparer impl} {σ : Type} {acc : ℤ → ℤ → ℤ → σ → Except Exn σ}

/-- **One item is read and handed to the accumulator.** -/
theorem parseItem_eq (str : Text) (st : σ) : parseItem comparer impl acc str st =
    match readItem comparer impl str with
    | .error e => .error e
    | .ok item => item.apply impl acc st := by
  unfold parseItem readItem
  cases splitStep str with
  | error e => rfl
  | ok read =>
    obtain ⟨every, str⟩ := read
    simp only [parseBase, readBase]
    by_cases hstar : str = ['*']
    · rw [if_pos hstar, if_pos hstar]
      rfl
    · rw [if_neg hstar, if_neg hstar]
      by_cases hdash : indexOf '-' str > 0
      · rw [if_pos hdash, if_pos hdash]
        cases parseValue comparer impl (str.take (indexOf '-' str).toNat) with
        | error e => rfl
        | ok first =>
          cases parseValue comparer impl (str.drop ((indexOf '-' str).toNat + 1)) with
          | error e => rfl
          | ok last => rfl
      · rw [if_neg hdash, if_neg hdash]
        cases parseValue comparer impl str with
        | error e => rfl
        | ok value => rfl

theorem parseValue_ok_iff {str : Text} {n : ℤ} :
    parseValue comparer impl str = .ok n ↔ ReadsAtom comparer impl str n := by
  constructor
  · intro h
    cases str with
    | nil => cases h
    | cons c rest =>
      simp only [parseValue] at h
      split at h
      · rename_i hc
        exact .numeral ⟨c, rest, rfl, hc⟩ h
      · rename_i hc
        have hdigit : ¬ StartsWithDigit (c :: rest) := by
          rintro ⟨_, _, heq, hd⟩
          cases heq
          exact hc hd
        split at h
        · cases h
        · rename_i names hnames
          split at h
          · rename_i i hi
            cases h
            exact .name (List.cons_ne_nil _ _) hdigit hnames hi
          · cases h
  · rintro (⟨⟨c, rest, rfl, hc⟩, hn⟩ | ⟨hne, hdigit, hnames, hi⟩)
    · simp only [parseValue]
      rw [if_pos hc]
      exact hn
    · obtain ⟨c, rest, rfl⟩ := List.exists_cons_of_ne_nil hne
      simp only [parseValue, hnames, hi]
      rw [if_neg fun hc => hdigit ⟨c, rest, rfl, hc⟩]

theorem readBase_ok_iff {str : Text} {base : ItemBase} :
    readBase comparer impl str = .ok base ↔ ReadsBase comparer impl str base := by
  constructor
  · intro h
    unfold readBase at h
    split at h
    · rename_i hstar
      cases h
      rw [hstar]
      exact .wildcard
    · rename_i hstar
      simp only at h
      split at h
      · rename_i hdash
        split at h
        · cases h
        · rename_i first hfirst
          split at h
          · cases h
          · rename_i last hlast
            cases h
            exact .range hstar (cut_of_indexOf_pos hdash) (parseValue_ok_iff.1 hfirst)
              (parseValue_ok_iff.1 hlast)
      · rename_i hdash
        split at h
        · cases h
        · rename_i n hn
          cases h
          exact .value hstar (fun _ _ hcut => hdash hcut.indexOf_pos) (parseValue_ok_iff.1 hn)
  · intro h
    cases h with
    | wildcard => rfl
    | range hstar hcut ha hb =>
      unfold readBase
      rw [if_neg hstar]
      simp only [hcut.take_eq, hcut.drop_eq, parseValue_ok_iff.2 ha, parseValue_ok_iff.2 hb]
      exact if_pos hcut.indexOf_pos
    | value hstar hnot hn =>
      unfold readBase
      rw [if_neg hstar]
      simp only [parseValue_ok_iff.2 hn]
      refine if_neg fun hpos => ?_
      exact hnot _ _ (cut_of_indexOf_pos hpos)

/-- **The reading of an item is its syntax.** -/
theorem readItem_ok_iff {str : Text} {item : FieldItem} :
    readItem comparer impl str = .ok item ↔ ReadsItem comparer impl str item := by
  constructor
  · intro h
    unfold readItem at h
    split at h
    · cases h
    · rename_i every before hsplit
      split at h
      · cases h
      · rename_i base hbase
        cases h
        unfold splitStep at hsplit
        simp only at hsplit
        split at hsplit
        · rename_i hslash
          split at hsplit
          · cases hsplit
          · rename_i hevery
            cases hsplit
            exact .step (cut_of_indexOf_pos hslash) (readBase_ok_iff.1 hbase) hevery
        · rename_i hslash
          cases hsplit
          exact .plain (fun _ _ hcut => hslash hcut.indexOf_pos) (readBase_ok_iff.1 hbase)
  · intro h
    cases h with
    | step hcut hbase hevery =>
      unfold readItem splitStep
      simp only [hcut.take_eq, hcut.drop_eq, hevery]
      rw [if_pos hcut.indexOf_pos]
      simp only [readBase_ok_iff.2 hbase]
    | plain hnot hbase =>
      unfold readItem splitStep
      simp only
      rw [if_neg fun hpos => hnot _ _ (cut_of_indexOf_pos hpos)]
      simp only [readBase_ok_iff.2 hbase]

/-- Values that are read are not negative. -/
theorem readItem_nonneg {str : Text} {item : FieldItem}
    (h : readItem comparer impl str = .ok item) : item.base.Nonneg := by
  have hbase : ∃ before, ReadsBase comparer impl before item.base := by
    cases readItem_ok_iff.1 h with
    | step _ hbase _ => exact ⟨_, hbase⟩
    | plain _ hbase => exact ⟨_, hbase⟩
  obtain ⟨before, hbase⟩ := hbase
  generalize item.base = base at hbase
  cases hbase with
  | wildcard => trivial
  | range _ _ ha hb =>
    exact ⟨parseValue_nonneg (parseValue_ok_iff.2 ha), parseValue_nonneg (parseValue_ok_iff.2 hb)⟩
  | value _ _ hn => exact parseValue_nonneg (parseValue_ok_iff.2 hn)

end CrontabFieldImpl

/-! ## What an accumulate call does -/

namespace CrontabField

/-- The values reached by `populate` are those of a stride. -/
theorem mem_stride_iff {lo hi step v : ℤ} :
    v ∈ stride lo hi step ↔ ∃ n : ℕ, v = lo + n * max step 1 ∧ v ≤ hi := by
  constructor
  · rintro ⟨hlo, hhi, hstep⟩
    by_cases htwo : 2 ≤ step
    · obtain ⟨q, hq⟩ := hstep htwo
      have hq0 : 0 ≤ q := nonneg_of_mul_nonneg_right (by omega : 0 ≤ step * q) (by omega)
      refine ⟨q.toNat, ?_, hhi⟩
      rw [max_eq_left (by omega), Int.toNat_of_nonneg hq0, mul_comm]
      omega
    · refine ⟨(v - lo).toNat, ?_, hhi⟩
      rw [max_eq_right (by omega)]
      omega
  · rintro ⟨n, rfl, hhi⟩
    have hn : 0 ≤ (n : ℤ) * max step 1 := by positivity
    refine ⟨by omega, hhi, fun htwo => ?_⟩
    rw [max_eq_left (by omega), add_sub_cancel_left]
    exact dvd_mul_left _ _

/-- The sum that does not fit is read as an index at once. -/
theorem setBits_wraps {bits : BitArray} {i lastIndex interval : ℤ} {hpos : 0 < interval}
    (h0 : 0 ≤ i) (hle : i ≤ lastIndex) (hlast : lastIndex < bits.length)
    (hwrap : intMaxValue < i + interval) :
    setBits bits i lastIndex interval hpos = .error .argumentOutOfRangeException := by
  rw [setBits, if_pos hle]
  cases hset : bits.set i true with
  | error e =>
    unfold BitArray.set at hset
    rw [if_pos (by omega)] at hset
    cases hset
  | ok bits' => exact if_pos hwrap

/-- After a first step that fits every later one fits too, as it starts inside the table. -/
theorem setBits_returns {bits : BitArray} {i lastIndex interval : ℤ} {hpos : 0 < interval}
    (h0 : 0 ≤ i) (hlast : lastIndex < bits.length) (hsmall : lastIndex + lastIndex ≤ intMaxValue)
    (hfits : i ≤ lastIndex → i + interval ≤ intMaxValue) :
    ∃ r, setBits bits i lastIndex interval hpos = .ok r := by
  fun_induction setBits bits i lastIndex interval hpos with
  | case1 bits i hle e hset =>
    unfold BitArray.set at hset
    rw [if_pos (by omega)] at hset
    cases hset
  | case2 bits i hle bits₁ hset hwrap => exact absurd (hfits hle) (by omega)
  | case3 bits i hle bits₁ hset hnowrap ih =>
    obtain ⟨-, hlen, -⟩ := BitArray.set_ok hset
    exact ih (by omega) (by omega) (fun _ => by omega)
  | case4 bits i hgt => exact ⟨_, rfl⟩

variable {f : CrontabField} {start stop interval : ℤ}

/-- Bounds inside the kind's range. -/
structure Inside (impl : CrontabFieldImpl) (start stop : ℤ) : Prop where
  low : impl.minValue ≤ start
  le : start ≤ stop
  high : stop ≤ impl.maxValue

theorem populate_wraps (hf : f.InStep) (h : Inside f.impl start stop)
    (hwrap : intMaxValue < start - f.impl.minValue + max interval 1) :
    f.populate start stop interval = .error .argumentOutOfRangeException := by
  have hlen := hf.length
  have hlow := h.low
  have hle := h.le
  have hhigh := h.high
  unfold CrontabFieldImpl.valueCount at hlen
  unfold populate
  simp only
  rw [setBits_wraps (by omega) (by omega) (by omega) hwrap]

theorem populate_adds (hf : f.InStep) (hsmall : f.impl.maxValue ≤ 59)
    (h : Inside f.impl start stop)
    (hfits : ¬ intMaxValue < start - f.impl.minValue + max interval 1) :
    ∃ f', f.populate start stop interval = .ok f' ∧ f'.impl = f.impl ∧ f'.Populated ∧
      f'.values = f.values ∪ stride start stop interval := by
  have hlen := hf.length
  have hlow := h.low
  have hle := h.le
  have hhigh := h.high
  have hmin := f.impl.minValue_nonneg
  unfold CrontabFieldImpl.valueCount at hlen
  have hset : ∃ r, setBits f.bits (start - f.impl.minValue) (stop - f.impl.minValue)
      (max interval 1) (by omega) = .ok r :=
    setBits_returns (by omega) (by omega) (by unfold intMaxValue; omega) fun _ => by omega
  obtain ⟨⟨bits, i⟩, hbits⟩ := hset
  have hok : ∃ f', f.populate start stop interval = .ok f' := by
    unfold populate
    simp only [hbits]
    exact ⟨_, rfl⟩
  obtain ⟨f', hf'⟩ := hok
  obtain ⟨himpl, hpop, hvalues⟩ := populate_spec hf hlow hle hf'
  refine ⟨f', hf', himpl, hpop, ?_⟩
  ext v
  rw [hvalues, Set.mem_union, mem_stride_iff]

/-- With two values the bounds are put in order and checked, the lower one first. -/
theorem accumulate_eq (hstart : 0 ≤ start) (hstop : 0 ≤ stop) :
    f.accumulate start stop interval =
      if min start stop < f.impl.minValue then .error (tooLow f.impl (min start stop))
      else if f.impl.maxValue < max start stop then .error (tooHigh f.impl (max start stop))
      else f.populate (min start stop) (max start stop) interval := by
  unfold accumulate
  by_cases heq : start = stop
  · subst heq
    simp only [min_self, max_self, if_true]
    rw [if_neg (by omega)]
  · have hlo : 0 ≤ min start stop := le_min hstart hstop
    have hhi : 0 ≤ max start stop := hstart.trans (le_max_left _ _)
    simp only
    rw [if_neg heq]
    by_cases hlow : min start stop < f.impl.minValue
    · rw [if_pos hlow, if_pos ⟨hlo, hlow⟩]
    · rw [if_neg hlow, if_neg fun h => hlow h.2]
      by_cases hhigh : f.impl.maxValue < max start stop
      · rw [if_pos hhigh, if_pos ⟨hhi, hhigh⟩]
      · rw [if_neg hhigh, if_neg fun h => hhigh h.2, if_neg (by omega), if_neg (by omega)]

/-- The whole range, every value or every `interval`-th one. -/
theorem accumulate_wildcard (interval : ℤ) (hf : f.InStep) (hsmall : f.impl.maxValue ≤ 59) :
    (intMaxValue < max interval 1 ∧
      f.accumulate (-1) (-1) interval = .error .argumentOutOfRangeException) ∨
    (¬ intMaxValue < max interval 1 ∧
      ∃ f', f.accumulate (-1) (-1) interval = .ok f' ∧ f'.impl = f.impl ∧ f'.Populated ∧
        f'.values = f.values ∪ stride f.impl.minValue f.impl.maxValue interval) := by
  have hinside : Inside f.impl f.impl.minValue f.impl.maxValue :=
    ⟨le_rfl, f.impl.minValue_le_maxValue, le_rfl⟩
  by_cases hone : interval ≤ 1
  · right
    obtain ⟨f', hf', himpl, hpop, hvalues⟩ := accumulate_all hf
    have hset : f.accumulate (-1) (-1) interval = f.accumulate (-1) (-1) 1 := by
      unfold accumulate
      rw [if_pos rfl, if_pos (by decide), if_pos hone, if_pos rfl, if_pos (by decide),
        if_pos le_rfl]
    refine ⟨by unfold intMaxValue; omega, f', hset.trans hf', himpl, hpop, ?_⟩
    ext v
    rw [hvalues, Set.mem_union]
    constructor
    · rintro ⟨hlo, hhi⟩
      exact Or.inr ⟨hlo, hhi, fun htwo => by omega⟩
    · rintro (hv | ⟨hlo, hhi, -⟩)
      · exact range_of_mem hf.length hv
      · exact ⟨hlo, hhi⟩
  · have hpopulate : f.accumulate (-1) (-1) interval =
        f.populate f.impl.minValue f.impl.maxValue interval := by
      unfold accumulate
      rw [if_pos rfl, if_pos (by decide), if_neg hone]
    rw [hpopulate]
    have hzero : f.impl.minValue - f.impl.minValue + max interval 1 = max interval 1 := by omega
    by_cases hwrap : intMaxValue < max interval 1
    · exact Or.inl ⟨hwrap, populate_wraps hf hinside (by rwa [hzero])⟩
    · exact Or.inr ⟨hwrap, populate_adds hf hsmall hinside (by rwa [hzero])⟩

/-- Two values in order, inside the range or not. -/
theorem accumulate_values (interval : ℤ) (hf : f.InStep) (hsmall : f.impl.maxValue ≤ 59)
    (hstart : 0 ≤ start) (hstop : 0 ≤ stop) :
    (Inside f.impl (min start stop) (max start stop) ∧
      ((intMaxValue < min start stop - f.impl.minValue + max interval 1 ∧
        f.accumulate start stop interval = .error .argumentOutOfRangeException) ∨
      (¬ intMaxValue < min start stop - f.impl.minValue + max interval 1 ∧
        ∃ f', f.accumulate start stop interval = .ok f' ∧ f'.impl = f.impl ∧ f'.Populated ∧
          f'.values = f.values ∪ stride (min start stop) (max start stop) interval))) ∨
    (¬ Inside f.impl (min start stop) (max start stop) ∧
      ∃ message, f.accumulate start stop interval = .error (.formatException message none)) := by
  rw [accumulate_eq hstart hstop]
  by_cases hlow : min start stop < f.impl.minValue
  · rw [if_pos hlow]
    exact Or.inr ⟨fun h => absurd h.low (not_le.2 hlow), _, rfl⟩
  · rw [if_neg hlow]
    by_cases hhigh : f.impl.maxValue < max start stop
    · rw [if_pos hhigh]
      exact Or.inr ⟨fun h => absurd h.high (not_le.2 hhigh), _, rfl⟩
    · rw [if_neg hhigh]
      have hinside : Inside f.impl (min start stop) (max start stop) :=
        ⟨not_lt.1 hlow, min_le_max, not_lt.1 hhigh⟩
      refine Or.inl ⟨hinside, ?_⟩
      by_cases hwrap : intMaxValue < min start stop - f.impl.minValue + max interval 1
      · exact Or.inl ⟨hwrap, populate_wraps hf hinside hwrap⟩
      · exact Or.inr ⟨hwrap, populate_adds hf hsmall hinside hwrap⟩

/-- The accumulator that the constructor passes to the parser. -/
abbrev accumulator (start stop interval : ℤ) (f : CrontabField) : Except Exn CrontabField :=
  f.accumulate start stop interval

theorem stride_singleton (n : ℤ) : stride n n 1 = {n} := by
  ext v
  constructor
  · rintro ⟨hlo, hhi, -⟩
    exact le_antisymm hhi hlo
  · rintro rfl
    exact ⟨le_rfl, le_rfl, fun htwo => absurd htwo (by decide)⟩

/-- **What the accumulate call of an item does**: it adds the values the item selects, or the index
runs over, or a value outside the kind's range is refused. -/
theorem apply_outcome {impl : CrontabFieldImpl} (hsmall : impl.maxValue ≤ 59) (hf : f.InStep)
    (himpl : f.impl = impl) {item : FieldItem}
    (hnonneg : item.base.Nonneg) :
    (item.InRange impl ∧
      ((item.Wraps impl ∧
        item.apply impl accumulator f = .error .argumentOutOfRangeException) ∨
      (¬ item.Wraps impl ∧
        ∃ f', item.apply impl accumulator f = .ok f' ∧ f'.impl = impl ∧ f'.Populated ∧
          f'.values = f.values ∪ item.selected impl))) ∨
    (¬ item.InRange impl ∧
      ∃ message, item.apply impl accumulator f = .error (.formatException message none)) := by
  subst himpl
  have hmin := f.impl.minValue_nonneg
  have hle := f.impl.minValue_le_maxValue
  obtain ⟨base, step⟩ := item
  cases base with
  | wildcard =>
    have hzero : f.impl.minValue - f.impl.minValue + max step 1 = max step 1 := by omega
    have h := accumulate_wildcard step hf hsmall
    rw [← hzero] at h
    exact Or.inl ⟨trivial, h⟩
  | range first last =>
    have hrange : (FieldItem.mk (.range first last) step).InRange f.impl ↔
        Inside f.impl (min first last) (max first last) := by
      constructor
      · rintro ⟨⟨hfirst, hfirst'⟩, hlast, hlast'⟩
        exact ⟨le_min hfirst hlast, min_le_max, max_le hfirst' hlast'⟩
      · rintro ⟨hlow, -, hhigh⟩
        exact ⟨⟨hlow.trans (min_le_left _ _), (le_max_left _ _).trans hhigh⟩,
          hlow.trans (min_le_right _ _), (le_max_right _ _).trans hhigh⟩
    rw [hrange]
    exact accumulate_values step hf hsmall hnonneg.1 hnonneg.2
  | value n =>
    by_cases hone : step = 1
    · subst hone
      have hrange : (FieldItem.mk (.value n) 1).InRange f.impl ↔ Inside f.impl n n :=
        ⟨fun h => ⟨h.1, le_rfl, h.2⟩, fun h => ⟨h.low, h.high⟩⟩
      have h := accumulate_values 1 hf hsmall hnonneg hnonneg
      simp only [min_self, max_self, stride_singleton] at h
      rw [hrange]
      exact h
    · have happly : (FieldItem.mk (.value n) step).apply f.impl accumulator f =
          f.accumulate n f.impl.maxValue step := if_neg hone
      have hselected : (FieldItem.mk (.value n) step).selected f.impl =
          stride n f.impl.maxValue step := if_neg hone
      rw [happly, hselected]
      have h := accumulate_values step hf hsmall hnonneg (hmin.trans hle)
      by_cases hhigh : n ≤ f.impl.maxValue
      · have hrange : (FieldItem.mk (.value n) step).InRange f.impl ↔
            Inside f.impl n f.impl.maxValue :=
          ⟨fun h => ⟨h.1, h.2, le_rfl⟩, fun h => ⟨h.low, h.le⟩⟩
        rw [min_eq_left hhigh, max_eq_right hhigh] at h
        rw [hrange]
        exact h
      · have hout : ¬ Inside f.impl (min n f.impl.maxValue) (max n f.impl.maxValue) :=
          fun hin => hhigh ((le_max_left _ _).trans hin.high)
        rcases h with ⟨hin, -⟩ | ⟨-, h⟩
        · exact absurd hin hout
        · exact Or.inr ⟨fun hin => hhigh hin.2, h⟩

end CrontabField

end Sentinel
