import Sentinel.Cron.CrontabSchedule

/-!
# Printing crontab text, and reading it back

`CrontabFieldImpl.format` splits the values of a field into maximal runs; the parser reads every
run back as one accumulate call.

* `lastOfRun_spec` — the inner loop stops at the end of a maximal run of values.
* `formatFrom_spec` — the outer loop writes texts that the parser reads as ranges, which together
  cover the values of the field.
* `CrontabField.create_format` — a field is read back from its text as it was.
* `CrontabSchedule.toString_roundtrip` — the same for the text of a schedule.
-/

set_option autoImplicit false

namespace Sentinel

open Successor

/-! ## Formatting -/

namespace CrontabField

/-- No value that `Next` returns lies above this. -/
def bound (f : CrontabField) : ℤ := max 0 (max f.minValueSet f.maxValueSet)

theorem nextFrom_bounds {f : CrontabField} {i lastIndex v : ℤ}
    (h : f.nextFrom i lastIndex = .ok v) :
    v = -1 ∨ (f.indexToValue i ≤ v ∧ v ≤ f.indexToValue lastIndex) := by
  fun_induction nextFrom f i lastIndex with
  | case1 => cases h
  | case2 i hle hget =>
    cases h
    unfold indexToValue
    omega
  | case3 i hle hget ih =>
    have hbounds := ih h
    unfold indexToValue at *
    omega
  | case4 i hgt =>
    cases h
    exact Or.inl rfl

theorem next_bounds {f : CrontabField} {start v : ℤ} (h : f.next start = .ok v) :
    v = -1 ∨ (start ≤ v ∧ v ≤ f.bound) := by
  unfold next at h
  unfold bound
  split at h
  · cases h
    omega
  · have hbounds := nextFrom_bounds h
    unfold indexToValue valueToIndex at hbounds
    omega

/-- The inner loop of `Format`: the last value of the run, and the value after the run. -/
def lastOfRun (f : CrontabField) (last : ℤ) : Except Exn (ℤ × ℤ) :=
  match _h : f.next (last + 1) with
  | .error e => .error e
  | .ok next => if _hrun : next - last = 1 then lastOfRun f next else .ok (last, next)
termination_by (f.bound - last).toNat
decreasing_by
  have hbounds := next_bounds _h
  have hbound : 0 ≤ f.bound := le_max_left _ _
  omega

theorem lastOfRun_bounds {f : CrontabField} {v last next : ℤ}
    (h : f.lastOfRun v = .ok (last, next)) :
    v ≤ last ∧ (next = -1 ∨ (last < next ∧ next ≤ f.bound)) := by
  fun_induction lastOfRun f v with
  | case1 => cases h
  | case2 v next' hnext hrun ih =>
    have hbounds := ih h
    omega
  | case3 v next' hnext hrun =>
    cases h
    have hbounds := next_bounds hnext
    omega

end CrontabField

namespace CrontabFieldImpl

/-- `(char)('0' + digit)`. -/
def digitChar (digit : ℤ) : Char := Char.ofNat ('0'.toNat + digit.toNat)

def fastFormatNumericValue (value : ℤ) : Text :=
  if 10 ≤ value then [digitChar (value / 10), digitChar (value % 10)] else [digitChar value]

/-- `formatValue` without names. -/
def formatNumericValue (value : ℤ) : Text :=
  if 0 ≤ value ∧ value < 100 then fastFormatNumericValue value else (toString value).toList

def formatValue (impl : CrontabFieldImpl) (value : ℤ) (noNames : Bool) : Except Exn Text :=
  match impl.names with
  | none => .ok (formatNumericValue value)
  | some names =>
    if noNames then .ok (formatNumericValue value)
    else
      let index := value - impl.minValue
      if 0 ≤ index ∧ index < names.length then .ok (names.getD index.toNat "").toList
      else .error .indexOutOfRangeException

/-- A single value or a range. -/
def formatRange (impl : CrontabFieldImpl) (first last : ℤ) (noNames : Bool) : Except Exn Text :=
  if first = last then impl.formatValue first noNames
  else do
    let firstText ← impl.formatValue first noNames
    let lastText ← impl.formatValue last noNames
    pure (firstText ++ '-' :: lastText)

/-- The outer loop of `Format`, from the first value `next` of a run on, with `count` runs
written. -/
def formatFrom (impl : CrontabFieldImpl) (field : CrontabField) (noNames : Bool) (next : ℤ)
    (count : ℕ) (written : Text) : Except Exn Text :=
  if _hnext : next = -1 then .ok written
  else
    match _h : field.lastOfRun next with
    | .error e => .error e
    | .ok (last, following) =>
      if count = 0 ∧ next = impl.minValue ∧ last = impl.maxValue then .ok (written ++ ['*'])
      else
        match impl.formatRange next last noNames with
        | .error e => .error e
        | .ok range =>
          formatFrom impl field noNames following (count + 1)
            (written ++ (if count > 0 then [','] else []) ++ range)
termination_by if next = -1 then 0 else (field.bound + 1 - next).toNat + 1
decreasing_by
  have hbounds := CrontabField.lastOfRun_bounds _h
  split_ifs <;> omega

/-- `Format`: the text written. -/
def format (impl : CrontabFieldImpl) (field : CrontabField) (noNames : Bool) : Except Exn Text :=
  impl.formatFrom field noNames field.getFirst 0 []

end CrontabFieldImpl

/-- `new FormatException()`. -/
def formatExceptionDefault : Exn :=
  .formatException "One of the identified items was in an invalid format." none

/-- `ToString(format)`: numbers for `G` and null, names for `N`. -/
def CrontabField.toString (f : CrontabField) (format : Option String) : Except Exn Text :=
  if format = some "G" ∨ format = none then f.impl.format f true
  else if format = some "N" then f.impl.format f false
  else .error formatExceptionDefault

def CrontabSchedule.toString (s : CrontabSchedule) : Except Exn String := do
  let minutes ← s.minutes.impl.format s.minutes.toCrontabField true
  let hours ← s.hours.impl.format s.hours.toCrontabField true
  let days ← s.days.impl.format s.days.toCrontabField true
  let months ← s.months.impl.format s.months.toCrontabField true
  let daysOfWeek ← s.daysOfWeek.impl.format s.daysOfWeek.toCrontabField true
  pure (String.ofList (minutes ++ ' ' :: (hours ++ ' ' :: (days ++ ' ' :: (months ++ ' ' ::
    daysOfWeek)))))

/-! ## Runs of values -/

/-- The ranges `rs` together are the set `S`. -/
def Covers (S : Set ℤ) (rs : List (ℤ × ℤ)) : Prop := ∀ v, v ∈ S ↔ ∃ r ∈ rs, r.1 ≤ v ∧ v ≤ r.2

namespace CrontabField

variable {f : CrontabField}

/-- A value the search from `lo` on has found. -/
theorem mem_of_fromOn {lo v : ℤ} (h : FromOn f.values lo (ofNil v)) (hv : v ≠ -1) :
    IsLeast {x | x ∈ f.values ∧ lo ≤ x} v := by
  rw [ofNil, if_neg hv] at h
  exact h

/-- **The inner loop** stops at the end of the run of values that `v` lies in. -/
theorem lastOfRun_spec (hf : f.Populated) {v : ℤ} (hv : v ∈ f.values) :
    ∃ last following, f.lastOfRun v = .ok (last, following) ∧ v ≤ last ∧
      (∀ x, v ≤ x → x ≤ last → x ∈ f.values) ∧
      FromOn f.values (last + 1) (ofNil following) := by
  have hrange := range_of_mem hf.length hv
  have hmin := f.impl.minValue_nonneg
  fun_induction lastOfRun f v with
  | case1 v e he =>
    obtain ⟨w, hw, -⟩ := next_spec hf (v + 1)
    rw [hw] at he
    cases he
  | case2 v next hnext hrun ih =>
    obtain ⟨w, hw, hfrom⟩ := next_spec hf (v + 1)
    rw [hnext] at hw
    cases hw
    have hmem := (mem_of_fromOn hfrom (by omega)).1.1
    obtain ⟨last, following, hlast, hle, hall, hafter⟩ :=
      ih hmem (range_of_mem hf.length hmem)
    refine ⟨last, following, hlast, by omega, fun x hlo hhi => ?_, hafter⟩
    rcases hlo.lt_or_eq with hlt | rfl
    · exact hall x (by omega) hhi
    · exact hv
  | case3 v next hnext hrun =>
    obtain ⟨w, hw, hfrom⟩ := next_spec hf (v + 1)
    rw [hnext] at hw
    cases hw
    refine ⟨v, next, rfl, le_rfl, fun x hlo hhi => ?_, hfrom⟩
    rwa [le_antisymm hhi hlo]

end CrontabField

/-! ## Texts the parser reads as one range -/

namespace CrontabFieldImpl

variable {comparer : CompareInfo} {impl : CrontabFieldImpl} {noNames : Bool}

/-- A text without special characters that `ParseValue` reads as `v`. -/
structure ReadsValue (comparer : CompareInfo) (impl : CrontabFieldImpl) (v : ℤ) (str : Text) :
    Prop where
  ne_nil : str ≠ []
  plain : ∀ c ∈ str, c ∉ [' ', ',', '-', '/', '*']
  value : parseValue comparer impl str = .ok v

/-- A text without blanks and commas that the parser reads as one range. -/
structure ReadsRange (comparer : CompareInfo) (impl : CrontabFieldImpl) (r : ℤ × ℤ) (str : Text) :
    Prop where
  ne_nil : str ≠ []
  noBlank : ' ' ∉ str
  noComma : ',' ∉ str
  item : ∀ (acc : ℤ → ℤ → ℤ → CrontabField → Except Exn CrontabField) (f : CrontabField),
    parseItem comparer impl acc str f = acc r.1 r.2 1 f

/-- Every value of the kind is written as a text that reads as this value. -/
def Legible (comparer : CompareInfo) (impl : CrontabFieldImpl) (noNames : Bool) : Prop :=
  ∀ v, impl.minValue ≤ v → v ≤ impl.maxValue →
    ∃ str, impl.formatValue v noNames = .ok str ∧ ReadsValue comparer impl v str

theorem ReadsValue.not_mem {v : ℤ} {str : Text} (h : ReadsValue comparer impl v str) {c : Char}
    (hc : c ∈ [' ', ',', '-', '/', '*']) : c ∉ str :=
  fun hmem => h.plain c hmem hc

theorem ReadsValue.ne_star {v : ℤ} {str : Text} (h : ReadsValue comparer impl v str) :
    str ≠ ['*'] := by
  rintro rfl
  exact h.not_mem (c := '*') (by decide) (by simp)

theorem ReadsValue.range {v : ℤ} {str : Text} (h : ReadsValue comparer impl v str) :
    ReadsRange comparer impl (v, v) str := by
  refine ⟨h.ne_nil, h.not_mem (by decide), h.not_mem (by decide), fun acc f => ?_⟩
  have hslash : indexOf '/' str = -1 := indexOf_of_not_mem (h.not_mem (by decide))
  have hdash : indexOf '-' str = -1 := indexOf_of_not_mem (h.not_mem (by decide))
  simp [parseItem, splitStep, parseBase, hslash, hdash, h.ne_star, h.value]

/-- Two values with a dash between them are read as the range from one to the other. -/
theorem ReadsValue.dash {first last : ℤ} {str str' : Text}
    (h : ReadsValue comparer impl first str) (h' : ReadsValue comparer impl last str') :
    ReadsRange comparer impl (first, last) (str ++ '-' :: str') := by
  have hmem : ∀ c ∈ [' ', ',', '/'], c ∉ str ++ '-' :: str' := by
    intro c hc
    have hc' : c ∈ [' ', ',', '-', '/', '*'] := by
      simp only [List.mem_cons, List.not_mem_nil, or_false] at hc ⊢
      tauto
    have hne : c ≠ '-' := by
      rintro rfl
      exact absurd hc (by decide)
    simp [h.not_mem hc', h'.not_mem hc', hne]
  refine ⟨by simp, hmem _ (by decide), hmem _ (by decide), fun acc f => ?_⟩
  have hslash : indexOf '/' (str ++ '-' :: str') = -1 :=
    indexOf_of_not_mem (hmem _ (by decide))
  have hdash : indexOf '-' (str ++ '-' :: str') = str.length :=
    indexOf_append (h.not_mem (by decide))
  have hstar : str ++ '-' :: str' ≠ ['*'] := by
    intro heq
    have hin : '-' ∈ ['*'] := by
      rw [← heq]
      simp
    exact absurd hin (by decide)
  have hlen : 0 < str.length := List.length_pos_of_ne_nil h.ne_nil
  simp [parseItem, splitStep, parseBase, hslash, hdash, hstar, hlen, h.value, h'.value]

theorem formatRange_reads (hlegible : impl.Legible comparer noNames) {first last : ℤ}
    (hlo : impl.minValue ≤ first) (hle : first ≤ last) (hhi : last ≤ impl.maxValue) :
    ∃ str, impl.formatRange first last noNames = .ok str ∧
      ReadsRange comparer impl (first, last) str := by
  obtain ⟨str, hstr, hreads⟩ := hlegible first hlo (hle.trans hhi)
  unfold formatRange
  by_cases heq : first = last
  · rw [if_pos heq, ← heq]
    exact ⟨str, hstr, hreads.range⟩
  · rw [if_neg heq]
    obtain ⟨str', hstr', hreads'⟩ := hlegible last (hlo.trans hle) hhi
    exact ⟨str ++ '-' :: str', by simp [hstr, hstr', bind, Except.bind, pure, Except.pure],
      hreads.dash hreads'⟩

/-! ## Every value is legible -/

theorem digitChar_spec : ∀ n : ℕ, n < 10 →
    (digitChar n).isDigit = true ∧ (digitChar n).toNat = 48 + n := by
  decide

theorem not_special_of_isDigit {c : Char} (h : c.isDigit = true) :
    c ∉ [' ', ',', '-', '/', '*'] := by
  intro hmem
  simp only [List.mem_cons, List.not_mem_nil, or_false] at hmem
  rcases hmem with rfl | rfl | rfl | rfl | rfl <;> exact absurd h (by decide)

/-- A value below 100 is written as its one or two digits. -/
theorem fastFormat_spec {v : ℤ} (h0 : 0 ≤ v) (h100 : v < 100) :
    ∃ c rest, fastFormatNumericValue v = c :: rest ∧ (∀ d ∈ c :: rest, d.isDigit = true) ∧
      digitsValue (c :: rest) = v := by
  have hdigit : ∀ d : ℤ, 0 ≤ d → d < 10 →
      (digitChar d).isDigit = true ∧ ((digitChar d).toNat : ℤ) = 48 + d := by
    intro d hd hd'
    obtain ⟨h, hnat⟩ := digitChar_spec d.toNat (by omega)
    rw [Int.toNat_of_nonneg hd] at h hnat
    exact ⟨h, by omega⟩
  have hzero : ('0'.toNat : ℤ) = 48 := rfl
  unfold fastFormatNumericValue
  split
  · obtain ⟨hd1, hv1⟩ := hdigit (v / 10) (by omega) (by omega)
    obtain ⟨hd2, hv2⟩ := hdigit (v % 10) (by omega) (by omega)
    refine ⟨_, _, rfl, by simp [hd1, hd2], ?_⟩
    simp only [digitsValue, List.foldl_cons, List.foldl_nil, hv1, hv2, hzero]
    omega
  · obtain ⟨hd, hv⟩ := hdigit v h0 (by omega)
    refine ⟨_, _, rfl, by simp [hd], ?_⟩
    simp only [digitsValue, List.foldl_cons, List.foldl_nil, hv, hzero]
    omega

theorem readsValue_numeric {v : ℤ} (h0 : 0 ≤ v) (h100 : v < 100) :
    ReadsValue comparer impl v (formatNumericValue v) := by
  obtain ⟨c, rest, htext, hdigits, hvalue⟩ := fastFormat_spec h0 h100
  unfold formatNumericValue
  rw [if_pos ⟨h0, h100⟩, htext]
  refine ⟨by simp, fun d hd => not_special_of_isDigit (hdigits d hd), ?_⟩
  have hfirst : '0' ≤ c ∧ c ≤ '9' := by
    have hc := hdigits c List.mem_cons_self
    simp only [Char.isDigit, Bool.and_eq_true, decide_eq_true_eq] at hc
    exact hc
  unfold parseValue
  simp only
  rw [if_pos hfirst, intParse_digits hdigits (by rw [hvalue]; unfold intMaxValue; omega), hvalue]

/-- Numbers below 100 are legible. -/
theorem legible_numeric (h100 : impl.maxValue < 100) (h : noNames = true ∨ impl.names = none) :
    impl.Legible comparer noNames := by
  intro v hlo hhi
  have hmin := impl.minValue_nonneg
  refine ⟨formatNumericValue v, ?_, readsValue_numeric (by omega) (by omega)⟩
  unfold formatValue
  rcases h with rfl | hnone
  · cases impl.names with
    | none => rfl
    | some names => rfl
  · rw [hnone]

/-- Names of letters are legible if none of them is a prefix of an earlier one. -/
theorem legible_names (hcomparer : comparer.PlainOnLetters) {names : List String}
    (hnames : impl.names = some names)
    (hletters : ∀ name ∈ names, name ≠ "" ∧ name.toList.all Char.isAlpha = true)
    (hfirst : ∀ i < names.length, names.findIdx?
      (CompareInfo.ascii.isPrefixIgnoreCase · (names.getD i "")) = some i) :
    impl.Legible comparer false := by
  intro v hlo hhi
  have hlen := impl.names_length names hnames
  have hindex : (v - impl.minValue).toNat < names.length := by omega
  set i := (v - impl.minValue).toNat with hi
  have hname : names.getD i "" ∈ names := by
    rw [List.getD_eq_getElem?_getD, List.getElem?_eq_getElem hindex]
    exact List.getElem_mem hindex
  have hall : ∀ name ∈ names, ∀ c ∈ name.toList, c.isAlpha = true :=
    fun name hmem => List.all_eq_true.1 (hletters name hmem).2
  have hne := (hletters _ hname).1
  have halpha := hall _ hname
  refine ⟨(names.getD i "").toList, ?_, ?_, ?_, ?_⟩
  · unfold formatValue
    rw [hnames]
    simp only [Bool.false_eq_true, if_false]
    rw [if_pos (by omega)]
  · intro hnil
    exact hne (String.toList_eq_nil_iff.1 hnil)
  · intro c hc hmem
    have hc := halpha c hc
    simp only [List.mem_cons, List.not_mem_nil, or_false] at hmem
    rcases hmem with rfl | rfl | rfl | rfl | rfl <;> exact absurd hc (by decide)
  · have hsame : names.findIdx? (comparer.isPrefixIgnoreCase · (names.getD i "")) = some i := by
      rw [← hfirst i hindex]
      exact findIdx?_congr fun name hmem => hcomparer name _ (hall name hmem) halpha
    cases htext : (names.getD i "").toList with
    | nil => exact absurd (String.toList_eq_nil_iff.1 htext) hne
    | cons c rest =>
      have hc : c.isAlpha = true := halpha c (by rw [htext]; exact List.mem_cons_self)
      have hdigit : ¬ ('0' ≤ c ∧ c ≤ '9') := by
        rintro ⟨hlo, hhi⟩
        have hlo : 48 ≤ c.toNat := hlo
        have hhi : c.toNat ≤ 57 := hhi
        simp only [Char.isAlpha, Char.isUpper, Char.isLower, Bool.or_eq_true, Bool.and_eq_true,
          decide_eq_true_eq] at hc
        have hc : (65 ≤ c.toNat ∧ c.toNat ≤ 90) ∨ (97 ≤ c.toNat ∧ c.toNat ≤ 122) := hc
        omega
      unfold parseValue
      simp only
      rw [if_neg hdigit, hnames, ← htext, String.ofList_toList]
      simp only [hsame, Except.ok.injEq]
      omega

theorem fromKind_maxValue_lt (kind : CrontabFieldKind) : (fromKind kind).maxValue < 100 := by
  cases kind <;> decide

/-- **Every field kind is legible**, in numbers and in names. -/
theorem legible_fromKind (hcomparer : noNames = true ∨ comparer.PlainOnLetters)
    (kind : CrontabFieldKind) : (fromKind kind).Legible comparer noNames := by
  rcases hcomparer with rfl | hcomparer
  · exact legible_numeric (fromKind_maxValue_lt kind) (Or.inl rfl)
  · cases noNames with
    | true => exact legible_numeric (fromKind_maxValue_lt kind) (Or.inl rfl)
    | false =>
      cases kind with
      | minute => exact legible_numeric (by decide) (Or.inr rfl)
      | hour => exact legible_numeric (by decide) (Or.inr rfl)
      | day => exact legible_numeric (by decide) (Or.inr rfl)
      | month => exact legible_names hcomparer rfl (by decide +kernel) (by decide +kernel)
      | dayOfWeek => exact legible_names hcomparer rfl (by decide +kernel) (by decide +kernel)

/-! ## What is written -/

/-- A range inside the range of the kind. -/
def Within (impl : CrontabFieldImpl) (r : ℤ × ℤ) : Prop :=
  impl.minValue ≤ r.1 ∧ r.1 ≤ r.2 ∧ r.2 ≤ impl.maxValue

variable {f : CrontabField}

/-- The run that starts at the first value from `lo` on, and what is left behind it. -/
theorem run_spec (hf : f.Populated) {lo next : ℤ} (hne : next ≠ -1)
    (hfrom : FromOn f.values lo (CrontabField.ofNil next)) :
    ∃ last following, f.lastOfRun next = .ok (last, following) ∧ f.impl.Within (next, last) ∧
      (∀ v, (v ∈ f.values ∧ lo ≤ v) ↔
        (next ≤ v ∧ v ≤ last) ∨ (v ∈ f.values ∧ last + 1 ≤ v)) ∧
      FromOn f.values (last + 1) (CrontabField.ofNil following) := by
  obtain ⟨⟨hmem, hlo⟩, hleast⟩ := CrontabField.mem_of_fromOn hfrom hne
  obtain ⟨last, following, hlast, hle, hall, hafter⟩ := CrontabField.lastOfRun_spec hf hmem
  have hfirst := CrontabField.range_of_mem hf.length hmem
  have hend := CrontabField.range_of_mem hf.length (hall last hle le_rfl)
  refine ⟨last, following, hlast, ⟨hfirst.1, hle, hend.2⟩, fun v => ⟨?_, ?_⟩, hafter⟩
  · rintro ⟨hv, hge⟩
    have hnext : next ≤ v := hleast ⟨hv, hge⟩
    by_cases hin : v ≤ last
    · exact Or.inl ⟨hnext, hin⟩
    · exact Or.inr ⟨hv, by omega⟩
  · rintro (⟨hge, hin⟩ | ⟨hv, hge⟩)
    · exact ⟨hall v hge hin, hlo.trans hge⟩
    · exact ⟨hv, by omega⟩

/-- The outer loop, once its inner loop has found the end of a run. -/
theorem formatFrom_run {next last following : ℤ} (hne : next ≠ -1)
    (hlast : f.lastOfRun next = .ok (last, following)) (count : ℕ) (written : Text) :
    impl.formatFrom f noNames next count written =
      if count = 0 ∧ next = impl.minValue ∧ last = impl.maxValue then .ok (written ++ ['*'])
      else
        match impl.formatRange next last noNames with
        | .error e => .error e
        | .ok range => impl.formatFrom f noNames following (count + 1)
            (written ++ (if count > 0 then [','] else []) ++ range) := by
  rw [formatFrom, dif_neg hne]
  split
  · rename_i e he
    rw [hlast] at he
    cases he
  · rename_i last' following' he
    rw [hlast] at he
    cases he
    rfl

/-- **The outer loop**, once something is written, appends a comma and a range for every run. -/
theorem formatFrom_spec (hf : f.Populated) (hlegible : f.impl.Legible comparer noNames)
    {lo next : ℤ} {count : ℕ} (written : Text) (hcount : 0 < count)
    (hfrom : FromOn f.values lo (CrontabField.ofNil next)) :
    ∃ rs strs, List.Forall₂ (ReadsRange comparer f.impl) rs strs ∧
      Covers {v | v ∈ f.values ∧ lo ≤ v} rs ∧ (∀ r ∈ rs, f.impl.Within r) ∧
      f.impl.formatFrom f noNames next count written =
        .ok (written ++ strs.flatMap (',' :: ·)) := by
  fun_induction formatFrom f.impl f noNames next count written generalizing lo with
  | case1 count written =>
    refine ⟨[], [], .nil, fun v => ?_, by simp, by simp⟩
    have hnone : v ∈ f.values → v < lo := hfrom v
    show (v ∈ f.values ∧ lo ≤ v) ↔ _
    simp only [List.not_mem_nil, false_and, exists_false, iff_false]
    rintro ⟨hv, hge⟩
    exact absurd (hnone hv) (not_lt.2 hge)
  | case2 next count written hne e he =>
    obtain ⟨last, following, hlast, -⟩ := run_spec hf hne hfrom
    rw [hlast] at he
    cases he
  | case3 next count written hne last following he hstar => omega
  | case4 next count written hne last following he hstar e hrange =>
    obtain ⟨last', following', hlast, hwithin, -⟩ := run_spec hf hne hfrom
    rw [he] at hlast
    cases hlast
    obtain ⟨str, hstr, -⟩ := formatRange_reads hlegible hwithin.1 hwithin.2.1 hwithin.2.2
    rw [hrange] at hstr
    cases hstr
  | case5 next count written hne last following he hstar range hrange ih =>
    obtain ⟨last', following', hlast, hwithin, hsplit, hafter⟩ := run_spec hf hne hfrom
    rw [he] at hlast
    cases hlast
    obtain ⟨str, hstr, hreads⟩ := formatRange_reads hlegible hwithin.1 hwithin.2.1 hwithin.2.2
    rw [hrange] at hstr
    cases hstr
    obtain ⟨rs, strs, hrs, hcovers, hall, htext⟩ := ih (by omega) hafter
    refine ⟨(next, last) :: rs, range :: strs, .cons hreads hrs, fun v => ?_, ?_, ?_⟩
    · have hrest : (v ∈ f.values ∧ last + 1 ≤ v) ↔ ∃ r ∈ rs, r.1 ≤ v ∧ v ≤ r.2 := hcovers v
      show (v ∈ f.values ∧ lo ≤ v) ↔ _
      rw [hsplit, hrest]
      simp
    · exact List.forall_mem_cons.2 ⟨hwithin, hall⟩
    · simpa [hcount] using htext

/-- The text of a populated field: a star for the whole range, else its runs with commas. -/
theorem format_spec (hf : f.Populated) (hlegible : f.impl.Legible comparer noNames) :
    (f.impl.format f noNames = .ok ['*'] ∧
      ∀ v, v ∈ f.values ↔ f.impl.minValue ≤ v ∧ v ≤ f.impl.maxValue) ∨
    ∃ r rs str strs, List.Forall₂ (ReadsRange comparer f.impl) (r :: rs) (str :: strs) ∧
      Covers f.values (r :: rs) ∧ (∀ q ∈ r :: rs, f.impl.Within q) ∧
      f.impl.format f noNames = .ok (str ++ strs.flatMap (',' :: ·)) := by
  have hleast := CrontabField.getFirst_spec hf
  have hmin := (CrontabField.range_of_mem hf.length hleast.1).1
  have hnonneg := f.impl.minValue_nonneg
  have hne : f.getFirst ≠ -1 := by omega
  have hfrom : FromOn f.values f.getFirst (CrontabField.ofNil f.getFirst) := by
    rw [CrontabField.ofNil, if_neg hne]
    exact ⟨⟨hleast.1, le_rfl⟩, fun v hv => hv.2⟩
  obtain ⟨last, following, hlast, hwithin, hsplit, hafter⟩ := run_spec hf hne hfrom
  obtain ⟨str, hstr, hreads⟩ := formatRange_reads hlegible hwithin.1 hwithin.2.1 hwithin.2.2
  unfold format
  rw [formatFrom_run hne hlast]
  by_cases hstar : f.getFirst = f.impl.minValue ∧ last = f.impl.maxValue
  · left
    rw [if_pos (by exact ⟨rfl, hstar⟩)]
    refine ⟨rfl, fun v => ⟨CrontabField.range_of_mem hf.length, ?_⟩⟩
    rintro ⟨hlo, hhi⟩
    exact ((hsplit v).2 (Or.inl ⟨by omega, by omega⟩)).1
  · right
    rw [if_neg (by tauto), hstr]
    obtain ⟨rs, strs, hrs, hcovers, hall, htext⟩ :=
      formatFrom_spec hf hlegible str Nat.one_pos hafter
    refine ⟨(f.getFirst, last), rs, str, strs, .cons hreads hrs, fun v => ?_, ?_, ?_⟩
    · have hrest : (v ∈ f.values ∧ last + 1 ≤ v) ↔ ∃ r ∈ rs, r.1 ≤ v ∧ v ≤ r.2 := hcovers v
      have hge : v ∈ f.values ↔ v ∈ f.values ∧ f.getFirst ≤ v :=
        ⟨fun hv => ⟨hv, hleast.2 hv⟩, fun hv => hv.1⟩
      rw [hge, hsplit, hrest]
      simp
    · exact List.forall_mem_cons.2 ⟨hwithin, hall⟩
    · simpa using htext

/-! ## Reading it back -/

theorem intercalate_eq (str : Text) (strs : List Text) :
    [','].intercalate (str :: strs) = str ++ strs.flatMap (',' :: ·) := by
  induction strs generalizing str with
  | nil => simp
  | cons str' strs ih => rw [List.intercalate_cons_cons, ih]; simp

theorem readsRange_of_mem {rs : List (ℤ × ℤ)} {strs : List Text}
    (h : List.Forall₂ (ReadsRange comparer impl) rs strs) :
    ∀ str ∈ strs, ∃ r, ReadsRange comparer impl r str := by
  induction h with
  | nil => simp
  | cons hr _ ih => exact List.forall_mem_cons.2 ⟨⟨_, hr⟩, ih⟩

/-- Ranges with commas between them are read as one accumulate call each. -/
theorem internalParse_ranges {acc : ℤ → ℤ → ℤ → CrontabField → Except Exn CrontabField}
    {r : ℤ × ℤ} {rs : List (ℤ × ℤ)} {str : Text} {strs : List Text}
    (h : List.Forall₂ (ReadsRange comparer impl) (r :: rs) (str :: strs)) (g : CrontabField) :
    internalParse comparer impl acc (str ++ strs.flatMap (',' :: ·)) g =
      forEach (fun r => acc r.1 r.2 1) (r :: rs) g := by
  obtain ⟨hread, hreads⟩ := List.forall₂_cons.1 h
  have hne : str ++ strs.flatMap (',' :: ·) ≠ [] := by simp [hread.ne_nil]
  unfold internalParse
  rw [if_neg hne]
  cases hreads with
  | nil =>
    rw [List.flatMap_nil, List.append_nil, if_neg, hread.item, forEach_singleton]
    rw [indexOf_of_not_mem hread.noComma]
    decide
  | @cons r' str' rs strs hread' hreads =>
    have hindex : indexOf ',' (str ++ (str' :: strs).flatMap (',' :: ·)) = str.length := by
      rw [List.flatMap_cons, List.cons_append]
      exact indexOf_append hread.noComma
    have hpos : 0 < str.length := List.length_pos_of_ne_nil hread.ne_nil
    have hsplit : split ',' (str ++ (str' :: strs).flatMap (',' :: ·)) = str :: str' :: strs := by
      rw [← intercalate_eq]
      apply split_intercalate (by simp)
      intro field hfield
      obtain ⟨r₀, hr₀⟩ := readsRange_of_mem h field hfield
      exact hr₀.noComma
    rw [hindex, if_pos (by omega), hsplit]
    refine (forEach_forall₂ (fun r₀ str₀ hr₀ g => ?_) h g).symm
    rw [parseToken, if_neg hr₀.ne_nil, hr₀.item]

theorem parse_ok {σ : Type} {acc : ℤ → ℤ → ℤ → σ → Except Exn σ} {str : Text} (hne : str ≠ [])
    {st st' : σ} (h : internalParse comparer impl acc str st = .ok st') :
    parse comparer impl acc (some str) st = .ok st' := by
  obtain ⟨c, rest, rfl⟩ := List.exists_cons_of_ne_nil hne
  simp only [parse, h]

end CrontabFieldImpl

namespace CrontabField

open CrontabFieldImpl

variable {comparer : CompareInfo} {impl : CrontabFieldImpl} {noNames : Bool} {f : CrontabField}

/-- Accumulating ranges adds their values. -/
theorem accumulate_ranges {rs : List (ℤ × ℤ)} (h : ∀ r ∈ rs, impl.Within r) (hf : f.InStep)
    (himpl : f.impl = impl) :
    ∃ f', forEach (fun r g => g.accumulate r.1 r.2 1) rs f = .ok f' ∧
      ∀ v, v ∈ f'.values ↔ v ∈ f.values ∨ ∃ r ∈ rs, r.1 ≤ v ∧ v ≤ r.2 := by
  induction rs generalizing f with
  | nil => exact ⟨f, rfl, fun v => by simp⟩
  | cons r rs ih =>
    obtain ⟨⟨hlo, hle, hhi⟩, hrest⟩ := List.forall_mem_cons.1 h
    obtain ⟨f₁, hacc, himpl₁, hpop, hvalues⟩ :=
      accumulate_range hf (himpl ▸ hlo) hle (himpl ▸ hhi)
    obtain ⟨f', hf', hvalues'⟩ := ih hrest hpop.inStep (himpl₁.trans himpl)
    refine ⟨f', by rw [forEach, hacc]; exact hf', fun v => ?_⟩
    rw [hvalues', hvalues, or_assoc]
    simp

/-- **A field is read back from its text as it was.** -/
theorem create_format (hf : f.Populated) (hlegible : f.impl.Legible comparer noNames) :
    ∃ str, f.impl.format f noNames = .ok str ∧ str ≠ [] ∧ ' ' ∉ str ∧
      create comparer f.impl (some str) = .ok f := by
  -- a text that is read with the values of the field is read as the field
  have hread : ∀ {str : Text} {f' : CrontabField}, str ≠ [] → internalParse comparer f.impl
      (fun start stop interval g => g.accumulate start stop interval) str (blank f.impl) = .ok f' →
      (∀ v, v ∈ f'.values ↔ v ∈ f.values) → create comparer f.impl (some str) = .ok f := by
    intro str f' hne hparse hvalues
    have hcreate : create comparer f.impl (some str) = .ok f' := parse_ok hne hparse
    obtain ⟨himpl, hpop⟩ := create_populated hne hcreate
    rw [hcreate, hpop.ext hf himpl (Set.ext hvalues)]
  rcases format_spec hf hlegible with
    ⟨hstar, hall⟩ | ⟨r, rs, str, strs, hreads, hcovers, hwithin, htext⟩
  · obtain ⟨f', hacc, -, -, hvalues⟩ := accumulate_all (blank_inStep f.impl)
    have hparse : internalParse comparer f.impl
        (fun start stop interval g => g.accumulate start stop interval) ['*'] (blank f.impl) =
          .ok f' := hacc
    refine ⟨['*'], hstar, by decide, by decide, hread (by decide) hparse fun v => ?_⟩
    rw [hvalues, hall]
    exact Iff.rfl
  · obtain ⟨f', hacc, hvalues⟩ := accumulate_ranges hwithin (blank_inStep f.impl) rfl
    have hne : str ++ strs.flatMap (',' :: ·) ≠ [] := by
      obtain ⟨r₀, hr₀⟩ := readsRange_of_mem hreads str List.mem_cons_self
      simp [hr₀.ne_nil]
    have hblank : ' ' ∉ str ++ strs.flatMap (',' :: ·) := by
      have hfields : ∀ field ∈ str :: strs, ' ' ∉ field := by
        intro field hfield
        obtain ⟨r₀, hr₀⟩ := readsRange_of_mem hreads field hfield
        exact hr₀.noBlank
      obtain ⟨hfirst, hrest⟩ := List.forall_mem_cons.1 hfields
      simpa [hfirst] using hrest
    refine ⟨_, htext, hne, hblank,
      hread hne ((internalParse_ranges hreads _).trans hacc) fun v => ?_⟩
    rw [hvalues, blank_values, hcovers v]
    simp

end CrontabField

/-! ## The text of a schedule -/

namespace ParsedField

variable {of : CrontabFieldImpl}

theorem parse_create {comparer : CompareInfo} {expression : Text} {hne : expression ≠ []}
    {f : ParsedField of}
    (h : CrontabField.create comparer of (some expression) = .ok f.toCrontabField) :
    ParsedField.parse comparer of expression hne = .ok f := by
  unfold ParsedField.parse
  split
  · rename_i e he
    rw [h] at he
    cases he
  · rename_i f' hf'
    rw [h] at hf'
    cases hf'
    rfl

theorem create_format (f : ParsedField of) {comparer : CompareInfo}
    (hlegible : of.Legible comparer true) :
    ∃ str, f.impl.format f.toCrontabField true = .ok str ∧ str ≠ [] ∧ ' ' ∉ str ∧
      CrontabField.create comparer of (some str) = .ok f.toCrontabField := by
  have hcreate := CrontabField.create_format f.populated (f.impl_eq ▸ hlegible)
  rw [f.impl_eq] at hcreate
  rw [f.impl_eq]
  exact hcreate

end ParsedField

namespace CrontabSchedule

/-- **A schedule is read back from its text as it was.** -/
theorem parse_toString (comparer : CompareInfo) (s : CrontabSchedule) :
    ∃ str, s.toString = .ok str ∧ parse comparer (some str) = .ok s := by
  have hlegible : ∀ kind, (CrontabFieldImpl.fromKind kind).Legible comparer true :=
    CrontabFieldImpl.legible_fromKind (Or.inl rfl)
  obtain ⟨t₁, h₁, hne₁, hb₁, hc₁⟩ := s.minutes.create_format (hlegible .minute)
  obtain ⟨t₂, h₂, hne₂, hb₂, hc₂⟩ := s.hours.create_format (hlegible .hour)
  obtain ⟨t₃, h₃, hne₃, hb₃, hc₃⟩ := s.days.create_format (hlegible .day)
  obtain ⟨t₄, h₄, hne₄, hb₄, hc₄⟩ := s.months.create_format (hlegible .month)
  obtain ⟨t₅, h₅, hne₅, hb₅, hc₅⟩ := s.daysOfWeek.create_format (hlegible .dayOfWeek)
  refine ⟨String.ofList (t₁ ++ ' ' :: (t₂ ++ ' ' :: (t₃ ++ ' ' :: (t₄ ++ ' ' :: t₅)))), ?_, ?_⟩
  · simp [toString, h₁, h₂, h₃, h₄, h₅, bind, Except.bind, pure, Except.pure]
  · have hsplit : splitRemoveEmpty ' ' (t₁ ++ ' ' :: (t₂ ++ ' ' :: (t₃ ++ ' ' :: (t₄ ++ ' ' ::
        t₅)))) = [t₁, t₂, t₃, t₄, t₅] := by
      have hjoin : t₁ ++ ' ' :: (t₂ ++ ' ' :: (t₃ ++ ' ' :: (t₄ ++ ' ' :: t₅))) =
          [' '].intercalate [t₁, t₂, t₃, t₄, t₅] := by
        simp [List.intercalate_cons_cons]
      have hfields : split ' ' ([' '].intercalate [t₁, t₂, t₃, t₄, t₅]) =
          [t₁, t₂, t₃, t₄, t₅] := by
        apply split_intercalate (by simp)
        simp [hb₁, hb₂, hb₃, hb₄, hb₅]
      unfold splitRemoveEmpty
      rw [hjoin, ← split, hfields]
      simp [hne₁, hne₂, hne₃, hne₄, hne₅]
    unfold parse
    simp only
    split
    · rename_i minutes hours days months daysOfWeek heq
      rw [String.toList_ofList, hsplit] at heq
      cases heq
      simp [ParsedField.parse_create hc₁, ParsedField.parse_create hc₂,
        ParsedField.parse_create hc₃, ParsedField.parse_create hc₄,
        ParsedField.parse_create hc₅, bind, Except.bind, pure, Except.pure]
    · rename_i hnot
      rw [String.toList_ofList, hsplit] at hnot
      exact absurd rfl (hnot t₁ t₂ t₃ t₄ t₅)

/-- **Round trip of crontab text.**  The text of an accepted schedule is accepted, has the same
value sets and prints as itself; the same holds for every field in numbers, and in names where the
comparison reads letters as they are. -/
theorem toString_roundtrip (comparer : CompareInfo) :
    (∀ expression s, parse comparer expression = .ok s →
      ∃ str s', s.toString = .ok str ∧ parse comparer (some str) = .ok s' ∧
        (s'.minutes.values = s.minutes.values ∧ s'.hours.values = s.hours.values ∧
          s'.days.values = s.days.values ∧ s'.months.values = s.months.values ∧
          s'.daysOfWeek.values = s.daysOfWeek.values) ∧
        s'.toString = .ok str) ∧
    ∀ kind expression f, expression ≠ [] →
      CrontabField.parse comparer kind (some expression) = .ok f →
      ∀ format, (format = none ∨ format = some "G" ∨
          format = some "N" ∧ comparer.PlainOnLetters) →
        ∃ str f', f.toString format = .ok str ∧ str ≠ [] ∧
          CrontabField.parse comparer kind (some str) = .ok f' ∧
          f'.values = f.values ∧ f'.toString format = .ok str := by
  constructor
  · intro expression s _
    obtain ⟨str, hstr, hparse⟩ := s.parse_toString comparer
    exact ⟨str, s, hstr, hparse, ⟨rfl, rfl, rfl, rfl, rfl⟩, hstr⟩
  · intro kind expression f hne hf format hformat
    obtain ⟨himpl, hpop⟩ := CrontabField.create_populated hne hf
    have hback : ∀ noNames, f.toString format = f.impl.format f noNames →
        (noNames = true ∨ comparer.PlainOnLetters) → ∃ str f', f.toString format = .ok str ∧
          str ≠ [] ∧ CrontabField.parse comparer kind (some str) = .ok f' ∧
          f'.values = f.values ∧ f'.toString format = .ok str := by
      intro noNames htext hplain
      have hlegible : f.impl.Legible comparer noNames :=
        himpl ▸ CrontabFieldImpl.legible_fromKind hplain kind
      obtain ⟨str, hstr, hnil, -, hcreate⟩ := CrontabField.create_format hpop hlegible
      refine ⟨str, f, htext.trans hstr, hnil, ?_, rfl, htext.trans hstr⟩
      rw [himpl] at hcreate
      exact hcreate
    rcases hformat with rfl | rfl | ⟨rfl, hplain⟩
    · exact hback true rfl (Or.inl rfl)
    · exact hback true rfl (Or.inl rfl)
    · exact hback false rfl (Or.inr hplain)

/-- A schedule with steps, ranges and names comes back in numbers; a field of months comes back
in names. -/
theorem toString_roundtrip_names : ∃ s f,
    parse .ascii (some "*/20 0-5,9 1 jan mon-fri") = .ok s ∧
    CrontabField.parse .ascii .month (some "mar,jun-AUG,dec".toList) = .ok f ∧
    (∃ s', parse .ascii (some "0,20,40 0-5,9 1 1 1-5") = .ok s' ∧
      s'.minutes.values = s.minutes.values) ∧
    ∃ f', CrontabField.parse .ascii .month (some "March,June-August,December".toList) = .ok f' ∧
      f'.values = f.values := by
  have hs : okAnd (parse .ascii (some "*/20 0-5,9 1 jan mon-fri")) (fun s =>
      okAnd s.toString (· == "0,20,40 0-5,9 1 1 1-5")) = true := by decide +kernel
  have hf : okAnd (CrontabField.parse .ascii .month (some "mar,jun-AUG,dec".toList)) (fun f =>
      okAnd (f.toString (some "N")) (· == "March,June-August,December".toList)) = true := by
    decide +kernel
  obtain ⟨s, hs, hstr⟩ := exists_of_okAnd hs
  obtain ⟨str, hstr, heq⟩ := exists_of_okAnd hstr
  obtain ⟨f, hf, htext⟩ := exists_of_okAnd hf
  obtain ⟨text, htext, heq'⟩ := exists_of_okAnd htext
  rw [beq_iff_eq] at heq heq'
  obtain ⟨hschedule, hfield⟩ := toString_roundtrip .ascii
  obtain ⟨str', s', hstr', hs', hvalues, -⟩ := hschedule _ s hs
  obtain ⟨text', f', htext', -, hf', hvalues', -⟩ := hfield .month _ f (by decide +kernel) hf
    (some "N") (Or.inr (Or.inr ⟨rfl, fun _ _ _ _ => rfl⟩))
  rw [hstr, heq] at hstr'
  rw [htext, heq'] at htext'
  cases hstr'
  cases htext'
  exact ⟨s, f, hs, hf, ⟨s', hs', hvalues.1⟩, f', hf', hvalues'⟩

end CrontabSchedule

end Sentinel
