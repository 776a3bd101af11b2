import Sentinel.DotNet.Base
import Sentinel.Lib.Successor

/-!
# Crontab fields

`CrontabFieldImpl` (kinds, ranges, names and the parser of one field), `CrontabField` (the bit
table with its cached bounds) and the accumulator the parser calls.

* `CrontabField.accumulate_spec` — an accumulate call that returns keeps the bit table and the
  cached bounds in step and leaves at least one value set.
* `CrontabField.create_populated` — a field built from a non-empty expression has a value, and its
  cached bounds are its least and greatest values.
* `CrontabField.next_spec`, `CrontabField.getFirst_spec`, `CrontabField.contains_spec` — what
  `Next`, `GetFirst` and `Contains` return on such a field.
-/

set_option autoImplicit false

namespace Sentinel

open Successor

/-! ## Field kinds -/

inductive CrontabFieldKind where
  | minute
  | hour
  | day
  | month
  | dayOfWeek
  deriving DecidableEq, Repr

/-- A kind of field with its range; the constructor's assertions are fields.  Every kind's range
lies below `int.MaxValue`, which a field without values holds as its minimum. -/
structure CrontabFieldImpl where
  kind : CrontabFieldKind
  minValue : ℤ
  maxValue : ℤ
  names : Option (List String)
  minValue_nonneg : 0 ≤ minValue
  minValue_le_maxValue : minValue ≤ maxValue
  maxValue_lt : maxValue < intMaxValue
  names_length : ∀ ns ∈ names, (ns.length : ℤ) = maxValue - minValue + 1

namespace CrontabFieldImpl

def minute : CrontabFieldImpl := ⟨.minute, 0, 59, none, by decide, by decide, by decide, by decide⟩

def hour : CrontabFieldImpl := ⟨.hour, 0, 23, none, by decide, by decide, by decide, by decide⟩

def day : CrontabFieldImpl := ⟨.day, 1, 31, none, by decide, by decide, by decide, by decide⟩

def month : CrontabFieldImpl :=
  ⟨.month, 1, 12, some ["January", "February", "March", "April", "May", "June", "July", "August",
    "September", "October", "November", "December"], by decide, by decide, by decide, by decide⟩

def dayOfWeek : CrontabFieldImpl :=
  ⟨.dayOfWeek, 0, 6, some ["Sunday", "Monday", "Tuesday", "Wednesday", "Thursday", "Friday",
    "Saturday"], by decide, by decide, by decide, by decide⟩

def fromKind : CrontabFieldKind → CrontabFieldImpl
  | .minute => minute
  | .hour => hour
  | .day => day
  | .month => month
  | .dayOfWeek => dayOfWeek

def valueCount (impl : CrontabFieldImpl) : ℤ := impl.maxValue - impl.minValue + 1

/-! ## Parsing one field -/

def emptyValue : Exn := .formatException "A crontab field value cannot be empty." none

def notNumeric (impl : CrontabFieldImpl) (str : Text) : Exn :=
  .formatException ("'" ++ String.ofList str ++ "' is not a valid value for this crontab field. " ++
    "It must be a numeric value between " ++ toString impl.minValue ++ " and " ++
    toString impl.maxValue ++ " (all inclusive).") none

def notName (names : List String) (str : Text) : Exn :=
  .formatException ("'" ++ String.ofList str ++ "' is not a known value name. " ++
    "Use one of the following: " ++ ", ".intercalate names ++ ".") none

def parseValue (comparer : CompareInfo) (impl : CrontabFieldImpl) : Text → Except Exn ℤ
  | [] => .error emptyValue
  | firstChar :: rest =>
    let str := firstChar :: rest
    if '0' ≤ firstChar ∧ firstChar ≤ '9' then intParse str
    else match impl.names with
      | none => .error (notNumeric impl str)
      | some names =>
        match names.findIdx? (comparer.isPrefixIgnoreCase · (String.ofList str)) with
        | some i => .ok (i + impl.minValue)
        | none => .error (notName names str)

variable {σ : Type}

/-- The step of an item (`*/2` is every second value) and the text before it. -/
def splitStep (str : Text) : Except Exn (ℤ × Text) :=
  let slashIndex := indexOf '/' str
  if slashIndex > 0 then
    match intParse (str.drop (slashIndex.toNat + 1)) with
    | .error e => .error e
    | .ok every => .ok (every, str.take slashIndex.toNat)
  else .ok (1, str)

/-- The wildcard, range or single value before the step. -/
def parseBase (comparer : CompareInfo) (impl : CrontabFieldImpl)
    (acc : ℤ → ℤ → ℤ → σ → Except Exn σ) (every : ℤ) (str : Text) (st : σ) : Except Exn σ :=
  if str = ['*'] then acc (-1) (-1) every st
  else
    let dashIndex := indexOf '-' str
    if dashIndex > 0 then
      match parseValue comparer impl (str.take dashIndex.toNat) with
      | .error e => .error e
      | .ok first =>
        match parseValue comparer impl (str.drop (dashIndex.toNat + 1)) with
        | .error e => .error e
        | .ok last => acc first last every st
    else
      match parseValue comparer impl str with
      | .error e => .error e
      | .ok value =>
        if every = 1 then acc value value 1 st else acc value impl.maxValue every st

/-- `InternalParse` on a text without a list separator. -/
def parseItem (comparer : CompareInfo) (impl : CrontabFieldImpl)
    (acc : ℤ → ℤ → ℤ → σ → Except Exn σ) (str : Text) (st : σ) : Except Exn σ :=
  match splitStep str with
  | .error e => .error e
  | .ok (every, str) => parseBase comparer impl acc every str st

/-- `InternalParse` on one token of a list: a token holds no separator, so the recursive call
does not split again (`internalParse_eq`). -/
def parseToken (comparer : CompareInfo) (impl : CrontabFieldImpl)
    (acc : ℤ → ℤ → ℤ → σ → Except Exn σ) (token : Text) (st : σ) : Except Exn σ :=
  if token = [] then .error emptyValue else parseItem comparer impl acc token st

def internalParse (comparer : CompareInfo) (impl : CrontabFieldImpl)
    (acc : ℤ → ℤ → ℤ → σ → Except Exn σ) (str : Text) (st : σ) : Except Exn σ :=
  if str = [] then .error emptyValue
  else if indexOf ',' str > 0 then
    forEach (parseToken comparer impl acc) (split ',' str) st
  else parseItem comparer impl acc str st

/-- `Parse`: a null or empty text sets nothing; a format error is reported for the whole text. -/
def parse (comparer : CompareInfo) (impl : CrontabFieldImpl)
    (acc : ℤ → ℤ → ℤ → σ → Except Exn σ) (str : Option Text) (st : σ) : Except Exn σ :=
  match str with
  | none => .ok st
  | some [] => .ok st
  | some str =>
    match internalParse comparer impl acc str st with
    | .error (.formatException message _) =>
      .error (.formatException
        ("'" ++ String.ofList str ++ "' is not a valid crontab field expression.") (some message))
    | result => result

end CrontabFieldImpl

/-! ## The field -/

structure CrontabField where
  impl : CrontabFieldImpl
  bits : BitArray
  minValueSet : ℤ
  maxValueSet : ℤ

namespace CrontabField

def valueToIndex (f : CrontabField) (value : ℤ) : ℤ := value - f.impl.minValue

def indexToValue (f : CrontabField) (index : ℤ) : ℤ := index + f.impl.minValue

/-- `GetFirst`: the first value, or -1. -/
def getFirst (f : CrontabField) : ℤ := if f.minValueSet < intMaxValue then f.minValueSet else -1

/-- The loop of `Next` over the indices from `i` to `lastIndex`. -/
def nextFrom (f : CrontabField) (i lastIndex : ℤ) : Except Exn ℤ :=
  if i ≤ lastIndex then
    match f.bits.get i with
    | .error e => .error e
    | .ok true => .ok (f.indexToValue i)
    | .ok false => nextFrom f (i + 1) lastIndex
  else .ok (-1)
termination_by (lastIndex + 1 - i).toNat
decreasing_by omega

/-- `Next`: the first value from `start` on, or -1. -/
def next (f : CrontabField) (start : ℤ) : Except Exn ℤ :=
  if start < f.minValueSet then .ok f.minValueSet
  else nextFrom f (f.valueToIndex start) (f.valueToIndex f.maxValueSet)

def contains (f : CrontabField) (value : ℤ) : Except Exn Bool := f.bits.get (f.valueToIndex value)

/-! ## Accumulating values -/

def tooLow (impl : CrontabFieldImpl) (value : ℤ) : Exn :=
  .formatException ("'" ++ toString value ++ " is lower than the minimum allowable value for " ++
    "this field. Value must be between " ++ toString impl.minValue ++ " and " ++
    toString impl.maxValue ++ " (all inclusive).") none

def tooHigh (impl : CrontabFieldImpl) (value : ℤ) : Exn :=
  .formatException ("'" ++ toString value ++ " is higher than the maximum allowable value for " ++
    "this field. Value must be between " ++ toString impl.minValue ++ " and " ++
    toString impl.maxValue ++ " (all inclusive).") none

/-- The loop of `accumulate`: sets every `interval`-th bit up to `lastIndex` and returns the
first index beyond it. -/
def setBits (bits : BitArray) (i lastIndex interval : ℤ) (hpos : 0 < interval) :
    Except Exn (BitArray × ℤ) :=
  if i ≤ lastIndex then
    match bits.set i true with
    | .error e => .error e
    | .ok bits =>
      -- the 32-bit sum wraps to a negative index, which the next round reads out of range
      if intMaxValue < i + interval then .error .argumentOutOfRangeException
      else setBits bits (i + interval) lastIndex interval hpos
  else .ok (bits, i)
termination_by (lastIndex + 1 - i).toNat
decreasing_by omega

/-- The part of `accumulate` after the range has been settled. -/
def populate (f : CrontabField) (start stop interval : ℤ) : Except Exn CrontabField :=
  let minValue := f.impl.minValue
  match setBits f.bits (start - minValue) (stop - minValue) (max interval 1) (by omega) with
  | .error e => .error e
  | .ok (bits, i) =>
    let i := i + (minValue - max interval 1)
    .ok { f with
      bits := bits
      minValueSet := if f.minValueSet > start then start else f.minValueSet
      maxValueSet := if f.maxValueSet < i then i else f.maxValueSet }

/-- `accumulate`: start and end -1 with interval 1 stand for the whole range. -/
def accumulate (f : CrontabField) (start stop interval : ℤ) : Except Exn CrontabField :=
  let minValue := f.impl.minValue
  let maxValue := f.impl.maxValue
  if start = stop then
    if start < 0 then
      if interval ≤ 1 then
        .ok { f with minValueSet := minValue, maxValueSet := maxValue, bits := f.bits.setAll true }
      else f.populate minValue maxValue interval
    else if start < minValue then .error (tooLow f.impl start)
    else if start > maxValue then .error (tooHigh f.impl stop)
    else f.populate start stop interval
  else
    -- the source swaps the bounds of a reversed range with three exclusive ors
    let lo := min start stop
    let hi := max start stop
    if 0 ≤ lo ∧ lo < minValue then .error (tooLow f.impl lo)
    else if 0 ≤ hi ∧ hi > maxValue then .error (tooHigh f.impl hi)
    else f.populate (if lo < 0 then minValue else lo) (if hi < 0 then maxValue else hi) interval

/-- A field without values, as the constructor sets it up before parsing. -/
def blank (impl : CrontabFieldImpl) : CrontabField :=
  ⟨impl, (BitArray.new impl.valueCount).setAll false, intMaxValue, -1⟩

/-- The constructor. -/
def create (comparer : CompareInfo) (impl : CrontabFieldImpl) (expression : Option Text) :
    Except Exn CrontabField :=
  impl.parse comparer (fun start stop interval f => f.accumulate start stop interval) expression
    (blank impl)

def parse (comparer : CompareInfo) (kind : CrontabFieldKind) (expression : Option Text) :
    Except Exn CrontabField :=
  create comparer (CrontabFieldImpl.fromKind kind) expression

/-! ## The value set -/

/-- The values whose bit is set. -/
def values (f : CrontabField) : Set ℤ := {v | f.contains v = .ok true}

theorem mem_values {f : CrontabField} {v : ℤ} :
    v ∈ f.values ↔ f.bits.get (v - f.impl.minValue) = .ok true := Iff.rfl

/-- The bit table has the length of the kind's range, and the cached bounds are those of the
values set so far. -/
structure InStep (f : CrontabField) : Prop where
  length : f.bits.length = f.impl.valueCount
  bounds : (f.values = ∅ ∧ f.minValueSet = intMaxValue ∧ f.maxValueSet = -1) ∨
    (IsLeast f.values f.minValueSet ∧ IsGreatest f.values f.maxValueSet)

/-- In step, with at least one value. -/
structure Populated (f : CrontabField) : Prop where
  length : f.bits.length = f.impl.valueCount
  least : IsLeast f.values f.minValueSet
  greatest : IsGreatest f.values f.maxValueSet

theorem Populated.inStep {f : CrontabField} (h : f.Populated) : f.InStep :=
  ⟨h.length, Or.inr ⟨h.least, h.greatest⟩⟩

theorem range_of_mem {f : CrontabField} (h : f.bits.length = f.impl.valueCount) {v : ℤ}
    (hv : v ∈ f.values) : f.impl.minValue ≤ v ∧ v ≤ f.impl.maxValue := by
  have := BitArray.get_inRange hv
  unfold valueToIndex at this
  unfold CrontabFieldImpl.valueCount at h
  omega

theorem InStep.lower_bound {f : CrontabField} (h : f.InStep) {v : ℤ} (hv : v ∈ f.values) :
    f.minValueSet ≤ v := by
  rcases h.bounds with ⟨he, -, -⟩ | ⟨hl, -⟩
  · rw [he] at hv; cases hv
  · exact hl.2 hv

theorem InStep.upper_bound {f : CrontabField} (h : f.InStep) {v : ℤ} (hv : v ∈ f.values) :
    v ≤ f.maxValueSet := by
  rcases h.bounds with ⟨he, -, -⟩ | ⟨-, hg⟩
  · rw [he] at hv; cases hv
  · exact hg.2 hv

/-! ## Accumulating keeps the field in step -/

theorem setBits_spec {bits bits' : BitArray} {i lastIndex interval j : ℤ} {hpos : 0 < interval}
    (h : setBits bits i lastIndex interval hpos = .ok (bits', j)) :
    bits'.length = bits.length ∧
    (∀ x, bits'.get x = .ok true ↔
      bits.get x = .ok true ∨ ∃ n : ℕ, x = i + n * interval ∧ x ≤ lastIndex) ∧
    (i ≤ lastIndex → j - interval ≤ lastIndex ∧ ∃ n : ℕ, j - interval = i + n * interval) ∧
    lastIndex < j := by
  fun_induction setBits bits i lastIndex interval hpos with
  | case1 => cases h
  | case2 => cases h
  | case3 bits i hle bits₁ hset hwrap ih =>
    obtain ⟨hlen, hget, hstop, hlast⟩ := ih h
    obtain ⟨-, hlen₁, hget₁⟩ := BitArray.set_ok hset
    refine ⟨hlen.trans hlen₁, fun x => ?_, fun _ => ?_, hlast⟩
    · rw [hget, hget₁]
      constructor
      · rintro (hx | ⟨n, rfl, hx⟩)
        · split at hx
          · rename_i hxi
            exact Or.inr ⟨0, by simp [hxi], by omega⟩
          · exact Or.inl hx
        · exact Or.inr ⟨n + 1, by push_cast; ring, hx⟩
      · rintro (hx | ⟨n, rfl, hx⟩)
        · left
          split
          · rfl
          · exact hx
        · cases n with
          | zero => left; simp
          | succ n => exact Or.inr ⟨n, by push_cast; ring, hx⟩
    · by_cases hnext : i + interval ≤ lastIndex
      · obtain ⟨hj, n, hn⟩ := hstop hnext
        exact ⟨hj, n + 1, by rw [hn]; push_cast; ring⟩
      · -- the loop ends in the next round, at `i + interval`
        rw [setBits, if_neg hnext] at h
        cases h
        exact ⟨by omega, 0, by simp⟩
  | case4 bits i hgt =>
    cases h
    refine ⟨rfl, fun x => ⟨Or.inl, ?_⟩, fun hle => absurd hle hgt, by omega⟩
    rintro (hx | ⟨n, rfl, hx⟩)
    · exact hx
    · have : 0 ≤ (n : ℤ) * interval := by positivity
      omega

/-- **The loop of `accumulate`** adds every `interval`-th value from `start` to `stop`. -/
theorem populate_spec {f f' : CrontabField} {start stop interval : ℤ} (hf : f.InStep)
    (hlo : f.impl.minValue ≤ start) (hle : start ≤ stop)
    (h : f.populate start stop interval = .ok f') :
    f'.impl = f.impl ∧ f'.Populated ∧
    ∀ v, v ∈ f'.values ↔
      v ∈ f.values ∨ ∃ n : ℕ, v = start + n * max interval 1 ∧ v ≤ stop := by
  unfold populate at h
  simp only at h
  split at h
  · cases h
  · rename_i bits i hbits
    obtain ⟨hlen, hget, hstop, hlast⟩ := setBits_spec hbits
    obtain ⟨htop, n, hn⟩ := hstop (by omega)
    cases h
    have hmem : ∀ v, bits.get (v - f.impl.minValue) = .ok true ↔
        v ∈ f.values ∨ ∃ n : ℕ, v = start + n * max interval 1 ∧ v ≤ stop := by
      intro v
      rw [hget, mem_values]
      refine or_congr_right (exists_congr fun n => ?_)
      constructor <;> rintro ⟨h1, h2⟩ <;> constructor <;> omega
    have hstart : start ≤ start + n * max interval 1 := by
      have : 0 ≤ (n : ℤ) * max interval 1 := by positivity
      omega
    refine ⟨rfl, ⟨hlen.trans hf.length, ⟨?_, ?_⟩, ⟨?_, ?_⟩⟩, hmem⟩
    · -- the least value is `start` or the old minimum
      rw [mem_values]
      simp only
      rw [hmem]
      split
      · exact Or.inr ⟨0, by simp, hle⟩
      · rename_i hmin
        rcases hf.bounds with ⟨-, he, -⟩ | ⟨hl, -⟩
        · have := f.impl.maxValue_lt
          have h1 := BitArray.get_inRange ((hget (start - f.impl.minValue)).2
            (Or.inr ⟨0, by simp, by omega⟩))
          have h2 := hf.length
          unfold CrontabFieldImpl.valueCount at h2
          omega
        · exact Or.inl hl.1
    · intro v hv
      rcases (hmem v).1 hv with hv | ⟨m, rfl, -⟩
      · have := hf.lower_bound hv
        simp only
        split <;> omega
      · have : 0 ≤ (m : ℤ) * max interval 1 := by positivity
        simp only
        split <;> omega
    · -- the greatest value is the last one the loop set, or the old maximum
      rw [mem_values]
      simp only
      rw [hmem]
      split
      · exact Or.inr ⟨n, by omega, by omega⟩
      · rename_i hmax
        rcases hf.bounds with ⟨-, -, he⟩ | ⟨-, hg⟩
        · have := f.impl.minValue_nonneg
          omega
        · exact Or.inl hg.1
    · intro v hv
      rcases (hmem v).1 hv with hv | ⟨m, rfl, hm⟩
      · have := hf.upper_bound hv
        simp only
        split <;> omega
      · have hmn : (m : ℤ) ≤ n := by
          by_contra hgt
          have hk : 0 < max interval 1 := by omega
          have : ((n : ℤ) + 1) * max interval 1 ≤ m * max interval 1 :=
            mul_le_mul_of_nonneg_right (by omega) hk.le
          rw [add_mul, one_mul] at this
          omega
        have : (m : ℤ) * max interval 1 ≤ n * max interval 1 :=
          mul_le_mul_of_nonneg_right hmn (by omega)
        simp only
        split <;> omega

theorem InStep.setAll {f : CrontabField} (hf : f.InStep) :
    Populated { f with
      minValueSet := f.impl.minValue
      maxValueSet := f.impl.maxValue
      bits := f.bits.setAll true } := by
  have hlen := hf.length
  have hle := f.impl.minValue_le_maxValue
  unfold CrontabFieldImpl.valueCount at hlen
  refine ⟨by simpa using hf.length, ⟨?_, ?_⟩, ⟨?_, ?_⟩⟩
  · rw [mem_values]
    exact BitArray.get_setAll (by simp) (by simp only; omega)
  · intro v hv
    exact (range_of_mem (by simpa using hf.length) hv).1
  · rw [mem_values]
    exact BitArray.get_setAll (by simp only; omega) (by simp only; omega)
  · intro v hv
    exact (range_of_mem (by simpa using hf.length) hv).2

/-- The bounds the parser passes: -1 twice for the whole range, else two values it has read. -/
def ParserBounds (start stop : ℤ) : Prop := (start = -1 ∧ stop = -1) ∨ (0 ≤ start ∧ 0 ≤ stop)

/-- **An accumulate call of the parser that returns** leaves the field in step and not empty. -/
theorem accumulate_spec {f f' : CrontabField} {start stop interval : ℤ} (hf : f.InStep)
    (hb : ParserBounds start stop) (h : f.accumulate start stop interval = .ok f') :
    f'.impl = f.impl ∧ f'.Populated := by
  have hle := f.impl.minValue_le_maxValue
  unfold ParserBounds at hb
  unfold accumulate at h
  simp only at h
  split_ifs at h with heq hneg hint hlow hhigh hlow hhigh
  · cases h
    exact ⟨rfl, hf.setAll⟩
  · obtain ⟨himpl, hpop, -⟩ := populate_spec hf le_rfl hle h
    exact ⟨himpl, hpop⟩
  · obtain ⟨himpl, hpop, -⟩ := populate_spec hf (by omega) heq.le h
    exact ⟨himpl, hpop⟩
  all_goals
    have hmin := f.impl.minValue_nonneg
    obtain ⟨himpl, hpop, -⟩ := populate_spec hf (by omega) (by omega) h
    exact ⟨himpl, hpop⟩

/-- The loop reads no index outside the table as long as the last index is inside. -/
theorem setBits_ok {bits : BitArray} {i lastIndex interval : ℤ} (hpos : 0 < interval) (h0 : 0 ≤ i)
    (hlast : lastIndex < bits.length) (hwrap : lastIndex + interval ≤ intMaxValue) :
    ∃ r, setBits bits i lastIndex interval hpos = .ok r := by
  fun_induction setBits bits i lastIndex interval hpos with
  | case1 bits i hle e hset =>
    unfold BitArray.set at hset
    rw [if_pos (by omega)] at hset
    cases hset
  | case2 => omega
  | case3 bits i hle bits₁ hset hnowrap ih =>
    obtain ⟨-, hlen, -⟩ := BitArray.set_ok hset
    exact ih (by omega) (by omega)
  | case4 bits i hgt => exact ⟨_, rfl⟩

/-- **A range inside the kind's range** is accepted and adds exactly its values. -/
theorem accumulate_range {f : CrontabField} (hf : f.InStep) {first last : ℤ}
    (hlo : f.impl.minValue ≤ first) (hle : first ≤ last) (hhi : last ≤ f.impl.maxValue) :
    ∃ f', f.accumulate first last 1 = .ok f' ∧ f'.impl = f.impl ∧ f'.Populated ∧
      ∀ v, v ∈ f'.values ↔ v ∈ f.values ∨ (first ≤ v ∧ v ≤ last) := by
  have hmin := f.impl.minValue_nonneg
  have hmax := f.impl.maxValue_lt
  have hlen := hf.length
  unfold CrontabFieldImpl.valueCount at hlen
  have hpopulate : f.accumulate first last 1 = f.populate first last 1 := by
    unfold accumulate
    simp only
    by_cases heq : first = last
    · rw [if_pos heq, if_neg (by omega), if_neg (by omega), if_neg (by omega)]
    · rw [if_neg heq, min_eq_left hle, max_eq_right hle, if_neg (by omega), if_neg (by omega),
        if_neg (by omega), if_neg (by omega)]
  have hok : ∃ f', f.populate first last 1 = .ok f' := by
    have hset : ∃ r, setBits f.bits (first - f.impl.minValue) (last - f.impl.minValue) (max 1 1)
        (by decide) = .ok r :=
      setBits_ok (by decide) (by omega) (by omega) (by rw [max_self]; omega)
    obtain ⟨⟨bits, i⟩, hbits⟩ := hset
    unfold populate
    simp only [hbits]
    exact ⟨_, rfl⟩
  obtain ⟨f', hf'⟩ := hok
  obtain ⟨himpl, hpop, hvalues⟩ := populate_spec hf hlo hle hf'
  refine ⟨f', hpopulate.trans hf', himpl, hpop, fun v => ?_⟩
  rw [hvalues, max_self]
  refine or_congr_right ⟨?_, ?_⟩
  · rintro ⟨n, rfl, hn⟩
    omega
  · rintro ⟨hfirst, hlast⟩
    exact ⟨(v - first).toNat, by omega, hlast⟩

/-- The wildcard is accepted and adds the kind's whole range. -/
theorem accumulate_all {f : CrontabField} (hf : f.InStep) :
    ∃ f', f.accumulate (-1) (-1) 1 = .ok f' ∧ f'.impl = f.impl ∧ f'.Populated ∧
      ∀ v, v ∈ f'.values ↔ f.impl.minValue ≤ v ∧ v ≤ f.impl.maxValue := by
  have hpop := hf.setAll
  have hlen := hf.length
  unfold CrontabFieldImpl.valueCount at hlen
  have hset : f.accumulate (-1) (-1) 1 = .ok { f with
      minValueSet := f.impl.minValue
      maxValueSet := f.impl.maxValue
      bits := f.bits.setAll true } := by
    unfold accumulate
    rw [if_pos rfl, if_pos (by decide), if_pos le_rfl]
  refine ⟨_, hset, rfl, hpop, fun v => ⟨fun hv => range_of_mem hpop.length hv, ?_⟩⟩
  rintro ⟨hlo, hhi⟩
  rw [mem_values]
  exact BitArray.get_setAll (by simp only; omega) (by simp only; omega)

/-- A populated field is determined by its kind and its values. -/
theorem Populated.ext {f f' : CrontabField} (hf : f.Populated) (hf' : f'.Populated)
    (himpl : f.impl = f'.impl) (hvalues : f.values = f'.values) : f = f' := by
  have hmin : f.minValueSet = f'.minValueSet := by
    have hleast := hf.least
    rw [hvalues] at hleast
    exact hleast.unique hf'.least
  have hmax : f.maxValueSet = f'.maxValueSet := by
    have hgreatest := hf.greatest
    rw [hvalues] at hgreatest
    exact hgreatest.unique hf'.greatest
  have hbits : f.bits = f'.bits := by
    apply BitArray.ext_get
    · rw [hf.length, hf'.length, himpl]
    · intro i
      have hi : i + f.impl.minValue ∈ f.values ↔ i + f.impl.minValue ∈ f'.values := by rw [hvalues]
      rw [mem_values, mem_values, ← himpl, add_sub_cancel_right] at hi
      exact hi
  cases f
  cases f'
  simp only at himpl hmin hmax hbits
  rw [himpl, hmin, hmax, hbits]

theorem blank_length (impl : CrontabFieldImpl) : (blank impl).bits.length = impl.valueCount := by
  have hle := impl.minValue_le_maxValue
  simp only [blank, BitArray.length_setAll]
  exact BitArray.length_new (by unfold CrontabFieldImpl.valueCount; omega)

theorem blank_values (impl : CrontabFieldImpl) : (blank impl).values = ∅ := by
  ext v
  simp only [Set.mem_empty_iff_false, iff_false]
  intro hv
  have hr := BitArray.get_inRange hv
  simp only [blank, BitArray.length_setAll] at hr
  rw [mem_values] at hv
  simp only [blank] at hv
  have := BitArray.get_setAll (b := BitArray.new impl.valueCount) (v := false) hr.1 hr.2
  unfold valueToIndex at this
  rw [this] at hv
  cases hv

theorem blank_inStep (impl : CrontabFieldImpl) : (blank impl).InStep :=
  ⟨blank_length impl, Or.inl ⟨blank_values impl, rfl, rfl⟩⟩

end CrontabField

/-! ## The parser only changes the field through the accumulator -/

namespace CrontabFieldImpl

variable {σ : Type} {comparer : CompareInfo} {impl : CrontabFieldImpl}
  {acc : ℤ → ℤ → ℤ → σ → Except Exn σ}

theorem parseValue_nonneg {str : Text} {v : ℤ} (h : parseValue comparer impl str = .ok v) :
    0 ≤ v := by
  cases str with
  | nil => cases h
  | cons c rest =>
    simp only [parseValue] at h
    split at h
    · rename_i hc
      exact intParse_nonneg hc h
    · split at h
      · cases h
      · split at h
        · rename_i i _
          cases h
          have := impl.minValue_nonneg
          omega
        · cases h

/-- One item is one accumulate call. -/
theorem parseItem_acc {str : Text} {st st' : σ}
    (h : parseItem comparer impl acc str st = .ok st') :
    ∃ start stop interval, CrontabField.ParserBounds start stop ∧
      acc start stop interval st = .ok st' := by
  have hmax : 0 ≤ impl.maxValue := impl.minValue_nonneg.trans impl.minValue_le_maxValue
  unfold parseItem at h
  split at h
  · cases h
  · unfold parseBase at h
    simp only at h
    split at h
    · exact ⟨_, _, _, Or.inl ⟨rfl, rfl⟩, h⟩
    · split at h
      · split at h
        · cases h
        · rename_i hfirst
          split at h
          · cases h
          · rename_i hlast
            exact ⟨_, _, _, Or.inr ⟨parseValue_nonneg hfirst, parseValue_nonneg hlast⟩, h⟩
      · split at h
        · cases h
        · rename_i hvalue
          have hv := parseValue_nonneg hvalue
          split at h
          · exact ⟨_, _, _, Or.inr ⟨hv, hv⟩, h⟩
          · exact ⟨_, _, _, Or.inr ⟨hv, hmax⟩, h⟩

theorem parseToken_acc {token : Text} {st st' : σ}
    (h : parseToken comparer impl acc token st = .ok st') :
    ∃ start stop interval, CrontabField.ParserBounds start stop ∧
      acc start stop interval st = .ok st' := by
  unfold parseToken at h
  split at h
  · cases h
  · exact parseItem_acc h

/-- The recursion of the source: a list is parsed item by item with the same function. -/
theorem internalParse_eq (str : Text) (st : σ) :
    internalParse comparer impl acc str st =
      if str = [] then .error emptyValue
      else if indexOf ',' str > 0 then
        forEach (internalParse comparer impl acc) (split ',' str) st
      else parseItem comparer impl acc str st := by
  have htoken : ∀ token ∈ split ',' str, ∀ st,
      internalParse comparer impl acc token st = parseToken comparer impl acc token st := by
    intro token hmem st
    unfold internalParse parseToken
    rw [indexOf_of_not_mem (not_mem_of_mem_split hmem)]
    simp
  rw [internalParse]
  split
  · rfl
  · split
    · exact forEach_congr (fun token hmem st => (htoken token hmem st).symm) st
    · rfl

/-- **A successful parse of a non-empty text** makes at least one accumulate call and nothing
else: what every call establishes holds afterwards. -/
theorem parse_establishes {P Q : σ → Prop} (hQP : ∀ st, Q st → P st)
    (hacc : ∀ a b k st st', CrontabField.ParserBounds a b → P st → acc a b k st = .ok st' → Q st')
    {str : Text} {st st' : σ} (hne : str ≠ []) (hst : P st)
    (h : parse comparer impl acc (some str) st = .ok st') : Q st' := by
  obtain ⟨c, str, rfl⟩ := List.exists_cons_of_ne_nil hne
  simp only [parse] at h
  split at h
  · cases h
  · unfold internalParse at h
    rw [if_neg (by simp)] at h
    split at h
    · cases hs : split ',' (c :: str) with
      | nil => exact absurd hs (List.splitOn_ne_nil ',' (c :: str))
      | cons token tokens =>
        rw [hs, forEach] at h
        split at h
        · cases h
        · rename_i st₁ hp
          obtain ⟨a, b, k, hb, hstep⟩ := parseToken_acc hp
          refine forEach_keeps (fun token _ st st' hst hp => ?_) (hacc a b k st st₁ hb hst hstep) h
          obtain ⟨a, b, k, hb, hstep⟩ := parseToken_acc hp
          exact hacc a b k st st' hb (hQP st hst) hstep
    · obtain ⟨a, b, k, hb, hstep⟩ := parseItem_acc h
      exact hacc a b k st st' hb hst hstep

end CrontabFieldImpl

namespace CrontabField

/-- **A field built from a non-empty expression** has values, and its cached bounds are the least
and the greatest of them. -/
theorem create_populated {comparer : CompareInfo} {impl : CrontabFieldImpl} {expression : Text}
    {f : CrontabField} (hne : expression ≠ [])
    (h : create comparer impl (some expression) = .ok f) : f.impl = impl ∧ f.Populated := by
  unfold create at h
  refine CrontabFieldImpl.parse_establishes (P := fun f => f.impl = impl ∧ f.InStep)
    (Q := fun f => f.impl = impl ∧ f.Populated) (fun f hf => ⟨hf.1, hf.2.inStep⟩) ?_ hne
    ⟨rfl, blank_inStep impl⟩ h
  rintro start stop interval f f' hb ⟨himpl, hf⟩ hacc
  obtain ⟨himpl', hf'⟩ := accumulate_spec hf hb hacc
  exact ⟨himpl'.trans himpl, hf'⟩

/-! ## Reading a populated field -/

theorem getFirst_spec {f : CrontabField} (hf : f.Populated) : IsLeast f.values f.getFirst := by
  have hr := range_of_mem hf.length hf.least.1
  have := f.impl.maxValue_lt
  unfold getFirst
  rw [if_pos (by omega)]
  exact hf.least

/-- -1 stands for "no value". -/
def ofNil (v : ℤ) : Option ℤ := if v = -1 then none else some v

theorem nextFrom_spec {f : CrontabField} (hf : f.Populated) {i lastIndex : ℤ} (h0 : 0 ≤ i)
    (hlast : lastIndex = f.valueToIndex f.maxValueSet) :
    ∃ v, f.nextFrom i lastIndex = .ok v ∧ FromOn f.values (f.indexToValue i) (ofNil v) := by
  have hmin := f.impl.minValue_nonneg
  have hmax := (range_of_mem hf.length hf.greatest.1).2
  have hlen := hf.length
  unfold CrontabFieldImpl.valueCount at hlen
  fun_induction nextFrom f i lastIndex with
  | case1 i hle e hget =>
    unfold BitArray.get at hget
    rw [if_pos (by unfold valueToIndex at hlast; omega)] at hget
    cases hget
  | case2 i hle hget =>
    refine ⟨_, rfl, ?_⟩
    have hv : f.indexToValue i ≠ -1 := by unfold indexToValue; omega
    rw [ofNil, if_neg hv]
    refine ⟨⟨?_, le_rfl⟩, fun x hx => hx.2⟩
    rw [mem_values, indexToValue, add_sub_cancel_right]
    exact hget
  | case3 i hle hget ih =>
    obtain ⟨v, hv, hfrom⟩ := ih (by omega)
    refine ⟨v, hv, ?_⟩
    -- index `i` is not set, so searching from it is searching from the next one
    have hskip : ∀ x ∈ f.values, f.indexToValue i ≤ x → f.indexToValue (i + 1) ≤ x := by
      intro x hx hge
      unfold indexToValue at *
      by_contra hlt
      have : x - f.impl.minValue = i := by omega
      rw [mem_values, this, hget] at hx
      cases hx
    cases hq : ofNil v with
    | none =>
      rw [hq] at hfrom
      intro x hx
      by_contra hge
      have := hfrom x hx
      have := hskip x hx (by omega)
      omega
    | some w =>
      rw [hq] at hfrom
      refine ⟨⟨hfrom.1.1, ?_⟩, fun x hx => hfrom.2 ⟨hx.1, hskip x hx.1 hx.2⟩⟩
      have := hfrom.1.2
      unfold indexToValue at *
      omega
  | case4 i hgt =>
    refine ⟨-1, rfl, fun x hx => ?_⟩
    have := hf.greatest.2 hx
    unfold valueToIndex at hlast
    unfold indexToValue
    omega

/-- **`Next`** returns the least value from `start` on, or -1 if there is none; no index outside
the bit table is read. -/
theorem next_spec {f : CrontabField} (hf : f.Populated) (start : ℤ) :
    ∃ v, f.next start = .ok v ∧ FromOn f.values start (ofNil v) := by
  have hmin := f.impl.minValue_nonneg
  have hr := range_of_mem hf.length hf.least.1
  unfold next
  split
  · rename_i hlt
    refine ⟨_, rfl, ?_⟩
    rw [ofNil, if_neg (by omega)]
    exact ⟨⟨hf.least.1, hlt.le⟩, fun x hx => hf.least.2 hx.1⟩
  · obtain ⟨v, hv, hfrom⟩ := nextFrom_spec hf (i := f.valueToIndex start)
      (by unfold valueToIndex; omega) rfl
    refine ⟨v, hv, ?_⟩
    rwa [show f.indexToValue (f.valueToIndex start) = start by
      unfold indexToValue valueToIndex; omega] at hfrom

/-- `Contains` answers for every value in the kind's range. -/
theorem contains_of_length {f : CrontabField} (hlen : f.bits.length = f.impl.valueCount) {v : ℤ}
    (hlo : f.impl.minValue ≤ v) (hhi : v ≤ f.impl.maxValue) :
    ∃ b, f.contains v = .ok b ∧ (b = true ↔ v ∈ f.values) := by
  unfold CrontabFieldImpl.valueCount at hlen
  cases hc : f.contains v with
  | error e =>
    unfold contains BitArray.get valueToIndex at hc
    rw [if_pos (by omega)] at hc
    cases hc
  | ok b => exact ⟨b, rfl, by simp [values, hc]⟩

theorem contains_spec {f : CrontabField} (hf : f.Populated) {v : ℤ} (hlo : f.impl.minValue ≤ v)
    (hhi : v ≤ f.impl.maxValue) : ∃ b, f.contains v = .ok b ∧ (b = true ↔ v ∈ f.values) :=
  contains_of_length hf.length hlo hhi

end CrontabField

end Sentinel
