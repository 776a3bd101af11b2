import Mathlib

/-!
# The parts of the .NET base library the scheduler relies on

Exceptions, `int.Parse`, the string operations of the crontab parser and `BitArray`, as their
documentation describes them.  Text is a list of characters; `int` values are integers, and the
places where 32-bit arithmetic can wrap say so.
-/

set_option autoImplicit false

namespace Sentinel

/-- The exceptions the modelled code throws, with the message where the source sets one. -/
inductive Exn where
  | formatException (message : String) (innerMessage : Option String)
  | overflowException
  | argumentOutOfRangeException
  | argumentNullException (paramName : String)
  | objectDisposedException
  | nullReferenceException
  | indexOutOfRangeException
  | argumentException
  | arrayTypeMismatchException
  | invalidOperationException
  | keyNotFoundException
  | exception (message : String)
  deriving DecidableEq, Repr

/-- The result is a value that passes the test. -/
def okAnd {α : Type} (result : Except Exn α) (test : α → Bool) : Bool :=
  match result with
  | .ok a => test a
  | .error _ => false

theorem exists_of_okAnd {α : Type} {result : Except Exn α} {test : α → Bool}
    (h : okAnd result test = true) : ∃ a, result = .ok a ∧ test a = true := by
  unfold okAnd at h
  split at h
  · exact ⟨_, rfl, h⟩
  · cases h

/-- The exception of a result, if it is one. -/
def thrown {α : Type} : Except Exn α → Option Exn
  | .ok _ => none
  | .error e => some e

abbrev Text := List Char

/-- `int.MaxValue`. -/
def intMaxValue : ℤ := 2147483647

/-- `int.MinValue`. -/
def intMinValue : ℤ := -2147483648

/-- The cast `(int)` of a `long`: the value modulo 2^32. -/
def toInt32 (n : ℤ) : ℤ := Int.bmod n 4294967296

theorem intMinValue_le_toInt32 (n : ℤ) : intMinValue ≤ toInt32 n := by
  unfold intMinValue toInt32
  rw [Int.bmod_def]
  split <;> omega

theorem toInt32_le_intMaxValue (n : ℤ) : toInt32 n ≤ intMaxValue := by
  unfold intMaxValue toInt32
  rw [Int.bmod_def]
  split <;> omega

/-- The cast only makes large values smaller. -/
theorem toInt32_le {n : ℤ} (h : intMinValue ≤ n) : toInt32 n ≤ n := by
  unfold intMinValue at h
  unfold toInt32
  rw [Int.bmod_def]
  split <;> omega

theorem toInt32_of_range {n : ℤ} (hmin : intMinValue ≤ n) (hmax : n ≤ intMaxValue) :
    toInt32 n = n := by
  unfold intMinValue at hmin
  unfold intMaxValue at hmax
  unfold toInt32
  rw [Int.bmod_def]
  split <;> omega

theorem toInt32_add_one_ne (n : ℤ) : toInt32 (n + 1) ≠ n := by
  unfold toInt32
  rw [Int.bmod_def]
  split <;> omega

/-- A `foreach` loop whose body updates a state and may throw. -/
def forEach {β σ : Type} (body : β → σ → Except Exn σ) : List β → σ → Except Exn σ
  | [], st => .ok st
  | x :: xs, st =>
    match body x st with
    | .error e => .error e
    | .ok st => forEach body xs st

theorem forEach_congr {β σ : Type} {body body' : β → σ → Except Exn σ} {xs : List β}
    (h : ∀ x ∈ xs, ∀ st, body x st = body' x st) (st : σ) :
    forEach body xs st = forEach body' xs st := by
  induction xs generalizing st with
  | nil => rfl
  | cons x xs ih =>
    rw [forEach, forEach, h x List.mem_cons_self]
    cases body' x st with
    | error e => rfl
    | ok st => exact ih (fun y hy => h y (List.mem_cons_of_mem _ hy)) st

/-- A loop over related elements with bodies that agree on them. -/
theorem forEach_forall₂ {β γ σ : Type} {R : β → γ → Prop} {body : β → σ → Except Exn σ}
    {body' : γ → σ → Except Exn σ} (hbody : ∀ x y, R x y → ∀ st, body x st = body' y st)
    {xs : List β} {ys : List γ} (h : List.Forall₂ R xs ys) (st : σ) :
    forEach body xs st = forEach body' ys st := by
  induction h generalizing st with
  | nil => rfl
  | cons hxy _ ih =>
    rw [forEach, forEach, hbody _ _ hxy]
    cases body' _ st with
    | error e => rfl
    | ok st => exact ih st

@[simp] theorem forEach_singleton {β σ : Type} (body : β → σ → Except Exn σ) (x : β) (st : σ) :
    forEach body [x] st = body x st := by
  rw [forEach]
  cases body x st with
  | error e => rfl
  | ok st => rfl

/-- What every round of a loop keeps, the loop keeps. -/
theorem forEach_keeps {β σ : Type} {body : β → σ → Except Exn σ} {P : σ → Prop} {xs : List β}
    (hbody : ∀ x ∈ xs, ∀ st st', P st → body x st = .ok st' → P st') {st st' : σ} (hst : P st)
    (h : forEach body xs st = .ok st') : P st' := by
  induction xs generalizing st with
  | nil =>
    cases h
    exact hst
  | cons x xs ih =>
    rw [forEach] at h
    split at h
    · cases h
    · rename_i st₁ hx
      exact ih (fun y hy => hbody y (List.mem_cons_of_mem _ hy))
        (hbody x List.mem_cons_self st st₁ hst hx) h

/-! ## Text -/

/-- `IndexOf` of a single character: `-1` if it does not occur. -/
def indexOf (c : Char) (str : Text) : ℤ :=
  match str.findIdx? (· == c) with
  | some i => i
  | none => -1

/-- `Split` on one separator; every field is kept, empty ones too. -/
def split (sep : Char) (str : Text) : List Text := str.splitOn sep

/-- `Split` with `StringSplitOptions.RemoveEmptyEntries`. -/
def splitRemoveEmpty (sep : Char) (str : Text) : List Text :=
  (str.splitOn sep).filter (fun field => !field.isEmpty)

theorem ne_nil_of_mem_splitRemoveEmpty {sep : Char} {str field : Text}
    (h : field ∈ splitRemoveEmpty sep str) : field ≠ [] := by
  unfold splitRemoveEmpty at h
  have := (List.mem_filter.1 h).2
  simpa using this

/-- A field produced by `Split` holds no separator. -/
theorem not_mem_of_mem_split {sep : Char} {str field : Text} (h : field ∈ split sep str) :
    sep ∉ field := by
  unfold split at h
  induction str generalizing field with
  | nil =>
    rw [List.splitOn_nil, List.mem_singleton] at h
    simp [h]
  | cons c str ih =>
    rw [List.splitOn_cons_eq_if_modifyHead] at h
    split at h
    · rcases List.mem_cons.1 h with rfl | h
      · simp
      · exact ih h
    · rename_i hc
      cases hs : str.splitOn sep with
      | nil => exact absurd hs (List.splitOn_ne_nil sep str)
      | cons head tail =>
        rw [hs, List.modifyHead_cons] at h
        rcases List.mem_cons.1 h with rfl | h
        · have := ih (show head ∈ str.splitOn sep by rw [hs]; exact List.mem_cons_self)
          simp only [beq_iff_eq] at hc
          simp only [List.mem_cons, not_or]
          exact ⟨fun heq => hc heq.symm, this⟩
        · exact ih (by rw [hs]; exact List.mem_cons_of_mem _ h)

theorem indexOf_of_not_mem {c : Char} {str : Text} (h : c ∉ str) : indexOf c str = -1 := by
  unfold indexOf
  have : str.findIdx? (· == c) = none := by
    rw [List.findIdx?_eq_none_iff]
    intro x hx
    simp only [beq_eq_false_iff_ne, ne_eq]
    rintro rfl
    exact h hx
  rw [this]

theorem indexOf_append {c : Char} {str rest : Text} (h : c ∉ str) :
    indexOf c (str ++ c :: rest) = str.length := by
  unfold indexOf
  have : (str ++ c :: rest).findIdx? (· == c) = some str.length := by
    rw [List.findIdx?_append, List.findIdx?_eq_none_iff.2 fun x hx => ?_]
    · simp [List.findIdx?_cons]
    · simp only [beq_eq_false_iff_ne, ne_eq]
      rintro rfl
      exact h hx
  rw [this]

/-- `str` is cut at its first `c`, which does not stand at its start. -/
structure Cut (c : Char) (str before after : Text) : Prop where
  eq : str = before ++ c :: after
  ne_nil : before ≠ []
  first : c ∉ before

section Cut

variable {c : Char} {str before after : Text}

theorem Cut.indexOf_eq (h : Cut c str before after) : indexOf c str = before.length := by
  rw [h.eq]
  exact indexOf_append h.first

theorem Cut.indexOf_pos (h : Cut c str before after) : 0 < indexOf c str := by
  rw [h.indexOf_eq]
  exact Int.natCast_pos.2 (List.length_pos_iff.2 h.ne_nil)

theorem Cut.take_eq (h : Cut c str before after) : str.take (indexOf c str).toNat = before := by
  rw [h.indexOf_eq, h.eq, Int.toNat_natCast]
  exact List.take_left

theorem Cut.drop_eq (h : Cut c str before after) :
    str.drop ((indexOf c str).toNat + 1) = after := by
  rw [h.indexOf_eq, h.eq, Int.toNat_natCast, ← List.drop_drop, List.drop_left]
  rfl

/-- `IndexOf` finds the first `c`. -/
theorem cut_of_indexOf_pos (h : 0 < indexOf c str) :
    Cut c str (str.take (indexOf c str).toNat) (str.drop ((indexOf c str).toNat + 1)) := by
  have hmem : c ∈ str := by
    by_contra hnot
    rw [indexOf_of_not_mem hnot] at h
    exact absurd h (by decide)
  obtain ⟨before, after, heq, hfirst⟩ := List.eq_append_cons_of_mem hmem
  have hne : before ≠ [] := by
    rintro rfl
    rw [heq, indexOf_append hfirst] at h
    exact absurd h (by decide)
  have hcut : Cut c str before after := ⟨heq, hne, hfirst⟩
  rw [hcut.take_eq, hcut.drop_eq]
  exact hcut

end Cut

/-- Fields without the separator, joined by it, are split again. -/
theorem split_intercalate {sep : Char} {fields : List Text} (hne : fields ≠ [])
    (h : ∀ field ∈ fields, sep ∉ field) : split sep ([sep].intercalate fields) = fields :=
  List.splitOn_intercalate sep h hne

/-- White space as `NumberStyles.Integer` skips it: tab to carriage return, and the space. -/
def isWhite (c : Char) : Bool := c == ' ' || ('\t' ≤ c && c ≤ '\r')

def digitsValue (digits : Text) : ℤ :=
  digits.foldl (fun n c => n * 10 + ((c.toNat : ℤ) - ('0'.toNat : ℤ))) 0

def intFormatException : Exn :=
  .formatException "Input string was not in a correct format." none

/-- An optional leading sign; `true` for a minus. -/
def splitSign : Text → Bool × Text
  | '-' :: rest => (true, rest)
  | '+' :: rest => (false, rest)
  | str => (false, str)

/-- `int.Parse` with the invariant culture: surrounding white space, one sign, ASCII digits and
trailing null characters.  A malformed text is reported before an overflow. -/
def intParse (str : Text) : Except Exn ℤ :=
  let signed := splitSign (str.dropWhile isWhite)
  let digits := signed.2.takeWhile Char.isDigit
  let tail := (signed.2.dropWhile Char.isDigit).dropWhile isWhite
  let value := if signed.1 then -digitsValue digits else digitsValue digits
  if digits.isEmpty || !tail.all (· == '\x00') then .error intFormatException
  else if value < intMinValue ∨ intMaxValue < value then .error .overflowException
  else .ok value

theorem digitsValue_nonneg {digits : Text} (h : ∀ c ∈ digits, c.isDigit = true) :
    0 ≤ digitsValue digits := by
  unfold digitsValue
  suffices ∀ n : ℤ, 0 ≤ n → 0 ≤ digits.foldl
      (fun n c => n * 10 + ((c.toNat : ℤ) - ('0'.toNat : ℤ))) n from this 0 le_rfl
  induction digits with
  | nil => exact fun n hn => hn
  | cons c digits ih =>
    intro n hn
    have hc := h c List.mem_cons_self
    rw [List.foldl_cons]
    refine ih (fun c hc => h c (List.mem_cons_of_mem _ hc)) _ ?_
    have : 48 ≤ c.toNat := by
      simp only [Char.isDigit, Bool.and_eq_true, decide_eq_true_eq] at hc
      exact hc.1
    have : ('0'.toNat : ℤ) = 48 := rfl
    omega

/-- A numeral starts with neither white space nor a sign. -/
theorem splitSign_of_digit {c : Char} {rest : Text} (hc : '0' ≤ c ∧ c ≤ '9') :
    splitSign ((c :: rest).dropWhile isWhite) = (false, c :: rest) := by
  have hdigit : 48 ≤ c.toNat ∧ c.toNat ≤ 57 := hc
  have hwhite : isWhite c = false := by
    unfold isWhite
    simp only [Bool.or_eq_false_iff, beq_eq_false_iff_ne, ne_eq, Bool.and_eq_false_iff,
      decide_eq_false_iff_not]
    refine ⟨?_, Or.inr ?_⟩
    · rintro rfl
      exact absurd hdigit.1 (by decide)
    · intro (hle : c.toNat ≤ 13)
      omega
  rw [List.dropWhile_cons_of_neg (by simp [hwhite])]
  unfold splitSign
  split
  · rename_i heq
    rw [(List.cons.inj heq).1] at hdigit
    exact absurd hdigit.1 (by decide)
  · rename_i heq
    rw [(List.cons.inj heq).1] at hdigit
    exact absurd hdigit.1 (by decide)
  · rfl

/-- A numeral without a sign is not negative. -/
theorem intParse_nonneg {c : Char} {rest : Text} {n : ℤ} (hc : '0' ≤ c ∧ c ≤ '9')
    (h : intParse (c :: rest) = .ok n) : 0 ≤ n := by
  unfold intParse at h
  rw [splitSign_of_digit hc] at h
  simp only [Bool.false_eq_true, if_false] at h
  split_ifs at h
  cases h
  exact digitsValue_nonneg fun d hd => List.mem_takeWhile_imp hd

/-- Digits alone are read as their value, if it fits in 32 bits. -/
theorem intParse_numeral {c : Char} {rest : Text} (h : ∀ d ∈ c :: rest, d.isDigit = true) :
    intParse (c :: rest) = if digitsValue (c :: rest) ≤ intMaxValue
      then .ok (digitsValue (c :: rest)) else .error .overflowException := by
  have hc : '0' ≤ c ∧ c ≤ '9' := by
    have hdigit := h c List.mem_cons_self
    simp only [Char.isDigit, Bool.and_eq_true, decide_eq_true_eq] at hdigit
    exact hdigit
  have hnonneg := digitsValue_nonneg h
  have htake : (c :: rest).takeWhile Char.isDigit = c :: rest := List.takeWhile_eq_self_iff.2 h
  have hdrop : (c :: rest).dropWhile Char.isDigit = [] := List.dropWhile_eq_nil_iff.2 h
  unfold intParse
  rw [splitSign_of_digit hc]
  simp only [htake, hdrop, Bool.false_eq_true, if_false]
  rw [if_neg (by simp)]
  by_cases hmax : digitsValue (c :: rest) ≤ intMaxValue
  · rw [if_pos hmax, if_neg]
    unfold intMinValue
    omega
  · rw [if_neg hmax, if_pos (.inr (not_le.1 hmax))]

theorem intParse_digits {c : Char} {rest : Text} (h : ∀ d ∈ c :: rest, d.isDigit = true)
    (hmax : digitsValue (c :: rest) ≤ intMaxValue) :
    intParse (c :: rest) = .ok (digitsValue (c :: rest)) :=
  (intParse_numeral h).trans (if_pos hmax)

/-- The comparison `CompareInfo.IsPrefix(source, prefix, CompareOptions.IgnoreCase)` of the
invariant culture. -/
structure CompareInfo where
  isPrefixIgnoreCase : String → String → Bool

/-- That comparison on ASCII text. -/
def CompareInfo.ascii : CompareInfo :=
  ⟨fun source start =>
    (start.toList.map Char.toLower).isPrefixOf (source.toList.map Char.toLower)⟩

theorem findIdx?_congr {β : Type} {p q : β → Bool} {xs : List β} (h : ∀ x ∈ xs, p x = q x) :
    xs.findIdx? p = xs.findIdx? q := by
  induction xs with
  | nil => rfl
  | cons x xs ih =>
    rw [List.findIdx?_cons, List.findIdx?_cons, h x List.mem_cons_self,
      ih fun y hy => h y (List.mem_cons_of_mem _ hy)]

/-- On texts of ASCII letters the comparison is that one. -/
def CompareInfo.PlainOnLetters (comparer : CompareInfo) : Prop :=
  ∀ source start : String, (∀ c ∈ source.toList, c.isAlpha = true) →
    (∀ c ∈ start.toList, c.isAlpha = true) →
    comparer.isPrefixIgnoreCase source start = CompareInfo.ascii.isPrefixIgnoreCase source start

/-- Punctuation counts: no text with a comma is a prefix of a text of ASCII letters. -/
def CompareInfo.CommaCounts (comparer : CompareInfo) : Prop :=
  ∀ source start : String, (∀ c ∈ source.toList, c.isAlpha = true) → ',' ∈ start.toList →
    comparer.isPrefixIgnoreCase source start = false

theorem toLower_ne_comma {c : Char} (h : c.isAlpha = true) : c.toLower ≠ ',' := by
  intro hlower
  unfold Char.toLower at hlower
  split at hlower
  · rename_i hupper
    have hrange : 65 ≤ c.val.toNat ∧ c.val.toNat ≤ 90 := hupper
    have hval : (c.val + 32).toNat = 44 := congrArg Char.toNat hlower
    rw [UInt32.toNat_add] at hval
    have h32 : (32 : UInt32).toNat = 32 := rfl
    omega
  · rw [hlower] at h
    exact absurd h (by decide)

theorem CompareInfo.commaCounts_ascii : CompareInfo.ascii.CommaCounts := by
  intro source start hletters hcomma
  rw [← Bool.not_eq_true]
  intro hprefix
  have hmem : ',' ∈ source.toList.map Char.toLower :=
    (List.isPrefixOf_iff_prefix.1 hprefix).subset
      (List.mem_map.2 ⟨',', hcomma, by decide⟩)
  obtain ⟨c, hc, hlower⟩ := List.mem_map.1 hmem
  exact toLower_ne_comma (hletters c hc) hlower

/-! ## BitArray -/

/-- A fixed-length array of bits. -/
structure BitArray where
  bits : List Bool
  deriving DecidableEq, Repr

namespace BitArray

/-- `new BitArray(length)`. -/
def new (length : ℤ) : BitArray := ⟨List.replicate length.toNat false⟩

def length (b : BitArray) : ℤ := b.bits.length

def setAll (b : BitArray) (value : Bool) : BitArray := ⟨List.replicate b.bits.length value⟩

/-- The indexer; an index outside the array throws. -/
def get (b : BitArray) (index : ℤ) : Except Exn Bool :=
  if 0 ≤ index ∧ index < b.length then .ok (b.bits.getD index.toNat false)
  else .error .argumentOutOfRangeException

def set (b : BitArray) (index : ℤ) (value : Bool) : Except Exn BitArray :=
  if 0 ≤ index ∧ index < b.length then .ok ⟨b.bits.set index.toNat value⟩
  else .error .argumentOutOfRangeException

@[simp] theorem length_new {n : ℤ} (h : 0 ≤ n) : (new n).length = n := by
  simp [new, length, h]

@[simp] theorem length_setAll (b : BitArray) (value : Bool) :
    (b.setAll value).length = b.length := by
  simp [setAll, length]

theorem get_inRange {b : BitArray} {i : ℤ} {v : Bool} (h : b.get i = .ok v) :
    0 ≤ i ∧ i < b.length := by
  unfold get at h
  split at h
  · assumption
  · cases h

theorem get_setAll {b : BitArray} {i : ℤ} {v : Bool} (h0 : 0 ≤ i) (hi : i < b.length) :
    (b.setAll v).get i = .ok v := by
  have hlen : i.toNat < b.bits.length := by unfold length at hi; omega
  unfold get
  rw [length_setAll, if_pos ⟨h0, hi⟩]
  simp [setAll, List.getD_eq_getElem?_getD, hlen]

theorem set_ok {b b' : BitArray} {i : ℤ} {v : Bool} (h : b.set i v = .ok b') :
    (0 ≤ i ∧ i < b.length) ∧ b'.length = b.length ∧
      ∀ j, b'.get j = if j = i then .ok v else b.get j := by
  unfold set at h
  split at h
  · rename_i hi
    cases h
    refine ⟨hi, by simp [length], fun j => ?_⟩
    unfold get
    have hlen : length ⟨b.bits.set i.toNat v⟩ = b.length := by simp [length]
    rw [hlen]
    by_cases hj : j = i
    · subst hj
      have : j.toNat < b.bits.length := by unfold length at hi; omega
      rw [if_pos hi, if_pos rfl]
      simp [List.getD_eq_getElem?_getD, this]
    · rw [if_neg hj]
      by_cases hr : 0 ≤ j ∧ j < b.length
      · have hne : i.toNat ≠ j.toNat := by omega
        rw [if_pos hr, if_pos hr]
        simp [List.getD_eq_getElem?_getD, List.getElem?_set_ne hne]
      · rw [if_neg hr, if_neg hr]
  · cases h

/-- Arrays of one length with the same set bits are equal. -/
theorem ext_get {b b' : BitArray} (hlen : b.length = b'.length)
    (hget : ∀ i, b.get i = .ok true ↔ b'.get i = .ok true) : b = b' := by
  obtain ⟨bits⟩ := b
  obtain ⟨bits'⟩ := b'
  have hlen' : bits.length = bits'.length := by
    simpa [length] using hlen
  congr 1
  apply List.ext_getElem hlen'
  intro n h h'
  have hn := hget n
  unfold get length at hn
  rw [if_pos (by simpa using h), if_pos (by simpa using h')] at hn
  simp only [Int.toNat_natCast, List.getD_eq_getElem?_getD, List.getElem?_eq_getElem h,
    List.getElem?_eq_getElem h', Option.getD_some, Except.ok.injEq] at hn
  exact Bool.eq_iff_iff.2 hn

end BitArray

end Sentinel
