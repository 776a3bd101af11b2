import Sentinel.Cron.FieldValues

/-!
# The representation of a crontab field, call by call

A parse is the list of its accumulate calls, and an accumulate call is the list of the indices it
writes.

* `parse_calls` — a parse that returns has made its calls one after another, on any state.
* `accumulate_writes` — a call that returns writes the indices `written`, and no others.
* `Represents.accumulate`, `represents_calls` — what one call keeps, and what a sequence of calls
  establishes.
* `parse_represents` — after every call of the parser the cached bounds are those of the bits that
  are set, and `GetFirst` and `Next` read the field correctly.
-/

set_option autoImplicit false

namespace Sentinel

open Successor

/-! ## The calls of the parser -/

/-- The arguments of a call of the accumulator. -/
structure AccumulateCall where
  start : ℤ
  stop : ℤ
  interval : ℤ
  deriving DecidableEq, Repr

/-- The accumulator on the arguments of a call. -/
def AccumulateCall.on {σ : Type} (acc : ℤ → ℤ → ℤ → σ → Except Exn σ) (call : AccumulateCall)
    (st : σ) : Except Exn σ :=
  acc call.start call.stop call.interval st

/-- An accumulator that notes the calls. -/
def noteCall (start stop interval : ℤ) (calls : List AccumulateCall) :
    Except Exn (List AccumulateCall) :=
  .ok (calls ++ [⟨start, stop, interval⟩])

/-- The call an item makes. -/
def FieldItem.call (impl : CrontabFieldImpl) (item : FieldItem) : AccumulateCall :=
  match item.base with
  | .wildcard => ⟨-1, -1, item.step⟩
  | .range first last => ⟨first, last, item.step⟩
  | .value n => if item.step = 1 then ⟨n, n, 1⟩ else ⟨n, impl.maxValue, item.step⟩

namespace CrontabFieldImpl

variable {σ : Type} {comparer : CompareInfo} {impl : CrontabFieldImpl}
  {acc : ℤ → ℤ → ℤ → σ → Except Exn σ}

theorem apply_eq_call (item : FieldItem) (st : σ) :
    item.apply impl acc st = (item.call impl).on acc st := by
  obtain ⟨base, step⟩ := item
  cases base with
  | wildcard => rfl
  | range first last => rfl
  | value n =>
    unfold FieldItem.apply FieldItem.call
    simp only
    split <;> rfl

theorem call_bounds {item : FieldItem} (h : item.base.Nonneg) :
    CrontabField.ParserBounds (item.call impl).start (item.call impl).stop := by
  have hmax : 0 ≤ impl.maxValue := impl.minValue_nonneg.trans impl.minValue_le_maxValue
  obtain ⟨base, step⟩ := item
  cases base with
  | wildcard => exact .inl ⟨rfl, rfl⟩
  | range first last => exact .inr h
  | value n =>
    unfold FieldItem.call
    simp only
    split
    · exact .inr ⟨h, h⟩
    · exact .inr ⟨h, hmax⟩

/-- A token that is accepted is one call, whatever the accumulator is. -/
theorem parseToken_call {token : Text} {st st' : σ}
    (h : parseToken comparer impl acc token st = .ok st') :
    ∃ call : AccumulateCall, CrontabField.ParserBounds call.start call.stop ∧
      call.on acc st = .ok st' ∧
      ∀ noted, parseToken comparer impl noteCall token noted = .ok (noted ++ [call]) := by
  rw [parseToken_eq] at h
  split at h
  · cases h
  · rename_i item hread
    rw [apply_eq_call] at h
    refine ⟨item.call impl, call_bounds (readItem_nonneg hread), h, fun noted => ?_⟩
    rw [parseToken_eq, hread]
    exact apply_eq_call item noted

/-- The tokens of a list are one call each. -/
theorem forEach_calls {tokens : List Text} {st st' : σ}
    (h : forEach (parseToken comparer impl acc) tokens st = .ok st') :
    ∃ calls : List AccumulateCall, calls.length = tokens.length ∧
      (∀ call ∈ calls, CrontabField.ParserBounds call.start call.stop) ∧
      forEach (AccumulateCall.on acc) calls st = .ok st' ∧
      ∀ noted, forEach (parseToken comparer impl noteCall) tokens noted = .ok (noted ++ calls) := by
  induction tokens generalizing st with
  | nil =>
    cases h
    refine ⟨[], rfl, by simp, rfl, fun noted => ?_⟩
    rw [List.append_nil]
    rfl
  | cons token tokens ih =>
    rw [forEach] at h
    split at h
    · cases h
    · rename_i st₁ htoken
      obtain ⟨call, hbounds, hcall, hnote⟩ := parseToken_call htoken
      obtain ⟨calls, hlength, hall, hcalls, hnotes⟩ := ih h
      refine ⟨call :: calls, congrArg (· + 1) hlength, List.forall_mem_cons.2 ⟨hbounds, hall⟩,
        ?_, fun noted => ?_⟩
      · rw [forEach, hcall]
        exact hcalls
      · rw [forEach, hnote]
        simp only [hnotes, List.append_assoc, List.cons_append, List.nil_append]

theorem listItems_ne_nil (str : Text) : listItems str ≠ [] := by
  unfold listItems
  split
  · exact List.splitOn_ne_nil ',' str
  · exact List.cons_ne_nil str []

/-- **The calls of a parse**: an accepted text that is not empty makes at least one call, and does
nothing else. -/
theorem parse_calls {str : Text} {st st' : σ} (hne : str ≠ [])
    (h : parse comparer impl acc (some str) st = .ok st') :
    ∃ calls : List AccumulateCall, calls ≠ [] ∧
      (∀ call ∈ calls, CrontabField.ParserBounds call.start call.stop) ∧
      forEach (AccumulateCall.on acc) calls st = .ok st' ∧
      parse comparer impl noteCall (some str) [] = .ok calls := by
  obtain ⟨c, rest, hcons⟩ := List.exists_cons_of_ne_nil hne
  have hparse : internalParse comparer impl acc str st = .ok st' := by
    rw [hcons] at h ⊢
    unfold parse at h
    simp only at h
    split at h
    · cases h
    · exact h
  rw [internalParse_eq_forEach hne] at hparse
  obtain ⟨calls, hlength, hall, hcalls, hnotes⟩ := forEach_calls hparse
  refine ⟨calls, ?_, hall, hcalls, ?_⟩
  · rintro rfl
    exact listItems_ne_nil str (List.length_eq_zero_iff.1 hlength.symm)
  · have hnote : internalParse comparer impl noteCall str [] = .ok calls := by
      rw [internalParse_eq_forEach hne, hnotes]
      rfl
    rw [hcons] at hnote ⊢
    unfold parse
    simp only [hnote]

end CrontabFieldImpl

namespace CrontabField

/-! ## The indices a call writes -/

/-- The indices of the rounds of the loop of `accumulate`. -/
def loopIndices (i lastIndex interval : ℤ) (hpos : 0 < interval) : List ℤ :=
  if i ≤ lastIndex then i :: loopIndices (i + interval) lastIndex interval hpos else []
termination_by (lastIndex + 1 - i).toNat
decreasing_by omega

/-- The least value of the range a call settles on. -/
def settledStart (impl : CrontabFieldImpl) (call : AccumulateCall) : ℤ :=
  if min call.start call.stop < 0 then impl.minValue else min call.start call.stop

def settledStop (impl : CrontabFieldImpl) (call : AccumulateCall) : ℤ :=
  if max call.start call.stop < 0 then impl.maxValue else max call.start call.stop

/-- The indices a call writes. -/
def written (impl : CrontabFieldImpl) (call : AccumulateCall) : List ℤ :=
  loopIndices (settledStart impl call - impl.minValue) (settledStop impl call - impl.minValue)
    (max call.interval 1) (by omega)

/-- Setting bits one after another. -/
def writeBits (indices : List ℤ) (bits : BitArray) : Except Exn BitArray :=
  forEach (fun i bits => bits.set i true) indices bits

section Writes

variable {impl : CrontabFieldImpl} {bits bits' : BitArray} {indices : List ℤ}

theorem mem_loopIndices_one {i lastIndex x : ℤ} {hpos : 0 < (1 : ℤ)} :
    x ∈ loopIndices i lastIndex 1 hpos ↔ i ≤ x ∧ x ≤ lastIndex := by
  fun_induction loopIndices i lastIndex 1 hpos with
  | case1 i hle ih =>
    rw [List.mem_cons, ih]
    omega
  | case2 i hgt =>
    simp only [List.not_mem_nil, false_iff]
    omega

theorem writeBits_spec (h : writeBits indices bits = .ok bits') :
    bits'.length = bits.length ∧ (∀ i ∈ indices, 0 ≤ i ∧ i < bits.length) ∧
      ∀ x, bits'.get x = .ok true ↔ bits.get x = .ok true ∨ x ∈ indices := by
  unfold writeBits at h
  induction indices generalizing bits with
  | nil =>
    cases h
    simp
  | cons i indices ih =>
    rw [forEach] at h
    split at h
    · cases h
    · rename_i bits₁ hset
      obtain ⟨hi, hlength, hget⟩ := BitArray.set_ok hset
      obtain ⟨hlength', hall, hget'⟩ := ih h
      rw [hlength] at hlength' hall
      refine ⟨hlength', List.forall_mem_cons.2 ⟨hi, hall⟩, fun x => ?_⟩
      rw [hget', hget, List.mem_cons]
      by_cases hx : x = i
      · simp [hx]
      · simp [hx]

theorem writeBits_ok (h : ∀ i ∈ indices, 0 ≤ i ∧ i < bits.length) :
    ∃ bits', writeBits indices bits = .ok bits' := by
  induction indices generalizing bits with
  | nil => exact ⟨bits, rfl⟩
  | cons i indices ih =>
    obtain ⟨hi, hall⟩ := List.forall_mem_cons.1 h
    have hset : bits.set i true = .ok ⟨bits.bits.set i.toNat true⟩ := if_pos hi
    have hlength := (BitArray.set_ok hset).2.1
    rw [← hlength] at hall
    obtain ⟨bits', hbits'⟩ := ih hall
    refine ⟨bits', ?_⟩
    unfold writeBits
    rw [forEach, hset]
    exact hbits'

/-- The loop of `accumulate` writes its indices. -/
theorem setBits_writes {i lastIndex interval j : ℤ} {hpos : 0 < interval}
    (h : setBits bits i lastIndex interval hpos = .ok (bits', j)) :
    writeBits (loopIndices i lastIndex interval hpos) bits = .ok bits' := by
  fun_induction setBits bits i lastIndex interval hpos with
  | case1 => cases h
  | case2 => cases h
  | case3 bits i hle bits₁ hset hwrap ih =>
    rw [loopIndices, if_pos hle, writeBits, forEach, hset]
    exact ih h
  | case4 bits i hgt =>
    cases h
    rw [loopIndices, if_neg hgt]
    rfl

theorem populate_writes {f f' : CrontabField} {start stop interval : ℤ}
    (h : f.populate start stop interval = .ok f') :
    writeBits (loopIndices (start - f.impl.minValue) (stop - f.impl.minValue) (max interval 1)
      (lt_max_of_lt_right one_pos)) f.bits = .ok f'.bits := by
  unfold populate at h
  simp only at h
  split at h
  · cases h
  · rename_i bits i hbits
    cases h
    exact setBits_writes hbits

/-- The wildcard sets every bit of the table. -/
theorem setAll_writes (hlength : bits.length = impl.valueCount) :
    writeBits (loopIndices 0 (impl.maxValue - impl.minValue) 1 one_pos) bits =
      .ok (bits.setAll true) := by
  unfold CrontabFieldImpl.valueCount at hlength
  have hrange : ∀ i ∈ loopIndices 0 (impl.maxValue - impl.minValue) 1 one_pos,
      0 ≤ i ∧ i < bits.length := by
    intro i hi
    have := mem_loopIndices_one.1 hi
    omega
  obtain ⟨bits', hbits'⟩ := writeBits_ok hrange
  obtain ⟨hlength', -, hget⟩ := writeBits_spec hbits'
  have heq : bits' = bits.setAll true := by
    apply BitArray.ext_get
    · rw [hlength', BitArray.length_setAll]
    · intro x
      rw [hget, mem_loopIndices_one]
      constructor
      · rintro (hx | hx)
        · have hr := BitArray.get_inRange hx
          exact BitArray.get_setAll hr.1 hr.2
        · exact BitArray.get_setAll hx.1 (by omega)
      · intro hx
        have hr := BitArray.get_inRange hx
        rw [BitArray.length_setAll] at hr
        exact .inr ⟨hr.1, by omega⟩
  rw [hbits', heq]

end Writes

/-- **A call that returns writes its indices** and nothing else. -/
theorem accumulate_writes {f f' : CrontabField} {call : AccumulateCall} (hf : f.InStep)
    (h : call.on accumulator f = .ok f') :
    writeBits (written f.impl call) f.bits = .ok f'.bits := by
  obtain ⟨start, stop, interval⟩ := call
  have hle := f.impl.minValue_le_maxValue
  have hmin := f.impl.minValue_nonneg
  unfold AccumulateCall.on accumulator accumulate at h
  simp only at h
  unfold written settledStart settledStop
  simp only
  split at h
  · rename_i heq
    subst heq
    simp only [min_self, max_self]
    split at h
    · rename_i hneg
      simp only [if_pos hneg]
      split at h
      · rename_i hint
        cases h
        simp only [sub_self, max_eq_right hint]
        exact setAll_writes hf.length
      · exact populate_writes h
    · rename_i hneg
      simp only [if_neg hneg]
      split_ifs at h
      exact populate_writes h
  · -- the range is settled as the source settles it
    split at h
    · cases h
    · split at h
      · cases h
      · exact populate_writes h

/-! ## What the calls establish -/

/-- The field after calls that wrote the indices `touched`: these lie in the table and are its set
bits, the cached bounds are their least and greatest, and the field is read correctly. -/
structure Represents (impl : CrontabFieldImpl) (touched : List ℤ) (f : CrontabField) : Prop where
  impl_eq : f.impl = impl
  bits_eq : writeBits touched (blank impl).bits = .ok f.bits
  inTable : ∀ i ∈ touched, 0 ≤ i ∧ i < impl.valueCount
  mem_iff : ∀ v, v ∈ f.values ↔ v - impl.minValue ∈ touched
  least : IsLeast f.values f.minValueSet
  greatest : IsGreatest f.values f.maxValueSet
  minValue_le : impl.minValue ≤ f.minValueSet
  le_maxValue : f.maxValueSet ≤ impl.maxValue
  first : IsLeast f.values f.getFirst
  next : ∀ start, ∃ v, f.next start = .ok v ∧
    (IsLeast {x | x ∈ f.values ∧ start ≤ x} v ∨ v = -1 ∧ ∀ x ∈ f.values, x < start)

variable {impl : CrontabFieldImpl} {touched : List ℤ} {f f' : CrontabField}

/-- The field between two calls, the first one included. -/
structure Reached (impl : CrontabFieldImpl) (touched : List ℤ) (f : CrontabField) : Prop where
  impl_eq : f.impl = impl
  inStep : f.InStep
  bits_eq : writeBits touched (blank impl).bits = .ok f.bits

theorem reached_blank (impl : CrontabFieldImpl) : Reached impl [] (blank impl) :=
  ⟨rfl, blank_inStep impl, rfl⟩

theorem writeBits_append {indices indices' : List ℤ} {bits bits' : BitArray}
    (h : writeBits indices bits = .ok bits') :
    writeBits (indices ++ indices') bits = writeBits indices' bits' := by
  unfold writeBits at h ⊢
  induction indices generalizing bits with
  | nil =>
    cases h
    rfl
  | cons i indices ih =>
    rw [forEach] at h
    rw [List.cons_append, forEach]
    split at h
    · cases h
    · exact ih h

/-- **One call keeps the field in step** and adds its indices. -/
theorem Reached.accumulate {call : AccumulateCall} (hf : Reached impl touched f)
    (hbounds : ParserBounds call.start call.stop) (h : call.on accumulator f = .ok f') :
    Reached impl (touched ++ written impl call) f' ∧ f'.Populated := by
  obtain ⟨himpl, hpopulated⟩ := accumulate_spec hf.inStep hbounds h
  have hwrites := accumulate_writes hf.inStep h
  rw [hf.impl_eq] at himpl hwrites
  exact ⟨⟨himpl, hpopulated.inStep, (writeBits_append hf.bits_eq).trans hwrites⟩, hpopulated⟩

theorem Reached.represents (hf : Reached impl touched f) (hpopulated : f.Populated) :
    Represents impl touched f := by
  obtain ⟨himpl, -, hbits⟩ := hf
  obtain ⟨-, hrange, hget⟩ := writeBits_spec hbits
  rw [blank_length] at hrange
  refine ⟨himpl, hbits, hrange, fun v => ?_, hpopulated.least, hpopulated.greatest, ?_, ?_,
    getFirst_spec hpopulated, fun start => ?_⟩
  · have hblank : ¬ v ∈ (blank impl).values := by
      rw [blank_values]
      exact Set.notMem_empty v
    rw [mem_values, himpl, hget]
    exact or_iff_right hblank
  · exact himpl ▸ (range_of_mem hpopulated.length hpopulated.least.1).1
  · exact himpl ▸ (range_of_mem hpopulated.length hpopulated.greatest.1).2
  · obtain ⟨v, hv, hfrom⟩ := next_spec hpopulated start
    refine ⟨v, hv, ?_⟩
    unfold ofNil at hfrom
    split at hfrom
    · rename_i hnil
      exact .inr ⟨hnil, hfrom⟩
    · exact .inl hfrom

theorem reached_calls {calls : List AccumulateCall}
    (hbounds : ∀ call ∈ calls, ParserBounds call.start call.stop) (hf : Reached impl touched f)
    (h : forEach (AccumulateCall.on accumulator) calls f = .ok f') :
    Reached impl (touched ++ calls.flatMap (written impl)) f' ∧ (calls ≠ [] → f'.Populated) := by
  induction calls generalizing touched f with
  | nil =>
    cases h
    rw [List.flatMap_nil, List.append_nil]
    exact ⟨hf, fun hne => absurd rfl hne⟩
  | cons call calls ih =>
    obtain ⟨hcall, hrest⟩ := List.forall_mem_cons.1 hbounds
    rw [forEach] at h
    split at h
    · cases h
    · rename_i f₁ hfirst
      obtain ⟨hf₁, hpopulated⟩ := hf.accumulate hcall hfirst
      obtain ⟨hf', hne⟩ := ih hrest hf₁ h
      rw [List.flatMap_cons, ← List.append_assoc]
      refine ⟨hf', fun _ => ?_⟩
      cases calls with
      | nil =>
        cases h
        exact hpopulated
      | cons next calls => exact hne (List.cons_ne_nil next calls)

/-- **Any sequence of calls** with bounds as the parser passes them. -/
theorem represents_calls {calls : List AccumulateCall} (hne : calls ≠ [])
    (hbounds : ∀ call ∈ calls, ParserBounds call.start call.stop)
    (h : forEach (AccumulateCall.on accumulator) calls (blank impl) = .ok f) :
    Represents impl (calls.flatMap (written impl)) f := by
  obtain ⟨hf, hpopulated⟩ := reached_calls hbounds (reached_blank impl) h
  exact hf.represents (hpopulated hne)

theorem forEach_prefix {β σ : Type} {body : β → σ → Except Exn σ} {done rest : List β} {st st' : σ}
    (h : forEach body (done ++ rest) st = .ok st') : ∃ st₁, forEach body done st = .ok st₁ := by
  induction done generalizing st with
  | nil => exact ⟨st, rfl⟩
  | cons x done ih =>
    rw [List.cons_append, forEach] at h
    rw [forEach]
    split at h
    · cases h
    · exact ih h

/-- **The representation of a field built from an accepted expression**: after each of the parser's
calls the cached bounds are those of the bits that are set, no other index has been written, and
`GetFirst` and `Next` read the field correctly. -/
theorem parse_represents {comparer : CompareInfo} {kind : CrontabFieldKind} {expression : Text}
    (hne : expression ≠ []) (h : parse comparer kind (some expression) = .ok f) :
    ∃ calls, (CrontabFieldImpl.fromKind kind).parse comparer noteCall (some expression) [] =
        .ok calls ∧
      calls ≠ [] ∧
      forEach (AccumulateCall.on accumulator) calls (blank (CrontabFieldImpl.fromKind kind)) =
        .ok f ∧
      ∀ done rest, calls = done ++ rest → done ≠ [] →
        ∃ g, forEach (AccumulateCall.on accumulator) done
            (blank (CrontabFieldImpl.fromKind kind)) = .ok g ∧
          Represents (CrontabFieldImpl.fromKind kind)
            (done.flatMap (written (CrontabFieldImpl.fromKind kind))) g := by
  obtain ⟨calls, hcalls, hbounds, hrun, hnoted⟩ := CrontabFieldImpl.parse_calls hne h
  refine ⟨calls, hnoted, hcalls, hrun, ?_⟩
  rintro done rest rfl hdone
  obtain ⟨g, hg⟩ := forEach_prefix hrun
  exact ⟨g, hg, represents_calls hdone
    (fun call hmem => hbounds call (List.mem_append_left rest hmem)) hg⟩

/-- Two items, the second inside the first; the schedule asks for the minute after the last one. -/
theorem parse_represents_minutes : ∃ f touched,
    parse .ascii .minute (some "5/20,10-12".toList) = .ok f ∧
      Represents (CrontabFieldImpl.fromKind .minute) touched f ∧ f.getFirst = 5 ∧
      f.next (-3) = .ok 5 ∧ f.next 12 = .ok 12 ∧ f.next 60 = .ok (-1) := by
  obtain ⟨f, hf, hreads⟩ := exists_of_okAnd
    (show okAnd (parse .ascii .minute (some "5/20,10-12".toList)) (fun f =>
      decide (f.getFirst = 5 ∧ f.next (-3) = .ok 5 ∧ f.next 12 = .ok 12 ∧
        f.next 60 = .ok (-1))) = true by decide +kernel)
  obtain ⟨calls, -, hne, hrun, hall⟩ := parse_represents (List.cons_ne_nil _ _) hf
  obtain ⟨g, hg, hrepresents⟩ := hall calls [] (List.append_nil calls).symm hne
  cases hrun.symm.trans hg
  exact ⟨f, _, hf, hrepresents, of_decide_eq_true hreads⟩

end CrontabField

end Sentinel
