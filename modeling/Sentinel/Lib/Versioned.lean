import Mathlib

/-!
# Stores of versioned objects

Every write of an object gives it a version that no object has had before, and every object that is
created gets an identity of its own.  A client that remembers the version of what it has read can
tell later whether the object is still as it was.

* `Later` — what a store can become: an object with an old version has not been touched.
* `Later.eq_of_version` — an object with the version that was read is the object that was read.
* `later_create`, `later_update`, `later_erase` — the operations.
-/

set_option autoImplicit false

namespace Versioned

structure Stored (V : Type) where
  uid : ℕ
  version : ℕ
  value : V
  deriving DecidableEq

/-- The objects, and the first number that has not been used yet. -/
structure Store (K V : Type) where
  objects : K → Option (Stored V)
  next : ℕ
  uid_lt : ∀ k o, objects k = some o → o.uid < next
  version_lt : ∀ k o, objects k = some o → o.version < next

variable {K V : Type}

namespace Store

def empty : Store K V := ⟨fun _ => none, 0, by simp, by simp⟩

variable {s s' s'' : Store K V} {k k' : K} {o o' : Stored V} {value : V}

/-! ## What a store can become -/

/-- The numbers below `next` have been used: an object that has one of them for its version has been
there, as it is. -/
structure Later (s s' : Store K V) : Prop where
  next_le : s.next ≤ s'.next
  untouched : ∀ k o, s'.objects k = some o → o.version < s.next → s.objects k = some o

theorem Later.refl (s : Store K V) : Later s s := ⟨Nat.le_refl _, fun _ _ h _ => h⟩

theorem Later.trans (h : Later s s') (h' : Later s' s'') : Later s s'' := by
  refine ⟨Nat.le_trans h.next_le h'.next_le, fun k o ho hversion => ?_⟩
  apply h.untouched k o ?_ hversion
  apply h'.untouched k o ho
  exact Nat.lt_of_lt_of_le hversion h.next_le

/-- **An object with the version that was read is the object that was read.** -/
theorem Later.eq_of_version (h : Later s s') (ho : s.objects k = some o)
    (ho' : s'.objects k = some o') (hversion : o'.version = o.version) : o' = o := by
  have hlt : o'.version < s.next := by
    rw [hversion]
    exact s.version_lt k o ho
  exact Option.some.inj ((h.untouched k o' ho' hlt).symm.trans ho)

/-! ## The operations -/

variable [DecidableEq K]

/-- A write gives the object a new version. -/
def write (s : Store K V) (k : K) (uid : ℕ) (huid : uid ≤ s.next) (value : V) : Store K V where
  objects := Function.update s.objects k (some ⟨uid, s.next, value⟩)
  next := s.next + 1
  uid_lt := by
    intro k' o h
    by_cases hk : k' = k
    · subst hk
      simp only [Function.update_self, Option.some.injEq] at h
      subst h
      exact Nat.lt_succ_of_le huid
    · rw [Function.update_of_ne hk] at h
      exact Nat.lt_succ_of_lt (s.uid_lt k' o h)
  version_lt := by
    intro k' o h
    by_cases hk : k' = k
    · subst hk
      simp only [Function.update_self, Option.some.injEq] at h
      subst h
      exact Nat.lt_succ_self _
    · rw [Function.update_of_ne hk] at h
      exact Nat.lt_succ_of_lt (s.version_lt k' o h)

/-- A new object. -/
def create (s : Store K V) (k : K) (value : V) : Store K V :=
  s.write k s.next (Nat.le_refl _) value

/-- A write of an object that is there, which keeps its identity; one that changes nothing is no
write. -/
def update [DecidableEq V] (s : Store K V) (k : K) (value : V) : Store K V :=
  match h : s.objects k with
  | none => s
  | some o =>
    if o.value = value then s
    else s.write k o.uid (Nat.le_of_lt (s.uid_lt k o h)) value

def erase (s : Store K V) (k : K) : Store K V where
  objects := Function.update s.objects k none
  next := s.next
  uid_lt := by
    intro k' o h
    by_cases hk : k' = k
    · subst hk
      simp at h
    · rw [Function.update_of_ne hk] at h
      exact s.uid_lt k' o h
  version_lt := by
    intro k' o h
    by_cases hk : k' = k
    · subst hk
      simp at h
    · rw [Function.update_of_ne hk] at h
      exact s.version_lt k' o h

@[simp] theorem objects_write_self {uid : ℕ} {huid : uid ≤ s.next} :
    (s.write k uid huid value).objects k = some ⟨uid, s.next, value⟩ :=
  Function.update_self _ _ _

theorem objects_write_ne {uid : ℕ} {huid : uid ≤ s.next} (h : k' ≠ k) :
    (s.write k uid huid value).objects k' = s.objects k' :=
  Function.update_of_ne h _ _

@[simp] theorem objects_create_self :
    (s.create k value).objects k = some ⟨s.next, s.next, value⟩ :=
  objects_write_self

theorem objects_create_ne (h : k' ≠ k) : (s.create k value).objects k' = s.objects k' :=
  objects_write_ne h

@[simp] theorem objects_erase_self : (s.erase k).objects k = none := Function.update_self _ _ _

theorem objects_erase_ne (h : k' ≠ k) : (s.erase k).objects k' = s.objects k' :=
  Function.update_of_ne h _ _

theorem later_write (s : Store K V) (k : K) (uid : ℕ) (huid : uid ≤ s.next) (value : V) :
    Later s (s.write k uid huid value) := by
  refine ⟨Nat.le_succ _, fun k' o h hversion => ?_⟩
  by_cases hk : k' = k
  · subst hk
    simp only [objects_write_self, Option.some.injEq] at h
    subst h
    exact absurd hversion (Nat.lt_irrefl _)
  · rwa [objects_write_ne hk] at h

theorem later_create (s : Store K V) (k : K) (value : V) : Later s (s.create k value) :=
  later_write s k s.next _ value

theorem later_erase (s : Store K V) (k : K) : Later s (s.erase k) := by
  refine ⟨Nat.le_refl _, fun k' o h _ => ?_⟩
  by_cases hk : k' = k
  · subst hk
    simp at h
  · rwa [objects_erase_ne hk] at h

/-! ## Updates -/

section Update

variable [DecidableEq V]

theorem update_cases (s : Store K V) (k : K) (value : V) :
    s.update k value = s ∨ ∃ o huid, s.objects k = some o ∧
      s.update k value = s.write k o.uid huid value := by
  unfold update
  split
  · exact Or.inl rfl
  · rename_i o ho
    by_cases hvalue : o.value = value
    · exact Or.inl (if_pos hvalue)
    · exact Or.inr ⟨o, Nat.le_of_lt (s.uid_lt k o ho), ho, if_neg hvalue⟩

/-- What an update leaves of the object. -/
theorem objects_update_self (h : s.objects k = some o) :
    ∃ o', (s.update k value).objects k = some o' ∧ o'.uid = o.uid ∧ o'.value = value := by
  unfold update
  split
  · rename_i ho
    rw [h] at ho
    cases ho
  · rename_i o' ho'
    cases h.symm.trans ho'
    by_cases hvalue : o.value = value
    · exact ⟨o, by rw [if_pos hvalue, h], rfl, hvalue⟩
    · exact ⟨⟨o.uid, s.next, value⟩, by rw [if_neg hvalue, objects_write_self], rfl, rfl⟩

theorem objects_update_ne (hk : k' ≠ k) : (s.update k value).objects k' = s.objects k' := by
  obtain hsame | ⟨o, huid, -, hwrite⟩ := update_cases s k value
  · rw [hsame]
  · rw [hwrite, objects_write_ne hk]

theorem later_update (s : Store K V) (k : K) (value : V) : Later s (s.update k value) := by
  obtain hsame | ⟨o, huid, -, hwrite⟩ := update_cases s k value
  · rw [hsame]
    exact .refl s
  · rw [hwrite]
    exact later_write s k o.uid huid value

end Update

end Store

end Versioned
