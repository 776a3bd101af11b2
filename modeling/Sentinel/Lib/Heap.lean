import Mathlib

/-!
# Objects with identity

A heap gives every object a reference; references are handed out in order and never reused.  A
list of references is read as the list of the values behind them.

* `Heap.Evolves` — every object of the first heap is still there in the second, with a value
  related to its old one.
* `Heap.readAll_write`, `Heap.readAll_replace`, `Heap.readAll_filter` — changing one object,
  putting another object in its place and dropping objects, as operations on the list of values.
-/

set_option autoImplicit false

abbrev Ref := ℕ

structure Heap (α : Type) where
  cells : List α

namespace Heap

variable {α : Type} (h : Heap α)

def empty : Heap α := ⟨[]⟩

/-- The reference the next object gets. -/
def next : ℕ := h.cells.length

def read (r : Ref) : Option α := h.cells[r]?

def alloc (v : α) : Heap α := ⟨h.cells ++ [v]⟩

def write (r : Ref) (v : α) : Heap α := ⟨h.cells.set r v⟩

/-- Changes the object in place. -/
def update (r : Ref) (f : α → α) : Heap α := ⟨h.cells.modify r f⟩

/-- The values behind a list of references. -/
def readAll (rs : List Ref) : List α := rs.filterMap h.read

variable {h} {r r' : Ref} {v : α}

theorem lt_next_of_read (hr : h.read r = some v) : r < h.next :=
  (List.getElem?_eq_some_iff.1 hr).1

@[simp] theorem read_alloc_next : (h.alloc v).read h.next = some v := by
  simp [read, alloc, next]

theorem read_alloc_of_lt (hr : r < h.next) : (h.alloc v).read r = h.read r := by
  unfold read alloc
  exact List.getElem?_append_left hr

theorem read_write : (h.write r v).read r' = if r = r' then (h.read r').map fun _ => v
    else h.read r' := by
  unfold read write
  by_cases hrr : r = r'
  · subst hrr
    rw [if_pos rfl, List.getElem?_set_self']
    rfl
  · rw [if_neg hrr, List.getElem?_set_ne hrr]

theorem read_update {f : α → α} : (h.update r f).read r' = if r = r' then (h.read r').map f
    else h.read r' := by
  unfold read update
  by_cases hrr : r = r'
  · subst hrr
    rw [if_pos rfl, List.getElem?_modify_eq]
    rfl
  · rw [if_neg hrr, List.getElem?_modify_ne f h.cells hrr]

@[simp] theorem next_update {f : α → α} : (h.update r f).next = h.next := by
  simp [next, update]

@[simp] theorem next_alloc : (h.alloc v).next = h.next + 1 := by
  simp [next, alloc]

/-! ## What happens to old objects -/

/-- Every object is kept, with a value related to its old one. -/
def Evolves (R : α → α → Prop) (h h' : Heap α) : Prop :=
  ∀ r v, h.read r = some v → ∃ v', h'.read r = some v' ∧ R v v'

theorem Evolves.refl {R : α → α → Prop} (hR : ∀ v, R v v) (h : Heap α) : Evolves R h h :=
  fun _ v hv => ⟨v, hv, hR v⟩

theorem Evolves.trans {R : α → α → Prop} (hR : ∀ a b c, R a b → R b c → R a c)
    {h₁ h₂ h₃ : Heap α} (h12 : Evolves R h₁ h₂) (h23 : Evolves R h₂ h₃) : Evolves R h₁ h₃ := by
  intro r v hv
  obtain ⟨v₂, hv₂, hR₂⟩ := h12 r v hv
  obtain ⟨v₃, hv₃, hR₃⟩ := h23 r v₂ hv₂
  exact ⟨v₃, hv₃, hR _ _ _ hR₂ hR₃⟩

theorem Evolves.alloc {R : α → α → Prop} (hR : ∀ v, R v v) (h : Heap α) (v : α) :
    Evolves R h (h.alloc v) :=
  fun r w hw => ⟨w, by rw [read_alloc_of_lt (lt_next_of_read hw)]; exact hw, hR w⟩

theorem Evolves.write {R : α → α → Prop} (hR : ∀ v, R v v) {v' : α} (hr : h.read r = some v)
    (hv : R v v') : Evolves R h (h.write r v') := by
  intro r' w hw
  rw [read_write]
  by_cases hrr : r = r'
  · subst hrr
    rw [hr] at hw
    cases hw
    exact ⟨v', by simp [hr], hv⟩
  · exact ⟨w, by rw [if_neg hrr]; exact hw, hR w⟩

theorem Evolves.next_le {R : α → α → Prop} {h' : Heap α} (he : Evolves R h h') :
    h.next ≤ h'.next := by
  apply Nat.le_of_not_lt
  intro hlt
  obtain ⟨v, hv, -⟩ := he h'.next _ (List.getElem?_eq_getElem hlt)
  exact absurd (lt_next_of_read hv) (lt_irrefl _)

/-! ## Lists of references -/

section ReadAll

variable {rs : List Ref}

/-- Every reference of the list has an object. -/
def AllocatedIn (h : Heap α) (rs : List Ref) : Prop := ∀ r ∈ rs, ∃ v, h.read r = some v

theorem mem_readAll : v ∈ h.readAll rs ↔ ∃ r ∈ rs, h.read r = some v := by
  simp [readAll, List.mem_filterMap]

@[simp] theorem readAll_nil : h.readAll [] = [] := rfl

theorem readAll_append (rs rs' : List Ref) :
    h.readAll (rs ++ rs') = h.readAll rs ++ h.readAll rs' :=
  List.filterMap_append

theorem readAll_congr {h' : Heap α} (heq : ∀ r ∈ rs, h'.read r = h.read r) :
    h'.readAll rs = h.readAll rs :=
  List.filterMap_congr heq

theorem readAll_alloc (hrs : h.AllocatedIn rs) : (h.alloc v).readAll rs = h.readAll rs := by
  apply readAll_congr
  intro r hr
  obtain ⟨_, hv⟩ := hrs r hr
  exact read_alloc_of_lt (lt_next_of_read hv)

/-- Lists of references that are read element by element. -/
theorem readAll_cons {rs : List Ref} (hv : h.read r = some v) :
    h.readAll (r :: rs) = v :: h.readAll rs := by
  simp [readAll, hv]

/-- Writing to the one object of the list that `p` holds of. -/
theorem readAll_write {p : α → Prop} [DecidablePred p] (f : α → α) (hrs : h.AllocatedIn rs)
    (hr : h.read r = some v) (hp : ∀ r' ∈ rs, ∀ w, h.read r' = some w → (p w ↔ r' = r)) :
    (h.write r (f v)).readAll rs = (h.readAll rs).map fun w => if p w then f w else w := by
  induction rs with
  | nil => rfl
  | cons r' rs ih =>
    obtain ⟨w, hw⟩ := hrs r' List.mem_cons_self
    have hpw := hp r' List.mem_cons_self w hw
    have htail := ih (fun x hx => hrs x (List.mem_cons_of_mem _ hx))
      fun x hx => hp x (List.mem_cons_of_mem _ hx)
    rw [readAll_cons hw, List.map_cons, ← htail]
    by_cases hrr : r' = r
    · subst hrr
      rw [hr] at hw
      cases hw
      rw [if_pos (hpw.2 rfl), readAll_cons]
      rw [read_write, if_pos rfl, hr]
      rfl
    · rw [if_neg (mt hpw.1 hrr), readAll_cons]
      rw [read_write, if_neg (Ne.symm hrr), hw]

/-- Putting a new object in the place of the one that `p` holds of. -/
theorem readAll_replace {p : α → Prop} [DecidablePred p] (hrs : h.AllocatedIn rs)
    (hnodup : rs.Nodup) {i : ℕ} (hi : rs[i]? = some r)
    (hp : ∀ r' ∈ rs, ∀ w, h.read r' = some w → (p w ↔ r' = r)) :
    (h.alloc v).readAll (rs.set i h.next) = (h.readAll rs).map fun w => if p w then v else w := by
  induction rs generalizing i with
  | nil => simp at hi
  | cons r' rs ih =>
    obtain ⟨w, hw⟩ := hrs r' List.mem_cons_self
    have hpw := hp r' List.mem_cons_self w hw
    have hrs' : h.AllocatedIn rs := fun x hx => hrs x (List.mem_cons_of_mem _ hx)
    obtain ⟨hnot, hnodup⟩ := List.nodup_cons.1 hnodup
    rw [readAll_cons hw, List.map_cons]
    cases i with
    | zero =>
      obtain rfl : r' = r := by simpa using hi
      rw [List.set_cons_zero, readAll_cons read_alloc_next, if_pos (hpw.2 rfl), readAll_alloc hrs']
      -- the other objects are not the one replaced
      rw [List.cons_inj_right]
      conv_lhs => rw [← List.map_id (h.readAll rs)]
      apply List.map_congr_left
      intro u hu
      obtain ⟨x, hx, hu⟩ := mem_readAll.1 hu
      rw [if_neg fun hpu => hnot ((hp x (List.mem_cons_of_mem _ hx) u hu).1 hpu ▸ hx)]
      rfl
    | succ i =>
      have hi' : rs[i]? = some r := by simpa using hi
      have hne : r' ≠ r := by
        rintro rfl
        exact hnot (List.mem_of_getElem? hi')
      rw [List.set_cons_succ, readAll_cons (v := w), if_neg (mt hpw.1 hne),
        ih hrs' hnodup hi' fun x hx => hp x (List.mem_cons_of_mem _ hx)]
      rw [read_alloc_of_lt (lt_next_of_read hw)]
      exact hw

/-- Putting a new object in a place of the list. -/
theorem readAll_set_alloc (hrs : h.AllocatedIn rs) (i : ℕ) :
    (h.alloc v).readAll (rs.set i h.next) = (h.readAll rs).set i v := by
  induction rs generalizing i with
  | nil => rfl
  | cons r rs ih =>
    obtain ⟨w, hw⟩ := hrs r List.mem_cons_self
    have hrs' : h.AllocatedIn rs := fun x hx => hrs x (List.mem_cons_of_mem _ hx)
    rw [readAll_cons hw]
    cases i with
    | zero =>
      rw [List.set_cons_zero, List.set_cons_zero, readAll_cons read_alloc_next, readAll_alloc hrs']
    | succ i =>
      rw [List.set_cons_succ, List.set_cons_succ, ← ih hrs' i]
      exact readAll_cons ((read_alloc_of_lt (lt_next_of_read hw)).trans hw)

/-- The values stand where their references do. -/
theorem getElem?_readAll (hrs : h.AllocatedIn rs) (i : ℕ) :
    (h.readAll rs)[i]? = rs[i]?.bind h.read := by
  induction rs generalizing i with
  | nil => simp
  | cons r rs ih =>
    obtain ⟨w, hw⟩ := hrs r List.mem_cons_self
    rw [readAll_cons hw]
    cases i with
    | zero => simp [hw]
    | succ i => simpa using ih (fun x hx => hrs x (List.mem_cons_of_mem _ hx)) i

/-- Dropping the references whose objects fail `p`. -/
theorem readAll_filter {p : α → Bool} {q : Ref → Bool} (hrs : h.AllocatedIn rs)
    (hq : ∀ r ∈ rs, ∀ w, h.read r = some w → q r = p w) :
    h.readAll (rs.filter q) = (h.readAll rs).filter p := by
  induction rs with
  | nil => rfl
  | cons r rs ih =>
    obtain ⟨w, hw⟩ := hrs r List.mem_cons_self
    have hqr := hq r List.mem_cons_self w hw
    have htail := ih (fun x hx => hrs x (List.mem_cons_of_mem _ hx))
      fun x hx => hq x (List.mem_cons_of_mem _ hx)
    rw [readAll_cons hw]
    cases hp : p w with
    | true => rw [List.filter_cons_of_pos (hqr.trans hp), readAll_cons hw, htail,
        List.filter_cons_of_pos hp]
    | false => rw [List.filter_cons_of_neg (by simp [hqr, hp]), htail,
        List.filter_cons_of_neg (by simp [hp])]

/-- What is read of the objects one by one is read of the list. -/
theorem readAll_map_congr {β : Type} {f : α → β} {h' : Heap α}
    (heq : ∀ r ∈ rs, (h'.read r).map f = (h.read r).map f) :
    (h'.readAll rs).map f = (h.readAll rs).map f := by
  rw [readAll, readAll, List.map_filterMap, List.map_filterMap]
  exact List.filterMap_congr heq

/-- Objects of the list with the same key are the same object, if the keys of the values are
distinct. -/
theorem eq_of_key_eq {β : Type} {key : α → β} (hnodup : ((h.readAll rs).map key).Nodup)
    (hr : r ∈ rs) (hr' : r' ∈ rs) {w : α} (hv : h.read r = some v) (hw : h.read r' = some w)
    (hkey : key v = key w) : r = r' := by
  rw [readAll, List.map_filterMap, List.Nodup, List.pairwise_filterMap] at hnodup
  by_contra hne
  have : Std.Symm fun r r' =>
      ∀ b, (h.read r).map key = some b → ∀ b', (h.read r').map key = some b' → b ≠ b' :=
    ⟨fun _ _ hxy b hb b' hb' heq => hxy b' hb' b hb heq.symm⟩
  exact hnodup.forall hr hr' hne (key v) (by rw [hv]; rfl) (key w) (by rw [hw]; rfl) hkey

theorem nodup_of_keys {β : Type} {key : α → β} (hrs : h.AllocatedIn rs)
    (hnodup : ((h.readAll rs).map key).Nodup) : rs.Nodup := by
  rw [readAll, List.map_filterMap, List.Nodup, List.pairwise_filterMap] at hnodup
  refine hnodup.imp_of_mem fun {r r'} hr _ hdiff hrr => ?_
  obtain ⟨v, hv⟩ := hrs r hr
  subst hrr
  exact hdiff (key v) (by simp [hv]) (key v) (by simp [hv]) rfl

end ReadAll

/-! ## What holds of every cell -/

/-- Every cell satisfies `P`. -/
def Forall (P : α → Prop) (h : Heap α) : Prop := ∀ r v, h.read r = some v → P v

theorem Forall.alloc {P : α → Prop} (h' : h.Forall P) (hv : P v) : (h.alloc v).Forall P := by
  intro r w hw
  have hlt := lt_next_of_read hw
  rw [next_alloc] at hlt
  rcases Nat.lt_succ_iff_lt_or_eq.1 hlt with hold | rfl
  · rw [read_alloc_of_lt hold] at hw
    exact h' r w hw
  · rw [read_alloc_next] at hw
    cases hw
    exact hv

theorem Forall.write {P : α → Prop} (h' : h.Forall P) (hv : P v) : (h.write r v).Forall P := by
  intro r' w hw
  rw [read_write] at hw
  split at hw
  · obtain ⟨-, -, rfl⟩ := Option.map_eq_some_iff.1 hw
    exact hv
  · exact h' r' w hw

end Heap
