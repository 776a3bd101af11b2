import Mathlib

/-!
# A text for every finite map

The entries of a map, sorted by key, rendered and joined by a separator.

* `sortByKey_eq_iff` — sorting by distinct keys forgets the order of enumeration, and nothing else.
* `intercalate_inj` — fields that are not empty and do not hold the separator can be read back.
* `encode_eq_iff` — two maps have the same text iff they have the same entries.
-/

set_option autoImplicit false

namespace CanonicalText

/-! ## Sorting by key -/

section Sorting

variable {K V : Type} {le : K → K → Bool} {keys : Set K} {entries entries' : List (K × V)}

/-- A total order on some keys. -/
structure TotalOn (le : K → K → Bool) (keys : Set K) : Prop where
  trans : ∀ a ∈ keys, ∀ b ∈ keys, ∀ c ∈ keys, le a b = true → le b c = true → le a c = true
  total : ∀ a ∈ keys, ∀ b ∈ keys, le a b = true ∨ le b a = true
  antisymm : ∀ a ∈ keys, ∀ b ∈ keys, le a b = true → le b a = true → a = b

def sortByKey (le : K → K → Bool) (entries : List (K × V)) : List (K × V) :=
  entries.mergeSort fun p q => le p.1 q.1

theorem sortByKey_perm (le : K → K → Bool) (entries : List (K × V)) :
    (sortByKey le entries).Perm entries :=
  List.mergeSort_perm entries _

theorem mem_sortByKey {p : K × V} : p ∈ sortByKey le entries ↔ p ∈ entries :=
  (sortByKey_perm le entries).mem_iff

theorem sortByKey_pairwise (hle : TotalOn le keys) (hkeys : ∀ p ∈ entries, p.1 ∈ keys) :
    (sortByKey le entries).Pairwise fun p q => le p.1 q.1 = true := by
  -- the entries as elements of the type on which the order is total
  have hmap := List.map_mergeSort (l := entries.attachWith (fun p => p.1 ∈ keys) hkeys)
    (r := fun p q => le p.1.1 q.1.1) (s := fun p q => le p.1 q.1) (f := Subtype.val)
    fun _ _ _ _ => rfl
  rw [List.attachWith_map_subtype_val] at hmap
  unfold sortByKey
  rw [← hmap, List.pairwise_map]
  apply List.pairwise_mergeSort
  · exact fun a b c => hle.trans _ a.2 _ b.2 _ c.2
  · intro a b
    rw [Bool.or_eq_true]
    exact hle.total _ a.2 _ b.2

/-- **Sorting by distinct keys** forgets the order of the entries, and nothing else. -/
theorem sortByKey_eq_iff (hle : TotalOn le keys) (hkeys : ∀ p ∈ entries, p.1 ∈ keys)
    (hkeys' : ∀ p ∈ entries', p.1 ∈ keys) (hnodup : (entries.map Prod.fst).Nodup) :
    sortByKey le entries = sortByKey le entries' ↔ entries.Perm entries' := by
  constructor
  · intro heq
    exact (sortByKey_perm le entries).symm.trans (heq ▸ sortByKey_perm le entries')
  · intro hperm
    apply @List.Perm.eq_of_pairwise _ fun p q => le p.1 q.1 = true
    · intro p q hp hq hpq hqp
      rw [mem_sortByKey] at hp hq
      have hkey := hle.antisymm _ (hkeys p hp) _ (hkeys' q hq) hpq hqp
      exact List.inj_on_of_nodup_map hnodup hp (hperm.mem_iff.2 hq) hkey
    · exact sortByKey_pairwise hle hkeys
    · exact sortByKey_pairwise hle hkeys'
    · exact (sortByKey_perm le entries).trans (hperm.trans (sortByKey_perm le entries').symm)

end Sorting

/-! ## Separated fields -/

section Fields

variable {α : Type} {sep : α}

/-- A list falls into what is before the first `sep` and what is after it in one way. -/
theorem append_cons_inj {xs xs' ys ys' : List α} (h : sep ∉ xs) (h' : sep ∉ xs')
    (heq : xs ++ sep :: ys = xs' ++ sep :: ys') : xs = xs' ∧ ys = ys' := by
  induction xs generalizing xs' with
  | nil =>
    cases xs' with
    | nil => exact ⟨rfl, (List.cons.inj heq).2⟩
    | cons x xs' => exact absurd (List.cons.inj heq).1 (List.ne_of_not_mem_cons h')
  | cons x xs ih =>
    cases xs' with
    | nil => exact absurd (List.cons.inj heq).1.symm (List.ne_of_not_mem_cons h)
    | cons x' xs' =>
      obtain ⟨rfl, htail⟩ := List.cons.inj heq
      obtain ⟨rfl, hys⟩ := ih (fun hmem => h (List.mem_cons_of_mem x hmem))
        (fun hmem => h' (List.mem_cons_of_mem x hmem)) htail
      exact ⟨rfl, hys⟩

theorem intercalate_ne_nil {fields : List (List α)} (hne : fields ≠ [])
    (h : ∀ field ∈ fields, field ≠ []) : [sep].intercalate fields ≠ [] := by
  intro hnil
  obtain ⟨field, rest, rfl⟩ := List.exists_cons_of_ne_nil hne
  have hfield := h field List.mem_cons_self
  cases rest with
  | nil =>
    rw [List.intercalate_singleton] at hnil
    exact hfield hnil
  | cons next rest =>
    rw [List.intercalate_cons_cons, List.append_assoc] at hnil
    exact hfield (List.append_eq_nil_iff.1 hnil).1

/-- **Fields that are not empty and do not hold the separator** can be read back. -/
theorem intercalate_inj [DecidableEq α] {fields fields' : List (List α)}
    (h : ∀ field ∈ fields, field ≠ [] ∧ sep ∉ field)
    (h' : ∀ field ∈ fields', field ≠ [] ∧ sep ∉ field)
    (heq : [sep].intercalate fields = [sep].intercalate fields') : fields = fields' := by
  by_cases hnil : fields = []
  · subst hnil
    by_contra hne
    exact intercalate_ne_nil (Ne.symm hne) (fun field hfield => (h' field hfield).1) heq.symm
  · by_cases hnil' : fields' = []
    · subst hnil'
      exact absurd heq (intercalate_ne_nil hnil fun field hfield => (h field hfield).1)
    · have hsplit := List.splitOn_intercalate sep (fun field hfield => (h field hfield).2) hnil
      have hsplit' := List.splitOn_intercalate sep (fun field hfield => (h' field hfield).2) hnil'
      rw [← hsplit, heq, hsplit']

end Fields

/-! ## The text of a map -/

section Encode

variable {K V α : Type}

/-- The entries in the order of their keys, rendered and joined. -/
def encode (le : K → K → Bool) (sep : α) (render : K × V → List α) (entries : List (K × V)) :
    List α :=
  [sep].intercalate ((sortByKey le entries).map render)

/-- Entries whose rendered forms can be told apart and joined. -/
structure Renders (sep : α) (render : K × V → List α) (legal : Set (K × V)) : Prop where
  inj : Set.InjOn render legal
  ne_nil : ∀ p ∈ legal, render p ≠ []
  noSep : ∀ p ∈ legal, sep ∉ render p

variable {le : K → K → Bool} {keys : Set K} {sep : α} {render : K × V → List α}
  {legal : Set (K × V)} {entries entries' : List (K × V)}

theorem map_render_inj (hinj : Set.InjOn render legal) (h : ∀ p ∈ entries, p ∈ legal)
    (h' : ∀ p ∈ entries', p ∈ legal) (heq : entries.map render = entries'.map render) :
    entries = entries' := by
  induction entries generalizing entries' with
  | nil => exact (List.map_eq_nil_iff.1 heq.symm).symm
  | cons p entries ih =>
    cases entries' with
    | nil => cases heq
    | cons q entries' =>
      obtain ⟨hp, hentries⟩ := List.forall_mem_cons.1 h
      obtain ⟨hq, hentries'⟩ := List.forall_mem_cons.1 h'
      obtain ⟨hhead, htail⟩ := List.cons.inj heq
      rw [hinj hp hq hhead, ih hentries hentries' htail]

/-- **The text is canonical**: maps have the same text iff they have the same entries. -/
theorem encode_eq_iff [DecidableEq α] (hle : TotalOn le keys) (hrender : Renders sep render legal)
    (hkeys : ∀ p ∈ entries, p.1 ∈ keys) (hkeys' : ∀ p ∈ entries', p.1 ∈ keys)
    (hlegal : ∀ p ∈ entries, p ∈ legal) (hlegal' : ∀ p ∈ entries', p ∈ legal)
    (hnodup : (entries.map Prod.fst).Nodup) :
    encode le sep render entries = encode le sep render entries' ↔ entries.Perm entries' := by
  rw [← sortByKey_eq_iff hle hkeys hkeys' hnodup]
  have hfields : ∀ {es : List (K × V)}, (∀ p ∈ es, p ∈ legal) →
      ∀ field ∈ (sortByKey le es).map render, field ≠ [] ∧ sep ∉ field := by
    intro es hes field hfield
    obtain ⟨p, hp, rfl⟩ := List.mem_map.1 hfield
    have hp := hes p (mem_sortByKey.1 hp)
    exact ⟨hrender.ne_nil p hp, hrender.noSep p hp⟩
  constructor
  · intro heq
    have hmap := intercalate_inj (hfields hlegal) (hfields hlegal') heq
    exact map_render_inj hrender.inj (fun p hp => hlegal p (mem_sortByKey.1 hp))
      (fun p hp => hlegal' p (mem_sortByKey.1 hp)) hmap
  · intro heq
    unfold encode
    rw [heq]

end Encode

end CanonicalText
