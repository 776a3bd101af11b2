import Mathlib

/-!
# Collections with different keys

A collection whose elements have different keys is a map from the keys to the elements.

* `lookup_eq_some` — what the map finds.
* `lookup_cons`, `lookup_of_cons`, `lookup_exchange` — adding an element with a new key, removing an
  element, and exchanging one for another with its key are updates of the map.
-/

set_option autoImplicit false

namespace Keyed

open scoped Classical in
/-- The element with a key, if there is one. -/
noncomputable def lookup {T K : Type} (key : T → K) (m : Multiset T) (k : K) : Option T :=
  if h : ∃ a ∈ m, key a = k then some h.choose else none

variable {T K : Type} (key : T → K)

/-- The elements of the collection have different keys. -/
def Distinct (m : Multiset T) : Prop := (m.map key).Nodup

variable {key} {m : Multiset T} {a b : T} {k : K}

theorem distinct_cons : Distinct key (a ::ₘ m) ↔ (∀ x ∈ m, key x ≠ key a) ∧ Distinct key m := by
  unfold Distinct
  rw [Multiset.map_cons, Multiset.nodup_cons]
  simp

/-- An element is determined by its key. -/
theorem Distinct.eq_of_key (h : Distinct key m) (ha : a ∈ m) (hb : b ∈ m)
    (hkey : key a = key b) : a = b :=
  Multiset.inj_on_of_nodup_map h a ha b hb hkey

theorem Distinct.of_le {m' : Multiset T} (h : Distinct key m) (hle : m' ≤ m) : Distinct key m' :=
  Multiset.nodup_of_le (Multiset.map_le_map hle) h

theorem lookup_eq_none : lookup key m k = none ↔ ∀ x ∈ m, key x ≠ k := by
  unfold lookup
  split
  · rename_i h
    obtain ⟨x, hx, hk⟩ := h
    exact iff_of_false (Option.some_ne_none _) fun hall => hall x hx hk
  · rename_i h
    exact iff_of_true rfl fun x hx hk => h ⟨x, hx, hk⟩

theorem lookup_eq_some (h : Distinct key m) : lookup key m k = some a ↔ a ∈ m ∧ key a = k := by
  unfold lookup
  split
  · rename_i hsome
    obtain ⟨hmem, hkey⟩ := hsome.choose_spec
    rw [Option.some.injEq]
    refine ⟨fun heq => heq ▸ ⟨hmem, hkey⟩, fun ⟨ha, hk⟩ => ?_⟩
    exact h.eq_of_key hmem ha (hkey.trans hk.symm)
  · rename_i hnone
    exact iff_of_false nofun fun ⟨ha, hk⟩ => hnone ⟨a, ha, hk⟩

/-- Maps that find the same are equal. -/
theorem map_ext {f g : K → Option T} (h : ∀ k a, f k = some a ↔ g k = some a) : f = g := by
  funext k
  exact Option.ext fun a => h k a

variable [DecidableEq K]

theorem lookup_cons (h : Distinct key (a ::ₘ m)) :
    lookup key (a ::ₘ m) = Function.update (lookup key m) (key a) (some a) := by
  obtain ⟨hnew, hm⟩ := distinct_cons.1 h
  refine map_ext fun k b => ?_
  rw [lookup_eq_some h, Multiset.mem_cons]
  by_cases hk : k = key a
  · subst hk
    rw [Function.update_self, Option.some.injEq]
    refine ⟨fun ⟨hb, hkey⟩ => ?_, fun hab => ⟨Or.inl hab.symm, by rw [hab]⟩⟩
    rcases hb with rfl | hb
    · rfl
    · exact absurd hkey (hnew b hb)
  · rw [Function.update_of_ne hk, lookup_eq_some hm]
    refine and_congr_left fun hkey => or_iff_right ?_
    rintro rfl
    exact hk hkey.symm

theorem lookup_of_cons (h : Distinct key (a ::ₘ m)) :
    lookup key m = Function.update (lookup key (a ::ₘ m)) (key a) none := by
  have hnone : lookup key m (key a) = none := lookup_eq_none.2 (distinct_cons.1 h).1
  rw [lookup_cons h, Function.update_idem, ← hnone, Function.update_eq_self]

/-- An element is exchanged for another with the same key. -/
theorem lookup_exchange (h : Distinct key (a ::ₘ m)) (hkey : key a = key b) :
    lookup key (b ::ₘ m) = Function.update (lookup key (a ::ₘ m)) (key b) (some b) := by
  have hb : Distinct key (b ::ₘ m) := by
    rw [distinct_cons, ← hkey]
    exact distinct_cons.1 h
  rw [lookup_cons hb, lookup_of_cons h, hkey, Function.update_idem]

end Keyed
