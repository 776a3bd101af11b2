import Sentinel.Lib.CanonicalText

/-!
# The selector strings of services and deployments

The mapper writes the selector of a service and the match labels of a deployment as text, with the
entries sorted by key.

* `joinLabels_eq_iff` — two label maps have the same text iff they have the same entries.
* `selectorString_canonical` — the texts of a service and a deployment are compared in place of
  their selectors.
-/

set_option autoImplicit false

namespace Sentinel.K8SMapper

open CanonicalText

/-! ## Label maps -/

/-- The order in which `OrderBy` sorts strings: a total order on the keys that occur. -/
structure KeyOrder where
  le : String → String → Bool
  keys : Set String
  totalOn : TotalOn le keys

/-- Label text holds neither of the two separators. -/
def IsLabelText (text : String) : Prop := ',' ∉ text.toList ∧ '=' ∉ text.toList

/-- A dictionary of labels, in the order in which it is enumerated. -/
structure LabelMap (order : KeyOrder) where
  entries : List (String × String)
  nodupKeys : (entries.map Prod.fst).Nodup
  keys : ∀ p ∈ entries, p.1 ∈ order.keys
  legal : ∀ p ∈ entries, IsLabelText p.1 ∧ IsLabelText p.2

variable {order : KeyOrder}

/-- The maps have the same entries, whatever the order of enumeration. -/
def SameMap (m m' : LabelMap order) : Prop := ∀ p, p ∈ m.entries ↔ p ∈ m'.entries

/-! ## The mapper -/

/-- `p.Key + "=" + p.Value`. -/
def label (p : String × String) : String := p.1 ++ "=" ++ p.2

/-- `string.Join(",", map.OrderBy(p => p.Key).Select(p => p.Key + "=" + p.Value).ToArray())`. -/
def joinLabels (map : LabelMap order) : String :=
  ",".intercalate ((sortByKey order.le map.entries).map label)

/-- `ServiceV1.LabelSelectorString` from `Spec.Selector`; null is mapped to null. -/
def labelSelectorString (selector : Option (LabelMap order)) : Option String :=
  selector.map joinLabels

/-- `DeploymentSpecV1.SelectorString` from `Selector.MatchLabels`. -/
def selectorString (matchLabels : Option (LabelMap order)) : Option String :=
  matchLabels.map joinLabels

/-! ## The text of a map -/

theorem toList_label (p : String × String) :
    (label p).toList = p.1.toList ++ '=' :: p.2.toList := by
  unfold label
  rw [String.toList_append, String.toList_append, List.append_assoc]
  rfl

theorem renders_label : Renders ',' (fun p => (label p).toList)
    {p : String × String | IsLabelText p.1 ∧ IsLabelText p.2} where
  inj := by
    intro p hp q hq heq
    simp only [toList_label] at heq
    obtain ⟨hkey, hvalue⟩ := append_cons_inj hp.1.2 hq.1.2 heq
    exact Prod.ext (String.toList_inj.1 hkey) (String.toList_inj.1 hvalue)
  ne_nil := by
    intro p _
    rw [toList_label]
    exact List.append_ne_nil_of_right_ne_nil _ (List.cons_ne_nil _ _)
  noSep := by
    intro p hp
    rw [toList_label, List.mem_append, List.mem_cons]
    rintro (hkey | heq | hvalue)
    · exact hp.1.1 hkey
    · exact absurd heq (by decide)
    · exact hp.2.1 hvalue

theorem toList_joinLabels (m : LabelMap order) :
    (joinLabels m).toList = encode order.le ',' (fun p => (label p).toList) m.entries := by
  unfold joinLabels encode
  rw [String.toList_intercalate, List.map_map]
  rfl

/-- **The text of a label map is canonical.** -/
theorem joinLabels_eq_iff (m m' : LabelMap order) :
    joinLabels m = joinLabels m' ↔ SameMap m m' := by
  rw [← String.toList_inj, toList_joinLabels, toList_joinLabels,
    encode_eq_iff order.totalOn renders_label m.keys m'.keys m.legal m'.legal m.nodupKeys,
    List.perm_ext_iff_of_nodup m.nodupKeys.of_map m'.nodupKeys.of_map]
  rfl

/-- **Selector strings are canonical**: those of two services, of two deployments, and of a service
and a deployment are equal iff the selectors have the same entries, in whatever order. -/
theorem selectorString_canonical (m m' : LabelMap order) :
    (labelSelectorString (some m) = labelSelectorString (some m') ↔ SameMap m m') ∧
      (selectorString (some m) = selectorString (some m') ↔ SameMap m m') ∧
      (labelSelectorString (some m) = selectorString (some m') ↔ SameMap m m') := by
  have hiff : some (joinLabels m) = some (joinLabels m') ↔ SameMap m m' :=
    Option.some_inj.trans (joinLabels_eq_iff m m')
  exact ⟨hiff, hiff, hiff⟩

/-! ## The ordinal order -/

/-- Comparison of the code points, on all strings. -/
def ordinal : KeyOrder where
  le := fun a b => decide (a ≤ b)
  keys := Set.univ
  totalOn :=
    { trans := by
        intro a _ b _ c _ hab hbc
        exact decide_eq_true ((of_decide_eq_true hab).trans (of_decide_eq_true hbc))
      total := by
        intro a _ b _
        simpa using le_total a b
      antisymm := by
        intro a _ b _ hab hba
        exact (of_decide_eq_true hab).antisymm (of_decide_eq_true hba) }

def webLabels : LabelMap ordinal where
  entries := [("tier", ""), ("app", "web")]
  nodupKeys := by simp
  keys := by simp [ordinal]
  legal := by simp [IsLabelText]

example : joinLabels webLabels = "app=web,tier=" := by
  have hsorted : sortByKey ordinal.le webLabels.entries = [("app", "web"), ("tier", "")] := by
    simp [sortByKey, List.mergeSort, webLabels, ordinal, List.MergeSort.Internal.splitInTwo]
  rw [joinLabels, hsorted]
  rfl

end Sentinel.K8SMapper
