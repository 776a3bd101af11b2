import Mathlib

/-!
# Successors in a subset of a linear order

* `NextIn S lo r` — `r` is the least element of `S` above `lo`, or `none` if there is none.
* `FromOn D d r` — the same with "from `d` on" instead of "above".
* `NextIn.lex` — one stage of an odometer: the successor in a lexicographic product, from the
  successor in the low part and the first digit from `d` (or from `d + 1` after a carry) on.
* `InitialSegment S lo l` — `l` lists, in increasing order, the elements of `S` above `lo` up
  to some point; `InitialSegment.snoc` extends it by a successor.
* `Listing S l` — `l` lists all of `S` in increasing order; there is only one such list, and it
  falls into its parts below and above any point.
-/

set_option autoImplicit false

namespace Successor

variable {α : Type*}

/-- The set of pairs with the high digit in `D` and the low part in `A`. -/
def lexSet (D : Set ℤ) (A : Set α) : Set (ℤ ×ₗ α) := {x | (ofLex x).1 ∈ D ∧ (ofLex x).2 ∈ A}

@[simp] theorem toLex_mem_lexSet {D : Set ℤ} {A : Set α} {d : ℤ} {a : α} :
    toLex (d, a) ∈ lexSet D A ↔ d ∈ D ∧ a ∈ A := Iff.rfl

theorem forall_mem_lexSet {D : Set ℤ} {A : Set α} {P : ℤ ×ₗ α → Prop} :
    (∀ x ∈ lexSet D A, P x) ↔ ∀ d ∈ D, ∀ a ∈ A, P (toLex (d, a)) :=
  ⟨fun h _ hd _ ha => h _ ⟨hd, ha⟩, fun h x hx => h (ofLex x).1 hx.1 (ofLex x).2 hx.2⟩

/-- The last element listed so far, `lo` before the first. -/
def lastOr (lo : α) (l : List α) : α := l.getLast?.getD lo

@[simp] theorem lastOr_snoc (lo x : α) (l : List α) : lastOr lo (l ++ [x]) = x := by
  simp [lastOr]

variable [LinearOrder α]

/-- `r` is the least element of `S` strictly above `lo`, `none` if no element is. -/
def NextIn (S : Set α) (lo : α) : Option α → Prop
  | some b => IsLeast {x | x ∈ S ∧ lo < x} b
  | none => ∀ x ∈ S, x ≤ lo

/-- `r` is the least element of `D` from `d` on, `none` if there is none. -/
def FromOn (D : Set ℤ) (d : ℤ) : Option ℤ → Prop
  | some v => IsLeast {x | x ∈ D ∧ d ≤ x} v
  | none => ∀ x ∈ D, x < d

/-- Digits above `d` are digits from `d + 1` on. -/
theorem FromOn.nextIn {D : Set ℤ} {d : ℤ} {r : Option ℤ} (h : FromOn D (d + 1) r) :
    NextIn D d r := by
  cases r with
  | none =>
    intro x hx
    have := h x hx
    omega
  | some v =>
    obtain ⟨⟨hv, hd⟩, hleast⟩ := h
    refine ⟨⟨hv, by omega⟩, ?_⟩
    rintro x ⟨hx, hlt⟩
    exact hleast ⟨hx, by omega⟩

theorem isLeast_lexSet {D : Set ℤ} {A : Set α} {d : ℤ} {a : α} (hd : IsLeast D d)
    (ha : IsLeast A a) : IsLeast (lexSet D A) (toLex (d, a)) := by
  refine ⟨⟨hd.1, ha.1⟩, ?_⟩
  rw [mem_lowerBounds, forall_mem_lexSet]
  intro d' hd' a' ha'
  rw [Prod.Lex.toLex_le_toLex]
  rcases (hd.2 hd').lt_or_eq with hlt | heq
  · exact Or.inl hlt
  · exact Or.inr ⟨heq, ha.2 ha'⟩

/-- **One odometer stage.**  `r` is the successor of `lo` in the low part and `q` the first high
digit from `d` on, or from `d + 1` on if the low part carries.  A digit beyond `d` restarts the
low part at its first element. -/
theorem NextIn.lex {D : Set ℤ} {A : Set α} {first lo : α} {d : ℤ} {r : Option α} {q : Option ℤ}
    (hfirst : IsLeast A first) (hr : NextIn A lo r)
    (hq : FromOn D (if r = none then d + 1 else d) q) :
    NextIn (lexSet D A) (toLex (d, lo))
      (q.map fun d' => toLex (d', if d < d' then first else r.getD first)) := by
  -- a pair above `(d, lo)` has a digit the search for `q` looks at
  have hdigit : ∀ d' ∈ D, ∀ a' ∈ A, toLex (d, lo) < toLex (d', a') →
      (if r = none then d + 1 else d) ≤ d' := by
    intro d' _ a' ha' hgt
    rw [Prod.Lex.toLex_lt_toLex] at hgt
    cases r with
    | none =>
      rw [if_pos rfl]
      rcases hgt with h | ⟨-, h⟩
      · exact h
      · exact absurd h (not_lt.mpr (hr a' ha'))
    | some b =>
      rw [if_neg (by simp)]
      rcases hgt with h | ⟨h, -⟩
      · exact h.le
      · exact h.le
  cases q with
  | none =>
    simp only [Option.map_none, NextIn]
    rw [forall_mem_lexSet]
    intro d' hd' a' ha'
    apply not_lt.1
    intro hgt
    have h1 := hq d' hd'
    have h2 := hdigit d' hd' a' ha' hgt
    omega
  | some v =>
    obtain ⟨⟨hv, hdv⟩, hleast⟩ := hq
    simp only [Option.map_some, NextIn]
    by_cases hlt : d < v
    · rw [if_pos hlt]
      refine ⟨⟨⟨hv, hfirst.1⟩, Prod.Lex.toLex_lt_toLex.2 (Or.inl hlt)⟩, ?_⟩
      rintro x ⟨⟨hd', ha'⟩, hgt⟩
      apply Prod.Lex.le_iff.2
      rcases (hleast ⟨hd', hdigit _ hd' _ ha' hgt⟩).lt_or_eq with h | h
      · exact Or.inl h
      · exact Or.inr ⟨h, hfirst.2 ha'⟩
    · rw [if_neg hlt]
      cases r with
      | none => rw [if_pos rfl] at hdv; omega
      | some b =>
        rw [if_neg (by simp)] at hdv
        obtain rfl : v = d := by omega
        obtain ⟨⟨hb, hlo⟩, hbleast⟩ := hr
        refine ⟨⟨⟨hv, hb⟩, Prod.Lex.toLex_lt_toLex.2 (Or.inr ⟨rfl, hlo⟩)⟩, ?_⟩
        rintro x ⟨⟨hd', ha'⟩, hgt⟩
        apply Prod.Lex.le_iff.2
        rcases Prod.Lex.lt_iff.1 hgt with h | ⟨h, h'⟩
        · exact Or.inl h
        · exact Or.inr ⟨h, hbleast ⟨ha', h'⟩⟩

/-! ## Initial segments -/

/-- `l` lists in increasing order the elements of `S` above `lo`, up to some point. -/
structure InitialSegment (S : Set α) (lo : α) (l : List α) : Prop where
  increasing : l.Pairwise (· < ·)
  member : ∀ x ∈ l, x ∈ S ∧ lo < x
  closed : ∀ x ∈ l, ∀ y ∈ S, lo < y → y ≤ x → y ∈ l

theorem InitialSegment.nil (S : Set α) (lo : α) : InitialSegment S lo [] :=
  ⟨List.Pairwise.nil, by simp, by simp⟩

theorem InitialSegment.le_lastOr {S : Set α} {lo : α} {l : List α} (h : InitialSegment S lo l) :
    ∀ x ∈ l, x ≤ lastOr lo l := by
  rcases l.eq_nil_or_concat with rfl | ⟨l', z, rfl⟩
  · simp
  · intro x hx
    rw [List.concat_eq_append] at hx ⊢
    rw [lastOr_snoc]
    have hinc := h.increasing
    rw [List.concat_eq_append, List.pairwise_append] at hinc
    rcases List.mem_append.1 hx with hx | hx
    · exact (hinc.2.2 x hx z (by simp)).le
    · rw [List.mem_singleton.1 hx]

theorem InitialSegment.mem_of_le_lastOr {S : Set α} {lo : α} {l : List α}
    (h : InitialSegment S lo l) {y : α} (hy : y ∈ S) (hlo : lo < y) (hle : y ≤ lastOr lo l) :
    y ∈ l := by
  rcases l.eq_nil_or_concat with rfl | ⟨l', z, rfl⟩
  · exact absurd hlo (not_lt.mpr hle)
  · rw [List.concat_eq_append] at hle h ⊢
    rw [lastOr_snoc] at hle
    exact h.closed z (by simp) y hy hlo hle

theorem InitialSegment.lo_le_lastOr {S : Set α} {lo : α} {l : List α}
    (h : InitialSegment S lo l) : lo ≤ lastOr lo l := by
  rcases l.eq_nil_or_concat with rfl | ⟨l', z, rfl⟩
  · exact le_rfl
  · rw [List.concat_eq_append] at h ⊢
    rw [lastOr_snoc]
    exact (h.member z (by simp)).2.le

/-- Appending the successor of the last element keeps an initial segment. -/
theorem InitialSegment.snoc {S : Set α} {lo x : α} {l : List α} (h : InitialSegment S lo l)
    (hx : NextIn S (lastOr lo l) (some x)) : InitialSegment S lo (l ++ [x]) := by
  obtain ⟨⟨hxS, hlt⟩, hleast⟩ := hx
  refine ⟨?_, ?_, ?_⟩
  · rw [List.pairwise_append]
    refine ⟨h.increasing, List.pairwise_singleton _ _, ?_⟩
    intro a ha b hb
    rw [List.mem_singleton.1 hb]
    exact (h.le_lastOr a ha).trans_lt hlt
  · intro y hy
    rcases List.mem_append.1 hy with hy | hy
    · exact h.member y hy
    · rw [List.mem_singleton.1 hy]
      exact ⟨hxS, h.lo_le_lastOr.trans_lt hlt⟩
  · intro z hz y hyS hlo hle
    by_cases hyl : y ≤ lastOr lo l
    · exact List.mem_append_left _ (h.mem_of_le_lastOr hyS hlo hyl)
    · -- beyond the old end only `x` is left
      have hxy : x ≤ y := hleast ⟨hyS, lt_of_not_ge hyl⟩
      have hzx : z ≤ x := by
        rcases List.mem_append.1 hz with hz | hz
        · exact (h.le_lastOr z hz).trans hlt.le
        · rw [List.mem_singleton.1 hz]
      rw [le_antisymm (hle.trans hzx) hxy]
      exact List.mem_append_right _ (List.mem_singleton_self x)

/-! ## Listings -/

/-- `l` lists the elements of `S` in increasing order, each once. -/
structure Listing (S : Set α) (l : List α) : Prop where
  increasing : l.Pairwise (· < ·)
  mem_iff : ∀ x, x ∈ l ↔ x ∈ S

theorem Listing.unique {S : Set α} {l l' : List α} (h : Listing S l) (h' : Listing S l') :
    l = l' := by
  have hperm : l.Perm l' := by
    rw [List.perm_ext_iff_of_nodup (h.increasing.imp ne_of_lt) (h'.increasing.imp ne_of_lt)]
    exact fun x => (h.mem_iff x).trans (h'.mem_iff x).symm
  exact hperm.eq_of_pairwise (fun a b _ _ hab hba => absurd hab hba.not_gt)
    h.increasing h'.increasing

theorem Listing.nil {S : Set α} (h : S = ∅) : Listing S [] :=
  ⟨List.Pairwise.nil, fun x => by simp [h]⟩

/-- The least element comes first, the elements above it follow. -/
theorem Listing.cons {S : Set α} {x : α} {l : List α} (hx : IsLeast S x)
    (h : Listing {y | y ∈ S ∧ x < y} l) : Listing S (x :: l) := by
  refine ⟨List.pairwise_cons.2 ⟨fun y hy => ((h.mem_iff y).1 hy).2, h.increasing⟩, fun y => ?_⟩
  rw [List.mem_cons, h.mem_iff]
  constructor
  · rintro (rfl | ⟨hy, -⟩)
    · exact hx.1
    · exact hy
  · intro hy
    rcases (hx.2 hy).lt_or_eq with hlt | heq
    · exact Or.inr ⟨hy, hlt⟩
    · exact Or.inl heq.symm

/-- The part below a point, the point itself if it belongs to the set, and the part above. -/
theorem Listing.append {S : Set α} {x : α} {l l' : List α} (h : Listing {y | y ∈ S ∧ y < x} l)
    (h' : Listing {y | y ∈ S ∧ x < y} l') :
    (x ∈ S → Listing S (l ++ x :: l')) ∧ (x ∉ S → Listing S (l ++ l')) := by
  have hbelow : ∀ y ∈ l, y < x := fun y hy => ((h.mem_iff y).1 hy).2
  have habove : ∀ y ∈ l', x < y := fun y hy => ((h'.mem_iff y).1 hy).2
  constructor
  · intro hx
    refine ⟨?_, fun y => ?_⟩
    · rw [List.pairwise_append, List.pairwise_cons]
      refine ⟨h.increasing, ⟨habove, h'.increasing⟩, fun a ha b hb => ?_⟩
      rcases List.mem_cons.1 hb with rfl | hb
      · exact hbelow a ha
      · exact (hbelow a ha).trans (habove b hb)
    · rw [List.mem_append, List.mem_cons, h.mem_iff, h'.mem_iff]
      constructor
      · rintro (⟨hy, -⟩ | rfl | ⟨hy, -⟩)
        · exact hy
        · exact hx
        · exact hy
      · intro hy
        rcases lt_trichotomy y x with hlt | heq | hgt
        · exact Or.inl ⟨hy, hlt⟩
        · exact Or.inr (Or.inl heq)
        · exact Or.inr (Or.inr ⟨hy, hgt⟩)
  · intro hx
    refine ⟨?_, fun y => ?_⟩
    · rw [List.pairwise_append]
      exact ⟨h.increasing, h'.increasing, fun a ha b hb => (hbelow a ha).trans (habove b hb)⟩
    · rw [List.mem_append, h.mem_iff, h'.mem_iff]
      constructor
      · rintro (⟨hy, -⟩ | ⟨hy, -⟩)
        · exact hy
        · exact hy
      · intro hy
        rcases lt_trichotomy y x with hlt | rfl | hgt
        · exact Or.inl ⟨hy, hlt⟩
        · exact absurd hy hx
        · exact Or.inr ⟨hy, hgt⟩

end Successor
