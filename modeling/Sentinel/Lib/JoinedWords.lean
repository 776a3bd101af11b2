import Mathlib

/-!
# Words that end themselves

Words that can be read from the front of a text, whatever follows after a separator, can be joined
by the separator and read back, even if they hold the separator themselves.

* `append_inj_of_span` — a text falls into a run of letters and the rest in one way.
* `Words` — the words of a family can be told apart before the end of the text or a separator.
* `Words.intercalate_inj` — so can the lists of them, when they are joined.
-/

set_option autoImplicit false

namespace JoinedWords

variable {α β : Type} {sep : α}

/-- **A text falls into letters and the rest** in one way, if the rest does not begin with one. -/
theorem append_inj_of_span (letter : α → Prop) {xs xs' rest rest' : List α}
    (hxs : ∀ x ∈ xs, letter x) (hxs' : ∀ x ∈ xs', letter x) (hrest : ∀ x ∈ rest.head?, ¬ letter x)
    (hrest' : ∀ x ∈ rest'.head?, ¬ letter x) (heq : xs ++ rest = xs' ++ rest') :
    xs = xs' ∧ rest = rest' := by
  induction xs generalizing xs' with
  | nil =>
    cases xs' with
    | nil => exact ⟨rfl, heq⟩
    | cons x' xs' =>
      rw [List.nil_append] at heq
      subst heq
      exact absurd (hxs' x' List.mem_cons_self) (hrest x' rfl)
  | cons x xs ih =>
    cases xs' with
    | nil =>
      rw [List.nil_append] at heq
      subst heq
      exact absurd (hxs x List.mem_cons_self) (hrest' x rfl)
    | cons x' xs' =>
      obtain ⟨rfl, htail⟩ := List.cons.inj heq
      obtain ⟨rfl, hrests⟩ := ih (fun y hy => hxs y (List.mem_cons_of_mem x hy))
        (fun y hy => hxs' y (List.mem_cons_of_mem x hy)) htail
      exact ⟨rfl, hrests⟩

/-- What may follow a word: nothing, or the separator. -/
def Ends (sep : α) (rest : List α) : Prop := ∀ x ∈ rest.head?, x = sep

theorem ends_nil : Ends sep [] := nofun

theorem ends_cons (tail : List α) : Ends sep (sep :: tail) := by
  rintro x ⟨⟩
  rfl

/-- The words of the legal values can be read, up to the separator. -/
def Words (sep : α) (render : β → List α) (legal : Set β) : Prop :=
  ∀ b ∈ legal, ∀ b' ∈ legal, ∀ rest rest', Ends sep rest → Ends sep rest' →
    render b ++ rest = render b' ++ rest' → b = b' ∧ rest = rest'

variable {render : β → List α} {legal : Set β}

/-- Words without the separator can be told apart. -/
theorem words_of_not_mem (hinj : Set.InjOn render legal) (hsep : ∀ b ∈ legal, sep ∉ render b) :
    Words sep render legal := by
  intro b hb b' hb' rest rest' hrest hrest' heq
  obtain ⟨hword, hrests⟩ := append_inj_of_span (· ≠ sep)
    (fun x hx => fun hx' => hsep b hb (hx' ▸ hx)) (fun x hx => fun hx' => hsep b' hb' (hx' ▸ hx))
    (fun x hx => not_not.2 (hrest x hx)) (fun x hx => not_not.2 (hrest' x hx)) heq
  exact ⟨hinj hb hb' hword, hrests⟩

/-- The rest of a joined text after its first word. -/
theorem exists_rest (sep : α) (render : β → List α) (b : β) (bs : List β) :
    ∃ rest, Ends sep rest ∧
    [sep].intercalate ((b :: bs).map render) = render b ++ rest ∧
    (bs = [] → rest = []) ∧ (bs ≠ [] → rest = sep :: [sep].intercalate (bs.map render)) := by
  cases bs with
  | nil => exact ⟨[], ends_nil, by simp, fun _ => rfl, fun h => absurd rfl h⟩
  | cons b' bs =>
    refine ⟨sep :: [sep].intercalate ((b' :: bs).map render), ends_cons _, ?_, nofun, fun _ => rfl⟩
    simp only [List.map_cons, List.intercalate_cons_cons, List.append_assoc, List.singleton_append]

/-- **Joined words can be read back.** -/
theorem Words.intercalate_inj (h : Words sep render legal) {bs bs' : List β} (hne : bs ≠ [])
    (hne' : bs' ≠ []) (hbs : ∀ b ∈ bs, b ∈ legal) (hbs' : ∀ b ∈ bs', b ∈ legal)
    (heq : [sep].intercalate (bs.map render) = [sep].intercalate (bs'.map render)) : bs = bs' := by
  induction bs generalizing bs' with
  | nil => exact absurd rfl hne
  | cons b bs ih =>
    obtain ⟨b', bs', rfl⟩ := List.exists_cons_of_ne_nil hne'
    obtain ⟨rest, hends, htext, hlast, hmore⟩ := exists_rest sep render b bs
    obtain ⟨rest', hends', htext', hlast', hmore'⟩ := exists_rest sep render b' bs'
    rw [htext, htext'] at heq
    obtain ⟨rfl, hrest⟩ := h b (hbs b List.mem_cons_self) b' (hbs' b' List.mem_cons_self) rest rest'
      hends hends' heq
    congr 1
    by_cases hnil : bs = []
    · by_contra hother
      rw [hlast hnil, hmore' fun hnil' => hother (hnil.trans hnil'.symm)] at hrest
      cases hrest
    · by_cases hnil' : bs' = []
      · rw [hmore hnil, hlast' hnil'] at hrest
        cases hrest
      · rw [hmore hnil, hmore' hnil'] at hrest
        exact ih hnil hnil' (fun c hc => hbs c (List.mem_cons_of_mem b hc))
          (fun c hc => hbs' c (List.mem_cons_of_mem b hc)) (List.cons.inj hrest).2

/-- A letter of a joined text is the separator or a letter of a word. -/
theorem mem_intercalate {x : α} {words : List (List α)} (h : x ∈ [sep].intercalate words) :
    x = sep ∨ ∃ word ∈ words, x ∈ word := by
  induction words with
  | nil => cases h
  | cons word words ih =>
    cases words with
    | nil => exact Or.inr ⟨word, List.mem_cons_self, by simpa using h⟩
    | cons next words =>
      rw [List.intercalate_cons_cons, List.mem_append, List.mem_append, List.mem_singleton] at h
      rcases h with (hword | hsep) | hrest
      · exact Or.inr ⟨word, List.mem_cons_self, hword⟩
      · exact Or.inl hsep
      · rcases ih hrest with hsep | ⟨other, hother, hx⟩
        · exact Or.inl hsep
        · exact Or.inr ⟨other, List.mem_cons_of_mem word hother, hx⟩

end JoinedWords
