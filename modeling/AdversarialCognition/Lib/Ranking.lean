import Mathlib.Data.List.Sort
import Mathlib.Data.Prod.Lex

/-!
# Rankings

`ranked.sort(key=lambda item: (-item[0], item[1]))` on pairs of a score and a name: best score
first, ties by increasing name. The key determines the pair, so the order is total on pairs and
the sorted list depends on the multiset that was sorted and on nothing else: not on the order in
which the pairs were collected (`sort_eq_of_perm`).

The sort of the interpreter is stable and this one is an insertion sort. Stability cannot be seen
here, as two pairs with equal keys are equal. Names are taken from any linear order; for texts it
is the lexicographic one, code point by code point.
-/

namespace Ranking

variable {α : Type*} [LinearOrder α]

/-- `p` comes before `q`: the comparison of the keys `(-score, name)`. -/
def Before (p q : ℕ × α) : Prop := q.1 < p.1 ∨ (p.1 = q.1 ∧ p.2 < q.2)

/-- The order that the sort goes by: that of the ranking, for pairs that may be equal. -/
def Le (p q : ℕ × α) : Prop := q.1 < p.1 ∨ (p.1 = q.1 ∧ p.2 ≤ q.2)

instance : DecidableRel (Le (α := α)) := fun _ _ => inferInstanceAs (Decidable (_ ∨ _))

instance : Std.Total (Le (α := α)) where
  total p q := by
    rcases lt_trichotomy p.1 q.1 with h | h | h
    · exact Or.inr (Or.inl h)
    · rcases le_total p.2 q.2 with h' | h'
      · exact Or.inl (Or.inr ⟨h, h'⟩)
      · exact Or.inr (Or.inr ⟨h.symm, h'⟩)
    · exact Or.inl (Or.inl h)

instance : IsTrans (ℕ × α) Le where
  trans p q r hpq hqr := by
    rcases hpq with h | ⟨h, hn⟩ <;> rcases hqr with h' | ⟨h', hn'⟩
    · exact Or.inl (h'.trans h)
    · exact Or.inl (h' ▸ h)
    · exact Or.inl (h ▸ h')
    · exact Or.inr ⟨h.trans h', hn.trans hn'⟩

theorem le_antisymm {p q : ℕ × α} (hpq : Le p q) (hqp : Le q p) : p = q := by
  rcases hpq with h | ⟨h, hn⟩ <;> rcases hqp with h' | ⟨h', hn'⟩
  · exact absurd (h.trans h') (lt_irrefl _)
  · exact absurd (h' ▸ h) (lt_irrefl _)
  · exact absurd (h ▸ h') (lt_irrefl _)
  · exact Prod.ext h (hn.antisymm hn')

theorem Le.before {p q : ℕ × α} (h : Le p q) (hne : p.2 ≠ q.2) : Before p q := by
  rcases h with h | ⟨h, hn⟩
  · exact Or.inl h
  · exact Or.inr ⟨h, lt_of_le_of_ne hn hne⟩

/-- `ranked` behind the sort. -/
def sort (l : List (ℕ × α)) : List (ℕ × α) := l.insertionSort Le

theorem sort_perm (l : List (ℕ × α)) : (sort l).Perm l := List.perm_insertionSort _ l

@[simp] theorem mem_sort {l : List (ℕ × α)} {p : ℕ × α} : p ∈ sort l ↔ p ∈ l :=
  (sort_perm l).mem_iff

theorem pairwise_sort (l : List (ℕ × α)) : (sort l).Pairwise Le :=
  List.pairwise_insertionSort Le l

/-- **The order of collection does not show.** -/
theorem sort_eq_of_perm {l l' : List (ℕ × α)} (h : l.Perm l') : sort l = sort l' :=
  List.Perm.eq_of_pairwise (fun _ _ _ _ => le_antisymm) (pairwise_sort l) (pairwise_sort l')
    (((sort_perm l).trans h).trans (sort_perm l').symm)

/-- Where no name is collected twice, each pair of the ranking comes strictly before the
    pairs after it. -/
theorem pairwise_sort_before {l : List (ℕ × α)} (h : (l.map Prod.snd).Nodup) :
    (sort l).Pairwise Before := by
  have hnames : ((sort l).map Prod.snd).Nodup :=
    ((sort_perm l).map Prod.snd).nodup_iff.mpr h
  have hne : (sort l).Pairwise fun p q => p.2 ≠ q.2 := List.pairwise_map.mp hnames
  exact ((pairwise_sort l).and hne).imp fun hpq => hpq.1.before hpq.2

theorem nodup_sort_names {l : List (ℕ × α)} (h : (l.map Prod.snd).Nodup) :
    ((sort l).map Prod.snd).Nodup :=
  ((sort_perm l).map Prod.snd).nodup_iff.mpr h

end Ranking
