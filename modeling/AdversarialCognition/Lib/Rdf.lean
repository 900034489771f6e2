import Mathlib.Data.Finset.Union
import Mathlib.Data.Finset.Lattice.Lemmas

/-!
# Graphs and updates

A graph is a finite set of triples, over whatever the subjects, properties and objects are. An
update is one transaction: it deletes and then inserts if its condition holds of the graph, and
does nothing otherwise. What an update does not delete it keeps, and this is all that an invariant
about a claim, which nothing deletes, needs to know of it.

A store of triples has named graphs, blank nodes and a query language besides. An adapter that
sends updates with fixed shapes needs none of these to be told apart: its condition is a
proposition about the graph, and its two lists of triples are computed before the update is sent.
So one operation on finite sets stands for all of them.
-/

namespace Rdf

structure Triple (S P O : Type*) where
  subject : S
  property : P
  object : O
  deriving DecidableEq

abbrev Graph (S P O : Type*) := Finset (Triple S P O)

namespace Graph

variable {S P O : Type*} [DecidableEq S] [DecidableEq P] [DecidableEq O]

/-- `DELETE ... INSERT ... WHERE ...`, for a condition that holds or does not. A triple that is
    both deleted and inserted is there afterwards. -/
def update (g : Graph S P O) (holds : Prop) [Decidable holds] (deleted inserted : Graph S P O) :
    Graph S P O :=
  if holds then (g \ deleted) ∪ inserted else g

/-- The subject has the property, whatever its value. -/
def Has (g : Graph S P O) (s : S) (p : P) : Prop :=
  ∃ t ∈ g, t.subject = s ∧ t.property = p

instance (g : Graph S P O) (s : S) (p : P) : Decidable (g.Has s p) :=
  inferInstanceAs (Decidable (∃ t ∈ g, t.subject = s ∧ t.property = p))

variable {g deleted inserted : Graph S P O} {holds : Prop} [Decidable holds] {t : Triple S P O}

theorem update_of (h : holds) : g.update holds deleted inserted = (g \ deleted) ∪ inserted :=
  if_pos h

theorem update_of_not (h : ¬ holds) : g.update holds deleted inserted = g := if_neg h

theorem mem_update_of_mem_inserted (h : holds) (ht : t ∈ inserted) :
    t ∈ g.update holds deleted inserted := by
  rw [update_of h]
  exact Finset.mem_union_right _ ht

theorem mem_update_of_mem (ht : t ∈ g) (hdeleted : t ∉ deleted) :
    t ∈ g.update holds deleted inserted := by
  by_cases h : holds
  · rw [update_of h]
    exact Finset.mem_union_left _ (Finset.mem_sdiff.mpr ⟨ht, hdeleted⟩)
  · rw [update_of_not h]
    exact ht

theorem Has.update {s : S} {p : P} (h : g.Has s p) (hdeleted : ∀ t ∈ deleted, t.property ≠ p) :
    (g.update holds deleted inserted).Has s p := by
  obtain ⟨t, ht, hs, hp⟩ := h
  exact ⟨t, mem_update_of_mem ht fun hd => hdeleted t hd hp, hs, hp⟩

omit [DecidableEq S] [DecidableEq P] [DecidableEq O] in
theorem Has.mono {g' : Graph S P O} {s : S} {p : P} (h : g.Has s p) (hsub : g ⊆ g') :
    g'.Has s p := by
  obtain ⟨t, ht, hs, hp⟩ := h
  exact ⟨t, hsub ht, hs, hp⟩

end Graph

end Rdf
