import AdversarialCognition.Lib.Printing
import Mathlib.Data.List.Nodup

/-!
# Numbered names

A heading, a colon and an index. The colon is the last one of the text, whatever is in the
heading, so the text gives back both; and names are repeated only where two groups of one heading
share an index.

The converse of the usual worry is the useful one here. A heading may have colons and digits in
it, and two headings may differ by as much as an index would add, and still no two names of
different headings or indices are equal, since an index is printed in digits alone.
-/

namespace Py.Str

/-- `f"{heading}:{index}"` -/
def numberedName (heading : Str) (index : ℕ) : Str := heading ++ lit ":" ++ ofNat index

theorem colon_notMem_ofNat (n : ℕ) : CodePoint.ofChar ':' ∉ ofNat n :=
  fun h => absurd (isDigit_of_mem_ofNat h) (by decide)

/-- Both parts are given back by the text: behind its last colon there are only digits. -/
theorem numberedName_inj {heading heading' : Str} {index index' : ℕ} :
    numberedName heading index = numberedName heading' index' ↔ heading = heading' ∧ index = index' := by
  have hcolon : ∀ (h : Str) (n : ℕ), numberedName h n = h ++ CodePoint.ofChar ':' :: ofNat n :=
    fun h n => List.append_assoc h [CodePoint.ofChar ':'] (ofNat n)
  constructor
  · intro h
    rw [hcolon, hcolon] at h
    rcases join_eq_iff (p := (heading, ofNat index)) (q := (heading', ofNat index')).mp h with
      heq | ⟨s, -, hshift⟩ | ⟨s, -, hshift⟩
    · obtain ⟨hheading, hindex⟩ := Prod.mk.inj heq
      exact ⟨hheading, ofNat_injective hindex⟩
    · refine absurd ?_ (colon_notMem_ofNat index)
      have hdigits : ofNat index = s ++ CodePoint.ofChar ':' :: ofNat index' := hshift
      rw [hdigits]
      exact List.mem_append_right s List.mem_cons_self
    · refine absurd ?_ (colon_notMem_ofNat index')
      have hdigits : ofNat index' = s ++ CodePoint.ofChar ':' :: ofNat index := hshift
      rw [hdigits]
      exact List.mem_append_right s List.mem_cons_self
  · rintro ⟨rfl, rfl⟩
    rfl

/-- **Where numbered names are repeated**: within a group, or by groups of one heading. -/
theorem nodup_flatMap_numberedName {α : Type} {groups : List α} {heading : α → Str} {indices : α → List ℕ} :
    (groups.flatMap fun group => (indices group).map (numberedName (heading group))).Nodup ↔
      (∀ group ∈ groups, (indices group).Nodup) ∧
        groups.Pairwise fun group other =>
          heading group = heading other → (indices group).Disjoint (indices other) := by
  have hinj : ∀ h : Str, Function.Injective (numberedName h) := fun h n m heq => (numberedName_inj.mp heq).2
  rw [List.nodup_flatMap]
  refine and_congr (forall₂_congr fun group _ => List.nodup_map_iff (hinj _)) ?_
  refine iff_of_eq (congrArg (List.Pairwise · groups) (funext₂ fun group other => propext ?_))
  constructor
  · intro hdisjoint hheading index hindex hother
    refine hdisjoint (List.mem_map_of_mem hindex) ?_
    rw [hheading]
    exact List.mem_map_of_mem hother
  · intro hdisjoint name hname hother
    obtain ⟨index, hindex, rfl⟩ := List.mem_map.mp hname
    obtain ⟨index', hindex', heq⟩ := List.mem_map.mp hother
    obtain ⟨hheading, rfl⟩ := numberedName_inj.mp heq
    exact hdisjoint hheading.symm hindex hindex'

end Py.Str
