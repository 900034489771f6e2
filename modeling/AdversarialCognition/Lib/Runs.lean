import AdversarialCognition.Lib.Str

/-!
# Maximal runs of a character class

What `re.findall("[..]+", s)` can find, said of the scan with its accumulator and then of `runs`:
every match is made of members of the class, is not empty and is no longer than the members there
are; and a text of members only is its own one match.

Where the matches stand in the text is not said, and no result needs it. What the results need is
that a word of a query that consists of members is found as the word it is, and that nothing is
found with a character outside the class.
-/

namespace Py.Str

variable {p : CodePoint → Bool}

/-- What is found from some point on, with what has been read of the match at that point. The
    bound on the length counts the accumulator too, or the induction would not go through. -/
theorem runsFrom_spec {s t : Str} (acc : Str) (hacc : ∀ c ∈ acc, p c = true)
    (ht : t ∈ runsFrom p acc s) :
    (t ≠ [] ∧ ∀ c ∈ t, p c = true) ∧ t.length ≤ acc.length + (s.filter p).length := by
  have hne : ∀ {a : Str}, ¬ a.isEmpty = true → a ≠ [] := fun h ha => h (by rw [ha]; rfl)
  induction s generalizing acc with
  | nil =>
    rw [runsFrom] at ht
    split_ifs at ht with hempty
    · simp at ht
    · rw [List.mem_singleton.mp ht]
      exact ⟨⟨hne hempty, hacc⟩, Nat.le_add_right _ _⟩
  | cons c s ih =>
    rw [runsFrom] at ht
    -- the run goes on, or it ends here, empty or not
    split_ifs at ht with hc hempty
    · have hacc' : ∀ d ∈ acc ++ [c], p d = true := by
        intro d hd
        rcases List.mem_append.mp hd with hd | hd
        · exact hacc d hd
        · rw [List.mem_singleton.mp hd]
          exact hc
      have h := ih _ hacc' ht
      rw [List.length_append, List.length_singleton] at h
      rw [List.filter_cons_of_pos hc, List.length_cons]
      exact ⟨h.1, by omega⟩
    · have h := ih [] (by simp) ht
      rw [List.filter_cons_of_neg hc]
      rw [List.length_nil] at h
      exact ⟨h.1, by omega⟩
    · rw [List.filter_cons_of_neg hc]
      rcases List.mem_cons.mp ht with rfl | ht
      · exact ⟨⟨hne hempty, hacc⟩, Nat.le_add_right _ _⟩
      · have h := ih [] (by simp) ht
        rw [List.length_nil] at h
        exact ⟨h.1, by omega⟩

theorem ne_nil_of_mem_runs {s t : Str} (ht : t ∈ runs p s) : t ≠ [] :=
  (runsFrom_spec [] (by simp) ht).1.1

theorem of_mem_runs {s t : Str} (ht : t ∈ runs p s) : ∀ c ∈ t, p c = true :=
  (runsFrom_spec [] (by simp) ht).1.2

theorem length_le_of_mem_runs {s t : Str} (ht : t ∈ runs p s) :
    t.length ≤ (s.filter p).length := by
  have h := (runsFrom_spec [] (by simp) ht).2
  rwa [List.length_nil, Nat.zero_add] at h

theorem runsFrom_of_all {t : Str} (acc : Str) (hne : acc ++ t ≠ []) (ht : ∀ c ∈ t, p c = true) :
    runsFrom p acc t = [acc ++ t] := by
  induction t generalizing acc with
  | nil =>
    rw [List.append_nil] at hne
    rw [runsFrom, List.append_nil, if_neg fun h => hne (List.isEmpty_iff.mp h)]
  | cons c t ih =>
    have hstep := ih (acc ++ [c]) (by simp) fun d hd => ht d (List.mem_cons_of_mem _ hd)
    rw [runsFrom, if_pos (ht c List.mem_cons_self), hstep, List.append_assoc]
    rfl

/-- A text of members only is one run. -/
theorem runs_of_all {t : Str} (hne : t ≠ []) (ht : ∀ c ∈ t, p c = true) : runs p t = [t] :=
  runsFrom_of_all [] hne ht

end Py.Str
