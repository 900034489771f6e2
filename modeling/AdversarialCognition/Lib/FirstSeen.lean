import Mathlib.Data.List.Basic

/-!
# What is seen first

The loop that puts into a list what it has not seen. Where some of the items are what the list is
to be made of and others only come between, the list is the one of the first alone exactly if each
of the others comes when it has been seen, or when it is next (`upTo_firstSeen_eq_iff`).

The application is a program that searches a text for tags and finds, besides the tags it printed,
whatever else in the text looks like one. A `Mark` is either of them. What makes the second kind
harmless is not that it is rare, it is where it stands: a mention of a tag that was already found
is skipped by the loop, and one of the tag that comes next only finds it early. The condition
`InTurn` is these two, followed along the list, and a third: with the list cut off at a limit, no
place may be left.
-/

namespace FirstSeen

variable {α : Type*} [DecidableEq α]

/-- `for x in items: if x not in seen: seen.add(x); found.append(x)`, for what is found. What is
    seen at the start is skipped as well. -/
def firstSeen (seen : List α) : List α → List α
  | [] => []
  | x :: xs => if x ∈ seen then firstSeen seen xs else x :: firstSeen (x :: seen) xs

/-- An item the list is made of, or one that comes between. -/
inductive Mark (α : Type*)
  | tag (x : α)
  | mention (x : α)

def Mark.item : Mark α → α
  | .tag x => x
  | .mention x => x

def Mark.tag? : Mark α → Option α
  | .tag x => some x
  | .mention _ => none

def tags (marks : List (Mark α)) : List α := marks.filterMap Mark.tag?

/-- `found[:limit]`, or all of it. -/
def upTo : Option ℕ → List α → List α
  | none, l => l
  | some k, l => l.take k

/-- Each mention is of an item that has been seen, or that is the next among the tags, or comes
    when there is no place left. The places are counted down with every item that is new, tag or
    mention, since the loop does not tell the two apart. -/
def InTurn : Option ℕ → List α → List (Mark α) → Prop
  | _, _, [] => True
  | limit, seen, m :: marks =>
      (∀ x, m = .mention x → x ∉ seen →
        limit = some 0 ∨ (tags marks).find? (fun y => decide (y ∉ seen)) = some x) ∧
      if m.item ∈ seen then InTurn limit seen marks
      else InTurn (limit.map (· - 1)) (m.item :: seen) marks

omit [DecidableEq α] in
theorem tags_append (marks more : List (Mark α)) : tags (marks ++ more) = tags marks ++ tags more :=
  List.filterMap_append

theorem firstSeen_of_find_none {seen l : List α}
    (h : l.find? (fun y => decide (y ∉ seen)) = none) : firstSeen seen l = [] := by
  induction l with
  | nil => rfl
  | cons y l ih =>
    rw [List.find?_eq_none] at h
    have hy : y ∈ seen := by simpa using h y List.mem_cons_self
    rw [firstSeen, if_pos hy]
    exact ih (List.find?_eq_none.mpr fun z hz => h z (List.mem_cons_of_mem _ hz))

/-- The next item is put first, and is seen from there on. So a mention of it, if it comes before
    the tag does, changes nothing. -/
theorem firstSeen_of_find_some {seen l : List α} {x : α}
    (h : l.find? (fun y => decide (y ∉ seen)) = some x) :
    firstSeen seen l = x :: firstSeen (x :: seen) l := by
  induction l with
  | nil => cases h
  | cons y l ih =>
    by_cases hy : y ∈ seen
    · rw [List.find?_cons_of_neg (by simpa using hy)] at h
      rw [firstSeen, if_pos hy, ih h, firstSeen, if_pos (List.mem_cons_of_mem _ hy)]
    · rw [List.find?_cons_of_pos (by simpa using hy)] at h
      obtain rfl := Option.some.inj h
      rw [firstSeen, if_neg hy, firstSeen, if_pos List.mem_cons_self]

theorem inTurn_zero (seen : List α) (marks : List (Mark α)) : InTurn (some 0) seen marks := by
  induction marks generalizing seen with
  | nil => trivial
  | cons m marks ih =>
    refine ⟨fun _ _ _ => .inl rfl, ?_⟩
    split
    · exact ih seen
    · exact ih _

omit [DecidableEq α] in
theorem upTo_cons {limit : Option ℕ} (h : limit ≠ some 0) (x : α) (l : List α) :
    upTo limit (x :: l) = x :: upTo (limit.map (· - 1)) l := by
  match limit with
  | none => rfl
  | some 0 => exact absurd rfl h
  | some (k + 1) => rfl

omit [DecidableEq α] in
theorem length_cons_le_iff {limit : Option ℕ} (h : limit ≠ some 0) (x : α) (l : List α) :
    (∀ k ∈ limit, (x :: l).length ≤ k) ↔ ∀ k ∈ limit.map (· - 1), l.length ≤ k := by
  match limit with
  | none => simp
  | some 0 => exact absurd rfl h
  | some (k + 1) => simp

theorem inTurn_tag (limit : Option ℕ) (seen : List α) (x : α) (marks : List (Mark α)) :
    InTurn limit seen (.tag x :: marks) ↔
      if x ∈ seen then InTurn limit seen marks else InTurn (limit.map (· - 1)) (x :: seen) marks :=
  and_iff_right fun _ h => nomatch h

theorem inTurn_mention (limit : Option ℕ) (seen : List α) (x : α) (marks : List (Mark α)) :
    InTurn limit seen (.mention x :: marks) ↔
      (x ∉ seen →
        limit = some 0 ∨ (tags marks).find? (fun y => decide (y ∉ seen)) = some x) ∧
      if x ∈ seen then InTurn limit seen marks else InTurn (limit.map (· - 1)) (x :: seen) marks := by
  refine and_congr_left' ⟨fun h => h x rfl, fun h y hy => ?_⟩
  cases hy
  exact h

/-- **What is found is what the tags alone would give exactly if** they have a place each and
    every mention is in turn. Both parts of the condition are about the marks and the limit, and
    can be read off them before the loop is run. -/
theorem upTo_firstSeen_eq_iff (limit : Option ℕ) (seen : List α) (marks : List (Mark α)) :
    upTo limit (firstSeen seen (marks.map Mark.item)) = firstSeen seen (tags marks) ↔
      (∀ k ∈ limit, (firstSeen seen (tags marks)).length ≤ k) ∧ InTurn limit seen marks := by
  induction marks generalizing limit seen with
  | nil => cases limit <;> simp [firstSeen, tags, InTurn, upTo]
  | cons m marks ih =>
    cases m with
    | tag x =>
      have htags : tags (.tag x :: marks) = x :: tags marks := rfl
      have hitems : (Mark.tag x :: marks).map Mark.item = x :: marks.map Mark.item := rfl
      rw [htags, hitems, inTurn_tag, firstSeen, firstSeen]
      by_cases hx : x ∈ seen
      · simp only [if_pos hx]
        exact ih limit seen
      simp only [if_neg hx]
      -- with no place left the list ends here, and nothing behind it matters
      by_cases hlimit : limit = some 0
      · simp [hlimit, upTo]
      · rw [upTo_cons hlimit, length_cons_le_iff hlimit, List.cons.injEq]
        exact (and_iff_right rfl).trans (ih _ _)
    | mention x =>
      have htags : tags (.mention x :: marks) = tags marks := rfl
      have hitems : (Mark.mention x :: marks).map Mark.item = x :: marks.map Mark.item := rfl
      rw [htags, hitems, inTurn_mention, firstSeen]
      by_cases hx : x ∈ seen
      · simp only [hx, not_true_eq_false, false_implies, true_and, if_true]
        exact ih limit seen
      simp only [hx, not_false_eq_true, true_implies, if_false]
      by_cases hlimit : limit = some 0
      · -- no place is left for the mention, and none for a tag
        simp [hlimit, upTo, inTurn_zero, eq_comm]
      rw [upTo_cons hlimit]
      cases hnext : (tags marks).find? (fun y => decide (y ∉ seen)) with
      | none => simp [firstSeen_of_find_none hnext, hlimit]
      | some y =>
        rw [firstSeen_of_find_some hnext, length_cons_le_iff hlimit, List.cons.injEq]
        by_cases hxy : x = y
        · subst hxy
          simpa [hlimit] using ih (limit.map (· - 1)) (x :: seen)
        · simp [hxy, hlimit, Ne.symm hxy]

end FirstSeen
