import AdversarialCognition.Protocol.Attempts
import AdversarialCognition.Lib.Sha256

/-!
# Scored in full, or after the cut

A row is scored on the ids that are reported: eight of them, cut to 64 characters. The reference
scores all of them. `MeetsIds` of the two lists comes apart in two ways, and `meetsIds_clip_iff`
says they are all there are: `CutAway` is what meets the case until it is cut, `CutToFit` what
meets the case only because it is.

Both have a cause, and the cause is part of the definition: too many expected ids or a long one,
the head of a long id being a forbidden id, a long id standing in for an expected one, a forbidden
id that is out of sight. Without the causes the two would say no more than the result does;
with them it has to be shown that nothing else can come of a cut (`meets_clip_of_not_cutAway`,
`meets_of_not_cutToFit`).

The expected flag comes first. Where an outcome has the wrong one, no ids make it correct, and the
cut does no harm.
-/

namespace AdversarialCognition

open Py Py.Str Prog

/-- What the case asks for is returned, and the cut spoils it: there are more expected ids
    than are reported, one of them is too long, or the head of an id that is too long is a
    forbidden id. -/
structure CutAway (case : Case) (ids : List Str) : Prop where
  meets : MeetsIds case ids
  spoiled : maxIds < case.expectedIds.length ∨ (∃ id ∈ case.expectedIds, maxIdChars < id.length) ∨
    ∃ id ∈ ids.take maxIds, maxIdChars < id.length ∧ id.take maxIdChars ∈ case.forbiddenIds

/-- The cut is what the case asks for, and what is returned is not: an id that stands for an
    expected one is too long, or a forbidden id is returned all the same. -/
structure CutToFit (case : Case) (ids : List Str) : Prop where
  meets : MeetsIds case (clip ids)
  hidden : (∃ id ∈ ids.take case.expectedIds.length, maxIdChars < id.length) ∨
    ∃ id ∈ case.forbiddenIds, id ∈ ids

section Clip

variable {case : Case} {ids : List Str}

/-- The cut leaves nothing only of nothing, so an abstention is not made or unmade by it. -/
theorem clip_eq_nil_iff : clip ids = [] ↔ ids = [] := by
  simp [clip, maxIds]

theorem mem_clip {f : Str} : f ∈ clip ids ↔ ∃ id ∈ ids.take maxIds, id.take maxIdChars = f := by
  simp only [clip, List.mem_map]

theorem length_le_of_mem_clip {f : Str} (h : f ∈ clip ids) : f.length ≤ maxIdChars := by
  obtain ⟨id, -, rfl⟩ := mem_clip.mp h
  exact List.length_take_le _ _

theorem map_take_eq_self {l : List Str} (h : ∀ id ∈ l, id.length ≤ maxIdChars) :
    l.map (·.take maxIdChars) = l := by
  conv_rhs => rw [← List.map_id l]
  exact List.map_congr_left fun id hid => List.take_of_length_le (h id hid)

theorem take_clip {n : ℕ} (h : n ≤ maxIds) :
    (clip ids).take n = (ids.take n).map (·.take maxIdChars) := by
  rw [clip, ← List.map_take, List.take_take, Nat.min_eq_left h]

/-- A cut that begins with the expected ids has room for them. -/
theorem length_le_of_take_clip (h : (clip ids).take case.expectedIds.length = case.expectedIds) :
    case.expectedIds.length ≤ maxIds := by
  have hlength := congrArg List.length h
  simp only [clip, List.length_take, List.length_map] at hlength
  omega

theorem short_of_take_clip (h : (clip ids).take case.expectedIds.length = case.expectedIds) :
    ∀ id ∈ case.expectedIds, id.length ≤ maxIdChars := by
  intro id hid
  rw [← h] at hid
  exact length_le_of_mem_clip (List.mem_of_mem_take hid)

/-!
## The two ways

The cut can spoil a good answer, and it can make a bad one pass. Each has its causes, and where
none of these is there the cut list and the whole list are scored alike.
-/

theorem CutAway.not_meets_clip (h : CutAway case ids) : ¬ MeetsIds case (clip ids) := by
  intro hclip
  rcases h.spoiled with hlength | ⟨id, hid, hlong⟩ | ⟨id, hid, -, hforb⟩
  · exact absurd (length_le_of_take_clip hclip.expected) (not_le.mpr hlength)
  · exact absurd (short_of_take_clip hclip.expected id hid) (not_le.mpr hlong)
  · exact hclip.forbidden _ hforb (mem_clip.mpr ⟨id, hid, rfl⟩)

/-- What meets the case meets it when cut, without a cause for the contrary. -/
theorem meets_clip_of_not_cutAway (h : MeetsIds case ids) (hcut : ¬ CutAway case ids) :
    MeetsIds case (clip ids) := by
  have hlength : case.expectedIds.length ≤ maxIds := by
    apply not_lt.mp
    exact fun hlong => hcut ⟨h, Or.inl hlong⟩
  have hshort : ∀ id ∈ case.expectedIds, id.length ≤ maxIdChars := fun id hid =>
    not_lt.mp fun hlong => hcut ⟨h, Or.inr (Or.inl ⟨id, hid, hlong⟩)⟩
  refine ⟨?_, fun habs => clip_eq_nil_iff.mpr (h.abstains habs), fun f hf hmem => ?_⟩
  · rw [take_clip hlength, h.expected, map_take_eq_self hshort]
  · obtain ⟨id, hid, hhead⟩ := mem_clip.mp hmem
    by_cases hlong : maxIdChars < id.length
    · exact hcut ⟨h, Or.inr (Or.inr ⟨id, hid, hlong, hhead ▸ hf⟩)⟩
    · -- a forbidden id that is not cut was returned as it is
      rw [List.take_of_length_le (not_lt.mp hlong)] at hhead
      exact h.forbidden f hf (hhead ▸ List.mem_of_mem_take hid)

theorem CutToFit.not_meets (h : CutToFit case ids) : ¬ MeetsIds case ids := by
  intro hfull
  cases h.hidden with
  | inl hlong =>
    obtain ⟨id, hid, hlong⟩ := hlong
    rw [hfull.expected] at hid
    exact absurd (short_of_take_clip h.meets.expected id hid) (not_le.mpr hlong)
  | inr hforb =>
    obtain ⟨id, hid, hmem⟩ := hforb
    exact hfull.forbidden id hid hmem

/-- What meets the case when cut meets it in full, without a cause for the contrary. -/
theorem meets_of_not_cutToFit (h : MeetsIds case (clip ids)) (hcut : ¬ CutToFit case ids) :
    MeetsIds case ids := by
  have hexp := h.expected
  rw [take_clip (length_le_of_take_clip h.expected)] at hexp
  have hshort : ∀ id ∈ ids.take case.expectedIds.length, id.length ≤ maxIdChars := fun id hid =>
    not_lt.mp fun hlong => hcut ⟨h, Or.inl ⟨id, hid, hlong⟩⟩
  refine ⟨?_, fun habs => clip_eq_nil_iff.mp (h.abstains habs), fun id hid hmem => ?_⟩
  · rw [← map_take_eq_self hshort, hexp]
  · exact hcut ⟨h, Or.inr ⟨id, hid, hmem⟩⟩

/-- **The cut and the whole list agree unless one of the two happens.** -/
theorem meetsIds_clip_iff :
    (MeetsIds case (clip ids) ↔ MeetsIds case ids) ↔ ¬ CutAway case ids ∧ ¬ CutToFit case ids := by
  constructor
  · intro hiff
    exact ⟨fun hcut => hcut.not_meets_clip (hiff.mpr hcut.meets),
      fun hcut => hcut.not_meets (hiff.mp hcut.meets)⟩
  · intro hcuts
    exact ⟨fun h => meets_of_not_cutToFit h hcuts.2, fun h => meets_clip_of_not_cutAway h hcuts.1⟩

end Clip

/-!
## Rows

A row is scored on what is left of the ids. The reference would score the whole list, and the two
agree exactly where the cut does no harm.
-/

/-- The outcome as the reference's evaluation takes it. -/
def CaseOutcome.decision (outcome : CaseOutcome) : Decision :=
  { allowed := outcome.allowed, ids := outcome.ids }

/-- The outcome is scored alike before and after the cut. -/
def CutHarmless (case : Case) (outcome : CaseOutcome) : Prop :=
  outcome.allowed = case.expectedAllowed →
    ¬ CutAway case outcome.ids ∧ ¬ CutToFit case outcome.ids

theorem completedRow_correct_iff {case : Case} {outcome : CaseOutcome} :
    (completedRow case outcome).correct = referenceCorrect case outcome.decision ↔
      CutHarmless case outcome := by
  show meetsExpectation case outcome.allowed (clip outcome.ids) =
    meetsExpectation case outcome.allowed outcome.ids ↔ _
  rw [Bool.eq_iff_iff, meetsExpectation_iff, meetsExpectation_iff, CutHarmless,
    ← meetsIds_clip_iff]
  exact and_congr_right_iff

section Rows

variable [Runtime] {σ : Type} {w : World system σ} {capabilities : Finset Capability}
  {temporal : Bool} {case : Case} {sc : Scenario} {s t : σ} {outcome : CaseOutcome}

/-- **A row is scored as the reference would score it exactly where the cut does no harm.** The
    ids are cut to eight of 64 characters before they are evaluated, which can take a forbidden id
    away, or take an expected one out or make it another. -/
theorem scored_in_full_iff (hsc : supportedScenario? capabilities case.caseId = some sc)
    (h : counted w temporal sc attempts s = some (t, outcome)) :
    (∃ row, ((runCase capabilities temporal case).run w s).result = .ok row ∧
        row.correct = referenceCorrect case outcome.decision) ↔
      CutHarmless case outcome := by
  rw [runCase_of_counted hsc h, ← completedRow_correct_iff]
  constructor
  · intro hrow
    obtain ⟨row, hrow, hcorrect⟩ := hrow
    cases hrow
    exact hcorrect
  · exact fun hcorrect => ⟨_, rfl, hcorrect⟩

end Rows

section

attribute [local instance] cpython

/-- Nothing is too long or too many, and the row is scored as the reference would. -/
theorem scored_in_full_short :
    ∃ row, ((runCase {.temporal} true
        { caseId := "retrieval-current", expectedIds := [lit "price-current"] }).run
          (steady [lit "price-current", lit "soil"]) ()).result = .ok row ∧
      row.correct = referenceCorrect
        { caseId := "retrieval-current", expectedIds := [lit "price-current"] }
        (CaseOutcome.decision ⟨true, [lit "price-current", lit "soil"]⟩) := by
  have hcounted : counted (steady [lit "price-current", lit "soil"]) true .retrievalCurrent
      attempts () = some ((), ⟨true, [lit "price-current", lit "soil"]⟩) :=
    counted_of_ok rfl
  apply (scored_in_full_iff (by decide) hcounted).mpr
  exact completedRow_correct_iff.mp (by decide)

/-- Eight ids the case has nothing against, and one it forbids. -/
def nineIds : List Str :=
  lit "price-current" :: List.replicate 7 (lit "soil") ++ [lit "private-farm"]

def farmForbidden : Case where
  caseId := "retrieval-current"
  expectedIds := [lit "price-current"]
  forbiddenIds := [lit "private-farm"]

/-- The ninth id is forbidden, and the row is correct all the same. The reference would not score
    it so. -/
theorem ninth_id_not_scored :
    counted (steady nineIds) true .retrievalCurrent attempts () = some ((), ⟨true, nineIds⟩) ∧
      lit "private-farm" ∈ farmForbidden.forbiddenIds ∧ lit "private-farm" ∈ nineIds ∧
      referenceCorrect farmForbidden (CaseOutcome.decision ⟨true, nineIds⟩) = false ∧
      ∃ row, ((runCase {.temporal} true farmForbidden).run (steady nineIds) ()).result = .ok row ∧
        row.supported = true ∧ row.correct = true :=
  ⟨rfl, by decide, by decide, by decide, _, rfl, by decide, by decide⟩

end

end AdversarialCognition
