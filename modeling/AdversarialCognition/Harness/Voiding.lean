import AdversarialCognition.Harness.Failures
import AdversarialCognition.Lib.Sha256

/-!
# Voided claims

A probe is made at every preparation, and its verdict replaces the one before it. An authorization
case is declined while the verdict in force, the one before its own probe, is that a session was
issued. So what a run voids depends on the order of the answers, and not on whether a probe was
ever answered with a session: `voided_iff`.

## The verdict in force

`latest` reads it off the notes before a point of the run. The check of a track is the same thing
kept as a field, and `Agrees` is the invariant that ties the two. A preparation carries it over
(`agrees_of_probed`), and so do a case and the list of cases, each of them together with what the
rows it leaves have to do with the verdicts at its turns. The induction is on the cases.

Two things about the order matter. A case is declined by the verdict before its own preparation,
so the answer to the last probe has no part in any row but is what the payload reports. And a
declined case makes no preparation, so once a verdict voids, only a case that needs no
authorization can bring another.

## Both outcomes occur

`voided_isolating` and `verdict_overwritten` are the same backend and the same two cases with
other answers and another order. In the second a forged credential was accepted, and the run still
passes.
-/

namespace AdversarialCognition

open Py Py.Str Prog

/-!
## The verdict in force

The answers to the probes are read off the notes of a run, and the verdict in force at a point is
the last of them before it.
-/

/-- Whether the last probe was answered with a session, `v` where there was none. -/
def latest (v : Bool) : List HarnessNote → Bool
  | [] => v
  | .probe accepted :: ns => latest accepted ns
  | _ :: ns => latest v ns

/-- Wherever a supported authorization case begins, the last probe before it was answered with a
    session. Cases that the track does not support put no condition on it, as their rows are
    unsupported anyway. -/
def VoidedAtTurns (capabilities : Finset Capability) (v : Bool) : List HarnessNote → Prop
  | [] => True
  | .probe accepted :: ns => VoidedAtTurns capabilities accepted ns
  | .turn case :: ns =>
      (isAuthorizationCase case.caseId = true →
        trackSupported? capabilities case.caseId ≠ none → v = true) ∧
      VoidedAtTurns capabilities v ns
  | .operation _ :: ns => VoidedAtTurns capabilities v ns

/-- The check of a track is the verdict in force. That no probe was made and that one was answered
    without a session are the same here. -/
def Agrees (v : Bool) (check : AuthorizationCheck) : Prop :=
  check = .failedNegativeProbe ↔ v = true

section Notes

variable {capabilities : Finset Capability} {v : Bool} {ns ms : List HarnessNote}

theorem latest_append : latest v (ns ++ ms) = latest (latest v ns) ms := by
  induction ns generalizing v with
  | nil => rfl
  | cons n ns ih =>
    cases n with
    | operation result => exact ih
    | probe accepted => exact ih
    | turn case => exact ih

/-- The turns of a run put together are those of its parts, the later part beginning with the
    verdict the earlier one ends with. -/
theorem voidedAtTurns_append :
    VoidedAtTurns capabilities v (ns ++ ms) ↔
      VoidedAtTurns capabilities v ns ∧ VoidedAtTurns capabilities (latest v ns) ms := by
  induction ns generalizing v with
  | nil => exact (iff_of_eq (true_and _)).symm
  | cons n ns ih =>
    cases n with
    | operation result => exact ih
    | probe accepted => exact ih
    | turn case => exact (and_congr_right' ih).trans and_assoc.symm

/-- A preparation carries the agreement over, and begins no case. -/
theorem agrees_of_probed {τ : Type} {track track' : Track τ}
    (h : Probed capabilities track ns track') (hv : Agrees v track.check) :
    Agrees (latest v ns) track'.check ∧ VoidedAtTurns capabilities v ns := by
  cases h with
  | inl h =>
    obtain ⟨_, accepted, rfl, hcheck⟩ := h
    refine ⟨?_, trivial⟩
    rw [hcheck]
    cases accepted with
    | true => exact iff_of_true rfl rfl
    | false => exact iff_of_false (by decide) Bool.false_ne_true
  | inr h =>
    obtain ⟨_, rfl, hcheck⟩ := h
    refine ⟨?_, trivial⟩
    rw [hcheck]
    exact hv

end Notes

/-- No row of an authorization case is supported. -/
def RowsVoided (rows : List TrackRow) : Prop :=
  ∀ row ∈ rows, isAuthorizationCase row.caseId = true → row.supported = false

theorem rowsVoided_cons {row : TrackRow} {rows : List TrackRow} :
    RowsVoided (row :: rows) ↔ RowsVoided [row] ∧ RowsVoided rows := by
  simp only [RowsVoided, List.forall_mem_cons, List.not_mem_nil, false_implies, implies_true,
    and_true]

/-!
## A case, the cases, the run

The agreement between the notes and the check of the track is carried from case to case, together
with what it says of the rows.
-/

section Run

variable [Runtime] [Decoder] {τ : Type} {capabilities : Finset Capability}

omit [Runtime] [Decoder] in
theorem Track.voided_eq_true_iff {track : Track τ} {v : Bool} {caseId : Str}
    (hv : Agrees v track.check) :
    track.voided caseId = true ↔ v = true ∧ isAuthorizationCase caseId = true := by
  rw [Track.voided, Bool.and_eq_true, decide_eq_true_iff]
  exact and_congr_left' hv

/-- **One case**: the agreement goes on, and the row is voided exactly if the verdict at the turn
    says so. -/
theorem runTrackCase_agrees (track : Track τ) (case : Case) {v : Bool}
    (hv : Agrees v track.check) :
    (runTrackCase capabilities track case).Gives fun ns out =>
      Agrees (latest v ns) out.2.check ∧
        (VoidedAtTurns capabilities v ns ↔ RowsVoided [out.1]) := by
  refine (runTrackCase_gives track case).mono fun ns out h => ?_
  cases h with
  -- declined: its row is unsupported in any case, and the question is whether the turn agrees
  | inl hdeclined =>
    obtain ⟨hwhy, rfl, rfl⟩ := hdeclined
    refine ⟨hv, iff_of_true ⟨fun hauth hsupported => ?_, trivial⟩ ?_⟩
    · have hvoided := hwhy.resolve_left hsupported
      exact ((Track.voided_eq_true_iff hv).mp hvoided).1
    · intro row hrow _
      rw [List.mem_singleton.mp hrow]
      rfl
  -- run: the case was not voided, so its row is supported, and the turn must not ask for the
  -- verdict
  | inr hperformed =>
    obtain ⟨sc, probes, result, outcome, hsc, hvoided, hprobed, rfl, _, hrow⟩ := hperformed
    obtain ⟨hagrees, hturns⟩ := agrees_of_probed hprobed hv
    have hlatest : latest v (.turn case :: (probes ++ [.operation result])) = latest v probes :=
      latest_append
    have hrest : VoidedAtTurns capabilities v (probes ++ [.operation result]) :=
      voidedAtTurns_append.mpr ⟨hturns, trivial⟩
    refine ⟨by rwa [hlatest], ?_⟩
    have hopen : ¬ (v = true ∧ isAuthorizationCase case.caseId = true) := by
      rw [← Track.voided_eq_true_iff hv, hvoided]
      exact Bool.false_ne_true
    constructor
    · intro hturn row hmem hauth
      rw [List.mem_singleton.mp hmem, hrow] at hauth
      have hsupported : trackSupported? capabilities case.caseId ≠ none := by
        rw [hsc]
        exact Option.some_ne_none sc
      exact absurd ⟨hturn.1 hauth hsupported, hauth⟩ hopen
    · intro hrows
      refine ⟨fun hauth _ => ?_, hrest⟩
      have hunsupported := hrows out.1 (List.mem_singleton_self _)
      rw [hrow] at hunsupported
      exact absurd (hunsupported hauth).symm Bool.false_ne_true

/-- **All cases**, one after the other. -/
theorem runTrackCases_agrees (cases : List Case) (track : Track τ) {v : Bool}
    (hv : Agrees v track.check) :
    (runTrackCases capabilities track cases).Gives fun ns out =>
      Agrees (latest v ns) out.2.check ∧
        (VoidedAtTurns capabilities v ns ↔ RowsVoided out.1) := by
  induction cases generalizing track v with
  | nil => exact gives_pure ⟨hv, iff_of_true trivial fun _ h => absurd h List.not_mem_nil⟩
  | cons case cases ih =>
    refine (runTrackCase_agrees track case hv).bind fun ns out h =>
      (ih out.2 h.1).bind fun ms rest hrest => gives_pure ?_
    rw [List.append_nil, latest_append, voidedAtTurns_append, h.2, hrest.2, ← rowsVoided_cons]
    exact ⟨hrest.1, Iff.rfl⟩

/-!
## The law

A run in which a probe was answered with a session should be void: the check failed, and no
authorization case supported. It is void exactly if that was the verdict in force wherever it was
looked at.
-/

/-- What a run must report once a probe was answered with a session: the failed check, and no
    authorization case that is supported. -/
structure TrackPayload.Voided (payload : TrackPayload) : Prop where
  check : payload.authorizationCheck = .failedNegativeProbe
  rows : RowsVoided payload.cases

/-- The verdict in force is a session wherever an authorization case begins, and at the end. -/
def VerdictStands (capabilities : Finset Capability) (ns : List HarnessNote) : Prop :=
  latest false ns = true ∧ VoidedAtTurns capabilities false ns

theorem runTrack_gives (backend : AgentMemoryBackend) (model : Str) (cases : List Case) :
    (runTrack (τ := τ) backend model cases).Gives fun ns payload =>
      payload.Voided ↔ VerdictStands backend.capabilities ns := by
  refine (fresh_gives {}).bind fun probes track hprobed => ?_
  have hstart : Agrees false (AuthorizationCheck.notApplicable) :=
    iff_of_false (by decide) Bool.false_ne_true
  obtain ⟨hagrees, hturns⟩ := agrees_of_probed hprobed hstart
  refine (runTrackCases_agrees cases track hagrees).bind fun ns out h => gives_pure ?_
  rw [List.append_nil]
  constructor
  · intro hvoided
    constructor
    · rw [latest_append]
      exact h.1.mp hvoided.check
    · rw [voidedAtTurns_append]
      exact ⟨hturns, h.2.mpr hvoided.rows⟩
  · intro hstands
    rw [VerdictStands, latest_append, voidedAtTurns_append] at hstands
    exact ⟨h.1.mpr hstands.1, h.2.mp hstands.2.2⟩

/-- **A run in which a probe was answered with a session is voided exactly if that verdict was the
    one in force at every supported authorization case and at the end.** The verdict is assigned
    anew before every case. The induction is over the cases, from the verdict that was there
    before them. -/
theorem voided_iff (backend : AgentMemoryBackend) (model : Str) (cases : List Case) {σ : Type}
    (w : World (harness τ) σ) (s : σ) {payload : TrackPayload}
    (hrun : ((runTrack backend model cases).run w s).result = .ok payload) :
    let ns := notes ((runTrack backend model cases).run w s).trace
    (HarnessNote.probe true ∈ ns → payload.Voided) ↔
      (HarnessNote.probe true ∈ ns → VerdictStands backend.capabilities ns) :=
  imp_congr_right fun _ => (runTrack_gives backend model cases).of_run hrun

/-!
## Runs put together

A run that is evaluated case by case, over a world whose answers to the probe are given in
advance. Two of these with the same two cases differ in the order only.
-/

section Ends

variable {σ : Type} {w : World (harness τ) σ} {s t u : σ} {track track' track'' : Track τ}
  {case : Case} {cases : List Case} {ns ms : List HarnessNote} {row : TrackRow}
  {rows : List TrackRow}

theorem ends_runTrackCase_of_voided (h : track.voided case.caseId = true) :
    Ends w s (runTrackCase capabilities track case) [.turn case]
      (unsupportedTrackRow case.caseId, track) s := by
  refine ends_noting_bind ?_
  cases trackSupported? capabilities case.caseId with
  | none => exact ends_pure _
  | some sc =>
    simp only [h, if_true]
    exact ends_pure _

theorem ends_runTrackCases_nil :
    Ends w s (runTrackCases capabilities track []) [] ([], track) s := ends_pure _

theorem ends_runTrackCases_cons
    (hcase : Ends w s (runTrackCase capabilities track case) ns (row, track') t)
    (hcases : Ends w t (runTrackCases capabilities track' cases) ms (rows, track'') u) :
    Ends w s (runTrackCases capabilities track (case :: cases)) (ns ++ ms)
      (row :: rows, track'') u :=
  hcase.bind (hcases.bind_pure rfl)

theorem ends_runTrack {backend : AgentMemoryBackend} (model : Str)
    (hfresh : Ends w s (fresh backend.capabilities {}) ns track t)
    (hcases : Ends w t (runTrackCases backend.capabilities track cases) ms (rows, track') u) :
    ∃ payload, Ends w s (runTrack backend model cases) (ns ++ ms) payload u ∧
      payload.authorizationCheck = track'.check ∧ payload.cases = rows :=
  ⟨_, hfresh.bind (hcases.bind_pure rfl), rfl, rfl⟩

end Ends

end Run

section

attribute [local instance] cpython Decoder.verbatim

/-- A backend whose only authorization claim is isolation. -/
def isolating : AgentMemoryBackend where
  capabilities := {.retrieval, .isolation}

def priceCase : Case := { caseId := "retrieval-current", expectedIds := [lit "price-current"] }

def tenantCase : Case := { caseId := "isolation-tenant" }

theorem ends_fresh_isolating (accepted : Bool) (answers : List Bool) (track : Track Unit) :
    Ends (down []) (accepted :: answers) (fresh isolating.capabilities track) [.probe accepted]
      (judged accepted) answers :=
  ends_fresh_down_claiming [] answers (by decide) accepted track

theorem ends_runTrackCase_isolating (before accepted : Bool) (answers : List Bool) {case : Case}
    {sc : Scenario} (hsc : trackSupported? isolating.capabilities case.caseId = some sc)
    (hvoided : (judged before).voided case.caseId = false) :
    ∃ result, Ends (down []) (accepted :: answers)
      (runTrackCase isolating.capabilities (judged before) case)
      [.turn case, .probe accepted, .operation result]
      (trackRow case (downOutcome [] sc), judged accepted) answers := by
  obtain ⟨result, _, h⟩ := ends_runTrackCase_down hsc hvoided
    (ends_fresh_isolating accepted answers (judged before))
  exact ⟨result, h⟩

theorem supported_priceCase :
    trackSupported? isolating.capabilities priceCase.caseId = some .retrievalCurrent := by
  decide

theorem supported_tenantCase :
    trackSupported? isolating.capabilities tenantCase.caseId = some .isolationTenant := by
  decide

/-- Both probes are answered with a session, and the run is voided: the check has failed, and the
    case about tenants is declined. -/
theorem voided_isolating :
    ∃ payload, ((runTrack isolating "model" [tenantCase, priceCase]).run (down [])
      [true, true]).result = .ok payload ∧ payload.Voided := by
  obtain ⟨result, hprice⟩ := ends_runTrackCase_isolating true true [] supported_priceCase
    (by decide)
  have htenant : Ends (down []) [true] (runTrackCase isolating.capabilities (judged true)
      tenantCase) [.turn tenantCase] (unsupportedTrackRow tenantCase.caseId, judged true) [true] :=
    ends_runTrackCase_of_voided (by decide)
  obtain ⟨payload, hends, _⟩ := ends_runTrack "model" (ends_fresh_isolating true [true] {})
    (ends_runTrackCases_cons htenant (ends_runTrackCases_cons hprice ends_runTrackCases_nil))
  have hns : notes ((runTrack isolating "model" [tenantCase, priceCase]).run (down [])
      [true, true]).trace =
      [.probe true, .turn tenantCase, .turn priceCase, .probe true, .operation result] :=
    hends.notes
  refine ⟨payload, hends.result, (voided_iff isolating "model" [tenantCase, priceCase] (down [])
    [true, true] hends.result).mpr ?_ ?_⟩
  · intro _
    rw [hns]
    exact ⟨rfl, fun _ _ => rfl, fun hauth => absurd hauth (by decide), trivial⟩
  · rw [hns]
    exact List.mem_cons_self

/-- The first probe is answered with a session and the second is not. A tenant case that comes
    after the second is credited, and the run passes. -/
theorem verdict_overwritten :
    ∃ payload, ((runTrack isolating "model" [priceCase, tenantCase]).run (down [])
      [true, false, false]).result = .ok payload ∧
      HarnessNote.probe true ∈ notes ((runTrack isolating "model" [priceCase, tenantCase]).run
        (down []) [true, false, false]).trace ∧
      payload.authorizationCheck = .passed ∧
      payload.cases.map (fun row => (row.caseId, row.supported)) =
        [(lit "retrieval-current", true), (lit "isolation-tenant", true)] := by
  obtain ⟨_, hprice⟩ := ends_runTrackCase_isolating true false [false] supported_priceCase
    (by decide)
  obtain ⟨_, htenant⟩ := ends_runTrackCase_isolating false false [] supported_tenantCase
    (by decide)
  obtain ⟨payload, hends, hcheck, hrows⟩ := ends_runTrack "model"
    (ends_fresh_isolating true [false, false] {})
    (ends_runTrackCases_cons hprice (ends_runTrackCases_cons htenant ends_runTrackCases_nil))
  refine ⟨payload, hends.result, ?_, hcheck, ?_⟩
  · rw [hends.notes]
    exact List.mem_cons_self
  · rw [hrows]
    rfl

end

end AdversarialCognition
