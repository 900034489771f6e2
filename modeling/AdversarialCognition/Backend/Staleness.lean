import AdversarialCognition.Backend.Idempotency

/-!
# Proposals against stale evidence

A proposal binds itself to the source digest of the record it improves. Superseding and forgetting
change a record's `state` and leave its digest alone, so a record that is no longer current still
answers to the digest it was proposed against, and `improve` never looks at the state.
`superseded_target_improved` is the run where that shows: two improves, two keys, one target, both
allowed.

What is left is the law under the missing check. A run refuses stale proposals exactly when none
of its improves passes every check there is against a record that is not current
(`stale_refused_iff`): then the first commit marks the target, no step but a write takes a mark
away (`unwritten_run`), and the second finds it marked.

## What the condition may use

It speaks of each improve of the run at the state this improve meets: whether it passes the checks
that there are, and in what state its target is. Both are known before the step is taken. An
improve whose receipt cannot be made is carried out and is not allowed, so of it the condition
asks only that its target is not marked, and that it is current where the receipt can be made.
-/

namespace AdversarialCognition

open Py Py.Str

section Laws

variable [Runtime] {b : AdversarialBackend}

/-- In this run, a stale proposal is refused. -/
structure StaleRefused (ops : List Op) : Prop where
  /-- An improve that is no retry is allowed only against a current record. -/
  current : ∀ pre post c, ops = pre ++ .call (.improve c) :: post →
    AllowedFirst (backend.after pre) c →
    ∃ r, (backend.after pre).memories.get? c.memoryId = some r ∧ r.state = lit "current"
  /-- Two such improves of one target have a write of it between them. -/
  once : ∀ pre mid post c c',
    ops = pre ++ .call (.improve c) :: (mid ++ .call (.improve c') :: post) →
    c'.memoryId = c.memoryId → AllowedFirst (backend.after pre) c →
    AllowedFirst (backend.after (pre ++ .call (.improve c) :: mid)) c' →
    ∃ p ∈ backend.traceFrom (backend.after pre) (.call (.improve c) :: mid),
      Writes p.1 p.2 c.memoryId
  /-- No improve is carried out against a superseded or forgotten record. -/
  committed : ∀ pre post c r, ops = pre ++ .call (.improve c) :: post →
    Commits (backend.after pre) c → (backend.after pre).memories.get? c.memoryId = some r →
    r.state ≠ lit "superseded" ∧ r.state ≠ lit "forgotten"

/-- An improve that passes the checks there are presents the digest of an unmarked record,
    and of a current one if its receipt can be made. -/
def CurrentTarget (b : AdversarialBackend) (op : Op) : Prop :=
  ∀ c r, op = .call (.improve c) → b.AdmitsImprove c r →
    ¬ IsMark r.state ∧
      (Encodable c.memoryId → Encodable c.replacement.memoryId → r.state = lit "current")

/-- A commit leaves its target marked, unless the replacement has the target's own id. -/
theorem target_after_commit {c : ImproveCall} {current : Memory}
    (h : b.AdmitsImprove c current) (hid : c.replacement.memoryId ≠ c.memoryId) :
    ∀ r, (b.exec (.improve c)).2.memories.get? c.memoryId = some r → IsMark r.state := by
  intro r hr
  simp only [AdversarialBackend.exec, AdversarialBackend.improve_of_admits h] at hr
  simp only [AdversarialBackend.settle_memories, AdversarialBackend.store_get?,
    Ne.symm hid, if_false, AdversarialBackend.supersede_get?, if_true, Option.some.injEq] at hr
  subst hr
  exact Or.inl rfl

/-- Two commits on one target, the second finding it unmarked, have a write of it between
    them. -/
theorem written_between {c c' : ImproveCall} {current current' : Memory} {mid : List Op}
    (h : b.AdmitsImprove c current)
    (h' : (backend.run (b.exec (.improve c)).2 mid).AdmitsImprove c' current')
    (hsame : c'.memoryId = c.memoryId) (hmark : ¬ IsMark current'.state) :
    ∃ p ∈ backend.traceFrom b (.call (.improve c) :: mid), Writes p.1 p.2 c.memoryId := by
  by_contra hno
  have hquiet : ∀ p ∈ backend.traceFrom b (.call (.improve c) :: mid),
      ¬ Writes p.1 p.2 c.memoryId := fun p hp hw => hno ⟨p, hp, hw⟩
  -- the first commit did not itself store a record under its target's id
  have hid : c.replacement.memoryId ≠ c.memoryId := fun heq =>
    hquiet _ List.mem_cons_self ⟨_, c.replacement, rfl, .improve h, heq⟩
  have hkept := unwritten_run (P := fun r => IsMark r.state)
    (fun r r' hr hm => MarkOf.isMark hr hm)
    (fun p hp => hquiet p (List.mem_cons_of_mem _ hp)) (target_after_commit h hid)
  refine hmark (hkept current' ?_)
  rw [backend_next_call, ← hsame]
  exact h'.stored

theorem staleRefused_of_currentTargets {ops : List Op}
    (h : ∀ p ∈ backend.trace ops, CurrentTarget p.1 p.2) : StaleRefused ops := by
  -- The condition, at a step of the run given by a split of its inputs.
  have hstep : ∀ pre post c r, ops = pre ++ .call (.improve c) :: post →
      (backend.after pre).AdmitsImprove c r →
      ¬ IsMark r.state ∧
        (Encodable c.memoryId → Encodable c.replacement.memoryId → r.state = lit "current") := by
    intro pre post c r hops hadm
    exact h (backend.after pre, .call (.improve c))
      (Machine.mem_trace.mpr ⟨pre, post, hops, rfl⟩) c r rfl hadm
  refine ⟨?_, ?_, ?_⟩
  · intro pre post c hops hfirst
    obtain ⟨current, hadm⟩ := commits_of_allowedFirst hfirst
    have henc := encodable_of_allowedFirst hfirst
    exact ⟨current, hadm.stored, (hstep pre post c current hops hadm).2 henc.1 henc.2⟩
  · intro pre mid post c c' hops hsame hfirst hsecond
    obtain ⟨current, hadm⟩ := commits_of_allowedFirst hfirst
    obtain ⟨current', hadm'⟩ := commits_of_allowedFirst hsecond
    have hops' : ops = (pre ++ .call (.improve c) :: mid) ++ .call (.improve c') :: post := by
      rw [hops, List.append_assoc, List.cons_append]
    have hmark := (hstep _ _ _ _ hops' hadm').1
    rw [after_call_append] at hadm'
    exact written_between hadm hadm' hsame hmark
  · intro pre post c r hops hcommit hr
    obtain ⟨current, hadm⟩ := hcommit
    obtain rfl : current = r := Option.some.inj (hadm.stored.symm.trans hr)
    have hmark := (hstep pre post c current hops hadm).1
    exact ⟨fun hsup => hmark (Or.inl hsup), fun hfor => hmark (Or.inr hfor)⟩

theorem currentTargets_of_staleRefused {ops : List Op} (h : StaleRefused ops) :
    ∀ p ∈ backend.trace ops, CurrentTarget p.1 p.2 := by
  rintro ⟨b, op⟩ hp c r rfl hadm
  obtain ⟨pre, post, hops, rfl⟩ := Machine.mem_trace.mp hp
  have hcommit : Commits (backend.after pre) c := ⟨r, hadm⟩
  have hunmarked := h.committed pre post c r hops hcommit hadm.stored
  refine ⟨?_, ?_⟩
  · rintro (hsup | hfor)
    · exact hunmarked.1 hsup
    · exact hunmarked.2 hfor
  · intro h₁ h₂
    obtain ⟨d, hd, hallow⟩ := allowed_of_commits hcommit h₁ h₂
    have hfirst : AllowedFirst (backend.after pre) c := ⟨hadm.unsettled, by rw [hd]; exact hallow⟩
    obtain ⟨r', hr', hcur⟩ := h.current pre post c hops hfirst
    obtain rfl : r = r' := Option.some.inj (hadm.stored.symm.trans hr')
    exact hcur

/-- **A run refuses stale proposals exactly when no improve of it passes the checks there are
    against a record that is not current.** The checks compare digests, and to supersede or to
    forget a record leaves its digest as it was; so what would have to be refused is told only by
    the state of the record. -/
theorem stale_refused_iff (ops : List Op) :
    StaleRefused ops ↔ ∀ p ∈ backend.trace ops, CurrentTarget p.1 p.2 :=
  ⟨currentTargets_of_staleRefused, staleRefused_of_currentTargets⟩

end Laws

section

attribute [local instance] cpython

/-- `m` is improved under one key, and then, superseded, under another. The digest is that of `m`
    both times. -/
theorem superseded_target_improved : ¬ ∀ ops : List Op, StaleRefused ops := by
  intro h
  have hrefused := h [.call (.remember (fact "m") operator "1"),
    .call (.improve (proposal "m" "n" "2" "job-1")), .call (.improve (proposal "m" "o" "3" "job-2"))]
  obtain ⟨r, hr, hcurrent⟩ := hrefused.current
    [.call (.remember (fact "m") operator "1"), .call (.improve (proposal "m" "n" "2" "job-1"))]
    [] (proposal "m" "o" "3" "job-2") rfl ⟨by decide, by decide⟩
  have hstate : Option.map Memory.state ((backend.after
      [.call (.remember (fact "m") operator "1"),
        .call (.improve (proposal "m" "n" "2" "job-1"))]).memories.get? "m") =
      some (lit "superseded") := by decide
  rw [show (proposal "m" "o" "3" "job-2").memoryId = lit "m" from rfl] at hr
  rw [hr, Option.map_some, hcurrent] at hstate
  exact absurd hstate (by decide)

end

end AdversarialCognition
