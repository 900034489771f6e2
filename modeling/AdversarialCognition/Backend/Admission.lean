import AdversarialCognition.Backend.Idempotency

/-!
# What gets into the store

Two operations store a record a caller passed in. `remember` checks its size, its tenant and
space, and its sensitivity; `improve` checks the sensitivity of the replacement and nothing else
about it. So the admission rules of the boundary hold of a run exactly when its improves keep the
rules `improve` does not check (`admission_rules_iff`).

The size bound is a fact about the whole store, not about the writers: marking leaves texts alone,
and `records_run` carries the bound from the writes to every state between.

## The shape of the condition

The condition is about each improve of the run that is carried out, at the state it meets, and
says of its replacement what `remember` would have asked. It has two parts, because the rules have
two kinds of consequence. An oversized replacement is in the store whether or not the receipt
could be made, so its size is asked for in any case. Tenant and space are promised of what an
*allowed* call stores, and a call that raises is not allowed; so these are asked for where the ids
can be encoded.
-/

namespace AdversarialCognition

open Py Py.Str

section Laws

variable [Runtime] {b : AdversarialBackend}

/-- The admission rules, for a record stored by `actor`. -/
structure Admissible (memory : Memory) (actor : Actor) : Prop where
  size : memory.text.length ≤ maxTextChars
  tenant : memory.tenant = actor.tenant
  space : memory.space = actor.space
  clearance : memory.sensitivity ≤ actor.clearance

/-- In this run, what an allowed call stores is admissible, and at no point is there an
    oversized record in the store. -/
structure AdmissionRules (ops : List Op) : Prop where
  remembered : ∀ pre post memory actor nonce,
    ops = pre ++ .call (.remember memory actor nonce) :: post →
    Allowed ((backend.after pre).exec (.remember memory actor nonce)).1 →
    Admissible memory actor
  improved : ∀ pre post c, ops = pre ++ .call (.improve c) :: post →
    AllowedFirst (backend.after pre) c → Admissible c.replacement c.actor
  bounded : ∀ pre post, ops = pre ++ post → ∀ id r,
    (backend.after pre).memories.get? id = some r → r.text.length ≤ maxTextChars

/-- An improve that is carried out has a replacement within bounds, and one of its actor's
    tenant and space if its receipt can be made. -/
def ReplacementInRules (b : AdversarialBackend) (op : Op) : Prop :=
  ∀ c, op = .call (.improve c) → Commits b c →
    c.replacement.text.length ≤ maxTextChars ∧
      (Encodable c.memoryId → Encodable c.replacement.memoryId →
        c.replacement.tenant = c.actor.tenant ∧ c.replacement.space = c.actor.space)

theorem Ruling.admitsRemember {memory : Memory} {actor : Actor} {nonce : Str} {reply : Reply}
    {b' : AdversarialBackend} (h : Ruling b (.remember memory actor nonce) reply b')
    (hallow : Allowed reply) : b.AdmitsRemember memory actor nonce := by
  cases h with
  | replayed => simp at hallow
  | refused => simp at hallow
  | remembered admits => exact admits

omit [Runtime] in
/-- Under the rule, whatever is stored is within bounds. -/
theorem size_of_stores {op : Op} {c : Call} {m : Memory} (h : ReplacementInRules b op)
    (hop : op = .call c) (hm : Stores b c m) : m.text.length ≤ maxTextChars := by
  cases hm with
  | remember admits => exact admits.size
  | improve admits => exact (h _ hop ⟨_, admits⟩).1

/-- What `remember` checks it has checked, so only the improves are left. -/
theorem admissionRules_of_inRules {ops : List Op}
    (h : ∀ p ∈ backend.trace ops, ReplacementInRules p.1 p.2) : AdmissionRules ops := by
  refine ⟨?_, ?_, ?_⟩
  · intro pre post memory actor nonce _ hallow
    have hadm := (exec_ruling _ _).admitsRemember hallow
    exact ⟨hadm.size, hadm.tenant, hadm.space, hadm.clearance⟩
  · intro pre post c hops hfirst
    have hcommit := commits_of_allowedFirst hfirst
    have henc := encodable_of_allowedFirst hfirst
    have hrule := h (backend.after pre, .call (.improve c))
      (Machine.mem_trace.mpr ⟨pre, post, hops, rfl⟩) c rfl hcommit
    obtain ⟨current, hadm⟩ := hcommit
    obtain ⟨htenant, hspace⟩ := hrule.2 henc.1 henc.2
    exact ⟨hrule.1, htenant, hspace, hadm.clearance⟩
  · rintro pre post rfl
    refine records_run (b := backend.init) (P := fun r => r.text.length ≤ maxTextChars) ?_ ?_ ?_
    · intro r r' hr hm
      rw [hm.text]
      exact hr
    · intro p hp c m hop hm
      refine size_of_stores (h p ?_) hop hm
      rw [Machine.trace, Machine.traceFrom_append]
      exact List.mem_append_left _ hp
    · intro id r hr
      simp [backend, AdversarialBackend.new] at hr

/-- An improve that is carried out shows its replacement in the store right behind it, and in the
    decision if there is one. -/
theorem inRules_of_admissionRules {ops : List Op} (h : AdmissionRules ops) :
    ∀ p ∈ backend.trace ops, ReplacementInRules p.1 p.2 := by
  rintro ⟨b, op⟩ hp c rfl hcommit
  obtain ⟨pre, post, hops, rfl⟩ := Machine.mem_trace.mp hp
  refine ⟨?_, ?_⟩
  · -- the replacement is in the store right after the call, receipt or no receipt
    obtain ⟨current, hadm⟩ := hcommit
    have hstored : (backend.after (pre ++ [.call (.improve c)])).memories.get?
        c.replacement.memoryId = some c.replacement := by
      rw [after_call_append, Machine.run_nil]
      exact exec_stored (.improve hadm)
    refine h.bounded (pre ++ [.call (.improve c)]) post ?_ _ _ hstored
    rw [hops, List.append_assoc, List.singleton_append]
  · intro h₁ h₂
    obtain ⟨d, hd, hallow⟩ := allowed_of_commits hcommit h₁ h₂
    obtain ⟨current, hadm⟩ := hcommit
    have hfirst : AllowedFirst (backend.after pre) c := ⟨hadm.unsettled, by rw [hd]; exact hallow⟩
    have hrules := h.improved pre post c hops hfirst
    exact ⟨hrules.tenant, hrules.space⟩

/-- **The admission rules hold of a run exactly when the improves it carries out keep the three of
    them that `improve` does not check.** These are the bound on the text and the tenant and space
    of the replacement; `remember` checks them all, and no other operation stores a record. -/
theorem admission_rules_iff (ops : List Op) :
    AdmissionRules ops ↔ ∀ p ∈ backend.trace ops, ReplacementInRules p.1 p.2 :=
  ⟨inRules_of_admissionRules, admissionRules_of_inRules⟩

end Laws

section

attribute [local instance] cpython

/-- An oversized replacement of another tenant, by the operator. -/
def oversizedImprove : ImproveCall :=
  { proposal "m" "n" "2" "job" with
    replacement := { fact "n" with tenant := lit "rival", text := List.replicate 4097 (CodePoint.ofChar 'x') } }

/-- The improve is allowed, and a record of 4097 characters and of a foreign tenant is in the
    store. A remember of the same record would have been denied. -/
theorem oversized_replacement_stored : ¬ ∀ ops : List Op, AdmissionRules ops := by
  intro h
  have hrules := (h [.call (.remember (fact "m") operator "1"),
    .call (.improve oversizedImprove)]).improved [.call (.remember (fact "m") operator "1")] []
    oversizedImprove rfl ⟨by decide, by decide⟩
  have hsize : (List.replicate 4097 (CodePoint.ofChar 'x')).length ≤ maxTextChars := hrules.size
  rw [List.length_replicate] at hsize
  exact absurd hsize (by decide)

end

end AdversarialCognition
