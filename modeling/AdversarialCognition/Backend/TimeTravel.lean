import AdversarialCognition.Backend.Forgetting
import AdversarialCognition.Backend.Idempotency

/-!
# Asking about the past

A record is valid on a window of days, and a recall names the day it asks about. An improve whose
replacement is valid from a day `D` onwards should leave every answer about the days before `D` as
it was: the replacement is not valid there yet, and what it replaces was the truth then.

`improve` does not close the target's window at `D`. It sets the target's `state`, which has no
day attached, and `recall` skips whatever is not current, so the target is gone from the answers
about every day. `past_untouched_iff` is what is left: the past survives an improve exactly when
the target had no answer to give there.

The replacement's id has to be new. Under an id that is taken the improve would also displace the
record that is there, and the answers about the past would change for a reason that has nothing to
do with windows; the law leaves such improves out, as it leaves out retries, which change nothing.
-/

namespace AdversarialCognition

open Py Py.Str

section Laws

variable [Runtime] {b : AdversarialBackend}

/-- If the improve, made after the run `ops`, is an allowed one and no retry, and brings a
    new id into the store, then recalls as of the days before its replacement's window
    return the ids they returned before it. -/
def PastUntouched (ops : List Op) (c : ImproveCall) : Prop :=
  AllowedFirst (backend.after ops) c →
    (backend.after ops).memories.get? c.replacement.memoryId = none →
    ∀ query actor asOf nonce, asOf < c.replacement.validFrom →
      (actor.did, nonce) ∉ ((backend.after ops).exec (.improve c)).2.nonces →
      replyIds (((backend.after ops).exec (.improve c)).2.recall query actor asOf nonce).1 =
        replyIds ((backend.after ops).recall query actor asOf nonce).1

/-- If the improve passes its checks, its receipt can be made and its replacement's id is
    new, then its target cannot be recalled on a day before the replacement's window. -/
def NoPast (b : AdversarialBackend) (c : ImproveCall) : Prop :=
  ∀ target, b.AdmitsImprove c target → Encodable c.memoryId → Encodable c.replacement.memoryId →
    b.memories.get? c.replacement.memoryId = none →
      ¬ Recallable target ∨ c.replacement.validFrom ≤ target.validFrom

/-- The store behind an improve, id by id. The replacement is looked for first, since it is stored
    last. -/
theorem get?_after_improve {c : ImproveCall} {target : Memory} (h : b.AdmitsImprove c target)
    (id : Str) : (b.exec (.improve c)).2.memories.get? id =
      if id = c.replacement.memoryId then some c.replacement
      else if id = c.memoryId then some { target with state := lit "superseded" }
      else b.memories.get? id := by
  simp only [AdversarialBackend.exec, AdversarialBackend.improve_of_admits h]
  simp

/-- Away from the target and before the replacement's window, the hits stay. -/
theorem hit_after_improve {c : ImproveCall} {target : Memory} (h : b.AdmitsImprove c target)
    (hnew : b.memories.get? c.replacement.memoryId = none) {query : Str} {actor : Actor}
    {asOf : Date} (hpast : asOf < c.replacement.validFrom) {score : ℕ} {id : Str} :
    Hit (b.exec (.improve c)).2 query actor asOf score id ↔
      Hit b query actor asOf score id ∧ id ≠ c.memoryId := by
  unfold Hit
  simp only [get?_after_improve h]
  by_cases hrepl : id = c.replacement.memoryId
  · subst hrepl
    simp only [if_true, Option.some.injEq, hnew, reduceCtorEq, false_and, exists_false, iff_false]
    intro hmem
    obtain ⟨r, hr, _, _, hfrom, _⟩ := hmem
    subst hr
    exact absurd hpast (not_lt.mpr hfrom)
  · simp only [if_neg hrepl]
    by_cases hid : id = c.memoryId
    · -- the target is marked, so it is no hit on any day
      subst hid
      simp only [if_true, Option.some.injEq, ne_eq, not_true_eq_false, and_false, iff_false]
      intro hmem
      obtain ⟨r, hr, hstate, _⟩ := hmem
      subst hr
      exact IsMark.ne_current (Or.inl rfl) hstate
    · simp [hid]

theorem keyed_after_improve (ops : List Op) (c : ImproveCall) :
    Keyed ((backend.after ops).exec (.improve c)).2 :=
  keyed_exec (keyed_after ops)

/-- A nonce that is free behind the improve was free before it. -/
theorem fresh_before {c : ImproveCall} {actor : Actor} {nonce : Str}
    (h : (actor.did, nonce) ∉ (b.exec (.improve c)).2.nonces) : (actor.did, nonce) ∉ b.nonces :=
  fun hmem => h ((exec_ruling b (.improve c)).nonces_subset hmem)

theorem pastUntouched_of_noPast {ops : List Op} {c : ImproveCall}
    (h : NoPast (backend.after ops) c) : PastUntouched ops c := by
  intro hfirst hnew query actor asOf nonce hpast hfresh
  obtain ⟨target, hadm⟩ := commits_of_allowedFirst hfirst
  have henc := encodable_of_allowedFirst hfirst
  apply congrArg replyIds
  apply recall_eq_of_ranked hfresh (fresh_before hfresh)
  intro hsize
  apply ranked_eq_of_hits (keyed_after_improve ops c) (keyed_after ops)
  intro score id
  rw [hit_after_improve hadm hnew hpast]
  refine ⟨And.left, fun hhit => ⟨hhit, fun hid => ?_⟩⟩
  -- a hit on the target before the window is what the condition rules out
  obtain ⟨r, hr, hrec⟩ := recallable_of_hit hsize hhit
  obtain ⟨r', hr', -, -, hfrom, -⟩ := hhit
  rw [hid, hadm.stored, Option.some.injEq] at hr hr'
  subst hr hr'
  cases h target hadm henc.1 henc.2 hnew with
  | inl hnot => exact hnot hrec
  | inr hle => exact absurd (hle.trans hfrom) (not_le.mpr hpast)

theorem noPast_of_pastUntouched {ops : List Op} {c : ImproveCall}
    (h : PastUntouched ops c) : NoPast (backend.after ops) c := by
  intro target hadm h₁ h₂ hnew
  by_contra hcon
  rw [not_or, not_not, not_le] at hcon
  obtain ⟨⟨hstate, hwindow, query, hsize, hpos⟩, hpast⟩ := hcon
  -- the target's own reader asks for it on the first day of its window
  obtain ⟨nonce, hfresh⟩ := exists_fresh ((backend.after ops).exec (.improve c)).2 (readerOf target)
  have hhit : Hit (backend.after ops) query (readerOf target) target.validFrom
      (words query ∩ words target.text).card c.memoryId :=
    ⟨target, hadm.stored, hstate, authorized_readerOf target, le_refl _, hwindow, rfl, hpos⟩
  have hbefore := mem_recall_of_hit (keyed_after ops) (fresh_before hfresh) hsize hhit
  obtain ⟨d, hd, hallow⟩ := allowed_of_commits ⟨target, hadm⟩ h₁ h₂
  have hfirst : AllowedFirst (backend.after ops) c := ⟨hadm.unsettled, by rw [hd]; exact hallow⟩
  have hsame := h hfirst hnew query (readerOf target) target.validFrom nonce hpast hfresh
  rw [show ∀ b : AdversarialBackend, b.exec (.recall query (readerOf target) target.validFrom nonce)
    = b.recall query (readerOf target) target.validFrom nonce from fun _ => rfl, ← hsame] at hbefore
  obtain ⟨-, score, hafter⟩ :=
    (exec_ruling _ (.recall query (readerOf target) target.validFrom nonce)).hit_of_mem
      (keyed_after_improve ops c) hbefore
  exact ((hit_after_improve hadm hnew hpast).mp hafter).2 rfl

/-- **An improve leaves the past alone exactly when its target had no past before the
    replacement's window.** The state of a record carries no date, and a recall skips what is not
    current whatever day it is asked about; so a target that could be recalled before that day is
    not from now on. -/
theorem past_untouched_iff (ops : List Op) (c : ImproveCall) :
    PastUntouched ops c ↔ NoPast (backend.after ops) c :=
  ⟨noPast_of_pastUntouched, pastUntouched_of_noPast⟩

end Laws

section

attribute [local instance] cpython

/-- The fact has been valid since January, the replacement is valid from June on, and a recall as
    of May finds the fact before the improve and nothing after it. So the past has been rewritten
    by an improve about the future. -/
theorem past_rewritten : ¬ ∀ (ops : List Op) (c : ImproveCall), PastUntouched ops c := by
  intro h
  have hsame := h [.call (.remember (fact "m") operator "1")]
    { proposal "m" "n" "2" "job" with replacement := { fact "n" with validFrom := june } }
    ⟨by decide, by decide⟩ (by decide) "spot" operator ⟨2026, 5, 1, by decide, by decide, by decide⟩ "3"
    (by decide) (by decide)
  exact absurd hsame (by decide)

end

end AdversarialCognition
