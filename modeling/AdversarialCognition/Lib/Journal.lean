import AdversarialCognition.Lib.Machine
import Mathlib.Data.List.Induction

/-!
# Machines that keep a journal

A machine is sourced by its events when a step makes at most one event and the state behind it is
the state before with that event applied. A step without an event leaves the state alone. So the
state a run leads to is determined by the events of the run in their order, its journal, and
whatever else the run asked for does not show in it.

## How it is used

`journal_induction` is the rule the results go through: what holds of the empty journal and the
initial state, and is kept by every event that the run makes, holds of the journal of the run and
the state it leads to. The step has the run up to the event at hand, so an argument about an event
may use everything that is known of the state it met.

The rule is about one run and not about all runs, because the invariants of interest speak of the
requests of a run as well: that a store has an item is traced back to the request that brought it.
-/

namespace Machine

variable {σ ι ο ε : Type*}

/-- A step makes at most one event, and changes the state as the event says. What the step answers
    is left out: two steps with one event may answer differently. -/
structure Sourced (M : Machine σ ι ο) (ε : Type*) where
  /-- What an input makes happen, if anything. -/
  event : σ → ι → Option ε
  /-- What an event does to the state. -/
  apply : σ → ε → σ
  /-- And nothing else changes it. -/
  next_eq : ∀ s i, M.next s i = (event s i).elim s (apply s)

namespace Sourced

variable {M : Machine σ ι ο} (S : M.Sourced ε)

/-- The events of a run from `s`. A run may start anywhere, so that a journal can be cut in two. -/
def journalFrom (s : σ) (is : List ι) : List ε :=
  (M.traceFrom s is).filterMap fun p => S.event p.1 p.2

def journal (is : List ι) : List ε := S.journalFrom M.init is

variable {S}

theorem journalFrom_cons (s : σ) (i : ι) (is : List ι) :
    S.journalFrom s (i :: is) = (S.event s i).toList ++ S.journalFrom (M.next s i) is := by
  rw [journalFrom, traceFrom, List.filterMap_cons]
  cases S.event s i with
  | none => rfl
  | some e => rfl

theorem journal_append (is js : List ι) :
    S.journal (is ++ js) = S.journal is ++ S.journalFrom (M.after is) js := by
  rw [journal, journalFrom, traceFrom_append, List.filterMap_append]
  rfl

theorem journal_concat (is : List ι) (i : ι) :
    S.journal (is ++ [i]) = S.journal is ++ (S.event (M.after is) i).toList := by
  rw [journal_append, journalFrom_cons]
  simp [journalFrom, traceFrom]

theorem next_of_none {s : σ} {i : ι} (h : S.event s i = none) : M.next s i = s := by
  rw [S.next_eq, h, Option.elim_none]

theorem next_of_some {s : σ} {i : ι} {e : ε} (h : S.event s i = some e) :
    M.next s i = S.apply s e := by
  rw [S.next_eq, h, Option.elim_some]

/-- An event of the journal is that of some step of the run, in the state this step met. -/
theorem mem_journal {is : List ι} {e : ε} : e ∈ S.journal is ↔
    ∃ pre i post, is = pre ++ i :: post ∧ S.event (M.after pre) i = some e := by
  rw [journal, journalFrom, List.mem_filterMap]
  constructor
  · intro h
    obtain ⟨⟨s, i⟩, hmem, he⟩ := h
    obtain ⟨pre, post, hsplit, rfl⟩ := mem_trace.mp hmem
    exact ⟨pre, i, post, hsplit, he⟩
  · intro h
    obtain ⟨pre, i, post, hsplit, he⟩ := h
    exact ⟨(M.after pre, i), mem_trace.mpr ⟨pre, post, hsplit, rfl⟩, he⟩

/-- The journal of an earlier moment is the beginning of the journal. -/
theorem journal_subset (is js : List ι) : ∀ e ∈ S.journal is, e ∈ S.journal (is ++ js) := by
  intro e he
  rw [journal_append]
  exact List.mem_append_left _ he

/-- **The journal rule.** What holds of the empty journal and the initial state, and is kept by
    every event of the run, holds of the journal of the run and the state it leads to. -/
theorem journal_induction {P : List ε → σ → Prop} {is : List ι} (hinit : P [] M.init)
    (hstep : ∀ pre i post e, is = pre ++ i :: post → S.event (M.after pre) i = some e →
      P (S.journal pre) (M.after pre) → P (S.journal pre ++ [e]) (S.apply (M.after pre) e)) :
    P (S.journal is) (M.after is) := by
  have hpre : ∀ pre post, is = pre ++ post → P (S.journal pre) (M.after pre) := by
    intro pre
    -- along the beginnings of the run, so that the state at each is one that the run does meet
    induction pre using List.reverseRecOn with
    | nil => exact fun _ _ => hinit
    | append_singleton pre i ih =>
      intro post hsplit
      rw [List.append_assoc, List.singleton_append] at hsplit
      have hafter : M.after (pre ++ [i]) = M.next (M.after pre) i := after_append pre [i]
      rw [hafter, journal_concat]
      cases he : S.event (M.after pre) i with
      | none =>
        rw [next_of_none he, Option.toList_none, List.append_nil]
        exact ih _ hsplit
      | some e =>
        rw [next_of_some he, Option.toList_some]
        exact hstep pre i post e hsplit he (ih _ hsplit)
  exact hpre is [] (List.append_nil is).symm

end Sourced

end Machine
