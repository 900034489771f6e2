import Mathlib.Data.List.Perm.Basic
import Mathlib.Data.Set.Insert

/-!
# Machines and their runs

A deterministic machine that answers each input with an output. A run is a list of
inputs; the state it leads to is `after`, and `trace` lists each input of the run with
the state it met. The rules below are what a temporal law is proved with:

* `invariant`: what holds at the start and is kept by every step holds after every run;
* `run_keeps`: what is kept by the steps a run actually takes survives that run;
* `exists_turn`: what did not hold and holds later was made true by one step of the run;
* `once`: a token that an accepted step spends is spent by no later accepted step;
* `outcomes_perm`: steps that commute two by two may be taken in any order;
* `Simulation.after`: a step that another machine makes in any number of steps, it makes
  so over whole runs.
-/

/-- A deterministic machine with outputs. The step is total: what an implementation refuses or
    raises is one of the outputs, and the state behind it is the one that the refusal leaves. -/
structure Machine (σ ι ο : Type*) where
  init : σ
  step : σ → ι → ο × σ

namespace Machine

variable {σ ι ο : Type*} (M : Machine σ ι ο)

def next (s : σ) (i : ι) : σ := (M.step s i).2

def run (s : σ) (is : List ι) : σ := is.foldl M.next s

/-- The state a run from the start leads to. -/
def after (is : List ι) : σ := M.run M.init is

/-- Each input of a run from `s` with the state it meets. -/
def traceFrom (s : σ) : List ι → List (σ × ι)
  | [] => []
  | i :: is => (s, i) :: traceFrom (M.next s i) is

def trace (is : List ι) : List (σ × ι) := M.traceFrom M.init is

variable {M}

@[simp] theorem run_nil (s : σ) : M.run s [] = s := rfl

@[simp] theorem run_cons (s : σ) (i : ι) (is : List ι) :
    M.run s (i :: is) = M.run (M.next s i) is := rfl

@[simp] theorem run_append (s : σ) (is js : List ι) :
    M.run s (is ++ js) = M.run (M.run s is) js := by
  simp [run, List.foldl_append]

@[simp] theorem after_nil : M.after [] = M.init := rfl

theorem after_append (is js : List ι) : M.after (is ++ js) = M.run (M.after is) js :=
  run_append _ _ _

/-- A state is met with an input exactly where the run can be cut in front of that input. -/
theorem mem_traceFrom {s t : σ} {i : ι} {is : List ι} :
    (t, i) ∈ M.traceFrom s is ↔ ∃ pre post, is = pre ++ i :: post ∧ t = M.run s pre := by
  induction is generalizing s with
  | nil => simp [traceFrom]
  | cons j js ih =>
    rw [traceFrom, List.mem_cons, ih]
    constructor
    · rintro (h | ⟨pre, post, rfl, rfl⟩)
      · obtain ⟨rfl, rfl⟩ := Prod.mk.inj h
        exact ⟨[], js, rfl, rfl⟩
      · exact ⟨j :: pre, post, rfl, rfl⟩
    · rintro ⟨pre, post, hsplit, rfl⟩
      cases pre with
      | nil =>
        obtain ⟨rfl, rfl⟩ := List.cons.inj hsplit
        exact Or.inl rfl
      | cons k pre =>
        obtain ⟨rfl, rfl⟩ := List.cons.inj hsplit
        exact Or.inr ⟨pre, post, rfl, rfl⟩

theorem mem_trace {t : σ} {i : ι} {is : List ι} :
    (t, i) ∈ M.trace is ↔ ∃ pre post, is = pre ++ i :: post ∧ t = M.after pre :=
  mem_traceFrom

theorem traceFrom_append (s : σ) (is js : List ι) :
    M.traceFrom s (is ++ js) = M.traceFrom s is ++ M.traceFrom (M.run s is) js := by
  induction is generalizing s with
  | nil => rfl
  | cons i is ih => simp [traceFrom, ih]

/-!
## The rules

Each rule takes a fact about one step and gives one about every run. The steps are those that a
run takes, at the states that it meets, so a step lemma may assume whatever is known of these.
-/

section Rules

variable {P : σ → Prop}

theorem run_keeps {s : σ} {is : List ι}
    (hstep : ∀ p ∈ M.traceFrom s is, P p.1 → P (M.next p.1 p.2)) (hs : P s) :
    P (M.run s is) := by
  induction is generalizing s with
  | nil => exact hs
  | cons i is ih =>
    refine ih (fun p hp => hstep p (List.mem_cons_of_mem _ hp)) ?_
    exact hstep (s, i) List.mem_cons_self hs

/-- **The invariant rule.** What holds at the start and is kept by every step holds after every
    run. The steps are those from any state, met by a run or not; where an invariant needs the
    run, it is `run_keeps` that is used. -/
theorem invariant (hinit : P M.init) (hstep : ∀ s i, P s → P (M.next s i)) (is : List ι) :
    P (M.after is) :=
  run_keeps (fun p _ => hstep p.1 p.2) hinit

theorem run_stable (hstep : ∀ s i, P s → P (M.next s i)) {s : σ} (hs : P s) (is : List ι) :
    P (M.run s is) :=
  run_keeps (fun p _ => hstep p.1 p.2) hs

/-- What a run made true, one of its steps made true. This is how a law about the past is proved:
    a property that holds now and did not hold at the start has a step that brought it, and what
    the step met there is known. -/
theorem exists_turn {s : σ} {is : List ι} (hs : ¬ P s) (hend : P (M.run s is)) :
    ∃ pre i post, is = pre ++ i :: post ∧ ¬ P (M.run s pre) ∧
      P (M.next (M.run s pre) i) := by
  induction is generalizing s with
  | nil => exact absurd hend hs
  | cons i is ih =>
    by_cases hi : P (M.next s i)
    · exact ⟨[], i, is, rfl, hs, hi⟩
    · obtain ⟨pre, j, post, rfl, hpre, hj⟩ := ih hi hend
      exact ⟨i :: pre, j, post, rfl, hpre, hj⟩

/-- **The spend-once rule.** A token is spent when it is in `spent`; nothing is ever un-spent, and
    an accepted step finds its token fresh and leaves it spent. Then no two accepted steps of a
    run have one token. The tokens of refused steps are not spoken of: whether a refusal spends
    its token is for the application. -/
theorem once {τ : Type*} (spent : σ → Set τ) (token : ι → τ) (accepted : σ → ι → Prop)
    (hmono : ∀ s i, spent s ⊆ spent (M.next s i))
    (hfresh : ∀ s i, accepted s i → token i ∉ spent s)
    (hspend : ∀ s i, accepted s i → token i ∈ spent (M.next s i))
    {pre mid : List ι} {i j : ι} (hi : accepted (M.after pre) i)
    (hj : accepted (M.after (pre ++ i :: mid)) j) : token i ≠ token j := by
  intro heq
  have hmid : token i ∈ spent (M.run (M.next (M.after pre) i) mid) :=
    run_stable (fun s k hs => hmono s k hs) (hspend _ _ hi) mid
  rw [after_append, run_cons] at hj
  exact hfresh _ _ hj (heq ▸ hmid)

end Rules

/-!
## Commuting steps

Two orders of the same inputs seldom lead to one state, so what they lead to is compared up to a
bisimulation. A permutation is made of swaps of neighbours, and the rule is about two inputs.
-/

section Commuting

/-- Each input of a run from `s` with the output it gets. Unlike `trace`, this is what a client
    can see of a run. -/
def outcomes (M : Machine σ ι ο) (s : σ) : List ι → List (ι × ο)
  | [] => []
  | i :: is => (i, (M.step s i).1) :: outcomes M (M.next s i) is

variable {R : σ → σ → Prop} {Apart : ι → ι → Prop}

/-- `R` relates states that no input tells apart. It is what equality of states is weakened to
    where two orders of the same steps lay the same things out differently. -/
structure Bisimulation (M : Machine σ ι ο) (R : σ → σ → Prop) : Prop where
  /-- Related states answer alike. -/
  output : ∀ {s t}, R s t → ∀ i, (M.step s i).1 = (M.step t i).1
  /-- And lead to related states. -/
  next : ∀ {s t}, R s t → ∀ i, R (M.next s i) (M.next t i)

theorem Bisimulation.run (h : Bisimulation M R) {s t : σ} (hst : R s t) (is : List ι) :
    M.outcomes s is = M.outcomes t is ∧ R (M.run s is) (M.run t is) := by
  induction is generalizing s t with
  | nil => exact ⟨rfl, hst⟩
  | cons i is ih =>
    obtain ⟨hout, hrun⟩ := ih (h.next hst i)
    exact ⟨by rw [outcomes, outcomes, h.output hst, hout], hrun⟩

/-- Inputs that are `Apart` commute up to `R`: neither sees that the other went first. -/
structure Commuting (M : Machine σ ι ο) (R : σ → σ → Prop) (Apart : ι → ι → Prop) : Prop where
  symm : ∀ {i j}, Apart i j → Apart j i
  /-- The answer does not depend on the other having come first. -/
  output : ∀ {i j}, Apart i j → ∀ s, (M.step (M.next s i) j).1 = (M.step s j).1
  /-- And the two orders lead to related states. -/
  next : ∀ {i j}, Apart i j → ∀ s, R (M.next (M.next s i) j) (M.next (M.next s j) i)

/-- **The commuting rule.** Inputs that are apart two by two get the same outputs in every order,
    and lead to states no input tells apart. The two runs may start from related states, which the
    induction over the permutation needs. -/
theorem outcomes_perm (hequiv : Equivalence R) (hR : Bisimulation M R) (hC : Commuting M R Apart)
    {is js : List ι} (hperm : is.Perm js) (hapart : is.Pairwise Apart) {s t : σ} (hst : R s t) :
    (M.outcomes s is).Perm (M.outcomes t js) ∧ R (M.run s is) (M.run t js) := by
  induction hperm generalizing s t with
  | nil => exact ⟨List.Perm.refl _, hst⟩
  | cons i _ ih =>
    obtain ⟨hout, hrun⟩ := ih hapart.tail (hR.next hst i)
    refine ⟨?_, hrun⟩
    rw [outcomes, outcomes, hR.output hst]
    exact hout.cons _
  -- the two first inputs see each other only here
  | swap i j is =>
    have hij : Apart j i := (List.pairwise_cons.mp hapart).1 i List.mem_cons_self
    have hswap : R (M.next (M.next s j) i) (M.next (M.next t i) j) :=
      hequiv.trans (hC.next hij s) (hR.next (hR.next hst i) j)
    obtain ⟨hout, hrun⟩ := hR.run hswap is
    refine ⟨?_, hrun⟩
    simp only [outcomes]
    rw [hC.output hij s, hC.output (hC.symm hij) t, hR.output hst i, hR.output hst j, hout]
    exact List.Perm.swap _ _ _
  | trans hfirst _ ih₁ ih₂ =>
    obtain ⟨hout₁, hrun₁⟩ := ih₁ hapart (hequiv.refl s)
    obtain ⟨hout₂, hrun₂⟩ := ih₂ (hapart.perm hfirst hC.symm) hst
    exact ⟨hout₁.trans hout₂, hequiv.trans hrun₁ hrun₂⟩

end Commuting

/-!
## Simulation

A step of the one machine may be any number of steps of the other. The invariant is part of the
rule, since the simulation is usually only good for states that can be reached.
-/

section Simulation

variable {σ' ι' ο' : Type*}

/-- `C` does in one step what `A` does in the steps of `plan`, as long as `Inv` holds, and `abs`
    is what `A` sees of a state of `C`. The plan is of the input alone, so an input that `C`
    refuses must be one that `A` refuses too, or `plan` is empty for it. -/
structure Simulation (C : Machine σ ι ο) (A : Machine σ' ι' ο') (Inv : σ → Prop) (abs : σ → σ')
    (plan : ι → List ι') : Prop where
  /-- It begins where the abstract machine does. -/
  init : Inv C.init ∧ abs C.init = A.init
  /-- Each step keeps the invariant. -/
  inv : ∀ s i, Inv s → Inv (C.next s i)
  /-- And does what the plan of its input does, as seen through `abs`. -/
  step : ∀ s i, Inv s → abs (C.next s i) = A.run (abs s) (plan i)

/-- **The simulation rule.** A run of `C` leads to what the planned run of `A` leads to, and the
    invariant holds behind it. -/
theorem Simulation.after {C : Machine σ ι ο} {A : Machine σ' ι' ο'} {Inv : σ → Prop}
    {abs : σ → σ'} {plan : ι → List ι'} (h : Simulation C A Inv abs plan) (is : List ι) :
    Inv (C.after is) ∧ abs (C.after is) = A.after (is.flatMap plan) := by
  have hrun : ∀ is s, Inv s →
      Inv (C.run s is) ∧ abs (C.run s is) = A.run (abs s) (is.flatMap plan) := by
    intro is
    induction is with
    | nil =>
      intro s hs
      exact ⟨hs, rfl⟩
    | cons i is ih =>
      intro s hs
      obtain ⟨hinv, habs⟩ := ih (C.next s i) (h.inv s i hs)
      refine ⟨hinv, ?_⟩
      rw [run_cons, habs, h.step s i hs, List.flatMap_cons, run_append]
  obtain ⟨hinv, habs⟩ := hrun is C.init h.init.1
  exact ⟨hinv, habs.trans (by rw [h.init.2]; rfl)⟩

end Simulation

end Machine
