import Mathlib.Data.List.Basic

/-!
# Programs that call out

A driver is a program over a system it knows nothing about: it makes a call, goes on from the
answer or from the exception, and ends with a value or an exception of its own. `Prog` is the tree
of everything it may do. `run` plays it against a `World`, which answers each call from a state of
its own, and keeps the trace.

A `note` is a remark in the trace and has no effect on the run. Laws about intermediate results,
which are no calls and no values of the program, are stated with notes.

## Why a tree

A driver could be a function of the world, in a state monad. Then what it does under every answer
could only be said by going over all worlds, and that it never makes some call could not be said
of the program at all. Over the tree such properties are recursions with one clause for each
constructor. `Yields` bounds what a program may note and end with, whatever it is answered;
`Avoids` says which calls it never makes; `Propagates` says of which calls the exceptions get
through; `Relays` says that it raises nothing of its own. Each of them has a rule for `bind`, and
what a run has of it is one lemma.

## The rules

They follow the shape of a program. `run_bind` and `run_tryCatch_of_ok`, `run_tryCatch_of_error`
say what the run of a composite is, and `Ends` says what a program does end with in a given world,
without going into its trace. The last section sends failures into a world from outside, and
compares: where no failure strikes the run is as before, and a failure that gets through is what
the run ends with.

The world answers a call from a state that the program does not see, and the same call may be
answered differently later. Nothing is random and nothing is concurrent. A program that would not
end is no `Prog`, so a loop has to be one over a list or a number of turns.
-/

/-- The calls a program may make, with their answers, the exceptions, and the notes. -/
structure Interface where
  Call : Type
  Answer : Call → Type
  Error : Type
  Note : Type

/-- Everything a program may do: it is done, or raises, or leaves a note and goes on, or makes a
    call and goes on from what that is answered. -/
inductive Prog (I : Interface) (α : Type) : Type
  | ret (a : α)
  | raise (e : I.Error)
  | note (n : I.Note) (p : Prog I α)
  | call (c : I.Call) (k : Except I.Error (I.Answer c) → Prog I α)

/-- What answers the calls, from a state of its own. -/
abbrev World (I : Interface) (σ : Type) := σ → (c : I.Call) → Except I.Error (I.Answer c) × σ

/-- What a trace is made of. The exceptions that a program raises itself are no events, and are
    seen in how the run ends. -/
inductive Event (I : Interface) : Type
  | called (c : I.Call) (answer : Except I.Error (I.Answer c))
  | noted (n : I.Note)

/-- How a run ends, what state it leaves the world in, and what happened on the way. A run that
    ends with an exception leaves a state and a trace like any other. -/
structure Outcome (I : Interface) (σ α : Type) where
  result : Except I.Error α
  state : σ
  trace : List (Event I)

namespace Prog

variable {I : Interface} {σ α β : Type}

/-!
## Composition

The monad of programs, and the calls: with what is raised raised again, or taken for an answer.
-/

def bind : Prog I α → (α → Prog I β) → Prog I β
  | .ret a, f => f a
  | .raise e, _ => .raise e
  | .note n p, f => .note n (p.bind f)
  | .call c k, f => .call c fun r => (k r).bind f

instance : Monad (Prog I) where
  pure := .ret
  bind := bind

theorem bind_ret (p : Prog I α) : p.bind .ret = p := by
  induction p with
  | ret a => rfl
  | raise e => rfl
  | note n p ih => rw [bind, ih]
  | call c k ih => simp only [bind, ih]

theorem bind_assoc {γ : Type} (p : Prog I α) (f : α → Prog I β) (g : β → Prog I γ) :
    (p.bind f).bind g = p.bind fun a => (f a).bind g := by
  induction p with
  | ret a => rfl
  | raise e => rfl
  | note n p ih => simp only [bind, ih]
  | call c k ih => simp only [bind, ih]

instance : LawfulMonad (Prog I) :=
  LawfulMonad.mk' (Prog I) bind_ret (fun _ _ => rfl) bind_assoc

/-- Make a call, and raise what it raises. -/
def perform (c : I.Call) : Prog I (I.Answer c) :=
  .call c fun
    | .ok a => .ret a
    | .error e => .raise e

/-- Make a call, and take what it raises for an answer. This is a call with a handler of its own
    around it. -/
def observe (c : I.Call) : Prog I (Except I.Error (I.Answer c)) := .call c .ret

def ofExcept : Except I.Error α → Prog I α
  | .ok a => .ret a
  | .error e => .raise e

/-- `try: p except error: h(error)` -/
def tryCatch : Prog I α → (I.Error → Prog I α) → Prog I α
  | .ret a, _ => .ret a
  | .raise e, h => h e
  | .note n p, h => .note n (p.tryCatch h)
  | .call c k, h => .call c fun r => (k r).tryCatch h

/-- Leave a note. -/
def noting (n : I.Note) : Prog I Unit := .note n (.ret ())

/-!
## Runs

A run of a composite is a run of its first part and, from the state that this has left, one of the
second. A handler goes on from the state in which the exception was raised, so nothing is undone.
-/

/-- Play the program in a world, from one of its states. -/
def run (w : World I σ) : Prog I α → σ → Outcome I σ α
  | .ret a, s => ⟨.ok a, s, []⟩
  | .raise e, s => ⟨.error e, s, []⟩
  | .note n p, s => { run w p s with trace := .noted n :: (run w p s).trace }
  | .call c k, s =>
      { run w (k (w s c).1) (w s c).2 with
        trace := .called c (w s c).1 :: (run w (k (w s c).1) (w s c).2).trace }

section Run

variable (w : World I σ) (s : σ)

@[simp] theorem run_pure (a : α) : (pure a : Prog I α).run w s = ⟨.ok a, s, []⟩ := rfl

@[simp] theorem run_raise (e : I.Error) : (raise e : Prog I α).run w s = ⟨.error e, s, []⟩ := rfl

@[simp] theorem run_noting (n : I.Note) : (noting n).run w s = ⟨.ok (), s, [.noted n]⟩ := rfl

@[simp] theorem run_perform (c : I.Call) :
    (perform c).run w s = ⟨(w s c).1, (w s c).2, [.called c (w s c).1]⟩ := by
  simp only [perform, run]
  cases (w s c).1 with
  | ok a => rfl
  | error e => rfl

/-- The run goes on from where the first part ended, if that ended with a value. -/
def Outcome.andThen (o : Outcome I σ α) (f : α → σ → Outcome I σ β) : Outcome I σ β :=
  match o.result with
  | .ok a => { f a o.state with trace := o.trace ++ (f a o.state).trace }
  | .error e => ⟨.error e, o.state, o.trace⟩

/-- **The run of a composite.** The second part is played from the state that the first one left,
    if it ended with a value, and the traces are one behind the other. -/
theorem run_bind (p : Prog I α) (f : α → Prog I β) :
    (p >>= f).run w s = Outcome.andThen (p.run w s) fun a t => (f a).run w t := by
  show (p.bind f).run w s = _
  induction p generalizing s with
  | ret a => rfl
  | raise e => rfl
  | note n p ih =>
    simp only [bind, run, ih, Outcome.andThen]
    cases (p.run w s).result with
    | ok a => rfl
    | error e => rfl
  | call c k ih =>
    simp only [bind, run, ih, Outcome.andThen]
    cases ((k (w s c).1).run w (w s c).2).result with
    | ok a => rfl
    | error e => rfl

variable {w s}

theorem run_bind_of_ok {p : Prog I α} {f : α → Prog I β} {a : α} (h : (p.run w s).result = .ok a) :
    (p >>= f).run w s =
      { (f a).run w (p.run w s).state with
        trace := (p.run w s).trace ++ ((f a).run w (p.run w s).state).trace } := by
  rw [run_bind, Outcome.andThen, h]

theorem run_bind_of_error {p : Prog I α} {f : α → Prog I β} {e : I.Error}
    (h : (p.run w s).result = .error e) :
    (p >>= f).run w s = ⟨.error e, (p.run w s).state, (p.run w s).trace⟩ := by
  rw [run_bind, Outcome.andThen, h]

theorem result_bind_eq_ok_iff {p : Prog I α} {f : α → Prog I β} {b : β} :
    ((p >>= f).run w s).result = .ok b ↔
      ∃ a, (p.run w s).result = .ok a ∧ ((f a).run w (p.run w s).state).result = .ok b := by
  cases h : (p.run w s).result with
  | ok a => simp [run_bind_of_ok h]
  | error e => simp [run_bind_of_error h]

theorem run_tryCatch_of_ok {p : Prog I α} {h : I.Error → Prog I α} {a : α}
    (hp : (p.run w s).result = .ok a) : (p.tryCatch h).run w s = p.run w s := by
  induction p generalizing s with
  | ret b => rfl
  | raise e => simp [run] at hp
  | note n p ih =>
    simp only [tryCatch, run]
    rw [ih hp]
  | call c k ih =>
    simp only [tryCatch, run]
    rw [ih _ hp]

/-- The handler goes on from the state in which the exception was raised: nothing that was done
    under the guard is undone. -/
theorem run_tryCatch_of_error {p : Prog I α} {h : I.Error → Prog I α} {e : I.Error}
    (hp : (p.run w s).result = .error e) :
    (p.tryCatch h).run w s =
      { (h e).run w (p.run w s).state with
        trace := (p.run w s).trace ++ ((h e).run w (p.run w s).state).trace } := by
  induction p generalizing s with
  | ret b => simp [run] at hp
  | raise e' =>
    simp only [run, Except.error.injEq] at hp
    subst hp
    rfl
  | note n p ih =>
    simp only [tryCatch, run]
    rw [ih hp]
    rfl
  | call c k ih =>
    simp only [tryCatch, run]
    rw [ih _ hp]
    rfl

/-- A call is made once, and what is raised is made the other value. -/
theorem run_perform_tryCatch (c : I.Call) (f : I.Answer c → α) (failed : α) :
    ((perform c >>= fun answer => pure (f answer)).tryCatch fun _ => pure failed).run w s =
      ⟨.ok (((w s c).1.map f).toOption.getD failed), (w s c).2, [.called c (w s c).1]⟩ := by
  show (Prog.tryCatch (.call c _) _).run w s = _
  simp only [tryCatch, run]
  cases (w s c).1 with
  | ok answer => rfl
  | error e => rfl

end Run

/-!
## What a program may end with

Bounds on the notes of a program and on what it ends with, over all answers. They are proved part
by part, and most parts are `Silent`, which takes them out of the bookkeeping.
-/

def note? : Event I → Option I.Note
  | .called _ _ => none
  | .noted n => some n

/-- The notes of a trace. -/
def notes (trace : List (Event I)) : List I.Note := trace.filterMap note?

/-- Whatever it is answered, the notes the program leaves and what it ends with are a `Q`. The two
    are bounded together, because the laws are about a value and the note that came with it. -/
def Yields (Q : List I.Note → Except I.Error α → Prop) : Prog I α → Prop
  | .ret a => Q [] (.ok a)
  | .raise e => Q [] (.error e)
  | .note n p => p.Yields fun ns r => Q (n :: ns) r
  | .call _ k => ∀ r, (k r).Yields Q

section Yields

variable {P : List I.Note → Except I.Error α → Prop} {Q : List I.Note → Except I.Error β → Prop}

theorem Yields.run {p : Prog I α} (h : p.Yields P) (w : World I σ) (s : σ) :
    P (notes (p.run w s).trace) (p.run w s).result := by
  induction p generalizing P s with
  | ret a => exact h
  | raise e => exact h
  | note n p ih => exact ih h s
  | call c k ih => exact ih (w s c).1 (h _) (w s c).2

theorem Yields.mono {P' : List I.Note → Except I.Error α → Prop} {p : Prog I α} (h : p.Yields P)
    (hP : ∀ ns r, P ns r → P' ns r) : p.Yields P' := by
  induction p generalizing P P' with
  | ret a => exact hP _ _ h
  | raise e => exact hP _ _ h
  | note n p ih => exact ih h fun ns r => hP (n :: ns) r
  | call c k ih => exact fun r => ih r (h r) hP

/-- The rule for composites. What the first part noted stands in front of what the second notes. -/
theorem Yields.bind {p : Prog I α} {f : α → Prog I β} (hp : p.Yields P)
    (hok : ∀ ns a, P ns (.ok a) → (f a).Yields fun ms r => Q (ns ++ ms) r)
    (herror : ∀ ns e, P ns (.error e) → Q ns (.error e)) : (p >>= f).Yields Q := by
  show (p.bind f).Yields Q
  induction p generalizing P Q with
  | ret a => exact hok [] a hp
  | raise e => exact herror [] e hp
  | note n p ih => exact ih hp (fun ns => hok (n :: ns)) fun ns => herror (n :: ns)
  | call c k ih => exact fun r => ih r (hp r) hok herror

theorem Yields.tryCatch {P' : List I.Note → Except I.Error α → Prop} {p : Prog I α}
    {h : I.Error → Prog I α} (hp : p.Yields P) (hok : ∀ ns a, P ns (.ok a) → P' ns (.ok a))
    (herror : ∀ ns e, P ns (.error e) → (h e).Yields fun ms r => P' (ns ++ ms) r) :
    (p.tryCatch h).Yields P' := by
  induction p generalizing P P' with
  | ret a => exact hok [] a hp
  | raise e => exact herror [] e hp
  | note n p ih => exact ih hp (fun ns => hok (n :: ns)) fun ns => herror (n :: ns)
  | call c k ih => exact fun r => ih r (hp r) hok herror

end Yields

/-- Whatever it is answered, a value the program ends with is an `R`. -/
def Returns (R : α → Prop) (p : Prog I α) : Prop := p.Yields fun _ r => ∀ a, r = .ok a → R a

section Returns

variable {P : α → Prop} {R : β → Prop}

theorem Returns.of_run {p : Prog I α} (h : p.Returns P) {w : World I σ} {s : σ} {a : α}
    (ha : (p.run w s).result = .ok a) : P a :=
  Yields.run h w s a ha

theorem returns_pure {b : β} (h : R b) : (pure b : Prog I β).Returns R := by
  intro c hc
  cases hc
  exact h

theorem returns_raise (e : I.Error) : (raise e : Prog I β).Returns R :=
  fun _ h => nomatch h

theorem Returns.bind {p : Prog I α} {f : α → Prog I β} (hp : p.Returns P)
    (hf : ∀ a, P a → (f a).Returns R) : (p >>= f).Returns R :=
  Yields.bind hp (fun _ a ha => hf a (ha a rfl)) fun _ _ _ _ h => nomatch h

theorem returns_true (p : Prog I α) : p.Returns fun _ => True := by
  induction p with
  | ret a => exact fun _ _ => trivial
  | raise e => exact fun _ _ => trivial
  | note n p ih => exact ih
  | call c k ih => exact ih

theorem returns_bind {p : Prog I α} {f : α → Prog I β} (hf : ∀ a, (f a).Returns R) :
    (p >>= f).Returns R :=
  (returns_true p).bind fun a _ => hf a

theorem returns_ite {c : Prop} [Decidable c] {p q : Prog I β} (hp : p.Returns R)
    (hq : q.Returns R) : (if c then p else q).Returns R := by
  split
  · exact hp
  · exact hq

end Returns

/-- The program leaves no notes. Most parts of a program are silent, and this takes them out of
    the bookkeeping. -/
def Silent (p : Prog I α) : Prop := p.Yields fun ns _ => ns = []

section Silent

theorem silent_pure (a : α) : (pure a : Prog I α).Silent := rfl

theorem silent_perform (c : I.Call) : (perform c).Silent := by
  intro r
  cases r with
  | ok a => rfl
  | error e => rfl

theorem silent_observe (c : I.Call) : (observe c).Silent := fun _ => rfl

theorem silent_ofExcept (r : Except I.Error α) : (ofExcept r).Silent := by
  cases r with
  | ok a => rfl
  | error e => rfl

theorem Silent.bind {p : Prog I α} {f : α → Prog I β} (hp : p.Silent)
    (hf : ∀ a, (f a).Silent) : (p >>= f).Silent := by
  apply Yields.bind hp
  · intro ns a hns
    subst hns
    exact hf a
  · exact fun ns e hns => hns

theorem Silent.tryCatch {p : Prog I α} {h : I.Error → Prog I α} (hp : p.Silent)
    (hh : ∀ e, (h e).Silent) : (p.tryCatch h).Silent := by
  apply Yields.tryCatch hp
  · exact fun ns a hns => hns
  · intro ns e hns
    subst hns
    exact hh e

theorem silent_ite {c : Prop} [Decidable c] {p q : Prog I α} (hp : p.Silent) (hq : q.Silent) :
    (if c then p else q).Silent := by
  split
  · exact hp
  · exact hq

theorem silent_mapM {f : α → Prog I β} (hf : ∀ a, (f a).Silent) (l : List α) :
    (l.mapM f).Silent := by
  induction l with
  | nil => exact silent_pure []
  | cons a l ih =>
    rw [List.mapM_cons]
    exact (hf a).bind fun b => ih.bind fun bs => silent_pure _

theorem silent_forM {f : α → Prog I PUnit} (hf : ∀ a, (f a).Silent) (l : List α) :
    (l.forM f).Silent := by
  induction l with
  | nil => exact silent_pure _
  | cons a l ih => exact Silent.bind (hf a) fun _ => ih

theorem silent_foldlM {f : β → α → Prog I β} (hf : ∀ b a, (f b a).Silent) (l : List α) (b : β) :
    (l.foldlM f b).Silent := by
  induction l generalizing b with
  | nil => exact silent_pure b
  | cons a l ih =>
    rw [List.foldlM_cons]
    exact (hf b a).bind ih

/-- A part without notes does not show in what the whole leaves. -/
theorem Silent.yields_bind {p : Prog I α} {f : α → Prog I β}
    {Q : List I.Note → Except I.Error β → Prop} (hp : p.Silent) (hf : ∀ a, (f a).Yields Q)
    (herror : ∀ e, Q [] (.error e)) : (p >>= f).Yields Q := by
  apply Yields.bind hp
  · intro ns a hns
    subst hns
    exact hf a
  · intro ns e hns
    subst hns
    exact herror e

end Silent

/-- Whatever it is answered, if the program ends with a value, this and its notes are an `R`. -/
def Gives (R : List I.Note → α → Prop) (p : Prog I α) : Prop :=
  p.Yields fun ns r => ∀ a, r = .ok a → R ns a

section Gives

variable {P : List I.Note → α → Prop} {R : List I.Note → β → Prop}

theorem Gives.of_run {p : Prog I α} (h : p.Gives P) {w : World I σ} {s : σ} {a : α}
    (ha : (p.run w s).result = .ok a) : P (notes (p.run w s).trace) a :=
  Yields.run h w s a ha

theorem gives_pure {b : β} (h : R [] b) : (pure b : Prog I β).Gives R := by
  intro c hc
  cases hc
  exact h

theorem gives_raise (e : I.Error) : (raise e : Prog I β).Gives R :=
  fun _ h => nomatch h

theorem Gives.mono {R' : List I.Note → β → Prop} {p : Prog I β} (h : p.Gives R)
    (hR : ∀ ns b, R ns b → R' ns b) : p.Gives R' :=
  Yields.mono h fun ns _ hr b hb => hR ns b (hr b hb)

theorem Gives.bind {p : Prog I α} {f : α → Prog I β} (hp : p.Gives P)
    (hf : ∀ ns a, P ns a → (f a).Gives fun ms b => R (ns ++ ms) b) : (p >>= f).Gives R :=
  Yields.bind hp (fun ns a ha => hf ns a (ha a rfl)) fun _ _ _ _ h => nomatch h

theorem gives_noting {n : I.Note} {f : Unit → Prog I β}
    (h : (f ()).Gives fun ns b => R (n :: ns) b) : (noting n >>= f).Gives R := h

theorem Silent.gives_bind {p : Prog I α} {f : α → Prog I β} (hp : p.Silent)
    (hf : ∀ a, (f a).Gives R) : (p >>= f).Gives R :=
  hp.yields_bind hf fun _ _ h => nomatch h

end Gives

/-!
## Runs that end with a value

For runs in a known world, where it is said that they do end, and with what. These are the forward
rules, by which a run on a given input is followed.
-/

/-- The program ends with a value, in some state, having left these notes. Unlike `Yields` it is
    about one world, and is what a run is computed with step by step. -/
structure Ends (w : World I σ) (s : σ) (p : Prog I α) (ns : List I.Note) (a : α) (t : σ) :
    Prop where
  result : (p.run w s).result = .ok a
  state : (p.run w s).state = t
  notes : notes (p.run w s).trace = ns

section Ends

variable {w : World I σ} {s t u : σ}

theorem ends_pure (a : α) : Ends w s (pure a) [] a s := ⟨rfl, rfl, rfl⟩

theorem ends_noting (n : I.Note) : Ends w s (noting n) [n] () s := ⟨rfl, rfl, rfl⟩

theorem ends_perform {c : I.Call} {a : I.Answer c} (h : w s c = (.ok a, t)) :
    Ends w s (perform c) [] a t := by
  constructor
  · rw [run_perform, h]
  · rw [run_perform, h]
  · rw [run_perform]
    rfl

theorem Ends.bind {p : Prog I α} {f : α → Prog I β} {ns ms : List I.Note} {a : α} {b : β}
    (hp : Ends w s p ns a t) (hf : Ends w t (f a) ms b u) :
    Ends w s (p >>= f) (ns ++ ms) b u := by
  have hrun := run_bind_of_ok (f := f) hp.result
  rw [hp.state] at hrun
  constructor
  · rw [hrun, hf.result]
  · rw [hrun, hf.state]
  · rw [hrun]
    show Prog.notes (_ ++ _) = _
    rw [Prog.notes, List.filterMap_append]
    exact congrArg₂ _ hp.notes hf.notes

theorem Ends.silent_bind {p : Prog I α} {f : α → Prog I β} {ms : List I.Note} {a : α} {b : β}
    (hp : Ends w s p [] a t) (hf : Ends w t (f a) ms b u) : Ends w s (p >>= f) ms b u :=
  hp.bind hf

/-- What only computes comes last. -/
theorem Ends.bind_pure {p : Prog I α} {f : α → Prog I β} {ns : List I.Note} {a : α} {b : β}
    (hp : Ends w s p ns a t) (hf : f a = pure b) : Ends w s (p >>= f) ns b t := by
  have h : Ends w t (f a) [] b t := by
    rw [hf]
    exact ends_pure b
  have hbind := hp.bind h
  rwa [List.append_nil] at hbind

theorem ends_perform_bind {c : I.Call} {f : I.Answer c → Prog I β} {ms : List I.Note}
    {a : I.Answer c} {b : β} (h : w s c = (.ok a, t)) (hf : Ends w t (f a) ms b u) :
    Ends w s (perform c >>= f) ms b u :=
  (ends_perform h).silent_bind hf

theorem ends_noting_bind {n : I.Note} {f : Unit → Prog I β} {ms : List I.Note} {b : β}
    (hf : Ends w s (f ()) ms b u) : Ends w s (noting n >>= f) (n :: ms) b u :=
  (ends_noting n).bind hf

/-- A loop keeps what every pass of it keeps. The invariant may speak of the items so far. The
    passes are to leave no notes. -/
theorem ends_foldlM {f : β → α → Prog I β} {R : List α → β → σ → Prop}
    (hstep : ∀ done a b s, R done b s → ∃ b' t, Ends w s (f b a) [] b' t ∧ R (done ++ [a]) b' t)
    (l : List α) {b : β} {s : σ} (h : R [] b s) :
    ∃ b' t, Ends w s (l.foldlM f b) [] b' t ∧ R l b' t := by
  have hloop : ∀ done b s, R done b s →
      ∃ b' t, Ends w s (l.foldlM f b) [] b' t ∧ R (done ++ l) b' t := by
    induction l with
    | nil =>
      intro done b s hR
      rw [List.append_nil]
      exact ⟨b, s, ends_pure b, hR⟩
    | cons a l ih =>
      intro done b s hR
      obtain ⟨c, u, hfirst, hnext⟩ := hstep done a b s hR
      obtain ⟨b', t, hrest, hlast⟩ := ih (done ++ [a]) c u hnext
      rw [List.append_assoc] at hlast
      refine ⟨b', t, ?_, hlast⟩
      rw [List.foldlM_cons]
      exact hfirst.silent_bind hrest
  exact hloop [] b s h

end Ends

/-!
## The calls of a run

What was called and in which order, read off the trace. A loop whose passes cannot fail makes them
all, each with its own piece of the trace.
-/

def called? : Event I → Option I.Call
  | .called c _ => some c
  | .noted _ => none

/-- The calls of a trace, in order. -/
def calls (trace : List (Event I)) : List I.Call := trace.filterMap called?

/-- Make the calls in turn, and drop what they answer. -/
def performAll : List I.Call → Prog I Unit
  | [] => pure ()
  | c :: cs => perform c >>= fun _ => performAll cs

/-- The calls `cs` come first, each after the one before it was answered. A call among them that
    raises is the last one there is, and the run ends with what it raised. So the result is part
    of the statement: a run that stopped after a call which was answered would not satisfy it. -/
def BeginsWith (result : Except I.Error α) : List I.Call → List (Event I) → Prop
  | [], _ => True
  | c :: cs, trace =>
      (∃ a later, trace = .called c (.ok a) :: later ∧ BeginsWith result cs later) ∨
        ∃ e, trace = [.called c (.error e)] ∧ result = .error e

/-- The passes of a loop, one after another in the trace, are each an `R`. The trace is cut into
    as many pieces as there were items, and nothing of it is left over. -/
inductive EachPass (R : α → β → List (Event I) → Prop) :
    List α → List β → List (Event I) → Prop
  | nil : EachPass R [] [] []
  | cons {a : α} {b : β} {l : List α} {bs : List β} {now later : List (Event I)} :
      R a b now → EachPass R l bs later → EachPass R (a :: l) (b :: bs) (now ++ later)

section Calls

variable {w : World I σ} {s : σ}

/-- What a call of a run is answered is what the world answers it in some state. Laws about every
    answer a world may give are carried into the runs by this. -/
theorem exists_of_called_mem {p : Prog I α} {c : I.Call} {answer : Except I.Error (I.Answer c)}
    (h : .called c answer ∈ (p.run w s).trace) : ∃ t, answer = (w t c).1 := by
  induction p generalizing s with
  | ret a => exact absurd h List.not_mem_nil
  | raise e => exact absurd h List.not_mem_nil
  | note n p ih =>
    rcases List.mem_cons.mp h with heq | h
    · cases heq
    · exact ih h
  | call c' k ih =>
    rcases List.mem_cons.mp h with heq | h
    · cases heq
      exact ⟨s, rfl⟩
    · exact ih _ h

theorem calls_perform_bind (c : I.Call) (f : I.Answer c → Prog I α) :
    ∃ later, calls ((perform c >>= f).run w s).trace = c :: later := by
  cases h : ((perform c).run w s).result with
  | ok a =>
    rw [run_bind_of_ok h, run_perform]
    exact ⟨_, rfl⟩
  | error e =>
    rw [run_bind_of_error h, run_perform]
    exact ⟨[], rfl⟩

theorem beginsWith_performAll_bind (cs : List I.Call) (f : Unit → Prog I α) (s : σ) :
    BeginsWith ((performAll cs >>= f).run w s).result cs ((performAll cs >>= f).run w s).trace := by
  induction cs generalizing s with
  | nil => trivial
  | cons c cs ih =>
    have hassoc : performAll (c :: cs) >>= f = perform c >>= fun _ => performAll cs >>= f :=
      LawfulMonad.bind_assoc ..
    rw [hassoc]
    cases h : (w s c).1 with
    | ok a =>
      have hperform : ((perform c).run w s).result = .ok a := by rw [run_perform, h]
      rw [run_bind_of_ok hperform, run_perform, h]
      exact .inl ⟨a, _, rfl, ih (w s c).2⟩
    | error e =>
      have hperform : ((perform c).run w s).result = .error e := by rw [run_perform, h]
      rw [run_bind_of_error hperform, run_perform, h]
      exact .inr ⟨e, rfl, rfl⟩

/-- **A loop whose passes cannot fail makes them all.** -/
theorem eachPass_mapM {f : α → Prog I β} {R : α → β → List (Event I) → Prop}
    (h : ∀ a s, ∃ b, ((f a).run w s).result = .ok b ∧ R a b ((f a).run w s).trace)
    (l : List α) (s : σ) :
    ∃ bs, ((l.mapM f).run w s).result = .ok bs ∧ EachPass R l bs ((l.mapM f).run w s).trace := by
  induction l generalizing s with
  | nil => exact ⟨[], rfl, .nil⟩
  | cons a l ih =>
    obtain ⟨b, hb, hR⟩ := h a s
    obtain ⟨bs, hbs, hpasses⟩ := ih ((f a).run w s).state
    have hrest : ((l.mapM f >>= fun bs => pure (b :: bs)).run w ((f a).run w s).state) =
        { (l.mapM f).run w ((f a).run w s).state with result := .ok (b :: bs) } := by
      rw [run_bind_of_ok hbs, run_pure, List.append_nil]
    rw [List.mapM_cons, run_bind_of_ok hb, hrest]
    exact ⟨b :: bs, rfl, .cons hR hpasses⟩

theorem EachPass.forall₂ {R : α → β → List (Event I) → Prop} {l : List α} {bs : List β}
    {trace : List (Event I)} (h : EachPass R l bs trace) :
    List.Forall₂ (fun a b => ∃ now, R a b now) l bs := by
  induction h with
  | nil => exact .nil
  | cons hnow _ ih => exact .cons ⟨_, hnow⟩ ih

end Calls

/-!
## Calls that are not made

A program that never makes certain calls runs alike in worlds that differ in the answers to these.
-/

/-- Whatever it is answered, the program makes no call in `K`. The answers that a world never
    gives count too, so this is a property of the code. -/
def Avoids (K : I.Call → Prop) : Prog I α → Prop
  | .ret _ => True
  | .raise _ => True
  | .note _ p => p.Avoids K
  | .call c k => ¬ K c ∧ ∀ r, (k r).Avoids K

section Avoids

variable {K : I.Call → Prop}

theorem avoids_pure (a : α) : (pure a : Prog I α).Avoids K := trivial

theorem avoids_noting (n : I.Note) : (noting n).Avoids K := trivial

theorem avoids_ofExcept (r : Except I.Error α) : (ofExcept r).Avoids K := by
  cases r with
  | ok a => trivial
  | error e => trivial

theorem avoids_perform {c : I.Call} (hc : ¬ K c) : (perform c).Avoids K := by
  refine ⟨hc, fun r => ?_⟩
  cases r with
  | ok a => trivial
  | error e => trivial

theorem Avoids.bind {p : Prog I α} {f : α → Prog I β} (hp : p.Avoids K)
    (hf : ∀ a, (f a).Avoids K) : (p >>= f).Avoids K := by
  show (p.bind f).Avoids K
  induction p with
  | ret a => exact hf a
  | raise e => trivial
  | note n p ih => exact ih hp
  | call c k ih => exact ⟨hp.1, fun r => ih r (hp.2 r)⟩

theorem Avoids.tryCatch {p : Prog I α} {h : I.Error → Prog I α} (hp : p.Avoids K)
    (hh : ∀ e, (h e).Avoids K) : (p.tryCatch h).Avoids K := by
  induction p with
  | ret a => trivial
  | raise e => exact hh e
  | note n p ih => exact ih hp
  | call c k ih => exact ⟨hp.1, fun r => ih r (hp.2 r)⟩

theorem avoids_ite {c : Prop} [Decidable c] {p q : Prog I α} (hp : p.Avoids K)
    (hq : q.Avoids K) : (if c then p else q).Avoids K := by
  split
  · exact hp
  · exact hq

theorem avoids_forM {f : α → Prog I PUnit} (hf : ∀ a, (f a).Avoids K) (l : List α) :
    (l.forM f).Avoids K := by
  induction l with
  | nil => exact avoids_pure _
  | cons a l ih => exact Avoids.bind (hf a) fun _ => ih

theorem avoids_mapM {f : α → Prog I β} (hf : ∀ a, (f a).Avoids K) (l : List α) :
    (l.mapM f).Avoids K := by
  induction l with
  | nil => exact avoids_pure _
  | cons a l ih =>
    rw [List.mapM_cons]
    exact (hf a).bind fun b => ih.bind fun bs => avoids_pure _

theorem avoids_foldlM {f : β → α → Prog I β} (hf : ∀ b a, (f b a).Avoids K) (l : List α)
    (b : β) : (l.foldlM f b).Avoids K := by
  induction l generalizing b with
  | nil => exact avoids_pure b
  | cons a l ih =>
    rw [List.foldlM_cons]
    exact (hf b a).bind ih

/-- Where the worlds differ in `K` only, and the second carries more along, so do the runs. -/
theorem Avoids.run_eq {ρ : Type} {w : World I σ} {w' : World I (σ × ρ)}
    (hw : ∀ s r c, ¬ K c → w' (s, r) c = ((w s c).1, (w s c).2, r)) {p : Prog I α}
    (hp : p.Avoids K) (s : σ) (r : ρ) :
    p.run w' (s, r) = ⟨(p.run w s).result, ((p.run w s).state, r), (p.run w s).trace⟩ := by
  induction p generalizing s with
  | ret a => rfl
  | raise e => rfl
  | note n p ih => simp only [run, ih hp]
  | call c k ih => simp only [run, hw s r c hp.1, ih _ (hp.2 _)]

theorem Avoids.not_called {w : World I σ} {p : Prog I α} (hp : p.Avoids K) (s : σ) :
    ∀ c ∈ calls (p.run w s).trace, ¬ K c := by
  induction p generalizing s with
  | ret a => exact fun c hc => absurd hc List.not_mem_nil
  | raise e => exact fun c hc => absurd hc List.not_mem_nil
  | note n p ih => exact ih hp s
  | call d k ih =>
    intro c hc
    rcases List.mem_cons.mp hc with rfl | hc
    · exact hp.1
    · exact ih _ (hp.2 _) _ c hc

end Avoids

/-!
## Properties that composition keeps

The programs of a source are put together in few ways. A property that `pure`, every call, `bind`
and a handler keep holds of all of them, and it is shown once for each property and not once for
each program.
-/

/-- What holds of `pure` and of every call, and of whatever is put together from programs it holds
    of. A program of which this is to be shown is taken apart once, for all such properties. -/
structure Compositional (P : (α : Type) → Prog I α → Prop) : Prop where
  pure : ∀ {α : Type} (a : α), P α (pure a)
  perform : ∀ c, P (I.Answer c) (perform c)
  bind : ∀ {α β : Type} {p : Prog I α} {f : α → Prog I β}, P α p → (∀ a, P β (f a)) →
    P β (p >>= f)

section Compositional

variable {P : (α : Type) → Prog I α → Prop}

theorem Compositional.perform_bind (hP : Compositional P) {c : I.Call} {f : I.Answer c → Prog I β}
    (hf : ∀ a, P β (f a)) : P β (Prog.perform c >>= f) :=
  hP.bind (hP.perform c) hf

omit P in
theorem of_ite {Q : Prog I α → Prop} {b : Prop} [Decidable b] {p q : Prog I α} (hp : Q p)
    (hq : Q q) : Q (if b then p else q) := by
  split
  · exact hp
  · exact hq

end Compositional

/-!
## Exceptions that get through

No handler on the way takes the exception for anything else: what the call raises is what the
program ends with.
-/

/-- An exception of `K`, raised by its call, is what the program then ends with. A handler that
    raises it again does not matter, and one that goes on does. -/
def Propagates (K : I.Call → I.Error → Prop) : Prog I α → Prop
  | .ret _ => True
  | .raise _ => True
  | .note _ p => p.Propagates K
  | .call c k => (∀ e, K c e → k (.error e) = .raise e) ∧ ∀ r, (k r).Propagates K

section Propagates

variable {K : I.Call → I.Error → Prop}

theorem propagates_perform (c : I.Call) : (perform c).Propagates K := by
  refine ⟨fun _ _ => rfl, fun r => ?_⟩
  cases r with
  | ok a => trivial
  | error e => trivial

theorem Propagates.bind {p : Prog I α} {f : α → Prog I β} (hp : p.Propagates K)
    (hf : ∀ a, (f a).Propagates K) : (p >>= f).Propagates K := by
  show (p.bind f).Propagates K
  induction p with
  | ret a => exact hf a
  | raise e => trivial
  | note n p ih => exact ih hp
  | call c k ih =>
    refine ⟨fun e hK => ?_, fun r => ih r (hp.2 r)⟩
    simp only [hp.1 e hK]
    rfl

theorem compositional_propagates (K : I.Call → I.Error → Prop) :
    Compositional fun α (p : Prog I α) => p.Propagates K where
  pure _ := trivial
  perform := propagates_perform
  bind := Propagates.bind

/-- A guarded call does not matter if the guard raises again what is to get through. -/
theorem propagates_tryCatch_perform {c : I.Call} {f : I.Answer c → α} {h : I.Error → Prog I α}
    (hc : ∀ e, K c e → h e = raise e) (hh : ∀ e, (h e).Propagates K) :
    ((perform c >>= fun a => pure (f a)).tryCatch h).Propagates K := by
  refine ⟨hc, fun r => ?_⟩
  cases r with
  | ok a => trivial
  | error e => exact hh e

/-- **A call that raised such an exception is in the trace only of runs that end with it.** -/
theorem Propagates.result_of_called {p : Prog I α} (hp : p.Propagates K) (w : World I σ) (s : σ)
    {c : I.Call} {e : I.Error} (hK : K c e) (h : Event.called c (.error e) ∈ (p.run w s).trace) :
    (p.run w s).result = .error e := by
  induction p generalizing s with
  | ret a => cases h
  | raise e => cases h
  | note n p ih =>
    rcases List.mem_cons.1 h with hnote | hlater
    · cases hnote
    · exact ih hp s hlater
  | call d k ih =>
    rcases List.mem_cons.1 h with hfirst | hlater
    · -- the first call is this one, and the program has nothing to do but raise
      obtain ⟨rfl, hanswer⟩ := Event.called.inj hfirst
      have hraise : k (w s c).1 = .raise e := by rw [← eq_of_heq hanswer, hp.1 e hK]
      show ((k (w s c).1).run w (w s c).2).result = _
      rw [hraise]
      rfl
    · exact ih _ (hp.2 _) _ hlater

end Propagates

/-!
## Exceptions that come from calls

The converse: the program raises nothing of its own, so an exception at the end is that of the
last call.
-/

/-- The program raises nothing of its own: an exception it raises is that of the call before,
    which is `last` where the program begins. A value that a call returned, or a note, comes
    between, so an exception raised then would be one that the program made up. -/
def Relays : Option I.Error → Prog I α → Prop
  | _, .ret _ => True
  | last, .raise e => last = some e
  | _, .note _ p => p.Relays none
  | _, .call _ k => (∀ a, (k (.ok a)).Relays none) ∧ ∀ e, (k (.error e)).Relays (some e)

section Relays

theorem Relays.mono {p : Prog I α} (h : p.Relays none) (last : Option I.Error) : p.Relays last := by
  cases p with
  | ret a => trivial
  | raise e => cases h
  | note n p => exact h
  | call c k => exact h

theorem relays_perform (c : I.Call) : (perform c).Relays none :=
  ⟨fun _ => trivial, fun _ => rfl⟩

theorem Relays.bind {p : Prog I α} {f : α → Prog I β} {last : Option I.Error} (hp : p.Relays last)
    (hf : ∀ a, (f a).Relays none) : (p >>= f).Relays last := by
  show (p.bind f).Relays last
  induction p generalizing last with
  | ret a => exact (hf a).mono last
  | raise e => exact hp
  | note n p ih => exact ih hp
  | call c k ih => exact ⟨fun a => ih _ (hp.1 a), fun e => ih _ (hp.2 e)⟩

theorem compositional_relays : Compositional fun α (p : Prog I α) => p.Relays none where
  pure _ := trivial
  perform := relays_perform
  bind := Relays.bind

theorem relays_tryCatch_perform {c : I.Call} {f : I.Answer c → α} {h : I.Error → Prog I α}
    (hh : ∀ e, (h e).Relays (some e)) :
    ((perform c >>= fun a => pure (f a)).tryCatch h).Relays none :=
  ⟨fun _ => trivial, hh⟩

/-- The run ends with an exception only if its last call raised it. The call is the last event of
    all, so nothing was done about the exception. -/
def RaisedByCall (o : Outcome I σ α) : Prop :=
  ∀ e, o.result = .error e → ∃ earlier c, o.trace = earlier ++ [.called c (.error e)]

theorem Relays.run {p : Prog I α} {last : Option I.Error} (hp : p.Relays last) (w : World I σ)
    (s : σ) {e : I.Error} (h : (p.run w s).result = .error e) :
    (last = some e ∧ (p.run w s).trace = []) ∨
      ∃ earlier c, (p.run w s).trace = earlier ++ [.called c (.error e)] := by
  induction p generalizing s last with
  | ret a => cases h
  | raise e => cases h; exact .inl ⟨hp, rfl⟩
  | note n p ih =>
    rcases ih hp s h with hnone | hcalled
    · cases hnone.1
    · obtain ⟨earlier, c, htrace⟩ := hcalled
      exact .inr ⟨.noted n :: earlier, c, congrArg _ htrace⟩
  | call c k ih =>
    have hstep : ((k (w s c).1).run w (w s c).2).result = .error e := h
    show _ ∨ ∃ earlier d, .called c (w s c).1 :: ((k (w s c).1).run w (w s c).2).trace = _
    -- an error is that of this call, or of a later one
    cases hanswer : (w s c).1 with
    | ok a =>
      rw [hanswer] at hstep
      rcases ih _ (hp.1 a) _ hstep with hnone | hcalled
      · cases hnone.1
      · obtain ⟨earlier, d, htrace⟩ := hcalled
        exact .inr ⟨_ :: earlier, d, congrArg _ htrace⟩
    | error raised =>
      rw [hanswer] at hstep
      rcases ih _ (hp.2 raised) _ hstep with hsame | hcalled
      · obtain ⟨heq, htrace⟩ := hsame
        cases heq
        exact .inr ⟨[], c, congrArg _ htrace⟩
      · obtain ⟨earlier, d, htrace⟩ := hcalled
        exact .inr ⟨_ :: earlier, d, congrArg _ htrace⟩

/-- **A program that raises nothing of its own ends with an exception only on a call that raised
    it.** -/
theorem Relays.raisedByCall {p : Prog I α} (hp : p.Relays none) (w : World I σ) (s : σ) :
    RaisedByCall (p.run w s) := by
  intro e h
  rcases hp.run w s h with hnone | hcalled
  · cases hnone.1
  · exact hcalled

end Relays

/-!
## Failures from outside

A plan says which calls of a run fail. The world with failures is compared with the world itself:
the runs are the same up to the first failure, and end with it if it gets through.
-/

/-- Which call, counted from the start of the run, fails, and with what. -/
abbrev FaultPlan (I : Interface) := ℕ → I.Call → Option I.Error

/-- A world with the count of calls so far and the failures so far, last one first. -/
structure Struck (I : Interface) (σ : Type) where
  /-- The state of the world below. -/
  base : σ
  /-- How many calls there were. -/
  calls : ℕ := 0
  /-- The errors that took the place of a call, the last one first. -/
  struck : List I.Error := []

/-- The world in which the planned calls fail and have no other effect. A failure takes the place
    of the call: the world below is not asked, and its state stays. -/
def withFaults (plan : FaultPlan I) (w : World I σ) : World I (Struck I σ) := fun s c =>
  match plan s.calls c with
  | some e => (.error e, { s with calls := s.calls + 1, struck := e :: s.struck })
  | none => ((w s.base c).1, { s with base := (w s.base c).2, calls := s.calls + 1 })

section Faults

variable {plan : FaultPlan I} {w : World I σ} {s : Struck I σ}

/-- Failures are only ever added, in front. -/
theorem struck_mono (p : Prog I α) :
    ∃ new, (p.run (withFaults plan w) s).state.struck = new ++ s.struck := by
  induction p generalizing s with
  | ret a => exact ⟨[], rfl⟩
  | raise e => exact ⟨[], rfl⟩
  | note n p ih => exact ih
  | call c k ih =>
    simp only [run]
    obtain ⟨new, hnew⟩ := ih (withFaults plan w s c).1 (s := (withFaults plan w s c).2)
    rw [hnew]
    unfold withFaults
    cases plan s.calls c with
    | none => exact ⟨new, rfl⟩
    | some e => exact ⟨new ++ [e], by simp⟩

/-- **Where nothing strikes, the run is that of the world itself.** -/
theorem run_withFaults_of_none {p : Prog I α}
    (h : (p.run (withFaults plan w) s).state.struck = s.struck) :
    (p.run (withFaults plan w) s).result = (p.run w s.base).result ∧
      (p.run (withFaults plan w) s).state.base = (p.run w s.base).state := by
  induction p generalizing s with
  | ret a => exact ⟨rfl, rfl⟩
  | raise e => exact ⟨rfl, rfl⟩
  | note n p ih => exact ih h
  | call c k ih =>
    simp only [run] at h ⊢
    unfold withFaults at h ⊢
    cases hplan : plan s.calls c with
    | none =>
      simp only [hplan] at h ⊢
      exact ih _ h
    | some e =>
      -- a failure would show
      simp only [hplan] at h
      obtain ⟨new, hnew⟩ := @struck_mono I σ α plan w
        { s with calls := s.calls + 1, struck := e :: s.struck } (k (.error e))
      have hlen := congrArg List.length (hnew.symm.trans h)
      simp only [List.length_append, List.length_cons] at hlen
      omega

/-- **A failure that gets through is what the run ends with.** -/
theorem run_withFaults_of_struck {K : I.Call → I.Error → Prop} {p : Prog I α}
    (hp : p.Propagates K) (hplan : ∀ n c e, plan n c = some e → K c e)
    (h : (p.run (withFaults plan w) s).state.struck ≠ s.struck) :
    ∃ e, (p.run (withFaults plan w) s).result = .error e ∧
      (p.run (withFaults plan w) s).state.struck = e :: s.struck ∧ ∃ n c, plan n c = some e := by
  induction p generalizing s with
  | ret a => exact absurd rfl h
  | raise e => exact absurd rfl h
  | note n p ih => exact ih hp h
  | call c k ih =>
    simp only [run] at h ⊢
    unfold withFaults at h ⊢
    cases hc : plan s.calls c with
    | none =>
      simp only [hc] at h ⊢
      exact ih _ (hp.2 _) h
    | some e =>
      have hk := hp.1 e (hplan s.calls c e hc)
      simp only [hk]
      exact ⟨e, rfl, rfl, s.calls, c, hc⟩

end Faults

end Prog
