import AdversarialCognition.Lib.Prog

/-!
# Two programs side by side

A `Coupling` says which calls of two interfaces correspond, and when their answers do. Two
programs are `Alike` if they make corresponding calls for as long as they get corresponding
answers. The worlds may differ. What is left of the likeness in two runs is `InStep`: up to the
first answers that do not correspond, and with them, the traces do.

The rules follow the shape of the programs, as those of one program do.

## Why the interfaces may differ

The one application compares a driver that hands a session to every call with a driver that hands
over the name of a principal. Neither is a special case of the other, and nothing they say of a
call is equal. What is the same is which call is made and what is read out of its answer, and a
coupling is a way to say this without a third interface that both would be translated to.

## What it does not say

Nothing is said of how long two runs are or how they end. After the first answers that do not
correspond the programs may go apart, and `InStep` then asks for nothing more. Where the worlds
are such that this never happens (`Concordant`, for the calls in `K`), that is for the application
to show.
-/

namespace Prog

/-- Which calls correspond, with the relation their answers are then to be in, and which
    exceptions do. The relation may depend on the two calls, as the types of the answers do. -/
structure Coupling (I J : Interface) where
  /-- The calls correspond, and their answers do if they are related so. -/
  Calls : (c : I.Call) → (d : J.Call) → (I.Answer c → J.Answer d → Prop) → Prop
  Errors : I.Error → J.Error → Prop

/-- Both are values, related so, or both are exceptions. -/
def Coupling.Results {I J : Interface} {α β : Type} (C : Coupling I J) (S : α → β → Prop) :
    Except I.Error α → Except J.Error β → Prop
  | .ok a, .ok b => S a b
  | .error e, .error e' => C.Errors e e'
  | _, _ => False

/-- The programs make corresponding calls for as long as they get corresponding answers. Notes are
    matched in number and place, and may be any two notes. -/
inductive Alike {I J : Interface} (C : Coupling I J) {α β : Type} (S : α → β → Prop) :
    Prog I α → Prog J β → Prop
  | ret {a : α} {b : β} : S a b → Alike C S (.ret a) (.ret b)
  | raise {e : I.Error} {e' : J.Error} : C.Errors e e' → Alike C S (.raise e) (.raise e')
  | note {p : Prog I α} {q : Prog J β} (n : I.Note) (m : J.Note) :
      Alike C S p q → Alike C S (.note n p) (.note m q)
  | call {c : I.Call} {d : J.Call} {A : I.Answer c → J.Answer d → Prop}
      {k : Except I.Error (I.Answer c) → Prog I α} {k' : Except J.Error (J.Answer d) → Prog J β} :
      C.Calls c d A → (∀ r r', C.Results A r r' → Alike C S (k r) (k' r')) →
        Alike C S (.call c k) (.call d k')

/-- Event by event the traces correspond, until a call is answered differently. A call in `K`
    never is. The first answers that do not correspond are still those of corresponding calls. -/
inductive InStep {I J : Interface} (C : Coupling I J) (K : I.Call → Prop) :
    List (Event I) → List (Event J) → Prop
  | nil : InStep C K [] []
  | noted {now : List (Event I)} {now' : List (Event J)} (n : I.Note) (m : J.Note) :
      InStep C K now now' → InStep C K (.noted n :: now) (.noted m :: now')
  | called {c : I.Call} {d : J.Call} {A : I.Answer c → J.Answer d → Prop}
      {r : Except I.Error (I.Answer c)} {r' : Except J.Error (J.Answer d)}
      {later : List (Event I)} {later' : List (Event J)} :
      C.Calls c d A → (K c → C.Results A r r') → (C.Results A r r' → InStep C K later later') →
        InStep C K (.called c r :: later) (.called d r' :: later')

section Alike

variable {I J : Interface} {C : Coupling I J} {α β γ δ : Type} {S : α → β → Prop}
  {T : γ → δ → Prop}

theorem Alike.bind {p : Prog I α} {q : Prog J β} {f : α → Prog I γ} {g : β → Prog J δ}
    (h : Alike C S p q) (hfg : ∀ a b, S a b → Alike C T (f a) (g b)) :
    Alike C T (p >>= f) (q >>= g) := by
  show Alike C T (p.bind f) (q.bind g)
  induction h with
  | ret hab => exact hfg _ _ hab
  | raise he => exact .raise he
  | note n m _ ih => exact .note n m ih
  | call hc _ ih => exact .call hc ih

theorem Alike.tryCatch {p : Prog I α} {q : Prog J β} {f : I.Error → Prog I α}
    {g : J.Error → Prog J β} (h : Alike C S p q)
    (hfg : ∀ e e', C.Errors e e' → Alike C S (f e) (g e')) :
    Alike C S (p.tryCatch f) (q.tryCatch g) := by
  induction h with
  | ret hab => exact .ret hab
  | raise he => exact hfg _ _ he
  | note n m _ ih => exact .note n m ih
  | call hc _ ih => exact .call hc ih

theorem alike_pure {a : α} {b : β} (h : S a b) : Alike C S (pure a) (pure b) := .ret h

theorem alike_noting (n : I.Note) (m : J.Note) :
    Alike C (fun _ _ => True) (noting n) (noting m) := .note n m (.ret trivial)

theorem alike_observe {c : I.Call} {d : J.Call} {A : I.Answer c → J.Answer d → Prop}
    (h : C.Calls c d A) : Alike C (C.Results A) (observe c) (observe d) :=
  .call h fun _ _ => .ret

theorem alike_perform {c : I.Call} {d : J.Call} {A : I.Answer c → J.Answer d → Prop}
    (h : C.Calls c d A) : Alike C A (perform c) (perform d) := by
  refine .call h fun r r' hr => ?_
  cases r with
  | ok a =>
    cases r' with
    | ok b => exact .ret hr
    | error e' => exact hr.elim
  | error e =>
    cases r' with
    | ok b => exact hr.elim
    | error e' => exact .raise hr

theorem alike_ofExcept {r : Except I.Error α} {r' : Except J.Error β} (h : C.Results S r r') :
    Alike C S (ofExcept r) (ofExcept r') := by
  cases r with
  | ok a =>
    cases r' with
    | ok b => exact .ret h
    | error e' => exact h.elim
  | error e =>
    cases r' with
    | ok b => exact h.elim
    | error e' => exact .raise h

theorem alike_ite {c : Prop} [Decidable c] {p p' : Prog I α} {q q' : Prog J β}
    (h : Alike C S p q) (h' : Alike C S p' q') :
    Alike C S (if c then p else p') (if c then q else q') := by
  split
  · exact h
  · exact h'

theorem alike_mapM {f : γ → Prog I α} {g : γ → Prog J β} (hfg : ∀ c, Alike C S (f c) (g c))
    (l : List γ) : Alike C (List.Forall₂ S) (l.mapM f) (l.mapM g) := by
  induction l with
  | nil => exact .ret .nil
  | cons c l ih =>
    rw [List.mapM_cons, List.mapM_cons]
    exact (hfg c).bind fun a b hab => ih.bind fun as bs habs => alike_pure (.cons hab habs)

/-- Two worlds keep `Q` for as long as their answers correspond, and where it holds their
    answers to calls in `K` do correspond. -/
structure Concordant {σ τ : Type} (C : Coupling I J) (K : I.Call → Prop) (w : World I σ)
    (w' : World J τ) (Q : σ → τ → Prop) : Prop where
  answers : ∀ {s t c d A}, Q s t → C.Calls c d A → K c → C.Results A (w s c).1 (w' t d).1
  keeps : ∀ {s t c d A}, Q s t → C.Calls c d A → Q (w s c).2 (w' t d).2

/-- **Like programs run in step**, in worlds that are concordant on the calls in `K`. The
    induction is on the likeness of the programs, and `Q` is carried from one call to the next. -/
theorem Alike.inStep {σ τ : Type} {K : I.Call → Prop} {w : World I σ} {w' : World J τ}
    {Q : σ → τ → Prop} (hw : Concordant C K w w' Q) {p : Prog I α} {q : Prog J β}
    (h : Alike C S p q) {s : σ} {t : τ} (hQ : Q s t) :
    InStep C K (p.run w s).trace (q.run w' t).trace := by
  induction h generalizing s t with
  | ret _ => exact .nil
  | raise _ => exact .nil
  | note n m _ ih => exact .noted n m (ih hQ)
  | call hc _ ih => exact .called hc (hw.answers hQ hc) fun hr => ih _ _ hr (hw.keeps hQ hc)

end Alike

end Prog
