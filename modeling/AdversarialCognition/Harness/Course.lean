import AdversarialCognition.Harness.Loop
import AdversarialCognition.Lib.Untyped

/-!
# The course of an operation

What the loop of `run_operation` can do, said once. The loop is at its head with the turns left
and the exchanges had so far; an exchange is a response with tool calls and the results the tools
gave. The transcript is a function of the exchanges (`transcript`), and `Course` has one
constructor for each way on from a head: out of turns, over the budget, no response, an answer, a
response or a tool call that cannot be read, and one more exchange.

`course_turnsLeft` is the inversion: every run of the loop is a course. Nothing past this file
unfolds the loop.

## Reading and calling apart

In the source a turn reads a call, makes it, reads the next one. `readTurn` and `readCall` are the
reading alone, without effects, and `takeTurn_eq` has the turn in their terms. This is what lets
later modules say of a response, and of nothing else, whether the loop can go on from it.

## Three views of a run

A `Course` has the states and the trace of every call and is what the induction runs over.
`Played` forgets the states: it has the exchanges, the calls to the transport and how the loop
ended, and it is what the laws about bounds are read off. `Ran` names the exchanges of one
operation, with the results of one that an exception cut short, for the laws that speak of what
the tools gave.

The tools' own calls to the backend stay in the trace of a course and are dropped from `Played`.
What a backend does with them is no concern of the loop's.
-/

namespace AdversarialCognition

open Py Py.Str Prog

section Read

variable [Runtime] [Decoder]

/-- What a response is read as: the ids of an answer, or a text with tool calls. -/
def readTurn (response : Json) : Except Str (List Str ⊕ (Str × List Json)) := do
  let message ← response.get "message" (.obj [])
  let toolCalls ← message.get "tool_calls" .null
  let content ← message.get "content" (.str [])
  if !toolCalls.truthy then
    let ids ← parseFinal content.toStr
    return .inl ids
  else
    let calls ← toolCalls.iter
    return .inr (content.toStr, calls)

theorem readTurn_eq_ok_iff {response : Json} {turn : List Str ⊕ (Str × List Json)} :
    readTurn response = .ok turn ↔
      ∃ message toolCalls content, response.get "message" (.obj []) = .ok message ∧
        message.get "tool_calls" .null = .ok toolCalls ∧
        message.get "content" (.str []) = .ok content ∧
        ((toolCalls.truthy = false ∧ ∃ ids, parseFinal content.toStr = .ok ids ∧ turn = .inl ids) ∨
          (toolCalls.truthy = true ∧ ∃ calls, toolCalls.iter = .ok calls ∧
            turn = .inr (content.toStr, calls))) := by
  -- without calls the content is the answer; with them it is what the assistant said
  have hlast : ∀ toolCalls content : Json, (if !toolCalls.truthy then (do
        let ids ← parseFinal content.toStr
        return .inl ids : Except Str (List Str ⊕ (Str × List Json)))
      else do
        let calls ← toolCalls.iter
        return .inr (content.toStr, calls)) = .ok turn ↔
      ((toolCalls.truthy = false ∧ ∃ ids, parseFinal content.toStr = .ok ids ∧ turn = .inl ids) ∨
        (toolCalls.truthy = true ∧ ∃ calls, toolCalls.iter = .ok calls ∧
          turn = .inr (content.toStr, calls))) := by
    intro toolCalls content
    cases htruthy : toolCalls.truthy with
    | false =>
      simp only [Bool.not_false, if_true, bind_eq_ok_iff, pure, Except.pure, Except.ok.injEq,
        true_and, Bool.false_eq_true, false_and, or_false]
      exact exists_congr fun ids => and_congr_right fun _ => eq_comm
    | true =>
      simp only [Bool.not_true, Bool.false_eq_true, if_false, bind_eq_ok_iff, pure, Except.pure,
        Except.ok.injEq, true_and, Bool.true_eq_false, false_and, false_or]
      exact exists_congr fun calls => and_congr_right fun _ => eq_comm
  rw [readTurn]
  simp only [bind_eq_ok_iff, hlast]
  constructor
  · rintro ⟨message, hmessage, toolCalls, htools, content, hcontent, h⟩
    exact ⟨message, toolCalls, content, hmessage, htools, hcontent, h⟩
  · rintro ⟨message, toolCalls, content, hmessage, htools, hcontent, h⟩
    exact ⟨message, hmessage, toolCalls, htools, content, hcontent, h⟩

/-- The name and arguments of a tool call. -/
def readCall (call : Json) : Except Str (Str × Json) := do
  let function ← call.get "function" (.obj [])
  let name ← function.get "name" (.str [])
  let arguments ← function.get "arguments" .null
  let arguments ← callArguments arguments
  return (name.toStr, arguments)

variable {τ : Type}

theorem readCall_eq_ok_iff {call : Json} {p : Str × Json} :
    readCall call = .ok p ↔
      ∃ function name arguments read, call.get "function" (.obj []) = .ok function ∧
        function.get "name" (.str []) = .ok name ∧
        function.get "arguments" .null = .ok arguments ∧ callArguments arguments = .ok read ∧
        p = (name.toStr, read) := by
  rw [readCall]
  simp only [bind_eq_ok_iff, pure, Except.pure, Except.ok.injEq]
  constructor
  · rintro ⟨function, hfunction, name, hname, arguments, harguments, read, hread, rfl⟩
    exact ⟨function, name, arguments, read, hfunction, hname, harguments, hread, rfl⟩
  · rintro ⟨function, name, arguments, read, hfunction, hname, harguments, hread, rfl⟩
    exact ⟨function, hfunction, name, hname, arguments, harguments, read, hread, rfl⟩

/-- A call can be read: its name and its arguments. -/
def ReadableCall (call : Json) : Prop := ∃ p, readCall call = .ok p

/-- The result of one tool call. -/
def giveResult (session : Option τ) (call : Json) : Prog (harness τ) ToolResult := do
  let (name, arguments) ← ofExcept (readCall call)
  dispatchTool session name arguments

end Read

/-- The message that carries a result. -/
def toolMessage (result : ToolResult) : Message :=
  { role := "tool", content := result.asPayload.dumps.take maxToolResultChars }

/-- One turn that went on: what the model said, the tools it called, and what they gave. -/
structure Exchange where
  response : Json
  content : Str
  calls : List Json
  results : List ToolResult

/-- The messages an exchange adds to the transcript: the model's own, and one for each result. -/
def Exchange.messages (x : Exchange) : List Message :=
  { role := "assistant", content := x.content, toolCalls := some x.calls } ::
    x.results.map toolMessage

/-- The transcript after some exchanges. -/
def transcript (prompt : Str) (xs : List Exchange) : List Message :=
  opening prompt ++ xs.flatMap Exchange.messages

theorem transcript_concat (prompt : Str) (xs : List Exchange) (x : Exchange) :
    transcript prompt (xs ++ [x]) = transcript prompt xs ++ x.messages := by
  rw [transcript, List.flatMap_append, List.flatMap_singleton, ← List.append_assoc]
  rfl

/-!
## The loop in these terms

The loop of the source, rewritten: a turn is a reading of the response, which has no effects, and
then what follows from the reading.
-/

section Equations

theorem mapM_map {I : Interface} {α β γ : Type} (f : α → Prog I β) (g : β → γ) (l : List α) :
    (l.mapM fun a => g <$> f a) = List.map g <$> l.mapM f := by
  induction l with
  | nil => rfl
  | cons a l ih => simp only [List.mapM_cons, ih, bind_map_left, map_bind, map_pure, List.map_cons]

theorem ofExcept_bind {I : Interface} {α β : Type} (x : Except I.Error α)
    (f : α → Except I.Error β) :
    (ofExcept (x >>= f) : Prog I β) = ofExcept x >>= fun a => ofExcept (f a) := by
  cases x with
  | ok a => rfl
  | error e => rfl

theorem ofExcept_pure {I : Interface} {α : Type} (a : α) :
    (ofExcept (pure a) : Prog I α) = pure a := rfl

variable [Runtime] [Decoder] {τ : Type} (session : Option τ)

/-- A call of the source's loop is a result and the message that carries it. -/
theorem answerCall_eq (call : Json) :
    answerCall session call = toolMessage <$> giveResult session call := by
  simp only [answerCall, giveResult, readCall, ofExcept_bind, ofExcept_pure, map_eq_pure_bind,
    LawfulMonad.bind_assoc, LawfulMonad.pure_bind]
  rfl

theorem mapM_answerCall (calls : List Json) :
    calls.mapM (answerCall session) = List.map toolMessage <$> calls.mapM (giveResult session) := by
  rw [← mapM_map]
  exact congrArg (fun f => calls.mapM f) (funext (answerCall_eq session))

/-- The turn, from what its response is read as. -/
def goOn (messages : List Message) (response : Json) :
    List Str ⊕ (Str × List Json) → Prog (harness τ) (List Str ⊕ List Message)
  | .inl ids => return .inl ids
  | .inr (content, calls) => do
    let results ← calls.mapM (giveResult session)
    return .inr (messages ++ (Exchange.mk response content calls results).messages)

/-- **A turn is a reading, and what follows from it.** The reading has no effects, so it comes
    first. -/
theorem takeTurn_eq (messages : List Message) (response : Json) :
    takeTurn session messages response =
      (Prog.ofExcept (readTurn response) : Prog (harness τ) _) >>=
        goOn session messages response := by
  simp only [takeTurn, readTurn, mapM_answerCall, ofExcept_bind, map_eq_pure_bind,
    LawfulMonad.bind_assoc]
  refine bind_congr fun message => bind_congr fun toolCalls => bind_congr fun content => ?_
  split
  · simp only [ofExcept_bind, ofExcept_pure, LawfulMonad.bind_assoc, LawfulMonad.pure_bind]
    rfl
  · simp only [ofExcept_bind, ofExcept_pure, LawfulMonad.bind_assoc, LawfulMonad.pure_bind]
    rfl

end Equations

/-!
## The tools

A tool call is given a result exactly if it can be read, since what a tool raises is made into a
result. Of the calls of a turn the first that cannot be read ends the operation, and those before
it have been carried out.
-/

section Tools

variable [Runtime] {τ σ : Type}

/-- **A tool call that can be read is always given a result.** -/
theorem dispatchTool_result (w : World (harness τ) σ) (s : σ) (session : Option τ) (name : Str)
    (arguments : Json) : ∃ result, ((dispatchTool session name arguments).run w s).result =
      .ok result := by
  unfold dispatchTool
  cases h : ((route session name arguments).run w s).result with
  | ok result =>
    rw [run_tryCatch_of_ok h]
    exact ⟨result, h⟩
  | error error =>
    rw [run_tryCatch_of_error h]
    exact ⟨_, rfl⟩

/-- The calls to the transport. -/
def IsChat : HarnessCall τ → Prop
  | .chat _ _ _ => True
  | _ => False

theorem avoids_dispatchTool (session : Option τ) (name : Str) (arguments : Json) :
    (dispatchTool session name arguments).Avoids IsChat := by
  have hargument : ∀ key, (argument (τ := τ) arguments key).Avoids IsChat :=
    fun key => (avoids_ofExcept _).bind fun value => avoids_pure _
  refine Avoids.tryCatch ?_ fun error => avoids_pure _
  unfold route
  refine avoids_ite ?_ (avoids_ite ?_ (avoids_ite ?_ (avoids_ite ?_ (avoids_pure _))))
  · exact (hargument "id").bind fun memoryId => (hargument "text").bind fun text =>
      avoids_perform id
  · exact (avoids_ofExcept _).bind fun asOf => (hargument "query").bind fun query =>
      avoids_perform id
  · exact (hargument "id").bind fun memoryId => avoids_perform id
  · exact avoids_perform id

variable [Decoder] {w : World (harness τ) σ} {session : Option τ}

theorem giveResult_of_readCall {call : Json} {p : Str × Json} (h : readCall call = .ok p) :
    giveResult session call = dispatchTool session p.1 p.2 := by
  rw [giveResult, h]
  rfl

theorem giveResult_of_error {call : Json} {e : Str} (h : readCall call = .error e) :
    giveResult session call = .raise e := by
  rw [giveResult, h]
  rfl

/-- A call is given a result exactly if it can be read: once it is read, nothing raises. -/
theorem giveResult_result_iff (call : Json) (s : σ) :
    (∃ result, ((giveResult session call).run w s).result = .ok result) ↔ ReadableCall call := by
  cases h : readCall call with
  | ok p =>
    rw [giveResult_of_readCall h]
    exact ⟨fun _ => ⟨p, h⟩, fun _ => dispatchTool_result w s session p.1 p.2⟩
  | error e =>
    rw [giveResult_of_error h]
    constructor
    · rintro ⟨result, hresult⟩
      simp at hresult
    · rintro ⟨p, hp⟩
      simp [h] at hp

omit [Runtime] [Decoder] in
/-- The first item that is not a `P`. -/
theorem exists_first {α : Type} {P : α → Prop} {l : List α} (h : ∃ a ∈ l, ¬ P a) :
    ∃ pre a post, l = pre ++ a :: post ∧ ¬ P a ∧ ∀ b ∈ pre, P b := by
  induction l with
  | nil =>
    obtain ⟨a, ha, -⟩ := h
    exact absurd ha List.not_mem_nil
  | cons a l ih =>
    by_cases ha : P a
    · obtain ⟨b, hb, hno⟩ := h
      have hbl : b ∈ l := (List.mem_cons.mp hb).resolve_left fun heq => hno (heq ▸ ha)
      obtain ⟨pre, c, post, rfl, hc, hpre⟩ := ih ⟨b, hbl, hno⟩
      exact ⟨a :: pre, c, post, rfl, hc, List.forall_mem_cons.mpr ⟨ha, hpre⟩⟩
    · exact ⟨[], a, l, rfl, ha, fun b hb => absurd hb List.not_mem_nil⟩

/-- **The calls of a turn are given their results if they can all be read**, one for one. -/
theorem mapM_giveResult_result_iff (calls : List Json) (s : σ) :
    (∃ results, ((calls.mapM (giveResult session)).run w s).result = .ok results) ↔
      ∀ call ∈ calls, ReadableCall call := by
  induction calls generalizing s with
  | nil => exact ⟨fun _ call h => absurd h List.not_mem_nil, fun _ => ⟨[], rfl⟩⟩
  | cons call calls ih =>
    have hcall : (∃ result, ((giveResult session call).run w s).result = .ok result) ↔
        ReadableCall call := giveResult_result_iff call s
    rw [List.forall_mem_cons, ← hcall, List.mapM_cons]
    constructor
    · rintro ⟨results, h⟩
      obtain ⟨result, hresult, h⟩ := result_bind_eq_ok_iff.mp h
      obtain ⟨rest, hrest, -⟩ := result_bind_eq_ok_iff.mp h
      exact ⟨⟨result, hresult⟩, (ih _).mp ⟨rest, hrest⟩⟩
    · rintro ⟨⟨result, hresult⟩, hcalls⟩
      obtain ⟨rest, hrest⟩ := (ih ((giveResult session call).run w s).state).mpr hcalls
      exact ⟨result :: rest, result_bind_eq_ok_iff.mpr ⟨result, hresult,
        result_bind_eq_ok_iff.mpr ⟨rest, hrest, rfl⟩⟩⟩

theorem length_of_mapM_giveResult {calls : List Json} {s : σ} {results : List ToolResult}
    (h : ((calls.mapM (giveResult session)).run w s).result = .ok results) :
    results.length = calls.length := by
  induction calls generalizing s results with
  | nil =>
    cases h
    rfl
  | cons call calls ih =>
    rw [List.mapM_cons] at h
    obtain ⟨result, -, h⟩ := result_bind_eq_ok_iff.mp h
    obtain ⟨rest, hrest, h⟩ := result_bind_eq_ok_iff.mp h
    cases h
    rw [List.length_cons, List.length_cons, ih hrest]

/-- What an exception cuts short has given the results of the calls before it. -/
theorem exists_torn {calls : List Json} {s : σ} {e : Str}
    (h : ((calls.mapM (giveResult session)).run w s).result = .error e) :
    ∃ torn pre call post, calls = pre ++ call :: post ∧ ¬ ReadableCall call ∧
      ((pre.mapM (giveResult session)).run w s).result = .ok torn := by
  have hsome : ∃ call ∈ calls, ¬ ReadableCall call := by
    by_contra hno
    push Not at hno
    obtain ⟨results, hresults⟩ : ∃ results,
        ((calls.mapM (giveResult session)).run w s).result = .ok results :=
      (mapM_giveResult_result_iff calls s).mpr hno
    rw [h] at hresults
    cases hresults
  obtain ⟨pre, call, post, hcalls, hcall, hpre⟩ := exists_first hsome
  obtain ⟨torn, htorn⟩ : ∃ results, ((pre.mapM (giveResult session)).run w s).result = .ok results :=
    (mapM_giveResult_result_iff pre s).mpr hpre
  exact ⟨torn, pre, call, post, hcalls, hcall, htorn⟩

end Tools

/-!
## The ways on from a head

A head is where the loop checks its bounds. From there it stops, or it asks the transport, and
then the response decides. `Course` has a constructor for each way, and the inversion says that
there is no other.
-/

section Course

variable [Runtime] [Decoder] {τ σ : Type}

/-- What the transport is asked. -/
@[reducible] def chat (messages : List Message) : HarnessCall τ :=
  .chat messages toolSchemas chatOptions

/-- `Course w session prompt xs s ys torn o`: in the world `w`, from the head that has had the
    exchanges `xs`, in the state `s`, the loop has the exchanges `ys` in all and ends as `o`. An
    exchange that an exception cuts short has given the results `torn`. -/
inductive Course (w : World (harness τ) σ) (session : Option τ) (prompt : Str) :
    List Exchange → σ → List Exchange → List ToolResult → Outcome (harness τ) σ LoopResult → Prop
  | outOfTurns {xs : List Exchange} {s : σ} (turns : xs.length = maxTurns) :
      Course w session prompt xs s xs []
        ⟨.ok { turns := maxTurns, budgetExceeded := true }, s, []⟩
  | overBudget {xs : List Exchange} {s : σ} (turns : xs.length < maxTurns)
      (past : maxTranscriptChars < transcriptChars (transcript prompt xs)) :
      Course w session prompt xs s xs []
        ⟨.ok { turns := xs.length + 1, budgetExceeded := true }, s, []⟩
  | refused {xs : List Exchange} {s t : σ} {error : Str} (turns : xs.length < maxTurns)
      (within : transcriptChars (transcript prompt xs) ≤ maxTranscriptChars)
      (answer : w s (chat (transcript prompt xs)) = (.error error, t)) :
      Course w session prompt xs s xs []
        ⟨.ok { turns := xs.length + 1, error := error.take 256 }, t,
          [.called (chat (transcript prompt xs)) (.error error)]⟩
  | unreadable {xs : List Exchange} {s t : σ} {response : Json} {error : Str}
      (turns : xs.length < maxTurns)
      (within : transcriptChars (transcript prompt xs) ≤ maxTranscriptChars)
      (answer : w s (chat (transcript prompt xs)) = (.ok response, t))
      (read : readTurn response = .error error) :
      Course w session prompt xs s xs []
        ⟨.error error, t, [.called (chat (transcript prompt xs)) (.ok response)]⟩
  | answered {xs : List Exchange} {s t : σ} {response : Json} {ids : List Str}
      (turns : xs.length < maxTurns)
      (within : transcriptChars (transcript prompt xs) ≤ maxTranscriptChars)
      (answer : w s (chat (transcript prompt xs)) = (.ok response, t))
      (read : readTurn response = .ok (.inl ids)) :
      Course w session prompt xs s xs []
        ⟨.ok { ids := ids, turns := xs.length + 1 }, t,
          [.called (chat (transcript prompt xs)) (.ok response)]⟩
  | stopped {xs : List Exchange} {s t : σ} {response : Json} {content error : Str}
      {calls : List Json} {torn : List ToolResult} (turns : xs.length < maxTurns)
      (within : transcriptChars (transcript prompt xs) ≤ maxTranscriptChars)
      (answer : w s (chat (transcript prompt xs)) = (.ok response, t))
      (read : readTurn response = .ok (.inr (content, calls)))
      (give : ((calls.mapM (giveResult session)).run w t).result = .error error)
      (before : ∃ pre call post, calls = pre ++ call :: post ∧ ¬ ReadableCall call ∧
        ((pre.mapM (giveResult session)).run w t).result = .ok torn) :
      Course w session prompt xs s xs torn
        ⟨.error error, ((calls.mapM (giveResult session)).run w t).state,
          .called (chat (transcript prompt xs)) (.ok response) ::
            ((calls.mapM (giveResult session)).run w t).trace⟩
  | continued {xs ys : List Exchange} {s t : σ} {response : Json} {content : Str}
      {calls : List Json} {results torn : List ToolResult} {o : Outcome (harness τ) σ LoopResult}
      (turns : xs.length < maxTurns)
      (within : transcriptChars (transcript prompt xs) ≤ maxTranscriptChars)
      (answer : w s (chat (transcript prompt xs)) = (.ok response, t))
      (read : readTurn response = .ok (.inr (content, calls)))
      (give : ((calls.mapM (giveResult session)).run w t).result = .ok results)
      (rest : Course w session prompt (xs ++ [⟨response, content, calls, results⟩])
        ((calls.mapM (giveResult session)).run w t).state ys torn o) :
      Course w session prompt xs s ys torn
        { o with trace := .called (chat (transcript prompt xs)) (.ok response) ::
            (((calls.mapM (giveResult session)).run w t).trace ++ o.trace) }

variable {w : World (harness τ) σ} {session : Option τ}

omit [Runtime] [Decoder] in
/-- A call whose exception is looked at: the run goes on with either answer. -/
theorem run_observe_bind {α : Type} {c : HarnessCall τ} {s : σ}
    (f : Except Str (HarnessCall.Answer c) → Prog (harness τ) α) :
    (observe (I := harness τ) c >>= f).run w s =
      { (f (w s c).1).run w (w s c).2 with
        trace := .called c (w s c).1 :: ((f (w s c).1).run w (w s c).2).trace } := rfl

theorem run_takeTurn_bind {messages : List Message} {response : Json} {t : σ}
    {f : List Str ⊕ List Message → Prog (harness τ) LoopResult} :
    (takeTurn session messages response >>= f).run w t =
      match readTurn response with
      | .error error => ⟨.error error, t, []⟩
      | .ok (.inl ids) => (f (.inl ids)).run w t
      | .ok (.inr (content, calls)) =>
        ((calls.mapM (giveResult session)).run w t).andThen fun results u =>
          (f (.inr (messages ++ (Exchange.mk response content calls results).messages))).run w u := by
  rw [takeTurn_eq]
  cases hread : readTurn response with
  | error error => rfl
  | ok turn =>
    cases turn with
    | inl ids => rfl
    | inr called =>
      obtain ⟨content, calls⟩ := called
      have hassoc : goOn session messages response (.inr (content, calls)) >>= f =
          calls.mapM (giveResult session) >>= fun results =>
            f (.inr (messages ++ (Exchange.mk response content calls results).messages)) := by
        rw [goOn, LawfulMonad.bind_assoc]
        rfl
      change (goOn session messages response (.inr (content, calls)) >>= f).run w t = _
      rw [hassoc, run_bind]

/-- **The inversion.** Whatever the loop does, it is one of the courses. -/
theorem course_turnsLeft {prompt : Str} (n : ℕ) {xs : List Exchange}
    (hturns : n + xs.length = maxTurns) (s : σ) :
    ∃ ys torn, Course w session prompt xs s ys torn
      ((turnsLeft session n (transcript prompt xs)).run w s) := by
  induction n generalizing xs s with
  -- the turns left and the exchanges had are six together, all the way
  | zero => exact ⟨xs, [], .outOfTurns (by omega)⟩
  | succ n ih =>
    have hlt : xs.length < maxTurns := by omega
    have hturn : maxTurns - n = xs.length + 1 := by omega
    unfold turnsLeft
    dsimp only
    rw [hturn]
    split
    · rename_i hover
      exact ⟨xs, [], .overBudget hlt hover⟩
    · rename_i hwithin
      have hwithin := not_lt.mp hwithin
      rw [run_observe_bind]
      cases hanswer : w s (chat (transcript prompt xs)) with
      | mk answer t =>
        cases answer with
        | error error => exact ⟨xs, [], .refused hlt hwithin hanswer⟩
        | ok response =>
          dsimp only
          rw [run_takeTurn_bind]
          cases hread : readTurn response with
          | error error => exact ⟨xs, [], .unreadable hlt hwithin hanswer hread⟩
          | ok turn =>
            cases turn with
            | inl ids => exact ⟨xs, [], .answered hlt hwithin hanswer hread⟩
            | inr called =>
              obtain ⟨content, calls⟩ := called
              dsimp only
              cases hgive : ((calls.mapM (giveResult session)).run w t).result with
              | error error =>
                rw [Outcome.andThen, hgive]
                obtain ⟨torn, hbefore⟩ := exists_torn hgive
                exact ⟨xs, torn, .stopped hlt hwithin hanswer hread hgive hbefore⟩
              | ok results =>
                rw [Outcome.andThen, hgive]
                dsimp only
                rw [← transcript_concat]
                have hnext : n + (xs ++ [Exchange.mk response content calls results]).length =
                    maxTurns := by
                  rw [List.length_append, List.length_singleton]
                  omega
                obtain ⟨ys, torn, hcourse⟩ :=
                  ih hnext ((calls.mapM (giveResult session)).run w t).state
                exact ⟨ys, torn, .continued hlt hwithin hanswer hread hgive hcourse⟩

end Course

/-!
## What the transport sees

The calls to the transport in a trace, which is what the bounds are about. The calls of the tools
are skipped.
-/

section Chats

variable {τ σ : Type}

/-- The messages of a call to the transport, and what it answered. -/
abbrev ChatEvent := List Message × Except Str Json

/-- The call to the transport an event is, if it is one. -/
def chat? : Event (harness τ) → Option ChatEvent
  | .called (.chat messages _ _) answer => some (messages, answer)
  | _ => none

/-- The calls to the transport in a trace, in order. -/
def chats (trace : List (Event (harness τ))) : List ChatEvent := trace.filterMap chat?

theorem chats_eq_nil {trace : List (Event (harness τ))} (h : ∀ c ∈ calls trace, ¬ IsChat c) :
    chats trace = [] := by
  rw [chats, List.filterMap_eq_nil_iff]
  intro event hevent
  cases event with
  | noted note => rfl
  | called c answer =>
    have hc : ¬ IsChat c := h c (List.mem_filterMap.mpr ⟨_, hevent, rfl⟩)
    cases c with
    | chat => exact absurd trivial hc
    | _ => rfl

/-- The calls to the transport of the exchanges `zs`, which follow the exchanges `xs`. -/
def sent (prompt : Str) : List Exchange → List Exchange → List ChatEvent
  | _, [] => []
  | xs, z :: zs => (transcript prompt xs, .ok z.response) :: sent prompt (xs ++ [z]) zs

theorem length_sent (prompt : Str) (xs zs : List Exchange) :
    (sent prompt xs zs).length = zs.length := by
  induction zs generalizing xs with
  | nil => rfl
  | cons z zs ih => rw [sent, List.length_cons, List.length_cons, ih]

/-- Each of them has the transcript of the exchanges before it. -/
theorem exists_of_mem_sent {prompt : Str} {xs zs : List Exchange} {c : ChatEvent}
    (h : c ∈ sent prompt xs zs) :
    ∃ pre z post, zs = pre ++ z :: post ∧ c = (transcript prompt (xs ++ pre), .ok z.response) := by
  induction zs generalizing xs with
  | nil => exact absurd h List.not_mem_nil
  | cons z zs ih =>
    rcases List.mem_cons.mp h with rfl | h
    · exact ⟨[], z, zs, rfl, by rw [List.append_nil]⟩
    · obtain ⟨pre, z', post, rfl, rfl⟩ := ih h
      exact ⟨z :: pre, z', post, rfl, by rw [List.append_assoc, List.singleton_append]⟩

end Chats

/-!
## A whole operation

A course is followed to its end: the exchanges it has had, and how it ended after them. Every
operation over every backend is `Played`, and what is proved about operations later is proved from
that alone.
-/

section Operation

variable [Runtime] [Decoder] {τ σ : Type}

/-- The exchange is one the loop can have: its response is read as its text and calls, and its
    results are what the tools gave for these, in order. -/
structure Had (w : World (harness τ) σ) (session : Option τ) (x : Exchange) : Prop where
  read : readTurn x.response = .ok (.inr (x.content, x.calls))
  given : ∃ t, ((x.calls.mapM (giveResult session)).run w t).result = .ok x.results

theorem Had.readable {w : World (harness τ) σ} {session : Option τ} {x : Exchange}
    (h : Had w session x) : ∀ call ∈ x.calls, ReadableCall call := by
  obtain ⟨t, hgiven⟩ := h.given
  exact (mapM_giveResult_result_iff x.calls t).mp ⟨x.results, hgiven⟩

theorem Had.length_eq {w : World (harness τ) σ} {session : Option τ} {x : Exchange}
    (h : Had w session x) : x.results.length = x.calls.length := by
  obtain ⟨t, hgiven⟩ := h.given
  exact length_of_mapM_giveResult hgiven

/-- How the loop ends after the exchanges `ys`: the calls to the transport that follow the last
    exchange, at most one, and the result. -/
inductive Ended (prompt : Str) (ys : List Exchange) :
    List ChatEvent → Except Str LoopResult → Prop
  | outOfTurns (turns : ys.length = maxTurns) :
      Ended prompt ys [] (.ok { turns := maxTurns, budgetExceeded := true })
  | overBudget (turns : ys.length < maxTurns)
      (past : maxTranscriptChars < transcriptChars (transcript prompt ys)) :
      Ended prompt ys [] (.ok { turns := ys.length + 1, budgetExceeded := true })
  | refused {error : Str} (turns : ys.length < maxTurns) :
      Ended prompt ys [(transcript prompt ys, .error error)]
        (.ok { turns := ys.length + 1, error := error.take 256 })
  | answered {response : Json} {ids : List Str} (turns : ys.length < maxTurns)
      (read : readTurn response = .ok (.inl ids)) :
      Ended prompt ys [(transcript prompt ys, .ok response)]
        (.ok { ids := ids, turns := ys.length + 1 })
  | unreadable {response : Json} {error : Str} (turns : ys.length < maxTurns)
      (read : readTurn response = .error error) :
      Ended prompt ys [(transcript prompt ys, .ok response)] (.error error)
  | stopped {response : Json} {content error : Str} {calls : List Json}
      (turns : ys.length < maxTurns) (read : readTurn response = .ok (.inr (content, calls)))
      (unread : ¬ ∀ call ∈ calls, ReadableCall call) :
      Ended prompt ys [(transcript prompt ys, .ok response)] (.error error)

/-- **What an operation is**, from the head that has had the exchanges `xs`: it has had the
    exchanges `ys` when it ends, and called the transport once for each of them, with the
    transcript before it, and perhaps once more. -/
structure Played (w : World (harness τ) σ) (session : Option τ) (prompt : Str)
    (xs : List Exchange) (o : Outcome (harness τ) σ LoopResult) (zs : List Exchange)
    (last : List ChatEvent) : Prop where
  had : ∀ z ∈ zs, Had w session z
  calls : chats o.trace = sent prompt xs zs ++ last
  within : ∀ c ∈ chats o.trace, transcriptChars c.1 ≤ maxTranscriptChars
  ended : Ended prompt (xs ++ zs) last o.result

variable {w : World (harness τ) σ} {session : Option τ} {prompt : Str}

theorem chats_mapM_giveResult (calls : List Json) (s : σ) :
    chats ((calls.mapM (giveResult session)).run w s).trace = [] := by
  refine chats_eq_nil (Avoids.not_called (avoids_mapM (fun call => ?_) calls) s)
  exact (avoids_ofExcept _).bind fun p => avoids_dispatchTool session p.1 p.2

theorem played_of_ended {xs : List Exchange} {o : Outcome (harness τ) σ LoopResult}
    {last : List ChatEvent} (hchats : chats o.trace = last)
    (hwithin : ∀ c ∈ last, transcriptChars c.1 ≤ maxTranscriptChars)
    (hended : Ended prompt xs last o.result) :
    ∃ zs last, xs = xs ++ zs ∧ Played w session prompt xs o zs last := by
  refine ⟨[], last, (List.append_nil xs).symm, fun z h => absurd h List.not_mem_nil, hchats, ?_, ?_⟩
  · rw [hchats]
    exact hwithin
  · rw [List.append_nil]
    exact hended

/-- **What a course comes to** for the transport. The induction is on the course: every
    constructor but the last ends it, and the last puts one exchange before what follows. -/
theorem Course.played {xs ys : List Exchange} {s : σ} {o : Outcome (harness τ) σ LoopResult}
    {torn : List ToolResult} (h : Course w session prompt xs s ys torn o) :
    ∃ zs last, ys = xs ++ zs ∧ Played w session prompt xs o zs last := by
  have hlast : ∀ {xs : List Exchange} {answer : Except Str Json},
      transcriptChars (transcript prompt xs) ≤ maxTranscriptChars →
      ∀ c ∈ [((transcript prompt xs, answer) : ChatEvent)],
        transcriptChars c.1 ≤ maxTranscriptChars := by
    intro xs answer hwithin c hc
    rw [List.mem_singleton.mp hc]
    exact hwithin
  have hnone : ∀ c ∈ ([] : List ChatEvent), transcriptChars c.1 ≤ maxTranscriptChars :=
    fun c hc => absurd hc List.not_mem_nil
  induction h with
  | outOfTurns turns => exact played_of_ended rfl hnone (.outOfTurns turns)
  | overBudget turns past => exact played_of_ended rfl hnone (.overBudget turns past)
  | refused turns within answer => exact played_of_ended rfl (hlast within) (.refused turns)
  | unreadable turns within answer read =>
    exact played_of_ended rfl (hlast within) (.unreadable turns read)
  | answered turns within answer read =>
    exact played_of_ended rfl (hlast within) (.answered turns read)
  -- the calls of a turn that was not finished have left results, but no exchange
  | @stopped xs s t response content error calls torn turns within answer read give before =>
    have hunread : ¬ ∀ call ∈ calls, ReadableCall call := by
      obtain ⟨pre, call, post, rfl, hcall, -⟩ := before
      exact fun hall => hcall (hall call (List.mem_append_right _ List.mem_cons_self))
    refine played_of_ended ?_ (hlast within) (.stopped turns read hunread)
    exact congrArg (List.cons _) (chats_mapM_giveResult calls t)
  | @continued xs ys s t response content calls results torn o turns within answer read give rest
      ih =>
    obtain ⟨zs, last, rfl, hplayed⟩ := ih
    have hchats : chats (.called (chat (transcript prompt xs)) (.ok response) ::
        (((calls.mapM (giveResult session)).run w t).trace ++ o.trace)) =
        (transcript prompt xs, .ok response) :: chats o.trace := by
      change _ :: chats _ = _
      rw [chats, List.filterMap_append]
      exact congrArg (fun l => _ :: (l ++ _)) (chats_mapM_giveResult calls t)
    refine ⟨⟨response, content, calls, results⟩ :: zs, last, ?_, ?_, ?_, ?_, ?_⟩
    · rw [List.append_assoc, List.singleton_append]
    · intro z hz
      rcases List.mem_cons.mp hz with rfl | hz
      · exact ⟨read, t, give⟩
      · exact hplayed.had z hz
    · rw [hchats, hplayed.calls]
      rfl
    · rw [hchats]
      intro c hc
      rcases List.mem_cons.mp hc with rfl | hc
      · exact within
      · exact hplayed.within c hc
    · rw [List.append_cons]
      exact hplayed.ended

omit [Runtime] [Decoder] in
/-- The note of its result does not show in how an operation ends, nor to the transport. -/
theorem run_operation_noted (p : Prog (harness τ) LoopResult) (s : σ) :
    ((p >>= fun result => noting (I := harness τ) (.operation result) >>= fun _ =>
        pure result).run w s).result = (p.run w s).result ∧
      chats ((p >>= fun result => noting (I := harness τ)
        (.operation result) >>= fun _ => pure result).run w s).trace = chats (p.run w s).trace := by
  cases h : (p.run w s).result with
  | ok result =>
    rw [run_bind_of_ok h]
    refine ⟨rfl, ?_⟩
    dsimp only
    rw [chats, List.filterMap_append]
    exact List.append_nil _
  | error e =>
    rw [run_bind_of_error h]
    exact ⟨rfl, rfl⟩

-- six turns are not to be unrolled when an operation is looked at
attribute [local irreducible] turnsLeft

theorem course_runOperation (w : World (harness τ) σ) (session : Option τ) (prompt : Str) (s : σ) :
    ∃ ys torn, ∃ o, Course w session prompt [] s ys torn o ∧
      ((runOperation session prompt).run w s).result = o.result ∧
      chats ((runOperation session prompt).run w s).trace = chats o.trace := by
  have hturns : maxTurns + ([] : List Exchange).length = maxTurns := rfl
  obtain ⟨ys, torn, hcourse⟩ : ∃ ys torn, Course w session prompt [] s ys torn
      ((turnsLeft session maxTurns (transcript prompt [])).run w s) :=
    course_turnsLeft maxTurns hturns s
  have htranscript : transcript prompt [] = opening prompt := List.append_nil _
  rw [htranscript] at hcourse
  exact ⟨ys, torn, _, hcourse, run_operation_noted (turnsLeft session maxTurns (opening prompt)) s⟩

/-- The operation from the state `s` has the exchanges `ys`, and the results `torn` of one that
    an exception cuts short. -/
def Ran (w : World (harness τ) σ) (session : Option τ) (prompt : Str) (s : σ) (ys : List Exchange)
    (torn : List ToolResult) : Prop :=
  ∃ o, Course w session prompt [] s ys torn o ∧
    ((runOperation session prompt).run w s).result = o.result ∧
    chats ((runOperation session prompt).run w s).trace = chats o.trace

theorem exists_ran (w : World (harness τ) σ) (session : Option τ) (prompt : Str) (s : σ) :
    ∃ ys torn, Ran w session prompt s ys torn := course_runOperation w session prompt s

/-- What was said of courses, for the operation that runs one. -/
theorem Ran.played {s : σ} {ys : List Exchange} {torn : List ToolResult}
    (h : Ran w session prompt s ys torn) :
    ∃ last, Played w session prompt [] ((runOperation session prompt).run w s) ys last := by
  obtain ⟨o, hcourse, hresult, hchats⟩ := h
  obtain ⟨zs, last, rfl, hplayed⟩ := hcourse.played
  refine ⟨last, hplayed.had, hchats.trans hplayed.calls, ?_, ?_⟩
  · rw [hchats]
    exact hplayed.within
  · rw [hresult]
    exact hplayed.ended

/-- **Every operation, over every backend and every transport.** -/
theorem played_runOperation (w : World (harness τ) σ) (session : Option τ) (prompt : Str) (s : σ) :
    ∃ ys last, Played w session prompt [] ((runOperation session prompt).run w s) ys last := by
  obtain ⟨ys, torn, hran⟩ := exists_ran w session prompt s
  exact ⟨ys, hran.played⟩

/-!
## Following a course

The forward rules, by which a run with given responses is traced head by head.
-/

theorem Course.first {xs ys : List Exchange} {s t : σ} {o : Outcome (harness τ) σ LoopResult}
    {response : Json} {torn : List ToolResult} (h : Course w session prompt xs s ys torn o)
    (hturns : xs.length < maxTurns)
    (hwithin : transcriptChars (transcript prompt xs) ≤ maxTranscriptChars)
    (hanswer : w s (chat (transcript prompt xs)) = (.ok response, t)) :
    (transcript prompt xs, .ok response) ∈ chats o.trace := by
  cases h with
  | outOfTurns turns => omega
  | overBudget turns past => omega
  | refused turns within answer =>
    rw [hanswer] at answer
    cases answer
  | unreadable turns within answer | answered turns within answer | stopped turns within answer
    | continued turns within answer =>
    rw [hanswer] at answer
    cases answer
    exact List.mem_cons_self

theorem Course.next {xs ys : List Exchange} {s t : σ} {o : Outcome (harness τ) σ LoopResult}
    {response : Json} {content : Str} {calls : List Json} {results torn : List ToolResult}
    (h : Course w session prompt xs s ys torn o) (hturns : xs.length < maxTurns)
    (hwithin : transcriptChars (transcript prompt xs) ≤ maxTranscriptChars)
    (hanswer : w s (chat (transcript prompt xs)) = (.ok response, t))
    (hread : readTurn response = .ok (.inr (content, calls)))
    (hgive : ((calls.mapM (giveResult session)).run w t).result = .ok results) :
    ∃ o', Course w session prompt (xs ++ [⟨response, content, calls, results⟩])
        ((calls.mapM (giveResult session)).run w t).state ys torn o' ∧
      o'.result = o.result ∧ ∀ c ∈ chats o'.trace, c ∈ chats o.trace := by
  cases h with
  | outOfTurns turns => omega
  | overBudget turns past => omega
  | refused turns within answer =>
    rw [hanswer] at answer
    cases answer
  | unreadable turns within answer read =>
    rw [hanswer] at answer
    cases answer
    rw [hread] at read
    cases read
  | answered turns within answer read =>
    rw [hanswer] at answer
    cases answer
    rw [hread] at read
    cases read
  | stopped turns within answer read give =>
    rw [hanswer] at answer
    cases answer
    rw [hread] at read
    cases read
    rw [hgive] at give
    cases give
  -- every other way to end is at odds with the turn that was taken
  | @continued _ _ _ _ _ _ _ _ _ o turns within answer read give rest =>
    rw [hanswer] at answer
    cases answer
    rw [hread] at read
    cases read
    rw [hgive] at give
    cases give
    refine ⟨o, rest, rfl, fun c hc => ?_⟩
    obtain ⟨event, hevent, heq⟩ := List.mem_filterMap.mp hc
    refine List.mem_filterMap.mpr ⟨event, ?_, heq⟩
    exact List.mem_cons_of_mem _ (List.mem_append_right _ hevent)

theorem Course.last {xs ys : List Exchange} {s t : σ} {o : Outcome (harness τ) σ LoopResult}
    {response : Json} {ids : List Str} {torn : List ToolResult}
    (h : Course w session prompt xs s ys torn o) (hturns : xs.length < maxTurns)
    (hwithin : transcriptChars (transcript prompt xs) ≤ maxTranscriptChars)
    (hanswer : w s (chat (transcript prompt xs)) = (.ok response, t))
    (hread : readTurn response = .ok (.inl ids)) :
    ys = xs ∧ o.result = .ok { ids := ids, turns := xs.length + 1 } := by
  cases h with
  | outOfTurns turns => omega
  | overBudget turns past => omega
  | refused turns within answer =>
    rw [hanswer] at answer
    cases answer
  | unreadable turns within answer read | answered turns within answer read
    | stopped turns within answer read | continued turns within answer read =>
    rw [hanswer] at answer
    cases answer
    rw [hread] at read
    cases read <;> exact ⟨rfl, rfl⟩

end Operation

end AdversarialCognition
