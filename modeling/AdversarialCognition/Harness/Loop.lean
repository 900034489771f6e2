import AdversarialCognition.Harness.Tools

/-!
# The shared agent loop

`agent_harness/loop.py`: at most six turns with the model, a budget on the transcript, and a
bounded parse of the final answer. What the model says is any JSON value. Where it has not the
shape the loop reads it for, the loop raises.

## What is caught and what is not

Three handlers stand in the source, and each is modelled with what it names. The handler around
the transport catches everything, and its error ends the operation with a result. The one around a
tool call is in `dispatchTool` and catches everything as well. The two around `json.loads` name
`JSONDecodeError`, so the other two kinds of failure of the decoder get through: a `ValueError`
for a numeral longer than the interpreter converts, and a `RecursionError` for a text nested
deeper than it descends. Both leave the operation without a result, and with it the run.

## The note of an operation

An operation leaves a note of the result it ends with. `runOperation_yields` is all that is used
of it elsewhere: one note, of the result that is returned, and no ids in it where an error or an
exceeded budget is recorded. The loop's own text is made irreducible once that is known, since the
modules about the driver would otherwise unroll six turns.
-/

namespace AdversarialCognition

open Py Py.Str Prog

/-- `MAX_TURNS` -/
def maxTurns : ℕ := 6

/-- `MAX_IDS`, of the loop. -/
def maxAnswerIds : ℕ := 8

/-- `MAX_ID_CHARS`, of the loop. -/
def maxAnswerIdChars : ℕ := 64

/-- `MAX_TOOL_RESULT_CHARS`. The cut it stands for is made on the encoded result and leaves no
    mark. -/
def maxToolResultChars : ℕ := 2000

/-- `MAX_TRANSCRIPT_CHARS`, over the contents of all messages. -/
def maxTranscriptChars : ℕ := 24000

/-- `OPTIONS` -/
def chatOptions : Json :=
  .obj [(lit "temperature", .int 0), (lit "seed", .int 7), (lit "num_ctx", .int 8192)]

section Loop

variable [Runtime] [Decoder]

/-!
## The final answer

An answer is parsed, and if it is no JSON then what stands between its first opening bracket and
its last closing one is parsed. An answer that cannot be read either way is an abstention.
-/

/-- The items of an answer that are ids, bounded. A `bool` is an `int` to Python, and every other
    item is dropped. The list is cut before the items are looked at, so a dropped item uses up its
    place. -/
def boundedIds (items : List Json) : List Str :=
  (items.take maxAnswerIds).filterMap fun
    | .str s => some (s.take maxAnswerIdChars)
    | .int n => some ((Json.int n).toStr.take maxAnswerIdChars)
    | .bool b => some ((Json.bool b).toStr.take maxAnswerIdChars)
    | _ => none

/-- The ids of a parsed answer. What is no array is an abstention. -/
def idsOf : Json → List Str
  | .list items => boundedIds items
  | _ => []

/-- The text from the first opening bracket to the last closing one. The two need not belong
    together. -/
def bracketed? (text : Str) : Option Str :=
  match find (CodePoint.ofChar '[') text, rfind (CodePoint.ofChar ']') text with
  | some start, some stop =>
      if stop < start then none else some ((text.take (stop + 1)).drop start)
  | _, _ => none

/-- `parse_final`: the answer as JSON, and if it is none, the bracketed part of it. A `ValueError`
    that is no `JSONDecodeError` gets through, and so does a `RecursionError`. -/
def parseFinal (content : Str) : Except Str (List Str) :=
  match Json.loads content.strip with
  | .ok parsed => .ok (idsOf parsed)
  | .error (.value text) => .error text
  | .error (.recursion text) => .error text
  | .error .decode =>
      match bracketed? content.strip with
      | none => .ok []
      | some array =>
          -- the second parse has no second fallback
          match Json.loads array with
          | .ok parsed => .ok (idsOf parsed)
          | .error (.value text) => .error text
          | .error (.recursion text) => .error text
          | .error .decode => .ok []

/-!
## The loop

`run_operation`, with the fuel that its bound on turns gives it. The transcript is handed on from
turn to turn, and its size is looked at before each call.
-/

/-- `_transcript_chars` -/
def transcriptChars (messages : List Message) : ℕ :=
  (messages.map fun message => message.content.length).sum

variable {τ : Type}

/-- The arguments of a tool call, which may come as JSON text. Text that is no JSON stands for no
    arguments. -/
def callArguments (arguments : Json) : Except Str Json :=
  match if arguments.truthy then arguments else .obj [] with
  | .str text =>
      match Json.loads text with
      | .ok parsed => .ok parsed
      | .error .decode => .ok (.obj [])
      | .error (.value error) => .error error
      | .error (.recursion error) => .error error
  | other => .ok other

/-- One tool call of a message, and the message that answers it. The encoding of the result is cut
    at `maxToolResultChars`, wherever that falls. -/
def answerCall (session : Option τ) (call : Json) : Prog (harness τ) Message := do
  let function ← ofExcept (call.get "function" (.obj []))
  let name ← ofExcept (function.get "name" (.str []))
  let arguments ← ofExcept (function.get "arguments" .null)
  let arguments ← ofExcept (callArguments arguments)
  let result ← dispatchTool session name.toStr arguments
  return { role := "tool", content := result.asPayload.dumps.take maxToolResultChars }

/-- What the loop does with a response: an answer ends it, tool calls extend the transcript. The
    content of a message that has tool calls is kept, and not read as an answer. -/
def takeTurn (session : Option τ) (messages : List Message) (response : Json) :
    Prog (harness τ) (List Str ⊕ List Message) := do
  let message ← ofExcept (response.get "message" (.obj []))
  let toolCalls ← ofExcept (message.get "tool_calls" .null)
  let content ← ofExcept (message.get "content" (.str []))
  if !toolCalls.truthy then
    let ids ← ofExcept (parseFinal content.toStr)
    return .inl ids
  else
    let calls ← ofExcept toolCalls.iter
    let answers ← calls.mapM (answerCall session)
    return .inr (messages ++
      { role := "assistant", content := content.toStr, toolCalls := some calls } :: answers)

/-- The loop of `run_operation`, with `n` turns left before turn `maxTurns + 1`. The budget is
    checked before a call to the model, and so a transcript may exceed it only by what one turn
    adds. -/
def turnsLeft (session : Option τ) : ℕ → List Message → Prog (harness τ) LoopResult
  | 0, _ => return { turns := maxTurns, budgetExceeded := true }
  | n + 1, messages =>
      let turn := maxTurns - n
      -- a bound that is met is recorded, and the model is not asked again
      if maxTranscriptChars < transcriptChars messages then
        return { turns := turn, budgetExceeded := true }
      else do
        match ← observe (I := harness τ) (.chat messages toolSchemas chatOptions) with
        | .error error => return { turns := turn, error := error.take 256 }
        | .ok response =>
            match ← takeTurn session messages response with
            | .inl ids => return { ids := ids, turns := turn }
            | .inr messages => turnsLeft session n messages

/-- The transcript an operation begins with. -/
def opening (prompt : Str) : List Message :=
  [{ role := "system", content := systemPrompt }, { role := "user", content := prompt }]

/-- `run_operation`, followed by the note of its result. -/
def runOperation (session : Option τ) (prompt : Str) : Prog (harness τ) LoopResult := do
  let result ← turnsLeft session maxTurns (opening prompt)
  noting (I := harness τ) (.operation result)
  return result

/-!
## What an operation ends with

The result of an operation is noted, so that a trace tells what a later step made of it. A failed
operation has no ids.
-/

/-- The operation ended with an error or over a budget. -/
def LoopResult.Failed (result : LoopResult) : Prop :=
  result.error ≠ [] ∨ result.budgetExceeded = true

omit [Decoder] in
theorem silent_dispatchTool (session : Option τ) (name : Str) (arguments : Json) :
    (dispatchTool session name arguments).Silent := by
  have hargument : ∀ key, (argument (τ := τ) arguments key).Silent :=
    fun key => (silent_ofExcept _).bind fun value => silent_pure _
  refine Silent.tryCatch ?_ fun error => silent_pure _
  unfold route
  refine silent_ite ?_ (silent_ite ?_ (silent_ite ?_ (silent_ite ?_ (silent_pure _))))
  · exact (hargument "id").bind fun memoryId => (hargument "text").bind fun text =>
      silent_perform _
  · exact (silent_ofExcept _).bind fun asOf => (hargument "query").bind fun query =>
      silent_perform _
  · exact (hargument "id").bind fun memoryId => silent_perform _
  · exact silent_perform _

theorem silent_answerCall (session : Option τ) (call : Json) :
    (answerCall session call).Silent :=
  (silent_ofExcept _).bind fun _ => (silent_ofExcept _).bind fun _ =>
    (silent_ofExcept _).bind fun _ => (silent_ofExcept _).bind fun _ =>
      (silent_dispatchTool _ _ _).bind fun _ => silent_pure _

/-- A turn leaves no notes: only the end of an operation does. -/
theorem silent_takeTurn (session : Option τ) (messages : List Message) (response : Json) :
    (takeTurn session messages response).Silent := by
  refine (silent_ofExcept _).bind fun message => (silent_ofExcept _).bind fun toolCalls =>
    (silent_ofExcept _).bind fun content => silent_ite ?_ ?_
  · exact (silent_ofExcept _).bind fun ids => silent_pure _
  · exact (silent_ofExcept _).bind fun calls =>
      (silent_mapM (silent_answerCall session) calls).bind fun answers => silent_pure _

/-- No ids come with an error or an exceeded budget: each of the four ways to end sets one of the
    two, or has none of them. The induction is on the turns left, for all transcripts. -/
theorem turnsLeft_yields (session : Option τ) (n : ℕ) (messages : List Message) :
    (turnsLeft session n messages).Yields fun ns r =>
      ns = [] ∧ ∀ result, r = .ok result → result.Failed → result.ids = [] := by
  induction n generalizing messages with
  | zero =>
    refine ⟨rfl, fun result h _ => ?_⟩
    cases h
    rfl
  | succ n ih =>
    unfold turnsLeft
    dsimp only
    split
    · refine ⟨rfl, fun result h _ => ?_⟩
      cases h
      rfl
    refine (silent_observe _).yields_bind (fun answer => ?_) fun e => ⟨rfl, fun _ h => nomatch h⟩
    cases answer with
    | error error =>
      refine ⟨rfl, fun result h _ => ?_⟩
      cases h
      rfl
    | ok response =>
      refine (silent_takeTurn session messages response).yields_bind (fun turn => ?_)
        fun e => ⟨rfl, fun _ h => nomatch h⟩
      cases turn with
      | inl ids =>
        refine ⟨rfl, fun result h hfailed => ?_⟩
        cases h
        -- an answer records no failure
        cases hfailed with
        | inl herror => exact absurd rfl herror
        | inr hbudget => exact absurd hbudget Bool.false_ne_true
      | inr messages => exact ih messages

-- six turns are not to be unrolled when an operation is looked at
attribute [local irreducible] turnsLeft

/-- **An operation notes the result it returns, and a failed one has no ids.** -/
theorem runOperation_yields (session : Option τ) (prompt : Str) :
    (runOperation session prompt).Yields fun ns r =>
      (∀ e, r = .error e → ns = []) ∧
        ∀ result, r = .ok result →
          ns = [HarnessNote.operation result] ∧ (result.Failed → result.ids = []) := by
  unfold runOperation
  refine Yields.bind (turnsLeft_yields session maxTurns (opening prompt)) ?_ ?_
  · intro ns result h
    obtain ⟨rfl, hids⟩ := h
    refine ⟨fun e he => (nomatch he), fun returned hreturned => ?_⟩
    cases hreturned
    exact ⟨rfl, hids result rfl⟩
  · intro ns e h
    exact ⟨fun _ _ => h.1, fun _ hresult => nomatch hresult⟩

end Loop

end AdversarialCognition
