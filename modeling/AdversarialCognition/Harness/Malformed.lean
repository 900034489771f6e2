import AdversarialCognition.Harness.Course
import AdversarialCognition.Lib.Sha256

/-!
# Malformed responses

A response is any value `json.loads` can give. The loop guards against a transport that raises and
against tool arguments that are no JSON text, and against nothing else: a response, message, call
or function that is no dictionary, tool calls that cannot be iterated over, and a numeral or a
nesting past the interpreter's limits each raise through it. `Legible` is what is left, and an
operation returns exactly where every response it is given is legible: `returns_iff_legible`.

## Two descriptions of legible

`Legible` speaks of the parts of a response, so it can be checked on one. That the loop gets
through is a statement about `readTurn` and `readCall`. The two are brought together in
`legible_iff_read`, call by call.

`Json.Unguarded` is a text on which the decoder fails with something other than a
`JSONDecodeError`. Such a failure is rare and is still among the things a model can say, so the
condition on the text of an answer (`PlainAnswer`) names it. There it is twice, since a text that
is no JSON is searched for brackets and read again.

Nothing is said here about what an operation returns. This is the subject of
`Harness/Discipline.lean`.
-/

namespace AdversarialCognition

open Py Py.Str Prog

section Texts

variable [Runtime] [Decoder]

/-- The text of an answer. What stands in brackets is read only where the whole is no JSON. -/
def PlainAnswer (content : Str) : Prop :=
  ¬ Json.Unguarded content.strip ∧ (Json.loads content.strip = .error .decode →
    ∀ array, bracketed? content.strip = some array → ¬ Json.Unguarded array)

/-- An answer is given ids, perhaps none, exactly if no failure of the decoder gets through. -/
theorem parseFinal_iff {content : Str} :
    (∃ ids, parseFinal content = .ok ids) ↔ PlainAnswer content := by
  unfold parseFinal PlainAnswer Json.Unguarded
  cases hwhole : Json.loads content.strip with
  | ok parsed => simp
  | error e =>
    cases e with
    | value text => simp
    | recursion text => simp
    | decode =>
      cases harray : bracketed? content.strip with
      | none => simp
      | some array =>
        cases hinner : Json.loads array with
        | ok parsed => simp [hinner]
        | error e =>
          cases e with
          | value text => simp [hinner]
          | recursion text => simp [hinner]
          | decode => simp [hinner]

/-- The arguments of a call are read where they are a text. -/
def PlainArguments (arguments : Json) : Prop :=
  ∀ text, arguments = .str text → ¬ Json.Unguarded text

omit [Runtime] in
theorem not_unguarded_nil : ¬ Json.Unguarded [] := by
  intro h
  obtain ⟨e, hread, hdecode⟩ := h
  cases hread
  exact hdecode rfl

omit [Runtime] in
/-- Arguments can be taken exactly if no failure of the decoder gets through. Those that are false
    to Python, among them the empty text, are replaced before they are read. -/
theorem callArguments_iff {arguments : Json} :
    (∃ read, callArguments arguments = .ok read) ↔ PlainArguments arguments := by
  unfold callArguments PlainArguments
  cases htruthy : arguments.truthy with
  | false =>
    refine iff_of_true ⟨_, rfl⟩ ?_
    rintro text rfl
    obtain rfl : text = [] := by simpa [Json.truthy] using htruthy
    exact not_unguarded_nil
  | true =>
    cases arguments with
    | str text =>
      rw [if_pos rfl]
      cases hread : Json.loads text with
      | ok parsed => simp [Json.Unguarded, hread]
      | error e =>
        cases e with
        | decode => simp [Json.Unguarded, hread]
        | value e => simp [Json.Unguarded, hread]
        | recursion e => simp [Json.Unguarded, hread]
    | _ =>
      refine iff_of_true ⟨_, rfl⟩ ?_
      intro text h
      cases h

end Texts

section Laws

variable [Runtime] [Decoder]

/-- The call is a dictionary, and so is its function. -/
def PlainCall (call : Json) : Prop :=
  ∃ items function, call = .obj items ∧ Json.lookup items "function" (.obj []) = .obj function ∧
    PlainArguments (Json.lookup function "arguments" .null)

/-- The response is a dictionary, and so is its message, whose tool calls, if it has any, are a
    list of calls. -/
def Legible (response : Json) : Prop :=
  ∃ items message, response = .obj items ∧
    Json.lookup items "message" (.obj []) = .obj message ∧
    if (Json.lookup message "tool_calls" .null).truthy then
      ∃ calls, Json.lookup message "tool_calls" .null = .list calls ∧ ∀ call ∈ calls, PlainCall call
    else PlainAnswer (Json.lookup message "content" (.str [])).toStr

omit [Runtime] [Decoder] in
/-- Only a dictionary has a `get`. -/
theorem get_eq_ok_iff {value found : Json} {key : String} {default : Json} :
    value.get key default = .ok found ↔
      ∃ items, value = .obj items ∧ Json.lookup items key default = found := by
  cases value with
  | obj items => simp [Json.get]
  | _ => simp [Json.get]

theorem readableCall_iff {call : Json} : ReadableCall call ↔ PlainCall call := by
  unfold ReadableCall PlainCall
  simp only [readCall_eq_ok_iff, get_eq_ok_iff, ← callArguments_iff]
  constructor
  · rintro ⟨p, function, name, arguments, read, ⟨items, rfl, hfunction⟩, ⟨fields, rfl, -⟩,
      ⟨_, heq, rfl⟩, hread, -⟩
    cases heq
    exact ⟨items, fields, rfl, hfunction, read, hread⟩
  · rintro ⟨items, function, rfl, hfunction, read, hread⟩
    exact ⟨_, _, _, _, read, ⟨items, rfl, hfunction⟩, ⟨function, rfl, rfl⟩, ⟨function, rfl, rfl⟩,
      hread, rfl⟩

theorem readTurn_iff {response : Json} {turn : List Str ⊕ (Str × List Json)} :
    readTurn response = .ok turn ↔ ∃ items message, response = .obj items ∧
      Json.lookup items "message" (.obj []) = .obj message ∧
      (((Json.lookup message "tool_calls" .null).truthy = false ∧ ∃ ids,
          parseFinal (Json.lookup message "content" (.str [])).toStr = .ok ids ∧ turn = .inl ids) ∨
        ((Json.lookup message "tool_calls" .null).truthy = true ∧ ∃ calls,
          (Json.lookup message "tool_calls" .null).iter = .ok calls ∧
          turn = .inr ((Json.lookup message "content" (.str [])).toStr, calls))) := by
  rw [readTurn_eq_ok_iff]
  simp only [get_eq_ok_iff]
  constructor
  · rintro ⟨_, toolCalls, content, ⟨items, rfl, hmessage⟩, ⟨message, rfl, rfl⟩, ⟨_, heq, rfl⟩,
      hturn⟩
    cases heq
    exact ⟨items, message, rfl, hmessage, hturn⟩
  · rintro ⟨items, message, rfl, hmessage, hturn⟩
    exact ⟨_, _, _, ⟨items, rfl, hmessage⟩, ⟨message, rfl, rfl⟩, ⟨message, rfl, rfl⟩, hturn⟩

omit [Runtime] in
theorem iter_plain_iff {toolCalls : Json} (htruthy : toolCalls.truthy = true) :
    (∃ calls, toolCalls.iter = .ok calls ∧ ∀ call ∈ calls, PlainCall call) ↔
      ∃ calls, toolCalls = .list calls ∧ ∀ call ∈ calls, PlainCall call := by
  have hno : ∀ s, ¬ PlainCall (.str s) := by
    rintro s ⟨items, function, heq, -⟩
    cases heq
  cases toolCalls with
  | list items => simp [Json.iter]
  | obj items =>
    cases items with
    | nil => cases htruthy
    | cons item items =>
      refine iff_of_false ?_ (fun ⟨calls, heq, _⟩ => nomatch heq)
      rintro ⟨calls, heq, hall⟩
      cases heq
      exact hno _ (hall _ List.mem_cons_self)
  | str s =>
    cases s with
    | nil => cases htruthy
    | cons c s =>
      refine iff_of_false ?_ (fun ⟨calls, heq, _⟩ => nomatch heq)
      rintro ⟨calls, heq, hall⟩
      cases heq
      exact hno _ (hall _ List.mem_cons_self)
  | _ => exact iff_of_false (fun ⟨calls, heq, _⟩ => nomatch heq) (fun ⟨calls, heq, _⟩ => nomatch heq)

/-- **A response is legible exactly where the loop reads all of it.** -/
theorem legible_iff_read {response : Json} : Legible response ↔ ∃ turn,
    readTurn response = .ok turn ∧
      ∀ content calls, turn = .inr (content, calls) → ∀ call ∈ calls, ReadableCall call := by
  unfold Legible
  constructor
  · rintro ⟨items, message, rfl, hmessage, h⟩
    split at h
    · rename_i htruthy
      obtain ⟨calls, hiter, hcalls⟩ := (iter_plain_iff htruthy).mpr h
      refine ⟨_, readTurn_iff.mpr ⟨items, message, rfl, hmessage,
        Or.inr ⟨htruthy, calls, hiter, rfl⟩⟩, ?_⟩
      rintro content' calls' heq call hcall
      cases heq
      exact readableCall_iff.mpr (hcalls call hcall)
    · rename_i htruthy
      obtain ⟨ids, hids⟩ := parseFinal_iff.mpr h
      exact ⟨.inl ids, readTurn_iff.mpr ⟨items, message, rfl, hmessage,
        Or.inl ⟨Bool.not_eq_true _ ▸ htruthy, ids, hids, rfl⟩⟩, fun _ _ heq => nomatch heq⟩
  · rintro ⟨turn, hturn, hall⟩
    obtain ⟨items, message, rfl, hmessage, h⟩ := readTurn_iff.mp hturn
    refine ⟨items, message, rfl, hmessage, ?_⟩
    rcases h with ⟨hfalse, ids, hids, -⟩ | ⟨htrue, calls, hiter, rfl⟩
    · rw [if_neg (by rw [hfalse]; exact Bool.false_ne_true)]
      exact parseFinal_iff.mp ⟨ids, hids⟩
    · rw [if_pos htrue]
      exact (iter_plain_iff htrue).mp ⟨calls, hiter,
        fun call hcall => readableCall_iff.mp (hall _ calls rfl call hcall)⟩

theorem legible_of_answer {response : Json} {ids : List Str}
    (h : readTurn response = .ok (.inl ids)) : Legible response :=
  legible_iff_read.mpr ⟨.inl ids, h, fun _ _ hcall => nomatch hcall⟩

theorem not_legible_of_error {response : Json} {e : Str} (h : readTurn response = .error e) :
    ¬ Legible response := by
  intro hlegible
  obtain ⟨turn, hturn, -⟩ := legible_iff_read.mp hlegible
  rw [h] at hturn
  cases hturn

theorem legible_iff_of_calls {response : Json} {content : Str} {calls : List Json}
    (h : readTurn response = .ok (.inr (content, calls))) :
    Legible response ↔ ∀ call ∈ calls, ReadableCall call := by
  rw [legible_iff_read]
  constructor
  · rintro ⟨turn, hturn, hcalls⟩
    rw [h] at hturn
    exact hcalls content calls (Except.ok.inj hturn).symm
  · intro hcalls
    refine ⟨_, h, fun content' calls' heq => ?_⟩
    cases heq
    exact hcalls

variable {τ σ : Type} {w : World (harness τ) σ} {session : Option τ} {prompt : Str}

theorem Had.legible {x : Exchange} (h : Had w session x) : Legible x.response :=
  (legible_iff_of_calls h.read).mpr h.readable

/-- What ends without a result ends on a response that cannot be read. -/
theorem Ended.result_iff {ys : List Exchange} {last : List ChatEvent}
    {result : Except Str LoopResult} (h : Ended prompt ys last result) :
    (∃ r, result = .ok r) ↔ ∀ c ∈ last, ∀ response, c.2 = .ok response → Legible response := by
  have hlast : ∀ {response : Json}, (∀ c ∈ [((transcript prompt ys, .ok response) : ChatEvent)],
      ∀ response, c.2 = .ok response → Legible response) ↔ Legible response := by
    intro response
    rw [List.forall_mem_singleton]
    exact ⟨fun h => h response rfl, fun h _ heq => Except.ok.inj heq ▸ h⟩
  cases h with
  | outOfTurns | overBudget =>
    exact ⟨fun _ c hc => absurd hc List.not_mem_nil, fun _ => ⟨_, rfl⟩⟩
  | refused =>
    refine ⟨fun _ c hc response heq => ?_, fun _ => ⟨_, rfl⟩⟩
    rw [List.mem_singleton.mp hc] at heq
    cases heq
  | answered turns read => exact ⟨fun _ => hlast.mpr (legible_of_answer read), fun _ => ⟨_, rfl⟩⟩
  | unreadable turns read =>
    rw [hlast]
    exact ⟨fun ⟨r, h⟩ => (nomatch h), fun h => absurd h (not_legible_of_error read)⟩
  -- not read although it is a message with calls: one of the calls cannot be
  | stopped turns read unread =>
    rw [hlast, legible_iff_of_calls read]
    exact ⟨fun ⟨r, h⟩ => (nomatch h), fun h => absurd h unread⟩

/-- The responses of the exchanges are legible by what an exchange is, so it depends on the last
    one. -/
theorem Played.result_iff {o : Outcome (harness τ) σ LoopResult} {ys : List Exchange}
    {last : List ChatEvent} (h : Played w session prompt [] o ys last) :
    (∃ r, o.result = .ok r) ↔
      ∀ c ∈ chats o.trace, ∀ response, c.2 = .ok response → Legible response := by
  rw [h.ended.result_iff, h.calls]
  constructor
  · intro hlast c hc
    rcases List.mem_append.mp hc with hc | hc
    · obtain ⟨pre, z, post, rfl, rfl⟩ := exists_of_mem_sent hc
      intro response heq
      rw [← Except.ok.inj heq]
      exact (h.had z (by simp)).legible
    · exact hlast c hc
  · exact fun hall c hc => hall c (List.mem_append_right _ hc)

/-- **An operation returns exactly where every response it is given is legible.** Each field is
    read with a default for what is missing, but what is there and of another type raises; and so
    does a text that is parsed and raises anything but a `JSONDecodeError`. -/
theorem returns_iff_legible (w : World (harness τ) σ) (session : Option τ) (prompt : Str)
    (s : σ) :
    (∃ result, ((runOperation session prompt).run w s).result = .ok result) ↔
      ∀ c ∈ chats ((runOperation session prompt).run w s).trace,
        ∀ response, c.2 = .ok response → Legible response := by
  obtain ⟨ys, last, hplayed⟩ := played_runOperation w session prompt s
  exact hplayed.result_iff

end Laws

/-!
## A model with nothing to say

A response whose message is null is a response with a message, so the default that the loop has
for a missing one does not help it.
-/

/-- A backend with an empty store, and a transport with a fixed script: the state is what it
    has still to say, and at its end the model is gone. -/
def scripted : World (harness Unit) (List Json) := fun script call =>
  match call with
  | .chat _ _ _ =>
    match script with
    | [] => (.error (lit "end of script"), [])
    | response :: script => (.ok response, script)
  | .reset => (.ok (), script)
  | .restart => (.ok (), script)
  | .provision => (.ok .empty, script)
  | .openSession _ => (.ok (some ()), script)
  | .write _ _ _ _ _ _ _ => (.ok {}, script)
  | .read _ _ _ => (.ok {}, script)
  | .delete _ _ => (.ok {}, script)
  | .listIds _ => (.ok {}, script)

theorem transcriptChars_opening (prompt : Str) :
    transcriptChars (opening prompt) = systemPrompt.length + prompt.length := by
  simp only [transcriptChars, opening, List.map_cons, List.map_nil, List.sum_cons, List.sum_nil,
    Nat.add_zero]

section

attribute [local instance] cpython Decoder.verbatim

/-- The first call of an operation with a short prompt is made. -/
theorem within_opening : transcriptChars (transcript [] []) ≤ maxTranscriptChars := by
  have hopening : transcript [] [] = opening [] := List.append_nil _
  have hlength := length_systemPrompt_le
  rw [hopening, transcriptChars_opening, List.length_nil, maxTranscriptChars]
  omega

/-- A message that is null ends the operation with an exception. It is a response with a
    `message`, and the default of `get` is for one without. -/
theorem null_message_raises : ¬ ∀ script : List Json,
    ∃ result, ((runOperation none []).run scripted script).result = .ok result := by
  intro h
  have hread : readTurn (.obj [(lit "message", .null)]) =
      .error (lit "'NoneType' object has no attribute 'get'") := rfl
  obtain ⟨result, hresult⟩ := h [.obj [(lit "message", .null)]]
  obtain ⟨ys, torn, o, hcourse, heq, -⟩ := course_runOperation scripted none []
    [.obj [(lit "message", .null)]]
  obtain ⟨zs, last, -, hplayed⟩ := hcourse.played
  have hlegible := hplayed.result_iff.mp ⟨result, heq.symm.trans hresult⟩ _
    (hcourse.first (by decide) within_opening rfl) _ rfl
  exact not_legible_of_error hread hlegible

end

end AdversarialCognition
