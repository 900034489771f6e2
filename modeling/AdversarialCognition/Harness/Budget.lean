import AdversarialCognition.Harness.Discipline

/-!
# The transcript budget

Before each call to the transport the loop counts the characters of the messages' contents, and it
does not call past its budget. The tool calls of an assistant message go to the transport too, and
these it does not count. `carriedChars` counts both. It is the contents and the tool calls the
model has made so far (`carriedChars_transcript`), so the budget is hard exactly where these fit
in what the contents leave of it.

## The condition

`CallsFit` is that, stated over what came from outside: the prompt, the responses of the model,
and the results of the tools. `spokenChars` is what these add to the contents, `requestedChars`
what they add to the tool calls, and neither looks at a message the loop has put together. It asks
for the inequality at every stage from which the loop would call again, which is at every
beginning of the exchanges that leaves a turn and is within the budget by the loop's own count.

That the loop does call at just these stages is `Played.called_iff`, and it is where the six
endings of an operation come in. With it, `Played.budgetLaw_iff` is arithmetic on the two sums.

## How characters are counted

A tool call is counted by its name and its arguments. Arguments that are no text are counted as
they are printed, and this is a choice: the source has no count of them to follow. The identifiers
and types that a protocol wraps around a call are not counted, nor are roles. A larger count would
find more operations over the budget.

The failing run sends a first call whose arguments alone are past the budget. The tool has no use
for them, its result is short, and the loop's own count stays low.
-/

namespace AdversarialCognition

open Py Py.Str Prog

section Carried

variable [Runtime]

/-- A member of a value that may be no dictionary. -/
def member (value : Json) (key : String) (default : Json) : Json :=
  match value with
  | .obj items => Json.lookup items key default
  | _ => default

/-- The arguments of a call, as text. -/
def argumentsText : Json → Str
  | .null => []
  | .str text => text
  | arguments => arguments.dumps

/-- The characters of a tool call: its name and its arguments. -/
def callChars (call : Json) : ℕ :=
  let function := member call "function" (.obj [])
  (member function "name" (.str [])).toStr.length +
    (argumentsText (member function "arguments" .null)).length

/-- The characters of some tool calls. -/
def callsChars (calls : List Json) : ℕ := (calls.map callChars).sum

/-- The characters of text a message carries. -/
def Message.carried (message : Message) : ℕ :=
  message.content.length + callsChars (message.toolCalls.getD [])

/-- The characters of text that go to the transport with these messages. -/
def carriedChars (messages : List Message) : ℕ := (messages.map Message.carried).sum

omit [Runtime] in
theorem transcriptChars_append (ms ns : List Message) :
    transcriptChars (ms ++ ns) = transcriptChars ms + transcriptChars ns := by
  rw [transcriptChars, List.map_append, List.sum_append]
  rfl

theorem carriedChars_append (ms ns : List Message) :
    carriedChars (ms ++ ns) = carriedChars ms + carriedChars ns := by
  rw [carriedChars, List.map_append, List.sum_append]
  rfl

/-- Only the model's messages carry calls. -/
theorem carriedChars_of_no_calls {ms : List Message} (h : ∀ m ∈ ms, m.toolCalls = none) :
    carriedChars ms = transcriptChars ms := by
  rw [carriedChars, transcriptChars]
  refine congrArg List.sum (List.map_congr_left fun m hm => ?_)
  rw [Message.carried, h m hm]
  rfl

theorem carriedChars_messages (x : Exchange) :
    carriedChars x.messages = transcriptChars x.messages + callsChars x.calls := by
  have hresults : carriedChars (x.results.map toolMessage) =
      transcriptChars (x.results.map toolMessage) := by
    refine carriedChars_of_no_calls fun m hm => ?_
    obtain ⟨result, -, rfl⟩ := List.mem_map.mp hm
    rfl
  have hcons : ∀ m ms, carriedChars (m :: ms) = m.carried + carriedChars ms := fun _ _ => rfl
  have hchars : ∀ m ms, transcriptChars (m :: ms) = m.content.length + transcriptChars ms :=
    fun _ _ => rfl
  rw [Exchange.messages, hcons, hchars, hresults, Message.carried, Option.getD_some]
  omega

/-- **What the transcript carries** is its contents, and every tool call so far. -/
theorem carriedChars_transcript (prompt : Str) (xs : List Exchange) :
    carriedChars (transcript prompt xs) =
      transcriptChars (transcript prompt xs) + (xs.map fun x => callsChars x.calls).sum := by
  have hflat : carriedChars (xs.flatMap Exchange.messages) =
      transcriptChars (xs.flatMap Exchange.messages) +
        (xs.map fun x => callsChars x.calls).sum := by
    induction xs with
    | nil => rfl
    | cons x xs ih =>
      rw [List.flatMap_cons, carriedChars_append, transcriptChars_append, ih,
        carriedChars_messages, List.map_cons, List.sum_cons]
      omega
  have hopening : carriedChars (opening prompt) = transcriptChars (opening prompt) := by
    refine carriedChars_of_no_calls fun m hm => ?_
    rcases List.mem_pair.mp hm with rfl | rfl
    · rfl
    · rfl
  rw [transcript, carriedChars_append, transcriptChars_append, hflat, hopening]
  omega

end Carried

section Laws

variable [Runtime] [Decoder] {τ σ : Type}

/-- The characters of the text in a response that has tool calls. -/
def textChars (response : Json) : ℕ :=
  match readTurn response with
  | .ok (.inr (content, _)) => content.length
  | _ => 0

/-- The characters of the tool calls in a response. -/
def requestedChars (response : Json) : ℕ :=
  match readTurn response with
  | .ok (.inr (_, calls)) => callsChars calls
  | _ => 0

/-- The characters of a result, as much of it as the model is shown. -/
def resultChars (result : ToolResult) : ℕ := min maxToolResultChars result.asPayload.dumps.length

/-- What the prompts, the texts of the model and the results of its tools come to. -/
def spokenChars (prompt : Str) (ys : List Exchange) : ℕ :=
  systemPrompt.length + prompt.length +
    (ys.map fun y => textChars y.response + (y.results.map resultChars).sum).sum

/-- As long as the prompts, the texts and the results leave room for another turn, the tool calls
    that were made with them fit in that room. This is about what came from outside, the prompt,
    the responses and the results, and about every stage of it. -/
def CallsFit (prompt : Str) (ys : List Exchange) : Prop :=
  ∀ us vs, ys = us ++ vs → us.length < maxTurns → spokenChars prompt us ≤ maxTranscriptChars →
    (us.map fun y => requestedChars y.response).sum ≤ maxTranscriptChars - spokenChars prompt us

/-- **The law** of the budget, for an operation that had the exchanges `ys`. -/
structure BudgetLaw (prompt : Str) (ys : List Exchange) (o : Outcome (harness τ) σ LoopResult) :
    Prop where
  /-- No call of the model carries more than the budget. -/
  within : ∀ c ∈ chats o.trace, carriedChars c.1 ≤ maxTranscriptChars
  /-- Where the next call would carry more, the operation ends, and says so. -/
  instead : maxTranscriptChars < carriedChars (transcript prompt ys) →
    ∃ result, o.result = .ok result ∧ result.budgetExceeded = true

variable {w : World (harness τ) σ} {session : Option τ} {prompt : Str}

theorem Had.requestedChars_eq {y : Exchange} (h : Had w session y) :
    requestedChars y.response = callsChars y.calls := by
  rw [requestedChars, h.read]

/-- The contents of an exchange are the model's text and the results. -/
theorem Had.transcriptChars_messages {y : Exchange} (h : Had w session y) :
    transcriptChars y.messages = textChars y.response + (y.results.map resultChars).sum := by
  have htext : textChars y.response = y.content.length := by
    rw [textChars, h.read]
  have hresult : ∀ result : ToolResult,
      (toolMessage result).content.length = resultChars result := fun _ => List.length_take
  rw [htext, Exchange.messages, transcriptChars, List.map_cons, List.sum_cons, List.map_map]
  refine congrArg _ (congrArg List.sum (List.map_congr_left fun result _ => ?_))
  exact hresult result

/-- What the loop counts is what the prompts, the texts and the results come to. -/
theorem transcriptChars_transcript {ys : List Exchange} (h : ∀ y ∈ ys, Had w session y) :
    transcriptChars (transcript prompt ys) = spokenChars prompt ys := by
  have hflat : transcriptChars (ys.flatMap Exchange.messages) =
      (ys.map fun y => textChars y.response + (y.results.map resultChars).sum).sum := by
    induction ys with
    | nil => rfl
    | cons y ys ih =>
      obtain ⟨hy, hys⟩ := List.forall_mem_cons.mp h
      rw [List.flatMap_cons, transcriptChars_append, hy.transcriptChars_messages, ih hys,
        List.map_cons, List.sum_cons]
  rw [transcript, transcriptChars_append, transcriptChars_opening, hflat, spokenChars]

theorem carriedChars_eq {ys : List Exchange} (h : ∀ y ∈ ys, Had w session y) :
    carriedChars (transcript prompt ys) =
      spokenChars prompt ys + (ys.map fun y => requestedChars y.response).sum := by
  have hcalls : ys.map (fun y => requestedChars y.response) = ys.map fun y => callsChars y.calls :=
    List.map_congr_left fun y hy => (h y hy).requestedChars_eq
  rw [carriedChars_transcript, transcriptChars_transcript h, hcalls]

omit [Runtime] [Decoder] in
/-- Every exchange was asked for with the transcript of those before it. -/
theorem mem_sent_of_split {xs zs us vs : List Exchange} {z : Exchange} (h : zs = us ++ z :: vs) :
    (transcript prompt (xs ++ us), .ok z.response) ∈ sent prompt xs zs := by
  subst h
  induction us generalizing xs with
  | nil =>
    rw [List.append_nil]
    exact List.mem_cons_self
  | cons u us ih =>
    have hlater := @ih (xs ++ [u])
    rw [List.append_assoc, List.singleton_append] at hlater
    exact List.mem_cons_of_mem _ hlater

omit [Decoder] in
theorem Ended.calls_again {ys : List Exchange} {last : List ChatEvent}
    {result : Except Str LoopResult} [Decoder] (h : Ended prompt ys last result)
    (hturns : ys.length < maxTurns)
    (hwithin : transcriptChars (transcript prompt ys) ≤ maxTranscriptChars) :
    ∃ c ∈ last, c.1 = transcript prompt ys := by
  cases h with
  | outOfTurns turns => exact absurd turns hturns.ne
  | overBudget turns past => exact absurd hwithin (Nat.not_le.mpr past)
  | _ => exact ⟨_, List.mem_cons_self, rfl⟩

/-- **The transport is called with the transcripts that leave a turn and room**, and with no
    other. -/
theorem Played.called_iff {o : Outcome (harness τ) σ LoopResult} {ys : List Exchange}
    {last : List ChatEvent} (h : Played w session prompt [] o ys last) (messages : List Message) :
    (∃ c ∈ chats o.trace, c.1 = messages) ↔ ∃ us vs, ys = us ++ vs ∧ us.length < maxTurns ∧
      spokenChars prompt us ≤ maxTranscriptChars ∧ messages = transcript prompt us := by
  have hended : Ended prompt ys last o.result := h.ended
  have hspoken : ∀ us vs, ys = us ++ vs →
      transcriptChars (transcript prompt us) = spokenChars prompt us := fun us vs hsplit =>
    transcriptChars_transcript fun u hu => h.had u (hsplit ▸ List.mem_append_left _ hu)
  constructor
  · rintro ⟨c, hc, rfl⟩
    have hwithin := h.within c hc
    rw [h.calls] at hc
    rcases List.mem_append.mp hc with hsent | hlast
    · -- the exchange that followed was had within the turns
      obtain ⟨us, z, vs, hsplit, rfl⟩ := exists_of_mem_sent hsent
      rw [List.nil_append] at hwithin
      refine ⟨us, z :: vs, hsplit, ?_, hspoken us _ hsplit ▸ hwithin, rfl⟩
      have hlength := hended.length_last_le.2
      rw [hsplit, List.length_append, List.length_cons] at hlength
      omega
    · have heq := hended.messages_eq c hlast
      rw [heq] at hwithin ⊢
      refine ⟨ys, [], (List.append_nil ys).symm, ?_, hspoken ys [] (List.append_nil ys).symm ▸ hwithin,
        rfl⟩
      have hlength := hended.length_last_le.2
      have hsome := List.length_pos_of_mem hlast
      omega
  · rintro ⟨us, vs, hsplit, hturns, hroom, rfl⟩
    rw [h.calls]
    -- called again after `us`: either an exchange followed, or the last call did
    cases vs with
    | nil =>
      rw [List.append_nil] at hsplit
      subst hsplit
      obtain ⟨c, hc, heq⟩ := hended.calls_again hturns
        ((hspoken ys [] (List.append_nil ys).symm).le.trans hroom)
      exact ⟨c, List.mem_append_right _ hc, heq⟩
    | cons v vs =>
      exact ⟨_, List.mem_append_left _ (mem_sent_of_split hsplit), rfl⟩

/-- **The budget is hard exactly where the tool calls fit in what the rest leaves of it.** -/
theorem Played.budgetLaw_iff {o : Outcome (harness τ) σ LoopResult} {ys : List Exchange}
    {last : List ChatEvent} (h : Played w session prompt [] o ys last) :
    BudgetLaw prompt ys o ↔ CallsFit prompt ys := by
  have hcarried : ∀ us vs, ys = us ++ vs → carriedChars (transcript prompt us) =
      spokenChars prompt us + (us.map fun y => requestedChars y.response).sum :=
    fun us vs hsplit =>
      carriedChars_eq fun u hu => h.had u (hsplit ▸ List.mem_append_left _ hu)
  constructor
  · intro hlaw us vs hsplit hturns hroom
    obtain ⟨c, hc, heq⟩ := (h.called_iff _).mpr ⟨us, vs, hsplit, hturns, hroom, rfl⟩
    have hwithin := hlaw.within c hc
    rw [heq, hcarried us vs hsplit] at hwithin
    omega
  · intro hfit
    have hwithin : ∀ c ∈ chats o.trace, carriedChars c.1 ≤ maxTranscriptChars := by
      intro c hc
      obtain ⟨us, vs, hsplit, hturns, hroom, heq⟩ := (h.called_iff c.1).mp ⟨c, hc, rfl⟩
      have hcalls := hfit us vs hsplit hturns hroom
      rw [heq, hcarried us vs hsplit]
      omega
    refine ⟨hwithin, fun hover => ?_⟩
    have hended : Ended prompt ys last o.result := h.ended
    -- past the budget the model is not asked, so the run has ended in one of two ways
    have hnone : last = [] := by
      refine List.eq_nil_iff_forall_not_mem.mpr fun c hc => ?_
      have hcarried := hwithin c (h.calls ▸ List.mem_append_right _ hc)
      rw [hended.messages_eq c hc] at hcarried
      omega
    subst hnone
    generalize o.result = result at hended ⊢
    cases hended with
    | outOfTurns => exact ⟨_, rfl, rfl⟩
    | overBudget => exact ⟨_, rfl, rfl⟩

/-- **In every operation**, over every backend and every transport, the budget is kept exactly if
    the tool calls of the turns so far fit into what the contents leave of it. Only contents are
    counted by the loop, while the messages carry the calls as well; the condition is on the
    responses and the results alone. -/
theorem budgetLaw_iff_callsFit (w : World (harness τ) σ) (session : Option τ) (prompt : Str)
    (s : σ) : (∃ ys torn, Ran w session prompt s ys torn) ∧
      ∀ ys torn, Ran w session prompt s ys torn →
        (BudgetLaw prompt ys ((runOperation session prompt).run w s) ↔ CallsFit prompt ys) := by
  refine ⟨exists_ran w session prompt s, fun ys torn hran => ?_⟩
  obtain ⟨last, hplayed⟩ := hran.played
  exact hplayed.budgetLaw_iff

end Laws

/-!
## A model with long arguments

The budget is counted before a call to the model and over the contents of the messages. The
arguments of tool calls are no contents. A model that puts a text into the arguments of one call
brings the next call over the budget by as much as it likes.
-/

/-- A tool call. -/
def calling (name : String) (arguments : Json) : Json :=
  .obj [(lit "function", .obj [(lit "name", .str (lit name)), (lit "arguments", arguments)])]

/-- A message with no text, and tool calls. -/
def requesting (calls : List Json) : Json :=
  .obj [(lit "message", .obj [(lit "tool_calls", .list calls)])]

/-- Arguments with a text no tool has a use for. -/
def noteOf (text : Str) : Json := .obj [(lit "note", .str text)]

section

attribute [local instance] cpython Decoder.verbatim

theorem readTurn_requesting (call : Json) :
    readTurn (requesting [call]) = .ok (.inr ([], [call])) := rfl

theorem readCall_calling (name : String) (item : Str × Json) :
    readCall (calling name (.obj [item])) = .ok (lit name, .obj [item]) := rfl

theorem length_toolMessage_le (result : ToolResult) :
    (toolMessage result).content.length ≤ maxToolResultChars := List.length_take_le _ _

theorem within_after {x : Exchange} (hcontent : x.content = []) (hresults : x.results.length = 1) :
    transcriptChars (transcript [] [x]) ≤ maxTranscriptChars := by
  obtain ⟨result, hresult⟩ := List.length_eq_one_iff.mp hresults
  have hx : transcriptChars (transcript [] [x]) =
      transcriptChars (transcript [] []) + transcriptChars x.messages := by
    rw [← transcriptChars_append, ← transcript_concat]
    rfl
  have hmessages : transcriptChars x.messages = 0 + ((toolMessage result).content.length + 0) := by
    rw [Exchange.messages, hcontent, hresult]
    rfl
  have hlength := length_toolMessage_le result
  have hopening : transcriptChars (transcript [] []) ≤ 20000 := by
    have hnil : transcript [] [] = opening [] := List.append_nil _
    have hlength := length_systemPrompt_le
    rw [hnil, transcriptChars_opening, List.length_nil]
    omega
  rw [hx, hmessages]
  rw [maxToolResultChars] at hlength
  rw [maxTranscriptChars]
  omega

theorem length_le_callChars (text : Str) :
    text.length ≤ callChars (calling "memory_list" (noteOf text)) := by
  have hdumps : (noteOf text).dumps = lit "\x7b" ++ (Json.dumpsStr (lit "note") ++ lit ": " ++
      Json.dumpsStr text) ++ lit "\x7d" := by
    rw [noteOf, Json.dumps, Json.dumpsMembers, Json.dumpsMembers, Json.dumps, Json.join,
      List.intersperse_singleton, List.flatten_singleton]
  have hlength := Json.length_dumpsStr text
  have hchars : callChars (calling "memory_list" (noteOf text)) =
      (lit "memory_list").length + (noteOf text).dumps.length := rfl
  rw [hchars, hdumps]
  simp only [List.length_append]
  omega

/-- The second call of the operation carries the arguments of the first turn. They are as long as
    the whole budget. -/
theorem long_arguments_uncounted : ¬ ∀ (w : World (harness Unit) (List Json))
    (session : Option Unit) (prompt : Str) (s : List Json),
    ∃ ys torn, Ran w session prompt s ys torn ∧
      BudgetLaw prompt ys ((runOperation session prompt).run w s) := by
  intro h
  obtain ⟨text, htext⟩ : ∃ text : Str, text.length = 24001 :=
    ⟨ones 24001, List.length_replicate⟩
  have hcall := length_le_callChars text
  have hread := readCall_calling "memory_list" (lit "note", .str text)
  -- the call is too long to be evaluated, and only its length matters from here on
  generalize hname : calling "memory_list" (noteOf text) = call at hcall
  obtain ⟨ys, torn, ⟨o, hcourse, -, hchats⟩, hlaw⟩ := h (speaking (requesting [call])) none [] []
  have hreadable : ∀ c ∈ [call], ReadableCall c := by
    intro c hc
    rw [List.mem_singleton.mp hc, ← hname]
    exact ⟨_, hread⟩
  obtain ⟨results, hgive⟩ : ∃ results, (([call].mapM (giveResult none)).run
      (speaking (requesting [call])) []).result = .ok results :=
    (mapM_giveResult_result_iff [call] []).mpr hreadable
  obtain ⟨o', hcourse', -, hmem⟩ := hcourse.next (by decide) within_opening rfl
    (readTurn_requesting call) hgive
  have hone : ([] ++ [Exchange.mk (requesting [call]) [] [call] results]).length < maxTurns :=
    Nat.lt_of_sub_eq_succ rfl
  have hsecond := hmem _ (hcourse'.first hone
    (within_after rfl (length_of_mapM_giveResult hgive)) rfl)
  rw [← hchats] at hsecond
  -- the second request carries the arguments of the first call, which nothing has counted
  have hcarried := hlaw.within _ hsecond
  rw [carriedChars_transcript, List.nil_append, List.map_singleton, List.sum_singleton,
    maxTranscriptChars] at hcarried
  have hsum : callsChars [call] = callChars call + 0 := rfl
  dsimp only at hcarried
  omega

end

end AdversarialCognition
