import AdversarialCognition.Harness.Malformed

/-!
# The discipline of the loop

`LoopLaw` is what the loop owes its caller: at most six calls to the transport, a transcript that
grows by whole exchanges, and a bounded result that has no ids where it records a failure. The
calls and the transcript are as they should be in every run. The result is, too, if there is one;
so over a transport whose responses have the shape of chat responses the law is kept exactly where
their texts are parsed without an exception (`loopLaw_iff_quiet`), which is where they meet
neither of the interpreter's limits, on the digits of an integer and on nesting.

## The shape of a response

`WellShaped` is a chat response as the transport's own protocol has it: a message with a text, and
tool calls that name a function. It says nothing about the texts in it. `Quiet` is about these,
and only about those the loop hands to `json.loads`, so the condition of the law is on what the
transport has said, and leaves out what the loop makes of it.

## The law from the course

All of `LoopLaw` but the existence of a result follows from `Played`, which has the calls and the
ending. The bounds of an answer come from `parseFinal`, and for the other endings there are no ids
to bound. That an exceeded budget is recorded exactly where nothing else ended the operation needs
the six endings one by one (`Ended.result_bounded`).

The failing run is an answer of 4301 digits. That the decoder refuses such a numeral is shown for
any number of digits past the limit (`unguarded_ones`), as a term of that length is not one to
evaluate.
-/

namespace AdversarialCognition

open Py Py.Str Prog

section Shapes

variable [Runtime] [Decoder]

/-!
## Chat responses

What a response has to be for the loop to read it: of the shape of a chat response, with texts
that raise nothing but a `JSONDecodeError`. Responses of that shape are what a transport is
assumed to give.
-/

/-- A named function, with a dictionary of arguments, or a text of them, or none. -/
def WellShapedCall (call : Json) : Prop :=
  ∃ items function name, call = .obj items ∧
    Json.lookup items "function" (.obj []) = .obj function ∧
    Json.lookup function "name" (.str []) = .str name ∧
    (Json.lookup function "arguments" .null = .null ∨
      (∃ given, Json.lookup function "arguments" .null = .obj given) ∨
      ∃ text, Json.lookup function "arguments" .null = .str text)

/-- A message with a text, and perhaps a list of tool calls. -/
def WellShaped (response : Json) : Prop :=
  ∃ items message content, response = .obj items ∧
    Json.lookup items "message" (.obj []) = .obj message ∧
    Json.lookup message "content" (.str []) = .str content ∧
    (Json.lookup message "tool_calls" .null = .null ∨
      ∃ calls, Json.lookup message "tool_calls" .null = .list calls ∧
        ∀ call ∈ calls, WellShapedCall call)

/-- The response has no tool calls: it is a final answer. -/
def IsAnswer (response : Json) : Prop :=
  ∃ items message, response = .obj items ∧
    Json.lookup items "message" (.obj []) = .obj message ∧
    (Json.lookup message "tool_calls" .null).truthy = false

/-- The texts of the response that are read as JSON, its answer or else the arguments of its
    calls, raise nothing but what the loop is ready for. -/
def Quiet (response : Json) : Prop :=
  ∀ items message, response = .obj items →
    Json.lookup items "message" (.obj []) = .obj message →
    if (Json.lookup message "tool_calls" .null).truthy then
      ∀ calls, Json.lookup message "tool_calls" .null = .list calls → ∀ call ∈ calls,
        ∀ items function, call = .obj items →
          Json.lookup items "function" (.obj []) = .obj function →
          PlainArguments (Json.lookup function "arguments" .null)
    else PlainAnswer (Json.lookup message "content" (.str [])).toStr

/-- The loop takes a response for an answer if it has no tool calls. -/
theorem isAnswer_of_read {response : Json} {ids : List Str}
    (h : readTurn response = .ok (.inl ids)) : IsAnswer response := by
  obtain ⟨items, message, rfl, hmessage, hturn⟩ := readTurn_iff.mp h
  rcases hturn with ⟨hfalse, -⟩ | ⟨-, calls, -, heq⟩
  · exact ⟨items, message, rfl, hmessage, hfalse⟩
  · cases heq

theorem not_isAnswer_of_read {response : Json} {p : Str × List Json}
    (h : readTurn response = .ok (.inr p)) : ¬ IsAnswer response := by
  rintro ⟨items', message', rfl, hmessage', hfalse⟩
  obtain ⟨items, message, heq, hmessage, hturn⟩ := readTurn_iff.mp h
  cases heq
  rw [hmessage] at hmessage'
  cases hmessage'
  rcases hturn with ⟨-, ids, -, heq⟩ | ⟨htrue, -⟩
  · cases heq
  · rw [hfalse] at htrue
    cases htrue

/-- **Of a chat response all is read that need be, where its texts are quiet.** -/
theorem legible_iff_quiet {response : Json} (h : WellShaped response) :
    Legible response ↔ Quiet response := by
  obtain ⟨items, message, content, rfl, hmessage, hcontent, htools⟩ := h
  have hquiet : Quiet (.obj items) ↔
      if (Json.lookup message "tool_calls" .null).truthy then
        ∀ calls, Json.lookup message "tool_calls" .null = .list calls → ∀ call ∈ calls,
          ∀ items function, call = .obj items →
            Json.lookup items "function" (.obj []) = .obj function →
            PlainArguments (Json.lookup function "arguments" .null)
      else PlainAnswer (Json.lookup message "content" (.str [])).toStr := by
    constructor
    · exact fun h => h items message rfl hmessage
    · intro h items' message' heq hmessage'
      cases heq
      rw [hmessage] at hmessage'
      cases hmessage'
      exact h
  have hread : Legible (.obj items) ↔
      if (Json.lookup message "tool_calls" .null).truthy then
        ∃ calls, Json.lookup message "tool_calls" .null = .list calls ∧
          ∀ call ∈ calls, PlainCall call
      else PlainAnswer (Json.lookup message "content" (.str [])).toStr := by
    constructor
    · rintro ⟨items', message', heq, hmessage', h⟩
      cases heq
      rw [hmessage] at hmessage'
      cases hmessage'
      exact h
    · exact fun h => ⟨items, message, rfl, hmessage, h⟩
  -- both are about the one message, and differ in whether its calls are there
  rw [hread, hquiet]
  split
  · rename_i htruthy
    obtain ⟨calls, hcalls, hshape⟩ := htools.resolve_left fun hnull => by
      rw [hnull] at htruthy
      cases htruthy
    constructor
    · rintro ⟨calls', hcalls', hall⟩ calls'' hcalls'' call hcall items function rfl hfunction
      obtain rfl : calls' = calls'' := Json.list.inj (hcalls'.symm.trans hcalls'')
      obtain ⟨items', function', heq, hfunction', hplain⟩ := hall _ hcall
      cases heq
      rw [hfunction] at hfunction'
      cases hfunction'
      exact hplain
    · intro hall
      refine ⟨calls, hcalls, fun call hcall => ?_⟩
      obtain ⟨items, function, name, rfl, hfunction, -, -⟩ := hshape call hcall
      exact ⟨items, function, rfl, hfunction, hall calls hcalls _ hcall items function rfl hfunction⟩
  · exact Iff.rfl

end Shapes

/-!
## The bounds of an answer

The ids of an answer are bounded, whichever way it was read.
-/

section Bounds

variable [Runtime] [Decoder]

omit [Decoder] in
/-- The list is cut before its items are filtered, and each id is cut by itself. -/
theorem boundedIds_bounds (items : List Json) :
    (boundedIds items).length ≤ maxAnswerIds ∧
      ∀ id ∈ boundedIds items, id.length ≤ maxAnswerIdChars := by
  constructor
  · exact (List.length_filterMap_le _ _).trans (List.length_take_le _ _)
  · intro id hid
    obtain ⟨item, -, hitem⟩ := List.mem_filterMap.mp hid
    cases item with
    | str s =>
      rw [← Option.some.inj hitem]
      exact List.length_take_le _ _
    | int n =>
      rw [← Option.some.inj hitem]
      exact List.length_take_le _ _
    | bool b =>
      rw [← Option.some.inj hitem]
      exact List.length_take_le _ _
    | _ => cases hitem

omit [Decoder] in
theorem idsOf_bounds (parsed : Json) :
    (idsOf parsed).length ≤ maxAnswerIds ∧ ∀ id ∈ idsOf parsed, id.length ≤ maxAnswerIdChars := by
  cases parsed with
  | list items => exact boundedIds_bounds items
  | _ => exact ⟨Nat.zero_le _, fun id hid => absurd hid List.not_mem_nil⟩

theorem parseFinal_bounds {content : Str} {ids : List Str} (h : parseFinal content = .ok ids) :
    ids.length ≤ maxAnswerIds ∧ ∀ id ∈ ids, id.length ≤ maxAnswerIdChars := by
  have hnil : ([] : List Str).length ≤ maxAnswerIds ∧
      ∀ id ∈ ([] : List Str), id.length ≤ maxAnswerIdChars :=
    ⟨Nat.zero_le _, fun id hid => absurd hid List.not_mem_nil⟩
  unfold parseFinal at h
  split at h
  · cases h
    exact idsOf_bounds _
  · cases h
  · cases h
  · split at h
    · cases h
      exact hnil
    · split at h
      · cases h
        exact idsOf_bounds _
      · cases h
      · cases h
      · cases h
        exact hnil

theorem answer_bounds {response : Json} {ids : List Str}
    (h : readTurn response = .ok (.inl ids)) :
    ids.length ≤ maxAnswerIds ∧ ∀ id ∈ ids, id.length ≤ maxAnswerIdChars := by
  obtain ⟨items, message, -, -, hturn⟩ := readTurn_iff.mp h
  rcases hturn with ⟨-, ids', hparse, heq⟩ | ⟨-, calls, -, heq⟩
  · cases heq
    exact parseFinal_bounds hparse
  · cases heq

end Bounds

/-!
## The law

The bounds of a result, and those of the run: how often the transport was called, and with what.
The second part holds of every operation; the first needs that there is a result, and so that
everything was read.
-/

section Laws

variable [Runtime] [Decoder] {τ σ : Type}

/-- A result within its bounds: those that the module declares, on turns, on ids and on the
    characters of an id. What failed or exceeded a bound has no ids. -/
structure BoundedResult (result : LoopResult) : Prop where
  turns : 1 ≤ result.turns ∧ result.turns ≤ maxTurns
  ids : result.ids.length ≤ maxAnswerIds
  chars : ∀ id ∈ result.ids, id.length ≤ maxAnswerIdChars
  /-- An error, or a bound that was exceeded, leaves no ids. -/
  failed : result.error ≠ [] ∨ result.budgetExceeded = true → result.ids = []

/-- **The law**, for an operation that ended as `o`. -/
structure LoopLaw (w : World (harness τ) σ) (session : Option τ) (prompt : Str)
    (o : Outcome (harness τ) σ LoopResult) : Prop where
  /-- The model is asked once a turn at most. -/
  calls : (chats o.trace).length ≤ maxTurns
  /-- The k-th call has the transcript of the first k exchanges: the two opening messages, and
      for each exchange its assistant message and a tool message for each call of it. -/
  messages : ∃ ys last, chats o.trace = sent prompt [] ys ++ last ∧ last.length ≤ 1 ∧
    (∀ c ∈ last, c.1 = transcript prompt ys) ∧
    ∀ y ∈ ys, Had w session y ∧ y.results.length = y.calls.length
  /-- There is a result within its bounds, and it says that a bound was exceeded exactly if every
      call of the model was answered and none with an answer. -/
  result : ∃ result, o.result = .ok result ∧ BoundedResult result ∧
    (result.budgetExceeded = true ↔ ∀ c ∈ chats o.trace,
      ∃ response, c.2 = .ok response ∧ ¬ IsAnswer response)

variable {w : World (harness τ) σ} {session : Option τ} {prompt : Str}

/-- At most one call follows the last exchange, and if there is one then a turn was left for it. -/
theorem Ended.length_last_le {ys : List Exchange} {last : List ChatEvent}
    {result : Except Str LoopResult} (h : Ended prompt ys last result) :
    last.length ≤ 1 ∧ ys.length + last.length ≤ maxTurns := by
  cases h with
  | outOfTurns turns => exact ⟨Nat.zero_le _, turns.le⟩
  | overBudget turns => exact ⟨Nat.zero_le _, turns.le⟩
  | _ turns => exact ⟨Nat.le_refl _, turns⟩

theorem Ended.messages_eq {ys : List Exchange} {last : List ChatEvent}
    {result : Except Str LoopResult} (h : Ended prompt ys last result) :
    ∀ c ∈ last, c.1 = transcript prompt ys := by
  intro c hc
  cases h with
  | outOfTurns | overBudget => exact absurd hc List.not_mem_nil
  | _ => rw [List.mem_singleton.mp hc]

/-- A result is within its bounds, and records an exceeded budget exactly where nothing else
    ended the operation. -/
theorem Ended.result_bounded {ys : List Exchange} {last : List ChatEvent} {result : LoopResult}
    (h : Ended prompt ys last (.ok result)) : BoundedResult result ∧
      (result.budgetExceeded = true ↔
        ∀ c ∈ last, ∃ response, c.2 = .ok response ∧ ¬ IsAnswer response) := by
  have hno : ∀ {n : ℕ} {past : Bool} {error : Str}, 1 ≤ n → n ≤ maxTurns → BoundedResult
      { ids := [], turns := n, budgetExceeded := past, error := error } := by
    intro n past error h1 h2
    exact ⟨⟨h1, h2⟩, Nat.zero_le _, fun id hid => absurd hid List.not_mem_nil, fun _ => rfl⟩
  cases h with
  -- the two endings over a bound record it, and the transport was not asked once more
  | outOfTurns turns =>
    exact ⟨hno (by decide) (Nat.le_refl _), fun _ c hc => absurd hc List.not_mem_nil, fun _ => rfl⟩
  | overBudget turns past =>
    exact ⟨hno (by omega) turns, fun _ c hc => absurd hc List.not_mem_nil, fun _ => rfl⟩
  | refused turns =>
    refine ⟨hno (by omega) turns, fun h => absurd h Bool.false_ne_true, fun h => ?_⟩
    obtain ⟨response, heq, -⟩ := h _ List.mem_cons_self
    cases heq
  | answered turns read =>
    obtain ⟨hlength, hchars⟩ := answer_bounds read
    refine ⟨⟨⟨Nat.succ_pos _, turns⟩, hlength, hchars, ?_⟩, fun h => absurd h Bool.false_ne_true,
      fun h => ?_⟩
    · rintro (h | h)
      · exact absurd rfl h
      · exact absurd h Bool.false_ne_true
    · obtain ⟨response, heq, hanswer⟩ := h _ List.mem_cons_self
      cases heq
      exact absurd (isAnswer_of_read read) hanswer

/-- **The law needs nothing but a result.** Its other parts hold of every operation. -/
theorem Played.loopLaw_iff {o : Outcome (harness τ) σ LoopResult} {ys : List Exchange}
    {last : List ChatEvent} (h : Played w session prompt [] o ys last) :
    LoopLaw w session prompt o ↔ ∃ result, o.result = .ok result := by
  constructor
  · intro hlaw
    obtain ⟨result, hresult, -⟩ := hlaw.result
    exact ⟨result, hresult⟩
  · rintro ⟨result, hresult⟩
    have hended := h.ended
    rw [List.nil_append] at hended
    obtain ⟨hone, hsix⟩ := hended.length_last_le
    refine ⟨?_, ⟨ys, last, h.calls, hone, hended.messages_eq, ?_⟩, result, hresult, ?_⟩
    · rw [h.calls, List.length_append, length_sent]
      exact hsix
    · exact fun y hy => ⟨h.had y hy, (h.had y hy).length_eq⟩
    · rw [hresult] at hended
      obtain ⟨hbounded, hbudget⟩ := hended.result_bounded
      refine ⟨hbounded, hbudget.trans ?_⟩
      rw [h.calls]
      constructor
      · intro hlast c hc
        rcases List.mem_append.mp hc with hc | hc
        · -- what was gone on from is no answer
          obtain ⟨pre, z, post, rfl, rfl⟩ := exists_of_mem_sent hc
          exact ⟨z.response, rfl, not_isAnswer_of_read (h.had z (by simp)).read⟩
        · exact hlast c hc
      · exact fun hall c hc => hall c (List.mem_append_right _ hc)

/-- Every response of the transport has the shape of a chat response. -/
def WellSpoken (w : World (harness τ) σ) : Prop :=
  ∀ s messages tools options response,
    (w s (.chat messages tools options)).1 = .ok response → WellShaped response

omit [Runtime] [Decoder] in
theorem exists_of_mem_chats {p : Prog (harness τ) LoopResult} {s : σ} {c : ChatEvent}
    (h : c ∈ chats (p.run w s).trace) :
    ∃ t messages tools options, c.2 = (w t (.chat messages tools options)).1 := by
  obtain ⟨event, hevent, heq⟩ := List.mem_filterMap.mp h
  cases event with
  | noted note => cases heq
  | called call answer =>
    obtain ⟨t, rfl⟩ := exists_of_called_mem hevent
    cases call with
    | chat messages tools options =>
      obtain rfl := Option.some.inj heq
      exact ⟨t, messages, tools, options, rfl⟩
    | _ => cases heq

/-- **Over a transport of chat responses, the law is kept exactly where their texts are parsed
    without an exception.** The law asks for a result within the bounds, whatever the responses
    are; what can keep one from it is an exception that is no `JSONDecodeError`, as only that is
    caught. -/
theorem loopLaw_iff_quiet (hspoken : WellSpoken w) (s : σ) :
    LoopLaw w session prompt ((runOperation session prompt).run w s) ↔
      ∀ c ∈ chats ((runOperation session prompt).run w s).trace,
        ∀ response, c.2 = .ok response → Quiet response := by
  obtain ⟨ys, last, hplayed⟩ := played_runOperation w session prompt s
  rw [hplayed.loopLaw_iff, hplayed.result_iff]
  refine forall₂_congr fun c hc => forall₂_congr fun response heq => ?_
  obtain ⟨t, messages, tools, options, hanswer⟩ := exists_of_mem_chats hc
  rw [hanswer] at heq
  exact legible_iff_quiet (hspoken t messages tools options response heq)

end Laws

/-!
## A numeral past the limit

Digits are JSON, and the decoder raises at too many of them with an exception that is no
`JSONDecodeError`.
-/

section Numeral

/-- A numeral of `n` digits. -/
def ones (n : ℕ) : Str := List.replicate n (CodePoint.ofChar '1')

theorem isDigit_of_mem_ones {n : ℕ} : ∀ c ∈ ones n, Json.isDigit c = true := by
  intro c hc
  rw [List.eq_of_mem_replicate hc]
  decide

theorem strip_ones (n : ℕ) : (ones n).strip = ones n := by
  have hspace : ∀ m, (ones m).dropWhile isspace = ones m := by
    intro m
    cases m with
    | zero => rfl
    | succ m =>
      rw [ones, List.replicate_succ, List.dropWhile_cons, if_neg (by decide)]
  rw [strip, hspace, ones, List.reverse_replicate]
  exact (congrArg List.reverse (hspace n)).trans List.reverse_replicate

/-- The numeral is an integer of all its digits, and nothing is left behind it. -/
theorem scanInt_ones (n : ℕ) : Json.scanInt (ones (n + 1)) = some (ones (n + 1), []) := by
  have hones : ones (n + 1) = CodePoint.ofChar '1' :: ones n := List.replicate_succ
  have hspan := Json.span_digits (isDigit_of_mem_ones (n := n)) Json.Follows.nil
  rw [List.append_nil] at hspan
  rw [hones]
  unfold Json.scanInt
  dsimp only
  rw [if_neg (by decide)]
  dsimp only
  rw [if_neg (by decide), if_pos (by decide), hspan.1, hspan.2]
  rfl

theorem intOf_ones {n : ℕ} (h : 4300 < n) : ∃ e, Json.intOf (ones n) = .error (.value e) := by
  have hdigits : (ones n).filter Json.isDigit = ones n :=
    List.filter_eq_self.mpr isDigit_of_mem_ones
  have hlong : 4300 < (ones n).length := by
    rw [ones, List.length_replicate]
    exact h
  unfold Json.intOf
  rw [hdigits]
  dsimp only
  rw [if_pos hlong]
  exact ⟨_, rfl⟩

theorem scanNumber_ones [Decoder] {n : ℕ} (h : 4300 < n + 1) :
    ∃ e, Json.scanNumber (ones (n + 1)) = .error (.value e) := by
  obtain ⟨e, hread⟩ := intOf_ones h
  refine ⟨e, ?_⟩
  unfold Json.scanNumber
  rw [scanInt_ones]
  simp only [Json.scanFraction_of_follows Json.Follows.nil,
    Json.scanExponent_of_follows Json.Follows.nil, and_self, if_true, hread]
  rfl

/-- A numeral of more than 4300 digits is refused with a `ValueError` of its own, whatever the
    decoder. -/
theorem unguarded_ones [Decoder] {n : ℕ} (h : 4300 < n) : Json.Unguarded (ones n) := by
  obtain ⟨m, rfl⟩ : ∃ m, n = m + 1 := ⟨n - 1, by omega⟩
  have hones : ones (m + 1) = CodePoint.ofChar '1' :: ones m := List.replicate_succ
  obtain ⟨e, hnumber⟩ := scanNumber_ones h
  have hconstant := (Json.constant?_digit (show Json.isDigit (CodePoint.ofChar '1') = true by
    decide) (ones m)).1
  refine ⟨.value e, ?_, fun heq => nomatch heq⟩
  rw [hones] at hnumber ⊢
  unfold Json.loads
  rw [List.head?_cons, if_neg (by decide), Json.skip, List.dropWhile_cons, if_neg (by decide)]
  rw [Json.scanOnce, if_neg (by decide), if_neg (by decide), if_neg (by decide), hconstant]
  dsimp only
  rw [hnumber]
  rfl

end Numeral

/-!
## A model that says one thing

The transport of the examples. Its one response is an answer, so the law is about the text of it.
-/

/-- An empty store, and a transport that always gives the same response. -/
def speaking (response : Json) : World (harness Unit) (List Json) := fun script call =>
  match call with
  | .chat _ _ _ => (.ok response, script)
  | call => scripted script call

/-- A message with a text, and no tool calls. -/
def saying (content : Str) : Json :=
  .obj [(lit "message", .obj [(lit "content", .str content)])]

section

attribute [local instance] cpython Decoder.verbatim

/-- What this model says has the shape of a chat response, whatever the text. -/
theorem wellShaped_saying (content : Str) : WellShaped (saying content) :=
  ⟨_, _, content, rfl, rfl, rfl, Or.inl rfl⟩

theorem wellSpoken_speaking (content : Str) : WellSpoken (speaking (saying content)) := by
  intro s messages tools options response h
  rw [← Except.ok.inj h]
  exact wellShaped_saying content

/-- Its only text is the answer. -/
theorem quiet_saying_iff {content : Str} : Quiet (saying content) ↔ PlainAnswer content := by
  constructor
  · exact fun h => h _ _ rfl rfl
  · intro h items message heq hmessage
    cases heq
    cases hmessage
    exact h

/-- An empty list of ids is quiet, and so the law is kept. -/
theorem loopLaw_speaking_empty : LoopLaw (speaking (saying (lit "[]"))) none []
    ((runOperation none []).run (speaking (saying (lit "[]"))) []) := by
  refine (loopLaw_iff_quiet (wellSpoken_speaking _) []).mpr ?_
  intro c hc response heq
  obtain ⟨t, messages, tools, options, hanswer⟩ := exists_of_mem_chats hc
  rw [heq] at hanswer
  rw [Except.ok.inj hanswer, quiet_saying_iff]
  have hread : Json.loads (lit "[]").strip = .ok (.list []) := rfl
  refine ⟨fun ⟨e, he, _⟩ => ?_, fun hdecode => ?_⟩
  · rw [hread] at he
    cases he
  · rw [hread] at hdecode
    cases hdecode

/-- An answer of 4301 digits is no JSON of a list, and no abstention either. -/
theorem long_numeral_raises : ¬ ∀ (w : World (harness Unit) (List Json)) (session : Option Unit)
    (prompt : Str) (s : List Json), WellSpoken w →
      LoopLaw w session prompt ((runOperation session prompt).run w s) := by
  intro h
  have hspoken := wellSpoken_speaking (ones 4301)
  obtain ⟨result, hresult, -⟩ := (h (speaking (saying (ones 4301))) none [] [] hspoken).result
  obtain ⟨ys, torn, o, hcourse, heq, -⟩ := course_runOperation (speaking (saying (ones 4301))) none [] []
  obtain ⟨zs, last, -, hplayed⟩ := hcourse.played
  have hlegible := hplayed.result_iff.mp ⟨result, heq.symm.trans hresult⟩ _
    (hcourse.first (by decide) within_opening rfl) _ rfl
  have hplain := quiet_saying_iff.mp ((legible_iff_quiet (wellShaped_saying _)).mp hlegible)
  refine hplain.1 ?_
  rw [strip_ones]
  exact unguarded_ones (by omega)

end

end AdversarialCognition
