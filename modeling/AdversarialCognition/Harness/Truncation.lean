import AdversarialCognition.Harness.Budget

/-!
# What the model sees of a result

A tool message has the JSON encoding of the result a tool gave, up to its first 2000 characters.
The cut leaves no trace: neither in the message, which is then no JSON, nor in the result of the
operation. So a message is whole exactly where the result it carries is short enough
(`whole_iff_fits`), and what an operation does not record is that some were not.

## Whole

A message is whole if it is the complete encoding, and if the payload can be read back from it.
The second part asks for a payload that JSON has (`Json.Loadable`) and that is not nested past the
decoder's room; it holds of every other value trivially, as a backend may well return one that is
no JSON. `ofPayload` is the reading back of a result, where every field that was left out is
empty.

## Exceeded bounds

An operation that ends over its turns or its budget records it, so something may have been cut
there without the law being broken. For the other operations the condition is exact:
`nothingCut_of_fits` has both directions for every run. The results of a turn that an exception
cut short count as well, as some of them were put into the transcript before it; they are `torn`.

The failing run is a listing of one id of 2000 characters.
-/

namespace AdversarialCognition

open Py Py.Str Prog

/-!
## One result

A result is put into the transcript by its encoding, cut at a bound. It is whole there, and reads
back as what it was, exactly if the encoding is within the bound.
-/

/-- The encoding of the result is within the bound. -/
def Fits (result : ToolResult) : Prop := result.asPayload.dumps.length ≤ maxToolResultChars

/-- The flag, results, ids and error in a payload. -/
def ofPayload (payload : Json) : ToolResult where
  ok := (member payload "ok" .null).truthy
  results := match member payload "results" (.list []) with
    | .list rows => rows.filterMap fun
        | .obj row => some row
        | _ => none
    | _ => []
  ids := match member payload "ids" (.list []) with
    | .list ids => ids.filterMap fun
        | .str id => some id
        | _ => none
    | _ => []
  error := match member payload "error" (.str []) with
    | .str error => error
    | _ => []

/-! What is left out of a payload is empty. -/

section Fields

variable (result : ToolResult)

/-- What is left out of a payload is empty, and so reads back as it was. -/
theorem member_results : member result.asPayload "results" (.list []) =
    .list (result.results.map .obj) := by
  obtain ⟨ok, results, ids, error⟩ := result
  have hok : lit "ok" ≠ lit "results" := by decide
  have hids : lit "ids" ≠ lit "results" := by decide
  have herror : lit "error" ≠ lit "results" := by decide
  cases results with
  | nil =>
    cases ids <;> cases error <;>
      simp [member, ToolResult.asPayload, Json.lookup, hok, hids, herror]
  | cons row rows => simp [member, ToolResult.asPayload, Json.lookup, hok]

theorem member_ids : member result.asPayload "ids" (.list []) = .list (result.ids.map .str) := by
  obtain ⟨ok, results, ids, error⟩ := result
  have hok : lit "ok" ≠ lit "ids" := by decide
  have hresults : lit "results" ≠ lit "ids" := by decide
  have herror : lit "error" ≠ lit "ids" := by decide
  cases ids with
  | nil =>
    cases results <;> cases error <;>
      simp [member, ToolResult.asPayload, Json.lookup, hok, hresults, herror]
  | cons id ids =>
    cases results <;> simp [member, ToolResult.asPayload, Json.lookup, hok, hresults]

theorem member_error : member result.asPayload "error" (.str []) = .str result.error := by
  obtain ⟨ok, results, ids, error⟩ := result
  have hok : lit "ok" ≠ lit "error" := by decide
  have hresults : lit "results" ≠ lit "error" := by decide
  have hids : lit "ids" ≠ lit "error" := by decide
  cases error with
  | nil =>
    cases results <;> cases ids <;>
      simp [member, ToolResult.asPayload, Json.lookup, hok, hresults, hids]
  | cons c error =>
    cases results <;> cases ids <;>
      simp [member, ToolResult.asPayload, Json.lookup, hok, hresults, hids]

theorem ofPayload_asPayload : ofPayload result.asPayload = result := by
  have hok : (member result.asPayload "ok" .null).truthy = result.ok := rfl
  unfold ofPayload
  rw [hok, member_results, member_ids, member_error]
  simp only [List.filterMap_map, Function.comp_def, List.filterMap_some]

end Fields

section Whole

variable [Decoder]

/-- The message of the result is its complete encoding, and decoding it gives back the payload, if
    that is one that JSON has: without two halves of a surrogate pair in a row, with numerals that
    the interpreter reads back as it wrote them, and within the room of the decoder. -/
structure Whole (result : ToolResult) : Prop where
  content_eq : (toolMessage result).content = result.asPayload.dumps
  decoded : Json.Loadable result.asPayload → result.asPayload.depth ≤ Decoder.room →
    ∃ payload, Json.loads (toolMessage result).content = .ok payload ∧ ofPayload payload = result

omit [Decoder] in
/-- A text is its own beginning exactly if it is short enough. -/
theorem content_eq_iff_fits {result : ToolResult} :
    (toolMessage result).content = result.asPayload.dumps ↔ Fits result := List.take_eq_self_iff _

/-- **A message is whole exactly if the encoding of its result is within the bound.** That the
    encoding reads back is the round trip of JSON. -/
theorem whole_iff_fits {result : ToolResult} : Whole result ↔ Fits result := by
  constructor
  · exact fun h => content_eq_iff_fits.mp h.content_eq
  · intro hfits
    have hcontent := content_eq_iff_fits.mpr hfits
    refine ⟨hcontent, fun hloadable hroom => ?_⟩
    rw [hcontent]
    exact ⟨_, Json.loads_dumps_of_loadable hloadable hroom, ofPayload_asPayload result⟩

end Whole

/-!
## A whole operation

Every tool message that goes to the transport is that of a result the tools gave. So what is cut
in an operation is known from its results, and the bound that is recorded in the end is another
one.
-/

section Laws

variable [Runtime] [Decoder] {τ σ : Type}

/-- The results that an operation has put into its transcript. -/
def given (ys : List Exchange) (torn : List ToolResult) : List ToolResult :=
  ys.flatMap Exchange.results ++ torn

/-- The operation ended with a result that records an exceeded bound. -/
def Exceeded (o : Outcome (harness τ) σ LoopResult) : Prop :=
  ∃ result, o.result = .ok result ∧ result.budgetExceeded = true

/-- **The law**, for an operation that has put the results of `ys` and `torn` into its
    transcript. -/
structure NothingCut (ys : List Exchange) (torn : List ToolResult)
    (o : Outcome (harness τ) σ LoopResult) : Prop where
  /-- A tool message that goes to the transport carries one of them. -/
  carries : ∀ c ∈ chats o.trace, ∀ m ∈ c.1, m.role = "tool" →
    ∃ result ∈ given ys torn, m = toolMessage result
  whole : (∀ result ∈ given ys torn, Whole result) ∨ Exceeded o

omit [Runtime] [Decoder] in
/-- The tool messages of a transcript are those of the results of its exchanges. -/
theorem exists_of_tool_mem {prompt : Str} {xs : List Exchange} {m : Message}
    (hm : m ∈ transcript prompt xs) (hrole : m.role = "tool") :
    ∃ result ∈ xs.flatMap Exchange.results, m = toolMessage result := by
  rcases List.mem_append.mp hm with hm | hm
  · rcases List.mem_pair.mp hm with rfl | rfl
    · exact absurd hrole (show lit "system" ≠ lit "tool" by decide)
    · exact absurd hrole (show lit "user" ≠ lit "tool" by decide)
  · obtain ⟨x, hx, hm⟩ := List.mem_flatMap.mp hm
    rcases List.mem_cons.mp hm with rfl | hm
    · exact absurd hrole (show lit "assistant" ≠ lit "tool" by decide)
    · obtain ⟨result, hresult, rfl⟩ := List.mem_map.mp hm
      exact ⟨result, List.mem_flatMap.mpr ⟨x, hx, hresult⟩, rfl⟩

variable {w : World (harness τ) σ} {session : Option τ} {prompt : Str}

/-- Every tool message that goes to the transport is one of a result the tools gave. -/
theorem Ran.carries {s : σ} {ys : List Exchange} {torn : List ToolResult}
    (h : Ran w session prompt s ys torn) :
    ∀ c ∈ chats ((runOperation session prompt).run w s).trace, ∀ m ∈ c.1, m.role = "tool" →
      ∃ result ∈ given ys torn, m = toolMessage result := by
  obtain ⟨last, hplayed⟩ := h.played
  have hended := hplayed.ended
  rw [List.nil_append] at hended
  intro c hc m hm hrole
  rw [hplayed.calls] at hc
  rcases List.mem_append.mp hc with hc | hc
  · obtain ⟨pre, z, post, rfl, rfl⟩ := exists_of_mem_sent hc
    obtain ⟨result, hresult, rfl⟩ := exists_of_tool_mem hm hrole
    refine ⟨result, List.mem_append_left _ ?_, rfl⟩
    rw [List.flatMap_append]
    exact List.mem_append_left _ hresult
  · rw [hended.messages_eq c hc] at hm
    obtain ⟨result, hresult, rfl⟩ := exists_of_tool_mem hm hrole
    exact ⟨result, List.mem_append_left _ hresult, rfl⟩

/-- **In every operation whose results all fit, nothing is cut silently**; and where one does not
    fit, something is, unless the operation exceeds a bound of another kind. An encoded result is
    cut before it becomes a message, and nothing records that it was. -/
theorem nothingCut_of_fits (w : World (harness τ) σ) (session : Option τ) (prompt : Str) (s : σ) :
    (∃ ys torn, Ran w session prompt s ys torn) ∧ ∀ ys torn, Ran w session prompt s ys torn →
      ((∀ result ∈ given ys torn, Fits result) →
        NothingCut ys torn ((runOperation session prompt).run w s)) ∧
      (NothingCut ys torn ((runOperation session prompt).run w s) →
        ¬ Exceeded ((runOperation session prompt).run w s) →
        ∀ result ∈ given ys torn, Fits result) := by
  refine ⟨exists_ran w session prompt s, fun ys torn hran => ⟨fun hfits => ?_, fun hlaw hno => ?_⟩⟩
  · exact ⟨hran.carries, .inl fun result hresult => whole_iff_fits.mpr (hfits result hresult)⟩
  · have hwhole := hlaw.whole.resolve_right hno
    exact fun result hresult => whole_iff_fits.mp (hwhole result hresult)

end Laws

/-!
## A store with a long id

A listing is longer than any id in it, so an id of 2000 characters makes a listing that is cut.
-/

/-- A backend whose store has one memory, under an id of 2000 characters, and a transport with a
    fixed script. -/
def longListing : World (harness Unit) (List Json) := fun script call =>
  match call with
  | .listIds _ => (.ok { ids := [ones 2000] }, script)
  | call => scripted script call

section

attribute [local instance] cpython Decoder.verbatim

/-- What the tool gives, and that the script of the model is left as it was. -/
theorem run_longListing (script : List Json) (item : Str × Json) :
    (([calling "memory_list" (.obj [item])].mapM (giveResult (none : Option Unit))).run
      longListing script).result = .ok [{ ids := [ones 2000] }] ∧
    (([calling "memory_list" (.obj [item])].mapM (giveResult (none : Option Unit))).run
      longListing script).state = script := by
  have hroute : route (none : Option Unit) (lit "memory_list") (.obj [item]) =
      perform (I := harness Unit) (.listIds none) := by
    unfold route
    rw [if_neg (by decide), if_neg (by decide), if_neg (by decide), if_pos rfl]
  have hgive : giveResult (none : Option Unit) (calling "memory_list" (.obj [item])) =
      Prog.tryCatch (perform (I := harness Unit) (.listIds none)) fun error =>
        pure { ok := false, error := error.take 256 } := by
    rw [giveResult_of_readCall (readCall_calling "memory_list" item), dispatchTool, hroute]
  rw [List.mapM_cons, List.mapM_nil, hgive]
  exact ⟨rfl, rfl⟩

/-- A listing is longer than the id in it, if only by its quotes. -/
theorem length_lt_dumps (id : Str) :
    id.length < (ToolResult.asPayload { ids := [id] }).dumps.length := by
  have hdumps : (ToolResult.asPayload { ids := [id] }).dumps =
      lit "\x7b" ++ Json.join ", " [Json.dumpsStr (lit "ok") ++ lit ": " ++ lit "true",
        Json.dumpsStr (lit "ids") ++ lit ": " ++ (lit "[" ++ Json.join ", " [Json.dumpsStr id] ++
          lit "]")] ++ lit "\x7d" := by
    simp [ToolResult.asPayload, Json.dumps, Json.dumpsMembers, Json.dumpsItems]
  have hlength := Json.length_dumpsStr id
  rw [hdumps]
  simp only [Json.join, List.intersperse, List.flatten_cons, List.flatten_nil, List.append_nil,
    List.length_append]
  omega

/-- The listing of the store is cut, and the operation ends with an answer. -/
theorem long_listing_cut : ¬ ∀ (w : World (harness Unit) (List Json)) (session : Option Unit)
    (prompt : Str) (s : List Json), ∃ ys torn, Ran w session prompt s ys torn ∧
      NothingCut ys torn ((runOperation session prompt).run w s) := by
  intro h
  let item : Str × Json := (lit "limit", .int 8)
  let call := calling "memory_list" (.obj [item])
  obtain ⟨ys, torn, ⟨o, hcourse, hresult, -⟩, hlaw⟩ :=
    h longListing none [] [requesting [call], saying (lit "[]")]
  obtain ⟨hgive, hstate⟩ := run_longListing [saying (lit "[]")] item
  obtain ⟨o', hcourse', hsame, -⟩ := hcourse.next (by decide) within_opening rfl
    (readTurn_requesting call) hgive
  rw [hstate] at hcourse'
  have hanswer : readTurn (saying (lit "[]")) = .ok (.inl []) := rfl
  obtain ⟨rfl, hended⟩ := hcourse'.last (Nat.lt_of_sub_eq_succ rfl) (within_after rfl rfl) rfl hanswer
  have hno : ¬ Exceeded ((runOperation none []).run longListing
      [requesting [call], saying (lit "[]")]) := by
    rintro ⟨result, heq, hexceeded⟩
    rw [hresult, ← hsame, hended] at heq
    cases heq
    cases hexceeded
  have hfits := content_eq_iff_fits.mp
    (hlaw.whole.resolve_right hno { ids := [ones 2000] } List.mem_cons_self).content_eq
  have hlength := length_lt_dumps (ones 2000)
  rw [ones, List.length_replicate] at hlength
  exact absurd hfits (by rw [Fits, maxToolResultChars]; exact not_le.mpr hlength)

end

end AdversarialCognition
