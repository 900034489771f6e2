import AdversarialCognition.Harness.Discipline
import AdversarialCognition.Lib.Scalars

/-!
# Prose around an answer

`parse_final` reads an answer as JSON, and where it is none, what stands from its first bracket to
its last. Around an array the two agree: prose with no quote, bracket or brace in it changes
nothing. Around another value they do not, for the second reading finds an array that stands
inside of the first (`answerLaw_iff`). The answer is repaired that was to be an abstention.

## The argument

Whether the whole text is JSON is decided at its ends. Behind a value that is closed by a quote, a
bracket or a brace, what is left over makes it none (`loads_dumps_append`). Before a value, the
text begins with no quote, bracket or brace, so what is read of it, if anything, is a constant or
a numeral and no array (`parseFinal_bare`). Either way the second reading decides, and prose has
no brackets, so it is of the value alone (`bracketed?_wrapped`).

One text stands out. If the whole begins with an integer past the limit of the interpreter, the
first reading raises and there is no second. This can happen to prose that ends in a digit before
a number, so it is asked of the whole text and not of its parts.

## The condition

`Harmless` is about the printed value: what stands from its first bracket to its last is no array
with an id among its first eight items, and meets no limit of the decoder. The strings of a value
count here, since brackets in a string are found like any others. That includes a string of so
many brackets that reading them as an array is past the decoder's room.

Values are those that print and read back (`Json.Loadable`, and `depth` within the room). Prose
may be any text without quotes, brackets and braces, numerals and words included.
-/

namespace AdversarialCognition

open Py Py.Str

/-- Text that has no quote, bracket or brace. -/
def Prose (s : Str) : Prop := ∀ c ∈ s, Json.Bare c

/-- There is nothing but whitespace. -/
def Blank (s : Str) : Prop := ∀ c ∈ s, isspace c = true

/-!
## The ends of a text

The whitespace that `strip` takes away is in the prose, and never in the value.
-/

section Ends

/-- `s.rstrip()` -/
def rstrip (s : Str) : Str := (s.reverse.dropWhile isspace).reverse

theorem dropWhile_append_of_head {p : CodePoint → Bool} {s t : Str} (h : ∀ c ∈ t.head?, p c = false)
    (ht : t ≠ []) : (s ++ t).dropWhile p = s.dropWhile p ++ t := by
  obtain ⟨c, w, rfl⟩ := List.exists_cons_of_ne_nil ht
  have hc := h c rfl
  rw [List.dropWhile_append]
  split
  · rename_i hempty
    rw [List.isEmpty_iff.1 hempty, List.dropWhile_cons, hc]
    rfl
  · rfl

theorem strip_wrapped {before w after : Str} (hw : w ≠ []) (hhead : ∀ c ∈ w.head?, isspace c = false)
    (hlast : ∀ c ∈ w.getLast?, isspace c = false) :
    (before ++ w ++ after).strip = before.dropWhile isspace ++ w ++ rstrip after := by
  have hhead' : ∀ c ∈ (w ++ after).head?, isspace c = false := by
    obtain ⟨c, u, rfl⟩ := List.exists_cons_of_ne_nil hw
    exact hhead
  have hlast' : ∀ c ∈ (w.reverse ++ (before.dropWhile isspace).reverse).head?, isspace c = false := by
    obtain ⟨c, u, hu⟩ := List.exists_cons_of_ne_nil (List.reverse_ne_nil_iff.2 hw)
    rw [← List.head?_reverse, hu] at hlast
    rw [hu]
    exact hlast
  unfold strip rstrip
  rw [List.append_assoc, dropWhile_append_of_head hhead' (by simp [hw]), List.reverse_append,
    List.reverse_append, List.append_assoc, dropWhile_append_of_head hlast' (by simp [hw])]
  simp

theorem dropWhile_eq_nil_iff_blank {s : Str} : s.dropWhile isspace = [] ↔ Blank s :=
  List.dropWhile_eq_nil_iff

theorem rstrip_eq_nil_iff {s : Str} : rstrip s = [] ↔ Blank s := by
  unfold rstrip Blank
  rw [List.reverse_eq_nil_iff, List.dropWhile_eq_nil_iff]
  exact ⟨fun h c hc => h c (List.mem_reverse.2 hc), fun h c hc => h c (List.mem_reverse.1 hc)⟩

theorem mem_of_mem_rstrip {c : CodePoint} {s : Str} (h : c ∈ rstrip s) : c ∈ s := by
  rw [rstrip, List.mem_reverse] at h
  exact List.mem_reverse.1 ((List.dropWhile_sublist _).mem h)

theorem isspace_of_isWhitespace {c : CodePoint} (h : Json.isWhitespace c = true) :
    isspace c = true := by
  simp only [Json.isWhitespace, Bool.or_eq_true, decide_eq_true_eq] at h
  simp only [isspace, Bool.or_eq_true, Bool.and_eq_true, decide_eq_true_eq]
  omega

theorem skip_rstrip_ne_nil {s : Str} (h : rstrip s ≠ []) : Json.skip (rstrip s) ≠ [] := by
  intro hskip
  have hall : ∀ c ∈ rstrip s, isspace c = true := fun c hc =>
    isspace_of_isWhitespace (List.dropWhile_eq_nil_iff.1 hskip c hc)
  obtain ⟨c, w, hw⟩ := List.exists_cons_of_ne_nil (List.reverse_ne_nil_iff.2 h)
  have hhead : isspace c = false := by
    have hstrip : (rstrip s).reverse = s.reverse.dropWhile isspace := by simp [rstrip]
    rw [hw] at hstrip
    have := List.head?_dropWhile_not isspace s.reverse
    rw [← hstrip] at this
    simpa using this
  have hc : c ∈ rstrip s := List.mem_reverse.1 (hw ▸ List.mem_cons_self)
  rw [hall c hc] at hhead
  cases hhead

end Ends

/-!
## What a printed value begins and ends with

A printed value begins and ends with a quote, a bracket or a brace, or has none of these in it at
all.
-/

section Printed

variable [Decoder]

/-- What is printed without quotes, brackets and braces has none inside, and no whitespace. -/
theorem dumps_scalar {v : Json} (hv : Json.Loadable v) (hopen : Json.enclosed v = false) :
    ∀ c ∈ v.dumps, Json.Bare c ∧ isspace c = false := by
  -- a constant is read off its letters, and a numeral has only characters of numerals
  have hword : ∀ word : String,
      ((lit word).all fun c => decide (Json.Bare c) && !isspace c) = true →
        ∀ c ∈ lit word, Json.Bare c ∧ isspace c = false := by
    intro word hall c hc
    have := List.all_eq_true.1 hall c hc
    rw [Bool.and_eq_true, Bool.not_eq_true'] at this
    exact ⟨of_decide_eq_true this.1, this.2⟩
  have hnumeric : ∀ c, Json.numeric c = true → Json.Bare c ∧ isspace c = false := fun c hc =>
    ⟨Json.bare_of_numeric hc, Json.isspace_of_numeric hc⟩
  cases v with
  | null => exact hword "null" (by decide)
  | bool b =>
    cases b with
    | false => exact hword "false" (by decide)
    | true => exact hword "true" (by decide)
  | int n =>
    have hint := Json.scanInt_ofInt n .nil
    rw [List.append_nil] at hint
    exact fun c hc => hnumeric c ((Json.scanInt_consumes hint).2 c hc)
  | float text =>
    rw [Json.dumps]
    rcases Json.dumpsFloat_cases hv with ⟨-, heq⟩ | ⟨-, heq⟩ | ⟨-, heq⟩ | ⟨hnumber, heq⟩
    · rw [heq]
      exact hword "NaN" (by decide)
    · rw [heq]
      exact hword "Infinity" (by decide)
    · rw [heq]
      exact hword "-Infinity" (by decide)
    · obtain ⟨-, w, hw, hall⟩ := Json.scanNumber_consumes hnumber
      rw [List.append_nil] at hw
      rw [heq, hw]
      exact fun c hc => hnumeric c (hall c hc)
  | str s | list items | obj items => cases hopen

omit [Decoder] in
/-- The first and the last character of what is printed between two. -/
theorem dumps_enclosed {v : Json} (hclosed : Json.enclosed v = true) :
    ∃ c w d, v.dumps = c :: w ++ [d] ∧ ¬ Json.Bare c ∧ isspace c = false ∧ isspace d = false := by
  cases v with
  | str s => exact ⟨CodePoint.ofChar '"', s.flatMap Json.dumpsPoint, CodePoint.ofChar '"', rfl,
      by decide, by decide, by decide⟩
  | list items => exact ⟨CodePoint.ofChar '[', Json.join ", " (Json.dumpsItems items),
      CodePoint.ofChar ']', rfl, by decide, by decide, by decide⟩
  | obj items => exact ⟨CodePoint.ofChar '{', Json.join ", " (Json.dumpsMembers items),
      CodePoint.ofChar '}', rfl, by decide, by decide, by decide⟩
  | null | bool | int | float => cases hclosed

/-- A printed value begins and ends with something other than whitespace. -/
theorem dumps_ends {v : Json} (hv : Json.Loadable v) : v.dumps ≠ [] ∧
    (∀ c ∈ v.dumps.head?, isspace c = false) ∧ ∀ c ∈ v.dumps.getLast?, isspace c = false := by
  obtain ⟨c, w, hw, -⟩ := (Json.readAs_dumps hv).head
  refine ⟨by simp [hw], ?_⟩
  cases hclosed : Json.enclosed v with
  | false =>
    have hall := dumps_scalar hv hclosed
    exact ⟨fun d hd => (hall d (List.mem_of_mem_head? hd)).2,
      fun d hd => (hall d (List.mem_of_mem_getLast? hd)).2⟩
  | true =>
    obtain ⟨c, w, d, hdumps, -, hc, hd⟩ := dumps_enclosed hclosed
    rw [hdumps, List.getLast?_concat]
    exact ⟨by simpa using hc, by simpa using hd⟩

end Printed

/-!
## The text between brackets

Prose has no brackets, so the first and the last bracket of a wrapped text are those of the value.
-/

section Brackets

/-- What prose does not have is found in the middle, further on. -/
theorem find_wrapped {c : CodePoint} {before w after : Str} (hbefore : c ∉ before)
    (hafter : c ∉ after) :
    find c (before ++ w ++ after) = (find c w).map (· + before.length) := by
  have hnone : ∀ s : Str, c ∉ s → s.findIdx? (· == c) = none := by
    intro s hs
    rw [List.findIdx?_eq_none_iff]
    intro d hd
    rw [beq_eq_false_iff_ne]
    rintro rfl
    exact hs hd
  unfold find
  rw [List.findIdx?_append, List.findIdx?_append, hnone before hbefore, hnone after hafter]
  simp

theorem find_lt {c : CodePoint} {w : Str} {i : ℕ} (h : find c w = some i) : i < w.length :=
  (List.findIdx?_eq_some_iff_getElem.1 h).1

theorem rfind_wrapped {c : CodePoint} {before w after : Str} (hbefore : c ∉ before)
    (hafter : c ∉ after) :
    rfind c (before ++ w ++ after) = (rfind c w).map (· + before.length) := by
  unfold rfind
  rw [List.reverse_append, List.reverse_append, ← List.append_assoc,
    find_wrapped (by simpa using hafter) (by simpa using hbefore)]
  cases hfind : find c w.reverse with
  | none => rfl
  | some i =>
    have hlt := find_lt hfind
    rw [List.length_reverse] at hlt
    simp only [Option.map_some, Option.some.injEq, List.length_append, List.length_reverse]
    omega

theorem rfind_lt {c : CodePoint} {w : Str} {i : ℕ} (h : rfind c w = some i) : i < w.length := by
  obtain ⟨j, hj, rfl⟩ := Option.map_eq_some_iff.1 h
  have := find_lt hj
  rw [List.length_reverse] at this
  omega

/-- Prose around a text has no part in what stands between its brackets. -/
theorem bracketed?_wrapped {before w after : Str} (hbefore : Prose before) (hafter : Prose after) :
    bracketed? (before ++ w ++ after) = bracketed? w := by
  have hmem : ∀ (c : CodePoint) (s : Str), ¬ Json.Bare c → Prose s → c ∉ s := fun c s hc hs hmem =>
    hc (hs c hmem)
  unfold bracketed?
  rw [find_wrapped (hmem _ _ (by decide) hbefore) (hmem _ _ (by decide) hafter),
    rfind_wrapped (hmem _ _ (by decide) hbefore) (hmem _ _ (by decide) hafter)]
  cases hstart : find (CodePoint.ofChar '[') w with
  | none => rfl
  | some start =>
    cases hstop : rfind (CodePoint.ofChar ']') w with
    | none => rfl
    | some stop =>
      have hlt := rfind_lt hstop
      simp only [Option.map_some, Nat.add_lt_add_iff_right]
      refine if_congr Iff.rfl rfl (congrArg some ?_)
      have hlength : stop + before.length + 1 = before.length + (stop + 1) := by omega
      rw [hlength, List.append_assoc, List.take_length_add_append, Nat.add_comm start,
        List.drop_length_add_append, List.take_append_of_le_length (by omega)]

theorem bracketed?_prose {s : Str} (hs : Prose s) : bracketed? s = none := by
  have h := bracketed?_wrapped (w := []) hs (List.forall_mem_nil _)
  rw [List.append_nil, List.append_nil] at h
  exact h.trans rfl

/-- An array is the whole of what stands between its brackets. -/
theorem bracketed?_list (items : List Json) :
    bracketed? (Json.list items).dumps = some (Json.list items).dumps := by
  obtain ⟨inner, hinner⟩ : ∃ inner, (Json.list items).dumps =
      CodePoint.ofChar '[' :: (inner ++ [CodePoint.ofChar ']']) := ⟨_, rfl⟩
  have hstart : find (CodePoint.ofChar '[') (Json.list items).dumps = some 0 := by
    rw [hinner, find, List.findIdx?_cons, beq_self_eq_true]
    rfl
  have hstop : rfind (CodePoint.ofChar ']') (Json.list items).dumps = some (inner.length + 1) := by
    rw [hinner, rfind, find, ← List.cons_append, List.reverse_append, List.reverse_singleton,
      List.singleton_append, List.findIdx?_cons, beq_self_eq_true]
    simp
  rw [bracketed?, hstart, hstop]
  simp only [Nat.not_lt_zero, if_false, List.drop_zero, Option.some.injEq]
  refine List.take_of_length_le ?_
  rw [hinner]
  simp

end Brackets

/-!
## The verdict

The two readings of an answer, and which of them decides: without prose the first, with prose the
second, unless the whole begins with an integer past the limit.
-/

section Verdict

variable [Runtime] [Decoder]

/-- What is read of a text that is no JSON. -/
def fallback (text : Str) : Except Str (List Str) :=
  match bracketed? text with
  | none => .ok []
  | some array =>
      match Json.loads array with
      | .ok parsed => .ok (idsOf parsed)
      | .error (.value text) => .error text
      | .error (.recursion text) => .error text
      | .error .decode => .ok []

theorem parseFinal_eq (content : Str) : parseFinal content =
    match Json.loads content.strip with
    | .ok parsed => .ok (idsOf parsed)
    | .error (.value text) => .error text
    | .error (.recursion text) => .error text
    | .error .decode => fallback content.strip := rfl

omit [Decoder] in
theorem idsOf_eq_nil {v : Json} (h : ∀ items, v ≠ .list items) : idsOf v = [] := by
  cases v with
  | list items => exact absurd rfl (h items)
  | _ => rfl

/-- A text that begins with an integer past the limit is no verdict at all. -/
theorem parseFinal_of_longInteger {content : Str} (h : Json.LongInteger content.strip) :
    ∃ e, parseFinal content = .error e := by
  obtain ⟨c, w, hw, hc⟩ := h.head
  have hbare : Json.Bare c := by
    unfold Json.Bare
    omega
  have hspace : Json.isWhitespace c = false := by
    simp only [Json.isWhitespace, Bool.or_eq_false_iff, decide_eq_false_iff_not]
    omega
  rw [hw] at h
  obtain ⟨e, he, hdecode⟩ := (Json.loads_bare hbare hspace).2.mpr h
  rw [parseFinal_eq, hw, he]
  cases e with
  | decode => exact absurd rfl hdecode
  | value text => exact ⟨text, rfl⟩
  | recursion text => exact ⟨text, rfl⟩

/-- What begins as prose does is read only between its brackets. -/
theorem parseFinal_bare {content : Str} {c : CodePoint} {w : Str} (hw : content.strip = c :: w)
    (hc : Json.Bare c) (hspace : isspace c = false) (hlong : ¬ Json.LongInteger content.strip) :
    parseFinal content = fallback content.strip := by
  have hwhite : Json.isWhitespace c = false := by
    cases hwhite : Json.isWhitespace c with
    | false => rfl
    | true => rw [isspace_of_isWhitespace hwhite] at hspace; cases hspace
  obtain ⟨hok, hunguarded⟩ := Json.loads_bare (s := w) hc hwhite
  rw [parseFinal_eq]
  rw [hw] at hlong ⊢
  cases hread : Json.loads (c :: w) with
  | ok j =>
    obtain ⟨hscalar, hall⟩ := hok j hread
    have hids : idsOf j = [] := by
      refine idsOf_eq_nil fun items heq => ?_
      rw [heq] at hscalar
      cases hscalar
    rw [fallback, bracketed?_prose hall]
    exact congrArg Except.ok hids
  | error e =>
    cases e with
    | decode => rfl
    | value text => exact absurd (hunguarded.mp ⟨_, hread, fun heq => nomatch heq⟩) hlong
    | recursion text => exact absurd (hunguarded.mp ⟨_, hread, fun heq => nomatch heq⟩) hlong

variable {v : Json} {before after : Str}

omit [Runtime] in
/-- `strip_wrapped`, around a printed value. -/
theorem strip_dumps (hv : Json.Loadable v) : (before ++ v.dumps ++ after).strip =
    before.dropWhile isspace ++ v.dumps ++ rstrip after := by
  obtain ⟨hne, hhead, hlast⟩ := dumps_ends hv
  exact strip_wrapped hne hhead hlast

omit [Runtime] [Decoder] in
theorem prose_dropWhile (h : Prose before) : Prose (before.dropWhile isspace) := fun c hc =>
  h c ((List.dropWhile_sublist _).mem hc)

omit [Runtime] [Decoder] in
theorem prose_rstrip (h : Prose after) : Prose (rstrip after) := fun c hc =>
  h c (mem_of_mem_rstrip hc)

theorem parseFinal_dumps (hv : Json.Loadable v) (hroom : v.depth ≤ Decoder.room)
    (hbefore : Blank before) (hafter : Blank after) :
    parseFinal (before ++ v.dumps ++ after) = .ok (idsOf v) := by
  rw [parseFinal_eq, strip_dumps hv, dropWhile_eq_nil_iff_blank.mpr hbefore,
    rstrip_eq_nil_iff.mpr hafter, List.nil_append, List.append_nil, Json.loads_dumps_of_loadable hv hroom]

omit [Runtime] in
/-- Behind a value that is closed, prose makes a text no JSON. -/
theorem loads_dumps_append (hv : Json.Loadable v) (hroom : v.depth ≤ Decoder.room)
    (hclosed : Json.enclosed v = true) {s : Str} (hs : Json.skip s ≠ []) : Json.loads (v.dumps ++ s) = .error .decode := by
  obtain ⟨c, w, hw, -, -, hbom⟩ := (Json.readAs_dumps hv).head
  have hscan := (Json.readAs_dumps hv).scan (2 * (v.dumps ++ s).length + 1) Decoder.room s
    (fun hopen => by rw [hclosed] at hopen; cases hopen) (by rw [List.length_append]; omega) hroom
  unfold Json.loads
  rw [(Json.readAs_dumps hv).skip, hscan, hw, List.cons_append, List.head?_cons, Option.any_some,
    if_neg (by simpa using hbom)]
  simp [bind, Except.bind, hs]

/-- **With prose, an answer is what stands between the brackets of its value**, unless the whole
    begins with an integer past the limit. -/
theorem parseFinal_wrapped (hv : Json.Loadable v) (hroom : v.depth ≤ Decoder.room)
    (hbefore : Prose before) (hafter : Prose after) (hprose : ¬ (Blank before ∧ Blank after))
    (hlong : ¬ Json.LongInteger (before ++ v.dumps ++ after).strip) :
    parseFinal (before ++ v.dumps ++ after) = fallback v.dumps := by
  have hfallback : fallback (before ++ v.dumps ++ after).strip = fallback v.dumps := by
    rw [strip_dumps hv, fallback, bracketed?_wrapped (prose_dropWhile hbefore) (prose_rstrip hafter)]
    rfl
  rw [← hfallback]
  obtain ⟨hne, hhead, -⟩ := dumps_ends hv
  -- prose before the value is met first; otherwise there is some behind it
  by_cases hblank : Blank before
  · have hstrip : (before ++ v.dumps ++ after).strip = v.dumps ++ rstrip after := by
      rw [strip_dumps hv, dropWhile_eq_nil_iff_blank.mpr hblank, List.nil_append]
    obtain ⟨c, w, hw⟩ := List.exists_cons_of_ne_nil hne
    cases hclosed : Json.enclosed v with
    | true =>
      have hafter : rstrip after ≠ [] := fun hnil => hprose ⟨hblank, rstrip_eq_nil_iff.mp hnil⟩
      rw [parseFinal_eq, hstrip, loads_dumps_append hv hroom hclosed (skip_rstrip_ne_nil hafter)]
    | false =>
      have hc := dumps_scalar hv hclosed c (hw ▸ List.mem_cons_self)
      exact parseFinal_bare (by rw [hstrip, hw, List.cons_append]) hc.1 hc.2 hlong
  · have hcut : before.dropWhile isspace ≠ [] := fun hnil =>
      hblank (dropWhile_eq_nil_iff_blank.mp hnil)
    obtain ⟨c, w, hw⟩ := List.exists_cons_of_ne_nil hcut
    have hspace : isspace c = false := by
      have := List.head?_dropWhile_not isspace before
      rw [hw] at this
      simpa using this
    refine parseFinal_bare (c := c) (w := w ++ v.dumps ++ rstrip after) ?_ ?_ hspace hlong
    · rw [strip_dumps hv, hw]
      rfl
    · exact prose_dropWhile hbefore c (hw ▸ List.mem_cons_self)

end Verdict

/-!
## The law

The answer of a value with prose around it is to be that of the value alone. For an array both
readings agree; for any other value the first abstains, and the law is that the second does too.
-/

section Law

variable [Runtime] [Decoder]

/-- **The law**, for a value between two texts. -/
structure AnswerLaw (v : Json) (before after : Str) : Prop where
  /-- The prose does not change what is made of the value, be it ids, an abstention or an
      exception. -/
  verdict : parseFinal (before ++ v.dumps ++ after) = parseFinal v.dumps
  /-- A list of ids within the bounds is read as it is. -/
  ids : ∀ ids : List Str, v = .list (ids.map .str) → ids.length ≤ maxAnswerIds →
    (∀ id ∈ ids, id.length ≤ maxAnswerIdChars) →
      parseFinal (before ++ v.dumps ++ after) = .ok ids
  /-- What is no array is an abstention, prose or not. -/
  abstains : (∀ items, v ≠ .list items) → parseFinal (before ++ v.dumps ++ after) = .ok []

/-- An item that is taken for an id. -/
def IsId : Json → Prop
  | .str _ | .int _ | .bool _ => True
  | _ => False

/-- What stands from the first opening bracket to the last closing one, if anything does, is no
    array with an id among its first eight items, and meets no limit of the decoder: it has no
    integer of too many digits and no bracket too deep, in strings of the value too. -/
def Harmless (text : Str) : Prop :=
  ∀ array, bracketed? text = some array → ¬ Json.Unguarded array ∧
    ∀ items, Json.loads array = .ok (.list items) → ∀ item ∈ items.take maxAnswerIds, ¬ IsId item

omit [Decoder] in
theorem boundedIds_eq_nil_iff {items : List Json} :
    boundedIds items = [] ↔ ∀ item ∈ items.take maxAnswerIds, ¬ IsId item := by
  unfold boundedIds
  rw [List.filterMap_eq_nil_iff]
  refine forall₂_congr fun item _ => ?_
  cases item <;> simp [IsId]

omit [Decoder] in
theorem boundedIds_strs {ids : List Str} (hlength : ids.length ≤ maxAnswerIds)
    (hchars : ∀ id ∈ ids, id.length ≤ maxAnswerIdChars) : boundedIds (ids.map .str) = ids := by
  unfold boundedIds
  rw [List.take_of_length_le (by rwa [List.length_map]), List.filterMap_map]
  conv_rhs => rw [← List.filterMap_some (l := ids)]
  exact List.filterMap_congr fun id hid => congrArg some (List.take_of_length_le (hchars id hid))

/-- The second reading abstains exactly if it is harmless. -/
theorem fallback_eq_nil_iff {text : Str} : fallback text = .ok [] ↔ Harmless text := by
  unfold fallback Harmless
  cases bracketed? text with
  | none => simp
  | some array =>
    simp only [Option.some.injEq, forall_eq']
    unfold Json.Unguarded
    cases hread : Json.loads array with
    | error e => cases e <;> simp
    | ok j =>
      cases j with
      | list items => simp [idsOf, boundedIds_eq_nil_iff]
      | _ => simp [idsOf]

theorem fallback_list {items : List Json} (hv : Json.Loadable (.list items))
    (hroom : (Json.list items).depth ≤ Decoder.room) :
    fallback (Json.list items).dumps = .ok (boundedIds items) := by
  rw [fallback, bracketed?_list]
  simp only [Json.loads_dumps_of_loadable hv hroom]
  rfl

variable {v : Json} {before after : Str}

theorem parseFinal_dumps_self (hv : Json.Loadable v) (hroom : v.depth ≤ Decoder.room) :
    parseFinal v.dumps = .ok (idsOf v) := by
  have h := parseFinal_dumps hv hroom (List.forall_mem_nil _) (List.forall_mem_nil _)
  rwa [List.nil_append, List.append_nil] at h

theorem answerLaw_iff_verdict (hv : Json.Loadable v) (hroom : v.depth ≤ Decoder.room) :
    AnswerLaw v before after ↔ parseFinal (before ++ v.dumps ++ after) = .ok (idsOf v) := by
  constructor
  · exact fun h => h.verdict.trans (parseFinal_dumps_self hv hroom)
  · intro h
    refine ⟨h.trans (parseFinal_dumps_self hv hroom).symm, ?_, ?_⟩
    · rintro ids rfl hlength hchars
      exact h.trans (congrArg Except.ok (boundedIds_strs hlength hchars))
    · exact fun hne => h.trans (congrArg Except.ok (idsOf_eq_nil hne))

/-- **Prose around an answer changes nothing exactly if** the whole does not begin with an
    integer past the limit, and, where there is any prose and the answer is no array, there is
    no array with an id from the first bracket of the answer to its last. -/
theorem answerLaw_iff (hv : Json.Loadable v) (hroom : v.depth ≤ Decoder.room)
    (hbefore : Prose before) (hafter : Prose after) : AnswerLaw v before after ↔
      ¬ Json.LongInteger (before ++ v.dumps ++ after).strip ∧ ((∃ items, v = .list items) ∨
        (Blank before ∧ Blank after) ∨ Harmless v.dumps) := by
  rw [answerLaw_iff_verdict hv hroom]
  constructor
  · intro h
    have hlong : ¬ Json.LongInteger (before ++ v.dumps ++ after).strip := by
      intro hlong
      obtain ⟨e, he⟩ := parseFinal_of_longInteger hlong
      rw [he] at h
      cases h
    refine ⟨hlong, ?_⟩
    by_cases hlist : ∃ items, v = .list items
    · exact .inl hlist
    by_cases hblank : Blank before ∧ Blank after
    · exact .inr (.inl hblank)
    · rw [parseFinal_wrapped hv hroom hbefore hafter hblank hlong,
        idsOf_eq_nil fun items heq => hlist ⟨items, heq⟩] at h
      exact .inr (.inr (fallback_eq_nil_iff.mp h))
  · rintro ⟨hlong, h⟩
    by_cases hblank : Blank before ∧ Blank after
    · exact parseFinal_dumps hv hroom hblank.1 hblank.2
    rw [parseFinal_wrapped hv hroom hbefore hafter hblank hlong]
    by_cases hlist : ∃ items, v = .list items
    · obtain ⟨items, rfl⟩ := hlist
      exact fallback_list hv hroom
    · rw [idsOf_eq_nil fun items heq => hlist ⟨items, heq⟩]
      exact fallback_eq_nil_iff.mpr ((h.resolve_left hlist).resolve_left hblank)

end Law

/-!
## An object that wraps the ids

An object with a list of ids in it is an abstention, and the list when there is a word before it.
-/

section

attribute [local instance] cpython Decoder.verbatim

theorem prose_ofList {cs : List Char}
    (h : (cs.all fun c => decide (Json.Bare (CodePoint.ofChar c))) = true) :
    Prose (lit (String.ofList cs)) := by
  intro c hc
  rw [lit, String.toList_ofList] at hc
  obtain ⟨d, hd, rfl⟩ := List.mem_map.1 hc
  exact of_decide_eq_true (List.all_eq_true.1 h d hd)

/-- A text that begins with neither a digit nor a sign does not begin with an integer. -/
theorem not_longInteger {s : Str} (h : (s.head?.any fun c => c.val = 0x2D || Json.isDigit c) = false) :
    ¬ Json.LongInteger s := by
  intro hlong
  obtain ⟨c, w, rfl, hc⟩ := hlong.head
  simp only [List.head?_cons, Option.any_some, Json.isDigit, Bool.or_eq_false_iff,
    Bool.and_eq_false_imp, decide_eq_true_eq, decide_eq_false_iff_not] at h
  omega

theorem prose_here : Prose (lit "Here: ") := by
  have hbare : (['H', 'e', 'r', 'e', ':', ' '].all fun c => decide (Json.Bare (CodePoint.ofChar c))) = true := by
    decide
  exact prose_ofList hbare

/-- A wrapped list of one id is read as that list. -/
theorem answerLaw_here : AnswerLaw (.list [.str (lit "a")]) (lit "Here: ") [] := by
  have hprose : Prose (lit "Here: ") := prose_here
  have hv : Json.Loadable (.list [.str (lit "a")]) := ⟨.singleton _, trivial⟩
  have hhead : (lit "Here: " ++ (Json.list [.str (lit "a")]).dumps ++ []).strip =
      CodePoint.ofChar 'H' :: lit "ere: [\"a\"]" := by decide
  have hroom : (Json.list [.str (lit "a")]).depth ≤ Decoder.room := by decide
  exact (answerLaw_iff hv hroom hprose (List.forall_mem_nil _)).mpr
    ⟨not_longInteger (by rw [hhead]; decide), .inl ⟨_, rfl⟩⟩

/-- An object that wraps the ids is an abstention, until there is prose around it. -/
theorem wrapped_object_repaired : ¬ ∀ (v : Json) (before after : Str), Json.Loadable v →
    v.depth ≤ Decoder.room → Prose before → Prose after → AnswerLaw v before after := by
  intro h
  have hprose : Prose (lit "Here: ") := prose_here
  have hlist : Json.Loadable (.list [.str (lit "a")]) := ⟨.singleton _, trivial⟩
  have hv : Json.Loadable (.obj [(lit "ids", .list [.str (lit "a")])]) :=
    ⟨List.nodup_singleton _, Json.unpaired_of_encodable (encodable_lit _), hlist, trivial⟩
  have hroom : (Json.obj [(lit "ids", .list [.str (lit "a")])]).depth ≤ Decoder.room := by decide
  have habstains := (h _ _ [] hv hroom hprose (List.forall_mem_nil _)).abstains fun items heq => nomatch heq
  have hhead : (lit "Here: " ++ (Json.obj [(lit "ids", .list [.str (lit "a")])]).dumps ++ []).strip =
      CodePoint.ofChar 'H' :: lit "ere: \x7b\"ids\": [\"a\"]\x7d" := by decide
  rw [parseFinal_wrapped hv hroom hprose (List.forall_mem_nil _)
    (fun hblank => absurd (hblank.1 _ List.mem_cons_self) (by decide))
    (not_longInteger (by rw [hhead]; decide))] at habstains
  -- between its brackets stands the list
  have harray : bracketed? (Json.obj [(lit "ids", .list [.str (lit "a")])]).dumps =
      some (Json.list [.str (lit "a")]).dumps := by decide
  exact (fallback_eq_nil_iff.mp habstains _ harray).2 _ (Json.loads_dumps_of_loadable hlist (by decide)) _
    List.mem_cons_self trivial

end

end AdversarialCognition
