import AdversarialCognition.Lib.Tags

/-!
# The strings of a value, in its dump

The tags that stand in `json.dumps` of a value behind a word are those of its strings, keys
included, taken in turn, from the first on that has the word (`afterWord?_dumps`): brackets,
numbers and constants make no tag that is looked at, and nothing of them is in the word. It goes
part by part: of each part of a dump it is said what it adds, whatever stands behind it.

## What could go wrong

A list is printed between the same brackets as a tag. That the bracket of a list opens no tag
depends on what is printed behind it: a digit, a sign, a quote, a bracket, a brace, or the first
letter of a constant. So the tags to be kept must begin with none of these, and that is the field
`keep_start` of a `Vocabulary`. And the word must be made of characters that are printed as they
are, and begin with one that no escape, number or constant has in it.

All of this is about one text at a time and about every value, whatever its strings are. What the
tags are is left to the application, which has a class, a length and a first character.
-/

namespace Py.Json

open Str

/-!
## The strings of a value

What is in a value, for someone who looks for tags in its dump: its strings and keys in order, and
around them signs, numerals and constants.
-/

mutual

/-- The keys and strings of a value, in the order in which they are printed. -/
def leaves : Json → List Str
  | str s => [s]
  | list items => leavesItems items
  | obj items => leavesMembers items
  | _ => []

def leavesItems : List Json → List Str
  | [] => []
  | item :: items => leaves item ++ leavesItems items

def leavesMembers : List (Str × Json) → List Str
  | [] => []
  | (key, value) :: items => key :: leaves value ++ leavesMembers items

end

/-- A character of `repr` of a number. -/
def numeral (c : CodePoint) : Bool :=
  isDigit c || c.val = 0x2D || c.val = 0x2B || c.val = 0x2E || c.val = 0x65

/-- What `repr` makes of a float: a constant or a numeral. The texts of floats are taken from the
    interpreter, so that they are such texts is asked of the value. -/
def FloatRepr (text : Str) : Prop :=
  text = lit "nan" ∨ text = lit "inf" ∨ text = lit "-inf" ∨
    text ≠ [] ∧ ∀ c ∈ text, numeral c = true

mutual

/-- The texts of the floats are what `repr` gives. -/
def FloatReprs : Json → Prop
  | float text => FloatRepr text
  | list items => FloatReprsItems items
  | obj items => FloatReprsMembers items
  | _ => True

def FloatReprsItems : List Json → Prop
  | [] => True
  | item :: items => FloatReprs item ∧ FloatReprsItems items

def FloatReprsMembers : List (Str × Json) → Prop
  | [] => True
  | (_, value) :: items => FloatReprs value ∧ FloatReprsMembers items

end

/-- The constants, and what stands around strings and values, but for the opening bracket. -/
def tokens : List Str :=
  [lit "null", lit "true", lit "false", lit "NaN", lit "Infinity", lit "-Infinity", lit "\"",
    lit "\x7b", lit "\x7d", lit "]", lit ": ", lit ", "]

/-- What may stand behind an opening bracket. -/
def startsItem (c : CodePoint) : Bool := numeral c || (lit "ntfNI\"\x7b[]").contains c

/-!
## A dump

A dump is read part by part. Each adds the tags of its own strings to those found before, whatever
stands behind it, and the parts are put together as the printer does.
-/

theorem numeral_of_mem_ofInt (n : ℤ) : ∀ c ∈ ofInt n, numeral c = true := by
  have hnat : ∀ c ∈ ofNat n.natAbs, numeral c = true := by
    intro c hc
    rw [numeral, isDigit_of_mem c hc]
    rfl
  unfold ofInt
  split
  · have hminus : lit "-" = [CodePoint.ofChar '-'] := by decide
    rw [hminus]
    exact List.forall_mem_cons.mpr ⟨by decide, hnat⟩
  · exact hnat

theorem ofInt_ne_nil (n : ℤ) : ofInt n ≠ [] := by
  have hnat : ofNat n.natAbs ≠ [] := by
    by_cases h : n.natAbs = 0
    · rw [h]
      decide
    · obtain ⟨c, rest, heq, -⟩ := head_ofNat h
      rw [heq]
      exact List.cons_ne_nil _ _
  unfold ofInt
  split
  · exact List.append_ne_nil_of_right_ne_nil _ hnat
  · exact hnat

theorem startsItem_of_numerals {w : Str} (hne : w ≠ []) (hw : ∀ c ∈ w, numeral c = true) :
    ∃ c t, w = c :: t ∧ startsItem c = true := by
  obtain ⟨c, t, rfl⟩ := List.exists_cons_of_ne_nil hne
  refine ⟨c, t, rfl, ?_⟩
  rw [startsItem, hw c List.mem_cons_self]
  rfl

/-- A float is printed as a constant, or as `repr` gives it. -/
theorem dumpsFloat_of_floatRepr {text : Str} (h : FloatRepr text) :
    dumpsFloat text ∈ [lit "NaN", lit "Infinity", lit "-Infinity"] ∨
      dumpsFloat text ≠ [] ∧ ∀ c ∈ dumpsFloat text, numeral c = true := by
  rcases h with rfl | rfl | rfl | h
  · exact .inl (by decide)
  · exact .inl (by decide)
  · exact .inl (by decide)
  · unfold dumpsFloat
    split
    · exact .inl (by decide)
    · split
      · exact .inl (by decide)
      · split
        · exact .inl (by decide)
        · exact .inr h

theorem startsItem_dumps {j : Json} (h : FloatReprs j) : ∃ c t, dumps j = c :: t ∧ startsItem c = true := by
  have hstart : ∀ w ∈ [lit "null", lit "true", lit "false", lit "NaN", lit "Infinity", lit "-Infinity"],
      ∃ c t, w = c :: t ∧ startsItem c = true := by
    have hall : ∀ w ∈ [lit "null", lit "true", lit "false", lit "NaN", lit "Infinity", lit "-Infinity"],
        w.head?.any startsItem = true := by decide
    intro w hw
    have := hall w hw
    cases w with
    | nil => cases this
    | cons c t => exact ⟨c, t, rfl, this⟩
  cases j with
  | null => exact hstart _ (by decide)
  | bool b =>
    cases b with
    | true => exact hstart (lit "true") (by decide)
    | false => exact hstart (lit "false") (by decide)
  | int n => exact startsItem_of_numerals (ofInt_ne_nil n) (numeral_of_mem_ofInt n)
  | float text =>
    rcases dumpsFloat_of_floatRepr h with hmem | ⟨hne, hall⟩
    · exact hstart _ (List.mem_append_right [lit "null", lit "true", lit "false"] hmem)
    · exact startsItem_of_numerals hne hall
  | str s => exact ⟨CodePoint.ofChar '"', _, rfl, by decide⟩
  | list items => exact ⟨CodePoint.ofChar '[', _, rfl, by decide⟩
  | obj items => exact ⟨CodePoint.ofChar '\x7b', _, rfl, by decide⟩

/-- What is looked for: tags of a class, of those the ones to keep, and a word. The fields below
    the first five are what keeps the rest of a dump from being taken for any of these. -/
structure Vocabulary where
  idChar : CodePoint → Bool
  valid : Str → Bool
  keep : Str → Bool
  first : CodePoint
  more : Str
  idChar_plain : PlainClass idChar
  idChar_openTag : idChar openTag = false
  idChar_closeTag : idChar closeTag = false
  keep_start : ∀ id, keep id = true → ∃ c t, id = c :: t ∧ startsItem c = false
  word_plain : ∀ c ∈ first :: more,
    0x20 ≤ c.val ∧ c.val ≤ 0x7E ∧ c.val ≠ 0x22 ∧ c.val ≠ 0x5C
  first_escape : escapeChar first = false
  first_numeral : numeral first = false
  first_tokens : ∀ w ∈ tokens, first ∉ w
  first_openTag : first ≠ openTag

namespace Vocabulary

variable (v : Vocabulary)

def word : Str := v.first :: v.more

/-- The tags that are kept. -/
def kept (s : Str) : List Str := (tagsIn v.idChar v.valid s).filter v.keep

/-- What stands behind the word in the first string that has it, and the later strings. -/
def behind? : List Str → Option (List Str)
  | [] => none
  | s :: ss =>
      match afterWord? v.word s with
      | some after => some (after :: ss)
      | none => behind? ss

/-- A part of a dump adds what some strings add, whatever stands behind it: to the tags of the
    whole, and to what is found behind the word. -/
structure Reads (w : Str) (ss : List Str) : Prop where
  kept : ∀ rest, v.kept (w ++ rest) = ss.flatMap v.kept ++ v.kept rest
  word : ∀ rest,
    match v.behind? ss with
    | some later => ∃ t, afterWord? v.word (w ++ rest) = some t ∧
        v.kept t = later.flatMap v.kept ++ v.kept rest
    | none => afterWord? v.word (w ++ rest) = afterWord? v.word rest

variable {v}

theorem behind?_append (ss ts : List Str) :
    v.behind? (ss ++ ts) =
      match v.behind? ss with
      | some later => some (later ++ ts)
      | none => v.behind? ts := by
  induction ss with
  | nil => rfl
  | cons s ss ih =>
    rw [List.cons_append, behind?, behind?]
    cases afterWord? v.word s with
    | some after => rfl
    | none => exact ih

theorem Reads.append {w u : Str} {ss ts : List Str} (hw : v.Reads w ss) (hu : v.Reads u ts) :
    v.Reads (w ++ u) (ss ++ ts) := by
  refine ⟨fun rest => ?_, fun rest => ?_⟩
  · rw [List.append_assoc, hw.kept, hu.kept, List.flatMap_append, List.append_assoc]
  · have hfirst := hw.word (u ++ rest)
    have hsecond := hu.word rest
    rw [behind?_append, List.append_assoc]
    cases hbehind : v.behind? ss with
    | some later =>
      rw [hbehind] at hfirst
      obtain ⟨t, ht, hkept⟩ := hfirst
      refine ⟨t, ht, ?_⟩
      rw [hkept, hu.kept, List.flatMap_append, List.append_assoc]
    | none =>
      rw [hbehind] at hfirst
      simp only [hfirst]
      exact hsecond

theorem reads_plain {w : Str} (hopen : openTag ∉ w) (hfirst : v.first ∉ w) : v.Reads w [] :=
  ⟨fun rest => by rw [kept, tagsIn_of_notMem hopen]; rfl,
    fun rest => afterWord?_of_notMem hfirst rest⟩

theorem reads_token {w : Str} (hw : w ∈ tokens) : v.Reads w [] := by
  have hopen : ∀ w ∈ tokens, openTag ∉ w := by decide
  exact reads_plain (hopen w hw) (v.first_tokens w hw)

theorem reads_numeral {w : Str} (hw : ∀ c ∈ w, numeral c = true) : v.Reads w [] := by
  refine reads_plain (fun hmem => ?_) (fun hmem => ?_)
  · exact absurd (hw _ hmem) (by decide)
  · have := hw _ hmem
    rw [v.first_numeral] at this
    cases this

/-- A string adds what it has itself: the escapes hide nothing of it, and make nothing up. -/
theorem reads_dumpsStr (s : Str) : v.Reads (dumpsStr s) [s] := by
  have hquote : lit "\"" = [CodePoint.ofChar '"'] := by decide
  have hword : CodePoint.ofChar '"' ∉ v.word := fun hmem => (v.word_plain _ hmem).2.2.1 rfl
  have hid : v.idChar (CodePoint.ofChar '"') = false := by
    rw [Bool.eq_false_iff]
    exact fun h => (v.idChar_plain _ h).2.2.1 rfl
  have hclosed : ∀ rest, Closed v.idChar (CodePoint.ofChar '"' :: rest) :=
    closed_cons hid (by decide)
  have hescapes := escapes_dumpsPoint v.idChar_plain
  -- behind the opening quote, and what the closing quote adds
  have hopening : v.Reads (lit "\"") [] := reads_token (by decide)
  have hquoted : ∀ s rest, v.kept (s.flatMap dumpsPoint ++ CodePoint.ofChar '"' :: rest) =
      v.kept s ++ v.kept rest := by
    intro s rest
    rw [kept, tagsIn_append _ (hclosed rest), tagsIn_escape hescapes,
      tagsIn_cons_of_ne (by decide), List.filter_append]
    rfl
  have hrest : ∀ rest, afterWord? v.word (CodePoint.ofChar '"' :: rest) = afterWord? v.word rest :=
    (hquote ▸ hopening).word
  suffices hclosing : v.Reads (s.flatMap dumpsPoint ++ lit "\"") [s] by
    rw [dumpsStr, List.append_assoc]
    exact hopening.append hclosing
  rw [hquote]
  refine ⟨fun rest => ?_, fun rest => ?_⟩
  · rw [List.append_assoc, List.singleton_append, hquoted, List.flatMap_singleton]
  · rw [List.append_assoc, List.singleton_append, behind?]
    have hafter := afterWord?_escape (escapesWord_dumpsPoint v.word_plain v.first_escape) hword rest s
    change afterWord? v.word _ = match afterWord? v.word s with
      | some after => some (after.flatMap dumpsPoint ++ CodePoint.ofChar '"' :: rest)
      | none => afterWord? v.word (CodePoint.ofChar '"' :: rest) at hafter
    cases hfound : afterWord? v.word s with
    | some after =>
      rw [hfound] at hafter
      exact ⟨_, hafter, by rw [hquoted, List.flatMap_singleton]⟩
    | none =>
      rw [hfound] at hafter
      exact hafter.trans (hrest rest)

/-- An opening bracket with an item behind it, or with the closing one. This is the one place
    where a dump has a bracket that is in no string. -/
theorem Reads.bracket {c : CodePoint} {w : Str} {ss : List Str} (h : v.Reads (c :: w) ss)
    (hc : startsItem c = true) : v.Reads (lit "[" ++ c :: w) ss := by
  have hlit : lit "[" = [openTag] := by decide
  -- behind the bracket no tag begins that is kept
  have hnone : ∀ s, (runOf v.idChar v.valid (c :: s)).toList.filter v.keep = [] := by
    intro s
    have hkeep : ∀ id, (∀ d t, id = d :: t → d = c) → v.keep id = false := by
      intro id hid
      rw [Bool.eq_false_iff]
      intro hkeep
      obtain ⟨d, t, rfl, hstart⟩ := v.keep_start id hkeep
      rw [hid d t rfl, hc] at hstart
      cases hstart
    unfold runOf
    split
    · have hrun := hkeep ((c :: s).takeWhile v.idChar) fun d t heq => by
        have hpre := List.takeWhile_prefix v.idChar (l := c :: s)
        rw [heq] at hpre
        exact (List.cons_prefix_cons.mp hpre).1
      rw [Option.toList_some, List.filter_singleton, hrun]
      rfl
    · rfl
  rw [hlit]
  refine ⟨fun rest => ?_, fun rest => ?_⟩
  · rw [← h.kept rest, List.singleton_append, List.cons_append, List.cons_append,
      Vocabulary.kept, tagsIn_openTag, List.filter_append, hnone]
    rfl
  · have hskip : afterWord? v.word ([openTag] ++ c :: w ++ rest) = afterWord? v.word (c :: w ++ rest) :=
      afterWord?_of_notMem (s := [openTag]) (by simpa using v.first_openTag) (c :: w ++ rest)
    rw [hskip]
    exact h.word rest

theorem reads_member (key : Str) {w : Str} {ss : List Str} (hw : v.Reads w ss) :
    v.Reads (dumpsStr key ++ lit ": " ++ w) (key :: ss) := by
  have hcolon : v.Reads (lit ": ") [] := reads_token (by decide)
  exact ((reads_dumpsStr key).append hcolon).append hw

mutual

/-- **A dump adds what the strings of the value add.** -/
theorem reads_dumps : ∀ {j : Json}, FloatReprs j → v.Reads (dumps j) (leaves j)
  | null, _ => reads_token (by decide)
  | bool true, _ => reads_token (w := lit "true") (by decide)
  | bool false, _ => reads_token (w := lit "false") (by decide)
  | int n, _ => reads_numeral (numeral_of_mem_ofInt n)
  | float text, h => by
    rcases dumpsFloat_of_floatRepr h with hmem | ⟨-, hall⟩
    · exact reads_token (List.mem_append_right [lit "null", lit "true", lit "false"]
        (List.mem_append_left _ hmem))
    · exact reads_numeral hall
  | str s, _ => reads_dumpsStr s
  | list [], _ => Reads.bracket (c := closeTag) (w := []) (reads_token (by decide)) (by decide)
  | list (item :: items), h => by
    obtain ⟨c, t, hstart, hc⟩ := startsItem_dumps h.1
    have hitems : v.Reads (dumps item ++ (itemsTail items ++ lit "]"))
        (leaves item ++ (leavesItems items ++ [])) :=
      (reads_dumps h.1).append ((reads_itemsTail h.2).append (reads_token (by decide)))
    rw [List.append_nil] at hitems
    rw [dumps, join_items, List.append_assoc, List.append_assoc]
    rw [hstart, List.cons_append] at hitems ⊢
    exact hitems.bracket hc
  | obj [], _ => by
    have hopen : v.Reads (lit "\x7b") [] := reads_token (by decide)
    have hclose : v.Reads (lit "\x7d") [] := reads_token (by decide)
    exact hopen.append hclose
  | obj ((key, value) :: items), h => by
    have hopen : v.Reads (lit "\x7b") [] := reads_token (by decide)
    have hclose : v.Reads (lit "\x7d") [] := reads_token (by decide)
    have hmembers := (hopen.append ((reads_member key (reads_dumps h.1)).append
      (reads_membersTail h.2))).append hclose
    rw [List.nil_append, List.append_nil] at hmembers
    rw [dumps, join_members]
    exact hmembers

theorem reads_itemsTail : ∀ {items : List Json}, FloatReprsItems items →
    v.Reads (itemsTail items) (leavesItems items)
  | [], _ => reads_plain (List.not_mem_nil) (List.not_mem_nil)
  | item :: items, h => by
    have hcomma : v.Reads (lit ", ") [] := reads_token (by decide)
    exact hcomma.append ((reads_dumps h.1).append (reads_itemsTail h.2))

theorem reads_membersTail : ∀ {items : List (Str × Json)}, FloatReprsMembers items →
    v.Reads (membersTail items) (leavesMembers items)
  | [], _ => reads_plain (List.not_mem_nil) (List.not_mem_nil)
  | (key, value) :: items, h => by
    have hcomma : v.Reads (lit ", ") [] := reads_token (by decide)
    exact hcomma.append ((reads_member key (reads_dumps h.1)).append (reads_membersTail h.2))

end

/-- **What stands behind the word in a dump** has the tags of what stands behind it in the first
    string that has it, and of the later ones. -/
theorem afterWord?_dumps {j : Json} (h : FloatReprs j) :
    match v.behind? (leaves j) with
    | some later => ∃ t, afterWord? v.word (dumps j) = some t ∧ v.kept t = later.flatMap v.kept
    | none => afterWord? v.word (dumps j) = none := by
  have hword := (reads_dumps (v := v) h).word []
  rw [List.append_nil] at hword
  cases hbehind : v.behind? (leaves j) with
  | some later =>
    rw [hbehind] at hword
    obtain ⟨t, ht, hkept⟩ := hword
    exact ⟨t, ht, hkept.trans (List.append_nil _)⟩
  | none =>
    rw [hbehind] at hword
    exact hword

end Vocabulary

end Py.Json
