import AdversarialCognition.Lib.RoundTrip
import Mathlib.Data.List.TakeWhile

/-!
# Tags in a text

What `re.finditer` of a character class between brackets finds in a text, and what `partition`
leaves behind a word. Neither sees an escape: a text printed character by character, where the
characters of a tag or of the word stand for themselves, has the same tags and the same word in it
as the text that was printed (`tagsIn_escape`, `afterWord?_escape`).

## Why a scan and no grammar

The pattern of the sources is one class between two brackets, with a test on what is between
them. A match cannot have an opening bracket in it, so matches do not overlap and the
leftmost-longest rule has nothing to decide. What remains is to look behind every opening bracket
for a run of the class that ends in a closing one, and `tagsIn` does that and nothing else.

## The printed text

The programs search the dump of a payload and not its strings. For brackets and letters this makes
no difference, as JSON prints them as they are. The conditions are in `Escapes` and `EscapesWord`:
a character that is escaped begins with none that the scan is looking for. They are shown of
`dumpsPoint` in the last section.
-/

namespace Py.Str

/-- `[` -/
def openTag : CodePoint := CodePoint.ofChar '['

/-- `]` -/
def closeTag : CodePoint := CodePoint.ofChar ']'

/-- The tag at the front of what is behind an opening bracket: the longest run of the class, if
    it is one that counts and a closing bracket ends it. -/
def runOf (p : CodePoint → Bool) (valid : Str → Bool) (s : Str) : Option Str :=
  if valid (s.takeWhile p) = true ∧ (s.dropWhile p).head? = some closeTag then some (s.takeWhile p)
  else none

/-- The groups of all matches. A match has no second opening bracket in it, so that the next may
    be looked for right behind its first. -/
def tagsIn (p : CodePoint → Bool) (valid : Str → Bool) : Str → List Str
  | [] => []
  | c :: s =>
      if c = openTag then (runOf p valid s).toList ++ tagsIn p valid s else tagsIn p valid s

/-- The text behind the first occurrence of a word, as `s.partition(word)` has it. -/
def afterWord? (word : Str) : Str → Option Str
  | [] => none
  | c :: s => if word.isPrefixOf (c :: s) then some ((c :: s).drop word.length) else afterWord? word s

section Tags

variable {p : CodePoint → Bool} {valid : Str → Bool}

/-- No more of the class follows, nor what would close a tag. A text with this behind it can be
    looked at for itself. -/
def Closed (p : CodePoint → Bool) (s : Str) : Prop := (s.dropWhile p).head? ≠ some closeTag

theorem closed_nil : Closed p [] := by simp [Closed]

theorem closed_cons {c : CodePoint} (hc : p c = false) (hne : c ≠ closeTag) (s : Str) :
    Closed p (c :: s) := by
  rw [Closed, List.dropWhile_cons, hc]
  simpa using hne

theorem closed_append {s t : Str} (hs : Closed p s) (ht : Closed p t) : Closed p (s ++ t) := by
  unfold Closed at hs ⊢
  rw [List.dropWhile_append]
  split
  · exact ht
  · rename_i hne
    obtain ⟨c, u, hu⟩ := List.exists_cons_of_ne_nil (fun h => hne (List.isEmpty_iff.mpr h))
    rwa [hu] at hs ⊢

theorem tagsIn_cons_of_ne {c : CodePoint} (hc : c ≠ openTag) (s : Str) :
    tagsIn p valid (c :: s) = tagsIn p valid s := if_neg hc

theorem tagsIn_openTag (s : Str) :
    tagsIn p valid (openTag :: s) = (runOf p valid s).toList ++ tagsIn p valid s := if_pos rfl

theorem tagsIn_of_notMem {s : Str} (h : openTag ∉ s) (t : Str) :
    tagsIn p valid (s ++ t) = tagsIn p valid t := by
  induction s with
  | nil => rfl
  | cons c s ih =>
    rw [List.mem_cons, not_or] at h
    rw [List.cons_append, tagsIn_cons_of_ne (Ne.symm h.1), ih h.2]

/-- What stands behind makes no tag of an opening bracket in front, if it neither goes on with the
    class nor closes. -/
theorem runOf_append (s : Str) {t : Str} (ht : Closed p t) : runOf p valid (s ++ t) = runOf p valid s := by
  unfold runOf
  rw [List.takeWhile_append, List.dropWhile_append]
  by_cases hall : ∀ c ∈ s, p c = true
  · have hdrop : s.dropWhile p = [] := List.dropWhile_eq_nil_iff.mpr hall
    simp only [hdrop, List.isEmpty_nil, if_true]
    rw [if_neg fun h => ht h.2, if_neg fun h => by simp at h]
  · have hdrop : s.dropWhile p ≠ [] := fun h => hall (List.dropWhile_eq_nil_iff.mp h)
    have hlength : ¬ (s.takeWhile p).length = s.length := by
      intro hlength
      rw [← List.takeWhile_eq_self_iff] at hall
      exact hall ((List.takeWhile_prefix p).eq_of_length hlength)
    obtain ⟨c, u, hu⟩ := List.exists_cons_of_ne_nil hdrop
    rw [if_neg hlength, hu]
    rfl

/-- **The tags of two texts** are found one after the other. -/
theorem tagsIn_append (s : Str) {t : Str} (ht : Closed p t) :
    tagsIn p valid (s ++ t) = tagsIn p valid s ++ tagsIn p valid t := by
  induction s with
  | nil => rfl
  | cons c s ih =>
    by_cases hc : c = openTag
    · subst hc
      rw [List.cons_append, tagsIn_openTag, tagsIn_openTag, runOf_append s ht, ih, List.append_assoc]
    · rw [List.cons_append, tagsIn_cons_of_ne hc, tagsIn_cons_of_ne hc, ih]

theorem runOf_eq_some_iff (hclose : p closeTag = false) {id : Str} (hid : ∀ c ∈ id, p c = true)
    (hvalid : valid id = true) (s : Str) :
    runOf p valid s = some id ↔ ∃ rest, s = id ++ closeTag :: rest := by
  constructor
  · intro h
    unfold runOf at h
    split at h
    · rename_i hrun
      obtain rfl := Option.some.inj h
      obtain ⟨rest, hrest⟩ : ∃ rest, s.dropWhile p = closeTag :: rest := by
        cases hdrop : s.dropWhile p with
        | nil => simp [hdrop] at hrun
        | cons c rest => exact ⟨rest, by simpa [hdrop] using hrun.2⟩
      refine ⟨rest, ?_⟩
      rw [← hrest, List.takeWhile_append_dropWhile]
    · cases h
  · rintro ⟨rest, rfl⟩
    unfold runOf
    rw [List.takeWhile_append_of_pos hid, List.dropWhile_append_of_pos hid, List.takeWhile_cons,
      List.dropWhile_cons, hclose]
    simp [hvalid]

theorem runOf_bracketed {id : Str} (hid : closeTag ∉ id) (s : Str) :
    ∀ t ∈ runOf p valid (id ++ closeTag :: s), p closeTag = false → t = id := by
  intro t ht hclose
  unfold runOf at ht
  split at ht
  · rename_i hrun
    obtain rfl := Option.some.inj ht
    by_cases hall : ∀ c ∈ id, p c = true
    · rw [List.takeWhile_append_of_pos hall, List.takeWhile_cons, hclose]
      simp
    · -- what ends the run is in the text
      have hdrop : id.dropWhile p ≠ [] := fun h => hall (List.dropWhile_eq_nil_iff.mp h)
      obtain ⟨c, u, hu⟩ := List.exists_cons_of_ne_nil hdrop
      have hhead := hrun.2
      rw [List.dropWhile_append, hu] at hhead
      have hmem : c ∈ id := (List.dropWhile_suffix p).subset (hu ▸ List.mem_cons_self)
      have hc : c = closeTag := Option.some.inj hhead
      exact absurd (hc ▸ hmem) hid
  · cases ht

theorem filter_runOf_bracketed {keep : Str → Bool} (hclose : p closeTag = false)
    (hkeep : ∀ id, keep id = true → valid id = true ∧ ∀ c ∈ id, p c = true) {id : Str}
    (hid : closeTag ∉ id) (s : Str) :
    (runOf p valid (id ++ closeTag :: s)).toList.filter keep = [id].filter keep := by
  cases hrun : runOf p valid (id ++ closeTag :: s) with
  | some t =>
    rw [runOf_bracketed hid s t hrun hclose]
    rfl
  | none =>
    cases h : keep id with
    | false => rw [List.filter_singleton, h]; rfl
    | true =>
      rw [(runOf_eq_some_iff hclose (hkeep id h).2 (hkeep id h).1 _).mpr ⟨s, rfl⟩] at hrun
      cases hrun

/-- Of a text in brackets the text is found, if it is one to keep. -/
theorem filter_tagsIn_bracketed {keep : Str → Bool} (hclose : p closeTag = false)
    (hkeep : ∀ id, keep id = true → valid id = true ∧ ∀ c ∈ id, p c = true) {id : Str}
    (hopen : openTag ∉ id) (hid : closeTag ∉ id) (s : Str) :
    (tagsIn p valid (openTag :: id ++ closeTag :: s)).filter keep =
      [id].filter keep ++ (tagsIn p valid s).filter keep := by
  have hmem : openTag ∉ id ++ [closeTag] := by
    rw [List.mem_append, List.mem_singleton, not_or]
    exact ⟨hopen, by decide⟩
  have hrest : tagsIn p valid (id ++ closeTag :: s) = tagsIn p valid s := by
    have hskip : tagsIn p valid (id ++ [closeTag] ++ s) = tagsIn p valid s := tagsIn_of_notMem hmem s
    rwa [List.append_assoc] at hskip
  rw [List.cons_append, tagsIn_openTag, List.filter_append,
    filter_runOf_bracketed hclose hkeep hid, hrest]

/-- Two classes with the same words to keep find the same ones. -/
theorem filter_tagsIn_congr {q : CodePoint → Bool} {valid' keep : Str → Bool}
    (hp : p closeTag = false) (hq : q closeTag = false)
    (hkeep : ∀ id, keep id = true → (valid id = true ∧ ∀ c ∈ id, p c = true) ∧
      valid' id = true ∧ ∀ c ∈ id, q c = true) (s : Str) :
    (tagsIn p valid s).filter keep = (tagsIn q valid' s).filter keep := by
  have hrun : ∀ s, (runOf p valid s).filter keep = (runOf q valid' s).filter keep := by
    intro s
    ext id
    rw [Option.filter_eq_some_iff, Option.filter_eq_some_iff]
    refine and_congr_left fun hid => ?_
    obtain ⟨⟨hvalid, hall⟩, hvalid', hall'⟩ := hkeep id hid
    rw [runOf_eq_some_iff hp hall hvalid, runOf_eq_some_iff hq hall' hvalid']
  have hlist : ∀ o : Option Str, o.toList.filter keep = (o.filter keep).toList := by
    intro o
    cases o with
    | none => rfl
    | some id => cases h : keep id <;> simp [Option.filter, h]
  induction s with
  | nil => rfl
  | cons c s ih =>
    by_cases hc : c = openTag
    · subst hc
      rw [tagsIn_openTag, tagsIn_openTag, List.filter_append, List.filter_append, hlist, hlist,
        hrun, ih]
    · rw [tagsIn_cons_of_ne hc, tagsIn_cons_of_ne hc, ih]

/-- How characters are printed: those of a tag as themselves, and another by a text that begins
    with none of these and opens no tag. -/
structure Escapes (p : CodePoint → Bool) (esc : CodePoint → Str) : Prop where
  self : ∀ c, p c = true ∨ c = openTag ∨ c = closeTag → esc c = [c]
  other : ∀ c, p c = false → c ≠ openTag → c ≠ closeTag →
    ∃ d w, esc c = d :: w ∧ p d = false ∧ d ≠ closeTag ∧ openTag ∉ d :: w

theorem runOf_escape {esc : CodePoint → Str} (h : Escapes p esc) (s : Str) : runOf p valid (s.flatMap esc) = runOf p valid s := by
  have hspan : ∀ s : Str, (s.flatMap esc).takeWhile p = s.takeWhile p ∧
      (((s.flatMap esc).dropWhile p).head? = some closeTag ↔ (s.dropWhile p).head? = some closeTag) := by
    intro s
    induction s with
    | nil => exact ⟨rfl, Iff.rfl⟩
    | cons c s ih =>
      rw [List.flatMap_cons]
      by_cases hc : p c = true
      · rw [h.self c (.inl hc), List.singleton_append, List.takeWhile_cons, List.takeWhile_cons,
          List.dropWhile_cons, List.dropWhile_cons, hc]
        exact ⟨congrArg _ ih.1, ih.2⟩
      rw [Bool.not_eq_true] at hc
      by_cases htag : c = openTag ∨ c = closeTag
      · rw [h.self c (.inr htag), List.singleton_append, List.takeWhile_cons, List.takeWhile_cons,
          List.dropWhile_cons, List.dropWhile_cons, hc]
        exact ⟨rfl, Iff.rfl⟩
      · rw [not_or] at htag
        obtain ⟨d, w, hw, hd, hne, -⟩ := h.other c hc htag.1 htag.2
        rw [hw, List.cons_append, List.takeWhile_cons, List.takeWhile_cons, List.dropWhile_cons,
          List.dropWhile_cons, hc, hd]
        simp [hne, htag.2]
  unfold runOf
  rw [(hspan s).1]
  exact if_congr (and_congr_right' (hspan s).2) rfl rfl

/-- **A printed text has the tags of the text.** -/
theorem tagsIn_escape {esc : CodePoint → Str} (h : Escapes p esc) (s : Str) : tagsIn p valid (s.flatMap esc) = tagsIn p valid s := by
  induction s with
  | nil => rfl
  | cons c s ih =>
    rw [List.flatMap_cons]
    by_cases hc : c = openTag
    · subst hc
      rw [h.self _ (.inr (.inl rfl)), List.singleton_append, tagsIn_openTag, tagsIn_openTag,
        runOf_escape h, ih]
    rw [tagsIn_cons_of_ne hc, ← ih]
    refine tagsIn_of_notMem (fun hmem => ?_) _
    by_cases hself : p c = true ∨ c = openTag ∨ c = closeTag
    · rw [h.self c hself, List.mem_singleton] at hmem
      exact hc hmem.symm
    · simp only [not_or, Bool.not_eq_true] at hself
      obtain ⟨d, w, hw, -, -, hnone⟩ := h.other c hself.1 hself.2.1 hself.2.2
      exact hnone (hw ▸ hmem)

end Tags

/-!
## Behind a word

To look for a word in a printed text is to look for it in the text, if its characters are printed
as themselves and no escape can be taken for the beginning of it.
-/

section Word

variable {first : CodePoint} {more : Str}

theorem afterWord?_of_notMem {s : Str} (h : first ∉ s) (t : Str) :
    afterWord? (first :: more) (s ++ t) = afterWord? (first :: more) t := by
  induction s with
  | nil => rfl
  | cons c s ih =>
    rw [List.mem_cons, not_or] at h
    have hpre : (first :: more).isPrefixOf (c :: (s ++ t)) = false := by
      rw [List.isPrefixOf, beq_eq_false_iff_ne.mpr h.1, Bool.false_and]
    rw [List.cons_append, afterWord?, hpre]
    exact ih h.2

/-- A word that does not begin anew inside of itself is found right behind a text that has not got
    it. With a word of which the first character comes again the occurrence could begin before the
    end of the text. -/
theorem afterWord?_append_word (hmore : first ∉ more) (s t : Str) :
    afterWord? (first :: more) (s ++ (first :: more) ++ t) =
      match afterWord? (first :: more) s with
      | some after => some (after ++ (first :: more) ++ t)
      | none => some t := by
  -- the first letter of the word occurs in it once, so no word begins before it and ends within
  have hpre : ∀ (u s t : Str), first ∉ u → u.isPrefixOf (s ++ first :: t) = u.isPrefixOf s := by
    intro u
    induction u with
    | nil => simp
    | cons c u ih =>
      intro s t hu
      rw [List.mem_cons, not_or] at hu
      cases s with
      | nil =>
        have hfalse : (c :: u).isPrefixOf (first :: t) = false := by
          rw [List.isPrefixOf, beq_eq_false_iff_ne.mpr (Ne.symm hu.1), Bool.false_and]
        exact hfalse
      | cons d s => rw [List.cons_append, List.isPrefixOf, List.isPrefixOf, ih s t hu.2]
  rw [List.append_assoc]
  induction s with
  | nil =>
    have hself : (first :: more).isPrefixOf (first :: (more ++ t)) = true :=
      List.isPrefixOf_iff_prefix.mpr ⟨t, rfl⟩
    have hword : afterWord? (first :: more) (first :: (more ++ t)) = some t := by
      rw [afterWord?, hself, if_pos rfl]
      simp
    exact hword
  | cons c s ih =>
    have hsame : (first :: more).isPrefixOf (c :: (s ++ first :: (more ++ t))) =
        (first :: more).isPrefixOf (c :: s) := by
      rw [List.isPrefixOf, List.isPrefixOf, hpre more s _ hmore]
    rw [List.cons_append, List.cons_append, afterWord?, hsame, afterWord?]
    cases hfound : (first :: more).isPrefixOf (c :: s) with
    | true =>
      have hlength := (List.isPrefixOf_iff_prefix.mp hfound).length_le
      simp only [if_true]
      rw [← List.cons_append, List.drop_append_of_le_length hlength, List.append_assoc,
        List.cons_append]
    | false => exact ih

/-- How characters are printed: those of the word as themselves, and another by a text that does
    not go on with the word, nor begins it. -/
structure EscapesWord (word : Str) (esc : CodePoint → Str) : Prop where
  self : ∀ c ∈ word, esc c = [c]
  other : ∀ c, c ∉ word → ∃ d w, esc c = d :: w ∧ d ∉ word ∧ ∀ first ∈ word.head?, first ∉ d :: w

theorem isPrefixOf_escape {word : Str} {esc : CodePoint → Str} (h : EscapesWord word esc) {q : CodePoint}
    (hq : q ∉ word) (rest : Str) {w : Str} (hw : ∀ c ∈ w, c ∈ word) (s : Str) :
    w.isPrefixOf (s.flatMap esc ++ q :: rest) = w.isPrefixOf s ∧
      (w.isPrefixOf s = true → (s.flatMap esc ++ q :: rest).drop w.length =
        (s.drop w.length).flatMap esc ++ q :: rest) := by
  induction w generalizing s with
  | nil => exact ⟨by simp, fun _ => rfl⟩
  | cons c w ih =>
    obtain ⟨hc, hw⟩ := List.forall_mem_cons.mp hw
    cases s with
    | nil =>
      have hne : (c == q) = false := beq_eq_false_iff_ne.mpr fun heq => hq (heq ▸ hc)
      have hfalse : (c :: w).isPrefixOf (q :: rest) = false := by
        rw [List.isPrefixOf, hne, Bool.false_and]
      exact ⟨hfalse, fun h => nomatch h⟩
    | cons d s =>
      rw [List.flatMap_cons]
      by_cases hd : d ∈ word
      · rw [h.self d hd, List.singleton_append, List.cons_append, List.isPrefixOf, List.isPrefixOf,
          (ih hw s).1]
        refine ⟨rfl, fun hpre => ?_⟩
        rw [Bool.and_eq_true] at hpre
        exact (ih hw s).2 hpre.2
      · obtain ⟨e, u, hu, he, -⟩ := h.other d hd
        have hne : (c == e) = false := beq_eq_false_iff_ne.mpr fun heq => he (heq ▸ hc)
        have hne' : (c == d) = false := beq_eq_false_iff_ne.mpr fun heq => hd (heq ▸ hc)
        rw [hu, List.cons_append, List.cons_append, List.isPrefixOf, List.isPrefixOf, hne, hne']
        exact ⟨rfl, fun h => nomatch h⟩

/-- **A printed text has the word where the text has it**, and nowhere else. What is behind it is
    the printed form of what is behind it in the text. -/
theorem afterWord?_escape {esc : CodePoint → Str} (h : EscapesWord (first :: more) esc)
    {q : CodePoint} (hq : q ∉ first :: more) (rest s : Str) :
    afterWord? (first :: more) (s.flatMap esc ++ q :: rest) =
      match afterWord? (first :: more) s with
      | some after => some (after.flatMap esc ++ q :: rest)
      | none => afterWord? (first :: more) (q :: rest) := by
  induction s with
  | nil => rfl
  | cons c s ih =>
    obtain ⟨hpre, hdrop⟩ := isPrefixOf_escape h hq rest (fun _ hc => hc) (c :: s)
    obtain ⟨d, w, hw⟩ : ∃ d w, (c :: s).flatMap esc ++ q :: rest = d :: w := by
      rw [List.flatMap_cons]
      by_cases hc : c ∈ first :: more
      · rw [h.self c hc]
        exact ⟨_, _, rfl⟩
      · obtain ⟨d, w, hw, -⟩ := h.other c hc
        rw [hw]
        exact ⟨_, _, rfl⟩
    rw [afterWord?]
    cases hfound : (first :: more).isPrefixOf (c :: s) with
    | true =>
      rw [hfound] at hpre
      have hafter := hdrop hfound
      rw [hw] at hpre hafter ⊢
      rw [afterWord?, hpre, if_pos rfl, if_pos rfl, hafter]
    | false =>
      rw [hfound] at hpre
      -- the first of the word is not in what the character is printed as, or is all of it
      have hskip : afterWord? (first :: more) ((c :: s).flatMap esc ++ q :: rest) =
          afterWord? (first :: more) (s.flatMap esc ++ q :: rest) := by
        by_cases hc : c ∈ first :: more
        · rw [List.flatMap_cons, h.self c hc, List.singleton_append, List.cons_append] at hpre ⊢
          rw [afterWord?, hpre]
          rfl
        · obtain ⟨d, w, hw, -, hnone⟩ := h.other c hc
          rw [List.flatMap_cons, hw, List.append_assoc]
          exact afterWord?_of_notMem (hnone first rfl) _
      rw [hskip, ih]
      rfl

end Word

/-!
## In a string of JSON

The escapes of JSON are made of few characters, and these are named here. A class without quotes
and backslashes is printed as it is.
-/

section Dumps

open Json (dumpsPoint)

/-- A character of an escape. -/
def escapeChar (c : CodePoint) : Bool :=
  c.val = 0x22 || c.val = 0x5C || c.val = 0x2F || (0x30 ≤ c.val && c.val ≤ 0x39) ||
    (0x61 ≤ c.val && c.val ≤ 0x7A)

theorem escapeChar_hexDigit (n : ℕ) : escapeChar (hexDigit n) = true := by
  unfold hexDigit
  by_cases h : n % 16 < 10
  · have hval : (Fin.ofNat 0x110000 (0x30 + n % 16)).val = 0x30 + n % 16 :=
      Nat.mod_eq_of_lt (by omega)
    rw [if_pos h]
    simp only [escapeChar, hval, Bool.or_eq_true, Bool.and_eq_true, decide_eq_true_eq]
    omega
  · have hval : (Fin.ofNat 0x110000 (0x57 + n % 16)).val = 0x57 + n % 16 :=
      Nat.mod_eq_of_lt (by omega)
    rw [if_neg h]
    simp only [escapeChar, hval, Bool.or_eq_true, Bool.and_eq_true, decide_eq_true_eq]
    omega

theorem dumpsPoint_cases (c : CodePoint) : dumpsPoint c = [c] ∧ c.val ≠ 0x22 ∧ c.val ≠ 0x5C ∨
    ∃ w, dumpsPoint c = CodePoint.ofChar '\\' :: w ∧ ∀ d ∈ w, escapeChar d = true := by
  have hhex : ∀ n, ∀ d ∈ hex 4 n, escapeChar d = true := by
    intro n d hd
    obtain ⟨i, -, rfl⟩ := List.mem_map.mp hd
    exact escapeChar_hexDigit _
  have hlit : lit "\\u" = [CodePoint.ofChar '\\', CodePoint.ofChar 'u'] := by decide
  have hu : escapeChar (CodePoint.ofChar 'u') = true := by decide
  have hslash : escapeChar (CodePoint.ofChar '\\') = true := by decide
  have hprinted := Json.printed_dumpsPoint c
  -- by the form in which the character is printed
  generalize dumpsPoint c = w at hprinted ⊢
  cases hprinted with
  | letter he hv =>
    rename_i e
    refine .inr ⟨_, rfl, List.forall_mem_singleton.mpr ?_⟩
    unfold Json.simpleEscape? at hv
    simp only [escapeChar, Bool.or_eq_true, Bool.and_eq_true, decide_eq_true_eq]
    split_ifs at hv <;> omega
  | plain hquote hback hlow => exact .inl ⟨rfl, hquote, hback⟩
  | escape h =>
    rw [hlit]
    refine .inr ⟨CodePoint.ofChar 'u' :: hex 4 c.val, rfl, ?_⟩
    exact List.forall_mem_cons.mpr ⟨hu, hhex _⟩
  | halves h =>
    rw [hlit]
    refine .inr ⟨CodePoint.ofChar 'u' :: (hex 4 (0xD800 + (c.val - 0x10000) / 0x400) ++
      CodePoint.ofChar '\\' :: CodePoint.ofChar 'u' :: hex 4 (0xDC00 + (c.val - 0x10000) % 0x400)),
      by simp, ?_⟩
    refine List.forall_mem_cons.mpr ⟨hu, List.forall_mem_append.mpr ⟨hhex _, ?_⟩⟩
    exact List.forall_mem_cons.mpr ⟨hslash, List.forall_mem_cons.mpr ⟨hu, hhex _⟩⟩

/-- Printable ASCII stands for itself, but for a quote and a backslash. -/
theorem dumpsPoint_plain {c : CodePoint} (hlow : 0x20 ≤ c.val) (hhigh : c.val ≤ 0x7E)
    (hquote : c.val ≠ 0x22) (hback : c.val ≠ 0x5C) : dumpsPoint c = [c] := by
  rw [dumpsPoint, if_neg hquote, if_neg hback, if_neg (by omega), if_neg (by omega),
    if_neg (by omega), if_neg (by omega), if_neg (by omega), if_pos ⟨hlow, hhigh⟩]

/-- A class of printable characters without quotes and backslashes. -/
def PlainClass (p : CodePoint → Bool) : Prop :=
  ∀ c, p c = true → 0x20 ≤ c.val ∧ c.val ≤ 0x7E ∧ c.val ≠ 0x22 ∧ c.val ≠ 0x5C

theorem escapes_dumpsPoint {p : CodePoint → Bool} (hp : PlainClass p) : Escapes p dumpsPoint := by
  have hslash : p (CodePoint.ofChar '\\') = false := by
    rw [Bool.eq_false_iff]
    exact fun h => (hp _ h).2.2.2 rfl
  refine ⟨?_, ?_⟩
  · rintro c (hc | rfl | rfl)
    · exact dumpsPoint_plain (hp c hc).1 (hp c hc).2.1 (hp c hc).2.2.1 (hp c hc).2.2.2
    · exact dumpsPoint_plain (by decide) (by decide) (by decide) (by decide)
    · exact dumpsPoint_plain (by decide) (by decide) (by decide) (by decide)
  · intro c hc hopen hclose
    rcases dumpsPoint_cases c with ⟨hself, -⟩ | ⟨w, hw, hall⟩
    · exact ⟨c, [], hself, hc, hclose, fun hmem => hopen (List.mem_singleton.mp hmem).symm⟩
    · refine ⟨_, w, hw, hslash, by decide, fun hmem => ?_⟩
      rcases List.mem_cons.mp hmem with heq | hmem
      · exact absurd heq (by decide)
      · exact absurd (hall _ hmem) (by decide)

/-- A word of printable characters, that no escape has the beginning of. -/
theorem escapesWord_dumpsPoint {first : CodePoint} {more : Str}
    (hplain : ∀ c ∈ first :: more, 0x20 ≤ c.val ∧ c.val ≤ 0x7E ∧ c.val ≠ 0x22 ∧ c.val ≠ 0x5C)
    (hfirst : escapeChar first = false) : EscapesWord (first :: more) dumpsPoint := by
  refine ⟨fun c hc => ?_, fun c hc => ?_⟩
  · obtain ⟨hlow, hhigh, hquote, hback⟩ := hplain c hc
    exact dumpsPoint_plain hlow hhigh hquote hback
  · have hne : first ≠ c := fun h => hc (h ▸ List.mem_cons_self)
    rcases dumpsPoint_cases c with ⟨hself, -⟩ | ⟨w, hw, hall⟩
    · refine ⟨c, [], hself, hc, fun d hd => ?_⟩
      obtain rfl := Option.some.inj hd
      simpa using hne
    · refine ⟨_, w, hw, fun hmem => (hplain _ hmem).2.2.2 rfl, fun d hd hmem => ?_⟩
      obtain rfl := Option.some.inj hd
      rcases List.mem_cons.mp hmem with heq | hmem
      · rw [heq] at hfirst
        exact absurd hfirst (by decide)
      · rw [hall _ hmem] at hfirst
        cases hfirst

end Dumps

end Py.Str
