import AdversarialCognition.Lib.Untyped

/-!
# Texts on one line

What the interpreter prints of a value or says of an error is on one line: `repr` escapes a
newline, and nothing else it prints has one. So the text of an exception that was raised while a
value of unknown type was read has none either, whatever the value.

The sources cut an error down to its first line, or print it into a file that is one record to a
line. For a text of which this module knows that it is on one line, the first does nothing and the
second keeps the record in one piece. Only a newline is spoken of. Where a table is read back by a
reader that knows of other line breaks, those are dealt with where the table is.
-/

namespace Py

open Str

/-!
## Lines

The texts of the interpreter are put together of literals, numerals and `repr`s, and each of these
is on one line.
-/

/-- The text has no newline. -/
def Str.OneLine (s : Str) : Prop := CodePoint.ofChar '\n' ∉ s

section OneLine

variable {s t : Str}

theorem oneLine_ofList {cs : List Char} (h : '\n' ∉ cs) : OneLine (lit (String.ofList cs)) := by
  rw [OneLine, lit, String.toList_ofList]
  intro hmem
  obtain ⟨c, hc, heq⟩ := List.mem_map.1 hmem
  rw [ofChar_injective heq] at hc
  exact h hc

@[simp] theorem oneLine_append : OneLine (s ++ t) ↔ OneLine s ∧ OneLine t := by
  simp only [OneLine, List.mem_append, not_or]

theorem Str.OneLine.take (h : OneLine s) (n : ℕ) : OneLine (s.take n) :=
  fun hmem => h (List.mem_of_mem_take hmem)

theorem oneLine_flatten {l : List Str} (h : ∀ s ∈ l, OneLine s) : OneLine l.flatten := by
  intro hmem
  obtain ⟨s, hs, hc⟩ := List.mem_flatten.1 hmem
  exact h s hs hc

theorem oneLine_intersperse {sep : Str} (hsep : OneLine sep) : ∀ {l : List Str},
    (∀ s ∈ l, OneLine s) → ∀ s ∈ l.intersperse sep, OneLine s
  | [], _ => by simp
  | [a], h => by simpa using h
  | a :: b :: l, h => by
    rw [List.intersperse_cons_cons]
    intro s hs
    rcases List.mem_cons.1 hs with rfl | hs
    · exact h _ List.mem_cons_self
    rcases List.mem_cons.1 hs with rfl | hs
    · exact hsep
    · exact oneLine_intersperse hsep (fun t ht => h t (List.mem_cons_of_mem _ ht)) s hs

theorem oneLine_ofNat (n : ℕ) : OneLine (ofNat n) :=
  fun hmem => absurd (isDigit_of_mem_ofNat hmem) (by decide)

theorem oneLine_hex (width n : ℕ) : OneLine (hex width n) := by
  intro hmem
  obtain ⟨i, -, hdigit⟩ := List.mem_map.1 hmem
  have hval := congrArg Fin.val hdigit
  have hnewline : (CodePoint.ofChar '\n').val = 10 := rfl
  rw [hnewline] at hval
  unfold hexDigit at hval
  split at hval <;> simp only [Fin.ofNat] at hval <;> omega

variable [Runtime]

theorem oneLine_reprPoint {quote : CodePoint} (hquote : quote ≠ CodePoint.ofChar '\n')
    (c : CodePoint) : OneLine (reprPoint quote c) := by
  have hescape : ∀ {cs : List Char} (width n : ℕ), '\n' ∉ cs →
      OneLine (lit (String.ofList cs) ++ hex width n) := by
    intro cs width n h
    exact oneLine_append.2 ⟨oneLine_ofList h, oneLine_hex width n⟩
  have hsingle : ∀ {p : Prop}, (c = CodePoint.ofChar '\n' → p) → ¬ p → OneLine [c] := by
    intro p hc hp hmem
    exact hp (hc (List.mem_singleton.1 hmem).symm)
  unfold reprPoint
  split
  -- the quote and the backslash are printed behind a backslash
  · rename_i h
    have hc : c ≠ CodePoint.ofChar '\n' := by
      cases h with
      | inl heq => exact heq ▸ hquote
      | inr hbackslash =>
        intro heq
        rw [heq] at hbackslash
        exact absurd hbackslash (by decide)
    intro hmem
    simp only [List.mem_cons, List.not_mem_nil, or_false] at hmem
    exact hmem.elim (by decide) fun heq => hc heq.symm
  split
  · exact oneLine_ofList (by decide)
  split
  · exact oneLine_ofList (by decide)
  -- from here on the character is no newline, and may be printed as it is
  rename_i hnewline
  have hc : OneLine [c] := hsingle (fun heq => by rw [heq]; rfl) hnewline
  split
  · exact oneLine_ofList (by decide)
  split
  · exact hescape 2 _ (by decide)
  split
  · exact hc
  split
  · exact hc
  split
  · exact hescape 2 _ (by decide)
  split
  · exact hescape 4 _ (by decide)
  · exact hescape 8 _ (by decide)

/-- **A `repr` is on one line**, and so is every error text that quotes its value. -/
theorem oneLine_repr (s : Str) : OneLine s.repr := by
  have hquoted : ∀ quote : CodePoint, quote ≠ CodePoint.ofChar '\n' →
      OneLine ([quote] ++ s.flatMap (reprPoint quote) ++ [quote]) := by
    intro quote hquote
    have hends : OneLine [quote] := fun hmem => hquote (List.mem_singleton.1 hmem).symm
    refine oneLine_append.2 ⟨oneLine_append.2 ⟨hends, ?_⟩, hends⟩
    intro hmem
    obtain ⟨c, -, hc⟩ := List.mem_flatMap.1 hmem
    exact oneLine_reprPoint hquote c hc
  unfold Str.repr
  refine hquoted _ ?_
  split <;> decide

end OneLine

/-!
## What the decoder says

The errors of the scanners, by the induction that the scanners are defined by.
-/

namespace Json

def LoadError.Plain : LoadError → Prop
  | .decode => True
  | .value text => OneLine text
  | .recursion text => OneLine text

theorem raises_decode {α : Type} : Raises LoadError.Plain (.error .decode : Except LoadError α) := by
  apply raises_error
  exact trivial

theorem raises_scanString (n : ℕ) (s : Str) : Raises LoadError.Plain (scanString n s) := by
  induction n generalizing s with
  | zero =>
    unfold scanString
    exact raises_decode
  | succ n ih =>
    have hmore : ∀ c rest, Raises LoadError.Plain (scanString.more n c rest) := by
      intro c rest
      unfold scanString.more
      exact (ih rest).bind fun _ => raises_ok _
    cases s with
    | nil =>
      unfold scanString
      exact raises_decode
    | cons c rest =>
      unfold scanString
      -- each branch is the decoder's error, or goes on
      repeat' first
        | exact raises_decode
        | exact raises_ok _
        | exact hmore _ _
        | split

theorem raises_intOf (text : Str) : Raises LoadError.Plain (intOf text) := by
  unfold intOf
  dsimp only
  split
  · refine raises_error ?_
    simp only [LoadError.Plain, oneLine_append]
    exact ⟨⟨oneLine_ofList (by decide), oneLine_ofNat _⟩, oneLine_ofList (by decide)⟩
  · exact raises_ok _

section Scan

variable [Decoder]

theorem raises_scanNumber (s : Str) : Raises LoadError.Plain (scanNumber s) := by
  unfold scanNumber
  split
  · exact raises_decode
  · dsimp only
    split
    · exact (raises_intOf _).bind fun _ => raises_ok _
    · exact raises_ok _

omit [Decoder] in
theorem raises_tooDeep {α : Type} {cs : List Char} (h : '\n' ∉ cs) :
    Raises LoadError.Plain (.error (tooDeep (String.ofList cs)) : Except LoadError α) := by
  apply raises_error
  simp only [tooDeep, LoadError.Plain, oneLine_append]
  exact ⟨⟨oneLine_ofList (by decide), oneLine_ofList h⟩, oneLine_ofList (by decide)⟩

/-- All three scanners at once, by induction on the fuel: what they raise is the error without a
    text, or that of a scanner below. -/
theorem raises_scan (n : ℕ) : (∀ room s, Raises LoadError.Plain (scanOnce n room s)) ∧
    (∀ room s, Raises LoadError.Plain (scanItems n room s)) ∧
      ∀ room items s, Raises LoadError.Plain (scanMembers n room items s) := by
  induction n with
  -- without fuel nothing is raised but the plain decoding error
  | zero =>
    exact ⟨fun _ _ => raises_decode, fun _ _ => raises_decode,
      fun _ _ _ => raises_decode⟩
  | succ n ih =>
    obtain ⟨honce, hitems, hmembers⟩ := ih
    refine ⟨fun room s => ?_, fun room s => ?_, fun room items s => ?_⟩
    · cases s with
      | nil => exact raises_decode
      | cons c rest =>
        unfold scanOnce
        repeat' first
          | exact raises_decode
          | exact raises_ok _
          | exact raises_scanNumber _
          | exact raises_tooDeep (by decide)
          | exact (raises_scanString _ _).bind fun _ => raises_ok _
          | exact (hmembers _ _ _).bind fun _ => raises_ok _
          | exact (hitems _ _).bind fun _ => raises_ok _
          | split
    · unfold scanItems
      refine (honce room s).bind fun found => ?_
      repeat' first
        | exact raises_decode
        | exact raises_ok _
        | exact (hitems _ _).bind fun _ => raises_ok _
        | split
    · cases s with
      | nil => exact raises_decode
      | cons c rest =>
        unfold scanMembers
        split
        · refine (raises_scanString _ _).bind fun key => ?_
          repeat' first
            | exact raises_decode
            | exact raises_ok _
            | exact hmembers _ _ _
            | refine (honce _ _).bind fun _ => ?_
            | split
        · exact raises_decode

/-- **What `loads` raises is on one line.** -/
theorem raises_loads (text : Str) : Raises LoadError.Plain (loads text) := by
  unfold loads
  refine raises_ite raises_decode (((raises_scan _).1 _ _).bind fun found => ?_)
  exact raises_ite (raises_ok _) raises_decode

end Scan

/-!
## What the built-ins say

The same of what is raised where a value is not of the type that was expected. A program is put
together from these by the rules of `Raises`.
-/

/-- The text of the exception is on one line. -/
def PlainError (e : Raised) : Prop := OneLine e.text

theorem oneLine_typeName (value : Json) : OneLine value.typeName := by
  cases value <;> exact oneLine_ofList (by decide)

theorem oneLine_decodeFault (fault : DecodeFault) : OneLine fault.text := by
  have hmessage : OneLine fault.message.text := by
    cases fault.message <;> exact oneLine_ofList (by decide)
  simp only [DecodeFault.text, oneLine_append]
  refine ⟨⟨⟨⟨⟨⟨⟨hmessage, ?_⟩, oneLine_ofNat _⟩, ?_⟩, oneLine_ofNat _⟩, ?_⟩, oneLine_ofNat _⟩, ?_⟩
  all_goals exact oneLine_ofList (by decide)

theorem raises_literal {α : Type} (exnClass : ExnClass) {cs : List Char} (h : '
' ∉ cs) :
    Raises PlainError (.error ⟨exnClass, lit (String.ofList cs)⟩ : Except Raised α) := by
  apply raises_error
  exact oneLine_ofList h

theorem raises_getOr (value : Json) (key : String) (default : Json) :
    Raises PlainError (value.getOr key default) := by
  have htext : OneLine (lit "'" ++ value.typeName ++ lit "' object has no attribute 'get'") := by
    simp only [oneLine_append]
    exact ⟨⟨oneLine_ofList (by decide), oneLine_typeName value⟩, oneLine_ofList (by decide)⟩
  cases value with
  | obj items => exact raises_ok _
  | _ =>
    apply raises_error
    exact htext

theorem raises_items (value : Json) : Raises PlainError value.items := by
  have htext : OneLine (lit "'" ++ value.typeName ++ lit "' object is not iterable") := by
    simp only [oneLine_append]
    exact ⟨⟨oneLine_ofList (by decide), oneLine_typeName value⟩, oneLine_ofList (by decide)⟩
  cases value with
  | list items => exact raises_ok _
  | obj items => exact raises_ok _
  | str s => exact raises_ok _
  | _ =>
    apply raises_error
    exact htext

theorem raises_parse [Numerics] (text : Str) : Raises PlainError (parse text) := by
  unfold parse
  split
  · exact raises_ok _
  · apply raises_error
    exact oneLine_decodeFault _
  · rename_i message hloads
    apply raises_error
    exact raises_loads text _ hloads
  · rename_i message hloads
    apply raises_error
    exact raises_loads text _ hloads

section Runtime

variable [Runtime]

theorem oneLine_repr_strs (l : List Str) : OneLine (Json.list (l.map .str)).repr := by
  have hitems : ∀ l : List Str, reprItems (l.map .str) = l.map Str.repr := by
    intro l
    induction l with
    | nil => rfl
    | cons s l ih => rw [List.map_cons, reprItems, ih, List.map_cons, Json.repr]
  rw [Json.repr, hitems]
  refine oneLine_append.2 ⟨oneLine_append.2 ⟨oneLine_ofList (by decide), ?_⟩,
    oneLine_ofList (by decide)⟩
  refine oneLine_flatten (oneLine_intersperse (oneLine_ofList (by decide)) fun s hs => ?_)
  obtain ⟨t, -, rfl⟩ := List.mem_map.1 hs
  exact oneLine_repr t

theorem raises_subscript (value : Json) (key : String) :
    Raises PlainError (value.subscript key) := by
  have htext : OneLine (lit "'" ++ value.typeName ++ lit "' object is not subscriptable") := by
    simp only [oneLine_append]
    exact ⟨⟨oneLine_ofList (by decide), oneLine_typeName value⟩, oneLine_ofList (by decide)⟩
  cases value with
  | obj items =>
    unfold subscript
    dsimp only
    split
    · exact raises_ok _
    · apply raises_error
      exact oneLine_repr _
  | list items => exact raises_literal _ (by decide)
  | str s => exact raises_literal _ (by decide)
  | _ =>
    apply raises_error
    exact htext

variable [Numerics]

theorem raises_toFloat (value : Json) : Raises PlainError value.toFloat := by
  have hinteger : ∀ n : ℤ, Raises PlainError (toFloat.ofInteger n) := by
    intro n
    unfold toFloat.ofInteger
    split
    · exact raises_ok _
    · exact raises_literal _ (by decide)
  have htext : OneLine (lit "float() argument must be a string or a real number, not '" ++
      value.typeName ++ lit "'") := by
    simp only [oneLine_append]
    exact ⟨⟨oneLine_ofList (by decide), oneLine_typeName value⟩, oneLine_ofList (by decide)⟩
  cases value with
  | int n => exact hinteger n
  | bool b => exact hinteger _
  | float text => exact raises_ok _
  | str s =>
    unfold toFloat
    dsimp only
    split
    · exact raises_ok _
    · apply raises_error
      exact oneLine_append.2 ⟨oneLine_ofList (by decide), oneLine_repr s⟩
  | _ =>
    apply raises_error
    exact htext

end Runtime

end Json

end Py
