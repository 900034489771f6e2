import AdversarialCognition.Lib.Str

/-!
# Short string literals

A string literal of SPARQL on one line: two quotation marks, and between them characters other
than the quotation mark, the backslash and the ends of a line, and escapes, which are a backslash
with one of eight characters behind it. `readString` reads such a literal off a text.

Whoever prints a literal has four characters to escape. `quoted` escapes two of them, as a program
does that has learnt of quotation marks and not of lines. So what it prints of a text with a line
end in it is no literal, whatever comes behind, and every other text is read back as it was
(`readString_quoted`).

## What is left out

The long strings in three quotation marks are left out, and so are the escapes by number, which
are taken out of a text before it is read. Neither is ever printed. A text that begins with two
quotation marks cannot be taken for the beginning of a long string here, as both are escaped.

Only LF and CR are the ends of a line. The other characters at which Python ends one may stand in
a literal.
-/

namespace Py.Literal

open Str

def quotationMark : CodePoint := CodePoint.ofChar '"'

def backslash : CodePoint := CodePoint.ofChar '\\'

/-- LF or CR. -/
def IsLineEnd (c : CodePoint) : Prop := c.val = 0x0A ∨ c.val = 0x0D

instance (c : CodePoint) : Decidable (IsLineEnd c) := inferInstanceAs (Decidable (_ ∨ _))

/-- What stands for itself behind a backslash, and what stands there for another. Any other
    character behind a backslash makes the text no literal. -/
def escape? (c : CodePoint) : Option CodePoint :=
  if c = quotationMark ∨ c = backslash ∨ c.val = 0x27 then some c
  else if c = CodePoint.ofChar 't' then some (CodePoint.ofChar (Char.ofNat 0x09))
  else if c = CodePoint.ofChar 'b' then some (CodePoint.ofChar (Char.ofNat 0x08))
  else if c = CodePoint.ofChar 'n' then some (CodePoint.ofChar (Char.ofNat 0x0A))
  else if c = CodePoint.ofChar 'r' then some (CodePoint.ofChar (Char.ofNat 0x0D))
  else if c = CodePoint.ofChar 'f' then some (CodePoint.ofChar (Char.ofNat 0x0C))
  else none

/-- The text behind the first quotation mark, up to the last one, and what follows that. -/
def readBody : Str → Option (Str × Str)
  | [] => none
  | c :: rest =>
      if c = quotationMark then some ([], rest)
      else if c = backslash then
        match rest with
        | [] => none
        | d :: rest => do
            let stands ← escape? d
            let (value, after) ← readBody rest
            return (stands :: value, after)
      else if IsLineEnd c then none
      else do
        let (value, after) ← readBody rest
        return (c :: value, after)

/-- A literal at the front of a text, and what follows it. -/
def readString : Str → Option (Str × Str)
  | [] => none
  | c :: rest => if c = quotationMark then readBody rest else none

/-- `s.replace("\\", "\\\\").replace('"', '\\"')` -/
def escaped (s : Str) : Str :=
  s.flatMap fun c => if c = quotationMark ∨ c = backslash then [backslash, c] else [c]

/-- What a program prints that escapes the quotation mark and the backslash, the backslash first. -/
def quoted (s : Str) : Str := quotationMark :: (escaped s ++ [quotationMark])

/-- The text has no line end in it. -/
def OnOneLine (s : Str) : Prop := ∀ c ∈ s, ¬ IsLineEnd c

instance (s : Str) : Decidable (OnOneLine s) := inferInstanceAs (Decidable (∀ c ∈ s, _))

/-- The characters of a literal of the program are read off it. -/
theorem onOneLine_ofList {cs : List Char}
    (h : (cs.all fun c => decide (¬ IsLineEnd (CodePoint.ofChar c))) = true) :
    OnOneLine (lit (String.ofList cs)) := by
  rw [OnOneLine, lit, String.toList_ofList]
  exact List.forall_mem_map.2 fun c hc => of_decide_eq_true (List.all_eq_true.1 h c hc)

theorem readBody_escape {c : CodePoint} (h : c = quotationMark ∨ c = backslash) (rest : Str) :
    readBody (backslash :: c :: rest) = (readBody rest).map fun read => (c :: read.1, read.2) := by
  have hstands : escape? c = some c := if_pos (h.imp_right .inl)
  rw [readBody.eq_def]
  dsimp only
  rw [if_neg (by decide), if_pos rfl, hstands]
  cases readBody rest with
  | none => rfl
  | some read => rfl

theorem readBody_plain {c : CodePoint} (h : ¬ (c = quotationMark ∨ c = backslash))
    (hline : ¬ IsLineEnd c) (rest : Str) :
    readBody (c :: rest) = (readBody rest).map fun read => (c :: read.1, read.2) := by
  rw [not_or] at h
  rw [readBody.eq_def]
  dsimp only
  rw [if_neg h.1, if_neg h.2, if_neg hline]
  cases readBody rest with
  | none => rfl
  | some read => rfl

/-- **What is escaped is read back, or not at all**: the first line end is in the way. What comes
    behind the literal has no part in this, so no continuation can repair it. -/
theorem readBody_escaped (s rest : Str) :
    readBody (escaped s ++ quotationMark :: rest) =
      if OnOneLine s then some (s, rest) else none := by
  induction s with
  | nil =>
    have hnil : OnOneLine [] := List.forall_mem_nil _
    rw [if_pos hnil, escaped, List.flatMap_nil, List.nil_append, readBody.eq_def]
    exact if_pos rfl
  | cons c s ih =>
    rw [escaped, List.flatMap_cons, List.append_assoc, ← escaped]
    by_cases hspecial : c = quotationMark ∨ c = backslash
    · -- an escape, of a character that is no line end
      have hline : ¬ IsLineEnd c := by
        rcases hspecial with rfl | rfl
        · decide
        · decide
      have hcons : OnOneLine (c :: s) ↔ OnOneLine s :=
        List.forall_mem_cons.trans (and_iff_right hline)
      rw [if_pos hspecial, List.cons_append, List.cons_append, List.nil_append,
        readBody_escape hspecial, ih, if_congr hcons rfl rfl]
      split <;> rfl
    · rw [if_neg hspecial, List.singleton_append]
      -- a character that is not escaped is read as it is, unless it ends the line
      by_cases hline : IsLineEnd c
      · have hnot : ¬ OnOneLine (c :: s) := fun h => h c List.mem_cons_self hline
        rw [not_or] at hspecial
        rw [if_neg hnot, readBody.eq_def]
        dsimp only
        rw [if_neg hspecial.1, if_neg hspecial.2, if_pos hline]
      · have hcons : OnOneLine (c :: s) ↔ OnOneLine s :=
          List.forall_mem_cons.trans (and_iff_right hline)
        rw [readBody_plain hspecial hline, ih, if_congr hcons rfl rfl]
        split <;> rfl

/-- **A literal that was printed so is read back as its text, if that is on one line**, and is no
    literal if not. -/
theorem readString_quoted (s rest : Str) :
    readString (quoted s ++ rest) = if OnOneLine s then some (s, rest) else none := by
  rw [quoted, List.cons_append, List.append_assoc, List.singleton_append, readString, if_pos rfl]
  exact readBody_escaped s rest

end Py.Literal
