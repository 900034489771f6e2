import AdversarialCognition.Lib.RoundTrip
import Mathlib.Data.List.TakeWhile

/-!
# Scalars

What the reader takes off the front of a text that begins with no quote, bracket or brace. It is a
constant or a number, and there is no quote, bracket or brace in it (`scanOnce_bare`). So a text
that begins so and has one later is no JSON, and there is one way only for the reader to raise
what is no `JSONDecodeError`: the text begins with an integer of more than 4300 digits
(`loads_bare`).

This is for a program that is given an answer in prose, tries the whole of it as JSON and falls
back to a part in brackets. Whether it gets as far as that depends on the first character of the
answer that is not white space and, for a digit or a sign, on how many digits there are. The
nesting has no part in it: a text that begins with no bracket raises a `JSONDecodeError` before it
comes to one.
-/

namespace Py.Json

open Str

/-- No quote, bracket or brace. -/
def Bare (c : CodePoint) : Prop :=
  c.val ≠ 0x22 ∧ c.val ≠ 0x5B ∧ c.val ≠ 0x5D ∧ c.val ≠ 0x7B ∧ c.val ≠ 0x7D

instance (c : CodePoint) : Decidable (Bare c) := inferInstanceAs (Decidable (_ ∧ _))

/-- A character of a numeral. -/
def numeric (c : CodePoint) : Bool :=
  isDigit c || c.val = 0x2D || c.val = 0x2B || c.val = 0x2E || c.val = 0x65 || c.val = 0x45

theorem numeric_of_isDigit {c : CodePoint} (h : isDigit c = true) : numeric c = true := by
  simp [numeric, h]

theorem bare_of_numeric {c : CodePoint} (h : numeric c = true) : Bare c := by
  simp only [numeric, isDigit, Bool.or_eq_true, Bool.and_eq_true, decide_eq_true_eq] at h
  unfold Bare
  omega

theorem isspace_of_numeric {c : CodePoint} (h : numeric c = true) : isspace c = false := by
  simp only [numeric, isDigit, Bool.or_eq_true, Bool.and_eq_true, decide_eq_true_eq] at h
  simp only [isspace, Bool.or_eq_false_iff, Bool.and_eq_false_imp, decide_eq_true_eq,
    decide_eq_false_iff_not]
  omega

/-!
## Numbers

What the number scanner takes is in the characters of a numeral. It raises what is no
`JSONDecodeError` for one reason, and this can be seen from the beginning of the text.
-/

theorem scanInt_consumes {s integer rest : Str} (h : scanInt s = some (integer, rest)) :
    s = integer ++ rest ∧ ∀ c ∈ integer, numeric c = true := by
  obtain ⟨sign, t, rfl, hsign, hscan⟩ := exists_scanDigits h
  have hnumeric : ∀ c ∈ sign, numeric c = true := by
    rcases hsign with rfl | rfl
    · exact List.forall_mem_nil _
    · exact List.forall_mem_singleton.2 (by decide)
  cases t with
  | nil => cases hscan
  | cons c t =>
    rcases scanDigits_cons_eq_some_iff.1 hscan with ⟨hzero, rfl, rfl⟩ | ⟨-, hdigit, rfl, rfl⟩
    · have hc : numeric c = true := by simp [numeric, isDigit, hzero]
      exact ⟨by simp, List.forall_mem_append.2 ⟨hnumeric, List.forall_mem_singleton.2 hc⟩⟩
    · have hmore : ∀ d ∈ t.takeWhile isDigit, numeric d = true := fun d hd =>
        numeric_of_isDigit (List.mem_takeWhile_imp hd)
      exact ⟨by simp, List.forall_mem_append.2 ⟨hnumeric,
        List.forall_mem_cons.2 ⟨numeric_of_isDigit hdigit, hmore⟩⟩⟩

theorem scanFraction_consumes (s : Str) :
    s = (scanFraction s).1 ++ (scanFraction s).2 ∧ ∀ c ∈ (scanFraction s).1, numeric c = true := by
  unfold scanFraction
  split
  · rename_i c d rest
    split
    · rename_i hpoint
      simp only [Bool.and_eq_true, decide_eq_true_eq] at hpoint
      refine ⟨by simp, fun e he => ?_⟩
      rcases List.mem_cons.1 he with rfl | he
      · simp [numeric, hpoint.1]
      · rcases List.mem_cons.1 he with rfl | he
        · exact numeric_of_isDigit hpoint.2
        · exact numeric_of_isDigit (List.mem_takeWhile_imp he)
    · exact ⟨rfl, List.forall_mem_nil _⟩
  · exact ⟨rfl, List.forall_mem_nil _⟩

theorem scanExponent_consumes (s : Str) :
    s = (scanExponent s).1 ++ (scanExponent s).2 ∧ ∀ c ∈ (scanExponent s).1, numeric c = true := by
  -- behind the letter and a sign there are digits, or nothing is taken
  have hdigits : ∀ (sign t : Str), (∀ c ∈ sign, numeric c = true) →
      sign ++ t = sign ++ t.takeWhile isDigit ++ t.dropWhile isDigit ∧
        ∀ c ∈ sign ++ t.takeWhile isDigit, numeric c = true := by
    intro sign t hsign
    refine ⟨by simp, fun c hc => ?_⟩
    rcases List.mem_append.1 hc with hc | hc
    · exact hsign c hc
    · exact numeric_of_isDigit (List.mem_takeWhile_imp hc)
  match s with
  | [] => exact ⟨rfl, List.forall_mem_nil _⟩
  | [c] =>
    unfold scanExponent
    dsimp only
    split
    · exact ⟨rfl, List.forall_mem_nil _⟩
    · exact ⟨rfl, List.forall_mem_nil _⟩
  | c :: d :: rest =>
    by_cases hexponent : (c.val = 0x65 || c.val = 0x45) = true
    · have hc : numeric c = true := by
        simp only [Bool.or_eq_true, decide_eq_true_eq] at hexponent
        rcases hexponent with h | h <;> simp [numeric, h]
      by_cases hsign : (d.val = 0x2B || d.val = 0x2D) = true
      · have hd : numeric d = true := by
          simp only [Bool.or_eq_true, decide_eq_true_eq] at hsign
          rcases hsign with h | h <;> simp [numeric, h]
        simp only [scanExponent, if_pos hexponent, if_pos hsign]
        split
        · exact ⟨rfl, List.forall_mem_nil _⟩
        · exact hdigits [c, d] rest (by simp [hc, hd])
      · simp only [scanExponent, if_pos hexponent, if_neg hsign]
        split
        · exact ⟨rfl, List.forall_mem_nil _⟩
        · exact hdigits [c] (d :: rest) (by simp [hc])
    · simp only [scanExponent, if_neg hexponent]
      exact ⟨rfl, List.forall_mem_nil _⟩

section

variable [Decoder]

/-- What is read of a number is some of the text in front, in the characters of a numeral. -/
theorem scanNumber_consumes {s rest : Str} {j : Json} (h : scanNumber s = .ok (j, rest)) :
    enclosed j = false ∧ ∃ w, s = w ++ rest ∧ ∀ c ∈ w, numeric c = true := by
  unfold scanNumber at h
  cases hint : scanInt s with
  | none =>
    rw [hint] at h
    cases h
  | some read =>
    obtain ⟨integer, after⟩ := read
    obtain ⟨hs, hinteger⟩ := scanInt_consumes hint
    obtain ⟨hafter, hfraction⟩ := scanFraction_consumes after
    obtain ⟨hlast, hexponent⟩ := scanExponent_consumes (scanFraction after).2
    rw [hint] at h
    dsimp only at h
    -- the three parts of the numeral, one behind the other
    have hw : ∃ w, s = w ++ (scanExponent (scanFraction after).2).2 ∧ ∀ c ∈ w, numeric c = true := by
      refine ⟨integer ++ (scanFraction after).1 ++ (scanExponent (scanFraction after).2).1, ?_, ?_⟩
      · rw [List.append_assoc, ← hlast, List.append_assoc, ← hafter]
        exact hs
      · intro c hc
        rcases List.mem_append.1 hc with hc | hc
        · exact (List.mem_append.1 hc).elim (hinteger c) (hfraction c)
        · exact hexponent c hc
    split at h
    · cases hread : intOf integer with
      | ok n =>
        rw [hread] at h
        cases h
        exact ⟨rfl, hw⟩
      | error e =>
        rw [hread] at h
        cases h
    · cases h
      exact ⟨rfl, hw⟩

end

/-- The text begins with an integer of more digits than the interpreter converts. A fraction or an
    exponent makes it a float, of which the digits are not counted. -/
def LongInteger (s : Str) : Prop :=
  ∃ integer rest, scanInt s = some (integer, rest) ∧ (scanFraction rest).1 = [] ∧
    (scanExponent (scanFraction rest).2).1 = [] ∧ 4300 < (integer.filter isDigit).length

theorem LongInteger.head {s : Str} (h : LongInteger s) :
    ∃ c w, s = c :: w ∧ (c.val = 0x2D ∨ 0x30 ≤ c.val ∧ c.val ≤ 0x39) := by
  obtain ⟨integer, rest, hint, -⟩ := h
  exact scanInt_head_val hint

section

variable [Decoder]

/-- **The number scanner raises what is no `JSONDecodeError` exactly on a long integer.** -/
theorem scanNumber_unguarded_iff {s : Str} :
    (∃ e, scanNumber s = .error e ∧ e ≠ .decode) ↔ LongInteger s := by
  unfold scanNumber LongInteger
  cases scanInt s with
  | none => simp
  | some read =>
    obtain ⟨integer, after⟩ := read
    simp only [Option.some.injEq, Prod.mk.injEq, ← and_assoc]
    by_cases hplain : (scanFraction after).1 = [] ∧ (scanExponent (scanFraction after).2).1 = []
    · simp only [if_pos hplain, intOf]
      by_cases hlong : 4300 < (integer.filter isDigit).length
      · simp [hlong, hplain, bind, Except.bind]
      · simp [hlong, hplain, bind, Except.bind, pure, Except.pure]
    · simp [hplain]

omit [Decoder] in
theorem keyword?_consumes {word : String} {value j : Json} {s rest : Str}
    (h : keyword? word value s = some (j, rest)) : j = value ∧ s = lit word ++ rest := by
  unfold keyword? at h
  split at h
  · rename_i hpre
    obtain ⟨more, rfl⟩ := List.isPrefixOf_iff_prefix.1 hpre
    cases h
    exact ⟨rfl, by rw [List.drop_left]⟩
  · cases h

omit [Decoder] in
theorem constant?_consumes {s rest : Str} {j : Json} (h : constant? s = some (j, rest)) :
    enclosed j = false ∧ ∃ w, s = w ++ rest ∧ ∀ c ∈ w, Bare c := by
  have hword : ∀ word : String, ((lit word).all fun c => decide (Bare c)) = true →
      ∀ c ∈ lit word, Bare c := by
    intro word hall c hc
    exact of_decide_eq_true (List.all_eq_true.1 hall c hc)
  simp only [constant?, Option.orElse_eq_orElse, Option.orElse_eq_or, Option.or_eq_some_iff] at h
  rcases h with h | ⟨-, h | ⟨-, h | ⟨-, h | ⟨-, h | ⟨-, h⟩⟩⟩⟩⟩
  all_goals
    obtain ⟨rfl, hs⟩ := keyword?_consumes h
    exact ⟨rfl, _, hs, hword _ (by decide)⟩

/-- **What begins with no quote, bracket or brace is read up to some place before the first.** -/
theorem scanOnce_bare {n room : ℕ} {c : CodePoint} {s rest : Str} {j : Json} (hc : Bare c)
    (h : scanOnce n room (c :: s) = .ok (j, rest)) :
    enclosed j = false ∧ ∃ w, c :: s = w ++ rest ∧ ∀ d ∈ w, Bare d := by
  cases n with
  | zero => cases h
  | succ n =>
    rw [scanOnce, if_neg hc.1, if_neg hc.2.2.2.1, if_neg hc.2.1] at h
    cases hconstant : constant? (c :: s) with
    | some found =>
      rw [hconstant] at h
      cases h
      exact constant?_consumes hconstant
    | none =>
      rw [hconstant] at h
      obtain ⟨hj, w, hw, hnumeric⟩ := scanNumber_consumes h
      exact ⟨hj, w, hw, fun d hd => bare_of_numeric (hnumeric d hd)⟩

/-- What begins with no quote, bracket or brace raises on a long integer only. It opens no
    bracket, so the room for them is all the same. -/
theorem scanOnce_unguarded_iff {n room : ℕ} {c : CodePoint} {s : Str} (hc : Bare c) :
    (∃ e, scanOnce (n + 1) room (c :: s) = .error e ∧ e ≠ .decode) ↔ LongInteger (c :: s) := by
  cases hint : scanInt (c :: s) with
  | some read =>
    obtain ⟨integer, after⟩ := read
    rw [scanOnce_number hint, scanNumber_unguarded_iff]
  | none =>
    refine iff_of_false ?_ ?_
    · rintro ⟨e, h, hdecode⟩
      rw [scanOnce, if_neg hc.1, if_neg hc.2.2.2.1, if_neg hc.2.1] at h
      cases hconstant : constant? (c :: s) with
      | some found =>
        rw [hconstant] at h
        cases h
      | none =>
        rw [hconstant, scanNumber, hint] at h
        cases h
        exact hdecode rfl
    · rintro ⟨integer, rest, heq, -⟩
      rw [hint] at heq
      cases heq

omit [Decoder] in
theorem mem_skip {c : CodePoint} {s : Str} (hc : isWhitespace c = false) (h : c ∈ s) : c ∈ skip s := by
  rw [← List.takeWhile_append_dropWhile (p := isWhitespace) (l := s)] at h
  refine (List.mem_append.1 h).resolve_left fun htake => ?_
  rw [List.mem_takeWhile_imp htake] at hc
  cases hc

omit [Decoder] in
theorem bare_of_skip {s : Str} (h : skip s = []) : ∀ c ∈ s, Bare c := by
  intro c hc
  have hspace : isWhitespace c = true := by
    by_contra hspace
    have hmem := mem_skip (Bool.eq_false_iff.2 hspace) hc
    rw [h] at hmem
    cases hmem
  simp only [isWhitespace, Bool.or_eq_true, decide_eq_true_eq] at hspace
  unfold Bare
  omega

/-- **A text that begins with no quote, bracket or brace** has none if it is JSON, and is of
    another value than one between these. It is no text of an integer past the limit unless it
    begins with one. -/
theorem loads_bare {c : CodePoint} {s : Str} (hc : Bare c) (hspace : isWhitespace c = false) :
    (∀ j, loads (c :: s) = .ok j → enclosed j = false ∧ ∀ d ∈ c :: s, Bare d) ∧
      (Unguarded (c :: s) ↔ LongInteger (c :: s)) := by
  unfold Unguarded loads
  rw [List.head?_cons, Option.any_some]
  -- a byte order mark is refused before anything is read
  by_cases hbom : c.val = 0xFEFF
  · rw [if_pos (decide_eq_true hbom)]
    refine ⟨fun j h => (nomatch h), iff_of_false (by simp) fun hlong => ?_⟩
    obtain ⟨d, w, heq, hd⟩ := hlong.head
    rw [← (List.cons.inj heq).1] at hd
    omega
  · rw [if_neg (by simpa using hbom), skip_cons hspace]
    have hvalue : (∃ e, scanOnce (2 * (c :: s).length + 1) Decoder.room (c :: s) = .error e ∧
        e ≠ .decode) ↔ LongInteger (c :: s) := scanOnce_unguarded_iff hc
    cases hscan : scanOnce (2 * (c :: s).length + 1) Decoder.room (c :: s) with
    | error e =>
      rw [hscan] at hvalue
      exact ⟨fun j h => (nomatch h), by simpa [bind, Except.bind] using hvalue⟩
    | ok read =>
      obtain ⟨j, rest⟩ := read
      obtain ⟨hj, w, hw, hbare⟩ := scanOnce_bare hc hscan
      rw [hscan] at hvalue
      simp only [bind, Except.bind]
      split
      · rename_i hrest
        refine ⟨fun j' h => ?_, by simpa [pure, Except.pure] using hvalue⟩
        cases h
        refine ⟨hj, fun d hd => ?_⟩
        rw [hw] at hd
        exact (List.mem_append.1 hd).elim (hbare d) (bare_of_skip hrest d)
      · exact ⟨fun j' h => (nomatch h), by simpa using hvalue⟩

end

end Py.Json
