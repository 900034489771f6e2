import AdversarialCognition.Lib.RoundTrip

/-!
# Values of unknown type

What the built-ins do with a value that came out of `json.loads`, the exceptions included: each is
raised with the text `str` gives it. Where the decoder of a malformed text stops, and what it
complains of, is taken as given, and so is the arithmetic of floats, which are texts here.

## Why the texts are here

The programs that read a payload of somebody else's do so under `try`, and what they catch is
printed into a report. So the report has in it the text of whatever exception the first value of
an unexpected type raised, and what can be said of the report, that it is on one line or has no
bar in it, comes down to what can be said of these texts. An exception without its text would be
enough to know that a run failed, and not enough to know what is then printed.

## What is left out

Exceptions are told apart by their class and have no cause or traceback. Of the classes only those
are here that a value of JSON can bring about; what comes of the system (a process that cannot be
started, a file that is not there) is in the modules of the programs concerned.
-/

namespace Py

open Str

/-- The classes of exceptions a value of an unexpected type or form can raise. -/
inductive ExnClass
  | jsonDecodeError
  | valueError
  | overflowError
  | keyError
  | typeError
  | attributeError
  | recursionError
  deriving DecidableEq, Repr

/-- An exception, with its text. -/
structure Raised where
  exnClass : ExnClass
  text : Str
  deriving DecidableEq

/-- `isinstance(error, ValueError)`: a `JSONDecodeError` is one, an `OverflowError` and a
    `RecursionError` are not. -/
def Raised.IsValueError (e : Raised) : Prop :=
  e.exnClass = .valueError ∨ e.exnClass = .jsonDecodeError

/-!
## Computations that may raise

A source that reads a value of unknown type is a chain of steps each of which may raise. Such a
chain succeeds if all steps do, and `Raises` bounds what it raises otherwise, step by step.
-/

section Except

variable {ε α β : Type} {x : Except ε α} {f : α → Except ε β} {b : β}

/-- A composite is fine when both parts are. The function of a program is taken apart with this,
    and is not unfolded branch by branch. -/
theorem bind_eq_ok_iff : (x >>= f) = .ok b ↔ ∃ a, x = .ok a ∧ f a = .ok b := by
  cases x with
  | ok a => simp [bind, Except.bind]
  | error e => simp [bind, Except.bind]

theorem check_eq_ok_iff {x : Except ε Unit} {y : Except ε β} :
    (x >>= fun _ => y) = .ok b ↔ x = .ok () ∧ y = .ok b := by
  cases x with
  | ok a => simp [bind, Except.bind]
  | error e => simp [bind, Except.bind]

/-- `if c: raise e`, and the rest. -/
theorem ite_throw_eq_ok_iff {c : Prop} [Decidable c] {e : ε} {y : Except ε β} :
    (if c then throw e >>= f else y) = .ok b ↔ ¬ c ∧ y = .ok b := by
  by_cases h : c
  · rw [if_pos h]
    exact iff_of_false (fun heq => nomatch heq) fun hboth => hboth.1 h
  · rw [if_neg h]
    exact (and_iff_right h).symm

/-- Whatever is raised is a `P`. Like `Yields` for programs that call out, it has a rule for every
    way in which computations are put together. -/
def Raises (P : ε → Prop) (x : Except ε α) : Prop := ∀ e, x = .error e → P e

variable {P : ε → Prop}

theorem raises_ok (a : α) : Raises P (.ok a) := fun _ h => nomatch h

theorem raises_error {e : ε} (h : P e) : Raises P (.error e : Except ε α) := by
  intro e' he
  cases he
  exact h

theorem Raises.bind (hx : Raises P x) (hf : ∀ a, Raises P (f a)) : Raises P (x >>= f) := by
  cases x with
  | ok a => exact hf a
  | error e => exact raises_error (hx e rfl)

theorem raises_ite {c : Prop} [Decidable c] {x y : Except ε α} (hx : Raises P x)
    (hy : Raises P y) : Raises P (if c then x else y) := by
  split
  · exact hx
  · exact hy

theorem raises_mapM {g : α → Except ε β} (h : ∀ a, Raises P (g a)) (l : List α) :
    Raises P (l.mapM g) := by
  induction l with
  | nil => exact raises_ok []
  | cons a l ih =>
    rw [List.mapM_cons]
    exact (h a).bind fun b => ih.bind fun bs => raises_ok (b :: bs)

theorem raises_foldlM {g : β → α → Except ε β} (h : ∀ b a, Raises P (g b a)) (l : List α)
    (b : β) : Raises P (l.foldlM g b) := by
  induction l generalizing b with
  | nil => exact raises_ok b
  | cons a l ih =>
    rw [List.foldlM_cons]
    exact (h b a).bind ih

end Except

/-!
## The decoder and the floats

What is taken as given besides the scanners: the texts of the decoder's complaints, and the
arithmetic of floats. `Numerics.verbatim` is an instance for examples.
-/

/-- What the decoder complains of. -/
inductive DecodeMessage
  | expectingValue
  | expectingPropertyName
  | expectingColon
  | expectingComma
  | unterminatedString
  | invalidControlCharacter
  | invalidEscape
  | invalidUnicodeEscape
  | extraData
  | unexpectedBom
  | illegalTrailingComma
  deriving DecidableEq, Repr

def DecodeMessage.text : DecodeMessage → Str
  | .expectingValue => "Expecting value"
  | .expectingPropertyName => "Expecting property name enclosed in double quotes"
  | .expectingColon => "Expecting ':' delimiter"
  | .expectingComma => "Expecting ',' delimiter"
  | .unterminatedString => "Unterminated string starting at"
  | .invalidControlCharacter => "Invalid control character at"
  | .invalidEscape => "Invalid \\escape"
  | .invalidUnicodeEscape => "Invalid \\uXXXX escape"
  | .extraData => "Extra data"
  | .unexpectedBom => "Unexpected UTF-8 BOM (decode using utf-8-sig)"
  | .illegalTrailingComma => "Illegal trailing comma before end of object"

/-- A complaint and where it is raised. -/
structure DecodeFault where
  message : DecodeMessage
  line : ℕ
  column : ℕ
  position : ℕ

/-- `str` of the `JSONDecodeError`. -/
def DecodeFault.text (fault : DecodeFault) : Str :=
  fault.message.text ++ lit ": line " ++ ofNat fault.line ++ lit " column " ++
    ofNat fault.column ++ lit " (char " ++ ofNat fault.position ++ lit ")"

/-- What is taken as given of the decoder and of floats: the fault of a malformed text,
    `float(n)` unless it overflows, `float(text)` of a numeral, `round(x, 3)`, and the
    quotient of two counts. A function that calls itself has a limit of its own, which is not that
    of the decoder: one is met in Python and the other in C. -/
class Numerics extends Decoder where
  fault : Str → DecodeFault
  ofInt? : ℤ → Option Str
  ofText? : Str → Option Str
  round3 : Str → Str
  ratio : ℕ → ℕ → Str
  /-- How many calls of a function may be open at once. -/
  frames : ℕ
  roomy : 16 ≤ frames

theorem roomy_verbatim : 16 ≤ 900 := by decide

/-- Numerals that are the shortest ones of their floats, and integers small enough. Nine hundred
    calls is about what a limit of a thousand leaves below the ones already open. -/
@[reducible] def Numerics.verbatim : Numerics where
  toDecoder := .verbatim
  fault _ := ⟨.expectingValue, 1, 1, 0⟩
  ofInt? n := some (Json.ofInt n ++ lit ".0")
  ofText? s := some s
  round3 := id
  ratio _ _ := lit "1.0"
  frames := 900
  roomy := roomy_verbatim

namespace Json

/-- The item of a dictionary, if the key is there. -/
def item? (items : List (Str × Json)) (key : String) : Option Json :=
  (items.find? fun item => item.1 == lit key).map Prod.snd

/-- `value.get(key, default)` -/
def getOr (value : Json) (key : String) (default : Json) : Except Raised Json :=
  match value.get key default with
  | .ok found => .ok found
  | .error text => .error ⟨.attributeError, text⟩

/-- `for item in value` -/
def items (value : Json) : Except Raised (List Json) :=
  match value.iter with
  | .ok items => .ok items
  | .error text => .error ⟨.typeError, text⟩

section Parse

variable [Numerics]

/-- `json.loads(text)`, with the class and the text of what it raises. -/
def parse (text : Str) : Except Raised Json :=
  match loads text with
  | .ok value => .ok value
  | .error .decode => .error ⟨.jsonDecodeError, (Numerics.fault text).text⟩
  | .error (.value text) => .error ⟨.valueError, text⟩
  | .error (.recursion text) => .error ⟨.recursionError, text⟩

theorem parse_dumps {j : Json} (hj : Printable j) (hroom : j.depth ≤ Decoder.room) :
    parse (dumps j) = .ok j := by
  rw [parse, loads_dumps hj hroom]

end Parse

section

variable [Runtime]

/-- `value[key]`. The text of a `KeyError` is the `repr` of the key, and nothing else. -/
def subscript (value : Json) (key : String) : Except Raised Json :=
  match value with
  | obj items =>
      match item? items key with
      | some found => .ok found
      | none => .error ⟨.keyError, (lit key).repr⟩
  | list _ => .error ⟨.typeError, "list indices must be integers or slices, not str"⟩
  | str _ => .error ⟨.typeError, "string indices must be integers, not 'str'"⟩
  | other => .error ⟨.typeError, lit "'" ++ other.typeName ++ lit "' object is not subscriptable"⟩

variable [Numerics]

/-- `float(value)`. A bool is an integer, and a string is read as a numeral. -/
def toFloat (value : Json) : Except Raised Str :=
  match value with
  | int n => ofInteger n
  | bool b => ofInteger (if b then 1 else 0)
  | float text => .ok text
  | str s =>
      match Numerics.ofText? s with
      | some text => .ok text
      | none => .error ⟨.valueError, lit "could not convert string to float: " ++ s.repr⟩
  | other => .error ⟨.typeError,
      lit "float() argument must be a string or a real number, not '" ++ other.typeName ++ lit "'"⟩
where
  ofInteger (n : ℤ) : Except Raised Str :=
    match Numerics.ofInt? n with
    | some text => .ok text
    | none => .error ⟨.overflowError, "int too large to convert to float"⟩

end

end Json

end Py
