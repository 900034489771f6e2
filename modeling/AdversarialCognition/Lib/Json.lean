import AdversarialCognition.Lib.Dict
import AdversarialCognition.Lib.Str
import Mathlib.Data.Nat.Digits.Defs

/-!
# JSON values

What `json.loads` makes of a text and `json.dumps` of a value, in the defaults of both, and what
the built-ins do with a value whose type is not known: `str`, `bool`, `iter` and a dictionary's
`get`.

## What is taken from the interpreter

A float is kept as the text `repr` gives it. `Decoder` is what the decoder takes from the
interpreter it runs in, and the only part of it that is not written out here: how a numeral is
rounded, and how many brackets it may open inside each other before the recursion limit is met.

The room is the recursion limit less the calls that are open already. It is one number here, as
the programs of this repository call the decoder from no great depth, and at least sixteen. Where
a result needs more room than that it says so. `dumps` and `repr` recurse as well, and have no
limit here: what they are called with was either built by the program, a few levels deep, or came
out of the decoder.

## What is raised

`loads` raises a `JSONDecodeError` on a malformed text, a plain `ValueError` on an integer of more
than 4300 digits, and a `RecursionError` on a text that nests too deep. A caller that is ready for
the first of them is not always ready for the other two, so they are told apart here. What comes
first in the text is raised first: a bracket too many hides whatever is malformed behind it.

The message of a `JSONDecodeError` is left out at this level, as most callers drop it. The module
on values of unknown type puts it back in for those that print it.
-/

namespace Py

/-- A value. A dictionary is a list of items, of which the decoder makes one for each key, and a
    program that builds one by hand may not; that the keys are distinct is asked for where it is
    needed. -/
inductive Json
  | null
  | bool (b : Bool)
  | int (n : ℤ)
  | float (text : Str)
  | str (s : Str)
  | list (items : List Json)
  | obj (items : List (Str × Json))

/-- What the decoder takes from its interpreter. -/
class Decoder where
  /-- `repr(float(text))` of a numeral. -/
  repr : Str → Str
  /-- How many brackets may be open at once. -/
  room : ℕ
  ample : 16 ≤ room

/-- A numeral that is the shortest one of its float prints as itself; and the recursion limit is the
    default one, of 1000 calls, with a hundred of them open. -/
@[reducible] def Decoder.verbatim : Decoder := ⟨id, 900, by decide⟩

namespace Json

open Str

/-!
## The built-ins

What Python does with a decoded value: its text, its truth value, its items. Errors are their
texts, since those go into reports.
-/

def ofInt (n : ℤ) : Str := if n < 0 then lit "-" ++ ofNat n.natAbs else ofNat n.natAbs

/-- `sep.join(items)` -/
def join (sep : String) (items : List Str) : Str := (items.intersperse (lit sep)).flatten

section

variable [Runtime]

mutual

/-- `repr(value)`, as it is seen in the text of an error or inside of an f-string. -/
def repr : Json → Str
  | null => lit "None"
  | bool true => lit "True"
  | bool false => lit "False"
  | int n => ofInt n
  | float text => text
  | str s => s.repr
  | list items => lit "[" ++ join ", " (reprItems items) ++ lit "]"
  | obj items => lit "\x7b" ++ join ", " (reprMembers items) ++ lit "\x7d"

def reprItems : List Json → List Str
  | [] => []
  | item :: items => repr item :: reprItems items

def reprMembers : List (Str × Json) → List Str
  | [] => []
  | (key, value) :: items => (key.repr ++ lit ": " ++ repr value) :: reprMembers items

end

/-- `str(value)` -/
def toStr : Json → Str
  | str s => s
  | value => repr value

end

/-- `bool(value)` -/
def truthy : Json → Bool
  | null => false
  | bool b => b
  | int n => n != 0
  | float text => text != lit "0.0" && text != lit "-0.0"
  | str s => !s.isEmpty
  | list items => !items.isEmpty
  | obj items => !items.isEmpty

def typeName : Json → Str
  | null => lit "NoneType"
  | bool _ => lit "bool"
  | int _ => lit "int"
  | float _ => lit "float"
  | str _ => lit "str"
  | list _ => lit "list"
  | obj _ => lit "dict"

/-- `items.get(key, default)` of a dictionary. The first item of the key counts, and there is one
    at most in what was decoded. -/
def lookup (items : List (Str × Json)) (key : String) (default : Json) : Json :=
  ((items.find? fun item => item.1 == lit key).map Prod.snd).getD default

/-- `value.get(key, default)`, which only a dictionary has. The error is its text. -/
def get (value : Json) (key : String) (default : Json) : Except Str Json :=
  match value with
  | obj items => .ok (lookup items key default)
  | other => .error (lit "'" ++ other.typeName ++ lit "' object has no attribute 'get'")

/-- `list(value)` -/
def iter : Json → Except Str (List Json)
  | list items => .ok items
  | obj items => .ok (items.map fun item => str item.1)
  | str s => .ok (s.map fun c => str [c])
  | other => .error (lit "'" ++ other.typeName ++ lit "' object is not iterable")

/-!
## `dumps`

The default printer, by recursion over the value.
-/

/-- A code point inside quotes: printable ASCII as it is, all else escaped. -/
def dumpsPoint (c : CodePoint) : Str :=
  if c.val = 0x22 then lit "\\\""
  else if c.val = 0x5C then lit "\\\\"
  else if c.val = 0x0A then lit "\\n"
  else if c.val = 0x0D then lit "\\r"
  else if c.val = 0x09 then lit "\\t"
  else if c.val = 0x0C then lit "\\f"
  else if c.val = 0x08 then lit "\\b"
  else if 0x20 ≤ c.val ∧ c.val ≤ 0x7E then [c]
  else if c.val ≤ 0xFFFF then lit "\\u" ++ hex 4 c.val
  else
    let v := c.val - 0x10000
    lit "\\u" ++ hex 4 (0xD800 + v / 0x400) ++ lit "\\u" ++ hex 4 (0xDC00 + v % 0x400)

def dumpsStr (s : Str) : Str := lit "\"" ++ s.flatMap dumpsPoint ++ lit "\""

def dumpsFloat (text : Str) : Str :=
  if text = lit "nan" then lit "NaN"
  else if text = lit "inf" then lit "Infinity"
  else if text = lit "-inf" then lit "-Infinity"
  else text

mutual

/-- `json.dumps(value)`. Everything past ASCII is escaped, so no text and no reader can be hurt by
    what a string has in it. -/
def dumps : Json → Str
  | null => lit "null"
  | bool true => lit "true"
  | bool false => lit "false"
  | int n => ofInt n
  | float text => dumpsFloat text
  | str s => dumpsStr s
  | list items => lit "[" ++ join ", " (dumpsItems items) ++ lit "]"
  | obj items => lit "\x7b" ++ join ", " (dumpsMembers items) ++ lit "\x7d"

def dumpsItems : List Json → List Str
  | [] => []
  | item :: items => dumps item :: dumpsItems items

def dumpsMembers : List (Str × Json) → List Str
  | [] => []
  | (key, value) :: items => (dumpsStr key ++ lit ": " ++ dumps value) :: dumpsMembers items

end

/-!
## `loads`

The decoder of CPython, scanner by scanner. It raises a `JSONDecodeError` for what is no JSON, and
something else in two cases: for an integer of too many digits, and for a bracket that there is no
room for. The second depends on how deep the caller is in its own stack, so the room is a
parameter, and what opens a bracket has one unit less of it.
-/

/-- What `json.loads` may raise. The texts of the last two are those of the interpreter. -/
inductive LoadError
  /-- `json.JSONDecodeError` -/
  | decode
  /-- `ValueError` of `int`, with its text. -/
  | value (text : Str)
  /-- `RecursionError`, with its text. -/
  | recursion (text : Str)
  deriving DecidableEq

/-- There is no room for what a bracket opens. -/
def tooDeep (kind : String) : LoadError :=
  .recursion (lit "maximum recursion depth exceeded while decoding a JSON " ++ lit kind ++
    lit " from a unicode string")

def isWhitespace (c : CodePoint) : Bool :=
  c.val = 0x20 || c.val = 0x09 || c.val = 0x0A || c.val = 0x0D

def skip (s : Str) : Str := s.dropWhile isWhitespace

def isDigit (c : CodePoint) : Bool := 0x30 ≤ c.val && c.val ≤ 0x39

def hexValue? (c : CodePoint) : Option ℕ :=
  if isDigit c then some (c.val - 0x30)
  else if 0x41 ≤ c.val && c.val ≤ 0x46 then some (c.val - 0x37)
  else if 0x61 ≤ c.val && c.val ≤ 0x66 then some (c.val - 0x57)
  else none

/-- The four digits of a `\u` escape. -/
def unit? (a b c d : CodePoint) : Option ℕ := do
  return (((← hexValue? a) * 16 + (← hexValue? b)) * 16 + (← hexValue? c)) * 16 + (← hexValue? d)

/-- What the character behind a backslash stands for. -/
def simpleEscape? (c : CodePoint) : Option ℕ :=
  if c.val = 0x22 then some 0x22
  else if c.val = 0x5C then some 0x5C
  else if c.val = 0x2F then some 0x2F
  else if c.val = 0x62 then some 0x08
  else if c.val = 0x66 then some 0x0C
  else if c.val = 0x6E then some 0x0A
  else if c.val = 0x72 then some 0x0D
  else if c.val = 0x74 then some 0x09
  else none

def ofVal (n : ℕ) : CodePoint := ⟨n % 0x110000, Nat.mod_lt n (by decide)⟩

/-- The two halves of a code point past U+FFFF. -/
def pair? (high low : ℕ) : Option CodePoint :=
  if 0xD800 ≤ high ∧ high ≤ 0xDBFF ∧ 0xDC00 ≤ low ∧ low ≤ 0xDFFF then
    some (ofVal (0x10000 + (high - 0xD800) * 0x400 + (low - 0xDC00)))
  else none

/-- The second escape of a pair, if one follows. -/
def low? (high : ℕ) : Str → Option (CodePoint × Str)
  | b :: u :: a₀ :: a₁ :: a₂ :: a₃ :: rest =>
      if b.val = 0x5C && u.val = 0x75 then do
        return (← pair? high (← unit? a₀ a₁ a₂ a₃), rest)
      else none
  | _ => none

/-- `scanstring`, from behind the opening quote to behind the closing one. One unit of fuel
    for each character is enough. -/
def scanString : ℕ → Str → Except LoadError (Str × Str)
  | 0, _ => .error .decode
  | _, [] => .error .decode
  | n + 1, c :: rest =>
      if c.val = 0x22 then .ok ([], rest)
      else if c.val = 0x5C then
        match rest with
        | [] => .error .decode
        | e :: rest =>
            if e.val = 0x75 then
              match rest with
              | a₀ :: a₁ :: a₂ :: a₃ :: rest =>
                  match unit? a₀ a₁ a₂ a₃ with
                  | none => .error .decode
                  | some v =>
                      match low? v rest with
                      | some (joined, rest) => more n joined rest
                      | none => more n (ofVal v) rest
              | _ => .error .decode
            else
              match simpleEscape? e with
              | none => .error .decode
              | some v => more n (ofVal v) rest
      else if c.val < 0x20 then .error .decode
      else more n c rest
where
  more (n : ℕ) (c : CodePoint) (rest : Str) : Except LoadError (Str × Str) := do
    let (s, rest) ← scanString n rest
    return (c :: s, rest)

/-- The integer part of a numeral: a sign, and digits that do not begin with a needless 0. -/
def scanInt (s : Str) : Option (Str × Str) :=
  let (sign, s) := match s with
    | c :: rest => if c.val = 0x2D then ([c], rest) else ([], c :: rest)
    | [] => ([], [])
  match s with
  | c :: rest =>
      if c.val = 0x30 then some (sign ++ [c], rest)
      else if isDigit c then some (sign ++ c :: rest.takeWhile isDigit, rest.dropWhile isDigit)
      else none
  | [] => none

/-- `.` and digits, or nothing. -/
def scanFraction (s : Str) : Str × Str :=
  match s with
  | c :: d :: rest =>
      if c.val = 0x2E && isDigit d then
        (c :: d :: rest.takeWhile isDigit, rest.dropWhile isDigit)
      else ([], s)
  | _ => ([], s)

/-- `e`, a sign and digits, or nothing. -/
def scanExponent (s : Str) : Str × Str :=
  match s with
  | c :: rest =>
      if c.val = 0x65 || c.val = 0x45 then
        let (sign, rest) := match rest with
          | d :: more => if d.val = 0x2B || d.val = 0x2D then ([d], more) else ([], d :: more)
          | [] => ([], [])
        if rest.takeWhile isDigit = [] then ([], s)
        else (c :: sign ++ rest.takeWhile isDigit, rest.dropWhile isDigit)
      else ([], s)
  | [] => ([], s)

/-- `int(text)` of a sign and digits. -/
def intOf (text : Str) : Except LoadError ℤ :=
  let digits := text.filter isDigit
  if 4300 < digits.length then
    .error (.value (lit "Exceeds the limit (4300 digits) for integer string conversion: value has "
      ++ ofNat digits.length
      ++ lit " digits; use sys.set_int_max_str_digits() to increase the limit"))
  else
    let n : ℕ := Nat.ofDigits 10 (digits.reverse.map fun c => c.val - 0x30)
    .ok (if text.head?.any fun c => c.val = 0x2D then -n else n)

/-- A number at the front of a text: an integer if there is neither a fraction nor an exponent,
    and then the limit on its digits is met, and a float if there is. -/
def scanNumber [Decoder] (s : Str) : Except LoadError (Json × Str) :=
  match scanInt s with
  | none => .error .decode
  | some (integer, rest) =>
      let (fraction, rest) := scanFraction rest
      let (exponent, rest) := scanExponent rest
      if fraction = [] ∧ exponent = [] then do
        return (int (← intOf integer), rest)
      else .ok (float (Decoder.repr (integer ++ fraction ++ exponent)), rest)

/-- `word` at the front of `s`. -/
def keyword? (word : String) (value : Json) (s : Str) : Option (Json × Str) :=
  if (lit word).isPrefixOf s then some (value, s.drop (lit word).length) else none

/-- The constants, with the three that are no JSON and that the decoder reads nevertheless. -/
def constant? (s : Str) : Option (Json × Str) :=
  keyword? "null" null s <|> keyword? "true" (bool true) s <|> keyword? "false" (bool false) s <|>
    keyword? "NaN" (float (lit "nan")) s <|> keyword? "Infinity" (float (lit "inf")) s <|>
    keyword? "-Infinity" (float (lit "-inf")) s

section Scan

variable [Decoder]

mutual

/-- `scan_once`, with room for so many brackets. Two units of fuel for each character are enough: a
    bracket takes one for the value it opens and one for its first item. -/
def scanOnce : ℕ → ℕ → Str → Except LoadError (Json × Str)
  | 0, _, _ => .error .decode
  | _, _, [] => .error .decode
  | n + 1, room, c :: rest =>
      if c.val = 0x22 then do
        let (s, rest) ← scanString n rest
        return (str s, rest)
      else if c.val = 0x7B then
        if room = 0 then .error (tooDeep "object")
        else
          match skip rest with
          | d :: rest =>
              if d.val = 0x7D then .ok (obj [], rest) else do
                let (items, rest) ← scanMembers n (room - 1) [] (d :: rest)
                return (obj items, rest)
          | [] => .error .decode
      else if c.val = 0x5B then
        if room = 0 then .error (tooDeep "array")
        else
          match skip rest with
          | d :: rest =>
              if d.val = 0x5D then .ok (list [], rest) else do
                let (items, rest) ← scanItems n (room - 1) (d :: rest)
                return (list items, rest)
          | [] => .error .decode
      else
        match constant? (c :: rest) with
        | some found => .ok found
        | none => scanNumber (c :: rest)

/-- The items of an array, from the first of them to behind the bracket. -/
def scanItems : ℕ → ℕ → Str → Except LoadError (List Json × Str)
  | 0, _, _ => .error .decode
  | n + 1, room, s => do
      let (item, rest) ← scanOnce n room s
      match skip rest with
      | d :: rest =>
          if d.val = 0x5D then return ([item], rest)
          else if d.val = 0x2C then do
            let (items, rest) ← scanItems n room (skip rest)
            return (item :: items, rest)
          else .error .decode
      | [] => .error .decode

/-- The members of an object, put into the dictionary read so far. A key that comes again replaces
    the value where it stands, as in any dictionary. -/
def scanMembers : ℕ → ℕ → List (Str × Json) → Str → Except LoadError (List (Str × Json) × Str)
  | 0, _, _, _ => .error .decode
  | _, _, _, [] => .error .decode
  | n + 1, room, items, c :: rest =>
      if c.val = 0x22 then do
        let (key, rest) ← scanString n rest
        match skip rest with
        | d :: rest =>
            if d.val = 0x3A then do
              let (value, rest) ← scanOnce n room (skip rest)
              let items := Dict.setItems key value items
              match skip rest with
              | e :: rest =>
                  if e.val = 0x7D then return (items, rest)
                  else if e.val = 0x2C then scanMembers n room items (skip rest)
                  else .error .decode
              | [] => .error .decode
            else .error .decode
        | [] => .error .decode
      else .error .decode

end

/-- `json.loads(text)`. A byte order mark is refused, and white space may stand on both sides. -/
def loads (text : Str) : Except LoadError Json :=
  if text.head?.any fun c => c.val = 0xFEFF then .error .decode
  else do
    let (value, rest) ← scanOnce (2 * text.length + 1) Decoder.room (skip text)
    if skip rest = [] then return value else .error .decode

/-- To read the text raises what is no `JSONDecodeError`: it has an integer of too many digits or
    a bracket too deep, and nothing malformed before it. -/
def Unguarded (text : Str) : Prop := ∃ e, loads text = .error e ∧ e ≠ .decode

end Scan

/-!
## Nesting

How deep a value is. This is compared with the room of the decoder wherever a printed value is to
be read back.
-/

mutual

/-- How many brackets of the value are open at once. It is this that the room of the decoder has
    to be compared with. -/
def depth : Json → ℕ
  | list items => depthItems items + 1
  | obj items => depthMembers items + 1
  | _ => 0

def depthItems : List Json → ℕ
  | [] => 0
  | item :: items => max item.depth (depthItems items)

def depthMembers : List (Str × Json) → ℕ
  | [] => 0
  | (_, value) :: items => max value.depth (depthMembers items)

end

@[simp] theorem depthItems_le_iff {items : List Json} {n : ℕ} :
    depthItems items ≤ n ↔ ∀ item ∈ items, item.depth ≤ n := by
  induction items with
  | nil => simp [depthItems]
  | cons item items ih => simp [depthItems, ih]

theorem depthItems_map_le {α : Type} {f : α → Json} {n : ℕ} (h : ∀ a, (f a).depth ≤ n)
    (l : List α) : depthItems (l.map f) ≤ n :=
  depthItems_le_iff.mpr (List.forall_mem_map.mpr fun a _ => h a)

@[simp] theorem depthMembers_le_iff {items : List (Str × Json)} {n : ℕ} :
    depthMembers items ≤ n ↔ ∀ item ∈ items, item.2.depth ≤ n := by
  induction items with
  | nil => simp [depthMembers]
  | cons item items ih => simp [depthMembers, ih]

end Json

end Py
