import ScalableCongestion.Json.Document

/-! Reading the grammar of JSON. A document is read as it is written; what its
numbers and texts are worth is decided later. -/
namespace ScalableCongestion.Json

def skipSpace (cs : List Char) : List Char := cs.dropWhile isSpace

/-! ## Numbers -/

def digits? (cs : List Char) : Option (List Char × List Char) :=
  match cs.takeWhile Char.isDigit with
  | [] => none
  | ds => some (ds, cs.dropWhile Char.isDigit)

/-- A whole part has no zero in front of other digits. -/
def whole? (cs : List Char) : Option (List Char × List Char) :=
  (digits? cs).bind fun (ds, rest) =>
    if ds.head? = some '0' ∧ ds ≠ ['0'] then none else some (ds, rest)

def fraction? : List Char → Option (List Char × List Char)
  | '.' :: rest => digits? rest
  | rest => some ([], rest)

def exponentDigits? (negative : Bool) (cs : List Char) :
    Option (Option Decimal.ExponentPart × List Char) :=
  (digits? cs).map fun (ds, rest) => (some ⟨negative, ds⟩, rest)

def exponent? : List Char → Option (Option Decimal.ExponentPart × List Char)
  | [] => some (none, [])
  | c :: rest =>
    if c = 'e' ∨ c = 'E' then
      match rest with
      | '-' :: rest => exponentDigits? true rest
      | '+' :: rest => exponentDigits? false rest
      | rest => exponentDigits? false rest
    else some (none, c :: rest)

def unsigned? (negative : Bool) (cs : List Char) : Option (Decimal.Literal × List Char) := do
  let (whole, rest) ← whole? cs
  let (fraction, rest) ← fraction? rest
  let (exponent, rest) ← exponent? rest
  return (⟨negative, whole, fraction, exponent⟩, rest)

def number? : List Char → Option (Decimal.Literal × List Char)
  | '-' :: rest => unsigned? true rest
  | cs => unsigned? false cs

/-! ## Texts -/

def hexValue? (c : Char) : Option Nat :=
  let n := c.toNat
  if 48 ≤ n ∧ n ≤ 57 then some (n - 48)
  else if 65 ≤ n ∧ n ≤ 70 then some (n - 65 + 10)
  else if 97 ≤ n ∧ n ≤ 102 then some (n - 97 + 10)
  else none

def codeOf? (a b c d : Char) : Option Nat := do
  let a ← hexValue? a
  let b ← hexValue? b
  let c ← hexValue? c
  let d ← hexValue? d
  return ((a * 16 + b) * 16 + c) * 16 + d

def escape? : Char → Option Nat
  | '"' => some 34
  | '\\' => some 92
  | '/' => some 47
  | 'b' => some 8
  | 'f' => some 12
  | 'n' => some 10
  | 'r' => some 13
  | 't' => some 9
  | _ => none

/-- The codes of a text up to its closing quote, and what follows. Control
characters have to be escaped. -/
def codes? : List Char → Option (List Nat × List Char)
  | [] => none
  | '"' :: rest => some ([], rest)
  | '\\' :: 'u' :: a :: b :: c :: d :: rest => do
    let code ← codeOf? a b c d
    let (codes, rest) ← codes? rest
    return (code :: codes, rest)
  | '\\' :: e :: rest => do
    let code ← escape? e
    let (codes, rest) ← codes? rest
    return (code :: codes, rest)
  | c :: rest =>
    if c.toNat < 0x20 ∨ c = '\\' then none
    else (codes? rest).map fun (codes, rest) => (c.toNat :: codes, rest)

def isHighSurrogate (n : Nat) : Bool := 0xD800 ≤ n && n < 0xDC00

def isLowSurrogate (n : Nat) : Bool := 0xDC00 ≤ n && n < 0xE000

/-- Joins surrogate pairs; `none` if half of one stands alone. -/
def assemble? : List Nat → Option (List Char)
  | [] => some []
  | high :: codes =>
    if isHighSurrogate high then
      match codes with
      | low :: codes =>
        if isLowSurrogate low then
          (assemble? codes).map
            (Char.ofNat (0x10000 + (high - 0xD800) * 0x400 + (low - 0xDC00)) :: ·)
        else none
      | [] => none
    else if isLowSurrogate high then none
    else (assemble? codes).map (Char.ofNat high :: ·)

def string? (cs : List Char) : Option (Option String × List Char) :=
  (codes? cs).map fun (codes, rest) => ((assemble? codes).map String.ofList, rest)

/-! ## Values -/

def literal? (word : String) (value : Json) (cs : List Char) : Option (Json × List Char) :=
  if word.toList.isPrefixOf cs then some (value, cs.drop word.length) else none

mutual

/-- A value after blanks. The first argument bounds the calls in a row; a value
in brackets takes two of them and has its two brackets for them, so one more
than the number of characters is enough. -/
def value? : Nat → List Char → Option (Json × List Char)
  | 0, _ => none
  | fuel + 1, cs =>
    match skipSpace cs with
    | [] => none
    | '"' :: rest => (string? rest).map fun (s, rest) => (string s, rest)
    | '[' :: rest =>
      match skipSpace rest with
      | ']' :: rest => some (array [], rest)
      | rest => (items? fuel rest).map fun (items, rest) => (array items, rest)
    | '\x7b' :: rest =>
      match skipSpace rest with
      | '\x7d' :: rest => some (object [], rest)
      | rest => (members? fuel rest).map fun (members, rest) => (object members, rest)
    | 'n' :: rest => literal? "ull" null rest
    | 't' :: rest => literal? "rue" (bool true) rest
    | 'f' :: rest => literal? "alse" (bool false) rest
    | rest => (number? rest).map fun (l, rest) => (number l, rest)

def items? : Nat → List Char → Option (List Json × List Char)
  | 0, _ => none
  | fuel + 1, cs => do
    let (item, rest) ← value? fuel cs
    match skipSpace rest with
    | ',' :: rest =>
      let (items, rest) ← items? fuel rest
      return (item :: items, rest)
    | ']' :: rest => return ([item], rest)
    | _ => none

def members? : Nat → List Char → Option (List (Option String × Json) × List Char)
  | 0, _ => none
  | fuel + 1, cs =>
    match skipSpace cs with
    | '"' :: rest => do
      let (name, rest) ← string? rest
      match skipSpace rest with
      | ':' :: rest =>
        let (value, rest) ← value? fuel rest
        match skipSpace rest with
        | ',' :: rest =>
          let (members, rest) ← members? fuel rest
          return ((name, value) :: members, rest)
        | '\x7d' :: rest => return ([(name, value)], rest)
        | _ => none
      | _ => none
    | _ => none

end

def parseChars? (cs : List Char) : Option Json :=
  match value? (cs.length + 1) cs with
  | some (j, rest) => if (skipSpace rest).isEmpty then some j else none
  | none => none

def parse? (text : String) : Option Json := parseChars? text.toList

end ScalableCongestion.Json
