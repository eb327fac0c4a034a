import Wiring.Toml
import Wiring.Json.Document

/-!
Reading TOML text. Lines end in a line feed, with or without a carriage return before it. Arrays and
tables in braces nest at most 79 deep, and a key has at most 79 parts.
-/

namespace Wiring.Toml

open Json.Document (digitValue hexValue?)

abbrev Reader (α : Type) := List Char → Option (α × List Char)

def nestingLimit : Nat := 79

def isSpace (c : Char) : Bool := c = ' ' || c = '\t'

def skipSpaces (cs : List Char) : List Char := cs.dropWhile isSpace

/-- Characters that text may show: no controls but the tab. -/
def isVisible (c : Char) : Bool := c = '\t' || (c.toNat ≥ 0x20 && c.toNat ≠ 0x7F)

def newline? : List Char → Option (List Char)
  | '\n' :: rest => some rest
  | '\r' :: '\n' :: rest => some rest
  | _ => none

def skipComment : List Char → List Char
  | '#' :: rest => rest.dropWhile isVisible
  | cs => cs

/-- Blanks, a comment, and the end of the line or of the text. -/
def lineEnd? (cs : List Char) : Option (List Char) :=
  match skipComment (skipSpaces cs) with
  | [] => some []
  | rest => newline? rest

/-- Blanks, comments and line ends; a carriage return alone is none of them. -/
def skipLines : Nat → List Char → List Char
  | 0, cs => cs
  | fuel + 1, cs =>
      let rest := skipComment (skipSpaces cs)
      match newline? rest with
      | some rest => skipLines fuel rest
      | none => rest

/-! Numbers. -/

/-- A digit, then digits that single underscores may set apart. -/
def digitsBy? (isDigit : Char → Bool) : Reader (List Char)
  | c :: rest => if isDigit c then more [c] rest else none
  | [] => none
where
  more (seen : List Char) : Reader (List Char)
    | '_' :: c :: rest => if isDigit c then more (c :: seen) rest else none
    | '_' :: [] => none
    | c :: rest => if isDigit c then more (c :: seen) rest else some (seen.reverse, c :: rest)
    | [] => some (seen.reverse, [])

def sign : List Char → Option Bool × List Char
  | '+' :: rest => (some false, rest)
  | '-' :: rest => (some true, rest)
  | cs => (none, cs)

/-- A zero stands alone. -/
def wholePart? : Reader (List Char)
  | '0' :: rest => some (['0'], rest)
  | cs => digitsBy? Char.isDigit cs

def exponent? (cs : List Char) : Option (Option (Bool × List Char) × List Char) :=
  match cs with
  | c :: rest =>
      if c = 'e' || c = 'E' then do
        let (mark, rest) := sign rest
        let (digits, rest) ← digitsBy? Char.isDigit rest
        some (some (mark = some true, digits), rest)
      else some (none, cs)
  | [] => some (none, [])

def fraction? : List Char → Option (Option (List Char) × List Char)
  | '.' :: rest => do
      let (digits, rest) ← digitsBy? Char.isDigit rest
      some (some digits, rest)
  | cs => some (none, cs)

def inRange (n : Int) : Bool := Int64.minValue.toInt ≤ n && n ≤ Int64.maxValue.toInt

def int? (n : Int) : Option Toml := if inRange n then some (.int n) else none

def numberIn (base : Nat) (digits : List Char) : Nat :=
  digits.foldl (fun n c => n * base + (hexValue? c).getD 0) 0

/-- Half a unit above the largest floating-point number. -/
def overflowBound : Nat := Nat.pow 2 1024 - Nat.pow 2 970

/-- Whether `digits * 10 ^ power` is too large for a floating-point number. The number of digits
before the point decides it, except near the bound. -/
def overflows (digits : List Char) (power : Int) : Bool :=
  let significant := digits.dropWhile (· = '0')
  let magnitude := power + significant.length
  let n := numberIn 10 significant
  if significant.isEmpty || magnitude < 308 then false
  else if magnitude > 310 then true
  else overflowBound * Nat.pow 10 (-power).toNat ≤ n * Nat.pow 10 power.toNat

/-- Whether the number is beyond the largest; only positive ones are refused for that. -/
def floatFits (negative : Bool) (whole : List Char) (fraction : Option (List Char))
    (exponent : Option (Bool × List Char)) : Bool :=
  let fraction := fraction.getD []
  let size : Int := match exponent with
    | some (down, digits) => if down then -(numberIn 10 digits : Int) else numberIn 10 digits
    | none => 0
  negative || !overflows (whole ++ fraction) (size - fraction.length)

def decimal? : Reader Toml := fun cs => do
  let (mark, rest) := sign cs
  let negative := mark = some true
  let (whole, rest) ← wholePart? rest
  let (fraction, rest) ← fraction? rest
  let (exponent, rest) ← exponent? rest
  if fraction.isNone && exponent.isNone then
    let n : Int := numberIn 10 whole
    some (← int? (if negative then -n else n), rest)
  else if floatFits negative whole fraction exponent then some (.float, rest)
  else none

def isOctal (c : Char) : Bool := '0' ≤ c && c ≤ '7'

def isBinary (c : Char) : Bool := c = '0' || c = '1'

def based? (base : Nat) (isDigit : Char → Bool) : Reader Toml := fun cs => do
  let (digits, rest) ← digitsBy? isDigit cs
  some (← int? (numberIn base digits), rest)

def special? (cs : List Char) : Option (Toml × List Char) :=
  match (sign cs).2 with
  | 'i' :: 'n' :: 'f' :: rest => some (.float, rest)
  | 'n' :: 'a' :: 'n' :: rest => some (.float, rest)
  | _ => none

def number? : Reader Toml
  | '0' :: 'x' :: rest => based? 16 (fun c => (hexValue? c).isSome) rest
  | '0' :: 'o' :: rest => based? 8 isOctal rest
  | '0' :: 'b' :: rest => based? 2 isBinary rest
  | cs => (special? cs).or (decimal? cs)

/-! Dates and times. -/

def fixedDigits? : Nat → Nat → Reader Nat
  | 0, n, cs => some (n, cs)
  | count + 1, n, c :: cs => if c.isDigit then fixedDigits? count (n * 10 + digitValue c) cs else none
  | _ + 1, _, [] => none

def isLeap (year : Nat) : Bool := year % 4 = 0 && (year % 100 ≠ 0 || year % 400 = 0)

def daysIn (year month : Nat) : Nat :=
  if month = 2 then (if isLeap year then 29 else 28)
  else if month ∈ [4, 6, 9, 11] then 30 else 31

/-- The last line of a clock may be a leap second. -/
def clock? (hour : Nat) : Reader Unit
  | ':' :: cs => do
      let (minute, cs) ← fixedDigits? 2 0 cs
      match cs with
      | ':' :: cs => do
          let (second, cs) ← fixedDigits? 2 0 cs
          if hour > 23 || minute > 59 || second > 60 then none
          else
            match cs with
            | '.' :: cs =>
                let (digits, rest) := cs.span Char.isDigit
                if digits.isEmpty then none else some ((), rest)
            | cs => some ((), cs)
      | _ => none
  | _ => none

def offset? (cs : List Char) : Option (List Char) :=
  match cs with
  | 'Z' :: rest => some rest
  | 'z' :: rest => some rest
  | c :: rest =>
      if c = '+' || c = '-' then do
        let (hour, rest) ← fixedDigits? 2 0 rest
        match rest with
        | ':' :: rest => do
            let (minute, rest) ← fixedDigits? 2 0 rest
            if hour > 23 || minute > 59 then none else some rest
        | _ => none
      else some cs
  | [] => some []

def startsClock (cs : List Char) : Bool :=
  match fixedDigits? 2 0 cs with
  | some (_, ':' :: _) => true
  | _ => false

def time? (cs : List Char) : Option (List Char) := do
  let (hour, cs) ← fixedDigits? 2 0 cs
  return (← clock? hour cs).2

def isDateMark (c : Char) : Bool := c = 'T' || c = 't' || c = ' '

/-- A day, on its own or with a time of day. -/
def dayTime? (year : Nat) (cs : List Char) : Option (Toml × List Char) := do
  let (month, cs) ← fixedDigits? 2 0 cs
  match cs with
  | '-' :: cs => do
      let (day, cs) ← fixedDigits? 2 0 cs
      if month < 1 || month > 12 || day < 1 || day > daysIn year month then none
      else
        match cs with
        | c :: rest =>
            if isDateMark c && startsClock rest then some (.date, ← offset? (← time? rest))
            else some (.date, cs)
        | [] => some (.date, [])
  | _ => none

def startsDate (cs : List Char) : Bool :=
  match fixedDigits? 4 0 cs with
  | some (_, '-' :: _) => true
  | _ => false

def numeric? (cs : List Char) : Option (Toml × List Char) :=
  if startsDate cs then
    match fixedDigits? 4 0 cs with
    | some (year, '-' :: rest) => dayTime? year rest
    | _ => none
  else if startsClock cs then do some (.date, ← time? cs)
  else number? cs

/-! Strings. -/

def hexes? : Nat → Nat → Reader Nat
  | 0, n, cs => some (n, cs)
  | count + 1, n, c :: cs => do hexes? count (n * 16 + (← hexValue? c)) cs
  | _ + 1, _, [] => none

/-- A code point that is a character. -/
def scalar? (n : Nat) : Option Char :=
  if n < 0xD800 || (0xE000 ≤ n && n < 0x110000) then some (Char.ofNat n) else none

/-- After the backslash. -/
def escape? : Reader Char
  | 'b' :: cs => some ('\x08', cs)
  | 't' :: cs => some ('\t', cs)
  | 'n' :: cs => some ('\n', cs)
  | 'f' :: cs => some ('\x0C', cs)
  | 'r' :: cs => some ('\r', cs)
  | '"' :: cs => some ('"', cs)
  | '\\' :: cs => some ('\\', cs)
  | 'u' :: cs => do
      let (n, cs) ← hexes? 4 0 cs
      some (← scalar? n, cs)
  | 'U' :: cs => do
      let (n, cs) ← hexes? 8 0 cs
      some (← scalar? n, cs)
  | _ => none

def basic? : Nat → List Char → Reader String
  | fuel + 1, seen, c :: cs =>
      if c = '"' then some (String.ofList seen.reverse, cs)
      else if c = '\\' then do
        let (escaped, cs) ← escape? cs
        basic? fuel (escaped :: seen) cs
      else if isVisible c then basic? fuel (c :: seen) cs
      else none
  | _, _, _ => none

def literal? (cs : List Char) : Option (String × List Char) :=
  let (text, rest) := cs.span fun c => c ≠ '\'' && isVisible c
  match rest with
  | '\'' :: rest => some (String.ofList text, rest)
  | _ => none

/-- Blanks and line ends. -/
def skipFolded : Nat → List Char → List Char
  | 0, cs => cs
  | fuel + 1, cs =>
      match newline? (skipSpaces cs) with
      | some rest => skipFolded fuel rest
      | none => skipSpaces cs

/-- Up to five quotes end a text: three close it, those before belong to it. -/
def closing? (quote : Char) (cs : List Char) : Option (List Char × List Char) :=
  let count := (cs.takeWhile (· = quote)).length
  if count < 3 then none
  else
    let kept := min (count - 3) 2
    some (List.replicate kept quote, cs.drop (kept + 3))

def manyLines? (quote : Char) : Nat → List Char → Reader String
  | fuel + 1, seen, c :: cs =>
      if c = quote then
        match closing? quote (c :: cs) with
        | some (kept, rest) => some (String.ofList (kept ++ seen).reverse, rest)
        | none => manyLines? quote fuel (c :: seen) cs
      else if c = '\\' && quote = '"' then
        match newline? (skipSpaces cs) with
        | some rest => manyLines? quote fuel seen (skipFolded fuel rest)
        | none => do
            let (escaped, cs) ← escape? cs
            manyLines? quote fuel (escaped :: seen) cs
      else if isVisible c then manyLines? quote fuel (c :: seen) cs
      else
        match newline? (c :: cs) with
        | some rest => manyLines? quote fuel ('\n' :: seen) rest
        | none => none
  | _, _, _ => none

/-- A line end right after the opening quotes is not part of the text. -/
def skipFirstNewline (cs : List Char) : List Char := (newline? cs).getD cs

def string? : Reader String
  | '"' :: '"' :: '"' :: cs => manyLines? '"' (cs.length + 1) [] (skipFirstNewline cs)
  | '\'' :: '\'' :: '\'' :: cs => manyLines? '\'' (cs.length + 1) [] (skipFirstNewline cs)
  | '"' :: cs => basic? (cs.length + 1) [] cs
  | '\'' :: cs => literal? cs
  | _ => none

/-! Keys. -/

def isBareKey (c : Char) : Bool := c.isAlphanum || c = '_' || c = '-'

def simpleKey? : Reader String
  | '"' :: cs => basic? (cs.length + 1) [] cs
  | '\'' :: cs => literal? cs
  | cs =>
      let (name, rest) := cs.span isBareKey
      if name.isEmpty then none else some (String.ofList name, rest)

def keyParts? : Nat → Reader (List String)
  | 0, _ => none
  | limit + 1, cs => do
      let (first, rest) ← simpleKey? (skipSpaces cs)
      match skipSpaces rest with
      | '.' :: rest => do
          let (others, rest) ← keyParts? limit rest
          some (first :: others, rest)
      | rest => some ([first], rest)

def key? : Reader (List String) := keyParts? nestingLimit

/-! Values. -/

def items? (value : Reader Toml) : Nat → Reader (List Toml)
  | 0, _ => none
  | fuel + 1, cs =>
      match skipLines (fuel + 1) cs with
      | ']' :: rest => some ([], rest)
      | cs => do
          let (first, rest) ← value cs
          match skipLines (fuel + 1) rest with
          | ',' :: rest => do
              let (others, rest) ← items? value fuel rest
              some (first :: others, rest)
          | ']' :: rest => some ([first], rest)
          | _ => none

def pair? (value : Reader Toml) : Reader (List String × Toml) := fun cs => do
  let (path, rest) ← key? cs
  match rest with
  | '=' :: rest => do
      let (item, rest) ← value (skipSpaces rest)
      some ((path, item), rest)
  | _ => none

def pairs? (value : Reader Toml) : Nat → Reader (List (List String × Toml))
  | 0, _ => none
  | fuel + 1, cs => do
      let (first, rest) ← pair? value cs
      match skipSpaces rest with
      | ',' :: rest => do
          let (others, rest) ← pairs? value fuel rest
          some (first :: others, rest)
      | '\x7d' :: rest => some ([first], rest)
      | _ => none

def braced? (value : Reader Toml) (cs : List Char) : Option (Toml × List Char) :=
  match skipSpaces cs with
  | '\x7d' :: rest => some (.table .inline [], rest)
  | cs => do
      let (entries, rest) ← pairs? value (cs.length + 1) cs
      some (← inlineTable? entries, rest)

/-- A value with at most `levels` levels of arrays and braces. -/
def value? : Nat → Reader Toml
  | levels, cs =>
      match cs with
      | '[' :: rest =>
          match levels with
          | 0 => none
          | levels + 1 => do
              let (items, rest) ← items? (value? levels) (rest.length + 1) rest
              some (.array items, rest)
      | '\x7b' :: rest =>
          match levels with
          | 0 => none
          | levels + 1 => braced? (value? levels) rest
      | 't' :: 'r' :: 'u' :: 'e' :: rest => some (.bool true, rest)
      | 'f' :: 'a' :: 'l' :: 's' :: 'e' :: rest => some (.bool false, rest)
      | '"' :: _ => (string? cs).map fun found => (.str found.1, found.2)
      | '\'' :: _ => (string? cs).map fun found => (.str found.1, found.2)
      | _ => numeric? cs

/-! Lines. -/

def header? (cs : List Char) : Option (List String × List Char) := do
  let (path, rest) ← key? cs
  match rest with
  | ']' :: rest => some (path, rest)
  | _ => none

def arrayHeader? (cs : List Char) : Option (List String × List Char) := do
  let (path, rest) ← key? cs
  match rest with
  | ']' :: ']' :: rest => some (path, rest)
  | _ => none

def line? (cs : List Char) : Option (Line × List Char) :=
  match skipSpaces cs with
  | [] => some (.blank, [])
  | '[' :: '[' :: rest => do
      let (path, rest) ← arrayHeader? rest
      some (.arrayHeader path, ← lineEnd? rest)
  | '[' :: rest => do
      let (path, rest) ← header? rest
      some (.header path, ← lineEnd? rest)
  | c :: rest =>
      if c = '#' || c = '\n' || c = '\r' then do some (.blank, ← lineEnd? (c :: rest))
      else do
        let ((path, value), rest) ← pair? (value? nestingLimit) (c :: rest)
        some (.entry path value, ← lineEnd? rest)

def lines? : Nat → List Char → Draft → Option Draft
  | _, [], draft => some draft
  | 0, _ :: _, _ => none
  | fuel + 1, cs, draft => do
      let (line, rest) ← line? cs
      lines? fuel rest (← draft.add? line)

/-- A byte order mark in front is skipped. -/
def read? (text : String) : Option Toml := do
  let cs := match text.toList with
    | '\uFEFF' :: rest => rest
    | cs => cs
  return (← lines? (cs.length + 1) cs {}).root

end Wiring.Toml
