import Wiring.Json
import Wiring.Decimal.Scaled

/-!
JSON text as written. A document is well formed or not; whether its strings and numbers mean
anything is asked only of the parts that are used. `Document.parse?` reads the form, `value?` the
meaning.

A string that names half of a surrogate pair has no text. A numeral without point and exponent that
fits 64 bits is an integer; every other one is a floating-point number, none where it is too large.
-/

namespace Wiring.Json

inductive Document where
  | null
  | bool (b : Bool)
  | number (value : Option Json)
  | str (text : Option String)
  | arr (items : List Document)
  | obj (fields : List (Option String × Document))
deriving Inhabited

namespace Document

def isBlank (c : Char) : Bool := c = ' ' || c = '\n' || c = '\t' || c = '\r'

def skipBlanks (cs : List Char) : List Char := cs.dropWhile isBlank

def digitValue (c : Char) : Nat := c.toNat - '0'.toNat

def hexValue? (c : Char) : Option Nat :=
  if '0' ≤ c && c ≤ '9' then some (c.toNat - '0'.toNat)
  else if 'a' ≤ c && c ≤ 'f' then some (c.toNat - 'a'.toNat + 10)
  else if 'A' ≤ c && c ≤ 'F' then some (c.toNat - 'A'.toNat + 10)
  else none

def hexQuad? : List Char → Option (Nat × List Char)
  | a :: b :: c :: d :: rest => do
      let n := (← hexValue? a) * 4096 + (← hexValue? b) * 256 + (← hexValue? c) * 16
      pure (n + (← hexValue? d), rest)
  | _ => none

def shortEscape? : Char → Option Char
  | '"' => some '"'
  | '\\' => some '\\'
  | '/' => some '/'
  | 'b' => some '\x08'
  | 'f' => some '\x0C'
  | 'n' => some '\n'
  | 'r' => some '\r'
  | 't' => some '\t'
  | _ => none

def isHighSurrogate (n : Nat) : Bool := 0xD800 ≤ n && n ≤ 0xDBFF

def isLowSurrogate (n : Nat) : Bool := 0xDC00 ≤ n && n ≤ 0xDFFF

/-- The text up to the closing quote, last character first; `none` for text with a lone surrogate. -/
def string? (fuel : Nat) (seen : Option (List Char)) (cs : List Char) :
    Option (Option String × List Char) :=
  match fuel, cs with
  | _, [] => none
  | 0, _ => none
  | _ + 1, '"' :: rest =>
      some (seen.map fun chars => String.ofList chars.reverse, rest)
  | fuel + 1, '\\' :: 'u' :: rest => do
      let (n, rest) ← hexQuad? rest
      if isHighSurrogate n then
        match rest with
        | '\\' :: 'u' :: after =>
            match hexQuad? after with
            | some (low, after) =>
                if isLowSurrogate low then
                  let code := 0x10000 + (n - 0xD800) * 1024 + (low - 0xDC00)
                  string? fuel (seen.map (Char.ofNat code :: ·)) after
                else string? fuel none rest
            | none => none
        | _ => string? fuel none rest
      else if isLowSurrogate n then string? fuel none rest
      else string? fuel (seen.map (Char.ofNat n :: ·)) rest
  | fuel + 1, '\\' :: c :: rest => do
      let escaped ← shortEscape? c
      string? fuel (seen.map (escaped :: ·)) rest
  | fuel + 1, c :: rest =>
      if c.toNat < 32 || c = '\\' then none
      else string? fuel (seen.map (c :: ·)) rest

/-- Significand and the number of digits read, while the significand fits 64 bits. -/
def significand (start : Nat) : List Char → Nat × Nat
  | [] => (start, 0)
  | c :: rest =>
      let next := start * 10 + digitValue c
      if next < Nat.pow 2 64 then
        let (n, count) := significand next rest
        (n, count + 1)
      else (start, 0)

def floatOf (negative : Bool) (significand : Nat) (exponent : Int) : Option Json :=
  (Decimal.scaled? significand.toUInt64 exponent).map fun x => .float (if negative then -x else x)

/-- Whole digits beyond 64 bits raise the exponent, digits after the point lower it while they fit
and are dropped from the first one that does not. -/
def numeralValue (negative : Bool) (whole : List Char) (fraction : Option (List Char))
    (exponent : Option (Bool × List Char)) : Option Json :=
  let (kept, count) := significand 0 whole
  let beyond : Int := whole.length - count
  match fraction, exponent with
  | none, none =>
      if beyond > 0 then floatOf negative kept beyond
      else if !negative then some (.int kept)
      else if kept = 0 || kept > Nat.pow 2 63 then floatOf true kept 0
      else some (.int (-kept))
  | _, _ =>
      let (kept, places) := significand kept (fraction.getD [])
      let power : Int := beyond - places
      match exponent with
      | none => floatOf negative kept power
      | some (down, digits) =>
          let size : Int := digits.foldl (fun n c => n * 10 + digitValue c) 0
          if size > 2147483647 then
            if kept ≠ 0 && !down then none
            else some (.float (if negative then -0.0 else 0.0))
          else floatOf negative kept (if down then power - size else power + size)

def spanDigits (cs : List Char) : List Char × List Char := cs.span Char.isDigit

/-- A numeral has no superfluous zero in front and a digit on both sides of its point. -/
def numeral? (cs : List Char) : Option (Document × List Char) := do
  let (negative, cs) := match cs with
    | '-' :: rest => (true, rest)
    | _ => (false, cs)
  let (whole, cs) := spanDigits cs
  if whole.isEmpty || (whole.length > 1 && whole.head? = some '0') then none
  let (fraction, cs) ← match cs with
    | '.' :: rest =>
        let (digits, rest) := spanDigits rest
        if digits.isEmpty then none else some (some digits, rest)
    | _ => some (none, cs)
  let (exponent, cs) ← match cs with
    | c :: rest =>
        if c = 'e' || c = 'E' then
          let (down, rest) := match rest with
            | '-' :: rest => (true, rest)
            | '+' :: rest => (false, rest)
            | _ => (false, rest)
          let (digits, rest) := spanDigits rest
          if digits.isEmpty then none else some (some (down, digits), rest)
        else some (none, cs)
    | [] => some (none, cs)
  pure (.number (numeralValue negative whole fraction exponent), cs)

def keyword? : List Char → Option (Document × List Char)
  | 'n' :: 'u' :: 'l' :: 'l' :: rest => some (.null, rest)
  | 't' :: 'r' :: 'u' :: 'e' :: rest => some (.bool true, rest)
  | 'f' :: 'a' :: 'l' :: 's' :: 'e' :: rest => some (.bool false, rest)
  | _ => none

mutual

def value (fuel : Nat) (cs : List Char) : Option (Document × List Char) :=
  match fuel, skipBlanks cs with
  | 0, _ => none
  | _, [] => none
  | fuel + 1, '"' :: rest => do
      let (text, rest) ← string? (fuel + 1) (some []) rest
      pure (.str text, rest)
  | fuel + 1, '[' :: rest =>
      match skipBlanks rest with
      | ']' :: rest => some (.arr [], rest)
      | rest => do
          let (items, rest) ← items fuel rest
          pure (.arr items, rest)
  | fuel + 1, '\x7b' :: rest =>
      match skipBlanks rest with
      | '\x7d' :: rest => some (.obj [], rest)
      | rest => do
          let (fields, rest) ← fields fuel rest
          pure (.obj fields, rest)
  | _, cs@(c :: _) => if c = '-' || c.isDigit then numeral? cs else keyword? cs

def items (fuel : Nat) (cs : List Char) : Option (List Document × List Char) :=
  match fuel with
  | 0 => none
  | fuel + 1 => do
      let (first, rest) ← value fuel cs
      match skipBlanks rest with
      | ',' :: rest =>
          let (others, rest) ← items fuel rest
          pure (first :: others, rest)
      | ']' :: rest => pure ([first], rest)
      | _ => none

def fields (fuel : Nat) (cs : List Char) :
    Option (List (Option String × Document) × List Char) :=
  match fuel, skipBlanks cs with
  | fuel + 1, '"' :: rest => do
      let (name, rest) ← string? (fuel + 1) (some []) rest
      match skipBlanks rest with
      | ':' :: rest =>
          let (first, rest) ← value fuel rest
          match skipBlanks rest with
          | ',' :: rest =>
              let (others, rest) ← fields fuel rest
              pure ((name, first) :: others, rest)
          | '\x7d' :: rest => pure ([(name, first)], rest)
          | _ => none
      | _ => none
  | _, _ => none

end

/-- Every call takes at least one character, so the text's length bounds their number. -/
def parse? (text : String) : Option Document := do
  let cs := text.toList
  let (document, rest) ← value (2 * cs.length + 2) cs
  if (skipBlanks rest).isEmpty then some document else none

mutual

def depth : Document → Nat
  | .arr items => depthItems items + 1
  | .obj fields => depthFields fields + 1
  | _ => 0

def depthItems : List Document → Nat
  | [] => 0
  | item :: rest => max (depth item) (depthItems rest)

def depthFields : List (Option String × Document) → Nat
  | [] => 0
  | (_, value) :: rest => max (depth value) (depthFields rest)

end

mutual

def value? : Document → Option Json
  | .null => some .null
  | .bool b => some (.bool b)
  | .number value => value
  | .str text => text.map .str
  | .arr items => (itemValues? items).map .arr
  | .obj fields => (fieldValues? fields).map .obj

def itemValues? : List Document → Option (List Json)
  | [] => some []
  | item :: rest => do
      let first ← value? item
      let others ← itemValues? rest
      pure (first :: others)

def fieldValues? : List (Option String × Document) → Option (List (String × Json))
  | [] => some []
  | (name, item) :: rest => do
      let name ← name
      let first ← value? item
      let others ← fieldValues? rest
      pure ((name, first) :: others)

end

end Document

/-- Text nested 128 levels deep or more is refused. -/
def read? (text : String) : Option Json := do
  let document ← Document.parse? text
  if document.depth < 128 then document.value? else none

end Wiring.Json
