import Wiring.Text.Printable

/-!
Text between double quotes for a reader's eye: quotes and backslashes are escaped, line ends and
tabs have their short escapes, and every character that shows no mark of its own is given by its
code point.
-/

namespace Wiring.Text

def hexDigits (n : Nat) : String := String.ofList (Nat.toDigits 16 n)

def quotedChar (c : Char) : String :=
  if c = '"' then "\\\""
  else if c = '\\' then "\\\\"
  else if c = '\n' then "\\n"
  else if c = '\r' then "\\r"
  else if c = '\t' then "\\t"
  else if c.toNat = 0 then "\\0"
  else if isPrintable c && !isExtending c then c.toString
  else "\\u\x7b" ++ hexDigits c.toNat ++ "\x7d"

def quoted (text : String) : String :=
  "\"" ++ String.join (text.toList.map quotedChar) ++ "\""

/-- Items between brackets, a comma and a blank after each but the last. -/
def listed (items : List String) : String := "[" ++ ", ".intercalate items ++ "]"

def mapped (entries : List (String × String)) : String :=
  "\x7b" ++ ", ".intercalate (entries.map fun entry => entry.1 ++ ": " ++ entry.2) ++ "\x7d"

def setOf (items : List String) : String := "\x7b" ++ ", ".intercalate items ++ "\x7d"

/-- A named record with its fields; an open one has parts that are not shown. -/
def record (name : String) (fields : List (String × String)) (isOpen : Bool := false) : String :=
  let shown := fields.map fun field => field.1 ++ ": " ++ field.2
  name ++ " \x7b " ++ ", ".intercalate (if isOpen then shown ++ [".."] else shown) ++ " \x7d"

end Wiring.Text
