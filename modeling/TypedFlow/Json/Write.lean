import TypedFlow.Json.Basic
import TypedFlow.Number.Text

/-!
# Writing JSON

`compact` leaves no blanks; `pretty` puts every item on a line of its own, two spaces further in,
but keeps an empty array or object on one line. Both keep the members of an object in their order.
-/
namespace TypedFlow.Json

def hexPadded (n : Nat) : List Char :=
  let ds := Nat.toDigits 16 n
  List.replicate (4 - ds.length) '0' ++ ds

def escapeChar (c : Char) : List Char :=
  match c with
  | '"' => ['\\', '"']
  | '\\' => ['\\', '\\']
  | '\x08' => ['\\', 'b']
  | '\x0c' => ['\\', 'f']
  | '\n' => ['\\', 'n']
  | '\r' => ['\\', 'r']
  | '\t' => ['\\', 't']
  | c => if c.toNat < 0x20 then '\\' :: 'u' :: hexPadded c.toNat else [c]

def stringText (s : String) : String := String.ofList ('"' :: s.toList.flatMap escapeChar ++ ['"'])

/-- A float is told from an integer by its point. -/
def floatText (x : Number) : String :=
  if x.isIntegral then x.toText ++ ".0" else if x.isFinite then x.toText else "null"

/-- The text of a value without parts. -/
def scalarText : Json → String
  | .bool value => if value then "true" else "false"
  | .integer value => toString value
  | .float value => floatText value
  | .string text => stringText text
  | _ => "null"

mutual

def compact : Json → String
  | .array items => "[" ++ ",".intercalate (compactItems items) ++ "]"
  | .object members => "\x7b" ++ ",".intercalate (compactMembers members) ++ "\x7d"
  | j => scalarText j

def compactItems : List Json → List String
  | [] => []
  | j :: items => compact j :: compactItems items

def compactMembers : List (String × Json) → List String
  | [] => []
  | (name, j) :: members => (stringText name ++ ":" ++ compact j) :: compactMembers members

end

def newline (indent : Nat) : String := "\n" ++ String.ofList (List.replicate (2 * indent) ' ')

/-- Brackets around lines that stand one step further in. -/
def block (opening closing : String) (indent : Nat) (lines : List String) : String :=
  if lines.isEmpty then opening ++ closing
  else
    opening ++ newline (indent + 1) ++ ("," ++ newline (indent + 1)).intercalate lines ++
      newline indent ++ closing

mutual

/-- The pretty text of a value that starts on a line with the given indent. -/
def prettyAt (indent : Nat) : Json → String
  | .array items => block "[" "]" indent (prettyItems (indent + 1) items)
  | .object members => block "\x7b" "\x7d" indent (prettyMembers (indent + 1) members)
  | j => scalarText j

def prettyItems (indent : Nat) : List Json → List String
  | [] => []
  | j :: items => prettyAt indent j :: prettyItems indent items

def prettyMembers (indent : Nat) : List (String × Json) → List String
  | [] => []
  | (name, j) :: members =>
    (stringText name ++ ": " ++ prettyAt indent j) :: prettyMembers indent members

end

def pretty (j : Json) : String := prettyAt 0 j

end TypedFlow.Json
