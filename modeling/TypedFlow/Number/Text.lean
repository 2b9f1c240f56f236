import TypedFlow.Number.Shortest

/-!
# Number texts

`toText` writes the shortest decimal positionally, never with an exponent. `display` is the text
used inside types and expressions: there a whole number of moderate size is written as an integer,
so a negative zero loses its sign.
-/
namespace TypedFlow.Number

/-- The digits after the point without trailing zeros. -/
def fractionDigits (fraction : Nat) : List Char :=
  let digits := Nat.toDigits 10 fraction
  let padded := List.replicate (finestPlace - digits.length) '0' ++ digits
  (padded.reverse.dropWhile (· == '0')).reverse

def decimalText (decimal : Nat) : String :=
  let whole := toString (decimal / finestPerOne)
  let fraction := decimal % finestPerOne
  if fraction = 0 then whole else whole ++ "." ++ String.ofList (fractionDigits fraction)

def toText : Number → String
  | .nan => "NaN"
  | .infinite negative => if negative then "-inf" else "inf"
  | .finite negative x =>
    (if negative then "-" else "") ++ decimalText (if x.units = 0 then 0 else shortest x)

/-- Whole numbers below this are written as integers. -/
def displayLimit : Nat := Nat.pow 10 15

def display : Number → String
  | .finite negative x =>
    if x.units % unitsPerOne = 0 && x.units / unitsPerOne < displayLimit then
      toString (signed negative (x.units / unitsPerOne))
    else toText (.finite negative x)
  | a => toText a

end TypedFlow.Number
