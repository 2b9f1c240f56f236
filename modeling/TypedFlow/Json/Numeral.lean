import TypedFlow.Json.Basic

/-!
# JSON numbers

A numeral without fraction and exponent that fits 64 bits is an integer; only `-0` is not. Any
other one keeps as many leading digits as fit 64 bits and is scaled by one power of ten, so a long
numeral may come out one step away from the nearest number. Past the greatest number it has no
value.
-/
namespace TypedFlow.Json

/-- Digits kept of a numeral are below this. -/
def wordLimit : Nat := Nat.pow 2 64

/-- Appends digits while the result fits, and gives back those that do not. -/
def takeDigits (significand : Nat) : List Char → Nat × List Char
  | [] => (significand, [])
  | c :: digits =>
    let next := significand * 10 + (c.toNat - '0'.toNat)
    if next < wordLimit then takeDigits next digits else (significand, c :: digits)

/-- The greatest power of ten among the numbers. -/
def greatestPower : Nat := 308

/-- Divides by a power of ten, in several steps if it is past the greatest one. -/
def scaleDown (x : Number) (exponent : Nat) : Number :=
  if exponent ≤ greatestPower then x / .ofNat (Nat.pow 10 exponent)
  else if x == 0 then x
  else scaleDown (x / .ofNat (Nat.pow 10 greatestPower)) (exponent - greatestPower)
termination_by exponent
decreasing_by
  have : greatestPower = 308 := rfl
  omega

/-- The number `significand * 10 ^ exponent`, unless it is out of range. -/
def scale? (significand : Nat) (exponent : Int) : Option Number :=
  let x := Number.ofNat significand
  if exponent < 0 then some (scaleDown x exponent.natAbs)
  else if exponent.natAbs ≤ greatestPower then
    let scaled := x * .ofNat (Nat.pow 10 exponent.natAbs)
    if scaled.isFinite then some scaled else none
  else if significand = 0 then some x
  else none

/-- The pieces of a numeral; `exponent` is there if it was written. -/
structure Numeral where
  negative : Bool
  whole : List Char
  fraction : List Char
  exponent : Option Int

def Numeral.value (n : Numeral) : Json :=
  let (significand, dropped) := takeDigits 0 n.whole
  let integral := n.fraction.isEmpty && n.exponent.isNone && dropped.isEmpty
  if integral && !n.negative then .integer significand
  else if integral && 0 < significand && significand ≤ wordLimit / 2 then .integer (-significand)
  else
    let (significand, rest) := takeDigits significand n.fraction
    let places := n.fraction.length - rest.length
    match scale? significand (dropped.length - places + n.exponent.getD 0) with
    | some x => .float (if n.negative then -x else x)
    | none => .unreadable

/-- The leading digits of a text and what follows them. -/
def digits (cs : List Char) : List Char × List Char := cs.span Char.isDigit

/-- An optional fraction: a point with at least one digit. -/
def readFraction : List Char → Option (List Char × List Char)
  | '.' :: rest =>
    match digits rest with
    | ([], _) => none
    | (found, rest) => some (found, rest)
  | rest => some ([], rest)

def digitsValue (ds : List Char) : Nat := ds.foldl (fun n c => n * 10 + (c.toNat - '0'.toNat)) 0

/-- An optional exponent: a letter, an optional sign and at least one digit. -/
def readExponent (cs : List Char) : Option (Option Int × List Char) :=
  match cs with
  | c :: rest =>
    if c == 'e' || c == 'E' then
      let (negative, rest) := match rest with
        | '-' :: rest => (true, rest)
        | '+' :: rest => (false, rest)
        | rest => (false, rest)
      match digits rest with
      | ([], _) => none
      | (found, rest) => some (some (Number.signed negative (digitsValue found)), rest)
    else some (none, cs)
  | [] => some (none, [])

/-- A numeral at the start of a text. Its whole part has no needless leading zero. -/
def readNumeral? (cs : List Char) : Option (Numeral × List Char) := do
  let (negative, cs) := match cs with
    | '-' :: rest => (true, rest)
    | cs => (false, cs)
  let (whole, cs) := digits cs
  match whole with
  | [] => none
  | '0' :: _ :: _ => none
  | whole =>
    let (fraction, cs) ← readFraction cs
    let (exponent, cs) ← readExponent cs
    return (⟨negative, whole, fraction, exponent⟩, cs)

end TypedFlow.Json
