import TypedFlow.Source.Scan

/-!
# Reading tokens

A reader consumes tokens from the front of a list. It carries the number of levels by which an
expression may still nest, and is told whether a brace after a name begins a record, which it does
not where a match expects its arms.
-/
namespace TypedFlow

structure ReaderState where
  tokens : List PlacedToken
  levels : Nat

structure ReaderContext where
  finish : Position
  records : Bool

abbrev Reader := ReaderT ReaderContext (StateT ReaderState (Except ParseError))

namespace Reader
variable {α : Type}

def keywords : List String := ["match", "as", "struct", "enum", "def", "let", "_"]

def peek : Reader (Option Token) := return (← get).tokens.head?.map (·.token)

def peekSecond : Reader (Option Token) := return (← get).tokens.tail.head?.map (·.token)

def skip : Reader Unit := modify fun s => { s with tokens := s.tokens.tail }

/-- Fails at the next token, or at the end of the text. -/
def fail (cause : ParseCause) : Reader α := do
  let position := (← get).tokens.head?.map (·.position)
  throw ⟨position.getD (← read).finish, cause⟩

def expected (what : String) : Reader α := do fail (.expected what (← peek))

def eat (s : Symbol) : Reader Bool := do
  if (← peek) = some (.symbol s) then
    skip
    return true
  else return false

def expect (s : Symbol) : Reader Unit := do
  unless ← eat s do expected (Token.symbol s).description

def expectEnd : Reader Unit := do
  unless (← peek).isNone do expected (describeNext none)

def eatWord (word : String) : Reader Bool := do
  if (← peek) = some (.word word) then
    skip
    return true
  else return false

def identifier (role : String) : Reader String := do
  match ← peek with
  | some (.word n) =>
    if keywords.contains n then expected role
    else
      skip
      return n
  | _ => expected role

def withRecords (allowed : Bool) (r : Reader α) : Reader α :=
  fun context => r { context with records := allowed }

def descend : Reader Unit := do
  match (← get).levels with
  | 0 => fail .nestedTooDeep
  | levels + 1 => modify fun s => { s with levels }

/-- One level further in; the levels used inside are given back. -/
def nested (r : Reader α) : Reader α := do
  let levels := (← get).levels
  descend
  let result ← r
  modify fun s => { s with levels }
  return result

/-- Items between commas, the last of which may be followed by nothing. Each round takes a comma,
so the tokens bound the rounds. -/
def itemsBefore (close : Symbol) (item : Reader α) : Nat → Reader (List α)
  | 0 => return []
  | rounds + 1 => do
    if (← peek) = some (.symbol close) then return []
    let first ← item
    if ← eat .comma then
      return first :: (← itemsBefore close item rounds)
    else return [first]

/-- Items between commas up to and with the closing symbol. -/
def delimited (close : Symbol) (item : Reader α) : Reader (List α) := do
  let items ← itemsBefore close item ((← get).tokens.length + 1)
  expect close
  return items

def run (r : Reader α) (source : String) : Except ParseError α := do
  let list ← Source.tokenize source
  let (result, _) ← (r ⟨list.finish, true⟩).run ⟨list.tokens, maxNesting⟩
  return result

end Reader
end TypedFlow
