import TypedFlow.Source.Token

/-!
# Errors in source text

A parse error is the position at which it was noticed and a cause.
-/
namespace TypedFlow

/-- The deepest expression that is read; trees nest no further than this. -/
def maxNesting : Nat := 128

inductive ParseCause
  | unexpectedCharacter (c : Char)
  | unknownEscape (c : Char)
  | unterminatedText
  | expected (what : String) (found : Option Token)
  | nestedTooDeep
  | rangeWithoutMin
  | rangeWithoutMax
  | emptyEnum (name : String)
  | emptyMatch
deriving DecidableEq

def ParseCause.message : ParseCause → String
  | .unexpectedCharacter c => "Unexpected character '" ++ String.singleton c ++ "'"
  | .unknownEscape c => "Unknown escape '\\" ++ String.singleton c ++ "'"
  | .unterminatedText => "Unterminated string"
  | .expected what found => "Expected " ++ what ++ ", found " ++ describeNext found
  | .nestedTooDeep => "Expression nests deeper than " ++ toString maxNesting ++ " levels"
  | .rangeWithoutMin => "A range without a lower bound cannot exclude it"
  | .rangeWithoutMax => "A range without an upper bound cannot exclude it"
  | .emptyEnum name => "Enum '" ++ name ++ "' declares no variants"
  | .emptyMatch => "A match needs at least one arm"

structure ParseError where
  position : Position
  cause : ParseCause
deriving DecidableEq

def ParseError.message (e : ParseError) : String :=
  "Parse error at " ++ toString e.position.line ++ ":" ++ toString e.position.column ++ ": " ++
    e.cause.message

end TypedFlow
