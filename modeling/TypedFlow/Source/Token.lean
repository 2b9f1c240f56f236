import TypedFlow.Number.Text
import TypedFlow.Source.Position
import TypedFlow.Text.Quoted

/-!
# Tokens

The tokens of expressions and definitions. A range operator says for either end whether it is left
out of the range; every other mark is a `Symbol` with one spelling.
-/
namespace TypedFlow

inductive Symbol
  | openBrace
  | closeBrace
  | openParen
  | closeParen
  | comma
  | colon
  | pathSeparator
  | dot
  | semicolon
  | assign
  | arrow
  | bar
  | ampersand
  | plus
  | minus
  | star
deriving DecidableEq

def Symbol.spelling : Symbol → String
  | .openBrace => "\x7b"
  | .closeBrace => "\x7d"
  | .openParen => "("
  | .closeParen => ")"
  | .comma => ","
  | .colon => ":"
  | .pathSeparator => "::"
  | .dot => "."
  | .semicolon => ";"
  | .assign => "="
  | .arrow => "=>"
  | .bar => "|"
  | .ampersand => "&"
  | .plus => "+"
  | .minus => "-"
  | .star => "*"

/-- The operator of a range, by which of its ends are included. -/
structure RangeMark where
  minInclusive : Bool
  maxInclusive : Bool
deriving DecidableEq

def RangeMark.spelling (mark : RangeMark) : String :=
  (if mark.minInclusive then "" else "<") ++ ".." ++ (if mark.maxInclusive then "" else "<")

inductive Token
  | word (name : String)
  | number (value : Number)
  | text (value : String)
  | range (mark : RangeMark)
  | symbol (symbol : Symbol)
deriving DecidableEq

def Token.description : Token → String
  | .word name => "'" ++ name ++ "'"
  | .number value => "number " ++ value.toText
  | .text value => "string " ++ Text.quote value
  | .range _ => "range operator"
  | .symbol s => "'" ++ s.spelling ++ "'"

/-- How the next token is called, if there is one. -/
def describeNext : Option Token → String
  | some token => token.description
  | none => "end of input"

/-- A token with the position of its first character. -/
structure PlacedToken where
  token : Token
  position : Position

/-- The tokens of a text, and where the text ends. -/
structure TokenList where
  tokens : List PlacedToken
  finish : Position

end TypedFlow
