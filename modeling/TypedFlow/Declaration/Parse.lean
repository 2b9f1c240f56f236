import TypedFlow.Declaration.Basic
import TypedFlow.Expr.Parse

/-!
# Reading declarations

A source is any number of items that begin with `struct`, `enum`, `def` or `let`; semicolons
between them are ignored. Each item takes at least one token, which bounds the recursion.
-/
namespace TypedFlow.Declaration
open Reader

def typedName (role : String) : Reader (String × Expr) := Expr.labelled Expr.expression role

def structItem : Reader Declaration := do
  let n ← identifier "struct name"
  if ← eat .semicolon then return .struct n []
  expect .openBrace
  return .struct n (← delimited .closeBrace (typedName "field name"))

def variant : Reader (String × Option Expr) := do
  let n ← identifier "variant name"
  if ← eat .openParen then
    let payload ← Expr.expression
    expect .closeParen
    return (n, some payload)
  else return (n, none)

def enumItem : Reader Declaration := do
  let n ← identifier "enum name"
  expect .openBrace
  let variants ← delimited .closeBrace variant
  if variants.isEmpty then fail (.emptyEnum n)
  return .enum n variants

def functionItem : Reader Declaration := do
  let n ← identifier "function name"
  let n ← if ← eat .pathSeparator then pathName n <$> identifier "function name" else pure n
  expect .openParen
  let params ← delimited .closeParen (typedName "parameter name")
  expect .openBrace
  let body ← Expr.expression
  expect .closeBrace
  return .function n params body

def aliasItem : Reader Declaration := do
  let n ← identifier "alias name"
  expect .assign
  let value ← Expr.expression
  expect .semicolon
  return .alias n value

def item : Reader Declaration := do
  if ← eatWord "struct" then structItem
  else if ← eatWord "enum" then enumItem
  else if ← eatWord "def" then functionItem
  else if ← eatWord "let" then aliasItem
  else expected "'struct', 'enum', 'def' or 'let'"

def items : Nat → Reader (List Declaration)
  | 0 => return []
  | rounds + 1 => do
    if (← peek).isNone then return []
    if ← eat .semicolon then items rounds
    else
      let first ← item
      return first :: (← items rounds)

def parse (source : String) : Except ParseError (List Declaration) :=
  Reader.run (do items (← get).tokens.length) source

end TypedFlow.Declaration
