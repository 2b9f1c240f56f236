import TypedFlow.Scope.Build

/-!
# The prelude

The root of every chain of scopes: the built-in functions, the truth values and the integers that
are not negative.
-/
namespace TypedFlow

def preludeSource : String := "
enum bool \x7b true, false \x7d

# Non-negative integers.
let uint = int(0..);
"

def preludeName : String := "prelude"

def prelude : Except DefinitionError Scope := do
  let builtins := Builtin.all.foldl ScopeBuilder.withBuiltin (ScopeBuilder.new preludeName [])
  let (builder, added) := builtins.addSource preludeSource
  added
  builder.build

end TypedFlow
