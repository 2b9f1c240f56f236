import TypedFlow.Number.Rounding

/-!
# Arithmetic

Each operation is the exact one on counts of least steps, rounded once.
-/
namespace TypedFlow.Number

def add : Number → Number → Number
  | .nan, _ | _, .nan => .nan
  | .infinite a, .infinite b => if a == b then .infinite a else .nan
  | .infinite a, _ | _, .infinite a => .infinite a
  | .finite a x, .finite b y =>
    let sum := signed a x.units + signed b y.units
    if sum = 0 then ofUnits (a && b) 0 else ofUnits (sum < 0) sum.natAbs

instance : Add Number := ⟨add⟩
instance : Sub Number := ⟨fun a b => a + -b⟩

def mul : Number → Number → Number
  | .nan, _ | _, .nan => .nan
  | .infinite a, .infinite b => .infinite (a != b)
  | .infinite a, .finite b y | .finite b y, .infinite a =>
    if y.units = 0 then .nan else .infinite (a != b)
  | .finite a x, .finite b y => ofRatio (a != b) (x.units * y.units) unitsPerOne

instance : Mul Number := ⟨mul⟩

def div : Number → Number → Number
  | .nan, _ | _, .nan | .infinite _, .infinite _ => .nan
  | .infinite a, .finite b _ => .infinite (a != b)
  | .finite a _, .infinite b => ofUnits (a != b) 0
  | .finite a x, .finite b y =>
    if y.units = 0 then if x.units = 0 then .nan else .infinite (a != b)
    else ofRatio (a != b) (x.units * unitsPerOne) y.units

instance : Div Number := ⟨div⟩

/-- The greatest integral number that is not above; a zero keeps its sign. -/
def floor : Number → Number
  | .finite true x => ofUnits true ((x.units + (unitsPerOne - 1)) / unitsPerOne * unitsPerOne)
  | .finite false x => ofUnits false (x.units / unitsPerOne * unitsPerOne)
  | a => a

/-- The least integral number that is not below; a negative fraction gives a negative zero. -/
def ceil (a : Number) : Number := -floor (-a)

end TypedFlow.Number
