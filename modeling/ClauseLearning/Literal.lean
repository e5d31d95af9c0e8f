import ClauseLearning.Fault
import ClauseLearning.StableSort

/-!
# Variables and literals

* `Var` : a boolean variable, an index counted from 0; users write its `number`, counted from 1;
* `Lit` : a variable or its negation, held as a code, `2 * index` for the variable and `2 * index + 1` for its
  negation; `-l` is the opposite literal;
* `Lit.ofIndex` : the literals of a variable by its index, which has to be one of those supported;
* `Var.ofNumber?`, `Lit.ofSigned?` : the checked readings of the numbers users write, with `Var.number` and
  `Lit.signed` as the way back;
* `Lit.sort`, `Lit.distinct` : literals by increasing code, and without repetitions. The two literals of a variable
  have neighbouring codes, which `Lit.hasOpposites` relies on.
-/

namespace ClauseLearning

/-- A boolean variable, by its index. -/
structure Var where
  index : Nat
deriving DecidableEq, Inhabited

/-- A literal, by its code. -/
structure Lit where
  code : Nat
deriving DecidableEq, Inhabited

/-! ## Variables -/

/-- The number of variables supported. -/
def Var.maxCount : Nat := 0x10000000

/-- The variable of a number counted from 1, if it is in range. -/
def Var.ofNumber? (number : Int32) : Option Var :=
  if 0 < number.toInt ∧ number.toInt ≤ Var.maxCount then some ⟨number.toInt.toNat - 1⟩ else none

/-- The number of a variable, counted from 1. -/
def Var.number (v : Var) : Int32 := Int32.ofNat (v.index + 1)

/-- The literal that is true when `v` has the value `polarity`. -/
def Var.lit (v : Var) (polarity : Bool) : Lit := ⟨2 * v.index + (if polarity then 0 else 1)⟩

/-- The literal that is true when `v` is. -/
def Var.positive (v : Var) : Lit := v.lit true

/-- The literal that is true when `v` is not. -/
def Var.negative (v : Var) : Lit := v.lit false

/-- A variable is written as its number. -/
def Var.render (v : Var) : String := toString v.number.toInt

/-! ## Literals -/

namespace Lit

/-- The literal that is true when the variable of an index has the value `polarity`. Codes have 32 bits. -/
def ofIndex [Build] (index : Nat) (polarity : Bool) : Fallible Lit := do
  require (index < Var.maxCount) .assertion
  return ⟨2 * index % UInt32.size + (if polarity then 0 else 1)⟩

/-- The variable of a literal. -/
def var (l : Lit) : Var := ⟨l.code / 2⟩

def isNegative (l : Lit) : Bool := l.code % 2 == 1

def isPositive (l : Lit) : Bool := !l.isNegative

/-- The opposite literal, whose code differs in the lowest bit. -/
def opposite (l : Lit) : Lit := if l.code % 2 = 0 then ⟨l.code + 1⟩ else ⟨l.code - 1⟩

instance : Neg Lit := ⟨opposite⟩

/-- The literal itself, or its opposite when `flip` holds. -/
def flipIf (l : Lit) (flip : Bool) : Lit := if flip then -l else l

/-- The literal of a signed number: the magnitude is the variable's number, the sign is the polarity. Zero and
magnitudes out of range have none. -/
def ofSigned? (number : Int32) : Option Lit :=
  if number.toInt = 0 ∨ Var.maxCount < number.toInt.natAbs then none
  else some (Var.lit ⟨number.toInt.natAbs - 1⟩ (decide (0 < number.toInt)))

/-- The signed number of a literal. -/
def signed (l : Lit) : Int32 := if l.isNegative then -l.var.number else l.var.number

/-- A literal is written as its signed number. -/
def render (l : Lit) : String := toString l.signed.toInt

/-- A list of literals is written in brackets, with commas between. -/
def renderList (ls : List Lit) : String := "[" ++ ", ".intercalate (ls.map render) ++ "]"

/-- Literals by increasing code. -/
def sort (ls : List Lit) : List Lit := sortBy Lit.code ls

/-- Literals by increasing code, each once. -/
def distinct (ls : List Lit) : List Lit := (sort ls).eraseReps

/-- Whether a literal is followed by its opposite. In a sorted list without repetitions this finds every pair of
opposite literals. -/
def hasOpposites : List Lit → Bool
  | a :: b :: rest => a == -b || hasOpposites (b :: rest)
  | _ => false

end Lit

end ClauseLearning
