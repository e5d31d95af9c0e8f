/-!
# Marks

`Marks` are a set of small numbers, kept between uses so that a use costs no more than the elements it touches. Who
marks something unmarks it again (`Marks.unmarkAll`), which leaves the set empty for the next use.
-/

namespace ClauseLearning

/-- A set of numbers below the size of an array. -/
structure Marks where
  bits : Array Bool := #[]

namespace Marks

def has (m : Marks) (i : Nat) : Bool := m.bits.getD i false

def mark (m : Marks) (i : Nat) : Marks := ⟨m.bits.setIfInBounds i true⟩

def unmark (m : Marks) (i : Nat) : Marks := ⟨m.bits.setIfInBounds i false⟩

def markAll (m : Marks) (is : List Nat) : Marks := is.foldl mark m

def unmarkAll (m : Marks) (is : List Nat) : Marks := is.foldl unmark m

/-- Makes room for `count` more numbers. -/
def extend (m : Marks) (count : Nat) : Marks := ⟨m.bits ++ Array.replicate count false⟩

/-- Marks the elements of a list, and counts those that were not marked. -/
def markCounting : List Nat → Nat → Marks → Nat × Marks
  | [], count, m => (count, m)
  | i :: is, count, m => if m.has i then markCounting is count m else markCounting is (count + 1) (m.mark i)

/-- The number of different elements of a list, none of them marked before. The marks are left as they were. -/
def countDistinct (m : Marks) (is : List Nat) : Nat × Marks :=
  let (count, m) := markCounting is 0 m
  (count, m.unmarkAll is)

end Marks

end ClauseLearning
