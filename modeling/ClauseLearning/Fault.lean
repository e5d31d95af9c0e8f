/-!
# Faults

A program relies on its indices being in range, on its assertions, on scratch space being clear, on there being room,
and on numbers that do not leave the range of 64 bits. Where this is not so it stops with a `Fault`. Builds of a program
differ in the faults that they look for, and go on where they do not look.

* `Fault`, `Build` : why a program stops, and when;
* `Fallible` : a program that may stop;
* `require`, `word` : a check, and a number that has to fit.
-/

namespace ClauseLearning

/-- Why a program stops. -/
inductive Fault
  /-- An index is out of range, or a reference belongs to no stored clause. -/
  | outOfRange
  /-- An assertion fails. -/
  | assertion
  /-- A difference of natural numbers is negative. -/
  | underflow
  /-- A number is divided by zero. -/
  | division
  /-- Scratch space is not clear. -/
  | unclear
  /-- A clause would have to begin behind so many words. -/
  | storageFull (words : Nat)
  /-- A variable would have this index. -/
  | tooManyVariables (index : Nat)
  /-- A number does not fit into 64 bits. -/
  | overflow (n : Nat)
deriving DecidableEq

/-- A build of a program, by the faults that it looks for. One that looks for failing assertions finds a variable with
too great an index. -/
class Build where
  checks : Fault → Bool
  tooManyVariables (index : Nat) : checks .assertion → checks (.tooManyVariables index)

/-- A build that looks for all faults. -/
abbrev Build.checked : Build := ⟨fun _ => true, fun _ _ => rfl⟩

/-- A program that may stop with a fault. -/
abbrev Fallible := Except Fault

/-- Stops unless a condition holds, if the build looks for the fault. -/
def require [Build] (c : Prop) [Decidable c] (f : Fault) : Fallible Unit :=
  if c ∨ Build.checks f = false then .ok () else .error f

/-- A number of 64 bits. -/
def word [Build] (n : Nat) : Fallible Nat := do
  require (n < UInt64.size) (.overflow n)
  return n % UInt64.size

end ClauseLearning
