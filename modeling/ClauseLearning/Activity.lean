import ClauseLearning.Database

/-!
# Clause activity

Clauses that take part in conflicts are bumped. Instead of decaying all activities after each conflict, the bump grows
(`ActivityScale.decayed`); before it overflows, the bump and all activities are scaled down (`Database.rescale`). Only
the order of activities matters, so this amounts to decaying each of them.
-/

namespace ClauseLearning

/-- Activities are scaled down from here on, a sixteenth of the greatest single precision number. -/
def rescaleLimit : Float32 := Float32.ofBits 0x7f7fffff / 16

/-- The factor by which activities are scaled down. -/
def rescaleFactor : Float32 := 1 / rescaleLimit

/-- What a bump adds, and the factor by which it grows after each conflict. -/
structure ActivityScale where
  bump : Float32 := 1
  growth : Float32 := 1 / 0.999

namespace ActivityScale

/-- The scale for another decay factor. -/
def withDecay (a : ActivityScale) (decay : Float32) : ActivityScale := { a with growth := 1 / decay }

def grown (a : ActivityScale) : ActivityScale := { a with bump := a.bump * a.growth }

def rescaled (a : ActivityScale) : ActivityScale := { a with bump := a.bump * rescaleFactor }

end ActivityScale

namespace Database

/-- Scales down the activity of every clause that is not deleted, and drops deleted clauses from the list of all. -/
def rescale (d : Database) : Database :=
  let live := d.live
  live.foldl (fun d r => d.modify r fun c => { c with activity := c.activity * rescaleFactor })
    { d with listed := live.toArray }

/-- Increases the activity of a clause. -/
def bumpActivity (d : Database) (a : ActivityScale) (r : ClauseRef) : Database × ActivityScale :=
  let activity := (d.get r).activity + a.bump
  let d := d.modify r ({ · with activity := activity })
  if rescaleLimit < activity then (d.rescale, a.rescaled) else (d, a)

/-- Decays all activities. -/
def decayActivities (d : Database) (a : ActivityScale) : Database × ActivityScale :=
  let a := a.grown
  if rescaleLimit ≤ a.bump then (d.rescale, a.rescaled) else (d, a)

end Database

end ClauseLearning
