import ClauseLearning.Activity

/-!
# The decision heap

Variables that take part in conflicts are bumped, and decisions are made on the unassigned variable of the highest
activity, the one of the lowest index among equals (`DecisionHeap.before`). Activities decay as those of clauses do.

The candidates are kept in a binary heap with the position of each variable in it.

* `DecisionHeap.bump`, `DecisionHeap.decay` : activities;
* `DecisionHeap.setEnabled`, `DecisionHeap.makeAvailable` : which variables are candidates;
* `DecisionHeap.next?`, `DecisionHeap.find?` : removal of the best candidate, and of the best one of a kind. Variables
  that were disabled while they waited are dropped on the way.
-/

namespace ClauseLearning

/-- The candidates for decisions, and the activities of all variables. -/
structure DecisionHeap where
  activities : Array Float32 := #[]
  enabled : Array Bool := #[]
  heap : Array Var := #[]
  positions : Array (Option Nat) := #[]
  scale : ActivityScale := { growth := 1 / 0.95 }

namespace DecisionHeap

/-- Makes room for one more variable, which is disabled. -/
def addVar (h : DecisionHeap) : DecisionHeap :=
  { h with
    activities := h.activities.push 0
    enabled := h.enabled.push false
    positions := h.positions.push none }

def activity (h : DecisionHeap) (v : Var) : Float32 := h.activities.getD v.index 0

def isEnabled (h : DecisionHeap) (v : Var) : Bool := h.enabled.getD v.index false

def position? (h : DecisionHeap) (v : Var) : Option Nat := h.positions.getD v.index none

/-- Whether `a` is preferred to `b`. Activities are never negative, and such numbers are ordered as their bits. -/
def before (h : DecisionHeap) (a b : Var) : Bool :=
  let x := (h.activity a).toBits
  let y := (h.activity b).toBits
  decide (y < x) || (x == y && decide (a.index < b.index))

/-- Puts a variable at a position of the heap. -/
def place (h : DecisionHeap) (v : Var) (pos : Nat) : DecisionHeap :=
  { h with
    heap := h.heap.setIfInBounds pos v
    positions := h.positions.setIfInBounds v.index (some pos) }

/-- The variable at a position of the heap. -/
def at? (h : DecisionHeap) (pos : Nat) : Option Var := h.heap[pos]?

/-- Puts `v` at `pos` or, as long as it is preferred to the parent there, further up. -/
def siftUp (v : Var) : Nat → Nat → DecisionHeap → DecisionHeap
  | 0, pos, h => h.place v pos
  | fuel + 1, pos, h =>
    if pos = 0 then h.place v pos
    else
      match h.at? ((pos - 1) / 2) with
      | none => h.place v pos
      | some parent =>
        if h.before v parent then siftUp v fuel ((pos - 1) / 2) (h.place parent pos) else h.place v pos

/-- The better one of a variable at a position and the variable at another position, if there is one. -/
def better (h : DecisionHeap) (best : Nat × Var) (pos : Nat) : Nat × Var :=
  match h.at? pos with
  | none => best
  | some v => if h.before v best.2 then (pos, v) else best

/-- Puts `v` at `pos` or, as long as a child there is preferred to it, further down. -/
def siftDown (v : Var) : Nat → Nat → DecisionHeap → DecisionHeap
  | 0, pos, h => h.place v pos
  | fuel + 1, pos, h =>
    let (childPos, child) := h.better (h.better (pos, v) (2 * pos + 1)) (2 * pos + 2)
    if childPos = pos then h.place v pos else siftDown v fuel childPos (h.place child pos)

/-! ## Activities -/

/-- Scales down all activities and the bump. -/
def rescale (h : DecisionHeap) : DecisionHeap :=
  { h with activities := h.activities.map (· * rescaleFactor), scale := h.scale.rescaled }

/-- Increases the activity of a variable. -/
def bump (h : DecisionHeap) (v : Var) : DecisionHeap :=
  let activity := h.activity v + h.scale.bump
  let h := { h with activities := h.activities.setIfInBounds v.index activity }
  let h := if rescaleLimit ≤ activity then h.rescale else h
  match h.position? v with
  | some pos => siftUp v pos pos h
  | none => h

/-- Decays the activities of all variables. -/
def decay (h : DecisionHeap) : DecisionHeap :=
  let h := { h with scale := h.scale.grown }
  if rescaleLimit ≤ h.scale.bump then h.rescale else h

/-- Changes the decay factor. -/
def withDecay (h : DecisionHeap) (decay : Float32) : DecisionHeap := { h with scale := h.scale.withDecay decay }

/-! ## Candidates -/

/-- Puts an enabled variable into the heap if it is not there. -/
def makeAvailable (h : DecisionHeap) (v : Var) : DecisionHeap :=
  if h.isEnabled v && (h.position? v).isNone then
    siftUp v h.heap.size h.heap.size { h with heap := h.heap.push v }
  else h

/-- Allows or forbids decisions on a variable. -/
def setEnabled (h : DecisionHeap) (v : Var) (enabled : Bool) : DecisionHeap :=
  let h := { h with enabled := h.enabled.setIfInBounds v.index enabled }
  if enabled then h.makeAvailable v else h

/-- Removes the root of the heap. The last variable takes its place and sinks. -/
def pop (h : DecisionHeap) : Option Var × DecisionHeap :=
  match h.at? 0, h.heap.back? with
  | some root, some last =>
    let heap := h.heap.pop
    let h := { h with heap := heap, positions := h.positions.setIfInBounds root.index none }
    (some root, if heap.isEmpty then h else siftDown last heap.size 0 h)
  | _, _ => (none, h)

/-- Removes variables until one is enabled and `good` holds of it, and answers that one. -/
def findFuel (good : Var → Bool) : Nat → DecisionHeap → Option Var × DecisionHeap
  | 0, h => (none, h)
  | fuel + 1, h =>
    match h.pop with
    | (none, h) => (none, h)
    | (some v, h) => if h.isEnabled v && good v then (some v, h) else findFuel good fuel h

/-- The best candidate that `good` holds of. It and all better candidates leave the heap. -/
def find? (h : DecisionHeap) (good : Var → Bool) : Option Var × DecisionHeap := findFuel good h.heap.size h

/-- The best candidate, which leaves the heap. -/
def next? (h : DecisionHeap) : Option Var × DecisionHeap := h.find? fun _ => true

end DecisionHeap

end ClauseLearning
