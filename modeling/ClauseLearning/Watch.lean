import ClauseLearning.Trail

/-!
# Watch lists

Each clause is watched through its first two literals. The list of a literal `p` holds the watches on clauses in which
`p` becoming true makes a watched literal false. Every watch carries a blocking literal of its clause; while that is
true, the clause need not be looked at.

Watches of deleted clauses stay until they are met. When many clauses change, the lists are switched off
(`Watches.disable`) and built anew before the next propagation.
-/

namespace ClauseLearning

/-- A watch on a clause. -/
structure Watch where
  ref : ClauseRef
  blocking : Lit
deriving DecidableEq, Inhabited

/-- The watch lists, by the code of the literal that triggers them. -/
structure Watches where
  lists : Array (Array Watch) := #[]
  enabled : Bool := true

namespace Watches

/-- Makes room for the two literals of one more variable. -/
def addVar (w : Watches) : Watches := { w with lists := (w.lists.push #[]).push #[] }

/-- The watches that `l` triggers. -/
def list (w : Watches) (l : Lit) : Array Watch := w.lists.getD l.code #[]

def setList (w : Watches) (l : Lit) (ws : Array Watch) : Watches :=
  { w with lists := w.lists.setIfInBounds l.code ws }

/-- Adds a watch that `l` triggers. -/
def add (w : Watches) (l : Lit) (watch : Watch) : Watches :=
  { w with lists := w.lists.modify l.code (·.push watch) }

/-- Watches the first two literals of a clause. -/
def watchPair (w : Watches) (r : ClauseRef) (a b : Lit) : Watches := (w.add (-a) ⟨r, b⟩).add (-b) ⟨r, a⟩

/-- Watches a new clause, if the lists are in use. -/
def watch (w : Watches) (r : ClauseRef) (a b : Lit) : Watches := if w.enabled then w.watchPair r a b else w

/-- Switches the lists off. -/
def disable (w : Watches) : Watches := { w with enabled := false }

/-- Empty lists, in use. -/
def cleared (w : Watches) : Watches := { lists := w.lists.map fun _ => #[], enabled := true }

end Watches

/-- Preference for watching a literal: true literals come first, false ones last. -/
def Trail.watchRank (t : Trail) (l : Lit) : Nat := if t.isTrue l then 0 else if t.isFalse l then 2 else 1

end ClauseLearning
