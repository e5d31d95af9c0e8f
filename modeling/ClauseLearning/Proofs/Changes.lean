import Mathlib.Logic.Relation
import ClauseLearning.Proofs.TierLists

/-!
# Changes to the clause database

Whatever a solver does to its clauses is made up of a few operations on the database, and each of these keeps the
accounts.

* `Database.Change` : the operations (`Change.accounted`);
* `Database.Changes` : some of them in turn (`Changes.accounted`).
-/

namespace ClauseLearning

namespace Database

variable {d e : Database} {r : ClauseRef}

/-- The operations on a database, where they may be used: just clauses that are not deleted are deleted or moved to
another tier. -/
inductive Change (d : Database) : Database → Prop
  | add {c : Clause} : c.deleted = false → c.marked = false → Change d (d.add c).2
  | delete {r : ClauseRef} : d.isLive r → Change d (d.delete r)
  /-- Literals are reordered, and what is not accounted for may change. -/
  | edit {r : ClauseRef} {f : Clause → Clause} : (d.get r).Reordered (f (d.get r)) → Change d (d.modify r f)
  /-- Clauses are shortened or deleted. -/
  | sweep {keep? : Clause → Option Clause} : (∀ c c', keep? c = some c' → c.Trimmed c') → Change d (d.sweep keep?)
  | setTier {r : ClauseRef} {t : Tier} : d.isLive r → Change d (d.setTier r t)
  | reduceLocals {p : Propagator} (ties : TieOrder) : p.clauses = d → Change d (p.reduceLocals ties).2.clauses
  | reduceMids {p : Propagator} : p.clauses = d → Change d p.reduceMids.2.clauses
  | rescale : Change d d.rescale
  | compact : Change d d.compact.2

theorem Change.accounted (hc : d.Change e) (h : d.Accounted) : e.Accounted := by
  cases hc with
  | add hd hm => exact h.add hd hm
  | delete hr => exact h.delete hr
  | edit hf => exact h.edit hf
  | sweep hk => exact h.sweep hk
  | setTier hr => exact h.setTier hr
  | reduceLocals ties hp => exact Propagator.reduceLocals_accounted ties (hp ▸ h)
  | reduceMids hp => exact Propagator.reduceMids_accounted (hp ▸ h)
  | rescale => exact h.rescale
  | compact => exact h.compact

/-- Some operations in turn. -/
def Changes (d e : Database) : Prop := Relation.ReflTransGen Change d e

namespace Changes

theorem refl (d : Database) : d.Changes d := Relation.ReflTransGen.refl

theorem trans {d₁ d₂ d₃ : Database} (h : d₁.Changes d₂) (h' : d₂.Changes d₃) : d₁.Changes d₃ :=
  Relation.ReflTransGen.trans h h'

theorem single (h : d.Change e) : d.Changes e := Relation.ReflTransGen.single h

theorem accounted (hc : d.Changes e) (h : d.Accounted) : e.Accounted := by
  induction hc with
  | refl => exact h
  | tail _ hc ih => exact hc.accounted ih

theorem bumpActivity (d : Database) (a : ActivityScale) (r : ClauseRef) : d.Changes (d.bumpActivity a r).1 := by
  have hedit : d.Changes (d.modify r ({ · with activity := (d.get r).activity + a.bump })) :=
    single (.edit ⟨List.Perm.refl _, rfl, rfl, rfl⟩)
  dsimp only [Database.bumpActivity]
  split
  · exact hedit.trans (single .rescale)
  · exact hedit

theorem decayActivities (d : Database) (a : ActivityScale) : d.Changes (d.decayActivities a).1 := by
  dsimp only [Database.decayActivities]
  split
  · exact single .rescale
  · exact refl d

end Changes

end Database

end ClauseLearning
