import ClauseLearning.Propagation

/-!
# Database reduction

Learned clauses of little use are given up from time to time.

* `Propagator.reduceMids` : clauses of the mid tier that took no part in a conflict since the last reduction move to
  the local tier;
* `Propagator.reduceLocals` : half of the local clauses are deleted, the least active first. Clauses that took part in
  a conflict since the last reduction stay, and so do reasons of the current assignment. Which one of several clauses of
  the same activity goes first is open (`TieOrder`).

The tier lists may mention clauses twice. `Database.firstEntries` goes through a list and keeps one entry for each
clause of the tier; a mark on the clause tells that it was met.
-/

namespace ClauseLearning

/-- An order of clauses that have the same key: the clauses are arranged before they are sorted, and such clauses stay
as they were arranged. -/
structure TieOrder where
  arrange (key : ClauseRef → Nat) (rs : List ClauseRef) : List ClauseRef
  perm (key : ClauseRef → Nat) (rs : List ClauseRef) : (arrange key rs).Perm rs

namespace TieOrder

/-- Clauses that have the same key stay in their order. -/
def stable : TieOrder := ⟨fun _ rs => rs, fun _ rs => .refl rs⟩

instance : Inhabited TieOrder := ⟨stable⟩

/-- Sorts clauses by increasing keys. -/
def sort (ties : TieOrder) (key : ClauseRef → Nat) (rs : List ClauseRef) : List ClauseRef :=
  sortBy key (ties.arrange key rs)

end TieOrder

namespace Database

/-- Keeps the first entry of each clause of a tier, and marks the clause. -/
def firstEntries (t : Tier) : List ClauseRef → Database → List ClauseRef × Database
  | [], d => ([], d)
  | r :: rs, d =>
    let c := d.get r
    if c.deleted || c.marked || c.tier != t then firstEntries t rs d
    else
      let (kept, d) := firstEntries t rs (d.modify r ({ · with marked := true }))
      (r :: kept, d)

/-- Replaces the list of a tier, whose clauses it mentions once each. -/
def setTierList (d : Database) (t : Tier) (rs : List ClauseRef) : Database :=
  { d with
    byTier := d.byTier.modify t fun _ => rs.toArray
    counts := d.counts.modify t fun _ => rs.length }

def unmark (d : Database) (r : ClauseRef) : Database := d.modify r ({ · with marked := false })

end Database

namespace Propagator

/-- Whether a clause is the reason of a current assignment. -/
def isLocked (p : Propagator) (r : ClauseRef) : Bool :=
  let l := (p.clauses.get r).first
  p.trail.isTrue l && p.trail.reason l.var == .clause r

/-- Goes through local clauses and deletes those that may be, up to `quota`. Answers the clauses that stay. Clauses
that are skipped because they are active lose that flag; those after the last deletion keep it. -/
def cull : List ClauseRef → Nat → Propagator → List ClauseRef × Propagator
  | [], _, p => ([], p)
  | r :: rs, quota, p =>
    let c := p.clauses.get r
    let p := { p with clauses := p.clauses.unmark r }
    if quota = 0 then
      let (kept, p) := cull rs 0 p
      (r :: kept, p)
    else if c.active then
      let (kept, p) := cull rs quota { p with clauses := p.clauses.modify r ({ · with active := false }) }
      (r :: kept, p)
    else if p.isLocked r then
      let (kept, p) := cull rs quota p
      (r :: kept, p)
    else cull rs (quota - 1) { p with clauses := p.clauses.delete r }

/-- Deletes up to half of the local clauses, and answers the event. -/
def reduceLocals (p : Propagator) (ties : TieOrder) : Event × Propagator :=
  let (locals, clauses) := p.clauses.firstEntries .loc (p.clauses.byTier.loc.toList)
  let locals := ties.sort (fun r => (clauses.get r).activity.toBits.toNat) locals
  let (kept, p) := cull locals (locals.length / 2) { p with clauses := clauses }
  (.localsReduced (locals.length - kept.length) kept.length, { p with clauses := p.clauses.setTierList .loc kept })

/-- Moves the inactive clauses of a list to the local tier. Answers the clauses that stay, whose flag is cleared. -/
def demote : List ClauseRef → Database → List ClauseRef × Database
  | [], d => ([], d)
  | r :: rs, d =>
    let c := d.get r
    let d := d.unmark r
    if c.active then
      let (kept, d) := demote rs (d.modify r ({ · with active := false }))
      (r :: kept, d)
    else demote rs (d.setTier r .loc)

/-- Moves inactive clauses of the mid tier to the local tier, and answers the event. -/
def reduceMids (p : Propagator) : Event × Propagator :=
  let (mids, clauses) := p.clauses.firstEntries .mid (p.clauses.byTier.mid.toList)
  let (kept, clauses) := demote mids clauses
  (.midsReduced (mids.length - kept.length) mids.length, { p with clauses := clauses.setTierList .mid kept })

end Propagator

end ClauseLearning
