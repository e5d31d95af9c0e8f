import ClauseLearning.Proofs.Frozen

/-!
# Clauses in a stream of numbers

The plain engine reads clauses from a stream of numbers, one at a time. A stream falls into segments, each ended by a
zero but the last one, which may be empty.

* `Readable`, `literalsOf` : the numbers that are zero or a literal, and the literals of a segment;
* `joinedSegments` : the segments of a stream as clauses, the first of them after literals that are pending;
* `Call.given` : the clauses that calls give to a solver;
* `PlainEngine.Reading` : an engine that reads a stream, with the clauses that it has added. `Reading.put` is what a
  number does to it, `Reading.putEach` what a stream does;
* `endedSegments`, `streamed`, `stream_segments` : the segments that a zero ends are added in order, without the numbers
  that are refused, and an engine in the middle of a clause does not search.
-/

namespace ClauseLearning

open SolverEngine (solver)

/-! ## Segments -/

/-- A number that is zero or a literal. -/
def Readable (number : Int32) : Prop := number.toInt.natAbs ≤ Var.maxCount

instance : DecidablePred Readable := fun _ => Nat.decLe _ _

/-- The literals of a segment. Numbers that are none are left out. -/
def literalsOf (ns : List Int32) : List Lit := (ns.filter Readable).map Lit.ofNumber

/-- The greatest magnitude of a readable number in a stream, zero if there is none. -/
def greatest (ns : List Int32) : Nat := ((ns.filter Readable).map fun n => n.toInt.natAbs).foldr max 0

/-- The segments of a stream as clauses, the first of them after the literals that are pending. -/
def joinedSegments (pending : List Lit) (ns : List Int32) : List (List Lit) :=
  ((ns.splitOn 0).map literalsOf).modifyHead (pending ++ ·)

/-- The numbers after the last zero. -/
def lastSegment (ns : List Int32) : List Int32 := (ns.splitOn 0).getLast (List.splitOn_ne_nil 0 ns)

section Segments

variable {n : Int32} {pending : List Lit}

theorem zero_readable : Readable 0 := by decide

theorem joinedSegments_nil (ns : List Int32) : joinedSegments [] ns = (ns.splitOn 0).map literalsOf := by
  cases h : ns.splitOn 0 <;> simp [joinedSegments, h]

theorem joinedSegments_ne_nil (pending : List Lit) (ns : List Int32) : joinedSegments pending ns ≠ [] := by
  simp [joinedSegments, List.splitOn_ne_nil]

theorem splitOn_cons (n : Int32) (ns : List Int32) : (n :: ns).splitOn 0 =
    if n = 0 then [] :: ns.splitOn 0 else (ns.splitOn 0).modifyHead (n :: ·) := by
  simp [List.splitOn, List.splitOnP_cons_eq_if_modifyHead]

theorem joinedSegments_zero (pending : List Lit) (ns : List Int32) :
    joinedSegments pending (0 :: ns) = pending :: joinedSegments [] ns := by
  rw [joinedSegments_nil, joinedSegments, splitOn_cons, if_pos rfl]
  simp [literalsOf]

theorem joinedSegments_cons (h0 : n ≠ 0) (ns : List Int32) :
    joinedSegments pending (n :: ns) = joinedSegments (pending ++ literalsOf [n]) ns := by
  rw [joinedSegments, joinedSegments, splitOn_cons, if_neg h0]
  cases ns.splitOn 0 with
  | nil => rfl
  | cons segment rest => by_cases hn : Readable n <;> simp [literalsOf, hn]

theorem joinedSegments_literal (hn : Readable n) (h0 : n ≠ 0) (ns : List Int32) :
    joinedSegments pending (n :: ns) = joinedSegments (pending ++ [Lit.ofNumber n]) ns := by
  simpa [literalsOf, hn] using joinedSegments_cons h0 ns

theorem joinedSegments_unreadable (hn : ¬ Readable n) (ns : List Int32) :
    joinedSegments pending (n :: ns) = joinedSegments pending ns := by
  have h0 : n ≠ 0 := fun h0 => hn (h0 ▸ zero_readable)
  simpa [literalsOf, hn] using joinedSegments_cons h0 ns

theorem greatest_cons (n : Int32) (ns : List Int32) :
    greatest (n :: ns) = if Readable n then max n.toInt.natAbs (greatest ns) else greatest ns := by
  by_cases hn : Readable n <;> simp [greatest, hn]

theorem getLast_joinedSegments_ne_nil (ns : List Int32) :
    (joinedSegments [] ns).getLast (joinedSegments_ne_nil [] ns) ≠ [] ↔ ∃ n ∈ lastSegment ns, Readable n := by
  simp [joinedSegments_nil, lastSegment, literalsOf]

end Segments

/-! ## Numbers -/

theorem litOf_of_readable {n : Int32} (hn : Readable n) (h0 : n ≠ 0) : litOf n = .ok (Lit.ofNumber n) := by
  refine litOf_eq_ok_iff.2 ⟨fun h => h0 (Int32.toInt_inj.1 ?_), hn, rfl⟩
  simpa using h

theorem litOf_of_not_readable {n : Int32} (hn : ¬ Readable n) : litOf n = .error (.literalOutOfRange n) := by
  have h0 : n ≠ 0 := fun h0 => hn (h0 ▸ zero_readable)
  have habs : Var.maxCount < n.toInt.natAbs := Nat.lt_of_not_le hn
  rw [litOf, if_neg h0, Lit.ofSigned?, if_pos (Or.inr habs)]

theorem index_ofNumber {n : Int32} (h0 : n ≠ 0) : (Lit.ofNumber n).var.index + 1 = n.toInt.natAbs := by
  have hne : n.toInt ≠ 0 := fun h => h0 (Int32.toInt_inj.1 (by simpa using h))
  rw [Lit.ofNumber, Lit.var_lit]
  show n.toInt.natAbs - 1 + 1 = _
  omega

/-- The clauses that some calls give to a solver, whether they are accepted or not. -/
def Call.given (cs : List Call) : List (List Lit) :=
  cs.filterMap fun
    | .addClause ls => some ls
    | _ => none

theorem Solver.varCount_ensureVarCount (s : Solver) (count : Nat) :
    (s.ensureVarCount count).varCount = max s.varCount count := by
  unfold ensureVarCount
  generalize hk : count - s.varCount = k
  induction k generalizing s with
  | zero =>
    show s.varCount = _
    omega
  | succ k ih =>
    have hsize : (s.allocate {}).2.varCount = s.varCount + 1 := Array.size_push ..
    rw [allocateMany, ih _ (by omega)]
    omega

/-! ## Reading -/

namespace PlainEngine

variable {e : PlainEngine} {f : List (List Lit)} {n : Int32}

/-- An engine that reads a stream, with the clauses that it has added: the variables of the pending literals are
allocated, and no variable was eliminated. -/
structure Reading (e : PlainEngine) (f : List (List Lit)) : Prop where
  reachable : EngineReachable e f
  kept (v : Var) : e.solver.hasEliminated v = false
  allocated : ∀ l ∈ e.pending, l.var.index < e.solver.varCount

/-- What a number does: a zero adds the pending literals as a clause, a literal becomes pending, and any other number is
refused and changes nothing. -/
inductive Read (e : PlainEngine) (f : List (List Lit)) (n : Int32) : Except SolverError Unit × PlainEngine → Prop
  | zero {e' : PlainEngine} : n = 0 → e'.pending = [] → e'.solver.varCount = e.solver.varCount →
    Reading e' (f ++ [e.pending]) → Read e f n (.ok (), e')
  | literal {e' : PlainEngine} : n ≠ 0 → Readable n → e'.pending = e.pending ++ [Lit.ofNumber n] →
    e'.solver.varCount = max e.solver.varCount n.toInt.natAbs → Reading e' f → Read e f n (.ok (), e')
  | refused : ¬ Readable n → Read e f n (.error (.literalOutOfRange n), e)

theorem reading_new : Reading {} [] := ⟨.new ⟨.stable, rfl⟩, fun _ => rfl, fun _ hl => nomatch hl⟩

theorem Reading.put (h : Reading e f) (n : Int32) : Read e f n (e.put n) := by
  have hr := h.reachable.call (.put n)
  have hi := h.reachable.solver_reachable.inv
  change EngineReachable (e.put n).2 (f ++ Call.acceptedAll e.solver (e.calls (.put n))) at hr
  by_cases h0 : n = 0
  · subst h0
    -- the pending clause is not refused, as its variables are there
    have hok : (e.solver.addClause e.pending).1 = .ok (e.solver.addClause e.pending).2.okay :=
      Solver.addClause_eq_ok fun l hl => ⟨h.allocated l hl, h.kept l.var⟩
    have hput : e.put 0 = (.ok (), { solver := (e.solver.addClause e.pending).2 }) := by
      show ((e.solver.addClause e.pending).1.map _, _) = _
      rw [hok]
      rfl
    have haccepted : Call.acceptedAll e.solver (e.calls (.put 0)) = [e.pending] := by
      show Call.acceptedAll e.solver [.addClause e.pending] = _
      rw [Call.acceptedAll, accepted_addClause hok]
      rfl
    rw [haccepted, hput] at hr
    rw [hput]
    exact .zero rfl rfl (Solver.addClause_sameFlags hi e.pending).varCount_eq
      ⟨hr, fun v => ((Solver.addClause_kept hi e.pending).eliminated_eq v).trans (h.kept v),
        fun _ hl => absurd hl List.not_mem_nil⟩
  · by_cases hn : Readable n
    · have hlit := litOf_of_readable hn h0
      have hindex := index_ofNumber h0
      have hput : e.put n = (.ok (),
          ⟨e.solver.ensureVarCount ((Lit.ofNumber n).var.index + 1), e.pending ++ [Lit.ofNumber n]⟩) := by
        rw [PlainEngine.put, if_neg h0, hlit]
      have haccepted : Call.acceptedAll e.solver (e.calls (.put n)) = [] := by
        rw [calls, if_neg h0, hlit]
        rfl
      have hcount := e.solver.varCount_ensureVarCount ((Lit.ofNumber n).var.index + 1)
      rw [haccepted, List.append_nil, hput] at hr
      rw [hput]
      refine .literal h0 hn rfl (hindex ▸ hcount) ⟨hr, fun v => ?_, fun l hl => ?_⟩
      · exact ((Solver.ensureVarCount_kept e.solver _).eliminated_eq v).trans (h.kept v)
      · show l.var.index < (e.solver.ensureVarCount _).varCount
        rcases List.mem_append.1 hl with hl | hl
        · have := h.allocated l hl
          omega
        · obtain rfl := List.mem_singleton.1 hl
          omega
    · have hput : e.put n = (.error (.literalOutOfRange n), e) := by
        have h0 : n ≠ 0 := fun h0 => hn (h0 ▸ zero_readable)
        rw [PlainEngine.put, if_neg h0, litOf_of_not_readable hn]
      rw [hput]
      exact .refused hn

theorem given_calls_put (e : PlainEngine) (n : Int32) :
    Call.given (e.calls (.put n)) = if n = 0 then [e.pending] else [] := by
  rw [calls]
  split
  · rfl
  · cases litOf n <;> rfl

/-- What a stream does: the segments that a zero ends are added, the first of them after the pending literals, and the
last segment is pending. -/
structure ReadEach (e : PlainEngine) (f : List (List Lit)) (ns : List Int32) (e' : PlainEngine) : Prop where
  reading : Reading e' (f ++ (joinedSegments e.pending ns).dropLast)
  pending_eq : e'.pending = (joinedSegments e.pending ns).getLast (joinedSegments_ne_nil e.pending ns)
  varCount_eq : e'.solver.varCount = max e.solver.varCount (greatest ns)
  given_eq : Call.given (callsOf e (ns.map .put)) = (joinedSegments e.pending ns).dropLast

theorem Reading.putEach (h : Reading e f) (ns : List Int32) : ReadEach e f ns (runCalls e (ns.map .put)) := by
  induction ns generalizing e f with
  | nil =>
    have hnil : joinedSegments e.pending [] = [e.pending] := by simp [joinedSegments, literalsOf]
    have hlast : (joinedSegments e.pending []).getLast (joinedSegments_ne_nil e.pending []) = e.pending := by
      simp [hnil]
    refine ⟨?_, hlast.symm, (Nat.max_zero _).symm, by rw [hnil]; rfl⟩
    rw [hnil, List.dropLast_singleton, List.append_nil]
    exact h
  | cons n ns ih =>
    have hgiven : Call.given (callsOf e ((n :: ns).map .put)) =
        (if n = 0 then [e.pending] else []) ++ Call.given (callsOf (e.put n).2 (ns.map .put)) := by
      rw [← given_calls_put, Call.given, Call.given, Call.given, ← List.filterMap_append]
      rfl
    show ReadEach e f (n :: ns) (runCalls (e.put n).2 (ns.map .put))
    have hread := h.put n
    generalize e.put n = out at hread hgiven ⊢
    cases hread with
    | @zero e' h0 hp hcount hr =>
      subst h0
      obtain ⟨hr, hlast, hc, hg⟩ := ih hr
      rw [hp] at hr hlast hg
      have hjoined := joinedSegments_zero e.pending ns
      have hne := joinedSegments_ne_nil [] ns
      refine ⟨?_, ?_, ?_, ?_⟩
      · rwa [hjoined, List.dropLast_cons_of_ne_nil hne, List.append_cons]
      · rw [hlast]
        simp only [hjoined, List.getLast_cons hne]
      · rw [hc, hcount, greatest_cons, if_pos zero_readable]
        simp
      · rw [hgiven, hjoined, List.dropLast_cons_of_ne_nil hne]
        exact congrArg (e.pending :: ·) hg
    | literal h0 hn hp hcount hr =>
      obtain ⟨hr, hlast, hc, hg⟩ := ih hr
      rw [hp, ← joinedSegments_literal hn h0] at hr hg
      refine ⟨hr, ?_, ?_, ?_⟩
      · rw [hlast]
        simp only [hp, joinedSegments_literal hn h0]
      · rw [hc, hcount, greatest_cons, if_pos hn, Nat.max_assoc]
      · rw [hgiven, if_neg h0]
        exact hg
    | refused hn =>
      have h0 : n ≠ 0 := fun h0 => hn (h0 ▸ zero_readable)
      obtain ⟨hr, hlast, hc, hg⟩ := ih h
      rw [← joinedSegments_unreadable hn] at hr hg
      refine ⟨hr, ?_, ?_, ?_⟩
      · rw [hlast]
        simp only [joinedSegments_unreadable hn]
      · rw [hc, greatest_cons, if_neg hn]
      · rw [hgiven, if_neg h0]
        exact hg

theorem solve_eq_incompleteClause : e.solve.1 = .error .incompleteClause ↔ e.pending ≠ [] := by
  rw [solve]
  split
  · next hp => simpa using hp
  · next hp => simpa using hp

theorem solveLimited_eq_incompleteClause (limit : Int) :
    (e.solveLimited limit).1 = .error .incompleteClause ↔ e.pending ≠ [] := by
  have hsolve := solve_eq_incompleteClause (e := e.setDecisionLimit (limitOf limit))
  refine Iff.trans ?_ hsolve
  show (e.setDecisionLimit (limitOf limit)).solve.1.map Verdict.exitCode = _ ↔ _
  generalize (e.setDecisionLimit (limitOf limit)).solve.1 = answer
  cases answer <;> simp [Except.map]

end PlainEngine

/-! ## The stream of a new engine -/

/-- The segments of a stream that a zero ends, without the numbers that are refused. -/
def endedSegments (ns : List Int32) : List (List Lit) := (ns.splitOn 0).dropLast.map literalsOf

example : endedSegments [1, -2, 0, 0, -2147483648, 3] = [[⟨0⟩, ⟨3⟩], []] := by decide

/-- A new plain engine after a stream of numbers. -/
def streamed (ns : List Int32) : PlainEngine := runCalls {} (ns.map .put)

/-- **A stream is split at its zeros.** A new plain engine that reads a stream of numbers adds the segments that a zero
ends, in order and without the numbers that are refused, and none of these clauses is refused. A number is refused, and
changes nothing, just if its magnitude is too great. There are as many variables as the greatest magnitude of the other
numbers says. A search is refused just if a literal came after the last zero. -/
theorem stream_segments (ns : List Int32) :
    Call.given (callsOf ({} : PlainEngine) (ns.map .put)) = endedSegments ns ∧
      EngineReachable (streamed ns) (endedSegments ns) ∧
      (∀ n, (((streamed ns).put n).1 = .ok () ↔ Readable n) ∧
        ((streamed ns).put n = (.error (.literalOutOfRange n), streamed ns) ↔ ¬ Readable n)) ∧
      (streamed ns).solver.varCount = greatest ns ∧
      ((streamed ns).solve.1 = .error .incompleteClause ↔ ∃ n ∈ lastSegment ns, Readable n) ∧
      ∀ limit, ((streamed ns).solveLimited limit).1 = .error .incompleteClause ↔ ∃ n ∈ lastSegment ns, Readable n := by
  obtain ⟨hr, hlast, hcount, hgiven⟩ := PlainEngine.reading_new.putEach ns
  change PlainEngine.Reading (streamed ns) _ at hr
  have hclauses : (joinedSegments [] ns).dropLast = endedSegments ns := by
    rw [joinedSegments_nil, endedSegments, ← List.map_dropLast]
  have hpending : (streamed ns).pending ≠ [] ↔ ∃ n ∈ lastSegment ns, Readable n := by
    rw [← getLast_joinedSegments_ne_nil, ← hlast]
    rfl
  rw [hclauses] at hr hgiven
  refine ⟨hgiven, hr.reachable, fun n => ?_, hcount.trans (Nat.zero_max _),
    PlainEngine.solve_eq_incompleteClause.trans hpending,
    fun limit => (PlainEngine.solveLimited_eq_incompleteClause limit).trans hpending⟩
  have hread := hr.put n
  generalize (streamed ns).put n = out at hread ⊢
  cases hread with
  | zero h0 => simp [h0, zero_readable]
  | literal _ hn => simp [hn]
  | refused hn => exact ⟨iff_of_false (fun h => nomatch h) hn, iff_of_true rfl hn⟩

end ClauseLearning
