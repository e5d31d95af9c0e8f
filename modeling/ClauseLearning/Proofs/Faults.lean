import ClauseLearning.Literal

/-!
# Programs that check what they rely on

Checked programs are written beside the functions that they check, from which they differ only in the checks. What is
proved of them is that they give the same answers in any build.

* `Fault.Excess` : what a program needs is more than there is;
* `filterChecked` : a test that may stop, applied to a list;
* `Yields` : a program gives an answer, unless it needs more than there is;
* `foldlM_ok`, `foldlM_keeps`, `Yields.foldlM` : loops.
-/

namespace ClauseLearning

/-- A clause would begin behind `2^32` words, a variable would be one more than are supported, or a number has more than
64 bits. Nothing else is an excess. -/
def Fault.Excess : Fault → Prop
  | .storageFull words => UInt32.size ≤ words
  | .tooManyVariables index => Var.maxCount ≤ index
  | .overflow n => UInt64.size ≤ n
  | _ => False

/-- The elements of a list that pass a test. -/
def filterChecked {α : Type} (test : α → Fallible Bool) : List α → Fallible (List α)
  | [] => return []
  | x :: xs => do
    let keep ← test x
    let rest ← filterChecked test xs
    return if keep then x :: rest else rest

variable {α β : Type} {m : Fallible α} {f : α → Fallible β} {a : α} {b : β} {P P' : α → Prop} {Q : β → Prop}
  {c : Prop} [Decidable c] {e : Fault}

theorem ok_bind (a : α) (f : α → Fallible β) : (Except.ok a >>= f) = f a := rfl

theorem bind_eq_ok : m >>= f = .ok b ↔ ∃ a, m = .ok a ∧ f a = .ok b := by
  cases m with
  | error e => exact ⟨nofun, nofun⟩
  | ok a => simp [ok_bind]

theorem filterChecked_eq {test : α → Fallible Bool} {p : α → Bool} {xs : List α} (h : ∀ x ∈ xs, test x = .ok (p x)) :
    filterChecked test xs = .ok (xs.filter p) := by
  induction xs with
  | nil => rfl
  | cons x xs ih =>
    rw [filterChecked, h x List.mem_cons_self, ok_bind, ih fun y hy => h y (List.mem_cons_of_mem x hy), ok_bind,
      List.filter_cons]
    rfl

/-- A loop answers what it answers without its checks, if every step keeps an invariant under which its checks
succeed. -/
theorem foldlM_ok {step : α → β → Fallible α} {g : α → β → α} {xs : List β}
    (hs : ∀ a, ∀ x ∈ xs, P a → step a x = .ok (g a x) ∧ P (g a x)) (ha : P a) :
    xs.foldlM step a = .ok (xs.foldl g a) ∧ P (xs.foldl g a) := by
  induction xs generalizing a with
  | nil => exact ⟨rfl, ha⟩
  | cons x xs ih =>
    obtain ⟨h1, h2⟩ := hs a x List.mem_cons_self ha
    rw [List.foldlM_cons, h1, ok_bind]
    exact ih (fun a y hy => hs a y (List.mem_cons_of_mem x hy)) h2

theorem foldlM_eq {step : α → β → Fallible α} {g : α → β → α} {xs : List β}
    (hs : ∀ a, ∀ x ∈ xs, step a x = .ok (g a x)) : xs.foldlM step a = .ok (xs.foldl g a) :=
  (foldlM_ok (P := fun _ => True) (fun a x hx _ => ⟨hs a x hx, trivial⟩) trivial).1

/-- What every step keeps holds of the answer of a loop, if it gives one. -/
theorem foldlM_keeps {step : α → β → Fallible α} {xs : List β} {a' : α}
    (hs : ∀ a b, ∀ x ∈ xs, P a → step a x = .ok b → P b) (ha : P a) (h : xs.foldlM step a = .ok a') : P a' := by
  induction xs generalizing a with
  | nil =>
    cases h
    exact ha
  | cons x xs ih =>
    rw [List.foldlM_cons] at h
    obtain ⟨b, h1, h2⟩ := bind_eq_ok.1 h
    exact ih (fun a b y hy => hs a b y (List.mem_cons_of_mem x hy)) (hs a b x List.mem_cons_self ha h1) h2

theorem exists_of_foldlM_eq_ok {step : α → β → Fallible α} {xs : List β} {a' : α} (h : xs.foldlM step a = .ok a')
    {x : β} (hx : x ∈ xs) : ∃ b c, step b x = .ok c := by
  induction xs generalizing a with
  | nil => cases hx
  | cons y xs ih =>
    rw [List.foldlM_cons] at h
    obtain ⟨b, h1, h2⟩ := bind_eq_ok.1 h
    rcases List.mem_cons.1 hx with rfl | hx
    · exact ⟨a, b, h1⟩
    · exact ih h2 hx

theorem mapM_ok {g : α → β} {xs : List α} (h : ∀ x ∈ xs, f x = .ok (g x)) : xs.mapM f = .ok (xs.map g) := by
  induction xs with
  | nil => rfl
  | cons x xs ih =>
    rw [List.mapM_cons, h x List.mem_cons_self, ok_bind, ih fun y hy => h y (List.mem_cons_of_mem x hy), ok_bind]
    rfl

theorem exists_of_mapM_eq_ok {xs : List α} {ys : List β} {y : β} (h : xs.mapM f = .ok ys) (hy : y ∈ ys) :
    ∃ x ∈ xs, f x = .ok y := by
  induction xs generalizing ys with
  | nil =>
    cases h
    cases hy
  | cons x xs ih =>
    rw [List.mapM_cons] at h
    obtain ⟨z, h1, h⟩ := bind_eq_ok.1 h
    obtain ⟨zs, h2, h⟩ := bind_eq_ok.1 h
    cases h
    rcases List.mem_cons.1 hy with rfl | hy
    · exact ⟨x, List.mem_cons_self, h1⟩
    · obtain ⟨x', hx', h⟩ := ih h2 hy
      exact ⟨x', List.mem_cons_of_mem x hx', h⟩

theorem exists_eq_ok_of_mapM {xs : List α} {ys : List β} (h : xs.mapM f = .ok ys) {x : α} (hx : x ∈ xs) :
    ∃ y, f x = .ok y := by
  induction xs generalizing ys with
  | nil => cases hx
  | cons z xs ih =>
    rw [List.mapM_cons] at h
    obtain ⟨y, h1, h⟩ := bind_eq_ok.1 h
    obtain ⟨ys, h2, -⟩ := bind_eq_ok.1 h
    rcases List.mem_cons.1 hx with rfl | hx
    · exact ⟨y, h1⟩
    · exact ih h2 hx

variable [Build]

theorem require_eq_of_checks (h : Build.checks e → c) : require c e = .ok () := by
  refine if_pos ?_
  cases he : Build.checks e with
  | false => exact Or.inr rfl
  | true => exact Or.inl (h he)

theorem require_eq (h : c) : require c e = .ok () := require_eq_of_checks fun _ => h

theorem require_bind_of_checks (h : Build.checks e → c) (f : Unit → Fallible β) : (require c e >>= f) = f () := by
  rw [require_eq_of_checks h, ok_bind]

theorem require_bind (h : c) (f : Unit → Fallible β) : (require c e >>= f) = f () :=
  require_bind_of_checks (fun _ => h) f

theorem require_eq_ok {u : Unit} : require c e = .ok u ↔ c ∨ Build.checks e = false := by
  unfold require
  split
  · next h => exact ⟨fun _ => h, fun _ => rfl⟩
  · next h => exact ⟨fun hn => (by cases hn), fun hc => absurd hc h⟩

theorem word_eq {n : Nat} (h : n < UInt64.size) : word n = .ok n := by
  rw [word, require_bind h, Nat.mod_eq_of_lt h]
  rfl

theorem lt_of_word_eq_ok {n k : Nat} (h : word n = .ok k) : k < UInt64.size := by
  obtain ⟨-, -, h⟩ := bind_eq_ok.1 h
  cases h
  exact Nat.mod_lt n (by decide)

/-- The program answers `a`, of which `P` holds, or the build finds that it needs more than there is. -/
inductive Yields (m : Fallible α) (a : α) (P : α → Prop) : Prop
  | answers : m = .ok a → P a → Yields m a P
  | stops (f : Fault) : Build.checks f → f.Excess → m = .error f → Yields m a P

namespace Yields

theorem imp (h : Yields m a P) (hp : P a → P' a) : Yields m a P' := by
  cases h with
  | answers hm ha => exact .answers hm (hp ha)
  | stops f hc he hm => exact .stops f hc he hm

theorem bind (h : Yields m a P) (hf : P a → Yields (f a) b Q) : Yields (m >>= f) b Q := by
  cases h with
  | answers hm ha =>
    rw [hm, ok_bind]
    exact hf ha
  | stops f hc he hm => exact .stops f hc he (by rw [hm]; rfl)

theorem map {g : α → β} (h : Yields m a P) (hg : P a → Q (g a)) : Yields (g <$> m) (g a) Q := by
  cases h with
  | answers hm ha => exact .answers (by rw [hm]; rfl) (hg ha)
  | stops f hc he hm => exact .stops f hc he (by rw [hm]; rfl)

/-- A check for an excess: without one the program goes on, and so it does in a build that does not look for it. -/
theorem require {P : Unit → Prop} (hn : ¬ c → e.Excess) (hp : c ∨ Build.checks e = false → P ()) :
    Yields (require c e) () P := by
  by_cases h : c ∨ Build.checks e = false
  · exact .answers (if_pos h) (hp h)
  · obtain ⟨hc, hb⟩ := not_or.1 h
    exact .stops e (by simpa using hb) (hn hc) (if_neg h)

theorem foldlM {step : α → β → Fallible α} {g : α → β → α} {xs : List β}
    (hs : ∀ a, ∀ x ∈ xs, P a → Yields (step a x) (g a x) P) (ha : P a) :
    Yields (xs.foldlM step a) (xs.foldl g a) P := by
  induction xs generalizing a with
  | nil => exact .answers rfl ha
  | cons x xs ih =>
    rw [List.foldlM_cons]
    exact (hs a x List.mem_cons_self ha).bind (ih fun a y hy => hs a y (List.mem_cons_of_mem x hy))

end Yields

end ClauseLearning
