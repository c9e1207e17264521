import DebugArrays.Caller.Basic
import DebugArrays.Proofs.World.Guard

/-!
Shelves keep count of what is on them, and an operation that is done, or a run, is taken apart into
what it was made of.
-/
namespace DebugArrays

namespace Shelf

variable {α : Type}

def count (p : α → Bool) (s : Shelf α) : Nat :=
  s.countP fun place => place.any p

def size (s : Shelf α) : Nat :=
  s.count fun _ => true

theorem count_put (p : α → Bool) (s : Shelf α) (a : α) :
    (s.put a).count p = s.count p + if p a then 1 else 0 := by
  simp [count, put, List.countP_append, List.countP_cons]

theorem lt_length_of_at? {s : Shelf α} {i : Nat} {a : α} (h : s.at? i = some a) :
    i < s.length := by
  by_contra outside
  rw [at?, List.getElem?_eq_none (Nat.le_of_not_lt outside)] at h
  cases h

@[simp] theorem at?_put_length (s : Shelf α) (a : α) : (s.put a).at? s.length = some a := by
  simp [at?, put]

theorem at?_set_of_ne {s : Shelf α} {i j : Nat} {place : Option α} (h : i ≠ j) :
    at? (s.set i place) j = s.at? j := by
  rw [at?, List.getElem?_set_ne h]
  rfl

theorem at?_replace {s : Shelf α} {i : Nat} {a b : α} (h : s.at? i = some a) :
    (s.replace i b).at? i = some b := by
  simp [at?, replace, lt_length_of_at? h]

theorem at?_clear (s : Shelf α) (i : Nat) : (s.clear i).at? i = none := by
  by_cases inside : i < s.length
  · simp [at?, clear, inside]
  · rw [at?, clear, List.getElem?_eq_none (by simpa using inside)]
    rfl

/-- What is at a place counts for itself, whatever takes its place. -/
theorem count_set {p : α → Bool} {s : Shelf α} {i : Nat} {a : α} (h : s.at? i = some a)
    (place : Option α) :
    count p (s.set i place) + (if p a then 1 else 0) =
      s.count p + if place.any p then 1 else 0 := by
  induction s generalizing i with
  | nil => cases h
  | cons first rest ih =>
      cases i with
      | zero =>
          have found : first = some a := h
          subst found
          simp only [count, List.set_cons_zero, List.countP_cons, Option.any_some]
          omega
      | succ i =>
          have later := ih (i := i) h
          simp only [count, List.set_cons_succ, List.countP_cons] at later ⊢
          omega

theorem count_clear {p : α → Bool} {s : Shelf α} {i : Nat} {a : α} (h : s.at? i = some a) :
    (s.clear i).count p + (if p a then 1 else 0) = s.count p :=
  (count_set h none).trans (by simp)

theorem size_put (s : Shelf α) (a : α) : (s.put a).size = s.size + 1 :=
  count_put _ s a

theorem size_clear {s : Shelf α} {i : Nat} {a : α} (h : s.at? i = some a) :
    (s.clear i).size + 1 = s.size :=
  count_clear h

theorem size_replace {s : Shelf α} {i : Nat} {a b : α} (h : s.at? i = some a) :
    (s.replace i b).size = s.size :=
  Nat.add_right_cancel (m := 1) (count_set h (some b))

end Shelf

namespace Caller

variable {α : Type}

theorem need_ok {found : Option α} {next : α → Outcome} {r : Answer × Caller}
    (h : need found next = .ok r) : ∃ a, found = some a ∧ next a = .ok r := by
  cases found with
  | none => cases h
  | some a => exact ⟨a, rfl, h⟩

theorem evaluate_ok {c : Caller} {step : Eval α} {next : α → Caller → Answer × Caller}
    {r : Answer × Caller} (h : c.evaluate step next = .ok r) :
    ∃ a world, step.runIn c.world = (.ok a, world) ∧ r = next a { c with world } := by
  unfold evaluate at h
  rcases ran : step.runIn c.world with ⟨fault | a, world⟩
  · rw [ran] at h
    cases h
  · rw [ran] at h
    cases h
    exact ⟨a, world, rfl, rfl⟩

theorem run_cons_ok {c d : Caller} {op : Operation} {rest : List Operation}
    {answers : List Answer} (h : c.run (op :: rest) = .ok (answers, d)) :
    ∃ answer next later, c.perform op = .ok (answer, next) ∧ next.run rest = .ok (later, d) ∧
      answers = answer :: later := by
  unfold run at h
  cases first : c.perform op with
  | error r =>
      rw [first] at h
      cases h
  | ok r =>
      obtain ⟨answer, next⟩ := r
      rw [first] at h
      cases tail : next.run rest with
      | error r =>
          simp only [Except.mapError, bind, Except.bind, tail] at h
          cases h
      | ok r =>
          obtain ⟨later, e⟩ := r
          simp only [Except.mapError, bind, Except.bind, tail] at h
          cases h
          exact ⟨answer, next, later, rfl, tail, rfl⟩

theorem run_cons {c d e : Caller} {op : Operation} {rest : List Operation} {answer : Answer}
    {answers : List Answer} (first : c.perform op = .ok (answer, d))
    (later : d.run rest = .ok (answers, e)) : c.run (op :: rest) = .ok (answer :: answers, e) := by
  simp only [run, first, Except.mapError, bind, Except.bind, later]
  rfl

/-- Runs follow each other. -/
theorem run_append {c d e : Caller} {first second : List Operation} {answers later : List Answer}
    (done : c.run first = .ok (answers, d)) (rest : d.run second = .ok (later, e)) :
    c.run (first ++ second) = .ok (answers ++ later, e) := by
  induction first generalizing c answers with
  | nil =>
      cases done
      exact rest
  | cons op ops ih =>
      obtain ⟨answer, next, others, one, tail, rfl⟩ := run_cons_ok done
      exact run_cons one (ih tail)

/-- What every operation of a run keeps, the run keeps. -/
theorem preserved_run {P : Caller → Prop} {c d : Caller} {ops : List Operation}
    {answers : List Answer}
    (step : ∀ op ∈ ops, ∀ c answer d, P c → c.perform op = .ok (answer, d) → P d) (start : P c)
    (done : c.run ops = .ok (answers, d)) : P d := by
  induction ops generalizing c answers with
  | nil =>
      cases done
      exact start
  | cons op rest ih =>
      obtain ⟨answer, next, later, first, last, -⟩ := run_cons_ok done
      rw [List.forall_mem_cons] at step
      exact ih step.2 (step.1 c answer next start first) last

end Caller

end DebugArrays
