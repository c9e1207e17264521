import DebugArrays.Proofs.Caller.Basic
import DebugArrays.Workbench.Run

/-!
What is done at a workbench is done by a caller without names. Whatever commands are given, the
caller at the bench is where a run of operations takes it, so that what holds of every run holds of
every session.
-/
namespace DebugArrays

namespace Bench

variable {α β : Type} {bench after : Workbench}

/-- Unless it ends in a fault, a step leaves the caller where operations take it. -/
def Operates (step : Bench α) : Prop :=
  ∀ bench outcome after, step.runOn bench = (outcome, after) →
    (∃ fault, outcome = .error (.fault fault)) ∨
      ∃ ops answers, bench.caller.run ops = .ok (answers, after.caller)

namespace Operates

variable {step : Bench α} {next : α → Bench β}

/-- A step that does nothing to the caller. -/
theorem of_kept (kept : ∀ bench, (step.runOn bench).2.caller = bench.caller) : Operates step := by
  intro bench outcome after ran
  have same := kept bench
  rw [ran] at same
  refine .inr ⟨[], [], ?_⟩
  rw [← same]
  rfl

theorem of_pure (a : α) : Operates (pure a : Bench α) :=
  of_kept fun _ => rfl

theorem of_throw (e : CommandError) : Operates (throw e : Bench α) :=
  of_kept fun _ => rfl

theorem of_get : Operates (get : Bench Workbench) :=
  of_kept fun _ => rfl

theorem found (look : Workbench → Option α) (absence : CommandError) :
    Operates (Bench.found look absence) := by
  refine of_kept fun bench => ?_
  unfold Bench.found
  rw [runOn_bind, runOn_get]
  dsimp only
  cases look bench <;> rfl

theorem bind (first : Operates step) (second : ∀ a, Operates (next a)) :
    Operates (step >>= next) := by
  intro bench outcome after ran
  rw [runOn_bind] at ran
  rcases started : step.runOn bench with ⟨e | a, middle⟩
  · rw [started] at ran
    cases ran
    obtain ⟨fault, same⟩ | done := first bench _ _ started
    · cases same
      exact .inl ⟨fault, rfl⟩
    · exact .inr done
  · rw [started] at ran
    obtain ⟨fault, same⟩ | ⟨ops, answers, done⟩ := first bench _ _ started
    · cases same
    · obtain faulted | ⟨more, later, rest⟩ := second a middle _ _ ran
      · exact .inl faulted
      · exact .inr ⟨ops ++ more, answers ++ later, Caller.run_append done rest⟩

/-- A step with a change to the names before it. -/
theorem renamed {f : Workbench → Workbench} (kept : ∀ bench, (f bench).caller = bench.caller)
    (rest : Operates step) :
    Operates (do
      modify f
      step) := by
  have changed : Operates (modify f : Bench PUnit) := of_kept kept
  exact changed.bind fun _ => rest

theorem operate (op : Operation) : Operates (Bench.operate op) := by
  intro bench outcome after ran
  unfold Bench.operate at ran
  rw [runOn_bind, runOn_get] at ran
  dsimp only at ran
  cases done : bench.caller.perform op with
  | ok r =>
      rw [done] at ran
      cases ran
      exact .inr ⟨[op], [r.1], Caller.run_cons done rfl⟩
  | error stop =>
      rw [done] at ran
      cases stop with
      | missing =>
          cases ran
          exact .inr ⟨[], [], rfl⟩
      | fault fault left =>
          cases ran
          exact .inl ⟨fault, rfl⟩

theorem reply (a : Answer) : Operates (Bench.reply a) := by
  unfold Bench.reply
  split <;> exact of_kept fun _ => rfl

theorem answer (op : Operation) : Operates (Bench.answer op) :=
  (operate op).bind reply

theorem report (lender : Lender) : Operates (Bench.report lender) := by
  refine (found _ _).bind fun h => (operate _).bind fun a => ?_
  split
  · exact of_pure _
  · exact of_throw _

theorem keep (target : String) (op : Operation) : Operates (Bench.keep target op) := by
  refine of_get.bind fun bench => (operate op).bind fun a => ?_
  split
  · exact renamed (fun _ => rfl) ((report _).bind fun _ => of_pure _)
  · exact of_pure _

/-- A guard is left by an operation of its own. -/
theorem leaving (guard : Nat) (inside : Operates step) : Operates (Bench.leaving guard step) := by
  intro bench outcome after ran
  unfold Bench.leaving at ran
  simp only [runOn_bind, runOn_lift_run] at ran
  rcases first : step.runOn bench with ⟨outcome₁, middle⟩
  rcases second : (Bench.operate (.leave guard)).runOn middle with ⟨outcome₂, last⟩
  simp only [first, second] at ran
  have same : last = after := by
    have benches := congrArg Prod.snd ran
    split at benches <;> exact benches
  subst same
  obtain ⟨fault, rfl⟩ | ⟨ops, answers, stepped⟩ := inside bench _ _ first
  · cases ran
    exact .inl ⟨fault, rfl⟩
  · obtain ⟨fault, rfl⟩ | ⟨more, later, left⟩ := operate (.leave guard) middle _ _ second
    · -- Whatever came before, the outcome is a fault now.
      rcases outcome₁ with (_ | _) | a <;> cases ran <;> exact .inl ⟨_, rfl⟩
    · exact .inr ⟨ops ++ more, answers ++ later, Caller.run_append stepped left⟩

theorem look (guard : Nat) (g : Guard) : Operates (Bench.look guard g) := by
  refine (report _).bind fun object => (operate _).bind fun a => ?_
  split
  · exact of_get.bind fun _ => of_pure _
  · exact of_throw _

theorem enter (place : Nat) : Operates (Bench.enter place) := by
  refine of_get.bind fun bench => (operate _).bind fun a => ?_
  split
  · next g => exact (leaving _ (look _ g)).bind fun _ => of_pure _
  · exact of_pure _

theorem wrap (place : Nat) (target : String) : Operates (Bench.wrap place target) := by
  refine of_get.bind fun bench => (answer _).bind fun shape => ?_
  exact renamed (fun _ => rfl) (of_pure _)

theorem takeAddress (array : Nat) (index : Int) (target : String) :
    Operates (Bench.takeAddress array index target) := by
  refine of_get.bind fun bench => (operate _).bind fun a => ?_
  split
  · exact renamed (fun _ => rfl) (of_pure _)
  · exact of_pure _

theorem hand (name : String) : Operates (Bench.hand name) :=
  found _ _

theorem takeHand (name : String) : Operates (Bench.takeHand name) := by
  refine (hand name).bind fun place => ?_
  exact renamed (fun _ => rfl) (of_pure _)

theorem array (name : String) : Operates (Bench.array name) :=
  found _ _

theorem address (name : String) : Operates (Bench.address name) :=
  found _ _

theorem viewAt (place : Nat) : Operates (Bench.viewAt place) :=
  found _ _

theorem unwrap (name target : String) : Operates (Bench.unwrap name target) := by
  refine (array name).bind fun place => of_get.bind fun bench => ?_
  split
  · exact of_throw _
  · exact renamed (fun _ => rfl) (keep _ _)

/-- A name that is dropped. -/
theorem drop {f : Workbench → Workbench} {known : Workbench → Bool}
    (kept : ∀ bench, (f bench).caller = bench.caller) :
    Operates (do
      let present := known (← get)
      modify f
      return Reply.flag present) :=
  of_get.bind fun _ => renamed kept (of_pure _)

/-- Every command comes down to operations. -/
theorem perform (command : Command) : Operates (Bench.perform command) := by
  cases command with
  | alloc | load | resetStats | dereferenceFails | forbidRelease | setSlot | resize | retype
  | clearRecorded => exact answer _
  | reference | object | referenceAs | nullReference => exact keep _ _
  | slot | objectType => exact of_get.bind fun _ => of_pure _
  | inspect h => exact (hand h).bind fun _ => (report _).bind fun _ => of_pure _
  | dereference h | elementAt h | duplicate h => exact (hand h).bind fun _ => keep _ _
  | slotCount h | write h => exact (hand h).bind fun _ => answer _
  | release h | consume h => exact (takeHand h).bind fun _ => answer _
  | live h => exact (hand h).bind fun _ => of_get.bind fun _ => of_pure _
  | enter h => exact (hand h).bind enter
  | record h target => exact (takeHand h).bind fun _ => keep _ _
  | wrap h target => exact (takeHand h).bind fun place => wrap place target
  | arrayInfo a =>
      exact (array a).bind fun place => (viewAt place).bind fun _ => (report _).bind fun _ =>
        of_pure _
  | arrayRead a => exact (array a).bind fun _ => keep _ _
  | arrayLoad a | arrayStore a | arrayWrite a | arrayLength a =>
      exact (array a).bind fun _ => answer _
  | arrayCall a => exact (array a).bind fun place => (viewAt place).bind fun _ => of_pure _
  | arrayAddress a index target => exact (array a).bind fun place => takeAddress place index target
  | arrayDrop a => exact drop fun _ => rfl
  | unwrap a target => exact unwrap a target
  | addressInfo d => exact (address d).bind fun _ => (found _ _).bind fun _ => of_pure _
  | addressLoad d | addressStore d => exact (address d).bind fun _ => answer _
  | addressRead d => exact (address d).bind fun _ => keep _ _
  | addressLength d => exact (address d).bind fun _ => (found _ _).bind fun _ => answer _
  | addressDrop d => exact drop fun _ => rfl

end Operates

end Bench

namespace Workbench

/-- Commands one after the other, none of which ends in a fault. -/
inductive Session : Workbench → Workbench → Prop
  | nil (bench : Workbench) : Session bench bench
  | cons {bench middle last : Workbench} {command : Command} {outcome : Except CommandError Reply}
      (first : bench.step command = (outcome, middle))
      (well : ∀ fault, outcome ≠ .error (.fault fault)) (rest : Session middle last) :
      Session bench last

/-- A session is a run of the caller at the bench. -/
theorem Session.exists_run {bench last : Workbench} (session : Session bench last) :
    ∃ ops answers, bench.caller.run ops = .ok (answers, last.caller) := by
  induction session with
  | nil bench => exact ⟨[], [], rfl⟩
  | cons first well rest ih =>
      obtain ⟨fault, same⟩ | ⟨ops, answers, done⟩ := Bench.Operates.perform _ _ _ _ first
      · exact absurd same (well fault)
      · obtain ⟨more, later, ran⟩ := ih
        exact ⟨ops ++ more, answers ++ later, Caller.run_append done ran⟩

end Workbench

end DebugArrays
