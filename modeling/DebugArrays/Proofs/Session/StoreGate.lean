import DebugArrays.Proofs.Session.History

/-!
Stores that the shape of the array or the window of element access rules out. They touch nothing.
Whether the answer is a refusal or a mismatch depends on the value alone: it is judged before shape
and window are.
-/
namespace DebugArrays

namespace ArrayTable

variable {arrays : ArrayTable} {name : String} {view : ArrayView} {p : Primitive} {index : Int64}

/-- The answer to a store that shape or window rules out. -/
def outsideAnswer (p : Primitive) (value : Document) : Except RequestError Response :=
  if (Value.ofJson? value.tree p).isSome then .ok (.stored false)
  else .error (.typeMismatch p.keyword value.compact)

theorem szIndex?_of_outside
    (outside : view.isSz = false ∨ ¬ (0 ≤ index.toInt ∧ index.toInt < 2 ^ 32)) :
    view.szIndex? index.toInt = none := by
  unfold ArrayView.szIndex?
  rcases outside with several | beyond
  · rw [several, if_neg (by decide)]
  · rw [elementIndex?_eq_none_iff.2 beyond, ite_self]

theorem store_of_outside (found : arrays.find? name = some view)
    (typed : elementType? view = some p) (outside : view.szIndex? index.toInt = none)
    (value : Document) :
    arrays.store name index value = pure (outsideAnswer p value) := by
  unfold store outsideAnswer
  simp only [found, typed]
  cases Value.ofJson? value.tree p with
  | none => rfl
  | some v =>
      simp only [outside]
      rfl

end ArrayTable

namespace Session

variable {s : Session} {byReference : Bool} {snapshots : List ArraySnapshot}
  {queries : List Request} {id : String → ObjectId} {name : String} {view : ArrayView}

/-- Every loaded array has a primitive element type. -/
theorem Told.exists_elementType? (told : s.Told byReference snapshots queries id)
    (found : s.arrays.find? name = some view) : ∃ p, ArrayTable.elementType? view = some p := by
  rw [told.follows.shown name] at found
  obtain ⟨a, -, rfl⟩ := Option.map_eq_some_iff.1 found
  exact ⟨a.element, SessionModel.elementType?_view⟩

/-- A query that answers at once leaves the session as it is. -/
theorem query_of_pure {α : Type} {a : α} (step : ArrayTable → Eval α)
    (answered : step s.arrays = pure a) : s.query step = .ok (a, s) := by
  unfold query
  rw [answered, Eval.runIn_pure]

end Session

namespace Handler

variable {config : Config} {requests : List Request} {responses : List Response} {h : Handler}
  {s : Session} {name : String} {view : ArrayView} {index : Int64}

/-- A store to a loaded array that shape or window rules out leaves the handler as it is, objects
and ledger included. It is refused if the value is one of the element type and a mismatch
otherwise. -/
theorem handle_store_of_outside (ran : (new config).run requests = .ok (responses, h))
    (opened : h.session = some s) (found : s.arrays.find? name = some view)
    (outside : view.isSz = false ∨ ¬ (0 ≤ index.toInt ∧ index.toInt < 2 ^ 32))
    (value : Document) :
    ∃ p, ArrayTable.elementType? view = some p ∧
      h.handle (.store name index value) =
        .ok (respond (ArrayTable.outsideAnswer p value), h) := by
  obtain ⟨before, snapshots, queries, id, -, -, known⟩ := (told_of_run ran).session s opened
  obtain ⟨p, typed⟩ := known.exists_elementType? found
  refine ⟨p, typed, ?_⟩
  have answered := ArrayTable.store_of_outside found typed
    (ArrayTable.szIndex?_of_outside outside) value
  have kept : { h with session := some s } = h := by
    rw [← opened]
  have stored : h.handle (.store name index value) = _ := withSession_ok opened
    (s.query_of_pure (fun arrays => arrays.store name index value) answered)
  rwa [kept] at stored

theorem handle_store_of_outside_sample :
    ∃ responses h, (new {}).run (.load sampleSnapshots :: sampleRequests) = .ok (responses, h) ∧
      h.handle (.store "xs" (-1) ⟨.bool true, trivial⟩) = .ok (.stored false, h) ∧
      h.handle (.store "xs" (-1) ⟨.string "a", trivial⟩) =
        .ok (.error "Type mismatch: expected bool, found \"a\"", h) := by
  have evaluated : (((new {}).run (.load sampleSnapshots :: sampleRequests)).toOption.bind
      fun outcome => outcome.2.session.bind fun s =>
        (s.arrays.find? "xs").bind ArrayTable.elementType?) = some .bool := by decide +kernel
  obtain ⟨⟨responses, h⟩, done, element⟩ := Option.bind_eq_some_iff.1 evaluated
  obtain ⟨s, opened, typed⟩ := Option.bind_eq_some_iff.1 element
  obtain ⟨view, found, typed⟩ := Option.bind_eq_some_iff.1 typed
  have ran := run_of_toOption done
  have beyond : ¬ (0 ≤ (-1 : Int64).toInt ∧ (-1 : Int64).toInt < 2 ^ 32) := by decide
  refine ⟨responses, h, ran, ?_, ?_⟩
  · obtain ⟨p, same, handled⟩ :=
      handle_store_of_outside ran opened found (.inr beyond) ⟨.bool true, trivial⟩
    cases same.symm.trans typed
    exact handled
  · obtain ⟨p, same, handled⟩ :=
      handle_store_of_outside ran opened found (.inr beyond) ⟨.string "a", trivial⟩
    cases same.symm.trans typed
    exact handled

/-- A mismatch may be answered although the index lies outside the window. -/
theorem handleAll_store_mismatch_outside :
    (new {}).handleAll
        [.load [{ name := "xs", elementType := "int",
                  elements := [⟨.number (.integer 1 (by decide)), trivial⟩] }],
          .store "xs" (-1) ⟨.string "a", trivial⟩] =
      [.success true, .error "Type mismatch: expected int, found \"a\""] := by
  decide +kernel

end Handler

end DebugArrays
