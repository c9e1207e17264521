import DebugArrays.Proofs.Session.Requests

/-!
A session and its model, request by request. Each request moves both in step; the only way for a
session to fall behind is a counter of the ledger that is full.
-/
namespace DebugArrays

namespace SessionModel

variable {m : SessionModel} {name : String} {a : StoredArray} {arrays : ArrayTable}

/-- A view sees nothing of a store. -/
theorem view_after_store (value : Document) (index : Int64) (place : Option Nat) :
    (m.after (.store name index value)).view name (a.write value place) = m.view name a := by
  have handle : (m.after (.store name index value)).handle name (a.write value place) =
      m.handle name a := by
    rw [SessionModel.handle, a.type_write]
    rfl
  rw [view, handle, a.rank_write, a.counted?_write]
  rfl

theorem Shown.store (shown : m.Shown arrays) (name : String) (index : Int64) (value : Document) :
    (m.after (.store name index value)).Shown arrays := by
  intro other
  by_cases here : other = name
  · subst here
    rw [shown other, contents_after_store_self, Option.map_map]
    congr 1
    funext a
    exact (view_after_store value index _).symm
  · rw [shown other, contents_after_store_of_ne here]
    rfl

theorem outlines_after (r : Request) : (m.after r).outlines = m.outlines := by
  cases r with
  | store name index value =>
      funext other
      by_cases here : other = name
      · subst here
        rw [outlines, outlines, contents_after_store_self, Option.map_map]
        congr 1
        funext a
        simp [after]
      · rw [outlines, outlines, contents_after_store_of_ne here]
        rfl
  | _ => rfl

end SessionModel

/-- A session is where its model says. -/
structure Session.Follows (s : Session) (m : SessionModel) : Prop where
  carried : m.Carried s.world
  shown : m.Shown s.arrays

namespace Session

variable {α : Type} {s : Session} {t : Tally} {a : α} {w : World}

theorem query_of_settles (step : ArrayTable → Eval α)
    (h : (step s.arrays).Settles s.world t a w) :
    (∃ stats, s.query step = .ok (a, { s with world := { w with stats } }) ∧
        stats.tally = s.world.stats.tally + t) ∨
      s.query step = .error .overflow ∧ ¬ (s.world.stats.tally + t).Fits := by
  unfold query
  obtain ⟨stats, run, paid⟩ | ⟨v, run, full⟩ := h.ran
  · exact .inl ⟨stats, by rw [run], paid⟩
  · exact .inr ⟨by rw [run], full⟩

theorem update_of_settles (step : ArrayTable → Eval (α × ArrayTable)) {arrays : ArrayTable}
    (h : (step s.arrays).Settles s.world t (a, arrays) w) :
    (∃ stats, s.update step = .ok (a, { world := { w with stats }, arrays }) ∧
        stats.tally = s.world.stats.tally + t) ∨
      s.update step = .error .overflow ∧ ¬ (s.world.stats.tally + t).Fits := by
  unfold update
  obtain ⟨stats, run, paid⟩ | ⟨v, run, full⟩ := h.ran
  · exact .inl ⟨stats, by rw [run], paid⟩
  · exact .inr ⟨by rw [run], full⟩

end Session

namespace Handler

variable {h : Handler} {s : Session} {m : SessionModel} {r : Request}

theorem withSession_ok {step : Session → Except Fault (Except RequestError Response × Session)}
    {answer : Except RequestError Response} {next : Session} (opened : h.session = some s)
    (ran : step s = .ok (answer, next)) :
    h.withSession step = .ok (respond answer, { h with session := some next }) := by
  simp only [withSession, opened, ran]
  rfl

theorem withSession_error {step : Session → Except Fault (Except RequestError Response × Session)}
    {fault : Fault} (opened : h.session = some s) (ran : step s = .error fault) :
    h.withSession step = .error fault := by
  simp only [withSession, opened, ran]
  rfl

/-- One request: the answer of the model at its price, or a ledger that it does not fit. -/
theorem handle_query (opened : h.session = some s) (follows : s.Follows m)
    (query : r.isQuery = true) :
    (∃ next : Session,
        h.handle r = .ok (m.reply s.world.stats r, { h with session := some next }) ∧
        next.Follows (m.after r) ∧
        next.world.stats.tally = s.world.stats.tally + m.outlines.price m.asked r) ∨
      h.handle r = .error .overflow ∧
        ¬ (s.world.stats.tally + m.outlines.price m.asked r).Fits := by
  cases r with
  | load snapshots => cases query
  | shutdown => cases query
  | stats =>
      have ran : h.withSession (fun s => .ok (.ok (.stats s.world.stats), s)) = _ :=
        withSession_ok opened rfl
      exact .inl ⟨s, ran, ⟨follows.carried.of_contents rfl rfl, follows.shown⟩,
        (add_zero _).symm⟩
  | length name =>
      obtain ⟨table, settles, shown⟩ := follows.carried.settles_length follows.shown name
      obtain ⟨stats, ran, paid⟩ | ⟨ran, full⟩ :=
        s.update_of_settles (fun arrays => arrays.length name) settles
      · exact .inl ⟨_, withSession_ok opened ran,
          ⟨(follows.carried.withStats stats).of_contents rfl rfl, shown⟩, paid⟩
      · exact .inr ⟨withSession_error opened ran, full⟩
  | element name index =>
      have settles := follows.carried.settles_element follows.shown name index
      obtain ⟨stats, ran, paid⟩ | ⟨ran, full⟩ :=
        s.query_of_settles (fun arrays => arrays.element name index) settles
      · exact .inl ⟨_, withSession_ok opened ran,
          ⟨(follows.carried.withStats stats).of_contents rfl rfl, follows.shown⟩, paid⟩
      · exact .inr ⟨withSession_error opened ran, full⟩
  | store name index value =>
      obtain ⟨u, settles, carried⟩ :=
        follows.carried.settles_store follows.shown name index value
      obtain ⟨stats, ran, paid⟩ | ⟨ran, full⟩ :=
        s.query_of_settles (fun arrays => arrays.store name index value) settles
      · exact .inl ⟨_, withSession_ok opened ran,
          ⟨carried.withStats stats, follows.shown.store name index value⟩, paid⟩
      · exact .inr ⟨withSession_error opened ran, full⟩

/-- As long as the ledger takes the price of all requests, all are answered, and the session goes on
with that price paid. -/
theorem handleAll_append {requests : List Request} (opened : h.session = some s)
    (follows : s.Follows m) (queries : ∀ r ∈ requests, r.isQuery = true)
    (fits : (s.world.stats.tally + m.outlines.total m.asked requests).Fits) :
    ∃ (answers : List Response) (later : Handler) (last : Session),
      later.session = some last ∧ answers.length = requests.length ∧
      (∀ more, h.handleAll (requests ++ more) = answers ++ later.handleAll more) ∧
      last.world.stats.tally = s.world.stats.tally + m.outlines.total m.asked requests := by
  -- by `handle_query` the session follows the model through every request, at the price that
  -- `total_cons` splits off
  induction requests generalizing h s m with
  | nil => exact ⟨[], h, s, opened, rfl, fun _ => rfl, by rw [Outlines.total_nil, add_zero]⟩
  | cons r rest ih =>
      rw [List.forall_mem_cons] at queries
      rw [Outlines.total_cons, ← add_assoc] at fits ⊢
      obtain ⟨next, ran, followed, paid⟩ | ⟨-, full⟩ := handle_query opened follows queries.1
      · rw [← paid, ← m.outlines_after r] at fits ⊢
        obtain ⟨answers, later, last, reopened, counted, continued, told⟩ :=
          ih (h := { h with session := some next }) rfl followed queries.2 fits
        refine ⟨m.reply s.world.stats r :: answers, later, last, reopened,
          congrArg (· + 1) counted, fun more => ?_, told⟩
        simp only [List.cons_append, handleAll, ran, continued]
      · exact absurd fits.of_add full

theorem handleAll_stats (opened : h.session = some s) :
    h.handleAll [.stats] = [.stats s.world.stats] := by
  have ran : h.handle .stats = _ := withSession_ok opened rfl
  simp only [handleAll, ran]
  rfl

end Handler

end DebugArrays
