import DebugArrays.Proofs.Session.History

/-!
The handler has no faults of its own. Every fault that a request could end in is ruled out by what a
session always is, except for a counter that is full; and a counter is full only after as many
handle operations as it can count.
-/
namespace DebugArrays

/-- Shapes are of ranks other than zero, and a remainder is taken by such a rank. -/
theorem Shape.holds_of_ofRank? {rank : UInt32} {shape : Shape} (h : ofRank? rank = some shape) :
    rank ≠ 0 ∧ ∀ length, shape.holds length = (rank == 1 || length % rank.toNat == 0) := by
  unfold ofRank? at h
  split at h
  · next several =>
    cases h
    have apart : ∀ low : UInt32, low.toNat ≤ 1 → rank ≠ low := by
      rintro low small rfl
      omega
    refine ⟨apart 0 (by decide), ?_⟩
    intro length
    rw [beq_eq_false_iff_ne.2 (apart 1 (by decide)), Bool.false_or]
    rfl
  · split at h
    · next single =>
      cases h
      subst single
      exact ⟨by decide, fun _ => rfl⟩
    · cases h

namespace Eval

variable {α β : Type} {step : Eval α} {next : α → Eval β} {w after : World} {a : α} {t : Tally}

/-- The handle operations that a step performs: what the ledger took of it, and the one that the
ledger refused. -/
def operations (step : Eval α) (w : World) : Nat :=
  match step.runIn w with
  | (.error .overflow, v) => v.stats.tally.events - w.stats.tally.events + 1
  | (_, v) => v.stats.tally.events - w.stats.tally.events

/-- The only fault that a step can end in is a counter that is full. -/
def OnlyFills (step : Eval α) (w : World) : Prop :=
  ∀ fault v, step.runIn w = (.error fault, v) → fault = .overflow ∧ v.stats.Full

theorem Settles.onlyFills (h : step.Settles w t a after) : step.OnlyFills w := by
  intro fault v run
  obtain ⟨stats, well, -⟩ | ⟨u, ill, -, full⟩ := h.outcome
  · cases run.symm.trans well
  · cases run.symm.trans ill
    exact ⟨rfl, full⟩

namespace OnlyFills

protected theorem pure (a : α) (w : World) : (pure a : Eval α).OnlyFills w :=
  fun _ _ run => nomatch run

theorem bind (first : step.OnlyFills w)
    (rest : ∀ a u, step.runIn w = (.ok a, u) → (next a).OnlyFills u) :
    (step >>= next).OnlyFills w := by
  intro fault v run
  rw [runIn_bind] at run
  rcases started : step.runIn w with ⟨fault | a, u⟩
  · rw [started] at run
    cases run
    exact first _ _ started
  · rw [started] at run
    exact rest a u started _ _ run

protected theorem map (f : α → β) (h : step.OnlyFills w) : (f <$> step).OnlyFills w := by
  rw [map_eq_pure_bind]
  apply h.bind
  intro a u _
  exact .pure (f a) u

/-- With fewer operations than a counter can count, the step ends well. -/
theorem exists_ok (h : step.OnlyFills w)
    (few : w.stats.tally.events + step.operations w < 2 ^ 64) :
    ∃ a v, step.runIn w = (.ok a, v) ∧
      v.stats.tally.events ≤ w.stats.tally.events + step.operations w := by
  unfold operations at few ⊢
  rcases run : step.runIn w with ⟨fault | a, v⟩
  · obtain ⟨rfl, full⟩ := h _ _ run
    have many := full.le_events
    simp only [run] at few
    omega
  · refine ⟨a, v, rfl, ?_⟩
    dsimp only
    omega

end OnlyFills

end Eval

namespace Session

open Eval

variable {α : Type} {s : Session} {m : SessionModel} {byReference : Bool}
  {done : List ArraySnapshot} {id : String → ObjectId} {w : World} {arrays : ArrayTable}

namespace Loaded

theorem onlyFills_close (now : Session.Loaded ⟨w, arrays⟩ byReference done id) :
    arrays.close.OnlyFills w :=
  (arrays.settles_close now.follows.carried.free now.follows.carried.recorded).onlyFills

theorem onlyFills_addAll (now : Session.Loaded ⟨w, arrays⟩ byReference done id)
    (rest : List ArraySnapshot) : (arrays.addAll byReference rest).OnlyFills w := by
  -- a snapshot that is refused leaves the world of the snapshots before it, to be closed
  induction rest generalizing done id arrays w with
  | nil => exact .pure _ w
  | cons s rest ih =>
      rw [ArrayTable.addAll]
      cases made : s.toObject with
      | error e =>
          rw [ArrayTable.add_of_error made, pure_bind]
          apply now.onlyFills_close.bind
          intro _ u _
          exact .pure _ u
      | ok object =>
          rw [ArrayTable.add_of_object made]
          have enrolled : (arrays.enroll byReference s object).Settles w _ _ _ :=
            ArrayTable.settles_enroll made now.follows.carried.free
          apply (enrolled.onlyFills.map Except.ok).bind
          intro answer u run
          obtain ⟨table, -, rfl⟩ := runIn_map_ok run
          rw [← ArrayTable.add_of_object made] at run
          exact ih (now.add run)

end Loaded

/-- The handle operations of a request on an open session, the opening of another one apart. -/
def operations (s : Session) : Request → Nat
  | .length name => (s.arrays.length name).operations s.world
  | .element name index => (s.arrays.element name index).operations s.world
  | .store name index value => (s.arrays.store name index value).operations s.world
  | .load _ => s.arrays.close.operations s.world
  | .shutdown => s.arrays.close.operations s.world
  | .stats => 0

/-- The events that the ledger of a session has taken. -/
def events (s : Session) : Nat :=
  s.world.stats.tally.events

theorem exists_query (step : ArrayTable → Eval α) (h : (step s.arrays).OnlyFills s.world)
    (few : s.events + (step s.arrays).operations s.world < 2 ^ 64) :
    ∃ a next, s.query step = .ok (a, next) ∧
      next.events ≤ s.events + (step s.arrays).operations s.world := by
  obtain ⟨a, v, run, counted⟩ := h.exists_ok few
  refine ⟨a, { s with world := v }, ?_, counted⟩
  unfold query
  rw [run]

theorem exists_update (step : ArrayTable → Eval (α × ArrayTable))
    (h : (step s.arrays).OnlyFills s.world)
    (few : s.events + (step s.arrays).operations s.world < 2 ^ 64) :
    ∃ a next, s.update step = .ok (a, next) ∧
      next.events ≤ s.events + (step s.arrays).operations s.world := by
  obtain ⟨⟨a, arrays⟩, v, run, counted⟩ := h.exists_ok few
  refine ⟨a, ⟨v, arrays⟩, ?_, counted⟩
  unfold update
  rw [run]

/-- A session that was opened has counted what the opening did. -/
theorem exists_ofSnapshots (byReference : Bool) (snapshots : List ArraySnapshot)
    (few : (ArrayTable.addAll byReference .empty snapshots).operations {} < 2 ^ 64) :
    ∃ outcome, ofSnapshots byReference snapshots = .ok outcome ∧
      ∀ s, outcome = .ok s →
        s.events ≤ (ArrayTable.addAll byReference .empty snapshots).operations {} := by
  have stops := (loaded_empty byReference).onlyFills_addAll snapshots
  have unused : ({} : World).stats.tally.events = 0 := rfl
  obtain ⟨answer, v, run, counted⟩ := stops.exists_ok (by rwa [unused, zero_add])
  rw [unused, zero_add] at counted
  unfold ofSnapshots
  rw [run]
  cases answer with
  | error e => exact ⟨.error e, rfl, nofun⟩
  | ok arrays =>
      refine ⟨_, rfl, ?_⟩
      rintro s ⟨⟩
      exact counted

end Session

namespace Handler

variable {h : Handler} {config : Config} {done requests : List Request} {r : Request}
  {snapshots : List ArraySnapshot} {s : Session} {m : SessionModel}

/-- The handle operations of a request: those on the session that is open, and, for a load, those of
opening the next one. -/
def operations (h : Handler) (r : Request) : Nat :=
  h.session.elim 0 (fun s => s.operations r) +
    match r with
    | .load snapshots => (ArrayTable.addAll h.config.byReference .empty snapshots).operations {}
    | _ => 0

/-- The handle operations of requests in order, up to the fault that ends them if there is one. -/
def performed (h : Handler) : List Request → Nat
  | [] => 0
  | r :: rest =>
    h.operations r +
      match h.handle r with
      | .ok (_, next) => performed next rest
      | .error _ => 0

/-- The events that the session of a handler has counted. -/
def events (h : Handler) : Nat :=
  h.session.elim 0 Session.events

theorem exists_handle_of_follows (opened : h.session = some s) (follows : s.Follows m)
    (query : r.isQuery = true) (few : s.events + s.operations r < 2 ^ 64) :
    ∃ response next, h.handle r = .ok (response, { h with session := some next }) ∧
      next.events ≤ s.events + s.operations r := by
  cases r with
  | load snapshots => cases query
  | shutdown => cases query
  | stats =>
      have ran : h.withSession (fun s => .ok (.ok (.stats s.world.stats), s)) = _ :=
        withSession_ok opened rfl
      exact ⟨_, s, ran, Nat.le_add_right ..⟩
  | length name =>
      obtain ⟨table, settles, -⟩ := follows.carried.settles_length follows.shown name
      obtain ⟨answer, next, ran, counted⟩ :=
        Session.exists_update (fun arrays => arrays.length name) settles.onlyFills few
      exact ⟨_, next, withSession_ok opened ran, counted⟩
  | element name index =>
      have settles := follows.carried.settles_element follows.shown name index
      obtain ⟨answer, next, ran, counted⟩ :=
        Session.exists_query (fun arrays => arrays.element name index) settles.onlyFills few
      exact ⟨_, next, withSession_ok opened ran, counted⟩
  | store name index value =>
      obtain ⟨u, settles, -⟩ := follows.carried.settles_store follows.shown name index value
      obtain ⟨answer, next, ran, counted⟩ :=
        Session.exists_query (fun arrays => arrays.store name index value)
          settles.onlyFills few
      exact ⟨_, next, withSession_ok opened ran, counted⟩

namespace Told

theorem exists_handle_query_within (told : h.Told config done) (query : r.isQuery = true)
    (few : h.events + h.operations r < 2 ^ 64) :
    ∃ response next, h.handle r = .ok (response, next) ∧
      next.events ≤ h.events + h.operations r := by
  cases opened : h.session with
  | none =>
      exact ⟨_, h, handle_query_of_none opened query, Nat.le_add_right ..⟩
  | some s =>
      obtain ⟨before, snapshots, queries, id, rfl, -, known⟩ := told.session s opened
      have held : h.events = s.events := by rw [events, opened, Option.elim_some]
      have asked : s.operations r ≤ h.operations r := by
        unfold Handler.operations
        rw [opened, Option.elim_some]
        exact Nat.le_add_right ..
      obtain ⟨response, next, handled, counted⟩ :=
        exists_handle_of_follows opened known.follows query (by omega)
      refine ⟨response, _, handled, ?_⟩
      rw [events, Option.elim_some]
      omega

theorem exists_handle_load_within (told : h.Told config done)
    (few : h.events + h.operations (.load snapshots) < 2 ^ 64) :
    ∃ response next, h.handle (.load snapshots) = .ok (response, next) ∧
      next.events ≤ h.events + h.operations (.load snapshots) := by
  have opening : (ArrayTable.addAll h.config.byReference .empty snapshots).operations {} ≤
      h.operations (.load snapshots) := Nat.le_add_left ..
  obtain ⟨outcome, made, counted⟩ :=
    Session.exists_ofSnapshots h.config.byReference snapshots (by omega)
  rw [handle_load_of_closeSession told.closeSession]
  cases outcome with
  | error e => exact ⟨_, _, handle_load_new_of_error made, Nat.zero_le _⟩
  | ok s =>
      have loaded := counted s rfl
      refine ⟨_, _, handle_load_new_of_ok made, ?_⟩
      rw [events, Option.elim_some]
      omega

/-- One request is answered as long as it leaves fewer operations than a counter can count. -/
theorem exists_handle_within (told : h.Told config done)
    (few : h.events + h.operations r < 2 ^ 64) :
    ∃ response next, h.handle r = .ok (response, next) ∧
      next.events ≤ h.events + h.operations r := by
  cases r with
  | load snapshots => exact told.exists_handle_load_within few
  | shutdown =>
      exact ⟨_, _, handle_shutdown_of_closeSession told.closeSession, Nat.zero_le _⟩
  | _ => exact told.exists_handle_query_within rfl few

theorem exists_run_within (told : h.Told config done)
    (few : h.events + h.performed requests < 2 ^ 64) :
    ∃ responses last, h.run requests = .ok (responses, last) := by
  -- every request leaves a handler that can be told, and no more events than were performed
  induction requests generalizing h done with
  | nil => exact ⟨[], h, rfl⟩
  | cons r rest ih =>
      rw [performed] at few
      obtain ⟨response, next, handled, counted⟩ := told.exists_handle_within (r := r) (by omega)
      rw [handled] at few
      dsimp only at few
      obtain ⟨later, last, ran⟩ := ih (told.handle handled) (by omega)
      exact ⟨response :: later, last, run_cons_ok.2 ⟨response, next, later, handled, ran, rfl⟩⟩

end Told

/-- No requests make the handler fail, whatever they ask for, as long as they perform fewer handle
operations than a counter can count: all are answered, and so no assertion fails, no release is
forbidden and nothing overflows. What a fault does not stand for cannot happen either: a length is
only ever divided by a rank that is not zero, and a scope is lexical (`Handle.runIn_withObject`), so
nothing uses a guard after its release. -/
theorem run_never_fails (few : (new config).performed requests < 2 ^ 64) :
    (∃ responses last, (new config).run requests = .ok (responses, last) ∧
      responses.length = requests.length) ∧
    ∀ rank shape, Shape.ofRank? rank = some shape → rank ≠ 0 ∧
      ∀ length, shape.holds length = (rank == 1 || length % rank.toNat == 0) := by
  constructor
  · have told : (new config).Told config [] := .of_none rfl rfl []
    have unused : (new config).events = 0 := rfl
    rw [← zero_add ((new config).performed requests), ← unused] at few
    obtain ⟨responses, last, ran⟩ := told.exists_run_within few
    exact ⟨responses, last, ran, length_of_run ran⟩
  · intro rank shape ranked
    exact Shape.holds_of_ofRank? ranked

/-- Requests before and after a load that is refused. -/
def sampleTraffic : List Request :=
  .length "xs" :: .load sampleSnapshots :: sampleRequests ++
    [.store "xs" (-1) ⟨.bool true, trivial⟩,
      .load [{ name := "xs", elementType := "int", rank := 0 }], .length "xs", .shutdown]

theorem run_never_fails_sample :
    ∃ responses last, (new {}).run sampleTraffic = .ok (responses, last) ∧
      responses.length = 14 := by
  have few : (new {}).performed sampleTraffic < 2 ^ 64 := by decide +kernel
  exact (run_never_fails few).1

end Handler

end DebugArrays
