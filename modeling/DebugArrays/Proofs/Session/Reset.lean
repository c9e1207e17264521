import DebugArrays.Proofs.Session.History

/-!
A load as a full reset. What was before it decides nothing; the snapshots alone decide whether a
session opens, which names it has, and what its ledger starts from.
-/
namespace DebugArrays

/-- A session as a load leaves it: each name stands for its last snapshot, whose length nobody has
asked for yet, and of all handles one for each name is left. -/
structure Session.Opened (s : Session) (byReference : Bool) (snapshots : List ArraySnapshot) :
    Prop where
  names : ∀ name, name ∈ s.arrays.names ↔ name ∈ snapshots.map ArraySnapshot.name
  views : ∀ name t, lastNamed snapshots name = some t → ∃ id object, t.toObject = .ok object ∧
    s.world.heap.object? id = some object ∧
    s.arrays.find? name = some
      ⟨⟨if t.byReference.getD byReference then .reference id else .object id, object.type⟩,
        object.type.isSzArray, .uninitialized⟩
  issued : s.world.stats.issued.toNat = snapshots.length
  released : s.world.stats.released.toNat = displaced snapshots
  live : s.world.stats.live.toNat = (snapshots.map ArraySnapshot.name).toFinset.card
  idle : s.world.stats.dereferences = 0 ∧ s.world.stats.elementReads = 0 ∧
    s.world.stats.lengthQueries = 0
  recorded : s.world.recorded = []

/-- Loading stops at a snapshot, and every handle issued up to there has been given back. -/
def ArrayTable.Unwinds (byReference : Bool) (snapshots : List ArraySnapshot) (e : SnapshotError) :
    Prop :=
  ∃ w, (addAll byReference .empty snapshots).runIn {} = (.ok (.error e), w) ∧
    w.stats.issued.toNat = (snapshots.takeWhile fun t => t.rejection?.isNone).length ∧
    w.stats.released = w.stats.issued ∧ w.recorded = []

/-- Until a load succeeds, every query is told that nothing is loaded. -/
def Handler.AwaitsLoad (h : Handler) : Prop :=
  ∀ requests responses last, h.run requests = .ok (responses, last) →
    (∀ snapshots, (.load snapshots, .success true) ∉ requests.zip responses) →
    ∀ r, r.isQuery = true → last.handle r = .ok (.error RequestError.notInitialized.message, last)

namespace Session.Loaded

variable {s : Session} {byReference : Bool} {snapshots : List ArraySnapshot}
  {id : String → ObjectId}

theorem toNat_live (loaded : s.Loaded byReference snapshots id) :
    s.world.stats.live.toNat = (snapshots.map ArraySnapshot.name).toFinset.card := by
  have bound := card_names_le snapshots
  have issued : s.world.stats.issued.toNat = snapshots.length :=
    congrArg Tally.issued loaded.tally
  have released : s.world.stats.released.toNat = displaced snapshots :=
    congrArg Tally.released loaded.tally
  have order : s.world.stats.released ≤ s.world.stats.issued := by
    rw [UInt64.le_iff_toNat_le, issued, released]
    exact displaced_le snapshots
  rw [HandleStats.live, if_pos order, UInt64.toNat_sub_of_le _ _ order, issued, released, displaced]
  omega

theorem opened (loaded : s.Loaded byReference snapshots id)
    (taken : ∀ t ∈ snapshots, t.rejection? = none) : s.Opened byReference snapshots where
  names := by
    intro name
    rw [NameTable.mem_names_iff, loaded.isSome_find?, isSome_lastNamed]
  views := by
    intro name t last
    obtain ⟨object, made⟩ :=
      ArraySnapshot.exists_toObject_of_rejection? (taken t (mem_of_lastNamed last))
    obtain ⟨a, stored, rfl, -⟩ := StoredArray.ofSnapshot?_of_toObject made
    have kept : (SessionModel.loaded byReference snapshots id).contents name = some a := by
      have found : (SessionModel.loaded byReference snapshots id).contents name =
          (lastNamed snapshots name).bind StoredArray.ofSnapshot? := rfl
      rw [found, last, Option.bind_some, stored]
    refine ⟨id name, a.object, made, loaded.follows.carried.object name a kept, ?_⟩
    rw [loaded.follows.shown name, kept, Option.map_some]
    simp [SessionModel.view, SessionModel.handle, SessionModel.loaded, last, StoredArray.object]
  issued := congrArg Tally.issued loaded.tally
  released := congrArg Tally.released loaded.tally
  live := loaded.toNat_live
  idle :=
    ⟨UInt64.toNat_inj.1 (congrArg Tally.dereferences loaded.tally),
      UInt64.toNat_inj.1 (congrArg Tally.elementReads loaded.tally),
      UInt64.toNat_inj.1 (congrArg Tally.lengthQueries loaded.tally)⟩
  recorded := loaded.follows.carried.recorded

end Session.Loaded

namespace ArrayTable

theorem unwinds {byReference : Bool} {snapshots : List ArraySnapshot} {e : SnapshotError}
    (few : snapshots.length < 2 ^ 64)
    (found : snapshots.findSome? ArraySnapshot.rejection? = some e) :
    Unwinds byReference snapshots e := by
  obtain ⟨taken, s, rest, rfl, refused, good⟩ := List.findSome?_eq_some_iff.1 found
  obtain ⟨w, run, closed, nothing⟩ := Session.addAll_refused byReference rest good refused
    (by simp at few; omega)
  have first : (taken ++ s :: rest).takeWhile (fun t => t.rejection?.isNone) = taken := by
    rw [List.takeWhile_append_of_pos fun t member => by rw [good t member]; rfl,
      List.takeWhile_cons_of_neg (by simp [refused]), List.append_nil]
  have issued : w.stats.issued.toNat = taken.length := congrArg Tally.issued closed
  have released : w.stats.released.toNat = taken.length := congrArg Tally.released closed
  refine ⟨w, run, ?_, ?_, nothing⟩
  · rw [first, issued]
  · rw [← UInt64.toNat_inj, issued, released]

end ArrayTable

namespace Handler

variable {config : Config} {before : List Request} {responses : List Response} {h : Handler}
  {snapshots : List ArraySnapshot}

/-- Without a session there is none until a load succeeds. -/
theorem awaitsLoad_of_none (closed : h.session = none) : h.AwaitsLoad := by
  intro requests
  induction requests generalizing h with
  | nil =>
      intro responses last ran unloaded r query
      cases ran
      exact handle_query_of_none closed query
  | cons first rest ih =>
      intro responses last ran unloaded
      obtain ⟨response, next, later, handled, tail, rfl⟩ := run_cons_ok.1 ran
      rw [List.zip_cons_cons] at unloaded
      refine ih ?_ later last tail fun snapshots member =>
        unloaded snapshots (List.mem_cons_of_mem _ member)
      cases first with
      | load snapshots =>
          obtain ⟨s, -, rfl, -⟩ | ⟨e, -, -, rfl⟩ := handle_load_ok handled
          · exact absurd List.mem_cons_self (unloaded snapshots)
          · rfl
      | shutdown =>
          obtain ⟨-, rfl⟩ := handle_shutdown_ok handled
          rfl
      | _ =>
          cases (handle_query_of_none closed rfl).symm.trans handled
          exact closed

/-- A load is a full reset. After any requests it is answered as by a new handler and leaves what a
new handler would be left with, so that nothing later depends on them. It succeeds exactly if every
snapshot is taken; else the first that is refused decides the answer, no session is left, and what
was issued has been given back. -/
theorem load_resets (ran : (new config).run before = .ok (responses, h))
    (few : snapshots.length < 2 ^ 64) :
    ∃ response next, h.handle (.load snapshots) = .ok (response, next) ∧
      (new config).handle (.load snapshots) = .ok (response, next) ∧
      (∀ later, h.handleAll (.load snapshots :: later) =
        (new config).handleAll (.load snapshots :: later)) ∧
      (response = .success true ↔ ∀ t ∈ snapshots, t.rejection? = none) ∧
      match snapshots.findSome? ArraySnapshot.rejection? with
      | none => ∃ s, next = { config, session := some s } ∧ s.Opened config.byReference snapshots
      | some e => response = .error e.message ∧ next = new config ∧ next.AwaitsLoad ∧
          ArrayTable.Unwinds config.byReference snapshots e := by
  have told := told_of_run ran
  have same : h.handle (.load snapshots) = (new config).handle (.load snapshots) := by
    rw [handle_load_of_closeSession told.closeSession, told.made]
  have alike : ∀ later, h.handleAll (.load snapshots :: later) =
      (new config).handleAll (.load snapshots :: later) := by
    intro later
    simp only [handleAll, same]
  rw [same]
  cases found : snapshots.findSome? ArraySnapshot.rejection? with
  | none =>
      have taken : ∀ t ∈ snapshots, t.rejection? = none := List.findSome?_eq_none_iff.1 found
      obtain ⟨s, id, made, loaded⟩ := Session.ofSnapshots_taken taken few
      exact ⟨_, _, handle_load_new_of_ok made, handle_load_new_of_ok made, alike,
        iff_of_true rfl taken, s, rfl, loaded.opened taken⟩
  | some e =>
      have failed : Session.ofSnapshots config.byReference snapshots = .ok (.error e) :=
        Session.ofSnapshots_refused found few
      refine ⟨_, _, handle_load_new_of_error failed, handle_load_new_of_error failed, alike,
        iff_of_false ?_ ?_, rfl, rfl, awaitsLoad_of_none rfl, ArrayTable.unwinds few found⟩
      · intro succeeded
        cases succeeded
      · intro taken
        cases (List.findSome?_eq_none_iff.2 taken).symm.trans found

/-- A snapshot that is taken, and two that are not. -/
def refusedSnapshots : List ArraySnapshot :=
  [{ name := "xs", elementType := "int" }, { name := "ys", elementType := "number" },
    { name := "zs", elementType := "int", rank := 0 }]

theorem load_resets_refused :
    ∃ responses h next, (new {}).run (.load sampleSnapshots :: sampleRequests) =
        .ok (responses, h) ∧ h.session.isSome = true ∧
      h.handle (.load refusedSnapshots) =
        .ok (.error "Unknown element type: 'number'", next) ∧ next.AwaitsLoad := by
  have evaluated : (((new {}).run (.load sampleSnapshots :: sampleRequests)).toOption.bind
      fun outcome => outcome.2.session).isSome = true := by decide +kernel
  have first : (refusedSnapshots.findSome? ArraySnapshot.rejection?).map SnapshotError.message =
      some "Unknown element type: 'number'" := by decide +kernel
  obtain ⟨responses, h, s, ran, opened⟩ := exists_run_session evaluated
  obtain ⟨response, next, handled, -, -, -, outcome⟩ :=
    load_resets ran (by decide : refusedSnapshots.length < 2 ^ 64)
  obtain ⟨e, found, told⟩ := Option.map_eq_some_iff.1 first
  rw [found] at outcome
  obtain ⟨rfl, -, awaits, -⟩ := outcome
  exact ⟨responses, h, next, ran, by rw [opened]; rfl, told ▸ handled, awaits⟩

end Handler

end DebugArrays
