import DebugArrays.Proofs.Session.Ledger
import DebugArrays.Proofs.Session.Opening

/-!
What a handler is after any requests. A session can be told from the last load and the queries
since; what was before that load has left no trace.
-/
namespace DebugArrays

namespace Outlines

variable {o : Outlines}

theorem total_concat (asked : Finset String) (requests : List Request) (r : Request) :
    o.total asked (requests ++ [r]) =
      o.total asked requests + o.price (requests.foldl Request.noting asked) r := by
  induction requests generalizing asked with
  | nil =>
      rw [List.nil_append, total_cons, total_nil, total_nil, add_zero, zero_add]
      rfl
  | cons first rest ih =>
      rw [List.cons_append, total_cons, total_cons, ih, add_assoc, List.foldl_cons]

end Outlines

namespace SessionModel

variable {m : SessionModel}

def afterAll (m : SessionModel) (requests : List Request) : SessionModel :=
  requests.foldl after m

@[simp] theorem afterAll_nil : m.afterAll [] = m := rfl

theorem afterAll_concat (requests : List Request) (r : Request) :
    m.afterAll (requests ++ [r]) = (m.afterAll requests).after r := by
  rw [afterAll, List.foldl_append]
  rfl

theorem asked_afterAll (requests : List Request) :
    (m.afterAll requests).asked = requests.foldl Request.noting m.asked := by
  induction requests generalizing m with
  | nil => rfl
  | cons r rest ih => exact ih

theorem outlines_afterAll (requests : List Request) :
    (m.afterAll requests).outlines = m.outlines := by
  induction requests generalizing m with
  | nil => rfl
  | cons r rest ih => exact ih.trans (m.outlines_after r)

/-- No request makes a name known or unknown. -/
theorem isSome_contents_after (r : Request) (name : String) :
    ((m.after r).contents name).isSome = (m.contents name).isSome := by
  cases r with
  | store other index value =>
      by_cases here : name = other
      · rw [here, contents_after_store_self, Option.isSome_map]
      · rw [contents_after_store_of_ne here]
  | _ => rfl

theorem isSome_contents_afterAll (requests : List Request) (name : String) :
    ((m.afterAll requests).contents name).isSome = (m.contents name).isSome := by
  induction requests generalizing m with
  | nil => rfl
  | cons r rest ih => exact ih.trans (m.isSome_contents_after r name)

end SessionModel

theorem sessionTally_concat (byReference : Bool) (snapshots : List ArraySnapshot)
    (requests : List Request) (r : Request) (id : String → ObjectId) :
    sessionTally byReference snapshots (requests ++ [r]) =
      sessionTally byReference snapshots requests +
        (((SessionModel.loaded byReference snapshots id).afterAll requests).outlines.price
          ((SessionModel.loaded byReference snapshots id).afterAll requests).asked r) := by
  rw [SessionModel.outlines_afterAll, SessionModel.asked_afterAll, SessionModel.outlines_loaded,
    sessionTally, Outlines.total_concat, ← add_assoc]
  rfl

/-- What is not given back by requests are the handles of the names. -/
theorem issued_sessionTally (byReference : Bool) (snapshots : List ArraySnapshot)
    (requests : List Request) :
    (sessionTally byReference snapshots requests).issued =
      (sessionTally byReference snapshots requests).released +
        (snapshots.map ArraySnapshot.name).toFinset.card := by
  have bound := card_names_le snapshots
  simp only [sessionTally, displaced, Outlines.total, Tally.issued_add, Tally.released_add]
  omega

theorem fits_sessionTally {byReference : Bool} {snapshots : List ArraySnapshot}
    {requests : List Request} (few : snapshots.length + 4 * requests.length < 2 ^ 64) :
    (sessionTally byReference snapshots requests).Fits :=
  Outlines.fits_total (displaced_le snapshots) few

/-- A session, told from the snapshots that it was loaded from and the queries since. -/
structure Session.Told (s : Session) (byReference : Bool) (snapshots : List ArraySnapshot)
    (queries : List Request) (id : String → ObjectId) : Prop where
  follows : s.Follows ((SessionModel.loaded byReference snapshots id).afterAll queries)
  accepted : ∀ t ∈ snapshots, (StoredArray.ofSnapshot? t).isSome = true
  tally : s.world.stats.tally = sessionTally byReference snapshots queries

namespace Session

variable {s : Session} {byReference : Bool} {snapshots : List ArraySnapshot}
  {queries : List Request} {id : String → ObjectId} {h : Handler} {r : Request}

theorem Loaded.told (loaded : s.Loaded byReference snapshots id) :
    s.Told byReference snapshots [] id where
  follows := loaded.follows
  accepted := loaded.accepted
  tally := by rw [sessionTally, Outlines.total_nil, add_zero, loaded.tally]

namespace Told

/-- One more query: it is answered and told, or the ledger has no room for it. -/
theorem handle (told : s.Told byReference snapshots queries id) (opened : h.session = some s)
    (query : r.isQuery = true) :
    (∃ (response : Response) (next : Session),
        h.handle r = .ok (response, { h with session := some next }) ∧
        next.Told byReference snapshots (queries ++ [r]) id) ∨
      h.handle r = .error .overflow ∧
        ¬ (sessionTally byReference snapshots (queries ++ [r])).Fits := by
  rw [sessionTally_concat byReference snapshots queries r id, ← told.tally]
  obtain ⟨next, ran, followed, paid⟩ | failed := Handler.handle_query opened told.follows query
  · refine .inl ⟨_, next, ran, ?_, told.accepted, ?_⟩
    · rwa [SessionModel.afterAll_concat]
    · rw [sessionTally_concat byReference snapshots queries r id, ← told.tally, paid]
  · exact .inr failed

theorem isSome_find? (told : s.Told byReference snapshots queries id) (name : String) :
    (s.arrays.find? name).isSome = (lastNamed snapshots name).isSome := by
  rw [told.follows.shown name, Option.isSome_map, SessionModel.isSome_contents_afterAll]
  have kept : (SessionModel.loaded byReference snapshots id).contents name =
      (lastNamed snapshots name).bind StoredArray.ofSnapshot? := rfl
  rw [kept]
  cases last : lastNamed snapshots name with
  | none => rfl
  | some t =>
      rw [Option.bind_some]
      exact told.accepted t (mem_of_lastNamed last)

theorem length_entries (told : s.Told byReference snapshots queries id) :
    s.arrays.entries.length = (snapshots.map ArraySnapshot.name).toFinset.card :=
  NameTable.length_entries fun name => by
    rw [told.isSome_find?, isSome_lastNamed, List.mem_toFinset]

/-- A session can always be closed: no more handles are given back than were issued. -/
theorem exists_close (told : s.Told byReference snapshots queries id) :
    ∃ w, s.close = .ok w := by
  have issued : (s.world.stats.tally + { released := s.arrays.entries.length } : Tally).released =
      s.world.stats.tally.issued := by
    rw [told.tally, issued_sessionTally, told.length_entries]
    rfl
  have fits : (s.world.stats.tally + { released := s.arrays.entries.length } : Tally).Fits := by
    have held := s.world.stats.fits_tally
    exact ⟨held.1, issued ▸ held.1, held.2.2⟩
  unfold close
  obtain ⟨stats, run, -⟩ | ⟨v, -, full⟩ :=
    (s.arrays.settles_close told.follows.carried.free told.follows.carried.recorded).ran
  · rw [run]
    exact ⟨_, rfl⟩
  · exact absurd fits full

end Told

end Session

namespace Handler

variable {h last next : Handler} {config : Config} {r : Request} {response : Response}
  {responses : List Response} {requests : List Request} {snapshots : List ArraySnapshot}
  {s : Session} {e : SnapshotError}

/-- The responses to requests, and the handler after them. A fault ends the run. -/
def run (h : Handler) : List Request → Except Fault (List Response × Handler)
  | [] => .ok ([], h)
  | r :: rest =>
    match h.handle r with
    | .error fault => .error fault
    | .ok (response, h) => (run h rest).map fun (responses, h) => (response :: responses, h)

theorem run_cons_ok {rest : List Request} :
    h.run (r :: rest) = .ok (responses, last) ↔
      ∃ response next later, h.handle r = .ok (response, next) ∧
        next.run rest = .ok (later, last) ∧ responses = response :: later := by
  rw [run]
  cases h.handle r with
  | error fault => exact iff_of_false nofun nofun
  | ok outcome =>
      obtain ⟨response, next⟩ := outcome
      dsimp only
      constructor
      · intro ran
        cases tail : next.run rest with
        | error fault =>
            rw [tail] at ran
            cases ran
        | ok outcome =>
            rw [tail] at ran
            cases ran
            exact ⟨response, next, outcome.1, rfl, tail, rfl⟩
      · rintro ⟨_, _, later, handled, ran, rfl⟩
        cases handled
        rw [ran]
        rfl

/-- A run splits at every request. -/
theorem run_append_ok {first second : List Request} :
    h.run (first ++ second) = .ok (responses, last) ↔
      ∃ before next later, h.run first = .ok (before, next) ∧
        next.run second = .ok (later, last) ∧ responses = before ++ later := by
  induction first generalizing h responses with
  | nil =>
      constructor
      · intro ran
        exact ⟨[], h, responses, rfl, ran, rfl⟩
      · rintro ⟨_, _, later, start, ran, rfl⟩
        cases start
        exact ran
  | cons r rest ih =>
      rw [List.cons_append, run_cons_ok]
      constructor
      · rintro ⟨response, next, _, handled, ran, rfl⟩
        obtain ⟨before, middle, later, here, there, rfl⟩ := ih.1 ran
        exact ⟨response :: before, middle, later,
          run_cons_ok.2 ⟨response, next, before, handled, here, rfl⟩, there, rfl⟩
      · rintro ⟨_, middle, later, here, there, rfl⟩
        obtain ⟨response, next, before, handled, ran, rfl⟩ := run_cons_ok.1 here
        exact ⟨response, next, before ++ later, handled,
          ih.2 ⟨before, middle, later, ran, there, rfl⟩, rfl⟩

theorem run_singleton_ok :
    h.run [r] = .ok (responses, last) ↔
      ∃ response, h.handle r = .ok (response, last) ∧ responses = [response] := by
  rw [run_cons_ok]
  constructor
  · rintro ⟨response, next, later, handled, ran, rfl⟩
    cases ran
    exact ⟨response, handled, rfl⟩
  · rintro ⟨response, handled, rfl⟩
    exact ⟨response, last, [], handled, rfl, rfl⟩

theorem run_of_toOption {outcome : List Response × Handler}
    (done : (h.run requests).toOption = some outcome) : h.run requests = .ok outcome := by
  cases ran : h.run requests with
  | error fault =>
      rw [ran] at done
      cases done
  | ok other =>
      rw [ran] at done
      cases done
      rfl

/-- A run that can be evaluated to a session has one. -/
theorem exists_run_session
    (evaluated : ((h.run requests).toOption.bind fun outcome => outcome.2.session).isSome = true) :
    ∃ responses last s, h.run requests = .ok (responses, last) ∧ last.session = some s := by
  obtain ⟨s, found⟩ := Option.isSome_iff_exists.1 evaluated
  obtain ⟨⟨responses, last⟩, done, opened⟩ := Option.bind_eq_some_iff.1 found
  exact ⟨responses, last, s, run_of_toOption done, opened⟩

theorem length_of_run (ran : h.run requests = .ok (responses, last)) :
    responses.length = requests.length := by
  induction requests generalizing h responses with
  | nil =>
      cases ran
      rfl
  | cons r rest ih =>
      obtain ⟨response, next, later, -, tail, rfl⟩ := run_cons_ok.1 ran
      exact congrArg Nat.succ (ih tail)

/-- What `handleAll` answers is what a run answers, where there is one. -/
theorem handleAll_of_run (ran : h.run requests = .ok (responses, last)) :
    h.handleAll requests = responses := by
  induction requests generalizing h responses with
  | nil =>
      cases ran
      rfl
  | cons r rest ih =>
      obtain ⟨response, next, later, handled, tail, rfl⟩ := run_cons_ok.1 ran
      simp only [handleAll, handled, ih tail]

/-- The two ways a load can go that is answered at all. -/
theorem handle_load_ok (ran : h.handle (.load snapshots) = .ok (response, next)) :
    (∃ s, Session.ofSnapshots h.config.byReference snapshots = .ok (.ok s) ∧
        response = .success true ∧ next = { h with session := some s }) ∨
      ∃ e, Session.ofSnapshots h.config.byReference snapshots = .ok (.error e) ∧
        response = .error e.message ∧ next = { h with session := none } := by
  unfold handle at ran
  cases closed : h.closeSession with
  | error fault =>
      rw [closed] at ran
      cases ran
  | ok _ =>
      rw [closed] at ran
      cases made : Session.ofSnapshots h.config.byReference snapshots with
      | error fault =>
          simp only [bind, Except.bind, made] at ran
          cases ran
      | ok outcome =>
          simp only [bind, Except.bind, made] at ran
          cases outcome with
          | error e =>
              cases ran
              exact .inr ⟨e, rfl, rfl, rfl⟩
          | ok s =>
              cases ran
              exact .inl ⟨s, rfl, rfl, rfl⟩

/-- Where the session can be closed, a load does what it does to a new handler. -/
theorem handle_load_of_closeSession (closed : h.closeSession = .ok ()) :
    h.handle (.load snapshots) = (new h.config).handle (.load snapshots) := by
  unfold handle
  rw [closed]
  rfl

theorem handle_load_new_of_ok
    (made : Session.ofSnapshots config.byReference snapshots = .ok (.ok s)) :
    (new config).handle (.load snapshots) =
      .ok (.success true, { config, session := some s }) := by
  simp only [handle, closeSession, new, bind, Except.bind, made]
  rfl

theorem handle_load_new_of_error
    (refused : Session.ofSnapshots config.byReference snapshots = .ok (.error e)) :
    (new config).handle (.load snapshots) = .ok (.error e.message, new config) := by
  simp only [handle, closeSession, new, bind, Except.bind, refused]
  rfl

theorem handle_shutdown_ok (ran : h.handle .shutdown = .ok (response, next)) :
    response = .success true ∧ next = { h with session := none } := by
  unfold handle at ran
  cases closed : h.closeSession with
  | error fault =>
      rw [closed] at ran
      cases ran
  | ok _ =>
      rw [closed] at ran
      cases ran
      exact ⟨rfl, rfl⟩

theorem handle_shutdown_of_closeSession (closed : h.closeSession = .ok ()) :
    h.handle .shutdown = .ok (.success true, { h with session := none }) := by
  unfold handle
  rw [closed]
  rfl

theorem handle_query_of_none (closed : h.session = none) (query : r.isQuery = true) :
    h.handle r = .ok (respond (.error .notInitialized), h) := by
  cases r with
  | load snapshots => cases query
  | shutdown => cases query
  | _ => simp only [handle, withSession, closed]

/-- A handler after requests: what it was made with, and, if it has a session, the last load and the
queries since. -/
structure Told (h : Handler) (config : Config) (requests : List Request) : Prop where
  made : h.config = config
  session : ∀ s, h.session = some s → ∃ before snapshots queries id,
    requests = before ++ .load snapshots :: queries ∧ (∀ r ∈ queries, r.isQuery = true) ∧
      s.Told config.byReference snapshots queries id

namespace Told

theorem of_none (same : h.config = config) (closed : h.session = none) (requests : List Request) :
    h.Told config requests where
  made := same
  session := fun _ opened => nomatch closed.symm.trans opened

theorem closeSession (told : h.Told config requests) : h.closeSession = .ok () := by
  unfold Handler.closeSession
  cases opened : h.session with
  | none => rfl
  | some s =>
      obtain ⟨before, snapshots, queries, id, -, -, known⟩ := told.session s opened
      obtain ⟨w, closed⟩ := known.exists_close
      simp only [closed]
      rfl

theorem handle_query (told : h.Told config requests) (query : r.isQuery = true)
    (ran : h.handle r = .ok (response, next)) : next.Told config (requests ++ [r]) := by
  cases opened : h.session with
  | none =>
      cases (handle_query_of_none opened query).symm.trans ran
      exact .of_none told.made opened _
  | some s =>
      obtain ⟨before, snapshots, queries, id, rfl, since, known⟩ := told.session s opened
      obtain ⟨response, later, handled, follows⟩ | ⟨failed, -⟩ := known.handle opened query
      · cases handled.symm.trans ran
        refine ⟨told.made, fun _ same => ?_⟩
        cases same
        refine ⟨before, snapshots, queries ++ [r], id, by simp, ?_, follows⟩
        exact List.forall_mem_append.2 ⟨since, List.forall_mem_singleton.2 query⟩
      · cases failed.symm.trans ran

/-- Whatever the request, the handler after it can be told. -/
theorem handle (told : h.Told config requests) (ran : h.handle r = .ok (response, next)) :
    next.Told config (requests ++ [r]) := by
  cases r with
  | load snapshots =>
      obtain ⟨s, made, -, rfl⟩ | ⟨e, -, -, rfl⟩ := handle_load_ok ran
      · refine ⟨told.made, fun _ same => ?_⟩
        cases same
        rw [told.made] at made
        obtain ⟨id, loaded⟩ := Session.loaded_of_ofSnapshots made
        exact ⟨requests, snapshots, [], id, rfl, nofun, loaded.told⟩
      · exact ⟨told.made, nofun⟩
  | shutdown =>
      obtain ⟨-, rfl⟩ := handle_shutdown_ok ran
      exact ⟨told.made, nofun⟩
  | _ => exact told.handle_query rfl ran

end Told

/-- Every handler that requests lead to can be told from them. -/
theorem told_of_run (ran : (new config).run requests = .ok (responses, h)) :
    h.Told config requests := by
  -- on the requests from the last one back: each is handled by a handler that can be told
  induction requests using List.reverseRecOn generalizing responses h with
  | nil =>
      cases ran
      exact .of_none rfl rfl _
  | append_singleton requests r ih =>
      obtain ⟨before, middle, later, first, second, rfl⟩ := run_append_ok.1 ran
      obtain ⟨response, handled, rfl⟩ := run_singleton_ok.1 second
      exact (ih first).handle handled

end Handler

end DebugArrays
