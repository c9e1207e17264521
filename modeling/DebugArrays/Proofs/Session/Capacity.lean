import DebugArrays.Proofs.Protocol.Weight
import DebugArrays.Proofs.Session.History

/-!
How much a handler can take. The ledger alone can stop it, and no request needs much of the ledger.
-/
namespace DebugArrays

namespace Handler

variable {h : Handler} {config : Config} {requests : List Request} {r : Request}
  {snapshots : List ArraySnapshot}

theorem exists_handle_load_new (config : Config) (few : snapshots.length < 2 ^ 64) :
    ∃ response next, (new config).handle (.load snapshots) = .ok (response, next) := by
  cases found : snapshots.findSome? ArraySnapshot.rejection? with
  | none =>
      obtain ⟨s, id, made, -⟩ :=
        Session.ofSnapshots_taken (List.findSome?_eq_none_iff.1 found) few
      exact ⟨_, _, handle_load_new_of_ok made⟩
  | some e => exact ⟨_, _, handle_load_new_of_error (Session.ofSnapshots_refused found few)⟩

namespace Told

theorem exists_handle_query (told : h.Told config requests) (query : r.isQuery = true)
    (few : 4 * ((requests.map Request.weight).sum + 1) < 2 ^ 64) :
    ∃ response next, h.handle r = .ok (response, next) := by
  cases opened : h.session with
  | none => exact ⟨_, _, handle_query_of_none opened query⟩
  | some s =>
      obtain ⟨before, snapshots, queries, id, rfl, -, known⟩ := told.session s opened
      obtain ⟨response, later, handled, -⟩ | ⟨-, full⟩ := known.handle opened query
      · exact ⟨_, _, handled⟩
      · refine absurd (fits_sessionTally ?_) full
        have light := Request.length_le_weight queries
        simp only [List.map_append, List.map_cons, List.sum_append, List.sum_cons, Request.weight]
          at few
        rw [List.length_append, List.length_singleton]
        omega

/-- One more request is answered as long as all of them together leave the ledger room. -/
theorem exists_handle (told : h.Told config requests)
    (few : 4 * ((requests ++ [r]).map Request.weight).sum < 2 ^ 64) :
    ∃ response next, h.handle r = .ok (response, next) := by
  rw [List.map_append, List.sum_append, List.map_singleton, List.sum_singleton] at few
  cases r with
  | load snapshots =>
      rw [handle_load_of_closeSession told.closeSession]
      simp only [Request.weight] at few
      exact exists_handle_load_new _ (by omega)
  | shutdown => exact ⟨_, _, handle_shutdown_of_closeSession told.closeSession⟩
  | _ => exact told.exists_handle_query rfl few

end Told

theorem exists_run (few : 4 * (requests.map Request.weight).sum < 2 ^ 64) :
    ∃ responses last, (new config).run requests = .ok (responses, last) := by
  -- each request is handled by a handler that can be told from the requests before it
  induction requests using List.reverseRecOn with
  | nil => exact ⟨[], new config, rfl⟩
  | append_singleton requests r ih =>
      have fewer : 4 * (requests.map Request.weight).sum < 2 ^ 64 := by
        rw [List.map_append, List.sum_append] at few
        omega
      obtain ⟨before, middle, first⟩ := ih fewer
      obtain ⟨response, next, handled⟩ := (told_of_run first).exists_handle few
      exact ⟨_, next, run_append_ok.2
        ⟨before, middle, [response], first, run_singleton_ok.2 ⟨response, handled, rfl⟩, rfl⟩⟩

end Handler

end DebugArrays
