import DebugArrays.Proofs.Session.Loading

/-!
A session is a map from names to lists. All that handles, the ledger, remembered lengths and the
heap do for an answer can be told from the reference.
-/
namespace DebugArrays

def Reference.Small (contents : Reference) : Prop :=
  ∀ name a, contents name = some a → a.Small

namespace SessionModel

variable {m : SessionModel} {r : Request}

/-- Where 32 bits suffice, the model's answers are the reference's. -/
theorem reply_of_answer (small : m.contents.Small) {expected : Response} (ledger : HandleStats)
    (h : m.contents.answer r = some expected) : m.reply ledger r = expected := by
  cases r with
  | load snapshots => cases h
  | shutdown => cases h
  | stats => cases h
  | length name =>
      cases h
      refine congrArg Handler.respond (Reference.withArray_congr fun a found => ?_)
      rw [(small name a found).counted?]
  | element name index =>
      cases h
      refine congrArg Handler.respond (Reference.withArray_congr fun a found => ?_)
      rw [(small name a found).seen?]
  | store name index value =>
      cases h
      refine congrArg Handler.respond (Reference.withArray_congr fun a found => ?_)
      rw [(small name a found).seen?]

/-- Only the ledger is not the reference's to tell. -/
theorem eq_stats_of_answer (query : r.isQuery = true) (h : m.contents.answer r = none) :
    r = .stats := by
  cases r with
  | load snapshots => cases query
  | shutdown => cases query
  | stats => rfl
  | _ => cases h

theorem contents_after (small : m.contents.Small) (r : Request) :
    (m.after r).contents = m.contents.after r := by
  cases r with
  | store name index value =>
      unfold after Reference.after
      dsimp only
      cases found : m.contents name with
      | none => rfl
      | some a => rw [Option.map_some, Option.map_some, (small name a found).seen?]
  | _ => rfl

end SessionModel

theorem StoredArray.length_of_ofSnapshot? {s : ArraySnapshot} {a : StoredArray}
    (h : ofSnapshot? s = some a) : a.entries.length = s.elements.length := by
  obtain ⟨p, -, rfl⟩ := Option.map_eq_some_iff.1 h
  exact List.length_map _

theorem Reference.small_ofSnapshots {snapshots : List ArraySnapshot}
    (small : ∀ s ∈ snapshots, s.elements.length < 2 ^ 32) :
    (Reference.ofSnapshots snapshots).Small := by
  intro name a found
  obtain ⟨s, last, stored⟩ := Option.bind_eq_some_iff.1 found
  unfold StoredArray.Small
  rw [StoredArray.length_of_ofSnapshot? stored]
  exact small s (mem_of_lastNamed last)

theorem Reference.Small.after {contents : Reference} (small : contents.Small) (r : Request) :
    (contents.after r).Small := by
  cases r with
  | store name index value =>
      intro other b there
      by_cases here : other = name
      · subst here
        have changed : (contents.after (.store other index value)) other =
            (contents other).map fun a => a.write value (a.place? index) :=
          Function.update_self ..
        obtain ⟨a, found, rfl⟩ := Option.map_eq_some_iff.1 (changed.symm.trans there)
        unfold StoredArray.Small
        rw [a.length_write]
        exact small other a found
      · exact small other b ((Function.update_of_ne here _ _).symm.trans there)
  | _ => exact small

namespace Handler

open SessionModel

variable {h : Handler} {s : Session} {m : SessionModel}

/-- Request by request, what is answered is what the reference answers, the ledger apart. -/
theorem handleAll_follows {requests : List Request} (opened : h.session = some s)
    (follows : s.Follows m) (small : m.contents.Small)
    (queries : ∀ r ∈ requests, r.isQuery = true) {i : Nat} {response : Response}
    (answered : (h.handleAll requests)[i]? = some response) :
    (∃ ledger, requests[i]? = some .stats ∧ response = .stats ledger) ∨
      (m.contents.answers requests)[i]? = some (some response) := by
  -- the reference moves as the model does, and stays small, so that later requests meet the same
  -- premises; a fault ends the answers
  induction requests generalizing h s m i with
  | nil => cases answered
  | cons r rest ih =>
      rw [List.forall_mem_cons] at queries
      obtain ⟨next, ran, followed, -⟩ | ⟨ran, -⟩ := handle_query opened follows queries.1
      · simp only [handleAll, ran] at answered
        cases i with
        | zero =>
            cases answered
            cases expected : m.contents.answer r with
            | none =>
                obtain rfl := eq_stats_of_answer queries.1 expected
                exact .inl ⟨_, rfl, rfl⟩
            | some response =>
                rw [m.reply_of_answer small _ expected]
                exact .inr (congrArg some expected)
        | succ i =>
            have later := ih (h := { h with session := some next }) rfl followed
              (m.contents_after small r ▸ small.after r) queries.2 answered
            rw [m.contents_after small r] at later
            exact later
      · simp only [handleAll, ran] at answered
        cases answered

/-- A session refines a map from names to lists. Whatever requests follow an accepted load, each
answer, those about the ledger apart, is the one that the last snapshots of the names and the stores
so far give; and every request is answered as long as there are not too many for the ledger. -/
theorem handleAll_refines_reference {h₀ : Handler} {snapshots : List ArraySnapshot}
    {requests : List Request}
    (loaded : h₀.handle (.load snapshots) = .ok (.success true, h))
    (small : ∀ s ∈ snapshots, s.elements.length < 2 ^ 32)
    (queries : ∀ r ∈ requests, r.isQuery = true) :
    (∀ (i : Nat) (response : Response), (h.handleAll requests)[i]? = some response →
      (∃ ledger, requests[i]? = some .stats ∧ response = .stats ledger) ∨
        ((Reference.ofSnapshots snapshots).answers requests)[i]? = some (some response)) ∧
      (snapshots.length + 4 * requests.length < 2 ^ 64 →
        (h.handleAll requests).length = requests.length) := by
  obtain ⟨s, id, opened, known⟩ := loaded_of_handle_load loaded
  constructor
  · intro i response answered
    exact handleAll_follows opened known.follows (Reference.small_ofSnapshots small) queries answered
  · intro few
    have fits : (s.world.stats.tally + (SessionModel.loaded h₀.config.byReference snapshots
        id).outlines.total ∅ requests).Fits := by
      rw [known.tally]
      exact Outlines.fits_total (displaced_le snapshots) few
    obtain ⟨answers, later, last, -, counted, continued, -⟩ :=
      handleAll_append opened known.follows queries fits
    have all := continued []
    rw [List.append_nil] at all
    rw [all, handleAll, List.append_nil, counted]

theorem handleAll_refines_reference_sample :
    ∃ h, (new {}).handle (.load sampleSnapshots) = .ok (.success true, h) ∧
      (h.handleAll sampleRequests).length = 8 ∧
      (h.handleAll sampleRequests)[3]? = some (.element "true" "bool") := by
  obtain ⟨h, loaded⟩ : ∃ h, (new {}).handle (.load sampleSnapshots) = .ok (.success true, h) :=
    exists_handle_ok (by decide +kernel)
  obtain ⟨agree, complete⟩ := handleAll_refines_reference loaded (by decide)
    (by decide : ∀ r ∈ sampleRequests, r.isQuery = true)
  have all := complete (by decide)
  have inside : 3 < (h.handleAll sampleRequests).length := by
    rw [all]
    decide
  have answered := List.getElem?_eq_getElem inside
  have told : ((Reference.ofSnapshots sampleSnapshots).answers sampleRequests)[3]? =
      some (some (.element "true" "bool")) := rfl
  refine ⟨h, loaded, all, ?_⟩
  obtain ⟨ledger, asked, -⟩ | expected := agree 3 _ answered
  · cases asked
  · rw [told, Option.some.injEq, Option.some.injEq] at expected
    rw [answered, expected]

end Handler

end DebugArrays
