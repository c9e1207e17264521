import DebugArrays.Proofs.Session.Loading

/-!
The ledger of a session, told from the snapshots and the requests.
-/
namespace DebugArrays

namespace SessionModel

theorem outlines_loaded (byReference : Bool) (snapshots : List ArraySnapshot)
    (id : String → ObjectId) :
    (loaded byReference snapshots id).outlines = Outlines.ofSnapshots byReference snapshots := by
  funext name
  have kept : (loaded byReference snapshots id).outlines name =
      ((lastNamed snapshots name).bind StoredArray.ofSnapshot?).map fun a =>
        ⟨(lastNamed snapshots name).any fun s => s.byReference.getD byReference, a.element, a.rank,
          a.entries.length⟩ := rfl
  rw [kept, Outlines.ofSnapshots]
  cases lastNamed snapshots name with
  | none => rfl
  | some s =>
      rw [Option.bind_some, Option.bind_some, StoredArray.ofSnapshot?, Outline.ofSnapshot?,
        Option.map_map]
      congr 1
      funext p
      rw [Function.comp_apply, List.length_map]
      rfl

end SessionModel

/-- The ledger that requests after a load lead to, in numbers without a bound. -/
def sessionTally (byReference : Bool) (snapshots : List ArraySnapshot) (requests : List Request) :
    Tally :=
  { issued := snapshots.length, released := displaced snapshots } +
    (Outlines.ofSnapshots byReference snapshots).total ∅ requests

namespace Handler

variable {h₀ h : Handler} {snapshots : List ArraySnapshot} {requests : List Request}

theorem handleAll_concat_stats (loaded : h₀.handle (.load snapshots) = .ok (.success true, h))
    (queries : ∀ r ∈ requests, r.isQuery = true)
    (fits : (sessionTally h₀.config.byReference snapshots requests).Fits) :
    ∃ answers ledger, h.handleAll (requests ++ [.stats]) = answers ++ [.stats ledger] ∧
      answers.length = requests.length ∧
      ledger.tally = sessionTally h₀.config.byReference snapshots requests := by
  obtain ⟨s, id, opened, known⟩ := loaded_of_handle_load loaded
  have start : s.world.stats.tally +
      (SessionModel.loaded h₀.config.byReference snapshots id).outlines.total ∅ requests =
      sessionTally h₀.config.byReference snapshots requests := by
    rw [known.tally, SessionModel.outlines_loaded]
    rfl
  rw [← start] at fits ⊢
  obtain ⟨answers, later, last, reopened, counted, continued, told⟩ :=
    handleAll_append opened known.follows queries fits
  refine ⟨answers, last.world.stats, ?_, counted, told⟩
  rw [continued, handleAll_stats reopened]

/-- The ledger is exact. After a load and any requests, as long as the counters hold them, the
answer to `stats` can be told by counting snapshots, names and requests, and the handles that are
out are one for each name. -/
theorem stats_ledger_exact (loaded : h₀.handle (.load snapshots) = .ok (.success true, h))
    (queries : ∀ r ∈ requests, r.isQuery = true)
    (fits : (sessionTally h₀.config.byReference snapshots requests).Fits) :
    let o := Outlines.ofSnapshots h₀.config.byReference snapshots
    let names := (snapshots.map ArraySnapshot.name).toFinset
    let measuredByReference := (o.measured requests).filter fun name => o.isByReference name
    ∃ answers ledger, h.handleAll (requests ++ [.stats]) = answers ++ [.stats ledger] ∧
      answers.length = requests.length ∧
      ledger.dereferences.toNat =
        o.readsByReference requests + o.writesByReference requests + measuredByReference.card ∧
      ledger.elementReads.toNat = o.reads requests ∧
      ledger.lengthQueries.toNat = (o.measured requests).card ∧
      ledger.issued.toNat =
        snapshots.length + o.readsByReference requests + o.writesByReference requests +
          measuredByReference.card + o.hits requests ∧
      ledger.released.toNat + names.card = ledger.issued.toNat ∧
      ledger.live.toNat = names.card := by
  intro o names measuredByReference
  obtain ⟨answers, ledger, answered, counted, told⟩ := handleAll_concat_stats loaded queries fits
  have bound : names.card ≤ snapshots.length := card_names_le snapshots
  have scopes : o.scopes ∅ requests =
      o.readsByReference requests + o.writesByReference requests + measuredByReference.card := by
    rw [Outlines.scopes, Finset.sdiff_empty]
  have issued : ledger.issued.toNat =
      snapshots.length + (o.scopes ∅ requests + o.hits requests) := congrArg Tally.issued told
  have released : ledger.released.toNat =
      displaced snapshots + (o.scopes ∅ requests + o.hits requests) :=
    congrArg Tally.released told
  have dereferences : ledger.dereferences.toNat = 0 + o.scopes ∅ requests :=
    congrArg Tally.dereferences told
  have elementReads : ledger.elementReads.toNat = 0 + o.reads requests :=
    congrArg Tally.elementReads told
  have lengthQueries : ledger.lengthQueries.toNat = 0 + (o.measured requests \ ∅).card :=
    congrArg Tally.lengthQueries told
  have gone : displaced snapshots + names.card = snapshots.length := Nat.sub_add_cancel bound
  have order : ledger.released ≤ ledger.issued := by
    rw [UInt64.le_iff_toNat_le]
    omega
  rw [Finset.sdiff_empty] at lengthQueries
  refine ⟨answers, ledger, answered, counted, by omega, by omega, by omega, by omega, by omega, ?_⟩
  rw [HandleStats.live, if_pos order, UInt64.toNat_sub_of_le _ _ order]
  omega

theorem stats_ledger_exact_sample :
    ∃ h answers ledger, (new {}).handle (.load sampleSnapshots) = .ok (.success true, h) ∧
      h.handleAll (sampleRequests ++ [.stats]) = answers ++ [.stats ledger] ∧
      ledger.issued = 10 ∧ ledger.live = 2 := by
  obtain ⟨h, loaded⟩ : ∃ h, (new {}).handle (.load sampleSnapshots) = .ok (.success true, h) :=
    exists_handle_ok (by decide +kernel)
  obtain ⟨answers, ledger, answered, -, -, -, -, issued, -, live⟩ :=
    stats_ledger_exact loaded (by decide : ∀ r ∈ sampleRequests, r.isQuery = true)
      (by decide +kernel)
  refine ⟨h, answers, ledger, loaded, answered, UInt64.toNat_inj.1 (issued.trans ?_),
    UInt64.toNat_inj.1 (live.trans ?_)⟩
  · decide +kernel
  · decide +kernel

end Handler

end DebugArrays
