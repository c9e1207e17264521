import DebugArrays.Proofs.Session.Loading

/-!
Opening a session, with both outcomes. Either every snapshot is taken, or the first that is not ends
the loading, and then every handle that was issued on the way has been given back.
-/
namespace DebugArrays

namespace NameTable

variable {α : Type}

theorem mem_names_iff {table : NameTable α} {name : String} :
    name ∈ table.names ↔ (table.find? name).isSome = true := by
  rw [Option.isSome_iff_ne_none, ne_eq, find?, List.lookup_eq_none_iff]
  simp [names]

/-- A table has one entry for each name it knows. -/
theorem length_entries {table : NameTable α} {names : Finset String}
    (known : ∀ name, (table.find? name).isSome = true ↔ name ∈ names) :
    table.entries.length = names.card := by
  have same : table.names.toFinset = names := by
    ext name
    rw [List.mem_toFinset, mem_names_iff, known]
  have distinct : table.names.Nodup := table.distinct
  rw [← same, List.toFinset_card_of_nodup distinct, NameTable.names, List.length_map]

end NameTable

namespace Eval

variable {w : World}

theorem settles_releaseAll (handles : List Handle) (free : w.releaseForbidden = false) :
    (releaseAll handles).Settles w { released := handles.length } () w := by
  induction handles generalizing w with
  | nil => exact Settles.pure () w
  | cons h rest ih =>
      have bill : ({ released := (h :: rest).length } : Tally) =
          .ofEvent .release + { released := rest.length } := by
        ext <;> simp [Tally.ofEvent, Nat.add_comm]
      rw [bill]
      exact (h.settles_release free).bind fun stats => ih free

theorem settles_clearRecorded (free : w.releaseForbidden = false) (nothing : w.recorded = []) :
    clearRecorded.Settles w 0 () w := by
  apply settles_get_bind
  rw [← add_zero (0 : Tally), nothing]
  have kept : (set { w with recorded := [] } : Eval PUnit).Settles w 0 ⟨⟩ w := by
    refine ⟨rfl, ?_, (add_zero _).symm⟩
    rw [← nothing]
  exact kept.bind fun stats => settles_releaseAll [] free

end Eval

/-- Closing a table gives back one handle for each name, and nothing else. -/
theorem ArrayTable.settles_close {w : World} (arrays : ArrayTable)
    (free : w.releaseForbidden = false) (nothing : w.recorded = []) :
    arrays.close.Settles w { released := arrays.entries.length } () w := by
  have released := Eval.settles_releaseAll (arrays.values.map ArrayView.handle) free
  rw [NameTable.values, List.map_map, List.length_map] at released
  rw [← add_zero ({ released := arrays.entries.length } : Tally)]
  unfold close NameTable.values
  rw [List.map_map]
  exact released.bind fun stats => Eval.settles_clearRecorded free nothing

namespace ArraySnapshot

/-- Why the heap refuses a snapshot, if it does. -/
def rejection? (s : ArraySnapshot) : Option SnapshotError :=
  match (Eval.load s).runIn {} with
  | (.ok (.error e), _) => some e
  | _ => none

variable {s : ArraySnapshot} {object : HeapObject} {e : SnapshotError}

theorem rejection?_of_object (made : s.toObject = .ok object) : s.rejection? = none := by
  unfold rejection?
  rw [runIn_load_of_object made]

theorem rejection?_of_error (refused : s.toObject = .error e) : s.rejection? = some e := by
  unfold rejection?
  rw [load_of_error refused, Eval.runIn_pure]

theorem exists_toObject_of_rejection? (taken : s.rejection? = none) :
    ∃ object, s.toObject = .ok object := by
  cases made : s.toObject with
  | error e => cases (rejection?_of_error made).symm.trans taken
  | ok object => exact ⟨object, rfl⟩

theorem toObject_of_rejection? (refused : s.rejection? = some e) : s.toObject = .error e := by
  cases made : s.toObject with
  | error e' =>
      cases (rejection?_of_error made).symm.trans refused
      rfl
  | ok object => cases (rejection?_of_object made).symm.trans refused

end ArraySnapshot

theorem ArrayTable.addAll_append (byReference : Bool) (arrays : ArrayTable)
    (first second : List ArraySnapshot) :
    arrays.addAll byReference (first ++ second) = (do
      match ← arrays.addAll byReference first with
      | .ok arrays => arrays.addAll byReference second
      | .error e => return .error e) := by
  induction first generalizing arrays with
  | nil => rfl
  | cons s rest ih =>
      simp only [List.cons_append, addAll, bind_assoc]
      refine congrArg (add byReference arrays s >>= ·) (funext fun answer => ?_)
      cases answer with
      | error e => simp only [bind_assoc, pure_bind]
      | ok arrays => exact ih arrays

namespace Session.Loaded

variable {byReference : Bool} {done rest : List ArraySnapshot} {id : String → ObjectId} {w : World}
  {arrays : ArrayTable} {s : ArraySnapshot} {e : SnapshotError}

theorem length_entries (now : Session.Loaded ⟨w, arrays⟩ byReference done id) :
    arrays.entries.length = (done.map ArraySnapshot.name).toFinset.card :=
  NameTable.length_entries fun name => by
    rw [now.isSome_find?, isSome_lastNamed, List.mem_toFinset]

theorem exists_add (now : Session.Loaded ⟨w, arrays⟩ byReference done id)
    (taken : s.rejection? = none) (few : done.length + 1 < 2 ^ 64) :
    ∃ table v, (arrays.add byReference s).runIn w = (.ok (.ok table), v) := by
  obtain ⟨object, made⟩ := ArraySnapshot.exists_toObject_of_rejection? taken
  have paid : w.stats.tally = { issued := done.length, released := displaced done } := now.tally
  rw [ArrayTable.add_of_object made, Eval.runIn_map]
  have settles : (arrays.enroll byReference s object).Settles w _ _ _ :=
    ArrayTable.settles_enroll made now.follows.carried.free
  obtain ⟨stats, run, -⟩ | ⟨v, -, full⟩ := settles.ran
  · rw [run]
    exact ⟨_, _, rfl⟩
  · refine absurd ?_ full
    have less := displaced_le done
    rw [paid]
    split <;> simp [Tally.Fits, Tally.ofEvent] <;> omega

theorem exists_addAll (now : Session.Loaded ⟨w, arrays⟩ byReference done id)
    (taken : ∀ s ∈ rest, s.rejection? = none) (few : done.length + rest.length < 2 ^ 64) :
    ∃ table v, (arrays.addAll byReference rest).runIn w = (.ok (.ok table), v) := by
  induction rest generalizing done id arrays w with
  | nil => exact ⟨arrays, w, rfl⟩
  | cons s rest ih =>
      rw [List.forall_mem_cons] at taken
      rw [List.length_cons] at few
      obtain ⟨table, v, added⟩ := now.exists_add taken.1 (by omega)
      obtain ⟨last, u, run⟩ := ih (now.add added) taken.2 (by simp; omega)
      refine ⟨last, u, ?_⟩
      rw [ArrayTable.addAll, Eval.runIn_bind, added]
      exact run

/-- What is refused ends the loading: all that was issued before has been given back. -/
theorem addAll_refused (now : Session.Loaded ⟨w, arrays⟩ byReference done id)
    (refused : s.rejection? = some e) (few : done.length < 2 ^ 64) :
    ∃ v, (arrays.addAll byReference (s :: rest)).runIn w = (.ok (.error e), v) ∧
      v.stats.tally = { issued := done.length, released := done.length } ∧ v.recorded = [] := by
  have bound := card_names_le done
  have paid : w.stats.tally + { released := arrays.entries.length } =
      { issued := done.length, released := done.length } := by
    have before : w.stats.tally = { issued := done.length, released := displaced done } := now.tally
    rw [before, now.length_entries]
    ext <;> simp [displaced]
    omega
  rw [ArrayTable.addAll, ArrayTable.add_of_error (ArraySnapshot.toObject_of_rejection? refused),
    pure_bind, Eval.runIn_bind]
  obtain ⟨stats, run, closed⟩ | ⟨v, -, full⟩ :=
    (arrays.settles_close now.follows.carried.free now.follows.carried.recorded).ran
  · rw [run]
    exact ⟨_, rfl, closed.trans paid, now.follows.carried.recorded⟩
  · refine absurd ?_ full
    rw [paid]
    simpa [Tally.Fits] using few

end Session.Loaded

namespace Session

variable {byReference : Bool} {snapshots taken rest : List ArraySnapshot} {s : ArraySnapshot}
  {e : SnapshotError}

theorem ofSnapshots_taken (taken : ∀ s ∈ snapshots, s.rejection? = none)
    (few : snapshots.length < 2 ^ 64) :
    ∃ s id, ofSnapshots byReference snapshots = .ok (.ok s) ∧
      s.Loaded byReference snapshots id := by
  obtain ⟨table, v, run⟩ := (loaded_empty byReference).exists_addAll taken (by simpa using few)
  have made : ofSnapshots byReference snapshots = .ok (.ok ⟨v, table⟩) := by
    unfold ofSnapshots
    rw [run]
  obtain ⟨id, loaded⟩ := loaded_of_ofSnapshots made
  exact ⟨_, id, made, loaded⟩

theorem addAll_refused (byReference : Bool) (rest : List ArraySnapshot)
    (good : ∀ t ∈ taken, t.rejection? = none) (refused : s.rejection? = some e)
    (few : taken.length < 2 ^ 64) :
    ∃ v, (ArrayTable.addAll byReference .empty (taken ++ s :: rest)).runIn {} =
        (.ok (.error e), v) ∧
      v.stats.tally = { issued := taken.length, released := taken.length } ∧ v.recorded = [] := by
  obtain ⟨table, w, run⟩ := (loaded_empty byReference).exists_addAll good (by simpa using few)
  obtain ⟨id, loaded⟩ := (loaded_empty byReference).addAll run
  rw [ArrayTable.addAll_append, Eval.runIn_bind, run]
  exact loaded.addAll_refused refused few

theorem ofSnapshots_refused (found : snapshots.findSome? ArraySnapshot.rejection? = some e)
    (few : snapshots.length < 2 ^ 64) : ofSnapshots byReference snapshots = .ok (.error e) := by
  obtain ⟨taken, s, rest, rfl, refused, good⟩ := List.findSome?_eq_some_iff.1 found
  obtain ⟨v, run, -⟩ := addAll_refused byReference rest good refused (by simp at few; omega)
  unfold ofSnapshots
  rw [run]

end Session

end DebugArrays
