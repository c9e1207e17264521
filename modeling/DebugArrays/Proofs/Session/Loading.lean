import DebugArrays.Proofs.Heap.Snapshot
import DebugArrays.Proofs.Session.Simulation

/-!
Loading snapshots. A session that opens follows the model in which each name stands for its last
snapshot, and it has given back every handle that a later snapshot displaced.
-/
namespace DebugArrays

namespace StoredArray

theorem slot_of_reads {p : Primitive} {element : Document} {s : Slot} (h : s.Reads p element) :
    slot (Value.ofJson? element.tree p) = s := by
  cases h with
  | null isNull =>
      rw [isNull]
      rfl
  | value decoded =>
      rw [decoded]
      rfl

theorem slots_of_reads {p : Primitive} {elements : List Document} {slots : List Slot}
    (h : List.Forall₂ (Slot.Reads p) elements slots) :
    (elements.map fun e => Value.ofJson? e.tree p).map slot = slots := by
  induction h with
  | nil => rfl
  | cons first _ ih => rw [List.map_cons, List.map_cons, slot_of_reads first, ih]

theorem ofSnapshot?_of_toObject {s : ArraySnapshot} {object : HeapObject}
    (h : s.toObject = .ok object) :
    ∃ a, ofSnapshot? s = some a ∧ object = a.object ∧ a.Typed := by
  obtain ⟨p, slots, wellFormed, reads, rfl⟩ := ArraySnapshot.toObject_eq_ok_iff.1 h
  refine ⟨_, by rw [ofSnapshot?, wellFormed.known, Option.map_some], ?_, ?_⟩
  · rw [StoredArray.object, slots_of_reads reads]
    rfl
  · intro v member
    obtain ⟨e, -, decoded⟩ := List.mem_map.1 member
    exact Value.primitive?_of_ofJson? decoded

end StoredArray

theorem lastNamed_concat (done : List ArraySnapshot) (s : ArraySnapshot) (name : String) :
    lastNamed (done ++ [s]) name = if s.name = name then some s else lastNamed done name := by
  unfold lastNamed
  rw [List.reverse_append, List.reverse_singleton, List.singleton_append, List.find?_cons]
  by_cases same : s.name = name
  · rw [if_pos same, beq_iff_eq.2 same]
  · rw [if_neg same, beq_eq_false_iff_ne.2 same]

theorem isSome_lastNamed {snapshots : List ArraySnapshot} {name : String} :
    (lastNamed snapshots name).isSome = true ↔ name ∈ snapshots.map ArraySnapshot.name := by
  unfold lastNamed
  rw [List.find?_isSome]
  simp

theorem Heap.typeOf_concat (heap : Heap) (object : HeapObject) :
    Heap.typeOf (heap ++ [object]) heap.length = object.type := by
  simp [Heap.typeOf, Heap.object?]

theorem mem_of_lastNamed {snapshots : List ArraySnapshot} {name : String} {s : ArraySnapshot}
    (h : lastNamed snapshots name = some s) : s ∈ snapshots :=
  List.mem_reverse.1 (List.mem_of_find?_eq_some h)

namespace ArrayTable

/-- Takes the handle that a session holds a new object by. -/
def hold (byReference : Bool) (id : ObjectId) : Eval Handle :=
  if byReference then Handle.reference id else Handle.object id

/-- Gives back the handle of an earlier view. -/
def displace : Option ArrayView → Eval Unit
  | some view => view.handle.release
  | none => pure ()

/-- Adds the object that a snapshot describes. -/
def enroll (byReference : Bool) (arrays : ArrayTable) (s : ArraySnapshot) (object : HeapObject) :
    Eval ArrayTable := do
  let id ← Eval.alloc object.type object.slots
  let h ← hold (s.byReference.getD byReference) id
  let view ← ArrayView.ofHandle h
  displace (arrays.find? s.name)
  return arrays.insert s.name view

/-- The table once an object is at a place of the heap. -/
def bound (byReference : Bool) (arrays : ArrayTable) (s : ArraySnapshot) (object : HeapObject)
    (id : ObjectId) : ArrayTable :=
  arrays.insert s.name
    ⟨⟨if s.byReference.getD byReference then .reference id else .object id, object.type⟩,
      object.type.withoutByRef.isSzArray, .uninitialized⟩

variable {byReference : Bool} {arrays table : ArrayTable} {s : ArraySnapshot}
  {object : HeapObject} {e : SnapshotError} {w v : World}

theorem add_of_object (made : s.toObject = .ok object) :
    add byReference arrays s = Except.ok <$> enroll byReference arrays s object := by
  unfold add Eval.load enroll hold displace
  rw [made]
  simp only [bind_assoc, pure_bind, map_bind, map_pure]
  refine congrArg (Eval.alloc object.type object.slots >>= ·) (funext fun id => ?_)
  cases s.byReference.getD byReference <;> cases arrays.find? s.name <;> rfl

theorem add_of_error (refused : s.toObject = .error e) :
    add byReference arrays s = pure (.error e) := by
  unfold add Eval.load
  rw [refused]
  rfl

theorem settles_hold (byReference : Bool) (id : ObjectId) (w : World) :
    (hold byReference id).Settles w (.ofEvent .issue)
      ⟨if byReference then .reference id else .object id, w.heap.typeOf id⟩ w := by
  cases byReference with
  | false => exact Handle.settles_object id w
  | true => exact Handle.settles_reference id w

theorem settles_displace (previous : Option ArrayView) (free : w.releaseForbidden = false) :
    (displace previous).Settles w (if previous.isSome then .ofEvent .release else 0) () w := by
  cases previous with
  | none => exact Eval.Settles.pure () w
  | some view => exact view.handle.settles_release free

/-- A snapshot that is added leaves an object at the end of the heap, a view on it under the name,
and no earlier view. -/
theorem settles_enroll (made : s.toObject = .ok object) (free : w.releaseForbidden = false) :
    (enroll byReference arrays s object).Settles w
      (.ofEvent .issue + if (arrays.find? s.name).isSome then .ofEvent .release else 0)
      (bound byReference arrays s object w.heap.length)
      { w with heap := w.heap ++ [object] } := by
  have array := ArraySnapshot.isArray_of_toObject made
  unfold enroll
  rw [← zero_add (Tally.ofEvent .issue + _)]
  refine (Eval.settles_alloc array object.slots w).bind fun stats => ?_
  refine (settles_hold _ _ _).bind fun stats => ?_
  dsimp only
  rw [Heap.typeOf_concat,
    ← zero_add (if (arrays.find? s.name).isSome then Tally.ofEvent .release else 0)]
  refine (ArrayView.settles_ofHandle ?_ ?_ _).bind fun stats => ?_
  · cases s.byReference.getD byReference <;> rfl
  · rw [ArraySnapshot.withoutByRef_of_toObject made]
    exact array
  · refine Eval.Settles.bind_pure (settles_displace _ ?_) rfl
    exact free

theorem add_ok (free : w.releaseForbidden = false)
    (run : (add byReference arrays s).runIn w = (.ok (.ok table), v)) :
    ∃ object, s.toObject = .ok object ∧
      v = { w with heap := w.heap ++ [object], stats := v.stats } ∧
      v.stats.tally = w.stats.tally +
        (.ofEvent .issue +
          if (arrays.find? s.name).isSome then .ofEvent .release else 0) ∧
      table = bound byReference arrays s object w.heap.length := by
  cases made : s.toObject with
  | error e =>
      rw [add_of_error made] at run
      cases run
  | ok object =>
      rw [add_of_object made] at run
      obtain ⟨enrolled, ran, same⟩ := Eval.runIn_map_ok run
      cases same
      obtain ⟨same, kept, paid⟩ := (settles_enroll made free).of_ok ran
      exact ⟨object, rfl, kept, paid, same⟩

end ArrayTable

namespace SessionModel

/-- The model of a session that has just loaded snapshots. -/
def loaded (byReference : Bool) (snapshots : List ArraySnapshot) (id : String → ObjectId) :
    SessionModel where
  contents := Reference.ofSnapshots snapshots
  byReference := fun name => (lastNamed snapshots name).any fun s => s.byReference.getD byReference
  id
  asked := ∅

variable {byReference : Bool} {done : List ArraySnapshot} {id : String → ObjectId}
  {s : ArraySnapshot} {a : StoredArray} {w : World} {arrays : ArrayTable} {place : ObjectId}

theorem contents_loaded_concat (name : String) :
    (loaded byReference (done ++ [s]) (Function.update id s.name place)).contents name =
      if s.name = name then StoredArray.ofSnapshot? s
      else (loaded byReference done id).contents name := by
  have found : (loaded byReference (done ++ [s]) (Function.update id s.name place)).contents name =
      (lastNamed (done ++ [s]) name).bind StoredArray.ofSnapshot? := rfl
  rw [found, lastNamed_concat]
  split
  · exact Option.bind_some ..
  · rfl

theorem view_loaded_concat_self :
    (loaded byReference (done ++ [s]) (Function.update id s.name place)).view s.name a =
      ⟨⟨if s.byReference.getD byReference then .reference place else .object place, a.type⟩,
        a.type.withoutByRef.isSzArray, .uninitialized⟩ := by
  simp [view, handle, loaded, lastNamed_concat]

theorem view_loaded_concat_of_ne {name : String} (other : s.name ≠ name) :
    (loaded byReference (done ++ [s]) (Function.update id s.name place)).view name =
      (loaded byReference done id).view name := by
  refine view_congr ?_ (Function.update_of_ne (Ne.symm other) _ _) Iff.rfl
  simp only [loaded, lastNamed_concat, if_neg other]

theorem Shown.load (shown : (loaded byReference done id).Shown arrays)
    (accepted : StoredArray.ofSnapshot? s = some a) :
    (loaded byReference (done ++ [s]) (Function.update id s.name place)).Shown
      (arrays.insert s.name
        ⟨⟨if s.byReference.getD byReference then .reference place else .object place, a.type⟩,
          a.type.withoutByRef.isSzArray, .uninitialized⟩) := by
  intro name
  rw [contents_loaded_concat]
  by_cases same : s.name = name
  · subst same
    rw [if_pos rfl, accepted, Option.map_some, view_loaded_concat_self,
      NameTable.find?_insert_self]
  · rw [if_neg same, view_loaded_concat_of_ne same, NameTable.find?_insert_of_ne (Ne.symm same)]
    exact shown name

theorem Carried.load (carried : (loaded byReference done id).Carried w)
    (accepted : StoredArray.ofSnapshot? s = some a) (typed : a.Typed) {p : Primitive}
    (sound : a.object.Sound p) :
    (loaded byReference (done ++ [s]) (Function.update id s.name w.heap.length)).Carried
      { w with heap := w.heap ++ [a.object] } := by
  have older : ∀ name b, (loaded byReference done id).contents name = some b →
      id name < w.heap.length := fun name b found =>
    (List.getElem?_eq_some_iff.1 (carried.object name b found)).1
  have idNew : Function.update id s.name w.heap.length s.name = w.heap.length :=
    Function.update_self ..
  have idOld : ∀ name, s.name ≠ name → Function.update id s.name w.heap.length name = id name :=
    fun name other => Function.update_of_ne (Ne.symm other) _ _
  refine ⟨?_, ?_, ?_, carried.sound.concat sound, carried.recorded, carried.followed,
    carried.free⟩
  · intro name b found
    rw [contents_loaded_concat] at found
    by_cases same : s.name = name
    · subst same
      rw [if_pos rfl, accepted] at found
      cases found
      simp [loaded, Heap.object?]
    · rw [if_neg same] at found
      refine (congrArg _ (idOld name same)).trans ?_
      exact (List.getElem?_append_left (older name b found)).trans (carried.object name b found)
  · intro name other b c here there shared
    -- the new object lies past every older one, so only names that are equal can share it
    rw [contents_loaded_concat] at here there
    dsimp only [loaded] at shared
    by_cases first : s.name = name
    · by_cases second : s.name = other
      · exact first.symm.trans second
      · rw [if_neg second] at there
        rw [← first, idNew, idOld other second] at shared
        exact absurd (older other c there) (shared ▸ Nat.lt_irrefl _)
    · rw [if_neg first] at here
      by_cases second : s.name = other
      · rw [← second, idNew, idOld name first] at shared
        exact absurd (older name b here) (shared ▸ Nat.lt_irrefl _)
      · rw [if_neg second] at there
        rw [idOld name first, idOld other second] at shared
        exact carried.apart name other b c here there shared
  · intro name b found
    rw [contents_loaded_concat] at found
    by_cases same : s.name = name
    · rw [if_pos same, accepted] at found
      cases found
      exact typed
    · rw [if_neg same] at found
      exact carried.typed name b found

end SessionModel

/-- How many snapshots are displaced by a later one of the same name. -/
def displaced (snapshots : List ArraySnapshot) : Nat :=
  snapshots.length - (snapshots.map ArraySnapshot.name).toFinset.card

theorem displaced_le (snapshots : List ArraySnapshot) : displaced snapshots ≤ snapshots.length :=
  Nat.sub_le ..

theorem card_names_le (snapshots : List ArraySnapshot) :
    (snapshots.map ArraySnapshot.name).toFinset.card ≤ snapshots.length :=
  (List.toFinset_card_le _).trans_eq (List.length_map _)

theorem displaced_concat (done : List ArraySnapshot) (s : ArraySnapshot) :
    displaced (done ++ [s]) = displaced done + if (lastNamed done s.name).isSome then 1 else 0 := by
  have bound := card_names_le done
  have names : ((done ++ [s]).map ArraySnapshot.name).toFinset =
      insert s.name (done.map ArraySnapshot.name).toFinset := by
    ext name
    simp
  unfold displaced
  rw [names, List.length_append, List.length_singleton]
  by_cases known : s.name ∈ done.map ArraySnapshot.name
  · rw [Finset.insert_eq_of_mem (List.mem_toFinset.2 known), if_pos (isSome_lastNamed.2 known)]
    omega
  · rw [Finset.card_insert_of_notMem fun member => known (List.mem_toFinset.1 member),
      if_neg fun found => known (isSome_lastNamed.1 found)]
    omega

/-- A session in the middle of loading: what is loaded so far, and the ledger of it. -/
structure Session.Loaded (s : Session) (byReference : Bool) (done : List ArraySnapshot)
    (id : String → ObjectId) : Prop where
  follows : s.Follows (SessionModel.loaded byReference done id)
  accepted : ∀ t ∈ done, (StoredArray.ofSnapshot? t).isSome = true
  tally : s.world.stats.tally = { issued := done.length, released := displaced done }

namespace Session.Loaded

variable {byReference : Bool} {done : List ArraySnapshot} {id : String → ObjectId} {w v : World}
  {arrays table : ArrayTable} {s : ArraySnapshot}

theorem isSome_find? (now : Session.Loaded ⟨w, arrays⟩ byReference done id) (name : String) :
    (arrays.find? name).isSome = (lastNamed done name).isSome := by
  have shown : arrays.find? name = _ := now.follows.shown name
  have kept : (SessionModel.loaded byReference done id).contents name =
      (lastNamed done name).bind StoredArray.ofSnapshot? := rfl
  rw [shown, Option.isSome_map, kept]
  cases last : lastNamed done name with
  | none => rfl
  | some t =>
      rw [Option.bind_some]
      exact now.accepted t (mem_of_lastNamed last)

theorem add (now : Session.Loaded ⟨w, arrays⟩ byReference done id)
    (run : (arrays.add byReference s).runIn w = (.ok (.ok table), v)) :
    Session.Loaded ⟨v, table⟩ byReference (done ++ [s])
      (Function.update id s.name w.heap.length) := by
  obtain ⟨object, made, grown, paid, rfl⟩ := ArrayTable.add_ok now.follows.carried.free run
  obtain ⟨p, sound⟩ := ArraySnapshot.sound_of_toObject made
  obtain ⟨a, accepted, rfl, typed⟩ := StoredArray.ofSnapshot?_of_toObject made
  refine ⟨⟨?_, now.follows.shown.load accepted⟩, ?_, ?_⟩
  · have carried := (now.follows.carried.load accepted typed sound).withStats v.stats
    rw [← grown] at carried
    exact carried
  · intro t member
    obtain old | new := List.mem_append.1 member
    · exact now.accepted t old
    · rw [List.mem_singleton.1 new, accepted]
      rfl
  · have before : w.stats.tally = _ := now.tally
    rw [paid, before, now.isSome_find?, displaced_concat]
    split <;> ext <;> simp [Tally.ofEvent]

theorem addAll {rest : List ArraySnapshot}
    (now : Session.Loaded ⟨w, arrays⟩ byReference done id)
    (run : (arrays.addAll byReference rest).runIn w = (.ok (.ok table), v)) :
    ∃ place, Session.Loaded ⟨v, table⟩ byReference (done ++ rest) place := by
  -- on the snapshots still to come; what was loaded before them grows at its end
  induction rest generalizing done id arrays w with
  | nil =>
      cases run
      exact ⟨id, by rwa [List.append_nil]⟩
  | cons s rest ih =>
      obtain ⟨answer, u, added, later⟩ := Eval.runIn_bind_ok run
      cases answer with
      | error e =>
          obtain ⟨_, x, closed, returned⟩ := Eval.runIn_bind_ok later
          cases returned
      | ok arrays =>
          obtain ⟨place, loaded⟩ := ih (now.add added) later
          exact ⟨place, by rwa [List.append_assoc] at loaded⟩

end Session.Loaded

theorem Session.loaded_empty (byReference : Bool) :
    Session.Loaded {} byReference [] fun _ => 0 :=
  ⟨⟨⟨nofun, nofun, nofun, nofun, rfl, rfl, rfl⟩, fun _ => rfl⟩, nofun, rfl⟩

theorem Session.loaded_of_ofSnapshots {byReference : Bool} {snapshots : List ArraySnapshot}
    {s : Session} (made : Session.ofSnapshots byReference snapshots = .ok (.ok s)) :
    ∃ id, s.Loaded byReference snapshots id := by
  unfold Session.ofSnapshots at made
  rcases run : (ArrayTable.addAll byReference .empty snapshots).runIn {} with
    ⟨fault | e | table, world⟩
  · rw [run] at made
    cases made
  · rw [run] at made
    cases made
  · rw [run] at made
    cases made
    exact (loaded_empty byReference).addAll run

theorem Handler.loaded_of_handle_load {h₀ h : Handler} {snapshots : List ArraySnapshot}
    (loaded : h₀.handle (.load snapshots) = .ok (.success true, h)) :
    ∃ s id, h.session = some s ∧ s.Loaded h₀.config.byReference snapshots id := by
  unfold Handler.handle at loaded
  cases closed : h₀.closeSession with
  | error fault =>
      rw [closed] at loaded
      cases loaded
  | ok _ =>
      rw [closed] at loaded
      cases made : Session.ofSnapshots h₀.config.byReference snapshots with
      | error fault =>
          simp only [bind, Except.bind, made] at loaded
          cases loaded
      | ok outcome =>
          simp only [bind, Except.bind, made] at loaded
          cases outcome with
          | error e =>
              cases loaded
          | ok s =>
              cases loaded
              obtain ⟨id, known⟩ := Session.loaded_of_ofSnapshots made
              exact ⟨s, id, rfl, known⟩

/-- The answer alone tells whether a handler is left. -/
theorem Handler.exists_handle_ok {h : Handler} {r : Request} {response : Response}
    (answered : (h.handle r).toOption.map Prod.fst = some response) :
    ∃ next, h.handle r = .ok (response, next) := by
  cases done : h.handle r with
  | error fault =>
      rw [done] at answered
      cases answered
  | ok outcome =>
      rw [done] at answered
      cases answered
      exact ⟨outcome.2, rfl⟩

/-- A name that is loaded twice, and a grid. -/
def sampleSnapshots : List ArraySnapshot :=
  [{ name := "xs", elementType := "int" },
    { name := "xs", elementType := "bool", elements := [⟨.bool true, trivial⟩, ⟨.null, trivial⟩] },
    { name := "grid", elementType := "bool", elements := [⟨.null, trivial⟩, ⟨.null, trivial⟩],
      byReference := some false, rank := 2 }]

/-- Requests that hit, miss, write and repeat. -/
def sampleRequests : List Request :=
  [.length "xs", .element "xs" 1, .store "xs" 1 ⟨.bool true, trivial⟩, .element "xs" 1,
    .element "xs" 2, .element "grid" 0, .length "xs", .stats]

end DebugArrays
