import DebugArrays.Proofs.Session.History
import DebugArrays.Proofs.Session.Refinement

/-!
How a session stands between requests: what its views are of, what the heap may hold, and how much a
remembered length can be relied on.
-/
namespace DebugArrays

/-- What may be remembered of an object's length, as the object is now. -/
def LengthCache.Agrees (object : HeapObject) : LengthCache → Prop
  | .uninitialized => True
  | .known n => object.type.isSzArray = true ∧ n.toNat = object.slots.length
  | .error => object.type.isSzArray = false

/-- A view is of an object: its handle denotes the object and has its current type, and neither its
shape nor its cache says anything else. -/
structure ArrayView.Wraps (view : ArrayView) (heap : Heap) (id : ObjectId) (object : HeapObject) :
    Prop where
  denoted : view.handle.referent = .reference id ∨ view.handle.referent = .object id
  there : heap.object? id = some object
  type : object.type = view.handle.type
  array : ∃ p, object.type.ArrayOf p
  shape : view.isSz = object.type.isSzArray
  cache : view.cache.Agrees object

structure Session.Represented (s : Session) : Prop where
  wraps : ∀ name view, s.arrays.find? name = some view →
    ∃ id object, view.Wraps s.world.heap id object
  apart : ∀ name other view twin, s.arrays.find? name = some view →
    s.arrays.find? other = some twin → view.handle.objectId? = twin.handle.objectId? → name = other
  sound : s.world.heap.Sound
  recorded : s.world.recorded = []
  followed : s.world.dereferenceFails = false
  free : s.world.releaseForbidden = false

theorem StoredArray.Small.agrees_settle {a : StoredArray} (small : a.Small) :
    (LengthCache.settle a.counted?).Agrees a.object := by
  have counted := small.counted?
  by_cases one : a.rank = 1
  · rw [if_pos one] at counted
    obtain ⟨n, known, same⟩ := Option.map_eq_some_iff.1 counted
    rw [known]
    exact ⟨a.isSzArray_type.trans (beq_iff_eq.2 one), same.trans (List.length_map _).symm⟩
  · rw [if_neg one, Option.map_eq_none_iff] at counted
    rw [counted]
    exact a.isSzArray_type.trans (beq_eq_false_iff_ne.2 one)

namespace SessionModel

variable {m : SessionModel} {w : World} {name : String} {a : StoredArray}

theorem small_afterAll (small : m.contents.Small) (requests : List Request) :
    (m.afterAll requests).contents.Small := by
  induction requests generalizing m with
  | nil => exact small
  | cons r rest ih =>
      apply ih
      rw [m.contents_after small r]
      exact small.after r

theorem objectId?_view : (m.view name a).handle.objectId? = some (m.id name) := by
  unfold view handle Handle.objectId?
  cases m.byReference name <;> rfl

theorem Carried.wraps (carried : m.Carried w) (small : m.contents.Small)
    (found : m.contents name = some a) :
    (m.view name a).Wraps w.heap (m.id name) a.object := by
  have there := carried.object name a found
  obtain ⟨p, sound⟩ := carried.sound a.object (List.mem_of_getElem? there)
  refine ⟨?_, there, rfl, ⟨p, sound.type⟩, a.isSzArray_type.symm, ?_⟩
  · unfold view handle
    cases m.byReference name with
    | false => exact .inr rfl
    | true => exact .inl rfl
  · unfold view
    dsimp only
    split
    · exact (small name a found).agrees_settle
    · trivial

end SessionModel

/-- Where the model's arrays have lengths that 32 bits hold, a session is as it has to be. -/
theorem Session.Follows.represented {s : Session} {m : SessionModel} (follows : s.Follows m)
    (small : m.contents.Small) : s.Represented where
  wraps := by
    intro name view found
    rw [follows.shown name] at found
    obtain ⟨a, kept, rfl⟩ := Option.map_eq_some_iff.1 found
    exact ⟨m.id name, a.object, follows.carried.wraps small kept⟩
  apart := by
    intro name other view twin here there same
    rw [follows.shown name] at here
    rw [follows.shown other] at there
    obtain ⟨a, kept, rfl⟩ := Option.map_eq_some_iff.1 here
    obtain ⟨b, held, rfl⟩ := Option.map_eq_some_iff.1 there
    rw [SessionModel.objectId?_view, SessionModel.objectId?_view] at same
    exact follows.carried.apart name other a b kept held (Option.some.inj same)
  sound := follows.carried.sound
  recorded := follows.carried.recorded
  followed := follows.carried.followed
  free := follows.carried.free

namespace Handler

variable {config : Config} {requests : List Request} {responses : List Response} {h : Handler}
  {s : Session}

/-- Whatever requests a handler has run, failed loads and refused stores among them, its session is
as it has to be. -/
theorem represented_of_run (ran : (new config).run requests = .ok (responses, h))
    (opened : h.session = some s)
    (small : ∀ snapshots, .load snapshots ∈ requests →
      ∀ t ∈ snapshots, t.elements.length < 2 ^ 32) : s.Represented := by
  obtain ⟨before, snapshots, queries, id, rfl, -, told⟩ := (told_of_run ran).session s opened
  refine told.follows.represented (SessionModel.small_afterAll ?_ queries)
  exact Reference.small_ofSnapshots (small snapshots (by simp))

theorem represented_of_run_sample :
    ∃ responses h s, (new {}).run (.load sampleSnapshots :: sampleRequests) = .ok (responses, h) ∧
      h.session = some s ∧ s.Represented := by
  have evaluated : (((new {}).run (.load sampleSnapshots :: sampleRequests)).toOption.bind
      fun outcome => outcome.2.session).isSome = true := by decide +kernel
  obtain ⟨responses, h, s, ran, opened⟩ := exists_run_session evaluated
  refine ⟨responses, h, s, ran, opened, represented_of_run ran opened ?_⟩
  intro snapshots member
  obtain same | later := List.mem_cons.1 member
  · cases same
    decide
  · simp [sampleRequests] at later

end Handler

end DebugArrays
