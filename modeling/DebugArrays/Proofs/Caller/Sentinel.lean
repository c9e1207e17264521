import DebugArrays.Proofs.Array.Balance
import DebugArrays.Proofs.Caller.Length

/-!
Refusals touch nothing. What an array refuses for its shape or for the index it refuses before it
looks at the debuggee, so the answer is the same in every world and the world stays as it is.
-/
namespace DebugArrays

namespace ArrayView

variable {view : ArrayView} {w v : World} {index : Int}

/-- A view as making it and asking it leave it: of the shape that its type declares, and without a
length if the shape has none. -/
structure Declared (view : ArrayView) : Prop where
  shape : view.isSz = view.type.withoutByRef.isSzArray
  unmeasured : view.isSz = false → view.cache.length? = none

theorem Declared.of_ofHandle {h : Handle} (made : (ofHandle h).runIn w = (.ok view, v)) :
    view.Declared := by
  obtain ⟨rfl, -⟩ := ofHandle_ok made
  exact ⟨rfl, fun _ => rfl⟩

/-- An array of another shape answers no length, and remembers that. -/
theorem Declared.runIn_length (h : view.Declared) (notSz : view.isSz = false) (w : World) :
    view.length.runIn w = (.ok (none, { view with cache := .error }), w) := by
  cases known : view.cache with
  | uninitialized =>
      rw [length_of_uninitialized known, queryLength, if_neg (Bool.eq_false_iff.1 notSz)]
      rfl
  | known n =>
      have unmeasured := h.unmeasured notSz
      rw [known] at unmeasured
      cases unmeasured
  | error =>
      rw [runIn_length_of_ne_uninitialized (by rw [known]; nofun), ← known]
      exact congrArg (fun n => (Except.ok (n, view), w)) (h.unmeasured notSz)

theorem Declared.length {answer : Option UInt32 × ArrayView} (h : view.Declared)
    (ran : view.length.runIn w = (.ok answer, v)) : answer.2.Declared := by
  have same := length_ok_view ran
  constructor
  · rw [same]
    exact h.shape
  · intro notSz
    rw [same] at notSz
    rw [h.runIn_length notSz] at ran
    cases ran
    rfl

theorem szIndex?_eq_none_of_not_sz (notSz : view.isSz = false) (index : Int) :
    view.szIndex? index = none :=
  if_neg (Bool.eq_false_iff.1 notSz)

theorem szIndex?_eq_none_of_outside (outside : ¬ InWindow index) : view.szIndex? index = none := by
  rw [← Option.not_isSome_iff_eq_none, isSome_szIndex?_iff]
  exact fun inside => outside inside.2

end ArrayView

namespace Caller

variable {c c₀ c₁ : Caller} {place : Nat} {index : Int} {view : ArrayView}

/-- The same caller in another world. -/
def inWorld (c : Caller) (world : World) : Caller :=
  { c with world }

/-- The operations that only single-dimensional zero-based arrays have are refused, and nothing
happens. -/
structure Refuses (c : Caller) (place : Nat) (index : Int) : Prop where
  load : c.perform (.arrayLoad place index) = .ok (.value none, c)
  store : ∀ v, c.perform (.arrayStore place index v) = .ok (.flag false, c)
  address : c.perform (.arrayAddress place index) = .ok (.flag false, c)

theorem refuses_of_szIndex? (there : c.arrays.at? place = some view)
    (refused : view.szIndex? index = none) : Refuses c place index where
  load := by
    simp only [perform, need, there, observe, evaluate, ArrayView.load, refused]
    rfl
  store v := by
    simp only [perform, need, there, observe, evaluate, ArrayView.store, refused]
    rfl
  address := by
    simp only [perform, need, there, ArrayView.address?, refused]
    rfl

theorem perform_arrayRead_of_outside (there : c.arrays.at? place = some view)
    (outside : ¬ InWindow index) :
    c.perform (.arrayRead place index) = .ok (.handle none, c) := by
  have refused : elementIndex? index = none := by
    rwa [← Option.not_isSome_iff_eq_none, isSome_elementIndex?_iff]
  simp only [perform, need, there, gain, evaluate, ArrayView.read, refused]
  rfl

theorem perform_arrayLength_of_not_sz (there : c.arrays.at? place = some view)
    (declared : view.Declared) (notSz : view.isSz = false) :
    c.perform (.arrayLength place) =
      .ok (.count none, { c with arrays := c.arrays.replace place { view with cache := .error } }) := by
  simp only [perform, need, there, evaluate, declared.runIn_length notSz]

/-- The address of an element is given out whether or not there is such an element. -/
theorem perform_arrayAddress_of_inWindow (there : c.arrays.at? place = some view)
    (sz : view.isSz = true) (inside : InWindow index) :
    c.perform (.arrayAddress place index) =
      .ok (.flag true, { c with addresses := c.addresses ++ [⟨place, index⟩] }) := by
  obtain ⟨i, placed⟩ := Option.isSome_iff_exists.1 (ArrayView.isSome_szIndex?_iff.2 ⟨sz, inside⟩)
  simp only [perform, need, there, ArrayView.address?, placed, Option.map_some]

theorem declared_of_wrap {hand : Nat} {shape : Answer}
    (made : c₀.perform (.wrap hand) = .ok (shape, c₁)) :
    OfArray ArrayView.Declared c₀.arrays.length c₁ := by
  obtain ⟨h, -, done⟩ := need_ok made
  obtain ⟨view, world, ran, same⟩ := evaluate_ok done
  cases same
  exact .of_at? (Shelf.at?_put_length c₀.arrays view) (.of_ofHandle ran)

/-- Refusals have no side effect, whatever was done to the array since it was made and whatever the
world is by now. An index outside the window is refused by every array; the operations that only
single-dimensional zero-based arrays have are refused at every index by arrays of any other declared
shape, which have no length either and at most remember that. An address inside the window is given
out without a look at the world. -/
theorem sentinels_touch_nothing {hand : Nat} {shape : Answer} {ops : List Operation}
    {answers : List Answer} (made : c₀.perform (.wrap hand) = .ok (shape, c₁))
    (run : c₁.run ops = .ok (answers, c)) (there : c.arrays.at? c₀.arrays.length = some view)
    (w : World) :
    (∀ index, ¬ InWindow index →
      Refuses (c.inWorld w) c₀.arrays.length index ∧
      (c.inWorld w).perform (.arrayRead c₀.arrays.length index) =
        .ok (.handle none, c.inWorld w)) ∧
    (view.type.withoutByRef.isSzArray = false →
      (∀ index, Refuses (c.inWorld w) c₀.arrays.length index) ∧
      (c.inWorld w).perform (.arrayLength c₀.arrays.length) =
        .ok (.count none, { c.inWorld w with
          arrays := c.arrays.replace c₀.arrays.length { view with cache := .error } })) ∧
    (view.type.withoutByRef.isSzArray = true → ∀ index, InWindow index →
      (c.inWorld w).perform (.arrayAddress c₀.arrays.length index) =
        .ok (.flag true, { c.inWorld w with
          addresses := c.addresses ++ [⟨c₀.arrays.length, index⟩] })) := by
  have declared : view.Declared :=
    ((declared_of_wrap made).run (fun _ _ _ _ h asked => h.length asked) run).holds view there
  have now : (c.inWorld w).arrays.at? c₀.arrays.length = some view := there
  refine ⟨fun index outside => ⟨?_, ?_⟩, fun other => ?_, fun sz index inside => ?_⟩
  · exact refuses_of_szIndex? now (ArrayView.szIndex?_eq_none_of_outside outside)
  · exact perform_arrayRead_of_outside now outside
  · have notSz := declared.shape.trans other
    refine ⟨fun index => ?_, perform_arrayLength_of_not_sz now declared notSz⟩
    exact refuses_of_szIndex? now (ArrayView.szIndex?_eq_none_of_not_sz notSz index)
  · exact perform_arrayAddress_of_inWindow now (declared.shape.trans sz) inside

/-- A caller with a matrix of one row in the hand. -/
def ofMatrix : Caller where
  world := { heap := [⟨.mdArray (.primitive .bool) 2, [.null, .value (.bool true)]⟩] }
  hands := [some ⟨.reference 0, .mdArray (.primitive .bool) 2⟩]

/-- In a world where nothing can be followed or given back a matrix goes on to refuse, at an index
that it has, and before its first element. -/
theorem sentinels_touch_nothing_ofMatrix :
    ∃ answers c w, ofMatrix.run [.wrap 0, .arrayRead 0 1] = .ok (answers, c) ∧
      w.dereferenceFails = true ∧ w.releaseForbidden = true ∧ Refuses (c.inWorld w) 0 1 ∧
      (c.inWorld w).perform (.arrayRead 0 (-1)) = .ok (.handle none, c.inWorld w) ∧
      ∃ d, (c.inWorld w).perform (.arrayLength 0) = .ok (.count none, d) ∧
        d.world = w ∧ d.arrays.at? 0 = some ⟨⟨.reference 0, .mdArray (.primitive .bool) 2⟩,
          false, .error⟩ := by
  have made : ofMatrix.perform (.wrap 0) = .ok (.flag false, _) := rfl
  have refused := sentinels_touch_nothing made
    (show Caller.run _ [.arrayRead 0 1] = .ok (_, _) from rfl) rfl
    { dereferenceFails := true, releaseForbidden := true }
  obtain ⟨outside, other, -⟩ := refused
  obtain ⟨shaped, unmeasured⟩ := other rfl
  exact ⟨_, _, _, rfl, rfl, rfl, shaped 1, (outside (-1) (by decide)).2, _, unmeasured, rfl, rfl⟩

end Caller

end DebugArrays
