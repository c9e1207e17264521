import DebugArrays.Proofs.Array.Length
import DebugArrays.Proofs.Caller.Basic

/-!
The length of an array settles when it is asked for the first time, whatever else is done to the
heap, to the array and to others before and after.
-/
namespace DebugArrays

namespace Shelf

variable {α : Type} {s t u : Shelf α} {i : Nat}

/-- From one shelf to the next a thing stays as it is, or goes. -/
def Keeps (i : Nat) (s t : Shelf α) : Prop :=
  i < t.length ∧ ∀ a, t.at? i = some a → s.at? i = some a

namespace Keeps

theorem refl (inside : i < s.length) : Keeps i s s :=
  ⟨inside, fun _ found => found⟩

theorem trans (first : Keeps i s t) (second : Keeps i t u) : Keeps i s u :=
  ⟨second.1, fun a found => first.2 a (second.2 a found)⟩

end Keeps

theorem keeps_put (inside : i < s.length) (a : α) : Keeps i s (s.put a) := by
  refine ⟨by rw [put, List.length_append]; exact Nat.lt_add_right _ inside, fun b found => ?_⟩
  rwa [at?, put, List.getElem?_append_left inside] at found

theorem keeps_clear (inside : i < s.length) (j : Nat) : Keeps i s (s.clear j) := by
  refine ⟨by rwa [clear, List.length_set], fun b found => ?_⟩
  by_cases same : j = i
  · rw [same, at?_clear] at found
    cases found
  · rwa [clear, at?_set_of_ne same] at found

theorem keeps_replace (inside : i < s.length) {j : Nat} (other : j ≠ i) (a : α) :
    Keeps i s (s.replace j a) := by
  refine ⟨by rwa [replace, List.length_set], fun b found => ?_⟩
  rwa [replace, at?_set_of_ne other] at found

theorem replace_at? {a : α} (found : s.at? i = some a) : s.replace i a = s := by
  have here : s[i]? = some (some a) := Option.join_eq_some_iff.1 found
  obtain ⟨inside, same⟩ := List.getElem?_eq_some_iff.1 here
  rw [replace, ← same, List.set_getElem_self]

end Shelf

namespace Caller

variable {α : Type} {c d : Caller} {answer : Answer} {op : Operation} {place : Nat}

/-- What an operation can do to the arrays and the addresses of a caller: nothing, or it adds an
array, takes one away, asks one for its length, or adds an address. -/
inductive Shelves (op : Operation) (c d : Caller) : Prop
  | kept (same : d.arrays = c.arrays ∧ d.addresses = c.addresses)
  | added (view : ArrayView) (arrays : d.arrays = c.arrays.put view)
      (addresses : d.addresses = c.addresses)
  | removed (i : Nat) (arrays : d.arrays = c.arrays.clear i)
      (addresses : d.addresses = c.addresses)
  | asked (i : Nat) (view : ArrayView) (asking : op = .arrayLength i)
      (arrays : d.arrays = c.arrays.replace i view) (addresses : d.addresses = c.addresses)
  | named (address : PlacedAddress) (arrays : d.arrays = c.arrays)
      (addresses : d.addresses = c.addresses ++ [address])

theorem kept_observe {step : Eval α} {answers : α → Answer}
    (done : c.observe step answers = .ok (answer, d)) :
    d.arrays = c.arrays ∧ d.addresses = c.addresses := by
  obtain ⟨a, world, -, same⟩ := evaluate_ok done
  cases same
  exact ⟨rfl, rfl⟩

theorem kept_change {f : World → World} (done : c.change f = .ok (answer, d)) :
    d.arrays = c.arrays ∧ d.addresses = c.addresses :=
  kept_observe done

theorem kept_gain {step : Eval (Option Handle)} (done : c.gain step = .ok (answer, d)) :
    d.arrays = c.arrays ∧ d.addresses = c.addresses := by
  obtain ⟨found, world, -, same⟩ := evaluate_ok done
  cases found <;> (cases same; exact ⟨rfl, rfl⟩)

theorem kept_enter {h : Handle} (done : c.enter h = .ok (answer, d)) :
    d.arrays = c.arrays ∧ d.addresses = c.addresses := by
  obtain ⟨guard, world, -, same⟩ := evaluate_ok done
  cases guard <;> (cases same; exact ⟨rfl, rfl⟩)

theorem shelves_perform (done : c.perform op = .ok (answer, d)) : Shelves op c d := by
  cases op with
  | alloc type slots => exact .kept (kept_observe done)
  | load snapshot => exact .kept (kept_observe done)
  | reference id => exact .kept (kept_gain done)
  | referenceAs id type => exact .kept (kept_gain done)
  | object id => exact .kept (kept_gain done)
  | nullReference type => exact .kept (kept_gain done)
  | setSlot id index slot => exact .kept (kept_observe done)
  | resize id length => exact .kept (kept_change done)
  | retype id type => exact .kept (kept_change done)
  | dereferenceFails on => exact .kept (kept_change done)
  | forbidRelease on => exact .kept (kept_change done)
  | resetStats => exact .kept (kept_change done)
  | clearRecorded => exact .kept (kept_observe done)
  | dereference lender | elementAt lender index | duplicate lender =>
      obtain ⟨h, -, done⟩ := need_ok done
      exact .kept (kept_gain done)
  | slotCount lender | value lender | write lender index v =>
      obtain ⟨h, -, done⟩ := need_ok done
      exact .kept (kept_observe done)
  | release hand | consume hand =>
      obtain ⟨h, -, done⟩ := need_ok done
      have same := kept_observe done
      exact .kept same
  | record hand =>
      obtain ⟨h, -, done⟩ := need_ok done
      have same := kept_gain done
      exact .kept same
  | acquire lender =>
      obtain ⟨h, -, done⟩ := need_ok done
      exact .kept (kept_enter done)
  | leave guard =>
      obtain ⟨g, -, done⟩ := need_ok done
      have same := kept_observe done
      exact .kept same
  | wrap hand =>
      obtain ⟨h, -, done⟩ := need_ok done
      obtain ⟨view, world, -, same⟩ := evaluate_ok done
      cases same
      exact .added view rfl rfl
  | unwrap array =>
      obtain ⟨view, -, done⟩ := need_ok done
      cases done
      exact .removed array rfl rfl
  | arrayRead array index =>
      obtain ⟨view, -, done⟩ := need_ok done
      exact .kept (kept_gain done)
  | arrayLoad array index | arrayStore array index v | arrayWrite array index v =>
      obtain ⟨view, -, done⟩ := need_ok done
      exact .kept (kept_observe done)
  | arrayLength array =>
      obtain ⟨view, -, done⟩ := need_ok done
      obtain ⟨asked, world, -, same⟩ := evaluate_ok done
      cases same
      exact .asked array asked.2 rfl rfl rfl
  | arrayAddress array index =>
      obtain ⟨view, -, done⟩ := need_ok done
      cases made : view.address? index <;> simp only [made] at done <;> cases done
      · exact .kept ⟨rfl, rfl⟩
      · exact .named _ rfl rfl
  | addressRead address =>
      obtain ⟨a, -, done⟩ := need_ok done
      exact .kept (kept_gain done)
  | addressLoad address | addressStore address v =>
      obtain ⟨a, -, done⟩ := need_ok done
      exact .kept (kept_observe done)

/-- Only its own length query changes what an array remembers. -/
theorem keeps_perform (inside : place < c.arrays.length) (other : op ≠ .arrayLength place)
    (done : c.perform op = .ok (answer, d)) : Shelf.Keeps place c.arrays d.arrays := by
  cases shelves_perform done with
  | kept same =>
      rw [same.1]
      exact .refl inside
  | added view same _ =>
      rw [same]
      exact Shelf.keeps_put inside view
  | removed i same _ =>
      rw [same]
      exact Shelf.keeps_clear inside i
  | asked i view asking same _ =>
      subst asking
      rw [same]
      exact Shelf.keeps_replace inside (fun e => other (e ▸ rfl)) view
  | named address same _ =>
      rw [same]
      exact .refl inside

/-- What is true of the array at a place, as long as it is there. -/
structure OfArray (P : ArrayView → Prop) (place : Nat) (c : Caller) : Prop where
  inside : place < c.arrays.length
  holds : ∀ view, c.arrays.at? place = some view → P view

namespace OfArray

variable {P : ArrayView → Prop}

theorem of_at? {view : ArrayView} (there : c.arrays.at? place = some view) (h : P view) :
    OfArray P place c := by
  refine ⟨Shelf.lt_length_of_at? there, ?_⟩
  intro other found
  cases there.symm.trans found
  exact h

/-- What a view keeps when it is asked for its length, it keeps whatever is done. -/
theorem perform (lasting : ∀ view w answer v, P view →
    view.length.runIn w = (.ok answer, v) → P answer.2) (h : OfArray P place c)
    (done : c.perform op = .ok (answer, d)) : OfArray P place d := by
  by_cases asking : op = .arrayLength place
  · subst asking
    obtain ⟨view, found, done⟩ := need_ok done
    obtain ⟨asked, world, ran, same⟩ := evaluate_ok done
    cases same
    exact of_at? (Shelf.at?_replace found) (lasting view _ _ _ (h.holds view found) ran)
  · have kept := keeps_perform h.inside asking done
    exact ⟨kept.1, fun view found => h.holds view (kept.2 view found)⟩

theorem run {ops : List Operation} {answers : List Answer} (lasting : ∀ view w answer v, P view →
    view.length.runIn w = (.ok answer, v) → P answer.2) (h : OfArray P place c)
    (done : c.run ops = .ok (answers, d)) : OfArray P place d :=
  preserved_run (fun _ _ _ _ _ h first => h.perform lasting first) h done

end OfArray

/-- An array that was asked answers from memory. -/
theorem perform_arrayLength_of_settled {view : ArrayView}
    (found : c.arrays.at? place = some view) (settled : view.cache ≠ .uninitialized) :
    c.perform (.arrayLength place) = .ok (.count view.cache.length?, c) := by
  simp only [perform, need, found, evaluate,
    ArrayView.runIn_length_of_ne_uninitialized settled, Shelf.replace_at? found]

theorem keeps_run_unasked {ops : List Operation} {answers : List Answer}
    (inside : place < c.arrays.length) (unasked : .arrayLength place ∉ ops)
    (done : c.run ops = .ok (answers, d)) : Shelf.Keeps place c.arrays d.arrays := by
  refine preserved_run (P := fun e => Shelf.Keeps place c.arrays e.arrays) ?_ (.refl inside) done
  intro op member e answer f kept first
  have other : op ≠ .arrayLength place := ne_of_mem_of_not_mem member unasked
  exact kept.trans (keeps_perform kept.1 other first)

/-- Once an array was asked, any run leaves it as it is. -/
theorem keeps_run_settled {ops : List Operation} {answers : List Answer}
    (inside : place < c.arrays.length)
    (settled : ∀ view, c.arrays.at? place = some view → view.cache ≠ .uninitialized)
    (done : c.run ops = .ok (answers, d)) : Shelf.Keeps place c.arrays d.arrays := by
  refine preserved_run (P := fun e => Shelf.Keeps place c.arrays e.arrays) ?_ (.refl inside) done
  intro op member e answer f kept first
  by_cases asking : op = .arrayLength place
  · subst asking
    obtain ⟨view, found, -⟩ := need_ok first
    rw [perform_arrayLength_of_settled found (settled view (kept.2 view found))] at first
    cases first
    exact kept
  · exact kept.trans (keeps_perform kept.1 asking first)

/-- A view that is asked for the first time: what it answers in the world `w`, and the world `v`
that asking leaves. -/
structure FirstQuery (view : ArrayView) (w v : World) (answer : Option UInt32) : Prop where
  kept : v = { w with stats := v.stats }
  untouched : view.isSz = false → v = w
  dereferences : v.stats.dereferences.toNat ≤ w.stats.dereferences.toNat + 1
  lengthQueries : v.stats.lengthQueries.toNat ≤ w.stats.lengthQueries.toNat + 1
  elementReads : v.stats.elementReads = w.stats.elementReads
  answered : ∀ n, answer = some n ↔
    view.isSz = true ∧ ∃ object, w.reach? view.handle = some object ∧
      object.type.isSzArray = true ∧
      ∃ id stored, object.referent = .object id ∧ w.heap.object? id = some stored ∧
        stored.slots.length = n.toNat

theorem perform_arrayLength_of_uninitialized {view : ArrayView}
    (found : c.arrays.at? place = some view) (unasked : view.cache = .uninitialized)
    (done : c.perform (.arrayLength place) = .ok (answer, d)) :
    ∃ n, answer = .count n ∧ FirstQuery view c.world d.world n ∧
      d = { c with
        world := d.world
        arrays := c.arrays.replace place { view with cache := .settle n } } := by
  obtain ⟨other, here, done⟩ := need_ok done
  cases found.symm.trans here
  obtain ⟨asked, world, ran, same⟩ := evaluate_ok done
  obtain ⟨rfl, kept, untouched, bill, paid, dereferences, lengthQueries, elementReads⟩ :=
    ArrayView.length_ok_of_uninitialized unasked ran
  cases same
  refine ⟨_, rfl, ⟨kept, untouched, ?_, ?_, ?_, fun n => World.szLength?_eq_some_iff⟩, rfl⟩
  · have counted := congrArg Tally.dereferences paid
    exact Nat.le_trans (Nat.le_of_eq counted) (Nat.add_le_add_left dereferences _)
  · have counted := congrArg Tally.lengthQueries paid
    exact Nat.le_trans (Nat.le_of_eq counted) (Nat.add_le_add_left lengthQueries _)
  · have counted := congrArg Tally.elementReads paid
    rw [Tally.elementReads_add, elementReads, add_zero] at counted
    exact UInt64.toNat_inj.1 counted

/-- The length of an array settles once and for ever. Until it is asked for, the array is as it was
made. What the first query learns stays, and every later one repeats it without a look at the
debuggee, whatever was done in between. -/
theorem length_settles_once {c₀ c₁ : Caller} {hand : Nat} {shape : Answer}
    (made : c₀.perform (.wrap hand) = .ok (shape, c₁)) :
    ∃ h, c₀.hands.at? hand = some h ∧
      ∀ before answers c, c₁.run before = .ok (answers, c) →
        .arrayLength c₀.arrays.length ∉ before →
        (∀ view, c.arrays.at? c₀.arrays.length = some view →
          view = ⟨h, h.type.withoutByRef.isSzArray, .uninitialized⟩) ∧
        ∀ reply d, c.perform (.arrayLength c₀.arrays.length) = .ok (reply, d) →
          ∃ n, reply = .count n ∧
            FirstQuery ⟨h, h.type.withoutByRef.isSzArray, .uninitialized⟩ c.world d.world n ∧
            ∀ later replies e, d.run later = .ok (replies, e) →
              (∀ view, e.arrays.at? c₀.arrays.length = some view →
                view = ⟨h, h.type.withoutByRef.isSzArray, .settle n⟩) ∧
              ∀ again f, e.perform (.arrayLength c₀.arrays.length) = .ok (again, f) →
                again = .count n ∧ f = e := by
  obtain ⟨h, held, done⟩ := need_ok made
  obtain ⟨view, world, ran, same⟩ := evaluate_ok done
  obtain ⟨rfl, -⟩ := ArrayView.ofHandle_ok ran
  cases same
  refine ⟨h, held, fun before answers c run unasked => ?_⟩
  have fresh := Shelf.at?_put_length c₀.arrays ⟨h, h.type.withoutByRef.isSzArray, .uninitialized⟩
  have early := keeps_run_unasked (Shelf.lt_length_of_at? fresh) unasked run
  have original : ∀ view, c.arrays.at? c₀.arrays.length = some view →
      view = ⟨h, h.type.withoutByRef.isSzArray, .uninitialized⟩ := fun view found =>
    Option.some.inj ((early.2 view found).symm.trans fresh)
  refine ⟨original, fun reply d asked => ?_⟩
  obtain ⟨view, found, -⟩ := need_ok asked
  obtain rfl := original view found
  obtain ⟨n, rfl, query, after⟩ := perform_arrayLength_of_uninitialized found rfl asked
  refine ⟨n, rfl, query, fun later replies e run => ?_⟩
  have settled : d.arrays.at? c₀.arrays.length =
      some ⟨h, h.type.withoutByRef.isSzArray, .settle n⟩ := by
    rw [after]
    exact Shelf.at?_replace found
  have late := keeps_run_settled (Shelf.lt_length_of_at? settled) (fun view there => by
    cases settled.symm.trans there
    exact LengthCache.settle_ne_uninitialized n) run
  have final : ∀ view, e.arrays.at? c₀.arrays.length = some view →
      view = ⟨h, h.type.withoutByRef.isSzArray, .settle n⟩ := fun view there =>
    Option.some.inj ((late.2 view there).symm.trans settled)
  refine ⟨final, fun again f repeated => ?_⟩
  obtain ⟨view, there, -⟩ := need_ok repeated
  obtain rfl := final view there
  rw [perform_arrayLength_of_settled there (LengthCache.settle_ne_uninitialized n),
    LengthCache.length?_settle] at repeated
  cases repeated
  exact ⟨rfl, rfl⟩

def ofPair : Caller where
  world := { heap := [⟨.szArray (.primitive .bool), [.null, .value (.bool true)]⟩] }
  hands := [some ⟨.reference 0, .szArray (.primitive .bool)⟩]

/-- Asked after the array grew to three, the view goes on answering three when it is cut to one. -/
theorem length_settles_once_ofPair :
    ∃ answers d replies e again f,
      ofPair.run [.wrap 0, .resize 0 3] = .ok (answers, d) ∧
      d.run [.arrayLength 0, .resize 0 1, .dereferenceFails true] = .ok (replies, e) ∧
      e.perform (.arrayLength 0) = .ok (again, f) ∧
      again = .count (some 3) ∧ f = e ∧ e.world.stats.lengthQueries = 1 := by
  have made : ofPair.perform (.wrap 0) = .ok (.flag true, _) := rfl
  obtain ⟨h, -, settles⟩ := length_settles_once made
  obtain ⟨-, first⟩ := settles [.resize 0 3] _ _ rfl (by simp)
  obtain ⟨n, counted, -, after⟩ := first _ _ rfl
  obtain ⟨-, repeated⟩ := after [.resize 0 1, .dereferenceFails true] _ _ rfl
  obtain ⟨same, kept⟩ := repeated _ _ rfl
  cases counted
  exact ⟨_, _, _, _, _, _, rfl, rfl, rfl, same, kept, rfl⟩

end Caller

end DebugArrays
