import DebugArrays.Proofs.Array.Element
import DebugArrays.Proofs.Caller.Length

/-!
The ways to an element agree. The address of an element stays what it was made as, whatever is done
to the heap in the meantime, and to use it is to use the array at that time. What a load answers is
the value of what a read finds.
-/
namespace DebugArrays

namespace ArrayView

variable {view : ArrayView} {w v u : World} {index : Int}

theorem address?_eq_some_iff {made : ElementAddress} :
    view.address? index = some made ↔
      made = ⟨view, index⟩ ∧ view.isSz = true ∧ ∃ i : UInt32, index = i.toNat := by
  unfold address? szIndex?
  cases sz : view.isSz with
  | false => simp
  | true =>
      rw [if_pos rfl, Option.map_eq_some_iff]
      constructor
      · rintro ⟨i, place, rfl⟩
        exact ⟨rfl, rfl, i, elementIndex?_eq_some_iff.1 place⟩
      · rintro ⟨rfl, -, i, place⟩
        exact ⟨i, elementIndex?_eq_some_iff.2 place, rfl⟩

/-- A read and a load find the same, and neither changes an object. -/
theorem read_load_ok {found : Option Handle} {loaded : Option Value} (sz : view.isSz = true)
    (reads : (view.read index).runIn w = (.ok found, v))
    (loads : (view.load index).runIn w = (.ok loaded, u)) :
    loaded.map some = found.map Handle.value? ∧ v.heap = w.heap ∧ u.heap = w.heap := by
  obtain ⟨rfl, unread⟩ := read_ok reads
  obtain ⟨same, unloaded⟩ := load_ok loads
  rw [szIndex?, if_pos sz] at same
  exact ⟨same, unread, unloaded⟩

end ArrayView

namespace Caller

variable {c d : Caller} {k place : Nat} {index : Int} {op : Operation} {answer : Answer}

/-- Addresses are never changed or taken away. -/
theorem named_perform {address : PlacedAddress} (named : c.addresses[k]? = some address)
    (done : c.perform op = .ok (answer, d)) : d.addresses[k]? = some address := by
  cases shelves_perform done with
  | kept same => rw [same.2, named]
  | added view _ same | removed i _ same | asked i view _ _ same => rw [same, named]
  | named more _ same =>
      have before : k < c.addresses.length := (List.getElem?_eq_some_iff.1 named).1
      rw [same, List.getElem?_append_left before, named]

/-- Address number `k` is of an index of the array at a place, and that array is single-dimensional
and zero-based, as long as it is there. -/
structure Addresses (c : Caller) (k place : Nat) (index : Int) : Prop where
  named : c.addresses[k]? = some ⟨place, index⟩
  inside : place < c.arrays.length
  sz : ∀ view, c.arrays.at? place = some view → view.isSz = true

namespace Addresses

theorem ofArray (h : Addresses c k place index) :
    OfArray (fun view => view.isSz = true) place c :=
  ⟨h.inside, h.sz⟩

/-- No operation makes an address another one, or its array one of another shape. -/
theorem perform (h : Addresses c k place index) (done : c.perform op = .ok (answer, d)) :
    Addresses d k place index := by
  have kept := h.ofArray.perform (fun view w answer v sz ran => by
    rw [ArrayView.length_ok_view ran]
    exact sz) done
  exact ⟨named_perform h.named done, kept.inside, kept.holds⟩

theorem run {ops : List Operation} {answers : List Answer} (h : Addresses c k place index)
    (done : c.run ops = .ok (answers, d)) : Addresses d k place index :=
  preserved_run (P := fun c => Addresses c k place index)
    (fun _ _ _ _ _ h first => h.perform first) h done

theorem address?_eq (h : Addresses c k place index) :
    c.address? k = (c.arrays.at? place).map fun view => ⟨view, index⟩ := by
  rw [address?, h.named, Option.bind_some]

theorem perform_addressLoad (h : Addresses c k place index) :
    c.perform (.addressLoad k) = c.perform (.arrayLoad place index) := by
  simp only [Caller.perform, h.address?_eq]
  cases c.arrays.at? place <;> rfl

theorem perform_addressRead (h : Addresses c k place index) :
    c.perform (.addressRead k) = c.perform (.arrayRead place index) := by
  simp only [Caller.perform, h.address?_eq]
  cases found : c.arrays.at? place with
  | none => rfl
  | some view =>
      simp only [Option.map_some, need, ElementAddress.read]
      rw [if_pos (h.sz view found)]

theorem perform_addressStore {i : UInt32} (h : Addresses c k place i.toNat) (v : Value) :
    c.perform (.addressStore k v) = c.perform (.arrayWrite place i v) := by
  simp only [Caller.perform, h.address?_eq]
  cases found : c.arrays.at? place with
  | none => rfl
  | some view =>
      simp only [Option.map_some, need, ElementAddress.store, ArrayView.szIndex?,
        if_pos (h.sz view found), elementIndex?_eq_some_iff.2 rfl]

/-- A store is a write whose answer is not looked at. -/
theorem perform_arrayStore {i : UInt32} (h : Addresses c k place i.toNat) (v : Value) :
    c.perform (.arrayStore place i.toNat v) =
      (c.perform (.arrayWrite place i v)).map fun done => (.flag true, done.2) := by
  simp only [Caller.perform]
  cases found : c.arrays.at? place with
  | none => rfl
  | some view =>
      simp only [need, observe, evaluate, ArrayView.store, ArrayView.szIndex?,
        if_pos (h.sz view found), elementIndex?_eq_some_iff.2 rfl, Eval.runIn_bind]
      rcases (view.write i v).runIn c.world with ⟨_ | _, world⟩ <;> rfl

end Addresses

theorem addresses_perform (done : c.perform (.arrayAddress place index) = .ok (.flag true, d)) :
    Addresses d c.addresses.length place index ∧ ∃ i : UInt32, index = i.toNat := by
  obtain ⟨view, found, done⟩ := need_ok done
  cases made : view.address? index with
  | none =>
      rw [made] at done
      cases done
  | some address =>
      rw [made] at done
      cases done
      obtain ⟨rfl, sz, window⟩ := ArrayView.address?_eq_some_iff.1 made
      refine ⟨⟨?_, Shelf.lt_length_of_at? found, ?_⟩, window⟩
      · rw [List.getElem?_append_right (Nat.le_refl _), Nat.sub_self]
        rfl
      · intro other there
        cases found.symm.trans there
        exact sz

/-- All ways to an element agree at the time of use, however long ago its address was taken and
whatever was done since. To load and to read by the address is to load and to read from the array;
to store by the address is to write, and to store to the array is to write and answer true. A read
finds something exactly where a load does, the value loaded is that of the handle read, and neither
changes an object. -/
theorem access_agrees {c₀ c₁ c : Caller} {ops : List Operation} {answers : List Answer}
    (taken : c₀.perform (.arrayAddress place index) = .ok (.flag true, c₁))
    (run : c₁.run ops = .ok (answers, c)) :
    ∃ i : UInt32, index = i.toNat ∧
      c.perform (.addressLoad c₀.addresses.length) = c.perform (.arrayLoad place index) ∧
      c.perform (.addressRead c₀.addresses.length) = c.perform (.arrayRead place index) ∧
      (∀ v, c.perform (.addressStore c₀.addresses.length v) = c.perform (.arrayWrite place i v) ∧
        c.perform (.arrayStore place index v) =
          (c.perform (.arrayWrite place i v)).map fun done => (.flag true, done.2)) ∧
      (∀ v answer d, c.perform (.arrayWrite place i v) = .ok (answer, d) →
        ∃ written, answer = .flag written) ∧
      ∀ read loaded d e, c.perform (.arrayRead place index) = .ok (read, d) →
        c.perform (.arrayLoad place index) = .ok (loaded, e) →
        ∃ found value, read = .handle found ∧ loaded = .value value ∧
          value.map some = found.map Handle.value? ∧
          d.world.heap = c.world.heap ∧ e.world.heap = c.world.heap := by
  obtain ⟨fresh, i, rfl⟩ := addresses_perform taken
  have good := fresh.run run
  refine ⟨i, rfl, good.perform_addressLoad, good.perform_addressRead, fun v =>
    ⟨good.perform_addressStore v, good.perform_arrayStore v⟩, ?_, ?_⟩
  · intro v answer d written
    obtain ⟨view, -, done⟩ := need_ok written
    obtain ⟨flag, world, -, same⟩ := evaluate_ok done
    cases same
    exact ⟨flag, rfl⟩
  · intro read loaded d e reading loading
    obtain ⟨view, there, reads⟩ := need_ok reading
    obtain ⟨other, here, loads⟩ := need_ok loading
    cases there.symm.trans here
    obtain ⟨found, world, ranRead, same⟩ := evaluate_ok reads
    obtain ⟨value, world', ranLoad, same'⟩ := evaluate_ok loads
    obtain ⟨agree, unread, unloaded⟩ :=
      ArrayView.read_load_ok (good.sz view there) ranRead ranLoad
    cases same'
    cases found <;> cases same
    · exact ⟨none, value, rfl, rfl, agree, unread, unloaded⟩
    · exact ⟨_, value, rfl, rfl, agree, unread, unloaded⟩

/-- A caller with one array of two elements. -/
def oneArray : Caller where
  world := { heap := [⟨.szArray (.primitive .bool), [.null, .value (.bool true)]⟩] }
  arrays := [some ⟨⟨.reference 0, .szArray (.primitive .bool)⟩, true, .uninitialized⟩]

/-- The second element was cut off and is back, and the length was asked for in between. -/
def oneArrayLater : Caller where
  world :=
    { heap := [⟨.szArray (.primitive .bool), [.null, .null]⟩]
      stats := { issued := 1, released := 1, dereferences := 1, lengthQueries := 1 } }
  arrays := [some ⟨⟨.reference 0, .szArray (.primitive .bool)⟩, true, .known 1⟩]
  addresses := [⟨0, 1⟩]

/-- An address that was taken before finds the null that the element has become. -/
theorem access_agrees_oneArray :
    ∃ c₁ answers,
      oneArray.perform (.arrayAddress 0 1) = .ok (.flag true, c₁) ∧
      c₁.run [.resize 0 1, .arrayLength 0, .resize 0 2] = .ok (answers, oneArrayLater) ∧
      oneArrayLater.perform (.addressLoad 0) = oneArrayLater.perform (.arrayLoad 0 1) ∧
      oneArrayLater.perform (.addressRead 0) = oneArrayLater.perform (.arrayRead 0 1) ∧
      ∃ read loaded d e, oneArrayLater.perform (.arrayRead 0 1) = .ok (read, d) ∧
        oneArrayLater.perform (.arrayLoad 0 1) = .ok (loaded, e) ∧
        read = .handle (some ⟨.null, .primitive .bool⟩) ∧
        loaded = .value (some (.null "bool")) ∧
        d.world.heap = oneArrayLater.world.heap ∧ e.world.heap = oneArrayLater.world.heap := by
  have taken : oneArray.perform (.arrayAddress 0 1) =
      .ok (.flag true, { oneArray with addresses := [⟨0, 1⟩] }) := rfl
  have run : ({ oneArray with addresses := [⟨0, 1⟩] } : Caller).run
      [.resize 0 1, .arrayLength 0, .resize 0 2] =
      .ok ([.nothing, .count (some 1), .nothing], oneArrayLater) := rfl
  obtain ⟨i, -, byLoad, byRead, -, -, agree⟩ := access_agrees taken run
  refine ⟨_, _, taken, run, byLoad, byRead, _, _, _, _, rfl, rfl, rfl, rfl, ?_⟩
  obtain ⟨found, value, -, -, -, kept⟩ := agree _ _ _ _ rfl rfl
  exact kept

end Caller

end DebugArrays
