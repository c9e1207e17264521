import DebugArrays.Proofs.Array.Length
import DebugArrays.Proofs.Array.Mirror
import DebugArrays.Proofs.Caller.Basic

/-!
A reference to an array and the array object are interchangeable. Two callers that differ only in
how their array is held get the same answers from all that is done to the array and to the heap; the
one with the reference pays for the scopes in which it is followed.
-/
namespace DebugArrays

namespace Operation

/-- What is done to an array, its elements' addresses and the heap, as long as the object with an id
keeps its type. -/
def isShared (id : ObjectId) : Operation → Bool
  | .alloc _ _ | .load _ | .setSlot _ _ _ | .resize _ _ => true
  | .retype other _ => other != id
  | .arrayRead _ _ | .arrayLoad _ _ | .arrayStore _ _ _ | .arrayWrite _ _ _ => true
  | .arrayLength _ | .arrayAddress _ _ => true
  | .addressRead _ | .addressLoad _ | .addressStore _ _ => true
  | _ => false

end Operation

namespace Eval

variable {id : ObjectId} {type : DebugType}

theorem mirrors_modifyHeap (f : Heap → Heap)
    (kept : ∀ heap : Heap, (heap.object? id).map HeapObject.type = some type →
      ((f heap).object? id).map HeapObject.type = some type) :
    Mirrors id type 0 (modify fun w => { w with heap := f w.heap })
      (modify fun w => { w with heap := f w.heap }) :=
  mirrors_changeHeap f (fun _ => PUnit.unit) kept

theorem mirrors_alloc (other : DebugType) (slots : List Slot) :
    Mirrors id type 0 (alloc other slots) (alloc other slots) := by
  unfold alloc
  cases array : other.isArray with
  | false => exact Mirrors.throw .assertion
  | true =>
      refine mirrors_changeHeap (fun heap => heap ++ [⟨other, slots⟩]) List.length
        fun heap typed => ?_
      obtain ⟨object, there, same⟩ := Option.map_eq_some_iff.1 typed
      rw [Heap.object?_concat there, Option.map_some, same]

theorem mirrors_load (s : ArraySnapshot) : Mirrors id type 0 (load s) (load s) := by
  unfold load
  cases s.toObject with
  | error e => exact .pure _
  | ok object => exact (mirrors_alloc _ _).bind fun made => .pure _

end Eval

namespace Caller

open Eval ArrayView.Pair

variable {α ρ : Type} {id : ObjectId} {type : DebugType} {c d : Caller} {k cost : Nat}

/-- The callers have the same but for the handle behind their one array, and for what `k` scopes
have cost. -/
structure Twin (id : ObjectId) (type : DebugType) (k : Nat) (c d : Caller) : Prop where
  world : c.world.Twin (.scopes k) d.world
  offers : d.world.Offers id type
  hands : c.hands = d.hands
  addresses : c.addresses = d.addresses
  arrays : ∃ r o, ArrayView.Pair id type r o ∧ c.arrays = [some r] ∧ d.arrays = [some o]

/-- As for steps, two ways for callers to go on side by side. -/
inductive Abreast (id : ObjectId) (type : DebugType) (cost : Nat) (c d : Caller) :
    Except Refusal (ρ × Caller) → Except Refusal (ρ × Caller) → Prop where
  | done {a : ρ} {c' d' : Caller} (k : Nat) (twin : Twin id type k c' d')
    (direct : d'.world.stats.dereferences = d.world.stats.dereferences)
    (bounded : ∀ n, c.world.stats.tally.Within n → c'.world.stats.tally.Within (n + cost)) :
    Abreast id type cost c d (.ok (a, c')) (.ok (a, d'))
  | refused (refusal : Refusal) : Abreast id type cost c d (.error refusal) (.error refusal)
  | full {other : Except Refusal (ρ × Caller)}
    (little : ∀ n, c.world.stats.tally.Within n → 2 ^ 64 ≤ n + cost) :
    Abreast id type cost c d (.error (.fault .overflow)) other

/-- Two outcomes go on side by side, whatever worlds faults leave. -/
abbrev SideBySide (id : ObjectId) (type : DebugType) (cost : Nat) (c d : Caller)
    (left right : Outcome) : Prop :=
  Abreast id type cost c d (left.mapError Stop.refusal) (right.mapError Stop.refusal)

theorem need_map {β : Type} (f : α → β) (found : Option α) (next : β → Outcome) :
    need (found.map f) next = need found fun a => next (f a) := by
  cases found <;> rfl

theorem evaluate_map {β : Type} (f : α → β) (step : Eval α)
    (next : β → Caller → Answer × Caller) :
    c.evaluate (f <$> step) next = c.evaluate step fun a => next (f a) := by
  unfold evaluate
  rw [runIn_map]
  rcases step.runIn c.world with ⟨fault | a, world⟩ <;> rfl

namespace Twin

theorem evaluate (twin : Twin id type k c d) {f g : Eval α} (mirrors : Mirrors id type cost f g)
    {next other : α → Caller → Answer × Caller}
    (same : ∀ a k c d, Twin id type k c d → (next a c).1 = (other a d).1 ∧
      Twin id type k (next a c).2 (other a d).2 ∧ (next a c).2.world = c.world ∧
      (other a d).2.world = d.world) :
    SideBySide id type cost c d (c.evaluate f next) (d.evaluate g other) := by
  have both := mirrors twin.world twin.offers
  unfold Caller.evaluate
  generalize f.runIn c.world = first at both ⊢
  generalize g.runIn d.world = second at both ⊢
  cases both with
  | failed fault => exact .refused (.fault fault)
  | full little => exact .full little
  | done j after offers direct bounded =>
      rename_i a w v
      have now : Twin id type (k + j) { c with world := w } { d with world := v } :=
        ⟨by rwa [Tally.scopes_add], offers, twin.hands, twin.addresses, twin.arrays⟩
      obtain ⟨answer, later, left, right⟩ := same a _ _ _ now
      dsimp only
      rw [← Prod.mk.eta (p := next a { c with world := w }), answer]
      refine .done (k + j) later ?_ ?_
      · rw [right]
        exact direct
      · rw [left]
        exact bounded

theorem observe (twin : Twin id type k c d) {f g : Eval α} (mirrors : Mirrors id type cost f g)
    (answer : α → Answer) :
    SideBySide id type cost c d (c.observe f answer) (d.observe g answer) :=
  twin.evaluate mirrors fun _ _ _ _ now => ⟨rfl, now, rfl, rfl⟩

theorem gain (twin : Twin id type k c d) {f g : Eval (Option Handle)}
    (mirrors : Mirrors id type cost f g) :
    SideBySide id type cost c d (c.gain f) (d.gain g) := by
  refine twin.evaluate mirrors fun found k c d now => ?_
  cases found with
  | none => exact ⟨rfl, now, rfl, rfl⟩
  | some h =>
      refine ⟨rfl, ⟨now.world, now.offers, ?_, now.addresses, now.arrays⟩, rfl, rfl⟩
      exact congrArg (Shelf.put · h) now.hands

theorem changeHeap (twin : Twin id type k c d) (f : Heap → Heap)
    (kept : ∀ heap : Heap, (heap.object? id).map HeapObject.type = some type →
      ((f heap).object? id).map HeapObject.type = some type) :
    SideBySide id type room c d (c.change fun w => { w with heap := f w.heap })
      (d.change fun w => { w with heap := f w.heap }) :=
  twin.observe ((mirrors_modifyHeap f kept).mono (Nat.zero_le _)) _

/-- Both have their array at the first place, and none elsewhere. -/
theorem need_array (twin : Twin id type k c d) (i : Nat) {next other : ArrayView → Outcome}
    (both : ∀ r o, ArrayView.Pair id type r o → i = 0 →
      SideBySide id type cost c d (next r) (other o)) :
    SideBySide id type cost c d (need (c.arrays.at? i) next) (need (d.arrays.at? i) other) := by
  obtain ⟨r, o, pair, left, right⟩ := twin.arrays
  rw [left, right]
  cases i with
  | zero => exact both r o pair rfl
  | succ i => exact .refused .missing

theorem need_address (twin : Twin id type k c d) (i : Nat) {next other : ElementAddress → Outcome}
    (both : ∀ r o index, ArrayView.Pair id type r o →
      SideBySide id type cost c d (next ⟨r, index⟩) (other ⟨o, index⟩)) :
    SideBySide id type cost c d (need (c.address? i) next) (need (d.address? i) other) := by
  unfold address?
  rw [twin.addresses]
  cases d.addresses[i]? with
  | none => exact .refused .missing
  | some placed =>
      rw [Option.bind_some, Option.bind_some, need_map, need_map]
      exact twin.need_array placed.place fun r o pair _ => both r o placed.index pair

theorem replace (twin : Twin id type k c d) {r o : ArrayView}
    (pair : ArrayView.Pair id type r o) :
    Twin id type k { c with arrays := c.arrays.replace 0 r }
      { d with arrays := d.arrays.replace 0 o } := by
  obtain ⟨_, _, -, left, right⟩ := twin.arrays
  refine ⟨twin.world, twin.offers, twin.hands, twin.addresses, r, o, pair, ?_, ?_⟩
  · rw [left]
    rfl
  · rw [right]
    rfl

/-- The array is asked for its length in both, or neither time. -/
theorem length (twin : Twin id type k c d) (array : type.isArray = true) (i : Nat) :
    SideBySide id type room c d (c.perform (.arrayLength i)) (d.perform (.arrayLength i)) := by
  refine twin.need_array i fun r o pair first => ?_
  subst first
  by_cases unasked : o.cache = .uninitialized
  · rw [ArrayView.length_of_uninitialized (pair.cache.trans unasked),
      ArrayView.length_of_uninitialized unasked, evaluate_map, evaluate_map]
    exact twin.evaluate (pair.queryLength array) fun cache _ _ _ now =>
      ⟨rfl, now.replace (pair.withCache cache), rfl, rfl⟩
  · have asked : r.cache ≠ .uninitialized := pair.cache ▸ unasked
    unfold Caller.evaluate
    rw [ArrayView.runIn_length_of_ne_uninitialized asked,
      ArrayView.runIn_length_of_ne_uninitialized unasked, pair.cache]
    exact .done k (twin.replace pair) rfl fun n held => held.mono (Nat.le_add_right n _)

theorem perform (twin : Twin id type k c d) (array : type.isArray = true) {op : Operation}
    (shared : op.isShared id = true) :
    SideBySide id type room c d (c.perform op) (d.perform op) := by
  cases op with
  | alloc other slots => exact twin.observe ((mirrors_alloc other slots).mono (by decide)) _
  | load s => exact twin.observe ((mirrors_load s).mono (by decide)) _
  | setSlot other index slot =>
      refine twin.observe (Mirrors.mono (Nat.zero_le _) (mirrors_changeHeap
        (fun heap => heap.setSlot other index slot) (fun heap => heap.hasSlot other index)
        fun heap typed => ?_)) _
      exact (heap.map_type_setSlot other id index slot).trans typed
  | resize other length =>
      exact twin.changeHeap (fun heap => heap.resize other length) fun heap typed =>
        (heap.map_type_resize other id length).trans typed
  | retype other newType =>
      refine twin.changeHeap (fun heap => heap.retype other newType) fun heap typed => ?_
      rwa [Heap.object?_retype_of_ne (bne_iff_ne.1 shared)]
  | arrayRead i index =>
      exact twin.need_array i fun r o pair _ => twin.gain (pair.read array index)
  | arrayLoad i index =>
      exact twin.need_array i fun r o pair _ => twin.observe (pair.load array index) _
  | arrayStore i index v =>
      exact twin.need_array i fun r o pair _ => twin.observe (pair.store array index v) _
  | arrayWrite i index v =>
      exact twin.need_array i fun r o pair _ =>
        twin.observe ((pair.write array index v).mono (by decide)) _
  | arrayLength i => exact twin.length array i
  | arrayAddress i index =>
      refine twin.need_array i fun r o pair _ => ?_
      unfold ArrayView.address?
      rw [pair.szIndex?]
      have free : ∀ n, c.world.stats.tally.Within n → c.world.stats.tally.Within (n + room) :=
        fun n held => held.mono (Nat.le_add_right n _)
      cases o.szIndex? index with
      | none => exact .done k twin rfl free
      | some _ =>
          refine .done k ⟨twin.world, twin.offers, twin.hands, ?_, twin.arrays⟩ rfl free
          exact congrArg (· ++ _) twin.addresses
  | addressRead i =>
      exact twin.need_address i fun r o index pair => twin.gain (pair.addressRead array index)
  | addressLoad i =>
      exact twin.need_address i fun r o index pair => twin.observe (pair.load array index) _
  | addressStore i v =>
      exact twin.need_address i fun r o index pair =>
        twin.observe (pair.addressStore array index v) _
  | _ => cases shared

end Twin

/-- Side by side through any number of operations. -/
theorem abreast_run (twin : Twin id type k c d) (array : type.isArray = true)
    {ops : List Operation} (shared : ∀ op ∈ ops, op.isShared id = true) :
    Abreast id type (room * ops.length) c d (c.run ops) (d.run ops) := by
  induction ops generalizing c d k with
  | nil => exact .done k twin rfl fun n held => held
  | cons op rest ih =>
      rw [List.forall_mem_cons] at shared
      have first := twin.perform array shared.1
      unfold SideBySide at first
      unfold run
      generalize (c.perform op).mapError Stop.refusal = one at first ⊢
      generalize (d.perform op).mapError Stop.refusal = two at first ⊢
      cases first with
      | refused refusal => exact .refused refusal
      | full little =>
          refine .full fun n held => Nat.le_trans (little n held) ?_
          rw [List.length_cons, Nat.mul_succ]
          omega
      | done j after direct bounded =>
          rename_i answer c' d'
          have later := ih after shared.2
          simp only [bind, Except.bind]
          generalize c'.run rest = three at later ⊢
          generalize d'.run rest = four at later ⊢
          have cost : ∀ n, n + room + room * rest.length = n + room * (op :: rest).length := by
            intro n
            rw [List.length_cons, Nat.mul_succ]
            omega
          cases later with
          | refused refusal => exact .refused refusal
          | full little =>
              refine .full fun n held => ?_
              rw [← cost]
              exact little _ (bounded n held)
          | done i last direct' bounded' =>
              refine .done i last (direct'.trans direct) fun n held => ?_
              rw [← cost]
              exact bounded' _ (bounded n held)

/-- Who takes a handle and wraps it has one array and nothing else. -/
theorem run_wrap_ok {w : World} {op : Operation} {step : Eval Handle} {h : Handle}
    {answers : List Answer}
    (taking : ({ world := w } : Caller).perform op = ({ world := w } : Caller).gain (some <$> step))
    (settles : step.Settles w (.ofEvent .issue) h w)
    (ran : ({ world := w } : Caller).run [op, .wrap 0] = .ok (answers, c)) :
    c = { world := { w with stats := c.world.stats }
          hands := [none]
          arrays := [some ⟨h, h.type.withoutByRef.isSzArray, .uninitialized⟩] } ∧
      c.world.stats.tally = w.stats.tally + .ofEvent .issue := by
  obtain ⟨answer, c₁, _, first, rest, -⟩ := run_cons_ok ran
  obtain ⟨_, c₂, _, second, last, -⟩ := run_cons_ok rest
  rw [taking] at first
  obtain ⟨found, v, gained, same⟩ := evaluate_ok first
  obtain ⟨h', taken, rfl⟩ := runIn_map_ok gained
  obtain ⟨rfl, kept, paid⟩ := settles.of_ok taken
  cases same
  simp only [perform, spend] at second
  obtain ⟨_, held, wrapping⟩ := need_ok second
  cases held
  obtain ⟨view, u, wrapped, same⟩ := evaluate_ok wrapping
  obtain ⟨rfl, rfl⟩ := ArrayView.ofHandle_ok wrapped
  cases same
  cases last
  exact ⟨by rw [← kept]; rfl, paid⟩

/-- Nobody can tell the callers apart, unless by the ledger: the first has issued and given back as
many handles more as it made dereferences since `w`, and the second made none. -/
structure SameButScopes (w : World) (c d : Caller) : Prop where
  heap : c.world.heap = d.world.heap
  recorded : c.world.recorded = d.world.recorded
  hands : c.hands = d.hands
  addresses : c.addresses = d.addresses
  caches : c.arrays.map (Option.map ArrayView.cache) = d.arrays.map (Option.map ArrayView.cache)
  elementReads : c.world.stats.elementReads = d.world.stats.elementReads
  lengthQueries : c.world.stats.lengthQueries = d.world.stats.lengthQueries
  live : c.world.stats.live = d.world.stats.live
  direct : d.world.stats.dereferences = w.stats.dereferences
  scopes : ∃ k, c.world.stats.dereferences.toNat = w.stats.dereferences.toNat + k ∧
    c.world.stats.issued.toNat = d.world.stats.issued.toNat + k ∧
    c.world.stats.released.toNat = d.world.stats.released.toNat + k

theorem Twin.sameButScopes (twin : Twin id type k c d) {w : World}
    (direct : d.world.stats.dereferences = w.stats.dereferences) : SameButScopes w c d := by
  have issued : c.world.stats.issued.toNat = d.world.stats.issued.toNat + k :=
    congrArg Tally.issued twin.world.ledger
  have released : c.world.stats.released.toNat = d.world.stats.released.toNat + k :=
    congrArg Tally.released twin.world.ledger
  have dereferences : c.world.stats.dereferences.toNat = d.world.stats.dereferences.toNat + k :=
    congrArg Tally.dereferences twin.world.ledger
  have elementReads : c.world.stats.elementReads.toNat = d.world.stats.elementReads.toNat :=
    congrArg Tally.elementReads twin.world.ledger
  have lengthQueries : c.world.stats.lengthQueries.toNat = d.world.stats.lengthQueries.toNat :=
    congrArg Tally.lengthQueries twin.world.ledger
  have heap := congrArg World.heap twin.world.core
  have recorded := congrArg World.recorded twin.world.core
  refine ⟨heap, recorded, twin.hands, twin.addresses, ?_, UInt64.toNat_inj.1 elementReads,
    UInt64.toNat_inj.1 lengthQueries, ?_, direct, k, direct ▸ dereferences, issued, released⟩
  · obtain ⟨r, o, pair, left, right⟩ := twin.arrays
    simp [left, right, pair.cache]
  · rw [← UInt64.toNat_inj, HandleStats.toNat_live, HandleStats.toNat_live, issued, released]
    omega

/-- A reference to an array object, also by a managed pointer, and the object are interchangeable.
Whatever is done to the array and the heap, the answers are the same and the worlds stay the same up
to scopes in the ledger. Only a ledger with no room for the scopes can end the one run alone. -/
theorem reference_mirrors_object {w : World} {id : ObjectId} {stored : HeapObject}
    {take : Operation} {first second : List Answer} {c₀ d₀ : Caller} {ops : List Operation}
    (there : w.heap.object? id = some stored) (array : stored.type.isArray = true)
    (followed : w.dereferenceFails = false) (free : w.releaseForbidden = false)
    (taken : take = .reference id ∨ take = .referenceAs id (.byRef stored.type))
    (referenced : ({ world := w } : Caller).run [take, .wrap 0] = .ok (first, c₀))
    (held : ({ world := w } : Caller).run [.object id, .wrap 0] = .ok (second, d₀))
    (shared : ∀ op ∈ ops, op.isShared id = true) :
    (∀ answers c, c₀.run ops = .ok (answers, c) →
      ∃ d, d₀.run ops = .ok (answers, d) ∧ SameButScopes w c d) ∧
    ∀ refusal, c₀.run ops = .error refusal →
      d₀.run ops = .error refusal ∨
        refusal = .fault .overflow ∧
          ∀ n, w.stats.tally.Within n → 2 ^ 64 ≤ n + 1 + 6 * ops.length := by
  have typed : w.heap.typeOf id = stored.type := by
    rw [Heap.typeOf, there]
    rfl
  have plain : stored.type.withoutByRef = stored.type := by
    cases type : stored.type <;> first | rfl | (rw [type] at array; cases array)
  obtain ⟨declared, shape, same, paid⟩ : ∃ declared : DebugType,
      declared.withoutByRef = stored.type ∧
      c₀ = { world := { w with stats := c₀.world.stats }
             hands := [none]
             arrays := [some ⟨⟨.reference id, declared⟩, declared.withoutByRef.isSzArray,
               .uninitialized⟩] } ∧
      c₀.world.stats.tally = w.stats.tally + .ofEvent .issue := by
    obtain rfl | rfl := taken
    · exact ⟨w.heap.typeOf id, typed ▸ plain,
        run_wrap_ok rfl (Handle.settles_reference id w) referenced⟩
    · exact ⟨.byRef stored.type, rfl,
        run_wrap_ok rfl (Handle.settles_issue (.reference id) _ w) referenced⟩
  obtain ⟨same', paid'⟩ := run_wrap_ok rfl (Handle.settles_object id w) held
  have start : Twin id stored.type 0 c₀ d₀ := by
    rw [same, same']
    refine ⟨⟨rfl, ?_⟩, ⟨?_, followed, free⟩, rfl, rfl, _, _, ?_, rfl, rfl⟩
    · exact paid.trans paid'.symm
    · exact congrArg (Option.map HeapObject.type) there
    · exact ⟨rfl, by rw [typed], by rw [typed, shape, plain], rfl⟩
  have untouched : d₀.world.stats.dereferences = w.stats.dereferences :=
    UInt64.toNat_inj.1 (congrArg Tally.dereferences paid')
  have both := abreast_run start array shared
  generalize c₀.run ops = left at both ⊢
  generalize d₀.run ops = right at both ⊢
  cases both with
  | done k twin direct bounded =>
      constructor
      · intro answers c ran
        cases ran
        exact ⟨_, rfl, twin.sameButScopes (direct.trans untouched)⟩
      · intro refusal ran
        cases ran
  | refused refusal =>
      constructor
      · intro answers c ran
        cases ran
      · intro other ran
        cases ran
        exact .inl rfl
  | full little =>
      constructor
      · intro answers c ran
        cases ran
      · intro other ran
        cases ran
        refine .inr ⟨rfl, fun n within => little (n + 1) ?_⟩
        rw [paid]
        exact within.add (Tally.within_ofEvent .issue)

/-- A world with a pair. -/
def pairWorld : World :=
  { heap := [⟨.szArray (.primitive .bool), [.null, .value (.bool true)]⟩] }

/-- Loads, a read, a store, a length and an address of a pair that grows. -/
def pairUses : List Operation :=
  [.arrayLoad 0 1, .arrayRead 0 0, .arrayStore 0 0 (.bool true), .resize 0 3, .arrayLength 0,
    .arrayAddress 0 2, .setSlot 0 2 (.value (.bool false)), .addressLoad 0]

theorem reference_mirrors_object_pair :
    ∃ (first second answers : List Answer) (c₀ d₀ c d : Caller),
      ({ world := pairWorld } : Caller).run
        [.referenceAs 0 (.byRef (.szArray (.primitive .bool))), .wrap 0] = .ok (first, c₀) ∧
      ({ world := pairWorld } : Caller).run [.object 0, .wrap 0] = .ok (second, d₀) ∧
      c₀.run pairUses = .ok (answers, c) ∧ d₀.run pairUses = .ok (answers, d) ∧
      SameButScopes pairWorld c d ∧ c.world.stats.dereferences = 5 ∧
      d.world.stats.dereferences = 0 := by
  have there : pairWorld.heap.object? 0 = some _ := rfl
  obtain ⟨alike, -⟩ := reference_mirrors_object there rfl rfl rfl (.inr rfl) rfl
    rfl (by decide : ∀ op ∈ pairUses, op.isShared 0 = true)
  obtain ⟨d, ran, same⟩ := alike _ _ rfl
  exact ⟨_, _, _, _, _, _, d, rfl, rfl, rfl, ran, same, rfl, same.direct⟩

end Caller

end DebugArrays
