import DebugArrays.Proofs.Heap.Sound
import DebugArrays.World.Evaluation
import Mathlib.Data.List.Forall2

/-!
Which snapshots are loaded, as what, and why the others are refused. A well-formed snapshot becomes
one more object, with a slot for each of its elements; any other leaves the world alone, and its
error is the first that applies.
-/
namespace DebugArrays

/-- The slot that stands for an element in an array of `p`. -/
inductive Slot.Reads (p : Primitive) (element : Document) : Slot → Prop
  | null (isNull : element.tree = .null) : Reads p element .null
  | value {v : Value} (decoded : Value.ofJson? element.tree p = some v) : Reads p element (.value v)

/-- A null, or what `p` can hold. -/
def Document.IsElement (element : Document) (p : Primitive) : Prop :=
  element.tree = .null ∨ ∃ v, Value.ofJson? element.tree p = some v

namespace ArraySnapshot

structure WellFormed (s : ArraySnapshot) (p : Primitive) : Prop where
  known : Primitive.ofName? s.elementType = some p
  ranked : s.rank ≠ 0
  filled : 1 < s.rank.toNat → s.rank.toNat ∣ s.elements.length
  elements : ∀ element ∈ s.elements, element.IsElement p

/-- What is wrong with a snapshot in which nothing that is looked at earlier is wrong. -/
inductive FirstFault (s : ArraySnapshot) : SnapshotError → Prop
  | unknown (unknown : Primitive.ofName? s.elementType = none) :
      FirstFault s (.unknownElementType s.elementType)
  | rank {p : Primitive} (known : Primitive.ofName? s.elementType = some p) (zero : s.rank = 0) :
      FirstFault s (.invalidRank s.name 0)
  | shape {p : Primitive} (known : Primitive.ofName? s.elementType = some p)
      (several : 1 < s.rank.toNat) (unfilled : ¬s.rank.toNat ∣ s.elements.length) :
      FirstFault s (.shapeMismatch s.name s.elements.length s.rank)
  | element {p : Primitive} {before after : List Document} {element : Document}
      (known : Primitive.ofName? s.elementType = some p) (ranked : s.rank ≠ 0)
      (filled : 1 < s.rank.toNat → s.rank.toNat ∣ s.elements.length)
      (split : s.elements = before ++ element :: after)
      (good : ∀ earlier ∈ before, earlier.IsElement p) (bad : ¬element.IsElement p) :
      FirstFault s (.elementMismatch s.name before.length p element)

def arrayType (s : ArraySnapshot) (p : Primitive) : DebugType :=
  if s.rank = 1 then .szArray (.primitive p) else .mdArray (.primitive p) s.rank

end ArraySnapshot

namespace Slot

variable {p : Primitive} {element : Document} {slot : Slot}

theorem ofDocument?_eq_some_iff : ofDocument? p element = some slot ↔ slot.Reads p element := by
  unfold ofDocument?
  constructor
  · intro read
    split at read
    · next null =>
      cases read
      refine .null ?_
      cases tree : element.tree <;> first | rfl | (rw [tree] at null; cases null)
    · obtain ⟨v, decoded, rfl⟩ := Option.map_eq_some_iff.1 read
      exact .value decoded
  · intro reads
    cases reads with
    | null isNull =>
        rw [isNull]
        rfl
    | value decoded =>
        cases null : element.tree.isNull with
        | true =>
            rw [Value.ofJson?_of_isNull null] at decoded
            cases decoded
        | false =>
            rw [if_neg (by decide), decoded]
            rfl

theorem exists_reads_iff : (∃ slot : Slot, slot.Reads p element) ↔ element.IsElement p := by
  constructor
  · rintro ⟨slot, isNull | decoded⟩
    · exact .inl isNull
    · exact .inr ⟨_, decoded⟩
  · rintro (isNull | ⟨v, decoded⟩)
    · exact ⟨_, .null isNull⟩
    · exact ⟨_, .value decoded⟩

theorem Reads.holds (reads : slot.Reads p element) : slot.Holds p := by
  cases reads with
  | null => trivial
  | value decoded =>
      exact ⟨Value.primitive?_of_ofJson? decoded, Value.isFinite_of_ofJson? decoded⟩

theorem ofDocument?_eq_none_iff : ofDocument? p element = none ↔ ¬element.IsElement p := by
  rw [← exists_reads_iff, Option.eq_none_iff_forall_ne_some, not_exists]
  exact forall_congr' fun slot => not_congr ofDocument?_eq_some_iff

end Slot

namespace Shape

/-- What the ranks stand for: none for zero, a vector for one, and a grid for every other. -/
theorem ofRank?_cases (rank : UInt32) :
    (rank = 0 ∧ ofRank? rank = none) ∨ (rank = 1 ∧ ofRank? rank = some .vector) ∨
      ∃ several : 1 < rank.toNat, ofRank? rank = some (.grid rank several) := by
  unfold ofRank?
  by_cases several : 1 < rank.toNat
  · exact .inr (.inr ⟨several, dif_pos several⟩)
  · by_cases one : rank = 1
    · exact .inr (.inl ⟨one, by rw [dif_neg several, if_pos one]⟩)
    · refine .inl ⟨?_, by rw [dif_neg several, if_neg one]⟩
      rw [← UInt32.toNat_inj] at one ⊢
      have : rank.toNat ≠ 1 := one
      show rank.toNat = 0
      omega

variable {rank : UInt32} {shape : Shape}

theorem holds_iff (ranked : ofRank? rank = some shape) (length : Nat) :
    shape.holds length = true ↔ (1 < rank.toNat → rank.toNat ∣ length) := by
  obtain ⟨-, other⟩ | ⟨rfl, vector⟩ | ⟨several, grid⟩ := ofRank?_cases rank
  · cases other.symm.trans ranked
  · cases vector.symm.trans ranked
    exact iff_of_true rfl fun several => absurd several (by decide)
  · cases grid.symm.trans ranked
    rw [holds, beq_iff_eq, ← Nat.dvd_iff_mod_eq_zero]
    exact ⟨fun filled _ => filled, fun filled => filled several⟩

theorem type_eq (ranked : ofRank? rank = some shape) (p : Primitive) :
    shape.type p =
      if rank = 1 then .szArray (.primitive p) else .mdArray (.primitive p) rank := by
  obtain ⟨-, other⟩ | ⟨rfl, vector⟩ | ⟨several, grid⟩ := ofRank?_cases rank
  · cases other.symm.trans ranked
  · cases vector.symm.trans ranked
    rfl
  · cases grid.symm.trans ranked
    rw [if_neg, type]
    rintro rfl
    exact absurd several (by decide)

end Shape

namespace ArraySnapshot

variable {s : ArraySnapshot} {p : Primitive} {array : String} {index : Nat}
  {elements : List Document} {slots : List Slot} {object : HeapObject} {shape : Shape}
  {e : SnapshotError}

theorem readSlots_eq_ok_iff :
    readSlots array p index elements = .ok slots ↔
      List.Forall₂ (Slot.Reads p) elements slots := by
  induction elements generalizing index slots with
  | nil =>
      rw [readSlots, List.forall₂_nil_left_iff, Except.ok.injEq]
      exact eq_comm
  | cons element rest ih =>
      rw [readSlots, List.forall₂_cons_left_iff]
      cases read : Slot.ofDocument? p element with
      | none =>
          refine iff_of_false nofun ?_
          rintro ⟨slot, -, reads, -⟩
          cases read.symm.trans (Slot.ofDocument?_eq_some_iff.2 reads)
      | some slot =>
          constructor
          · intro made
            cases later : readSlots array p (index + 1) rest with
            | error e =>
                rw [later] at made
                cases made
            | ok tail =>
                rw [later] at made
                cases made
                exact ⟨slot, tail, Slot.ofDocument?_eq_some_iff.1 read, ih.1 later, rfl⟩
          · rintro ⟨other, tail, reads, later, rfl⟩
            cases read.symm.trans (Slot.ofDocument?_eq_some_iff.2 reads)
            dsimp only
            rw [ih.2 later]
            rfl

/-- The error names the first element that cannot be read. -/
theorem readSlots_eq_error_iff :
    readSlots array p index elements = .error e ↔
      ∃ before element after, elements = before ++ element :: after ∧
        (∀ earlier ∈ before, earlier.IsElement p) ∧ ¬element.IsElement p ∧
        e = .elementMismatch array (index + before.length) p element := by
  induction elements generalizing index with
  | nil =>
      refine iff_of_false nofun ?_
      rintro ⟨before, element, after, split, -⟩
      simp at split
  | cons first rest ih =>
      rw [readSlots]
      cases read : Slot.ofDocument? p first with
      | none =>
          have bad := Slot.ofDocument?_eq_none_iff.1 read
          constructor
          · intro refused
            cases refused
            exact ⟨[], first, rest, rfl, List.forall_mem_nil _, bad, rfl⟩
          · rintro ⟨before, element, after, split, good, -, rfl⟩
            cases before with
            | nil =>
                cases split
                rfl
            | cons earlier others =>
                cases split
                exact absurd (good first List.mem_cons_self) bad
      | some slot =>
          have fine := Slot.exists_reads_iff.1 ⟨slot, Slot.ofDocument?_eq_some_iff.1 read⟩
          have later : (readSlots array p (index + 1) rest).map (slot :: ·) = .error e ↔
              readSlots array p (index + 1) rest = .error e := by
            cases readSlots array p (index + 1) rest <;> simp [Except.map]
          rw [later, ih]
          constructor
          · rintro ⟨before, element, after, rfl, good, bad, rfl⟩
            refine ⟨first :: before, element, after, rfl, List.forall_mem_cons.2 ⟨fine, good⟩, bad,
              ?_⟩
            rw [List.length_cons, Nat.add_assoc, Nat.add_comm 1]
          · rintro ⟨before, element, after, split, good, bad, rfl⟩
            cases before with
            | nil =>
                cases split
                exact absurd fine bad
            | cons earlier others =>
                cases split
                refine ⟨others, element, after, rfl, (List.forall_mem_cons.1 good).2, bad, ?_⟩
                rw [List.length_cons, Nat.add_assoc, Nat.add_comm 1]

theorem toObject_of_holds (known : Primitive.ofName? s.elementType = some p)
    (ranked : Shape.ofRank? s.rank = some shape) (holds : shape.holds s.elements.length = true) :
    s.toObject = (readSlots s.name p 0 s.elements).map fun slots => ⟨s.arrayType p, slots⟩ := by
  unfold toObject
  simp only [known, ranked, holds, if_true, Shape.type_eq ranked, arrayType]

theorem exists_ofRank? (ranked : s.rank ≠ 0)
    (filled : 1 < s.rank.toNat → s.rank.toNat ∣ s.elements.length) :
    ∃ shape, Shape.ofRank? s.rank = some shape ∧ shape.holds s.elements.length = true := by
  obtain ⟨zero, -⟩ | ⟨-, vector⟩ | ⟨several, grid⟩ := Shape.ofRank?_cases s.rank
  · exact absurd zero ranked
  · exact ⟨_, vector, (Shape.holds_iff vector _).2 filled⟩
  · exact ⟨_, grid, (Shape.holds_iff grid _).2 filled⟩

theorem toObject_of_reads (wellFormed : s.WellFormed p)
    (reads : List.Forall₂ (Slot.Reads p) s.elements slots) :
    s.toObject = .ok ⟨s.arrayType p, slots⟩ := by
  obtain ⟨shape, ranked, holds⟩ := exists_ofRank? wellFormed.ranked wellFormed.filled
  rw [toObject_of_holds wellFormed.known ranked holds, readSlots_eq_ok_iff.2 reads]
  rfl

theorem toObject_of_firstFault (fault : s.FirstFault e) : s.toObject = .error e := by
  cases fault with
  | unknown unknown =>
      unfold toObject
      simp only [unknown]
  | rank known zero =>
      have none : Shape.ofRank? 0 = none := rfl
      unfold toObject
      simp only [known, zero, none]
  | shape known several unfilled =>
      have grid : Shape.ofRank? s.rank = some (.grid s.rank several) := dif_pos several
      have short : (Shape.grid s.rank several).holds s.elements.length = false := by
        rw [← Bool.not_eq_true, Shape.holds_iff grid]
        exact fun filled => unfilled (filled several)
      unfold toObject
      simp only [known, grid, short, Bool.false_eq_true, if_false]
  | element known ranked filled split good bad =>
      obtain ⟨shape, shaped, holds⟩ := exists_ofRank? ranked filled
      have refused : readSlots s.name _ 0 s.elements =
          .error (.elementMismatch s.name (0 + _) _ _) :=
        readSlots_eq_error_iff.2 ⟨_, _, _, split, good, bad, rfl⟩
      rw [toObject_of_holds known shaped holds, refused, Nat.zero_add]
      rfl

theorem exists_slots (good : ∀ element ∈ s.elements, element.IsElement p) :
    ∃ slots, List.Forall₂ (Slot.Reads p) s.elements slots := by
  cases read : readSlots s.name p 0 s.elements with
  | ok slots => exact ⟨slots, readSlots_eq_ok_iff.1 read⟩
  | error e =>
      obtain ⟨before, element, after, split, -, bad, -⟩ := readSlots_eq_error_iff.1 read
      exact absurd (good element (by rw [split]; simp)) bad

theorem firstFault_or_wellFormed (s : ArraySnapshot) :
    (∃ e, s.FirstFault e) ∨ ∃ p, s.WellFormed p := by
  cases known : Primitive.ofName? s.elementType with
  | none => exact .inl ⟨_, .unknown known⟩
  | some p =>
      by_cases ranked : s.rank = 0
      · exact .inl ⟨_, .rank known ranked⟩
      by_cases filled : 1 < s.rank.toNat → s.rank.toNat ∣ s.elements.length
      · by_cases good : ∀ element ∈ s.elements, element.IsElement p
        · exact .inr ⟨p, known, ranked, filled, good⟩
        · cases read : readSlots s.name p 0 s.elements with
          | ok slots =>
              have every : List.Forall₂ (fun element slot => element.IsElement p ∧
                  Slot.Reads p element slot) s.elements slots :=
                (readSlots_eq_ok_iff.1 read).imp fun element slot reads =>
                  ⟨Slot.exists_reads_iff.1 ⟨slot, reads⟩, reads⟩
              exact absurd ((List.forall₂_and_left _ _).1 every).1 good
          | error e =>
              obtain ⟨before, element, after, split, fine, bad, -⟩ :=
                readSlots_eq_error_iff.1 read
              exact .inl ⟨_, .element known ranked filled split fine bad⟩
      · obtain ⟨several, unfilled⟩ := Classical.not_imp.1 filled
        exact .inl ⟨_, .shape known several unfilled⟩

theorem toObject_eq_error_iff : s.toObject = .error e ↔ s.FirstFault e := by
  refine ⟨fun refused => ?_, toObject_of_firstFault⟩
  obtain ⟨other, fault⟩ | ⟨p, wellFormed⟩ := s.firstFault_or_wellFormed
  · cases (toObject_of_firstFault fault).symm.trans refused
    exact fault
  · obtain ⟨slots, reads⟩ := exists_slots wellFormed.elements
    cases (toObject_of_reads wellFormed reads).symm.trans refused

theorem toObject_eq_ok_iff :
    s.toObject = .ok object ↔ ∃ p slots, s.WellFormed p ∧
      List.Forall₂ (Slot.Reads p) s.elements slots ∧ object = ⟨s.arrayType p, slots⟩ := by
  constructor
  · intro made
    obtain ⟨e, fault⟩ | ⟨p, wellFormed⟩ := s.firstFault_or_wellFormed
    · cases (toObject_of_firstFault fault).symm.trans made
    · obtain ⟨slots, reads⟩ := exists_slots wellFormed.elements
      cases (toObject_of_reads wellFormed reads).symm.trans made
      exact ⟨p, slots, wellFormed, reads, rfl⟩
  · rintro ⟨p, slots, wellFormed, reads, rfl⟩
    exact toObject_of_reads wellFormed reads

theorem arrayType_cases (ranked : s.rank ≠ 0) (p : Primitive) :
    s.arrayType p = .szArray (.primitive p) ∨
      1 < s.rank.toNat ∧ s.arrayType p = .mdArray (.primitive p) s.rank := by
  unfold arrayType
  obtain ⟨zero, -⟩ | ⟨one, -⟩ | ⟨several, -⟩ := Shape.ofRank?_cases s.rank
  · exact absurd zero ranked
  · exact .inl (if_pos one)
  · refine .inr ⟨several, if_neg fun one => ?_⟩
    rw [one] at several
    exact absurd several (by decide)

theorem holds_of_reads (reads : List.Forall₂ (Slot.Reads p) elements slots) :
    ∀ slot ∈ slots, slot.Holds p := by
  induction reads with
  | nil => exact List.forall_mem_nil _
  | cons first _ ih => exact List.forall_mem_cons.2 ⟨first.holds, ih⟩

theorem sound_of_toObject (h : s.toObject = .ok object) : ∃ p, object.Sound p := by
  obtain ⟨p, slots, wellFormed, reads, rfl⟩ := toObject_eq_ok_iff.1 h
  refine ⟨p, ?_, holds_of_reads reads, ?_⟩
  · obtain vector | ⟨several, grid⟩ := arrayType_cases wellFormed.ranked p
    · exact vector ▸ .vector
    · exact grid ▸ .grid s.rank several
  · intro element rank shape
    dsimp only at shape ⊢
    obtain vector | ⟨several, grid⟩ := arrayType_cases wellFormed.ranked p
    · cases vector.symm.trans shape
    · cases grid.symm.trans shape
      rw [← reads.length_eq]
      exact wellFormed.filled several

theorem isArray_of_toObject (h : s.toObject = .ok object) : object.type.isArray = true := by
  obtain ⟨p, sound⟩ := sound_of_toObject h
  exact sound.type.isArray

theorem withoutByRef_of_toObject (h : s.toObject = .ok object) :
    object.type.withoutByRef = object.type := by
  obtain ⟨p, sound⟩ := sound_of_toObject h
  exact sound.type.withoutByRef

theorem runIn_load_of_object (made : s.toObject = .ok object) (w : World) :
    (Eval.load s).runIn w = (.ok (.ok w.heap.length), { w with heap := w.heap ++ [object] }) := by
  have array := isArray_of_toObject made
  unfold Eval.load
  rw [made]
  simp only [Eval.alloc, array, Eval.runIn_bind, Eval.runIn_check, Eval.runIn_get, Eval.runIn_set,
    Eval.runIn_pure, if_true]

theorem load_of_error (refused : s.toObject = .error e) : Eval.load s = pure (.error e) := by
  unfold Eval.load
  rw [refused]

end ArraySnapshot

namespace Eval

variable {s : ArraySnapshot} {w u : World} {id : ObjectId} {e : SnapshotError}

theorem runIn_load_eq_ok_iff :
    (load s).runIn w = (.ok (.ok id), u) ↔ ∃ object, s.toObject = .ok object ∧
      id = w.heap.length ∧ u = { w with heap := w.heap ++ [object] } := by
  cases made : s.toObject with
  | ok object =>
      rw [ArraySnapshot.runIn_load_of_object made]
      constructor
      · rintro ⟨⟩
        exact ⟨object, rfl, rfl, rfl⟩
      · rintro ⟨other, ⟨⟩, rfl, rfl⟩
        rfl
  | error e =>
      rw [ArraySnapshot.load_of_error made, runIn_pure]
      exact iff_of_false nofun nofun

theorem runIn_load_eq_error_iff :
    (load s).runIn w = (.ok (.error e), u) ↔ s.toObject = .error e ∧ u = w := by
  cases made : s.toObject with
  | ok object =>
      rw [ArraySnapshot.runIn_load_of_object made]
      exact iff_of_false nofun nofun
  | error other =>
      rw [ArraySnapshot.load_of_error made, runIn_pure]
      constructor
      · rintro ⟨⟩
        exact ⟨rfl, rfl⟩
      · rintro ⟨⟨⟩, rfl⟩
        rfl

theorem runIn_load_ne_fault (fault : Fault) : (load s).runIn w ≠ (.error fault, u) := by
  cases made : s.toObject with
  | ok object =>
      rw [ArraySnapshot.runIn_load_of_object made]
      nofun
  | error other =>
      rw [ArraySnapshot.load_of_error made, runIn_pure]
      nofun

/-- Loading takes the well-formed snapshots and no others, and it is atomic. A snapshot that is taken
becomes one more object, of the type that element type and rank say, with a slot for each element in
their order; nothing else changes. Any other changes nothing, and the error is its first fault. -/
theorem load_exact (s : ArraySnapshot) (w : World) :
    ((∃ id u, (load s).runIn w = (.ok (.ok id), u)) ↔ ∃ p, s.WellFormed p) ∧
      (∀ id u, (load s).runIn w = (.ok (.ok id), u) ↔
        ∃ p slots, s.WellFormed p ∧ List.Forall₂ (Slot.Reads p) s.elements slots ∧
          id = w.heap.length ∧ u = { w with heap := w.heap ++ [⟨s.arrayType p, slots⟩] }) ∧
      (∀ e u, (load s).runIn w = (.ok (.error e), u) ↔ s.FirstFault e ∧ u = w) ∧
      ∀ fault u, (load s).runIn w ≠ (.error fault, u) := by
  have taken : ∀ id u, (load s).runIn w = (.ok (.ok id), u) ↔
      ∃ p slots, s.WellFormed p ∧ List.Forall₂ (Slot.Reads p) s.elements slots ∧
        id = w.heap.length ∧ u = { w with heap := w.heap ++ [⟨s.arrayType p, slots⟩] } := by
    intro id u
    rw [runIn_load_eq_ok_iff]
    constructor
    · rintro ⟨object, made, counted, left⟩
      obtain ⟨p, slots, wellFormed, reads, rfl⟩ := ArraySnapshot.toObject_eq_ok_iff.1 made
      exact ⟨p, slots, wellFormed, reads, counted, left⟩
    · rintro ⟨p, slots, wellFormed, reads, counted, left⟩
      exact ⟨_, ArraySnapshot.toObject_of_reads wellFormed reads, counted, left⟩
  refine ⟨⟨?_, ?_⟩, taken, ?_, fun fault u => runIn_load_ne_fault fault⟩
  · rintro ⟨id, u, run⟩
    obtain ⟨p, slots, wellFormed, -⟩ := (taken id u).1 run
    exact ⟨p, wellFormed⟩
  · rintro ⟨p, wellFormed⟩
    obtain ⟨slots, reads⟩ := ArraySnapshot.exists_slots wellFormed.elements
    exact ⟨_, _, (taken _ _).2 ⟨p, slots, wellFormed, reads, rfl, rfl⟩⟩
  · intro e u
    rw [runIn_load_eq_error_iff, ArraySnapshot.toObject_eq_error_iff]

end Eval

end DebugArrays
