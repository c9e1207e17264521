import DebugArrays.Proofs.Session.Reference
import DebugArrays.Proofs.World.Tally
import Mathlib.Data.Finset.Card

/-!
What requests cost a session. The price of a request depends on the shape of the array alone, and,
for a length, on whether it was asked for before; so the ledger after many requests can be told by
counting them.
-/
namespace DebugArrays

/-- Of an array, what prices depend on. -/
structure Outline where
  byReference : Bool
  element : Primitive
  rank : UInt32
  length : Nat

/-- A use of an element: how the array is held, and whether the element is there. -/
structure Access where
  byReference : Bool
  hit : Bool

/-- The price of reaching an array object and leaving it. -/
def scopePrice (byReference : Bool) : Tally :=
  if byReference then .ofEvent .dereference + .ofEvent .issue + .ofEvent .release else 0

namespace Access

def readPrice (a : Access) : Tally :=
  scopePrice a.byReference +
    (.ofEvent .elementRead + if a.hit then .ofEvent .issue + .ofEvent .release else 0)

def writePrice (a : Access) : Tally :=
  scopePrice a.byReference

end Access

namespace Outline

def ofSnapshot? (byReference : Bool) (s : ArraySnapshot) : Option Outline :=
  (Primitive.ofName? s.elementType).map fun p =>
    { byReference := s.byReference.getD byReference
      element := p
      rank := s.rank
      length := s.elements.length }

def queryPrice (a : Outline) : Tally :=
  if a.rank = 1 then scopePrice a.byReference + .ofEvent .lengthQuery else 0

/-- The access to an element, for an array of rank 1 and an index inside the window. -/
def access? (a : Outline) (index : Int64) : Option Access :=
  if a.rank = 1 then
    (elementIndex? index.toInt).map fun i => ⟨a.byReference, decide (i.toNat < a.length)⟩
  else none

end Outline

namespace Request

def lengthName? : Request → Option String
  | .length name => some name
  | _ => none

/-- The names that were asked for their length, after one more request. -/
def noting (asked : Finset String) : Request → Finset String
  | .length name => insert name asked
  | _ => asked

end Request

abbrev Outlines := String → Option Outline

namespace Outlines

def ofSnapshots (byReference : Bool) (snapshots : List ArraySnapshot) : Outlines :=
  fun name => (lastNamed snapshots name).bind (Outline.ofSnapshot? byReference)

variable (o : Outlines)

def read? : Request → Option Access
  | .element name index => (o name).bind fun a => a.access? index
  | _ => none

/-- The element that a request writes, if its value decodes. -/
def write? : Request → Option Access
  | .store name index value =>
    (o name).bind fun a => (Value.ofJson? value.tree a.element).bind fun _ => a.access? index
  | _ => none

def hasRankOne (name : String) : Bool :=
  (o name).any fun a => a.rank == 1

def isByReference (name : String) : Bool :=
  (o name).any Outline.byReference

/-- The arrays of rank 1 that are asked for their length. -/
def measured (requests : List Request) : Finset String :=
  (requests.filterMap Request.lengthName?).toFinset.filter fun name => o.hasRankOne name

def price (asked : Finset String) : Request → Tally
  | .length name => if name ∈ asked then 0 else (o name).elim 0 Outline.queryPrice
  | r => (o.read? r).elim 0 Access.readPrice + (o.write? r).elim 0 Access.writePrice

/-- All reads, those through a reference, and those that found an element. -/
def reads (requests : List Request) : Nat :=
  requests.countP fun r => (o.read? r).isSome

def readsByReference (requests : List Request) : Nat :=
  requests.countP fun r => (o.read? r).any Access.byReference

def hits (requests : List Request) : Nat :=
  requests.countP fun r => (o.read? r).any Access.hit

def writesByReference (requests : List Request) : Nat :=
  requests.countP fun r => (o.write? r).any Access.byReference

/-- The scopes that requests open, where some lengths are known already. -/
def scopes (asked : Finset String) (requests : List Request) : Nat :=
  o.readsByReference requests + o.writesByReference requests +
    ((o.measured requests \ asked).filter fun name => o.isByReference name).card

def total (asked : Finset String) (requests : List Request) : Tally where
  issued := o.scopes asked requests + o.hits requests
  released := o.scopes asked requests + o.hits requests
  dereferences := o.scopes asked requests
  elementReads := o.reads requests
  lengthQueries := (o.measured requests \ asked).card

variable {o} {asked : Finset String} {rest : List Request}

@[simp] theorem total_nil : o.total asked [] = 0 := by
  simp [total, scopes, reads, readsByReference, hits, writesByReference, measured]
  rfl

theorem measured_cons_length (name : String) :
    o.measured (.length name :: rest) =
      if o.hasRankOne name then insert name (o.measured rest) else o.measured rest := by
  have names : (Request.length name :: rest).filterMap Request.lengthName? =
      name :: rest.filterMap Request.lengthName? := rfl
  unfold measured
  rw [names, List.toFinset_cons, Finset.filter_insert]

theorem not_mem_measured {name : String} (h : o.hasRankOne name = false) :
    name ∉ o.measured rest := by
  unfold measured
  rw [Finset.mem_filter, h]
  exact fun both => nomatch both.2

/-- A length that is known already, or that the array does not have, is not measured. -/
theorem measured_cons_length_of_free {name : String}
    (free : name ∈ asked ∨ o.hasRankOne name = false) :
    o.measured (.length name :: rest) \ asked = o.measured rest \ insert name asked := by
  rw [measured_cons_length]
  cases one : o.hasRankOne name with
  | false =>
      rw [if_neg (by decide), Finset.sdiff_insert_of_notMem (not_mem_measured one)]
  | true =>
      have known : name ∈ asked := free.resolve_right (by simp [one])
      rw [if_pos rfl, Finset.insert_sdiff_of_mem _ known, Finset.insert_eq_of_mem known]

theorem measured_cons_length_of_new {name : String} (new : name ∉ asked)
    (one : o.hasRankOne name = true) :
    o.measured (.length name :: rest) \ asked =
      insert name (o.measured rest \ insert name asked) := by
  rw [measured_cons_length, if_pos one]
  ext other
  simp only [Finset.mem_sdiff, Finset.mem_insert]
  by_cases same : other = name
  · subst same
    simp [new]
  · simp [same]

theorem price_length (name : String) :
    o.price asked (.length name) =
      if name ∈ asked then 0 else (o name).elim 0 Outline.queryPrice := rfl

theorem price_length_of_free {name : String}
    (free : name ∈ asked ∨ o.hasRankOne name = false) : o.price asked (.length name) = 0 := by
  rw [price_length]
  split
  · rfl
  · next new =>
    have other := free.resolve_left new
    cases found : o name with
    | none => rfl
    | some a =>
        have several : a.rank ≠ 1 := by simpa [hasRankOne, found] using other
        exact if_neg several

theorem price_length_of_new {name : String} (new : name ∉ asked)
    (one : o.hasRankOne name = true) :
    o.price asked (.length name) = scopePrice (o.isByReference name) + .ofEvent .lengthQuery := by
  obtain ⟨a, found, single⟩ := (Option.any_eq_true _ _).1 one
  rw [price_length, isByReference, if_neg new, found]
  exact if_pos (beq_iff_eq.1 single)

theorem card_filter_insert {name : String} {names : Finset String} (new : name ∉ names) :
    ((insert name names).filter fun other => o.isByReference other).card =
      (names.filter fun other => o.isByReference other).card +
        if o.isByReference name then 1 else 0 := by
  rw [Finset.filter_insert]
  split
  · rw [Finset.card_insert_of_notMem fun held => new (Finset.mem_filter.1 held).1]
  · rfl

theorem total_cons_length (name : String) :
    o.total asked (.length name :: rest) =
      o.price asked (.length name) + o.total (insert name asked) rest := by
  by_cases free : name ∈ asked ∨ o.hasRankOne name = false
  · rw [price_length_of_free free, zero_add]
    unfold total scopes
    rw [measured_cons_length_of_free free]
    rfl
  · rw [not_or, Bool.not_eq_false] at free
    obtain ⟨new, one⟩ := free
    have apart : name ∉ o.measured rest \ insert name asked := by simp
    rw [price_length_of_new new one]
    unfold total scopes
    rw [measured_cons_length_of_new new one, card_filter_insert apart,
      Finset.card_insert_of_notMem apart]
    unfold scopePrice reads readsByReference hits writesByReference
    cases o.isByReference name <;> ext <;> simp [Tally.ofEvent, read?, write?] <;> omega

theorem elim_readPrice (found : Option Access) :
    found.elim 0 Access.readPrice =
      { issued := (if found.any Access.byReference then 1 else 0) +
          if found.any Access.hit then 1 else 0
        released := (if found.any Access.byReference then 1 else 0) +
          if found.any Access.hit then 1 else 0
        dereferences := if found.any Access.byReference then 1 else 0
        elementReads := if found.isSome then 1 else 0 } := by
  rcases found with _ | ⟨_ | _, _ | _⟩ <;> rfl

theorem elim_writePrice (found : Option Access) :
    found.elim 0 Access.writePrice =
      { issued := if found.any Access.byReference then 1 else 0
        released := if found.any Access.byReference then 1 else 0
        dereferences := if found.any Access.byReference then 1 else 0 } := by
  rcases found with _ | ⟨_ | _, _⟩ <;> rfl

theorem total_cons_of_lengthName?_eq_none {r : Request} (h : r.lengthName? = none) :
    o.total asked (r :: rest) = o.price asked r + o.total asked rest := by
  have same : o.measured (r :: rest) = o.measured rest := by
    unfold measured
    rw [List.filterMap_cons_none h]
  have price : o.price asked r =
      (o.read? r).elim 0 Access.readPrice + (o.write? r).elim 0 Access.writePrice := by
    cases r <;> first | rfl | cases h
  rw [price, elim_readPrice, elim_writePrice]
  unfold total scopes reads readsByReference hits writesByReference
  rw [same]
  ext <;> simp only [List.countP_cons, Tally.issued_add, Tally.released_add,
    Tally.dereferences_add, Tally.elementReads_add, Tally.lengthQueries_add] <;> omega

/-- The counts follow the prices, request by request. -/
theorem total_cons (r : Request) :
    o.total asked (r :: rest) = o.price asked r + o.total (r.noting asked) rest := by
  cases r with
  | length name => exact total_cons_length name
  | element name index => exact total_cons_of_lengthName?_eq_none rfl
  | store name index value => exact total_cons_of_lengthName?_eq_none rfl
  | stats => exact total_cons_of_lengthName?_eq_none rfl
  | load snapshots => exact total_cons_of_lengthName?_eq_none rfl
  | shutdown => exact total_cons_of_lengthName?_eq_none rfl

theorem card_measured_le (requests : List Request) :
    (o.measured requests).card ≤ requests.length :=
  (Finset.card_filter_le _ _).trans
    ((List.toFinset_card_le _).trans (List.length_filterMap_le _ _))

/-- Few requests fit a ledger. -/
theorem fits_total {issued released : Nat} {requests : List Request} (less : released ≤ issued)
    (few : issued + 4 * requests.length < 2 ^ 64) :
    (({ issued, released } : Tally) + o.total asked requests).Fits := by
  have measures : (o.measured requests \ asked).card ≤ requests.length :=
    (Finset.card_le_card Finset.sdiff_subset).trans (card_measured_le requests)
  have held : ((o.measured requests \ asked).filter fun name => o.isByReference name).card ≤
      requests.length := (Finset.card_filter_le _ _).trans measures
  have first : o.readsByReference requests ≤ requests.length := List.countP_le_length
  have second : o.writesByReference requests ≤ requests.length := List.countP_le_length
  have third : o.hits requests ≤ requests.length := List.countP_le_length
  have fourth : o.reads requests ≤ requests.length := List.countP_le_length
  unfold total scopes Tally.Fits
  simp only [Tally.issued_add, Tally.released_add, Tally.dereferences_add,
    Tally.elementReads_add, Tally.lengthQueries_add]
  omega

end Outlines

end DebugArrays
