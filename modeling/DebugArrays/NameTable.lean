/-!
Tables from names to values: an association list in which every name occurs once.
-/
namespace DebugArrays

structure NameTable (α : Type) where
  entries : List (String × α)
  distinct : (entries.map Prod.fst).Nodup

namespace NameTable

variable {α : Type}

def empty : NameTable α :=
  ⟨[], List.nodup_nil⟩

instance : Inhabited (NameTable α) :=
  ⟨empty⟩

def find? (table : NameTable α) (name : String) : Option α :=
  table.entries.lookup name

def names (table : NameTable α) : List String :=
  table.entries.map Prod.fst

def values (table : NameTable α) : List α :=
  table.entries.map Prod.snd

def erase (table : NameTable α) (name : String) : NameTable α :=
  ⟨table.entries.filter fun entry => entry.1 != name,
    (List.filter_sublist.map Prod.fst).nodup table.distinct⟩

theorem not_mem_names_erase (table : NameTable α) (name : String) :
    name ∉ (table.erase name).names := by
  simp [erase, names]

/-- The table with a name bound to a value, whatever it stood for before. -/
def insert (table : NameTable α) (name : String) (a : α) : NameTable α :=
  ⟨(name, a) :: (table.erase name).entries,
    List.nodup_cons.2 ⟨table.not_mem_names_erase name, (table.erase name).distinct⟩⟩

@[simp] theorem find?_empty (name : String) : (empty : NameTable α).find? name = none := rfl

@[simp] theorem find?_insert_self (table : NameTable α) (name : String) (a : α) :
    (table.insert name a).find? name = some a := by
  simp [insert, find?]

theorem find?_erase_of_ne (table : NameTable α) {name other : String} (h : other ≠ name) :
    (table.erase name).find? other = table.find? other := by
  obtain ⟨entries, distinct⟩ := table
  unfold find? erase
  induction entries with
  | nil => rfl
  | cons entry rest ih =>
    obtain ⟨key, a⟩ := entry
    have rest_eq := ih (List.nodup_cons.1 distinct).2
    by_cases hit : other = key
    · subst hit
      simp [h]
    · by_cases same : key = name <;>
        simpa [List.filter_cons, same, List.lookup_cons, beq_false_of_ne h, beq_false_of_ne hit]
          using rest_eq

@[simp] theorem find?_erase_self (table : NameTable α) (name : String) :
    (table.erase name).find? name = none := by
  simp only [find?, erase, List.lookup_eq_none_iff, List.mem_filter]
  exact fun entry kept => bne_iff_ne.2 (bne_iff_ne.1 kept.2).symm

theorem find?_insert_of_ne {table : NameTable α} {name other : String} {a : α} (h : other ≠ name) :
    (table.insert name a).find? other = table.find? other := by
  rw [← table.find?_erase_of_ne h]
  simp [insert, find?, List.lookup_cons, beq_false_of_ne h]

end NameTable

end DebugArrays
