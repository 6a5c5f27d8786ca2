/-!
Finite maps as lists of entries in the order their keys first came in, no key twice.
-/

namespace TunnelIngress

structure Table (κ α : Type) where
  entries : List (κ × α)
  nodup : (entries.map (·.1)).Nodup
deriving DecidableEq

namespace Table

variable {κ α β : Type} [DecidableEq κ]

def empty : Table κ α :=
  ⟨[], by simp⟩

instance : Inhabited (Table κ α) :=
  ⟨empty⟩

instance : EmptyCollection (Table κ α) :=
  ⟨empty⟩

def size (table : Table κ α) : Nat :=
  table.entries.length

def isEmpty (table : Table κ α) : Bool :=
  table.entries.isEmpty

def keys (table : Table κ α) : List κ :=
  table.entries.map (·.1)

def values (table : Table κ α) : List α :=
  table.entries.map (·.2)

def get? (table : Table κ α) (key : κ) : Option α :=
  (table.entries.find? (·.1 = key)).map (·.2)

def getD (table : Table κ α) (key : κ) (default : α) : α :=
  (table.get? key).getD default

def contains (table : Table κ α) (key : κ) : Bool :=
  table.entries.any (·.1 = key)

theorem map_fst_replace (entries : List (κ × α)) (key : κ) (value : α) :
    (entries.map fun entry => if entry.1 = key then (key, value) else entry).map (·.1) =
      entries.map (·.1) := by
  simp only [List.map_map]
  refine List.map_congr_left fun entry _ => ?_
  by_cases h : entry.1 = key <;> simp [h]

/-- A new key goes to the end; a known one keeps its place. -/
def insert (table : Table κ α) (key : κ) (value : α) : Table κ α :=
  if h : table.contains key then
    ⟨table.entries.map fun entry => if entry.1 = key then (key, value) else entry, by
      rw [map_fst_replace]
      exact table.nodup⟩
  else
    ⟨table.entries ++ [(key, value)], by
      have absent : ∀ entry ∈ table.entries, entry.1 ≠ key := fun entry mem same =>
        h (List.any_eq_true.2 ⟨entry, mem, decide_eq_true same⟩)
      rw [List.map_append, List.nodup_append]
      refine ⟨table.nodup, by simp, ?_⟩
      intro a ha b hb
      obtain ⟨entry, mem, rfl⟩ := List.mem_map.1 ha
      simp only [List.map_cons, List.map_nil, List.mem_singleton] at hb
      exact hb ▸ absent entry mem⟩

def filter (table : Table κ α) (keep : κ → α → Bool) : Table κ α :=
  ⟨table.entries.filter fun entry => keep entry.1 entry.2,
    table.nodup.sublist (List.Sublist.map _ List.filter_sublist)⟩

def erase (table : Table κ α) (key : κ) : Table κ α :=
  table.filter fun other _ => other ≠ key

def modify (table : Table κ α) (key : κ) (change : α → α) : Table κ α :=
  match table.get? key with
  | some value => table.insert key (change value)
  | none => table

/-- The later of two entries for one key wins. -/
def ofList (entries : List (κ × α)) : Table κ α :=
  entries.foldl (fun table entry => table.insert entry.1 entry.2) empty

/-- Counts one more under a key. -/
def count (table : Table κ Nat) (key : κ) : Table κ Nat :=
  table.insert key (table.getD key 0 + 1)

/-- The entries in ascending order of their keys. -/
def sorted [Ord κ] (table : Table κ α) : List (κ × α) :=
  table.entries.mergeSort fun a b => (compare a.1 b.1).isLE

/-! ### Looking up what an operation leaves -/

theorem find?_of_mem {entries : List (κ × α)} (nodup : (entries.map (·.1)).Nodup) {entry : κ × α}
    (mem : entry ∈ entries) : entries.find? (·.1 = entry.1) = some entry := by
  induction entries with
  | nil => cases mem
  | cons first rest ih =>
    rw [List.map_cons, List.nodup_cons] at nodup
    rw [List.find?_cons]
    rcases List.mem_cons.1 mem with rfl | mem
    · simp
    · have ne : first.1 ≠ entry.1 := fun same => nodup.1 (same ▸ List.mem_map_of_mem mem)
      simpa [ne] using ih nodup.2 mem

variable {table : Table κ α} {key other : κ} {value : α}

theorem get?_eq_some_iff : table.get? key = some value ↔ (key, value) ∈ table.entries := by
  unfold get?
  rw [Option.map_eq_some_iff]
  constructor
  · rintro ⟨⟨found, _⟩, hit, rfl⟩
    have same : found = key := by simpa using List.find?_some hit
    exact same ▸ List.mem_of_find?_eq_some hit
  · exact fun mem => ⟨_, find?_of_mem table.nodup mem, rfl⟩

theorem contains_iff : table.contains key = true ↔ ∃ value, table.get? key = some value := by
  simp only [contains, List.any_eq_true, decide_eq_true_eq, get?_eq_some_iff]
  constructor
  · rintro ⟨⟨_, value⟩, mem, rfl⟩
    exact ⟨value, mem⟩
  · rintro ⟨value, mem⟩
    exact ⟨_, mem, rfl⟩

theorem contains_eq_isSome : table.contains key = (table.get? key).isSome := by
  rw [Bool.eq_iff_iff, contains_iff, Option.isSome_iff_exists]

theorem mem_values_iff : value ∈ table.values ↔ ∃ key, table.get? key = some value := by
  simp only [values, List.mem_map, get?_eq_some_iff]
  constructor
  · rintro ⟨⟨key, _⟩, mem, rfl⟩
    exact ⟨key, mem⟩
  · rintro ⟨key, mem⟩
    exact ⟨_, mem, rfl⟩

theorem mem_keys_iff : key ∈ table.keys ↔ ∃ value, table.get? key = some value := by
  simp only [keys, List.mem_map, get?_eq_some_iff]
  constructor
  · rintro ⟨⟨_, value⟩, mem, rfl⟩
    exact ⟨value, mem⟩
  · rintro ⟨value, mem⟩
    exact ⟨_, mem, rfl⟩

@[simp]
theorem get?_empty : (∅ : Table κ α).get? key = none :=
  rfl

theorem get?_filter (keep : κ → α → Bool) :
    (table.filter keep).get? key = (table.get? key).filter (keep key) := by
  ext value
  simp [get?_eq_some_iff, filter, Option.filter_eq_some_iff]

theorem get?_erase :
    (table.erase key).get? other = if other = key then none else table.get? other := by
  rw [erase, get?_filter]
  by_cases same : other = key
  · simp [same]
  · cases hit : table.get? other <;> simp [same]

theorem mem_insert_entries {found : α} :
    (other, found) ∈ (table.insert key value).entries ↔
      if other = key then found = value else (other, found) ∈ table.entries := by
  unfold insert
  split
  · rename_i known
    obtain ⟨entry, mem, hit⟩ := List.any_eq_true.1 known
    simp only [List.mem_map]
    split
    · rename_i same
      constructor
      · rintro ⟨old, _, replaced⟩
        split at replaced <;> simp_all
      · rintro rfl
        exact ⟨entry, mem, by simp_all⟩
    · rename_i ne
      constructor
      · rintro ⟨old, mem, replaced⟩
        split at replaced
        · exact absurd (congrArg Prod.fst replaced).symm ne
        · exact replaced ▸ mem
      · exact fun mem => ⟨_, mem, by simp [ne]⟩
  · rename_i absent
    simp only [List.mem_append, List.mem_singleton, Prod.mk.injEq]
    split
    · rename_i same
      constructor
      · rintro (mem | ⟨_, equal⟩)
        · exact absurd (List.any_eq_true.2 ⟨_, mem, decide_eq_true same⟩) absent
        · exact equal
      · exact fun equal => .inr ⟨same, equal⟩
    · rename_i ne
      simp [ne]

theorem get?_insert :
    (table.insert key value).get? other = if other = key then some value else table.get? other := by
  ext found
  rw [get?_eq_some_iff, mem_insert_entries]
  split
  · simp [eq_comm]
  · rw [get?_eq_some_iff]

theorem get?_ofList_map (keys : List κ) (value : κ → α) :
    (ofList (keys.map fun key => (key, value key))).get? key =
      if key ∈ keys then some (value key) else none := by
  suffices general : ∀ table : Table κ α,
      ((keys.map fun key => (key, value key)).foldl (fun table entry => table.insert entry.1 entry.2)
        table).get? key = if key ∈ keys then some (value key) else table.get? key from general empty
  induction keys with
  | nil => exact fun _ => rfl
  | cons first rest ih =>
    intro table
    rw [List.map_cons, List.foldl_cons, ih, get?_insert]
    by_cases same : key = first <;> by_cases mem : key ∈ rest <;> simp [same, mem]

end Table

end TunnelIngress
