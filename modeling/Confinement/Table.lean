/-!
# Ordered tables

A table maps names to values and remembers the order in which its names came in. Writing to a name
that is present keeps its place; a new name goes to the end; erasing a name keeps the order of the
others. No name occurs twice: that is a field of the type.
-/
namespace Confinement

/-- Replaces the value at `k` where it stands, or adds it at the end. -/
def insertEntry (k : String) (v : α) : List (String × α) → List (String × α)
  | [] => [(k, v)]
  | (k', v') :: rest => if k' = k then (k, v) :: rest else (k', v') :: insertEntry k v rest

/-- The value at `k`. -/
def findEntry (k : String) : List (String × α) → Option α
  | [] => none
  | (k', v) :: rest => if k' = k then some v else findEntry k rest

theorem keys_insertEntry (k : String) (v : α) (l : List (String × α)) :
    (insertEntry k v l).map Prod.fst =
      if k ∈ l.map Prod.fst then l.map Prod.fst else l.map Prod.fst ++ [k] := by
  induction l with
  | nil => simp [insertEntry]
  | cons e rest ih =>
    obtain ⟨k', v'⟩ := e
    by_cases h : k' = k
    · simp [insertEntry, h]
    · have h' : ¬ k = k' := fun e => h e.symm
      simp only [insertEntry, h, if_false, List.map_cons, ih, List.mem_cons, h', false_or]
      split <;> simp

theorem exists_split_of_findEntry {k : String} {v : α} {l : List (String × α)}
    (h : findEntry k l = some v) : ∃ front back, l = front ++ (k, v) :: back := by
  induction l with
  | nil => cases h
  | cons e rest ih =>
    obtain ⟨k', v'⟩ := e
    rw [findEntry] at h
    by_cases hk : k' = k
    · rw [if_pos hk] at h
      cases h
      exact ⟨[], rest, by rw [hk, List.nil_append]⟩
    · rw [if_neg hk] at h
      obtain ⟨front, back, rfl⟩ := ih h
      exact ⟨(k', v') :: front, back, rfl⟩

/-- A map from names to values in order of entry, without repetition. -/
structure Table (α : Type u) where
  entries : List (String × α)
  nodup : (entries.map Prod.fst).Nodup

namespace Table

@[ext] theorem ext {s t : Table α} (h : s.entries = t.entries) : s = t := by
  cases s; cases t; cases h; rfl

def empty : Table α := ⟨[], List.nodup_nil⟩

instance : Inhabited (Table α) := ⟨empty⟩

def keys (t : Table α) : List String := t.entries.map Prod.fst

def size (t : Table α) : Nat := t.entries.length

def isEmpty (t : Table α) : Bool := t.entries.isEmpty

def find? (t : Table α) (k : String) : Option α := findEntry k t.entries

def contains (t : Table α) (k : String) : Bool := (t.find? k).isSome

def insert (t : Table α) (k : String) (v : α) : Table α where
  entries := insertEntry k v t.entries
  nodup := by
    rw [keys_insertEntry]
    split
    · exact t.nodup
    · rename_i h
      exact List.nodup_append.mpr ⟨t.nodup, by simp, by
        intro a ha b hb
        have hb' : b = k := by simpa using hb
        intro hab
        exact h (by rw [← hb', ← hab]; exact ha)⟩

def erase (t : Table α) (k : String) : Table α where
  entries := t.entries.filter (·.1 != k)
  nodup := (List.filter_sublist.map Prod.fst).nodup t.nodup

/-- The table that results from writing the pairs one after the other. -/
def ofList (pairs : List (String × α)) : Table α :=
  pairs.foldl (fun t e => t.insert e.1 e.2) empty

/-- Writes the entries of `u` over `t`, in the order of `u`. -/
def extend (t u : Table α) : Table α := u.entries.foldl (fun t e => t.insert e.1 e.2) t

/-- The same names in the same order, with every value changed by `f`. -/
def map (f : α → β) (t : Table α) : Table β where
  entries := t.entries.map fun e => (e.1, f e.2)
  nodup := by
    have h : ((t.entries.map fun e => (e.1, f e.2)).map Prod.fst) = t.entries.map Prod.fst := by
      simp [Function.comp_def]
    rw [h]; exact t.nodup

theorem findEntry_insertEntry (k j : String) (v : α) (l : List (String × α)) :
    findEntry j (insertEntry k v l) = if j = k then some v else findEntry j l := by
  induction l with
  | nil =>
    by_cases h : j = k
    · simp [insertEntry, findEntry, h]
    · simp [insertEntry, findEntry, h, Ne.symm h]
  | cons e rest ih =>
    obtain ⟨k', v'⟩ := e
    by_cases h : k' = k
    · subst h
      by_cases hj : j = k'
      · simp [insertEntry, findEntry, hj]
      · simp [insertEntry, findEntry, hj, Ne.symm hj]
    · by_cases hj : k' = j
      · subst hj
        simp [insertEntry, findEntry, h]
      · simp [insertEntry, findEntry, h, hj, ih]

/-- Reading after writing. -/
@[simp] theorem find?_insert (t : Table α) (k j : String) (v : α) :
    (t.insert k v).find? j = if j = k then some v else t.find? j :=
  findEntry_insertEntry k j v t.entries

theorem keys_insert (t : Table α) (k : String) (v : α) :
    (t.insert k v).keys = if k ∈ t.keys then t.keys else t.keys ++ [k] :=
  keys_insertEntry k v t.entries

theorem keys_erase (t : Table α) (k : String) : (t.erase k).keys = t.keys.filter (· != k) := by
  simp [keys, erase, List.filter_map, Function.comp_def]

/-- Reading after erasing. -/
@[simp] theorem find?_erase (t : Table α) (k j : String) :
    (t.erase k).find? j = if j = k then none else t.find? j := by
  simp only [find?, erase]
  induction t.entries with
  | nil => simp [findEntry]
  | cons e rest ih =>
    obtain ⟨k', v'⟩ := e
    by_cases h : k' = k
    · subst h
      by_cases hj : j = k'
      · subst hj
        simpa using ih
      · simp [findEntry, ih, hj, Ne.symm hj]
    · by_cases hj : k' = j
      · subst hj
        simp [findEntry, h]
      · simp [findEntry, h, hj, ih]

end Table

end Confinement
