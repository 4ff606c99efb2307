import Mathlib

/-!
# Hash maps of bounded capacity

A finite map that never holds more than `cap` keys.  Inserting under a key it
already holds overwrites the value; inserting a new key is refused once the
map is full.  The bound is carried by the structure, so no operation has to
re-establish it.
-/

structure BoundedMap (κ ν : Type) [DecidableEq κ] (cap : ℕ) where
  entries : AList (fun _ : κ ↦ ν)
  bounded : entries.keys.length ≤ cap

namespace BoundedMap

variable {κ ν : Type} [DecidableEq κ] {cap : ℕ}

def empty : BoundedMap κ ν cap :=
  ⟨∅, Nat.zero_le cap⟩

def get (m : BoundedMap κ ν cap) (k : κ) : Option ν :=
  m.entries.lookup k

def size (m : BoundedMap κ ν cap) : ℕ :=
  m.entries.keys.length

def Accepts (m : BoundedMap κ ν cap) (k : κ) : Prop :=
  k ∈ m.entries.keys ∨ m.size < cap

instance (m : BoundedMap κ ν cap) (k : κ) : Decidable (m.Accepts k) :=
  inferInstanceAs (Decidable (k ∈ m.entries.keys ∨ m.size < cap))

theorem length_keys_insert_le (m : BoundedMap κ ν cap) (k : κ) (v : ν) (h : m.Accepts k) :
    (m.entries.insert k v).keys.length ≤ cap := by
  have hb := m.bounded
  rw [AList.keys_insert, List.length_cons, List.length_erase]
  rcases h with hmem | hroom
  · rw [if_pos hmem]
    have hpos : 0 < m.entries.keys.length := List.length_pos_of_mem hmem
    omega
  · rw [size] at hroom
    split <;> omega

/-- Overwrite or add an entry; refused when the key is new and the map full. -/
def insert (m : BoundedMap κ ν cap) (k : κ) (v : ν) : Option (BoundedMap κ ν cap) :=
  if h : m.Accepts k then some ⟨m.entries.insert k v, m.length_keys_insert_le k v h⟩
  else none

theorem get_insert_self {m m' : BoundedMap κ ν cap} {k : κ} {v : ν}
    (h : m.insert k v = some m') : m'.get k = some v := by
  rw [insert] at h
  split at h
  · cases h
    exact AList.lookup_insert m.entries
  · cases h

theorem get_insert_of_ne {m m' : BoundedMap κ ν cap} {k j : κ} {v : ν}
    (h : m.insert k v = some m') (hj : j ≠ k) : m'.get j = m.get j := by
  rw [insert] at h
  split at h
  · cases h
    exact AList.lookup_insert_ne hj
  · cases h

theorem get_insert {m m' : BoundedMap κ ν cap} {k : κ} {v : ν}
    (h : m.insert k v = some m') (j : κ) :
    m'.get j = if j = k then some v else m.get j := by
  by_cases hj : j = k
  · rw [if_pos hj, hj, get_insert_self h]
  · rw [if_neg hj, get_insert_of_ne h hj]

theorem accepts_of_get {m : BoundedMap κ ν cap} {k : κ} {v : ν} (h : m.get k = some v) :
    m.Accepts k := by
  left
  exact AList.mem_keys.mp (AList.lookup_isSome.mp (Option.isSome_of_eq_some h))

/-! ## Filling a map -/

@[simp] theorem get_empty (k : κ) : (empty : BoundedMap κ ν cap).get k = none :=
  AList.lookup_empty k

@[simp] theorem size_empty : (empty : BoundedMap κ ν cap).size = 0 := rfl

theorem notMem_keys_of_get {m : BoundedMap κ ν cap} {k : κ} (h : m.get k = none) :
    k ∉ m.entries.keys :=
  AList.lookup_eq_none.mp h

theorem insert_of_size_lt {m : BoundedMap κ ν cap} (k : κ) (v : ν) (h : m.size < cap) :
    ∃ m', m.insert k v = some m' :=
  ⟨_, dif_pos (.inr h)⟩

theorem insert_of_full {m : BoundedMap κ ν cap} {k : κ} {v : ν} (hk : m.get k = none)
    (h : m.size = cap) : m.insert k v = none := by
  apply dif_neg
  rintro (hmem | hroom)
  · exact notMem_keys_of_get hk hmem
  · omega

theorem size_insert_of_new {m m' : BoundedMap κ ν cap} {k : κ} {v : ν}
    (h : m.insert k v = some m') (hk : m.get k = none) : m'.size = m.size + 1 := by
  rw [insert] at h
  split at h
  · cases h
    rw [size, AList.keys_insert, List.length_cons,
      List.erase_of_not_mem (notMem_keys_of_get hk), size]
  · cases h

/-- An insert whose refusal is ignored. -/
theorem get_insert_getD (m : BoundedMap κ ν cap) (k : κ) (v : ν) (j : κ) :
    ((m.insert k v).getD m).get j = if j = k ∧ m.Accepts k then some v else m.get j := by
  by_cases h : m.Accepts k
  · have hins : m.insert k v = some ⟨m.entries.insert k v, m.length_keys_insert_le k v h⟩ :=
      dif_pos h
    rw [hins, Option.getD_some, get_insert hins j]
    simp only [h, and_true]
  · have hins : m.insert k v = none := dif_neg h
    rw [hins, Option.getD_none, if_neg (fun hj ↦ h hj.2)]

end BoundedMap
