import Mathlib

/-!
# Rows with a unique key

A table is a list of rows, and a key that no two rows share is a `UNIQUE`
constraint.  `lookup` selects by such a key and `update` rewrites the rows
with a given key value.  An update that leaves another key alone cannot
violate the constraint on it.
-/

namespace UniqueKey

variable {ρ κ μ : Type*} [DecidableEq κ]

def Unique (key : ρ → μ) (rows : List ρ) : Prop :=
  (rows.map key).Nodup

def lookup (key : ρ → κ) (rows : List ρ) (k : κ) : Option ρ :=
  rows.find? fun r ↦ key r = k

def update (key : ρ → κ) (rows : List ρ) (k : κ) (f : ρ → ρ) : List ρ :=
  rows.map fun r ↦ if key r = k then f r else r

variable {key : ρ → κ} {key' : ρ → μ} {rows : List ρ} {k : κ} {f : ρ → ρ} {r : ρ}

theorem Unique.eq_of_mem (h : Unique key' rows) {a b : ρ} (ha : a ∈ rows) (hb : b ∈ rows)
    (hab : key' a = key' b) : a = b :=
  List.inj_on_of_nodup_map h ha hb hab

theorem mem_of_lookup (h : lookup key rows k = some r) : r ∈ rows ∧ key r = k :=
  ⟨List.mem_of_find?_eq_some h, by simpa using List.find?_some h⟩

theorem lookup_eq_some_of_mem (h : Unique key rows) (hr : r ∈ rows) (hk : key r = k) :
    lookup key rows k = some r := by
  cases hl : lookup key rows k with
  | none =>
      have hno : key r ≠ k := by simpa using List.find?_eq_none.mp hl r hr
      exact absurd hk hno
  | some a =>
      obtain ⟨ha, hka⟩ := mem_of_lookup hl
      rw [h.eq_of_mem ha hr (hka.trans hk.symm)]

theorem ne_of_lookup_eq_none (h : lookup key rows k = none) (hr : r ∈ rows) : key r ≠ k := by
  simpa using List.find?_eq_none.mp h r hr

theorem Unique.append (h : Unique key rows) (hfresh : lookup key rows (key r) = none) :
    Unique key (rows ++ [r]) := by
  have hnot : key r ∉ rows.map key := by
    intro hmem
    obtain ⟨a, ha, hk⟩ := List.mem_map.mp hmem
    exact ne_of_lookup_eq_none hfresh ha hk
  rw [Unique, List.map_append, List.map_singleton, List.nodup_append]
  refine ⟨h, List.nodup_singleton _, ?_⟩
  intro a ha b hb hab
  rw [List.mem_singleton.mp hb] at hab
  exact hnot (hab ▸ ha)

/-- Rewriting rows without touching a key keeps its constraint. -/
theorem Unique.update (h : Unique key' rows) (hf : ∀ r, key' (f r) = key' r) :
    Unique key' (update key rows k f) := by
  have hkeys : (UniqueKey.update key rows k f).map key' = rows.map key' := by
    rw [UniqueKey.update, List.map_map]
    apply List.map_congr_left
    intro r _
    simp only [Function.comp_apply]
    split
    · exact hf r
    · rfl
  rw [Unique, hkeys]
  exact h

theorem mem_update (h : r ∈ update key rows k f) :
    (r ∈ rows ∧ key r ≠ k) ∨ ∃ r₀ ∈ rows, key r₀ = k ∧ r = f r₀ := by
  obtain ⟨r₀, hr₀, rfl⟩ := List.mem_map.mp h
  split
  · exact .inr ⟨r₀, hr₀, ‹_›, rfl⟩
  · exact .inl ⟨hr₀, ‹_›⟩

theorem update_mem_of_key (hr : r ∈ rows) (hk : key r = k) : f r ∈ update key rows k f :=
  List.mem_map.mpr ⟨r, hr, if_pos hk⟩

theorem update_mem_of_ne (hr : r ∈ rows) (hk : key r ≠ k) : r ∈ update key rows k f :=
  List.mem_map.mpr ⟨r, hr, if_neg hk⟩

/-- An update finds the one row with its key. -/
theorem update_append_cons {before after : List ρ} (h : Unique key (before ++ r :: after)) :
    update key (before ++ r :: after) (key r) f = before ++ f r :: after := by
  have hnot : ∀ a ∈ before ++ after, key a ≠ key r := by
    intro a ha heq
    rw [Unique, List.map_append, List.map_cons, List.nodup_middle, List.nodup_cons,
      ← List.map_append] at h
    exact h.1 (heq ▸ List.mem_map_of_mem ha)
  have hid : ∀ l : List ρ, (∀ a ∈ l, a ∈ before ++ after) →
      l.map (fun a ↦ if key a = key r then f a else a) = l := by
    intro l hl
    conv_rhs => rw [← List.map_id l]
    exact List.map_congr_left fun a ha ↦ if_neg (hnot a (hl a ha))
  rw [update, List.map_append, List.map_cons, if_pos rfl,
    hid before fun a ↦ List.mem_append_left after, hid after fun a ↦ List.mem_append_right before]

end UniqueKey
