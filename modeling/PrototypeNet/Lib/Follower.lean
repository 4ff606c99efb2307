import Mathlib

/-!
# A copy that follows a source

A source holds a value for each key, and a copy is to hold the same.  Whoever
keeps the copy learns of changes by notices, reads the key again and then
writes what it has read, so that source, notices, writes under way and copy
change at different times.  The copy tracks the source if every key is either
still to be read again or its last write, done or under way, is the current
value.  The rules say which moves keep this, in any order; once nothing is
pending, the copy agrees with the source.
-/

namespace Follower

variable {κ ν : Type*}

structure View (κ ν : Type*) where
  source : κ → Option ν
  copy : κ → Option ν
  notices : Set κ
  writes : Set (κ × ν)

namespace View

/-- The last write of `k`, done or under way, is `v`, and so is every other
write of `k` still under way. -/
def Settled (w : View κ ν) (k : κ) (v : ν) : Prop :=
  (∀ p ∈ w.writes, p.1 = k → p.2 = v) ∧ ((k, v) ∈ w.writes ∨ w.copy k = some v)

def Tracks (w : View κ ν) : Prop :=
  ∀ k v, w.source k = some v → k ∈ w.notices ∨ w.Settled k v

variable {w w' : View κ ν} {k : κ} {v : ν}

theorem Tracks.eq_copy (h : w.Tracks) (hn : w.notices = ∅) (hw : w.writes = ∅)
    (hk : w.source k = some v) : w.copy k = some v := by
  rcases h k v hk with hmem | ⟨-, hmem | hcopy⟩
  · rw [hn] at hmem
    exact absurd hmem (Set.notMem_empty k)
  · rw [hw] at hmem
    exact absurd hmem (Set.notMem_empty _)
  · exact hcopy

/-- Any move that changes neither copy nor writes, provided that the keys whose
value is new or whose notice is gone are accounted for. -/
theorem Tracks.of_same_copy (h : w.Tracks) (hcopy : w'.copy = w.copy)
    (hwrites : w'.writes = w.writes)
    (hold : ∀ k v, w'.source k = some v →
      k ∈ w'.notices ∨ w.Settled k v ∨ w.source k = some v ∧ (k ∈ w.notices → k ∈ w'.notices)) :
    w'.Tracks := by
  have hsettled : ∀ k v, w.Settled k v → w'.Settled k v := by
    intro k v hkv
    rw [Settled, hcopy, hwrites]
    exact hkv
  intro k v hk
  rcases hold k v hk with hmem | hkv | ⟨hsrc, hnot⟩
  · exact .inl hmem
  · exact .inr (hsettled k v hkv)
  · rcases h k v hsrc with hmem | hkv
    · exact .inl (hnot hmem)
    · exact .inr (hsettled k v hkv)

/-- The source changes at `k` only, and a notice says so. -/
theorem Tracks.commit (h : w.Tracks) (hcopy : w'.copy = w.copy) (hwrites : w'.writes = w.writes)
    (hnot : w.notices ⊆ w'.notices) (hk : k ∈ w'.notices)
    (hsrc : ∀ j v, w'.source j = some v → j = k ∨ w.source j = some v) : w'.Tracks := by
  refine h.of_same_copy hcopy hwrites ?_
  intro j v hj
  rcases hsrc j v hj with rfl | hold
  · exact .inl hk
  · exact .inr (.inr ⟨hold, fun hmem ↦ hnot hmem⟩)

theorem Tracks.same_source (h : w.Tracks) (hcopy : w'.copy = w.copy)
    (hwrites : w'.writes = w.writes) (hnot : w.notices ⊆ w'.notices)
    (hsrc : ∀ j v, w'.source j = some v → w.source j = some v) : w'.Tracks :=
  h.of_same_copy hcopy hwrites fun j v hj ↦ .inr (.inr ⟨hsrc j v hj, fun hmem ↦ hnot hmem⟩)

theorem Tracks.lose (h : w.Tracks) (hcopy : w'.copy = w.copy) (hwrites : w'.writes = w.writes)
    (hsrc : w'.source = w.source)
    (hlost : ∀ k v, w.source k = some v → k ∈ w.notices → k ∈ w'.notices ∨ w.Settled k v) :
    w'.Tracks := by
  refine h.of_same_copy hcopy hwrites ?_
  intro j v hj
  rw [hsrc] at hj
  by_cases hmem : j ∈ w.notices
  · rcases hlost j v hj hmem with hkeep | hset
    · exact .inl hkeep
    · exact .inr (.inl hset)
  · exact .inr (.inr ⟨hj, fun hin ↦ absurd hin hmem⟩)

/-- A notice is taken up: the value of `k` is read and about to be written. -/
theorem Tracks.read (h : w.Tracks) (hcopy : w'.copy = w.copy) (hsrc : w'.source = w.source)
    (hnot : ∀ j ∈ w.notices, j = k ∨ j ∈ w'.notices) (hidle : w.writes = ∅)
    (hwrites : w'.writes = {p | w.source k = some p.2 ∧ p.1 = k}) : w'.Tracks := by
  intro j v hj
  rw [hsrc] at hj
  by_cases hjk : j = k
  · subst hjk
    refine .inr ⟨?_, .inl ?_⟩
    · intro p hp _
      rw [hwrites] at hp
      exact Option.some.inj (hp.1.symm.trans hj)
    · rw [hwrites]
      exact ⟨hj, rfl⟩
  · rcases h j v hj with hmem | ⟨-, hmem | hcopy'⟩
    · exact .inl ((hnot j hmem).resolve_left hjk)
    · rw [hidle] at hmem
      exact absurd hmem (Set.notMem_empty _)
    · refine .inr ⟨?_, .inr (by rw [hcopy]; exact hcopy')⟩
      intro p hp hpj
      rw [hwrites] at hp
      exact absurd (hpj.symm.trans hp.2) hjk

theorem Tracks.write [DecidableEq κ] (h : w.Tracks) (hsrc : w'.source = w.source)
    (hnot : w.notices ⊆ w'.notices) (hk : (k, v) ∈ w.writes)
    (hcopy : ∀ j, w'.copy j = if j = k then some v else w.copy j)
    (hsub : w'.writes ⊆ w.writes) (hrest : ∀ p ∈ w.writes, p = (k, v) ∨ p ∈ w'.writes) :
    w'.Tracks := by
  intro j u hj
  rw [hsrc] at hj
  rcases h j u hj with hmem | ⟨hall, hlast⟩
  · exact .inl (hnot hmem)
  · refine .inr ⟨fun p hp ↦ hall p (hsub hp), ?_⟩
    rw [hcopy j]
    by_cases hjk : j = k
    · have hu : v = u := hall (k, v) hk hjk.symm
      rw [if_pos hjk, hu]
      exact .inr rfl
    · rw [if_neg hjk]
      rcases hlast with hmem | hold
      · rcases hrest _ hmem with heq | hin
        · exact absurd (congrArg Prod.fst heq) hjk
        · exact .inl hin
      · exact .inr hold

/-- Somebody else writes `k`: harmless if the value is current, or if a write of
the current value is still to come. -/
theorem Tracks.foreign_write [DecidableEq κ] (h : w.Tracks) (hsrc : w'.source = w.source)
    (hnot : w'.notices = w.notices) (hwrites : w'.writes = w.writes)
    (hcopy : ∀ j, w'.copy j = if j = k then some v else w.copy j)
    (hcur : ∀ u, w.source k = some u → u = v ∨ k ∈ w.notices ∨ (k, u) ∈ w.writes) :
    w'.Tracks := by
  intro j u hj
  rw [hsrc] at hj
  rw [hnot, Settled, hwrites, hcopy j]
  rcases h j u hj with hmem | ⟨hall, hlast⟩
  · exact .inl hmem
  · by_cases hjk : j = k
    · subst hjk
      rw [if_pos rfl]
      rcases hcur u hj with rfl | hmem | hmem
      · exact .inr ⟨hall, .inr rfl⟩
      · exact .inl hmem
      · exact .inr ⟨hall, .inl hmem⟩
    · rw [if_neg hjk]
      exact .inr ⟨hall, hlast⟩

/-- Copying the whole source: every value is about to be written. -/
theorem tracks_of_snapshot (hwrites : w.writes = {p | w.source p.1 = some p.2}) : w.Tracks := by
  intro k v hk
  refine .inr ⟨?_, .inl ?_⟩
  · intro p hp hpk
    rw [hwrites] at hp
    have hpv : w.source p.1 = some p.2 := hp
    rw [hpk, hk] at hpv
    exact (Option.some.inj hpv).symm
  · rw [hwrites]
    exact hk

end View

end Follower
