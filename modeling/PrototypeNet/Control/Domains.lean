import PrototypeNet.Lib.UniqueKey
import PrototypeNet.Common.Address

/-!
# The table of domains

The table both processes share, with its two `UNIQUE` constraints carried by
the structure, and the statements they run on it.  Each statement is atomic.
Addresses are kept as such and not as the texts that `inet` columns take and
return.
-/

namespace PrototypeNet

open UniqueKey

/-- A row, without the time stamps and the serial primary key. -/
structure Row where
  domainId : BitVec 32
  domain : String
  originIpv6 : Ipv6Addr
  syntheticIpv6 : Ipv6Addr
  ttlSeconds : Option (BitVec 32)
  deriving DecidableEq, Repr

structure Domains where
  rows : List Row
  uniqueDomain : Unique Row.domain rows
  uniqueDomainId : Unique Row.domainId rows

namespace Domains

def empty : Domains :=
  ⟨[], List.nodup_nil, List.nodup_nil⟩

def findByDomain (d : Domains) (domain : String) : Option Row :=
  lookup Row.domain d.rows domain

def findById (d : Domains) (domainId : BitVec 32) : Option Row :=
  lookup Row.domainId d.rows domainId

def refresh (d : Domains) (domain : String) (origin : Ipv6Addr) (ttl : BitVec 32) : Domains where
  rows := update Row.domain d.rows domain fun r ↦
    { r with originIpv6 := origin, ttlSeconds := some ttl }
  uniqueDomain := d.uniqueDomain.update fun _ ↦ rfl
  uniqueDomainId := d.uniqueDomainId.update fun _ ↦ rfl

def add (d : Domains) (r : Row) (hdomain : d.findByDomain r.domain = none)
    (hid : d.findById r.domainId = none) : Domains where
  rows := d.rows ++ [r]
  uniqueDomain := d.uniqueDomain.append hdomain
  uniqueDomainId := d.uniqueDomainId.append hid

/-- `INSERT … ON CONFLICT (domain) DO UPDATE … RETURNING domain_id, synthetic_ipv6`.
A new domain under an id that is taken violates the other constraint. -/
def insertDomain (d : Domains) (domainId : BitVec 32) (domain : String)
    (origin synthetic : Ipv6Addr) (ttl : BitVec 32) :
    Option (Domains × BitVec 32 × Ipv6Addr) :=
  match h : d.findByDomain domain with
  | some r => some (d.refresh domain origin ttl, r.domainId, r.syntheticIpv6)
  | none =>
      if hid : d.findById domainId = none then
        some (d.add ⟨domainId, domain, origin, synthetic, some ttl⟩ h hid, domainId, synthetic)
      else none

/-- `UPDATE domains SET origin_ipv6 = $1 WHERE domain_id = $2`. -/
def updateOrigin (d : Domains) (domainId : BitVec 32) (origin : Ipv6Addr) : Domains where
  rows := update Row.domainId d.rows domainId fun r ↦ { r with originIpv6 := origin }
  uniqueDomain := d.uniqueDomain.update fun _ ↦ rfl
  uniqueDomainId := d.uniqueDomainId.update fun _ ↦ rfl

/-! ## What the statements do to the rows -/

theorem mem_of_findByDomain {d : Domains} {domain : String} {r : Row}
    (h : d.findByDomain domain = some r) : r ∈ d.rows ∧ r.domain = domain :=
  mem_of_lookup h

theorem mem_of_findById {d : Domains} {domainId : BitVec 32} {r : Row}
    (h : d.findById domainId = some r) : r ∈ d.rows ∧ r.domainId = domainId :=
  mem_of_lookup h

theorem findById_eq_some_of_mem {d : Domains} {r : Row} (hr : r ∈ d.rows) :
    d.findById r.domainId = some r :=
  lookup_eq_some_of_mem d.uniqueDomainId hr rfl

theorem mem_updateOrigin {d : Domains} {domainId : BitVec 32} {origin : Ipv6Addr} {r : Row}
    (h : r ∈ (d.updateOrigin domainId origin).rows) :
    (r ∈ d.rows ∧ r.domainId ≠ domainId) ∨
      ∃ r₀ ∈ d.rows, r₀.domainId = domainId ∧ r = { r₀ with originIpv6 := origin } :=
  mem_update h

theorem mem_refresh {d : Domains} {domain : String} {origin : Ipv6Addr} {ttl : BitVec 32} {r : Row}
    (h : r ∈ (d.refresh domain origin ttl).rows) :
    (r ∈ d.rows ∧ r.domain ≠ domain) ∨
      ∃ r₀ ∈ d.rows, r₀.domain = domain ∧
        r = { r₀ with originIpv6 := origin, ttlSeconds := some ttl } :=
  mem_update h

theorem insertDomain_eq_some {d d' : Domains} {domainId storedId : BitVec 32} {domain : String}
    {origin synthetic storedSynthetic : Ipv6Addr} {ttl : BitVec 32}
    (h : d.insertDomain domainId domain origin synthetic ttl =
      some (d', storedId, storedSynthetic)) :
    (∃ r ∈ d.rows, r.domain = domain ∧ d' = d.refresh domain origin ttl ∧
        storedId = r.domainId ∧ storedSynthetic = r.syntheticIpv6) ∨
      d'.rows = d.rows ++ [⟨domainId, domain, origin, synthetic, some ttl⟩] ∧
        storedId = domainId ∧ storedSynthetic = synthetic := by
  unfold insertDomain at h
  split at h
  · rename_i r hr
    cases h
    obtain ⟨hmem, hdom⟩ := mem_of_findByDomain hr
    exact .inl ⟨r, hmem, hdom, rfl, rfl, rfl⟩
  · split at h
    · cases h
      exact .inr ⟨rfl, rfl, rfl⟩
    · cases h

/-! ## Commits

What readers of the table rely on: a commit touches one row, and a row keeps
its id and its domain forever. -/

def allocation (d : Domains) : String ≃. BitVec 32 where
  toFun x := (d.findByDomain x).map Row.domainId
  invFun i := (d.findById i).map Row.domain
  inv x i := by
    simp only [Option.map_eq_some_iff]
    constructor
    · rintro ⟨r, hr, rfl⟩
      obtain ⟨hmem, rfl⟩ := mem_of_findById hr
      exact ⟨r, lookup_eq_some_of_mem d.uniqueDomain hmem rfl, rfl⟩
    · rintro ⟨r, hr, rfl⟩
      obtain ⟨hmem, rfl⟩ := mem_of_findByDomain hr
      exact ⟨r, lookup_eq_some_of_mem d.uniqueDomainId hmem rfl, rfl⟩

theorem mem_allocation_iff {d : Domains} {x : String} {i : BitVec 32} :
    i ∈ d.allocation x ↔ ∃ r ∈ d.rows, r.domain = x ∧ r.domainId = i := by
  change i ∈ (d.findByDomain x).map Row.domainId ↔ _
  rw [Option.mem_def, Option.map_eq_some_iff]
  constructor
  · rintro ⟨r, hr, rfl⟩
    obtain ⟨hmem, hx⟩ := mem_of_findByDomain hr
    exact ⟨r, hmem, hx, rfl⟩
  · rintro ⟨r, hmem, rfl, rfl⟩
    exact ⟨r, lookup_eq_some_of_mem d.uniqueDomain hmem rfl, rfl⟩

/-- A committed statement: it keeps the allocation and leaves all rows as they
were, up to one id, whose row then holds the given origin. -/
structure Commit (d : Domains) (domainId : BitVec 32) (origin : Ipv6Addr) (d' : Domains) : Prop
    where
  allocation : d.allocation ≤ d'.allocation
  rows : ∀ r' ∈ d'.rows, r' ∈ d.rows ∨ r'.domainId = domainId ∧ r'.originIpv6 = origin

theorem allocation_le_of_rows {d d' : Domains}
    (h : ∀ r ∈ d.rows, ∃ r' ∈ d'.rows, r'.domain = r.domain ∧ r'.domainId = r.domainId) :
    d.allocation ≤ d'.allocation := by
  intro x i hi
  obtain ⟨r, hr, rfl, rfl⟩ := mem_allocation_iff.mp hi
  obtain ⟨r', hr', hdom, hid⟩ := h r hr
  exact mem_allocation_iff.mpr ⟨r', hr', hdom, hid⟩

theorem commit_updateOrigin (d : Domains) (domainId : BitVec 32) (origin : Ipv6Addr) :
    Commit d domainId origin (d.updateOrigin domainId origin) := by
  constructor
  · apply allocation_le_of_rows
    intro r hr
    by_cases hid : r.domainId = domainId
    · exact ⟨_, update_mem_of_key hr hid, rfl, rfl⟩
    · exact ⟨r, update_mem_of_ne hr hid, rfl, rfl⟩
  · intro r' hr'
    rcases mem_updateOrigin hr' with ⟨hr, -⟩ | ⟨r, -, hid, rfl⟩
    · exact .inl hr
    · exact .inr ⟨hid, rfl⟩

theorem commit_insertDomain {d d' : Domains} {domainId storedId : BitVec 32} {domain : String}
    {origin synthetic storedSynthetic : Ipv6Addr} {ttl : BitVec 32}
    (h : d.insertDomain domainId domain origin synthetic ttl =
      some (d', storedId, storedSynthetic)) : Commit d storedId origin d' := by
  rcases insertDomain_eq_some h with ⟨r, hr, hdom, rfl, rfl, -⟩ | ⟨hrows, rfl, -⟩
  · constructor
    · apply allocation_le_of_rows
      intro r₀ hr₀
      by_cases hx : r₀.domain = domain
      · exact ⟨_, update_mem_of_key hr₀ hx, rfl, rfl⟩
      · exact ⟨r₀, update_mem_of_ne hr₀ hx, rfl, rfl⟩
    · intro r' hr'
      rcases mem_refresh hr' with ⟨hr₀, -⟩ | ⟨r₀, hr₀, hx, rfl⟩
      · exact .inl hr₀
      · rw [d.uniqueDomain.eq_of_mem hr₀ hr (hx.trans hdom.symm)]
        exact .inr ⟨rfl, rfl⟩
  · constructor
    · apply allocation_le_of_rows
      intro r₀ hr₀
      exact ⟨r₀, by rw [hrows]; exact List.mem_append_left _ hr₀, rfl, rfl⟩
    · intro r' hr'
      rw [hrows] at hr'
      rcases List.mem_append.mp hr' with hr₀ | hnew
      · exact .inl hr₀
      · rw [List.mem_singleton.mp hnew]
        exact .inr ⟨rfl, rfl⟩

theorem stored_insertDomain {d d' : Domains} {domainId storedId : BitVec 32} {domain : String}
    {origin synthetic storedSynthetic : Ipv6Addr} {ttl : BitVec 32}
    (h : d.insertDomain domainId domain origin synthetic ttl =
      some (d', storedId, storedSynthetic)) :
    ∃ r ∈ d'.rows, r.domain = domain ∧ r.domainId = storedId ∧
      r.syntheticIpv6 = storedSynthetic ∧ r.originIpv6 = origin := by
  rcases insertDomain_eq_some h with ⟨r, hr, hdom, rfl, rfl, rfl⟩ | ⟨hrows, rfl, rfl⟩
  · exact ⟨{ r with originIpv6 := origin, ttlSeconds := some ttl }, update_mem_of_key hr hdom,
      hdom, rfl, rfl, rfl⟩
  · refine ⟨⟨storedId, domain, origin, storedSynthetic, some ttl⟩, ?_, rfl, rfl, rfl, rfl⟩
    rw [hrows]
    exact List.mem_append_right _ (List.mem_singleton_self _)

end Domains

end PrototypeNet
