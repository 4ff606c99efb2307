import PrototypeNet.Lib.Fallible
import PrototypeNet.Lib.Runs

/-!
# The supervisor of the listener

`listen_for_changes` is a loop that creates a connection pool, runs the
listener until it ends and sleeps for a back-off.  One event is the outcome of
one of its three waits, so a run is any history of outcomes.  Durations are
counted in nanoseconds.
-/

namespace PrototypeNet

open Fallible Runs

/-- `Duration::from_secs`. -/
def fromSecs (seconds : ℕ) : ℕ :=
  seconds * 10 ^ 9

def healthyRunThreshold : ℕ := fromSecs 5

def initialBackoff : ℕ := fromSecs 1

def maxBackoff : ℕ := fromSecs 30

def createPool (connected : Except String Unit) : Except ErrorChain Unit :=
  connected.mapError fun e ↦ ["failed to connect to Postgres", e]

/-- The back-off after a run that took `elapsed`: the first one again if the
run was healthy, otherwise twice the last one, up to the limit. -/
def nextBackoff (backoff elapsed : ℕ) : ℕ :=
  if healthyRunThreshold ≤ elapsed then initialBackoff else min (backoff * 2) maxBackoff

/-- Where `listen_for_changes` is, by what it waits for. -/
inductive Supervisor
  | createPool (backoff : ℕ)
  | runListener (backoff : ℕ)
  | sleep (backoff : ℕ)
  | returned (error : ErrorChain)
  deriving DecidableEq, Repr

/-- The outcome of a wait: whether the connection for the pool came up, how
and after which time `run_listener` ended, the end of the sleep. -/
inductive SupervisorEvent
  | createPool (connected : Except String Unit)
  | runListener (result : Except ErrorChain Unit) (elapsed : ℕ)
  | wake

def listenForChanges : Supervisor :=
  .createPool initialBackoff

/-- One step of the loop.  Both ways in which the listener can end are only
logged; the `?` behind the creation of the pool leaves the loop. -/
def supervisorStep : Supervisor → SupervisorEvent → Option Supervisor
  | .createPool backoff, .createPool connected =>
      match createPool connected with
      | .ok () => some (.runListener backoff)
      | .error e =>
          some (.returned ("PgListener supervisor: failed to create connection pool" :: e))
  | .runListener backoff, .runListener _ elapsed => some (.sleep (nextBackoff backoff elapsed))
  | .sleep backoff, .wake => some (.createPool backoff)
  | _, _ => none

/-! ## What a step can do -/

theorem supervisorStep_cases {s s' : Supervisor} {e : SupervisorEvent}
    (h : supervisorStep s e = some s') :
    (∃ b, s = .createPool b ∧ e = .createPool (.ok ()) ∧ s' = .runListener b) ∨
    (∃ b msg, s = .createPool b ∧ e = .createPool (.error msg) ∧
      ∃ chain, s' = .returned chain) ∨
    (∃ b r elapsed, s = .runListener b ∧ e = .runListener r elapsed ∧
      s' = .sleep (nextBackoff b elapsed)) ∨
    ∃ b, s = .sleep b ∧ e = .wake ∧ s' = .createPool b := by
  unfold supervisorStep at h
  split at h
  · rename_i b connected
    cases connected with
    | ok u =>
        cases h
        exact .inl ⟨b, rfl, rfl, rfl⟩
    | error msg =>
        cases h
        exact .inr (.inl ⟨b, msg, rfl, rfl, _, rfl⟩)
  · rename_i b r elapsed
    cases h
    exact .inr (.inr (.inl ⟨b, r, elapsed, rfl, rfl, rfl⟩))
  · rename_i b
    cases h
    exact .inr (.inr (.inr ⟨b, rfl, rfl, rfl⟩))
  · cases h

def InBounds (backoff : ℕ) : Prop :=
  initialBackoff ≤ backoff ∧ backoff ≤ maxBackoff

theorem inBounds_initialBackoff : InBounds initialBackoff :=
  ⟨le_refl _, by decide⟩

theorem inBounds_nextBackoff {backoff : ℕ} (h : InBounds backoff) (elapsed : ℕ) :
    InBounds (nextBackoff backoff elapsed) := by
  obtain ⟨hlow, hhigh⟩ := h
  unfold nextBackoff
  split
  · exact inBounds_initialBackoff
  · have hle : initialBackoff ≤ maxBackoff := by decide
    exact ⟨le_min (by omega) hle, min_le_right _ _⟩

/-- The back-off the supervisor holds is within the limits. -/
def Supervisor.Bounded : Supervisor → Prop
  | .createPool backoff => InBounds backoff
  | .runListener backoff => InBounds backoff
  | .sleep backoff => InBounds backoff
  | .returned _ => True

theorem bounded_listenForChanges : listenForChanges.Bounded :=
  inBounds_initialBackoff

theorem bounded_supervisorStep (s : Supervisor) (e : SupervisorEvent) (s' : Supervisor)
    (hs : s.Bounded) (h : supervisorStep s e = some s') : s'.Bounded := by
  rcases supervisorStep_cases h with ⟨b, rfl, -, rfl⟩ | ⟨b, msg, rfl, -, chain, rfl⟩ |
    ⟨b, r, elapsed, rfl, -, rfl⟩ | ⟨b, rfl, -, rfl⟩
  · exact hs
  · trivial
  · exact inBounds_nextBackoff hs elapsed
  · exact hs

/-! ## Whole histories -/

/-- The outcomes that count as a failure of the database: a pool that cannot
be created and any end of the listener. -/
def SupervisorEvent.IsFailure : SupervisorEvent → Prop
  | .createPool connected => connected ≠ .ok ()
  | .runListener _ _ => True
  | .wake => False

/-- A history `es` that led to `s`: the supervisor has returned only if the
first pool could not be created, and once a pool was created, a failure puts
it to sleep within the limits, after which it tries again. -/
def Persistent (es : List SupervisorEvent) (s : Supervisor) : Prop :=
  (∀ chain, s = .returned chain → ∃ msg, es = [.createPool (.error msg)]) ∧
  ∀ earlier e, es = earlier ++ [e] → .createPool (.ok ()) ∈ earlier → e.IsFailure →
    ∃ b, s = .sleep b ∧ InBounds b ∧ supervisorStep s .wake = some (.createPool b)

/-- A failed creation of the pool is the last thing that happens. -/
theorem returned_of_failed_pool {s t : Supervisor} {es : List SupervisorEvent} {msg : String}
    (h : play supervisorStep s es = some t) (hmem : .createPool (.error msg) ∈ es) :
    (∃ earlier, es = earlier ++ [.createPool (.error msg)]) ∧ ∃ chain, t = .returned chain := by
  induction es generalizing s with
  | nil => cases hmem
  | cons e es ih =>
      obtain ⟨u, hu, hplay⟩ := play_cons h
      rcases List.mem_cons.mp hmem with rfl | hlater
      · -- The loop is left, so nothing can follow.
        rcases supervisorStep_cases hu with ⟨b, -, he, -⟩ | ⟨b, msg', -, -, chain, rfl⟩ |
          ⟨b, r, elapsed, -, he, -⟩ | ⟨b, -, he, -⟩
        · cases he
        · cases es with
          | nil =>
              cases hplay
              exact ⟨⟨[], rfl⟩, chain, rfl⟩
          | cons e' es =>
              obtain ⟨v, hv, -⟩ := play_cons hplay
              cases hv
        · cases he
        · cases he
      · obtain ⟨⟨earlier, rfl⟩, hend⟩ := ih hplay hlater
        exact ⟨⟨e :: earlier, rfl⟩, hend⟩

theorem failed_pool_of_returned {s : Supervisor} {e : SupervisorEvent} {chain : ErrorChain}
    (h : supervisorStep s e = some (.returned chain)) : ∃ msg, e = .createPool (.error msg) := by
  rcases supervisorStep_cases h with ⟨b, -, -, hs⟩ | ⟨b, msg, -, he, -⟩ |
    ⟨b, r, elapsed, -, -, hs⟩ | ⟨b, -, -, hs⟩
  · cases hs
  · exact ⟨msg, he⟩
  · cases hs
  · cases hs

theorem sleep_of_listener_end {s t : Supervisor} {r : Except ErrorChain Unit} {elapsed : ℕ}
    (h : supervisorStep s (.runListener r elapsed) = some t) : ∃ b, t = .sleep b := by
  rcases supervisorStep_cases h with ⟨b, -, he, -⟩ | ⟨b, msg, -, he, -⟩ |
    ⟨b, r, elapsed, -, -, hs⟩ | ⟨b, -, he, -⟩
  · cases he
  · cases he
  · exact ⟨_, hs⟩
  · cases he

theorem mem_tail_of_concat {α : Type} {earlier : List α} {e : α} (h : earlier ≠ []) :
    e ∈ (earlier ++ [e]).tail := by
  rw [List.tail_append_of_ne_nil h]
  exact List.mem_append_right _ (List.mem_singleton_self e)

/-- The supervisor persists exactly as long as no pool but the first fails. -/
theorem supervisor_persists_iff {es : List SupervisorEvent} {s : Supervisor}
    (h : play supervisorStep listenForChanges es = some s) :
    Persistent es s ↔ ∀ msg, SupervisorEvent.createPool (.error msg) ∉ es.tail := by
  constructor
  · rintro ⟨hreturn, -⟩ msg hmem
    obtain ⟨-, chain, hs⟩ := returned_of_failed_pool h (List.mem_of_mem_tail hmem)
    obtain ⟨msg', rfl⟩ := hreturn chain hs
    cases hmem
  · intro hpools
    have hbounded : s.Bounded :=
      play_invariant Supervisor.Bounded bounded_supervisorStep bounded_listenForChanges h
    constructor
    · rintro chain rfl
      rcases List.eq_nil_or_concat' es with rfl | ⟨earlier, e, rfl⟩
      · cases h
      · obtain ⟨u, -, hlast⟩ := play_concat h
        obtain ⟨msg, rfl⟩ := failed_pool_of_returned hlast
        by_cases hne : earlier = []
        · exact ⟨msg, by rw [hne]; rfl⟩
        · exact absurd (mem_tail_of_concat hne) (hpools msg)
    · rintro earlier e rfl hok hfail
      have hne : earlier ≠ [] := List.ne_nil_of_mem hok
      obtain ⟨u, -, hlast⟩ := play_concat h
      cases e with
      | createPool connected =>
          cases connected with
          | ok u => exact absurd rfl hfail
          | error msg => exact absurd (mem_tail_of_concat hne) (hpools msg)
      | runListener r elapsed =>
          obtain ⟨b, rfl⟩ := sleep_of_listener_end hlast
          exact ⟨b, rfl, hbounded, rfl⟩
      | wake => exact hfail.elim

/-- A listener that fails at once is tried again after two seconds. -/
theorem supervisor_persists_after_failure :
    Persistent [.createPool (.ok ()),
      .runListener (.error ["failed to connect PgListener",
        "error communicating with database: Connection reset by peer (os error 104)"]) 0]
      (.sleep (fromSecs 2)) :=
  (supervisor_persists_iff rfl).mpr (by simp)

/-- What a pool reports if the database is down: refused connections are tried
again until the pool's own time is up. -/
def poolTimedOut : String :=
  "pool timed out while waiting for an open connection"

/-- A database that is still down when the first back-off is over ends the
supervisor. -/
theorem supervisor_gives_up_on_second_pool :
    play supervisorStep listenForChanges
        [.createPool (.ok ()), .runListener (.error ["PgListener recv error", poolTimedOut])
          (fromSecs 3600), .wake, .createPool (.error poolTimedOut)] =
      some (.returned ["PgListener supervisor: failed to create connection pool",
        "failed to connect to Postgres", poolTimedOut]) :=
  rfl

end PrototypeNet
