import Rq.Queue

/-
  rq core, the sorted sets of the child queues (rq/queue.py lines 503-567), run by one client
  with no other client acting. `WIPQueue` keeps the IDs of the jobs being worked on, scored by
  their deadline; `DoneQueue` keeps finished jobs the same way. The two `add_job` bodies are the
  same text, `ChildQueue.addJob`. `DoneQueue.requeue_job` is `pass`.

  * `ChildQueue.lt_rank`: a deadline computed at a clock reading after `t` is after `t`, unless
    the job's own timeout is zero (a missing timeout falls back to a positive one).
  * `ChildQueue.addJob_zentries`: `add_job` leaves the job's ID one entry, scored by its
    deadline, and every other member's entries as they were.
  * `WIPQueue.removeJob_zentries`: `remove_job` removes the ID's entries and counts them.
  * `WIPQueue.removeExpiredJobs_zentries`: `remove_expired_jobs` removes exactly the members
    with an entry scored at most the clock reading.
-/

namespace Rq

/-! ## `add_job` -/

/-- The timeout `add_job` adds to the clock: the job's, else `self._default_timeout or
    self.DEFAULT_TIMEOUT` (Python's `or`, so a zero default counts as none). -/
def ChildQueue.timeout (q : Queue) (job : Job) : Nat :=
  match job.timeout with
  | some timeout => timeout
  | none => (pyOr q.defaultTimeout (some DEFAULT_TIMEOUT)).getD DEFAULT_TIMEOUT

/-- `rank = time.time() + timeout`, the clock read as `now`. -/
def ChildQueue.rank (q : Queue) (job : Job) (now : Nat) : Nat := now + ChildQueue.timeout q job

/-- The `add_job` body `WIPQueue` and `DoneQueue` share: `ZADD key rank job.id`. -/
def ChildQueue.addJob (q : Queue) (job : Job) (now : Nat) (s : Store) : Store :=
  s.zadd q.key (ChildQueue.rank q job now) job.id

/-- `WIPQueue.add_job(job)`. -/
def WIPQueue.addJob (q : Queue) (job : Job) (now : Nat) (s : Store) : Store :=
  ChildQueue.addJob q job now s

/-- `DoneQueue.add_job(job)`. -/
def DoneQueue.addJob (q : Queue) (job : Job) (now : Nat) (s : Store) : Store :=
  ChildQueue.addJob q job now s

theorem ChildQueue.timeout_pos (q : Queue) {job : Job} (h : job.timeout = none) :
    0 < ChildQueue.timeout q job := by
  simp only [ChildQueue.timeout, h, pyOr]
  split <;> simp [DEFAULT_TIMEOUT]

theorem ChildQueue.lt_rank (q : Queue) {job : Job} {t now : Nat} (hnow : t ≤ now)
    (h : job.timeout ≠ some 0) : t < ChildQueue.rank q job now := by
  have : 0 < ChildQueue.timeout q job := by
    cases ht : job.timeout with
    | none => exact ChildQueue.timeout_pos q ht
    | some n =>
      simp only [ChildQueue.timeout, ht]
      exact Nat.pos_of_ne_zero fun hn => h (by rw [ht, hn])
  unfold ChildQueue.rank
  omega

theorem ChildQueue.addJob_zentries (q : Queue) (job : Job) (now : Nat) (s : Store) (x : String) :
    (ChildQueue.addJob q job now s).zentries q.key x =
      if job.id = x then [(x, ChildQueue.rank q job now)] else s.zentries q.key x := by
  by_cases h : job.id = x <;> simp [ChildQueue.addJob, h]

/-- `add_job` gives the job's ID its deadline as score. -/
theorem ChildQueue.addJob_zscore (q : Queue) (job : Job) (now : Nat) (s : Store) :
    (ChildQueue.addJob q job now s).zscore q.key job.id = some (ChildQueue.rank q job now) := by
  simp [Store.zscore_eq_zentries, ChildQueue.addJob_zentries]

/-! ## Removing -/

/-- `WIPQueue.remove_job(job)`: `ZREM key id`, returning how many entries it removed. -/
def WIPQueue.removeJob (q : Queue) (job : JobOrId) (s : Store) : Nat × Store :=
  s.zrem q.key [job.text]

/-- `WIPQueue.remove_expired_jobs()`, the clock read as `now`: `ZRANGEBYSCORE key -inf now`,
    then `ZREM` of what it returned, when that is not empty. -/
def WIPQueue.removeExpiredJobs (q : Queue) (now : Nat) (s : Store) : Store :=
  let toRemove := s.zrangebyscore q.key now
  if toRemove.length > 0 then (s.zrem q.key toRemove).2 else s

theorem WIPQueue.removeJob_zentries (q : Queue) (job : JobOrId) (s : Store) (x : String) :
    (WIPQueue.removeJob q job s).1 = (s.zentries q.key job.text).length ∧
      (WIPQueue.removeJob q job s).2.zentries q.key x =
        if x = job.text then [] else s.zentries q.key x := by
  refine ⟨?_, by simp [WIPQueue.removeJob]⟩
  simp only [WIPQueue.removeJob, Store.zrem, Store.zentries, List.mem_singleton]

theorem WIPQueue.removeExpiredJobs_zentries (q : Queue) (now : Nat) (s : Store) (x : String) :
    (WIPQueue.removeExpiredJobs q now s).zentries q.key x =
      if ∃ e ∈ s.zentries q.key x, e.2 ≤ now then [] else s.zentries q.key x := by
  simp only [← Store.mem_zrangebyscore, WIPQueue.removeExpiredJobs]
  by_cases hl : (s.zrangebyscore q.key now).length > 0
  · rw [if_pos hl]
    exact Store.zentries_zrem _ _ _ _
  · have : s.zrangebyscore q.key now = [] := List.eq_nil_of_length_eq_zero (by omega)
    simp [this]

end Rq
