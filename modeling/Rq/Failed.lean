import Rq.Queue

/-
  rq core, `FailedQueue.quarantine` and `FailedQueue.requeue` (rq/queue.py lines 454-486), run
  by one client with no other client acting.

  `quarantine` stamps `ended_at` and `exc_info` and calls `enqueue_job` without meta data, so the
  job keeps its origin and timeout. `requeue` removes every occurrence of the ID from the failed
  list, then calls `enqueue_job` with meta data on `Queue(job.origin)`, which sets the origin to
  the name it already had.

  * `FailedQueue.requeue_of_failed`, `FailedQueue.requeue_of_failed_store`: what one `requeue`
    does to a job whose ID is in the failed list.
  * `requeue_ignores_status`: for a record that decodes, `requeue` returns normally exactly when
    the ID is in the failed list and raises `InvalidJobOperation` otherwise; the record's status
    changes nothing, so "not failed" means "not in the failed list".
  * `quarantine_requeue_round_trip`: for a job whose record decodes, with a timeout and an
    origin `o` other than the failed queue's name, `quarantine` then `requeue` leaves the failed
    list as it was with every occurrence of the ID removed and appends the ID once to
    `Queue(o)`'s list; the record is `QUEUED` with no `exc_info`, and keeps every other field as
    `quarantine` wrote it.
  * `quarantine_requeue_failed_origin_or_undecodable`: when the origin is the failed queue's
    name, the ID ends in the failed list again; when the record does not decode, `requeue`
    raises `UnpickleError` and the ID stays in the failed list.
-/

namespace Rq

/-! ## One call alone -/

theorem FailedQueue.requeue_of_failed {jobId : String} {now : Nat} {s : Store} {job : Job}
    (hf : Job.fetch s jobId = .ok job) (hid : job.id = jobId)
    (hm : jobId ∈ s.lists FailedQueue.new.key) :
    FailedQueue.requeue jobId now s =
      (.ok (), ((Queue.ofOrigin job.origin).enqueueJob
        { job with status := some .queued, excInfo := none } true now
        (FailedQueue.new.remove job.id s).2).2) := by
  have hc : (s.lists FailedQueue.new.key).count jobId ≠ 0 := (List.count_pos_iff.2 hm).ne'
  simp [FailedQueue.requeue, hf, Queue.remove, Store.lrem, hid, hc, Queue.enqueueJob_fst,
    Queue.ofOrigin, Queue.new, Except.map]

/-- What `requeue` alone does to a failed job whose origin is another queue: its ID leaves the
    failed list and is pushed once onto the origin's list, and its record is `QUEUED` with no
    `exc_info`. -/
theorem FailedQueue.requeue_of_failed_store {jobId : String} {now : Nat} {s : Store} {job : Job}
    (hf : Job.fetch s jobId = .ok job) (hid : job.id = jobId)
    (hm : jobId ∈ s.lists FailedQueue.new.key)
    (horigin : (Queue.ofOrigin job.origin).key ≠ FailedQueue.new.key) :
    jobId ∉ (FailedQueue.requeue jobId now s).2.lists FailedQueue.new.key ∧
      (FailedQueue.requeue jobId now s).2.lists (Queue.ofOrigin job.origin).key =
        s.lists (Queue.ofOrigin job.origin).key ++ [jobId] ∧
      Job.getStatus (FailedQueue.requeue jobId now s).2 jobId = some .queued ∧
      ((FailedQueue.requeue jobId now s).2.records jobId).bind (·.excInfo) = none := by
  rw [FailedQueue.requeue_of_failed hf hid hm]
  subst hid
  refine ⟨?_, ?_, ?_, ?_⟩
  · simp [Queue.enqueueJob_lists, Ne.symm horigin, Queue.remove, Store.lrem]
  · have ha : (Queue.ofOrigin job.origin).isAsync = true := rfl
    simp [Queue.enqueueJob_lists, horigin, ha, Queue.remove, Store.lrem]
  · simp [Job.getStatus, Queue.enqueueJob_records]
  · simp [Queue.enqueueJob_records]

/-- For a record that decodes, `requeue` returns normally exactly when the ID is in the failed
    list: the one check it makes is the count `LREM` returns. -/
theorem FailedQueue.requeue_result (x : String) (now : Nat) {s : Store} (hk : s.WellKeyed)
    {j : Job} (hj : s.records x = some j) (hd : j.decodes = true) :
    (FailedQueue.requeue x now s).1 = if x ∈ s.lists FailedQueue.new.key then .ok ()
      else .error (.invalidJobOperation "Cannot requeue non-failed jobs.") := by
  have hf : Job.fetch s x = .ok j := by simp [Job.fetch, hj, hd]
  have hid : j.id = x := hk x j hj
  split_ifs with hm
  · rw [FailedQueue.requeue_of_failed hf hid hm]
  · have hc : (s.lists FailedQueue.new.key).count x = 0 := List.count_eq_zero.2 hm
    simp [FailedQueue.requeue, hf, Queue.remove, Store.lrem, hid, hc]

/-- `requeue` reads no status: for a record that decodes, it returns normally exactly when the
    ID is in the failed list, and it raises `InvalidJobOperation` otherwise, whatever status the
    record holds; a `FAILED` job missing from the list is refused, a `QUEUED` one on it is
    requeued. -/
theorem requeue_ignores_status (x : String) (now : Nat) (s : Store) (hk : s.WellKeyed) (j : Job)
    (hj : s.records x = some j) (hd : j.decodes = true) :
    (FailedQueue.requeue x now s).1 = (if x ∈ s.lists FailedQueue.new.key then .ok ()
      else .error (.invalidJobOperation "Cannot requeue non-failed jobs.")) ∧
      ∀ st, (FailedQueue.requeue x now (Job.setStatus s x st)).1 =
        (FailedQueue.requeue x now s).1 := by
  have h := FailedQueue.requeue_result x now hk hj hd
  refine ⟨h, fun st => ?_⟩
  have hj' : (Job.setStatus s x st).records x = some { j with status := some st } := by
    simp [Job.setStatus, hj]
  rw [FailedQueue.requeue_result x now (hk.setStatus x st) hj' hd, h, Job.setStatus_lists]

/-- A `FAILED` job whose ID is not in the failed list is refused. -/
theorem requeue_ignores_status_unlisted :
    (FailedQueue.requeue "a" 0 (Job.save Store.empty { id := "a", status := some .failed })).1 =
      .error (.invalidJobOperation "Cannot requeue non-failed jobs.") := by
  rw [(requeue_ignores_status "a" 0 _ (Store.WellKeyed.save (fun _ _ h => Option.noConfusion h) _)
    { id := "a", status := some .failed } (by simp [Job.save]) rfl).1]
  simp [Job.save, Store.empty]



/-! ## Quarantine, then requeue -/

/-- `Queue(o)` is the failed queue's list only for the name `Status.FAILED`. -/
theorem Queue.new_key_ne_failed {o : String} (h : o ≠ Status.failed.text) :
    (Queue.new o).key ≠ FailedQueue.new.key := by
  intro he
  have hd := congrArg String.data he
  simp only [Queue.key, Queue.new, FailedQueue.new, String.data_append] at hd
  exact h (String.ext (List.append_cancel_left hd))

/-- `quarantine` without meta data: the job saved with `ended_at` and `exc_info`, its ID pushed
    onto the failed list. -/
theorem FailedQueue.quarantine_store (j : Job) (excInfo : String) (now : Nat) (s : Store)
    (ht : j.timeout.isSome) :
    (FailedQueue.quarantine j excInfo now s).2.records j.id =
        some { j with endedAt := some now, excInfo := some excInfo } ∧
      ∀ k, (FailedQueue.quarantine j excInfo now s).2.lists k =
        if k = FailedQueue.new.key then s.lists k ++ [j.id] else s.lists k := by
  obtain ⟨t, ht⟩ := Option.isSome_iff_exists.1 ht
  refine ⟨?_, fun k => ?_⟩
  · simp [FailedQueue.quarantine, Queue.enqueueJob_records, Queue.jobMeta, ht]
  · by_cases hk : k = FailedQueue.new.key <;> simp [FailedQueue.quarantine, Queue.enqueueJob_lists, hk, FailedQueue.new]

theorem quarantine_requeue_round_trip (j : Job) (excInfo : String) (now now' : Nat) (s : Store)
    {o : String} (hdec : j.decodes = true) (ht : j.timeout.isSome) (ho : j.origin = some o)
    (hfailed : o ≠ Status.failed.text) :
    (let r := FailedQueue.requeue j.id now' (FailedQueue.quarantine j excInfo now s).2;
      r.1 = .ok () ∧
      r.2.lists FailedQueue.new.key = (s.lists FailedQueue.new.key).filter (· ≠ j.id) ∧
      r.2.lists (Queue.new o).key = s.lists (Queue.new o).key ++ [j.id] ∧
      r.2.records j.id =
        some { j with status := some .queued, excInfo := none, endedAt := some now,
                      enqueuedAt := some now' }) := by
  obtain ⟨hrec, hlists⟩ := FailedQueue.quarantine_store j excInfo now s ht
  have hkey := Queue.new_key_ne_failed hfailed
  rw [@FailedQueue.requeue_of_failed j.id now' _
    { j with endedAt := some now, excInfo := some excInfo }
    (by simp [Job.fetch, hrec, hdec]) rfl (by simp [hlists])]
  obtain ⟨t, ht⟩ := Option.isSome_iff_exists.1 ht
  have hq : Queue.ofOrigin j.origin = Queue.new o := by simp [Queue.ofOrigin, ho]
  refine ⟨rfl, ?_, ?_, ?_⟩
  · simp [hq, Queue.enqueueJob_lists, Ne.symm hkey, Queue.remove, Store.lrem, hlists,
      List.filter_append]
  · have ha : (Queue.new o).isAsync = true := rfl
    simp [hq, Queue.enqueueJob_lists, hkey, ha, Queue.remove, Store.lrem, hlists]
  · simp [hq, Queue.enqueueJob_records, Queue.jobMeta, ht, ho, Queue.ofOrigin, Queue.new]

/-- The round trip of `test_requeue_job`: origin `fake`, empty failed queue. -/
theorem quarantine_requeue_round_trip_fake :
    (let j : Job := { id := "j", origin := some "fake", timeout := some 1 };
      let r := FailedQueue.requeue j.id 1 (FailedQueue.quarantine j "e" 0 Store.empty).2;
      r.1 = .ok () ∧
      r.2.lists FailedQueue.new.key = (Store.empty.lists FailedQueue.new.key).filter (· ≠ j.id) ∧
      r.2.lists (Queue.new "fake").key = Store.empty.lists (Queue.new "fake").key ++ [j.id] ∧
      r.2.records j.id =
        some { j with status := some .queued, excInfo := none, endedAt := some 0,
                      enqueuedAt := some 1 }) :=
  quarantine_requeue_round_trip { id := "j", origin := some "fake", timeout := some 1 } "e" 0 1
    Store.empty (o := "fake") rfl rfl rfl (by decide)

/-- A job whose origin is the failed queue comes back to the failed list; for a job whose record
    does not decode, `requeue` raises `UnpickleError` and the ID stays in the failed list. -/
theorem quarantine_requeue_failed_origin_or_undecodable :
    (FailedQueue.requeue "j" 1 (FailedQueue.quarantine
      { id := "j", origin := some "failed", timeout := some 1 } "e" 0 Store.empty).2).2.lists
        FailedQueue.new.key = ["j"] ∧
    (FailedQueue.requeue "j" 1 (FailedQueue.quarantine
      { id := "j", origin := some "a", timeout := some 1, decodes := false } "e" 0
        Store.empty).2).1 = .error (.unpickle none none) ∧
    (FailedQueue.requeue "j" 1 (FailedQueue.quarantine
      { id := "j", origin := some "a", timeout := some 1, decodes := false } "e" 0
        Store.empty).2).2.lists FailedQueue.new.key = ["j"] :=
  ⟨by decide, rfl, by decide⟩

end Rq
