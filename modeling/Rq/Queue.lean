import Rq.Basic

/-
  rq core, `Queue` and `FailedQueue` (rq/queue.py): the enqueue side, run by one client with
  no other client acting. Each method is one function from a store to its result and the
  store it leaves; a raised exception is `.error` together with the store at that point, since
  Redis keeps the writes made before it.

  A clock reading (`utcnow()`) is the argument `now`; the fresh id `Job.create` draws is the
  argument `id`; the member `SPOP` returns is chosen by `pick` from the set's members.
  An `async=False` queue runs the job inline with `job.perform()`: the exception of the job's
  function propagates out of `enqueue_job` and every caller, after the job's record was saved
  (`Queue.enqueueJob_fst`); no store write depends on it.

  `enqueue_call`, `release_job` and `requeue` raise before their first write, or after a
  removal that found nothing, unless the job's own function raised; so each leaves the store as
  it was when it raises anything else (`Queue.enqueueCall_error_store`,
  `releaseJob_error_store`, `FailedQueue.requeue_error_store`).
-/

namespace Rq

/-! ## Queue objects -/

/-- `Queue(name, default_timeout, async)`. -/
def Queue.new (name : String) (defaultTimeout : Option Nat := none) (isAsync : Bool := true) :
    Queue :=
  ⟨.queue, name, defaultTimeout, isAsync⟩

/-- `FailedQueue()`: the queue named `Status.FAILED`. -/
def FailedQueue.new : Queue := ⟨.failedQueue, Status.failed.text, none, true⟩

/-- `ChildQueue.of_parent`: `cls(parent.name, parent._default_timeout, ..., parent._async)`. -/
def ChildQueue.ofParent (cls : QueueClass) (parent : Queue) : Queue :=
  ⟨cls, parent.name, parent.defaultTimeout, parent.isAsync⟩

/-- `WIPQueue.of_parent`. -/
def WIPQueue.ofParent (parent : Queue) : Queue := ChildQueue.ofParent .wipQueue parent

/-- `DoneQueue.of_parent`. -/
def DoneQueue.ofParent (parent : Queue) : Queue := ChildQueue.ofParent .doneQueue parent

/-- `Queue.from_queue_key` (called on `Queue`): the name is the key after the plain prefix. -/
def Queue.fromQueueKey (queueKey : String) : Except RqError Queue :=
  let pfx := QueueClass.queue.redisQueueNamespacePrefix
  if pfx.data.isPrefixOf queueKey.data then .ok (Queue.new ⟨queueKey.data.drop pfx.length⟩)
  else .error (.valueError ("Not a valid RQ queue key: " ++ queueKey))

/-- `from_queue_key` inverts the key `__init__` builds, for every name, on the classes that keep
    the plain prefix (`Queue`, `FailedQueue`). -/
theorem Queue.fromQueueKey_key {q : Queue} (hq : q.cls.redisQueueNamespacePrefix = "rq:queue:") :
    Queue.fromQueueKey q.key = .ok (Queue.new q.name) := by
  have hd : ("rq:queue:".data.isPrefixOf q.key.data) = true := by
    rw [Queue.key, hq, String.data_append, List.isPrefixOf_iff_prefix]
    exact List.prefix_append _ _
  simp only [Queue.fromQueueKey, QueueClass.redisQueueNamespacePrefix, hd, if_true]
  rw [Queue.key, hq, String.data_append]
  simp [String.length]

/-- `Queue.all()`: `from_queue_key` of every non-empty member of `rq:queues`. -/
def Queue.all (s : Store) : Except RqError (List Queue) :=
  ((s.sets .queues).filter (· ≠ "")).mapM Queue.fromQueueKey

/-- Python's `a or b` on an optional number: `None` and `0` are false. -/
def pyOr (a b : Option Nat) : Option Nat :=
  match a with
  | some (n + 1) => some (n + 1)
  | _ => b

/-! ## Enqueueing -/

/-- What `enqueue_job` and `defer_job` set before saving: `origin` and `enqueued_at` when
    `set_meta_data`, and `DEFAULT_TIMEOUT` when the job has no timeout. -/
def Queue.jobMeta (q : Queue) (job : Job) (setMetaData : Bool) (now : Nat) : Job :=
  let job := if setMetaData then { job with origin := some q.name, enqueuedAt := some now } else job
  match job.timeout with
  | none => { job with timeout := some DEFAULT_TIMEOUT }
  | some _ => job

@[simp] theorem Queue.jobMeta_id (q : Queue) (job : Job) (b : Bool) (now : Nat) :
    (q.jobMeta job b now).id = job.id := by
  cases b <;> cases ht : job.timeout <;> simp [Queue.jobMeta, ht]
@[simp] theorem Queue.jobMeta_status (q : Queue) (job : Job) (b : Bool) (now : Nat) :
    (q.jobMeta job b now).status = job.status := by
  cases b <;> cases ht : job.timeout <;> simp [Queue.jobMeta, ht]
@[simp] theorem Queue.jobMeta_excInfo (q : Queue) (job : Job) (b : Bool) (now : Nat) :
    (q.jobMeta job b now).excInfo = job.excInfo := by
  cases b <;> cases ht : job.timeout <;> simp [Queue.jobMeta, ht]
@[simp] theorem Queue.jobMeta_decodes (q : Queue) (job : Job) (b : Bool) (now : Nat) :
    (q.jobMeta job b now).decodes = job.decodes := by
  cases b <;> cases ht : job.timeout <;> simp [Queue.jobMeta, ht]
@[simp] theorem Queue.jobMeta_raises (q : Queue) (job : Job) (b : Bool) (now : Nat) :
    (q.jobMeta job b now).raises = job.raises := by
  cases b <;> cases ht : job.timeout <;> simp [Queue.jobMeta, ht]
@[simp] theorem Queue.jobMeta_perform (q : Queue) (job : Job) (b : Bool) (now : Nat) :
    (q.jobMeta job b now).perform = job.perform := by
  simp [Job.perform]
@[simp] theorem Queue.jobMeta_timeout (q : Queue) (job : Job) (b : Bool) (now : Nat) :
    (q.jobMeta job b now).timeout = some (job.timeout.getD DEFAULT_TIMEOUT) := by
  cases b <;> cases ht : job.timeout <;> simp [Queue.jobMeta, ht]

@[simp] theorem Queue.jobMeta_origin (q : Queue) (job : Job) (b : Bool) (now : Nat) :
    (q.jobMeta job b now).origin = if b then some q.name else job.origin := by
  cases b <;> cases ht : job.timeout <;> simp [Queue.jobMeta, ht]

/-- Setting the meta data twice sets what once does. -/
@[simp] theorem Queue.jobMeta_jobMeta (q : Queue) (job : Job) (now : Nat) :
    q.jobMeta (q.jobMeta job true now) true now = q.jobMeta job true now := by
  cases ht : job.timeout <;> simp [Queue.jobMeta, ht]

/-- `Queue.enqueue_job(job, set_meta_data)`. -/
def Queue.enqueueJob (q : Queue) (job : Job) (setMetaData : Bool) (now : Nat) (s : Store) :
    Except RqError Job × Store :=
  let s := s.sadd q.cls.redisQueuesKeys q.key
  let job := q.jobMeta job setMetaData now
  let s := Job.save s job
  if q.isAsync then (.ok job, s.rpush q.key job.id)
  else
    match job.perform with
    | .error e => (.error e, s)
    | .ok () => (.ok job, Job.save s job)

/-- `enqueue_job` returns the job with its meta data, or, on a synchronous queue, the exception
    of the job's function. -/
theorem Queue.enqueueJob_fst (q : Queue) (job : Job) (b : Bool) (now : Nat) (s : Store) :
    (q.enqueueJob job b now s).1 =
      (if q.isAsync then .ok () else job.perform).map fun _ => q.jobMeta job b now := by
  unfold Queue.enqueueJob
  split
  · rfl
  · simp only [Queue.jobMeta_perform]
    cases job.perform <;> rfl

/-- `enqueue_job` returns the job when the queue is asynchronous or the job's function
    returns. -/
theorem Queue.enqueueJob_ok {q : Queue} {job : Job} (h : q.isAsync = true ∨ job.raises = none)
    (b : Bool) (now : Nat) (s : Store) :
    (q.enqueueJob job b now s).1 = .ok (q.jobMeta job b now) := by
  rw [Queue.enqueueJob_fst]
  rcases h with h | h <;> simp [h, Job.perform, Except.map]

/-- `enqueue_job` raises only what the job's function raises. -/
theorem Queue.enqueueJob_error {q : Queue} {job : Job} {b : Bool} {now : Nat} {s : Store}
    {e : RqError} (h : (q.enqueueJob job b now s).1 = .error e) : ∃ exc, e = .jobRaised exc := by
  rw [Queue.enqueueJob_fst, except_map_eq_error] at h
  split at h
  · cases h
  · exact Job.perform_error h

/-- The store `enqueue_job` leaves does not depend on what the job's function does: on a
    synchronous queue the second save writes what the first wrote. -/
theorem Queue.enqueueJob_snd (q : Queue) (job : Job) (b : Bool) (now : Nat) (s : Store) :
    (q.enqueueJob job b now s).2 =
      let s := Job.save (s.sadd q.cls.redisQueuesKeys q.key) (q.jobMeta job b now)
      if q.isAsync then s.rpush q.key job.id else s := by
  unfold Queue.enqueueJob
  split
  · simp
  · simp only [Queue.jobMeta_perform]
    cases job.perform <;> simp

/-- `enqueue_job` adds to no set but the registry of queue keys. -/
theorem Queue.enqueueJob_sets (q : Queue) (job : Job) (b : Bool) (now : Nat) (s : Store)
    {k : SetKey} (hk : k ≠ q.cls.redisQueuesKeys) :
    (q.enqueueJob job b now s).2.sets k = s.sets k := by
  rw [Queue.enqueueJob_snd]
  unfold Store.sadd
  split <;> split <;> simp [Job.save, Store.rpush, hk]

/-- `enqueue_job` writes the job's record, with its meta data. -/
theorem Queue.enqueueJob_records (q : Queue) (job : Job) (b : Bool) (now : Nat) (s : Store)
    (i : String) :
    (q.enqueueJob job b now s).2.records i =
      if i = job.id then some (q.jobMeta job b now) else s.records i := by
  rw [Queue.enqueueJob_snd]
  split <;> by_cases hi : i = job.id <;> simp [Job.save, hi]

/-- `enqueue_job` appends the job's ID to its queue's list when the queue is asynchronous, and
    to no list otherwise. -/
theorem Queue.enqueueJob_lists (q : Queue) (job : Job) (b : Bool) (now : Nat) (s : Store)
    (k : String) :
    (q.enqueueJob job b now s).2.lists k =
      if k = q.key ∧ q.isAsync then s.lists k ++ [job.id] else s.lists k := by
  rw [Queue.enqueueJob_snd]
  split <;> by_cases hk : k = q.key <;> simp_all [Job.save]

theorem Store.WellKeyed.enqueueJob {s : Store} (hk : s.WellKeyed) (q : Queue) (job : Job)
    (b : Bool) (now : Nat) : (q.enqueueJob job b now s).2.WellKeyed := fun x r hr => by
  rw [Queue.enqueueJob_records] at hr
  split at hr
  · rename_i hx; cases hr; simp [hx]
  · exact hk x r hr

/-- `Queue.defer_job(job, set_meta_data)`. -/
def Queue.deferJob (q : Queue) (job : Job) (setMetaData : Bool) (now : Nat) (s : Store) :
    Job × Store :=
  let s := s.sadd .deferred job.id
  let job := q.jobMeta job setMetaData now
  (job, Job.save s job)

/-- `Queue.push_job_id`. -/
def Queue.pushJobId (q : Queue) (jobId : String) (s : Store) : Store := s.rpush q.key jobId

/-- `Queue.pop_job_id`. -/
def Queue.popJobId (q : Queue) (s : Store) : Option String × Store := s.lpop q.key

/-- `Queue.remove(job_or_id)`: `LREM key 0 id`. -/
def Queue.remove (q : Queue) (jobId : String) (s : Store) : Nat × Store := s.lrem q.key jobId

/-- `COMPACT_QUEUE`, the scratch key of `Queue.compact` for the `uuid4()` it draws. -/
def Queue.compactKey (q : Queue) (uuid : String) : String :=
  q.cls.redisQueueNamespacePrefix ++ "_compact:" ++ uuid

/-- The `depends_on` and `blocked_by` arguments: a job, or a list of jobs (by their ids). -/
inductive DependsOn
  | job (id : String)
  | list (ids : List String)
  deriving DecidableEq, Repr

/-- Python truth value: a job object is true, a list when it is not empty. -/
def DependsOn.truthy : DependsOn → Bool
  | .job _ => true
  | .list ids => !ids.isEmpty

/-- The parent ids `Job.create` records. -/
def DependsOn.ids : DependsOn → List String
  | .job id => [id]
  | .list ids => ids

/-- The keyword options of `enqueue_call`, and what `func(*args, **kwargs)` raises when the job
    runs (`raises`, `none` when it returns; the model keeps no function). -/
structure CallOptions where
  raises : Option String := none
  timeout : Option Nat := none
  resultTtl : Option Nat := none
  description : Option String := none
  dependsOn : Option DependsOn := none
  deferred : Bool := false
  blockedBy : Option DependsOn := none
  deriving DecidableEq, Repr

/-- `blocked_by` is set (Python truth value). -/
def CallOptions.blocked (o : CallOptions) : Bool := (o.blockedBy.map DependsOn.truthy).getD false

/-- `init_status`: `DEFERRED` when `deferred` or `blocked_by`, else `QUEUED`. -/
def CallOptions.initStatus (o : CallOptions) : Status :=
  if o.deferred || o.blocked then .deferred else .queued

/-- `depends_on` after `if blocked_by: depends_on = blocked_by`. -/
def CallOptions.parents (o : CallOptions) : Option DependsOn :=
  if o.blocked then o.blockedBy else o.dependsOn

/-- The job `Job.create` builds in `enqueue_call` (not yet saved). -/
def Queue.createJob (q : Queue) (o : CallOptions) (id : String) : Job :=
  { id, status := some o.initStatus, timeout := pyOr o.timeout q.defaultTimeout,
    resultTtl := o.resultTtl, description := o.description,
    dependencyIds := (o.parents.map DependsOn.ids).getD [], raises := o.raises }

/-- The last lines of `enqueue_call`: `defer_job` for a deferred job, else `enqueue_job`. -/
def Queue.deferOrEnqueue (q : Queue) (job : Job) (now : Nat) (s : Store) : Except RqError Job × Store :=
  if job.status = some .deferred then
    let r := q.deferJob job true now s
    (.ok r.1, r.2)
  else q.enqueueJob job true now s

/-- `Queue.enqueue_call`. The watch on the parent's key guards no transaction (nothing is
    queued on the pipeline and it is never executed), so `WatchError` cannot occur and the loop
    body runs once. A list of parents has no `key` attribute. -/
def Queue.enqueueCall (q : Queue) (o : CallOptions) (id : String) (now : Nat) (s : Store) :
    Except RqError Job × Store :=
  let job := q.createJob o id
  match o.parents with
  | some (.list _) => (.error (.attributeError "'list' object has no attribute 'key'"), s)
  | some (.job pid) =>
    if Job.getStatus s pid ≠ some .finished then
      (.ok job, Job.save (Job.registerDependency s job pid) job)
    else q.deferOrEnqueue job now s
  | none => q.deferOrEnqueue job now s

/-- `enqueue_call` admits a job only by `defer_job`, which cannot raise, or `enqueue_job`, which
    raises only the exception of the job's function. -/
theorem Queue.deferOrEnqueue_error {q : Queue} {job : Job} {now : Nat} {s : Store} {e : RqError}
    (h : (q.deferOrEnqueue job now s).1 = .error e) : job.perform = .error e := by
  unfold Queue.deferOrEnqueue at h
  split at h
  · cases h
  · rw [Queue.enqueueJob_fst, except_map_eq_error] at h
    split at h
    · cases h
    · exact h

/-- An `enqueue_call` that raises anything but the exception of the job's function leaves the
    store as it was. -/
theorem Queue.enqueueCall_error_store {q : Queue} {o : CallOptions} {id : String} {now : Nat}
    {s : Store} {e : RqError} (h : (q.enqueueCall o id now s).1 = .error e)
    (he : (q.createJob o id).perform ≠ .error e) : (q.enqueueCall o id now s).2 = s := by
  rcases hp : o.parents with _ | pid | l
  · simp only [Queue.enqueueCall, hp] at h
    exact absurd (Queue.deferOrEnqueue_error h) he
  · by_cases hst : Job.getStatus s pid ≠ some .finished
    · simp [Queue.enqueueCall, hp, hst] at h
    · simp only [Queue.enqueueCall, hp, hst, if_false] at h
      exact absurd (Queue.deferOrEnqueue_error h) he
  · simp [Queue.enqueueCall, hp]

theorem Store.spop_sets_length {s s' : Store} {k : SetKey} {p : Nat} {x : String}
    (h : s.spop k p = (some x, s')) : (s'.sets k).length + 1 = (s.sets k).length := by
  unfold Store.spop at h
  split at h
  · cases h
  · rename_i y ys hys
    cases h
    have hi : p % (ys.length + 1) < (y :: ys).length := Nat.mod_lt p (Nat.succ_pos _)
    simp only [Store.setSet_sets, if_true, hys, List.length_eraseIdx_of_lt hi, List.length_cons]
    omega

theorem Queue.enqueueJob_sets_dependents (q : Queue) (job : Job) (b : Bool) (now : Nat)
    (s : Store) (x : String) :
    (q.enqueueJob job b now s).2.sets (.dependents x) = s.sets (.dependents x) :=
  q.enqueueJob_sets job b now s (by cases q.cls <;> simp [QueueClass.redisQueuesKeys])

/-- `Queue.enqueue_dependents(job)`: pops the job's dependents one at a time and enqueues each
    on this queue. -/
def Queue.enqueueDependents (q : Queue) (job : Job) (pick : List String → Nat) (now : Nat)
    (s : Store) : Except RqError Unit × Store :=
  match _h : s.spop (.dependents job.id) (pick (s.sets (.dependents job.id))) with
  | (none, s') => (.ok (), s')
  | (some jobId, s') =>
    match Job.fetch s' jobId with
    | .error e => (.error e, s')
    | .ok dependent =>
      let r := q.enqueueJob dependent true now s'
      match r.1 with
      | .error e => (.error e, r.2)
      | .ok _ => q.enqueueDependents job pick now r.2
termination_by (s.sets (.dependents job.id)).length
decreasing_by
  rw [Queue.enqueueJob_sets_dependents, ← Store.spop_sets_length _h]
  omega

/-- A property every `SPOP` of the dependents set and every `enqueue_job` on `q` keeps is kept by
    `enqueue_dependents`. -/
theorem Queue.enqueueDependents_preserves (q : Queue) (job : Job) (pick : List String → Nat)
    (now : Nat) (P : Store → Prop) (hspop : ∀ s p, P s → P (s.spop (.dependents job.id) p).2)
    (henq : ∀ s j, P s → P (q.enqueueJob j true now s).2) (s : Store) (hs : P s) :
    P (q.enqueueDependents job pick now s).2 := by
  induction s using Queue.enqueueDependents.induct q job pick now with
  | case1 s s' h =>
    rw [Queue.enqueueDependents, h]
    simpa [h] using hspop s (pick (s.sets (.dependents job.id))) hs
  | case2 s x s' h e hf =>
    rw [Queue.enqueueDependents, h]
    simpa [h, hf] using hspop s (pick (s.sets (.dependents job.id))) hs
  | case3 s x s' h d hf r e he =>
    rw [Queue.enqueueDependents, h]
    simp only [hf, show (q.enqueueJob d true now s').1 = .error e from he]
    exact henq _ _ (by simpa [h] using hspop s (pick (s.sets (.dependents job.id))) hs)
  | case4 s x s' h d hf r j hj ih =>
    rw [Queue.enqueueDependents, h]
    simp only [hf, show (q.enqueueJob d true now s').1 = .ok j from hj]
    exact ih (henq _ _ (by simpa [h] using hspop s (pick (s.sets (.dependents job.id))) hs))

/-! ## Releasing deferred jobs -/

/-- The first argument of `release_job`: a job object or a job id. -/
inductive JobOrId
  | job (j : Job)
  | id (id : String)
  deriving DecidableEq, Repr

/-- The second argument of `release_job`: a queue object or a queue name. -/
inductive QueueOrName
  | queue (q : Queue)
  | name (n : String)
  deriving DecidableEq, Repr

/-- `'{0}'.format(job_or_id)` (a job object shown by its id). -/
def JobOrId.text : JobOrId → String
  | .job j => j.id
  | .id i => i

/-- `'{1}'.format(job.status)`. -/
def statusText : Option Status → String
  | none => "None"
  | some st => st.text

/-- The queue a job named `origin` belongs to, `Queue(name=job.origin)` (a missing origin is
    formatted into the key as `None`). -/
def Queue.ofOrigin (origin : Option String) : Queue := Queue.new (origin.getD "None")

/-- The job `release_job` works on: the object given, or the record of the id given. -/
def JobOrId.resolve (s : Store) : JobOrId → Except RqError Job
  | .job j => .ok j
  | .id i =>
    if Job.exists s i then Job.fetch s i
    else .error (.noSuchJob ("There is no job with id '" ++ i ++ "'"))

/-- The queue `release_job` releases into. -/
def QueueOrName.resolve (job : Job) : Option QueueOrName → Queue
  | none => Queue.ofOrigin job.origin
  | some (.queue q) => q
  | some (.name n) => Queue.new n

/-- `release_job(job_or_id, queue_or_name)`. Everything after `if True: return` is dead. -/
def releaseJob (jobOrId : JobOrId) (queueOrName : Option QueueOrName) (now : Nat) (s : Store) :
    Except RqError Unit × Store :=
  match jobOrId.resolve s with
  | .error e => (.error e, s)
  | .ok job =>
    if Job.getStatus s job.id ≠ some .deferred then
      (.error (.invalidJobOperation ("Job id '" ++ jobOrId.text ++ "' status is " ++
        statusText (Job.getStatus s job.id) ++ " and not 'deferred'")), s)
    else
      let queue := QueueOrName.resolve job queueOrName
      let (result, s) := s.srem .deferred job.id
      if result = 0 then (.error (.noSuchJob ("No such blocked job: " ++ job.id)), s)
      else
        let job := { job with status := some .queued }
        let r := queue.enqueueJob job true now (Job.save s job)
        (r.1.map fun _ => (), r.2)

/-- A `release_job` that raises anything but the exception of the job's function leaves the
    store as it was: its checks come before its first write, and an `SREM` that finds nothing
    removes nothing. -/
theorem releaseJob_error_store {j : JobOrId} {t : Option QueueOrName} {now : Nat} {s : Store}
    {e : RqError} (h : (releaseJob j t now s).1 = .error e) (he : ∀ exc, e ≠ .jobRaised exc) :
    (releaseJob j t now s).2 = s := by
  rcases hr : j.resolve s with e' | job
  · simp [releaseJob, hr]
  by_cases hst : Job.getStatus s job.id ≠ some .deferred
  · simp [releaseJob, hr, hst]
  by_cases hm : job.id ∈ s.sets .deferred
  · simp [releaseJob, hr, hst, Store.srem, hm] at h
    obtain ⟨exc, rfl⟩ := Queue.enqueueJob_error h
    exact absurd rfl (he exc)
  · simp [releaseJob, hr, hst, Store.srem_not_mem hm]

/-- `Queue.release_job_here(job_or_id)`. -/
def Queue.releaseJobHere (q : Queue) (jobOrId : JobOrId) (now : Nat) (s : Store) :
    Except RqError Unit × Store :=
  releaseJob jobOrId (some (.queue q)) now s

/-! ## The failed queue -/

/-- `FailedQueue.quarantine(job, exc_info)`: `ended_at`, `exc_info`, then `enqueue_job`
    without meta data. -/
def FailedQueue.quarantine (job : Job) (excInfo : String) (now : Nat) (s : Store) :
    Except RqError Job × Store :=
  FailedQueue.new.enqueueJob { job with endedAt := some now, excInfo := some excInfo } false now s

/-- `FailedQueue.requeue(job_id)`. -/
def FailedQueue.requeue (jobId : String) (now : Nat) (s : Store) : Except RqError Unit × Store :=
  match Job.fetch s jobId with
  | .error (.noSuchJob _) => (.ok (), (FailedQueue.new.remove jobId s).2)
  | .error e => (.error e, s)
  | .ok job =>
    let (removed, s) := FailedQueue.new.remove job.id s
    if removed = 0 then (.error (.invalidJobOperation "Cannot requeue non-failed jobs."), s)
    else
      let job := { job with status := some .queued, excInfo := none }
      let r := (Queue.ofOrigin job.origin).enqueueJob job true now s
      (r.1.map fun _ => (), r.2)

/-- A `requeue` that raises leaves the store as it was: an `LREM` that finds nothing removes
    nothing, and `Queue(job.origin)` is asynchronous, so its `enqueue_job` runs no job. -/
theorem FailedQueue.requeue_error_store {x : String} {now : Nat} {s : Store} {e : RqError}
    (h : (FailedQueue.requeue x now s).1 = .error e) : (FailedQueue.requeue x now s).2 = s := by
  rcases hf : Job.fetch s x with e' | job
  · rcases Job.fetch_error hf with rfl | rfl <;> simp [FailedQueue.requeue, hf] at h ⊢
  by_cases hm : job.id ∈ s.lists FailedQueue.new.key
  · simp [FailedQueue.requeue, hf, Queue.remove, Store.lrem, Queue.enqueueJob_fst, Except.map,
      Queue.ofOrigin, Queue.new, Nat.pos_iff_ne_zero.1 (List.count_pos_iff.2 hm)] at h
  · simp [FailedQueue.requeue, hf, Queue.remove, Store.lrem_not_mem hm]

end Rq
