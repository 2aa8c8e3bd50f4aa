import Rq.Interleave
import Rq.Dependency

/-
  Concurrent `release_job(j, target)` calls on one deferred job (lines 16-50).

  Each call is a machine whose steps are its Redis round trips. Mutual exclusion rests on one
  atomic command, the `SREM` of `rq:deferred` (line 41). The first call whose removal finds the
  ID wins; every other call either reads a status that is no longer `DEFERRED` or removes
  nothing, and raises without writing. The winner's `enqueue_job` runs the job's function when
  the target queue is synchronous, and the call then raises what the function raises.

  * `releaseStep_alone`: run alone for eight steps or more, the machine of one call ends with
    the result and the store of the sequential `release_job`.
  * `release_race`: once all calls on a deferred job whose record decodes have returned,
    exactly one got past its `SREM` and returned what it alone returns from the initial store,
    every other raised `NoSuchJobError` or `InvalidJobOperationError`, and the store is what
    the winner alone makes of the initial store (`releaseJob_of_deferred`): the ID is out of
    `rq:deferred`, the record `QUEUED`, and the ID pushed once onto the target list when the
    target queue is asynchronous; a synchronous target gets no push.
-/

namespace Rq

/-! ## One call alone -/

/-- The job's status is all that `QUEUED` changes, so the target queue is the same. -/
theorem QueueOrName.resolve_queued (job : Job) (queueOrName : Option QueueOrName) :
    QueueOrName.resolve { job with status := some .queued } queueOrName =
      QueueOrName.resolve job queueOrName := by
  cases queueOrName <;> rfl

/-! ## `release_job` as a machine -/

/-- Where a running `release_job(job_or_id, queue_or_name)` is: before `Job.exists`, before
    `Job.fetch`, before the status read of `job.is_deferred`, before the `SREM`, before
    `job.save()`, inside `enqueue_job`, or returned. -/
inductive ReleasePc
  | start
  | fetch (jobId : String)
  | check (job : Job)
  | srem (job : Job)
  | save (job : Job)
  | enqueue (job : Job) (pc : EnqueueJobPc)
  | done (err : Option RqError)
  deriving DecidableEq, Repr

/-- The state a finished `release_job` machine is in, from what the call returned or raised. -/
def ReleasePc.ofResult : Except RqError Unit → ReleasePc
  | .ok () => .done none
  | .error e => .done (some e)

/-- One command of `release_job(job_or_id, queue_or_name)`. -/
def releaseStep (jobOrId : JobOrId) (queueOrName : Option QueueOrName) (now : Nat) :
    ReleasePc → Store → ReleasePc × Store
  | .start, s =>
    match jobOrId with
    | .job j => (.check j, s)
    | .id i =>
      if Job.exists s i then (.fetch i, s)
      else (.done (some (.noSuchJob ("There is no job with id '" ++ i ++ "'"))), s)
  | .fetch i, s =>
    match Job.fetch s i with
    | .ok job => (.check job, s)
    | .error e => (.done (some e), s)
  | .check job, s =>
    if Job.getStatus s job.id ≠ some .deferred then
      (.done (some (.invalidJobOperation ("Job id '" ++ jobOrId.text ++ "' status is " ++
        statusText (Job.getStatus s job.id) ++ " and not 'deferred'"))), s)
    else (.srem job, s)
  | .srem job, s =>
    let (result, s) := s.srem .deferred job.id
    if result = 0 then (.done (some (.noSuchJob ("No such blocked job: " ++ job.id))), s)
    else (.save { job with status := some .queued }, s)
  | .save job, s => (.enqueue job .register, Job.save s job)
  | .enqueue job pc, s =>
    let queue := QueueOrName.resolve job queueOrName
    match queue.enqueueJobStep (queue.jobMeta job true now) pc s with
    | (none, s) => (.ofResult (queue.enqueueJobResult (queue.jobMeta job true now)), s)
    | (some pc, s) => (.enqueue job pc, s)
  | .done err, s => (.done err, s)

/-- A `release_job` call: its arguments and where it is. -/
structure ReleaseCall where
  jobOrId : JobOrId
  queueOrName : Option QueueOrName
  pc : ReleasePc
  deriving DecidableEq, Repr

/-- The arguments of a call. -/
def ReleaseCall.args (c : ReleaseCall) : JobOrId × Option QueueOrName :=
  (c.jobOrId, c.queueOrName)

/-- One step of a `release_job` call; the calls record no events. -/
def ReleaseCall.step (now : Nat) (c : ReleaseCall) (_ : Nat) (s : Store) :
    ReleaseCall × Store × List Unit :=
  let r := releaseStep c.jobOrId c.queueOrName now c.pc s
  ({ c with pc := r.1 }, r.2, [])

/-- `release_job` calls with the given arguments, all started, run from `s₀`. -/
def releaseRun (now : Nat) (s₀ : Store) (calls : List (JobOrId × Option QueueOrName))
    (sched : List (Nat × Nat)) : World ReleaseCall Unit :=
  (World.mk s₀ (calls.map fun a => ⟨a.1, a.2, .start⟩) []).run (ReleaseCall.step now) sched

/-! ## `release_job` run alone -/

section Alone

variable (jobOrId : JobOrId) (queueOrName : Option QueueOrName) (now : Nat)

/-- Run alone, the first commands resolve `job_or_id` as `JobOrId.resolve` does. -/
theorem releaseStep_resolve_alone (s : Store) :
    ∃ m ≤ 2, (Function.uncurry (releaseStep jobOrId queueOrName now))^[m] (.start, s) =
      match jobOrId.resolve s with
      | .ok job => (.check job, s)
      | .error e => (.done (some e), s) := by
  cases jobOrId with
  | job j => exact ⟨1, by omega, rfl⟩
  | id i =>
    by_cases hx : Job.exists s i
    · refine ⟨2, le_rfl, ?_⟩
      simp only [JobOrId.resolve, hx, if_true]
      rcases hf : Job.fetch s i with e | job <;> simp [releaseStep, hx, hf]
    · exact ⟨1, by omega, by simp [releaseStep, JobOrId.resolve, hx]⟩

/-- Run alone, the `enqueue_job` a release starts ends after its two or three commands. -/
theorem releaseStep_enqueue_alone (job : Job) (s : Store) :
    (Function.uncurry (releaseStep jobOrId queueOrName now))^[3] (.enqueue job .register, s) =
      (.ofResult ((QueueOrName.resolve job queueOrName).enqueueJobResult
          ((QueueOrName.resolve job queueOrName).jobMeta job true now)),
        ((QueueOrName.resolve job queueOrName).enqueueJob job true now s).2) := by
  rw [Queue.enqueueJob_snd]
  cases h : (QueueOrName.resolve job queueOrName).isAsync <;>
    cases hr : (QueueOrName.resolve job queueOrName).enqueueJobResult
      ((QueueOrName.resolve job queueOrName).jobMeta job true now) <;>
    simp [Function.iterate_succ_apply, releaseStep, Queue.enqueueJobStep, h, hr, ReleasePc.ofResult]

/-- Run alone from its status check, the machine ends where `release_job` ends. -/
theorem releaseStep_check_alone (s : Store) (job : Job) (hres : jobOrId.resolve s = .ok job) :
    ∃ m ≤ 6, (Function.uncurry (releaseStep jobOrId queueOrName now))^[m] (.check job, s) =
      (.ofResult (releaseJob jobOrId queueOrName now s).1,
        (releaseJob jobOrId queueOrName now s).2) := by
  by_cases hst : Job.getStatus s job.id ≠ some .deferred
  · exact ⟨1, by omega, by simp [releaseStep, hst, releaseJob, hres, ReleasePc.ofResult]⟩
  rcases hr : s.srem .deferred job.id with ⟨r, s'⟩
  by_cases h0 : r = 0
  · exact ⟨2, by omega, by
      simp [Function.iterate_succ_apply, releaseStep, hst, hr, h0, releaseJob, hres,
        ReleasePc.ofResult]⟩
  refine ⟨6, le_rfl, ?_⟩
  have hsave : (Function.uncurry (releaseStep jobOrId queueOrName now))^[3] (.check job, s) =
      (.enqueue { job with status := some .queued } .register,
        Job.save s' { job with status := some .queued }) := by
    simp [Function.iterate_succ_apply, releaseStep, hst, hr, h0]
  rw [show 6 = 3 + 3 from rfl, Function.iterate_add_apply, hsave, releaseStep_enqueue_alone]
  simp [releaseJob, hres, hst, hr, h0, QueueOrName.resolve_queued, Queue.enqueueJob_fst_unit]

/-- Run alone for eight steps or more, the machine ends with the result and the store of the
    sequential `release_job`. -/
theorem releaseStep_alone (s : Store) {n : Nat} (hn : 8 ≤ n) :
    (Function.uncurry (releaseStep jobOrId queueOrName now))^[n] (.start, s) =
      (.ofResult (releaseJob jobOrId queueOrName now s).1,
        (releaseJob jobOrId queueOrName now s).2) := by
  have hfix : ∀ (r : Except RqError Unit) t,
      Function.uncurry (releaseStep jobOrId queueOrName now) (.ofResult r, t) = (.ofResult r, t) :=
    fun r t => by cases r <;> rfl
  obtain ⟨m, hm, hrun⟩ := releaseStep_resolve_alone jobOrId queueOrName now s
  rcases hres : jobOrId.resolve s with e | job
  · rw [hres] at hrun
    rw [show releaseJob jobOrId queueOrName now s = (.error e, s) by simp [releaseJob, hres]]
    exact iterate_stays hrun rfl (by omega)
  · rw [hres] at hrun
    obtain ⟨m', hm', hrun'⟩ := releaseStep_check_alone jobOrId queueOrName now s job hres
    refine iterate_stays (m := m' + m) ?_ (hfix _ _) (by omega)
    rw [Function.iterate_add_apply, hrun, hrun']

end Alone

theorem releaseStep_alone_deferred :
    (let s := ((Queue.new "low").enqueueCall { deferred := true } "j" 0 Store.empty).2;
      (Function.uncurry (releaseStep (.id "j") none 1))^[8] (.start, s) =
        (.ofResult (releaseJob (.id "j") none 1 s).1, (releaseJob (.id "j") none 1 s).2)) :=
  releaseStep_alone (.id "j") none 1 _ le_rfl

/-! ## Records that stay readable -/

/-- The record of `id` exists, carries `id` and decodes. -/
def RecordOk (id : String) (s : Store) : Prop :=
  ∃ r, s.records id = some r ∧ r.id = id ∧ r.decodes = true

theorem RecordOk.save {id : String} {s : Store} {job : Job} (h : job.id = id)
    (hd : job.decodes = true) : RecordOk id (Job.save s job) :=
  ⟨job, by simp [Job.save, h], h, hd⟩

theorem RecordOk.of_records {id : String} {s s' : Store} (h : RecordOk id s)
    (hr : s'.records = s.records) : RecordOk id s' := by
  rwa [RecordOk, hr]

theorem RecordOk.fetch {id : String} {s : Store} (h : RecordOk id s) :
    ∃ r, Job.fetch s id = .ok r ∧ r.id = id ∧ r.decodes = true := by
  obtain ⟨r, hr, hid, hd⟩ := h
  exact ⟨r, by simp [Job.fetch, hr, hd], hid, hd⟩

theorem RecordOk.exists {id : String} {s : Store} (h : RecordOk id s) : Job.exists s id = true := by
  obtain ⟨r, hr, -⟩ := h
  simp [Job.exists, hr]

/-- A step of `enqueue_job` on a job carrying `id` that decodes keeps the record readable. -/
theorem RecordOk.enqueueJobStep {id : String} {s : Store} (h : RecordOk id s) (q : Queue)
    (job : Job) (hid : job.id = id) (hd : job.decodes = true) (pc : EnqueueJobPc) :
    RecordOk id (q.enqueueJobStep job pc s).2 := by
  rcases q.enqueueJobStep_records job pc s with hr | hr
  · exact h.of_records hr
  · exact (RecordOk.save (s := s) hid hd).of_records hr

/-- `NoSuchJobError` or `InvalidJobOperationError`: the errors a losing call may raise. -/
def RqError.refusal : RqError → Bool
  | .noSuchJob _ | .invalidJobOperation _ => true
  | _ => false

/-! ## The invariant of a release race -/

section Release

variable (s₀ : Store) (j : Job) (now : Nat)

/-- The start of a release race: `j` is the record of its ID, decodes, is `DEFERRED` and in
    `rq:deferred`. -/
structure ReleaseStart : Prop where
  record : s₀.records j.id = some j
  decodes : j.decodes = true
  status : j.status = some .deferred
  deferred : j.id ∈ s₀.sets .deferred

/-- The call names `j`: by its ID, or by an object with `j`'s ID whose payload decodes. -/
def ReleaseCall.names (c : ReleaseCall) : Prop :=
  match c.jobOrId with
  | .id i => i = j.id
  | .job o => o.id = j.id ∧ o.decodes = true

/-- Before any call has won, a call is before its `SREM` and holds what it resolved from the
    initial store. -/
def ReleaseCall.early (c : ReleaseCall) : Prop :=
  match c.pc with
  | .start => True
  | .fetch i => c.jobOrId = .id i
  | .check job | .srem job => c.jobOrId.resolve s₀ = .ok job
  | _ => False

/-- Once a call has won, any other call is before its `SREM` holding a job with `j`'s ID, or
    has raised `NoSuchJobError` or `InvalidJobOperationError`. -/
def ReleaseCall.lost (c : ReleaseCall) : Prop :=
  match c.pc with
  | .start => True
  | .fetch i => c.jobOrId = .id i
  | .check job | .srem job => job.id = j.id
  | .done (some e) => e.refusal = true
  | _ => False

/-- What a call past a winning `SREM` still writes when it runs alone. -/
def releaseRest (queueOrName : Option QueueOrName) : ReleasePc → Store → Store
  | .save job, s =>
    let queue := QueueOrName.resolve job queueOrName
    queue.enqueueJobRest (queue.jobMeta job true now) .register (Job.save s job)
  | .enqueue job pc, s =>
    let queue := QueueOrName.resolve job queueOrName
    queue.enqueueJobRest (queue.jobMeta job true now) pc s
  | _, s => s

/-- The winner: past its `SREM`, holding a job with `j`'s ID that decodes, on its way to the
    result it alone gets from `s₀`, and what it still writes turns the store into what it alone
    makes of `s₀`. -/
def ReleaseCall.winner (c : ReleaseCall) (s : Store) : Prop :=
  (match c.pc with
    | .save job | .enqueue job _ => job.id = j.id ∧ job.decodes = true ∧
        (QueueOrName.resolve job c.queueOrName).enqueueJobResult
            ((QueueOrName.resolve job c.queueOrName).jobMeta job true now) =
          (releaseJob c.jobOrId c.queueOrName now s₀).1
    | .done err => .done err = ReleasePc.ofResult (releaseJob c.jobOrId c.queueOrName now s₀).1
    | _ => False) ∧
  releaseRest now c.queueOrName c.pc s = (releaseJob c.jobOrId c.queueOrName now s₀).2

/-- Every step of every call keeps the invariant of a release race: before any call has won
    the store is `s₀` and every call is early; after, one call is the winner and every other
    is losing, with `j`'s ID out of `rq:deferred` and its record readable. -/
def ReleaseInv (calls : List (JobOrId × Option QueueOrName)) (w : World ReleaseCall Unit) :
    Prop :=
  w.clients.length = calls.length ∧
  (∀ (k : Nat) (d : ReleaseCall), w.clients[k]? = some d →
    calls[k]? = some d.args ∧ d.names j) ∧
  ((w.store = s₀ ∧ ∀ (k : Nat) (d : ReleaseCall), w.clients[k]? = some d → d.early s₀) ∨
    (j.id ∉ w.store.sets .deferred ∧ RecordOk j.id w.store ∧
      ∃ (i : Nat) (c : ReleaseCall), w.clients[i]? = some c ∧ c.winner s₀ j now w.store ∧
        ∀ (k : Nat) (d : ReleaseCall), k ≠ i → w.clients[k]? = some d → d.lost j))

variable {s₀ j}

theorem ReleaseStart.resolve (h₀ : ReleaseStart s₀ j) {c : ReleaseCall} (hn : c.names j) :
    ∃ job, c.jobOrId.resolve s₀ = .ok job ∧ job.id = j.id ∧ job.decodes = true := by
  unfold ReleaseCall.names at hn
  split at hn
  · rename_i i hc
    subst hn
    refine ⟨j, ?_, rfl, h₀.decodes⟩
    simp [hc, JobOrId.resolve, Job.exists, Job.fetch, h₀.record, h₀.decodes]
  · rename_i o hc
    exact ⟨o, by simp [hc, JobOrId.resolve], hn⟩

theorem ReleaseStart.recordOk (h₀ : ReleaseStart s₀ j) : RecordOk j.id s₀ :=
  ⟨j, h₀.record, rfl, h₀.decodes⟩

theorem ReleaseCall.lost_of_early (h₀ : ReleaseStart s₀ j) {c : ReleaseCall} (hn : c.names j)
    (he : c.early s₀) : c.lost j := by
  obtain ⟨job, hr, hid, -⟩ := h₀.resolve hn
  unfold ReleaseCall.early at he
  unfold ReleaseCall.lost
  split at he <;> simp_all

/-- Before any call has won, a step reads the initial store and moves on, or is the `SREM` that
    hits: that call wins. -/
theorem ReleaseCall.early_step (h₀ : ReleaseStart s₀ j) {c : ReleaseCall} {pc : ReleasePc}
    {s : Store} (hn : c.names j) (he : c.early s₀)
    (h : releaseStep c.jobOrId c.queueOrName now c.pc s₀ = (pc, s)) :
    (({ c with pc } : ReleaseCall).early s₀ ∧ s = s₀) ∨
      (({ c with pc } : ReleaseCall).winner s₀ j now s ∧ j.id ∉ s.sets .deferred ∧
        RecordOk j.id s) := by
  obtain ⟨job₀, hr, hid, hdec⟩ := h₀.resolve hn
  obtain ⟨jobOrId, qn, pc₀⟩ := c
  unfold ReleaseCall.early at he
  cases pc₀ with
  | start =>
    left
    cases jobOrId with
    | job o =>
      cases h
      exact ⟨rfl, rfl⟩
    | id i =>
      have hi : i = j.id := hn
      subst hi
      simp only [releaseStep, h₀.recordOk.exists, if_true, Prod.mk.injEq] at h
      obtain ⟨rfl, rfl⟩ := h
      exact ⟨rfl, rfl⟩
  | fetch i =>
    left
    simp only at he
    subst he
    have hi : i = j.id := hn
    subst hi
    have hf : Job.fetch s₀ j.id = .ok job₀ := by
      simpa [JobOrId.resolve, h₀.recordOk.exists] using hr
    simp only [releaseStep, hf, Prod.mk.injEq] at h
    obtain ⟨rfl, rfl⟩ := h
    exact ⟨hr, rfl⟩
  | check job =>
    left
    simp only [hr, Except.ok.injEq] at he
    subst he
    have hst : Job.getStatus s₀ job₀.id = some .deferred := by
      simp [Job.getStatus, hid, h₀.record, h₀.status]
    simp only [releaseStep, hst, ne_eq, not_true_eq_false, if_false, Prod.mk.injEq] at h
    obtain ⟨rfl, rfl⟩ := h
    exact ⟨hr, rfl⟩
  | srem job =>
    right
    simp only [hr, Except.ok.injEq] at he
    subst he
    have hd : job₀.id ∈ s₀.sets .deferred := hid ▸ h₀.deferred
    simp only [releaseStep, Store.srem, hd, if_true, Nat.one_ne_zero, if_false, Prod.mk.injEq] at h
    obtain ⟨rfl, rfl⟩ := h
    have hst : Job.getStatus s₀ job₀.id = some .deferred := by
      simp [Job.getStatus, hid, h₀.record, h₀.status]
    refine ⟨⟨⟨hid, hdec, ?_⟩, ?_⟩, by simp [hid],
      ⟨j, by simp [h₀.record], rfl, h₀.decodes⟩⟩
    · simp only [QueueOrName.resolve_queued, releaseJob_of_deferred hr hst hd,
        Queue.enqueueJobResult, Queue.jobMeta_perform]
      rfl
    · simp only [releaseRest, QueueOrName.resolve_queued, Queue.enqueueJobRest_register,
        releaseJob_of_deferred hr hst hd, Store.srem, hd, if_true]
  | save job => exact he.elim
  | enqueue job pc => exact he.elim
  | done err => exact he.elim

/-- Once a call has won, a step of another call writes nothing, and that call stays losing. -/
theorem ReleaseCall.lost_step {c : ReleaseCall} {pc : ReleasePc} {s s' : Store}
    (hn : c.names j) (hl : c.lost j) (hd : j.id ∉ s.sets .deferred) (hrec : RecordOk j.id s)
    (h : releaseStep c.jobOrId c.queueOrName now c.pc s = (pc, s')) :
    ({ c with pc } : ReleaseCall).lost j ∧ s' = s := by
  obtain ⟨jobOrId, qn, pc₀⟩ := c
  unfold ReleaseCall.lost at hl
  cases pc₀ with
  | start =>
    cases jobOrId with
    | job o =>
      cases h
      exact ⟨hn.1, rfl⟩
    | id i =>
      have hi : i = j.id := hn
      subst hi
      simp only [releaseStep, hrec.exists, if_true, Prod.mk.injEq] at h
      obtain ⟨rfl, rfl⟩ := h
      exact ⟨rfl, rfl⟩
  | fetch i =>
    simp only at hl
    subst hl
    have hi : i = j.id := hn
    subst hi
    obtain ⟨r, hf, hid, -⟩ := hrec.fetch
    simp only [releaseStep, hf, Prod.mk.injEq] at h
    obtain ⟨rfl, rfl⟩ := h
    exact ⟨hid, rfl⟩
  | check job =>
    simp only [releaseStep] at h
    split at h <;> cases h
    · exact ⟨rfl, rfl⟩
    · exact ⟨hl, rfl⟩
  | srem job =>
    simp only at hl
    simp only [releaseStep, Store.srem_not_mem (hl ▸ hd), if_true, Prod.mk.injEq] at h
    obtain ⟨rfl, rfl⟩ := h
    exact ⟨rfl, rfl⟩
  | save job => exact hl.elim
  | enqueue job pc => exact hl.elim
  | done err =>
    cases h
    exact ⟨hl, rfl⟩

/-- A step of the winner keeps it the winner, keeps `j`'s ID out of `rq:deferred` and its record
    readable. -/
theorem ReleaseCall.winner_step {c : ReleaseCall} {pc : ReleasePc} {s s' : Store}
    (hw : c.winner s₀ j now s) (hd : j.id ∉ s.sets .deferred) (hrec : RecordOk j.id s)
    (h : releaseStep c.jobOrId c.queueOrName now c.pc s = (pc, s')) :
    ({ c with pc } : ReleaseCall).winner s₀ j now s' ∧ j.id ∉ s'.sets .deferred ∧
      RecordOk j.id s' := by
  obtain ⟨jobOrId, qn, pc₀⟩ := c
  obtain ⟨hjob, hrest⟩ := hw
  cases pc₀ with
  | save job =>
    cases h
    exact ⟨⟨hjob, hrest⟩, by simpa [Job.save] using hd, RecordOk.save hjob.1 hjob.2.1⟩
  | enqueue job epc =>
    obtain ⟨hid, hdec, hres⟩ := hjob
    set queue := QueueOrName.resolve job qn
    have hsets := queue.enqueueJobStep_sets (queue.jobMeta job true now) epc s
      (Ne.symm (QueueClass.redisQueuesKeys_ne_deferred _))
    have hok := hrec.enqueueJobStep queue (queue.jobMeta job true now) (by simpa) (by simpa) epc
    have hstep := queue.enqueueJobRest_step (queue.jobMeta job true now) epc s
    simp only [releaseRest] at hrest
    rcases hr : queue.enqueueJobStep (queue.jobMeta job true now) epc s with ⟨_ | epc', s''⟩ <;>
      simp only [releaseStep, hr, Prod.mk.injEq] at h <;> obtain ⟨rfl, rfl⟩ := h <;>
      simp only [hr] at hsets hok hstep <;> refine ⟨⟨?_, ?_⟩, hsets ▸ hd, hok⟩
    · simp only at hres ⊢
      rw [← hres]
      cases queue.enqueueJobResult (queue.jobMeta job true now) <;> rfl
    · cases queue.enqueueJobResult (queue.jobMeta job true now) <;>
        simpa [releaseRest, hstep, ReleasePc.ofResult] using hrest
    · exact ⟨hid, hdec, hres⟩
    · simpa [releaseRest, hstep] using hrest
  | done err =>
    cases h
    exact ⟨⟨hjob, hrest⟩, hd, hrec⟩
  | start => exact hjob.elim
  | fetch i => exact hjob.elim
  | check job => exact hjob.elim
  | srem job => exact hjob.elim

/-- Every call starts naming `j`, before it has read anything. -/
theorem releaseInv_init {calls : List (JobOrId × Option QueueOrName)}
    (hcalls : ∀ a ∈ calls,
      a.1 = .id j.id ∨ ∃ o, a.1 = .job o ∧ o.id = j.id ∧ o.decodes = true) :
    ReleaseInv s₀ j now calls ⟨s₀, calls.map fun a => ⟨a.1, a.2, .start⟩, []⟩ := by
  refine ⟨by simp, fun k d hk => ?_, .inl ⟨rfl, fun k d hk => ?_⟩⟩
  · simp only [List.getElem?_map, Option.map_eq_some'] at hk
    obtain ⟨a, ha, rfl⟩ := hk
    refine ⟨ha, ?_⟩
    rcases hcalls a (List.getElem?_mem ha) with h | ⟨o, h, ho⟩
    · simp [ReleaseCall.names, h]
    · simpa [ReleaseCall.names, h] using ho
  · simp only [List.getElem?_map, Option.map_eq_some'] at hk
    obtain ⟨a, -, rfl⟩ := hk
    trivial

theorem releaseInv_tick (h₀ : ReleaseStart s₀ j) {calls : List (JobOrId × Option QueueOrName)}
    {w : World ReleaseCall Unit} (h : ReleaseInv s₀ j now calls w) (i n : Nat) :
    ReleaseInv s₀ j now calls (w.tick (ReleaseCall.step now) i n) := by
  obtain ⟨hlen, hargs, hphase⟩ := h
  cases hi : w.clients[i]? with
  | none => rw [World.tick_of_none n hi]; exact ⟨hlen, hargs, hphase⟩
  | some c =>
    rw [World.tick_of_get n hi]
    have hil : i < w.clients.length := (List.getElem?_eq_some_iff.1 hi).1
    have hc := hargs i c hi
    generalize hr : releaseStep c.jobOrId c.queueOrName now c.pc w.store = r
    obtain ⟨pc, s⟩ := r
    simp only [ReleaseCall.step, hr]
    have hself : (w.clients.set i { c with pc })[i]? = some { c with pc } :=
      List.getElem?_set_self hil
    refine ⟨by simp [hlen], fun k d hd => ?_, ?_⟩
    · rcases getElem?_set_some hd with ⟨rfl, rfl⟩ | ⟨-, hd⟩
      exacts [hc, hargs k d hd]
    rcases hphase with ⟨hs, hearly⟩ | ⟨hd, hrec, iw, cw, hcw, hwin, hlost⟩
    · rw [hs] at hr
      rcases ReleaseCall.early_step now h₀ hc.2 (hearly i c hi) hr with
        ⟨he', rfl⟩ | ⟨hw', hd', hrec'⟩
      · refine .inl ⟨rfl, fun k d hd => ?_⟩
        rcases getElem?_set_some hd with ⟨rfl, rfl⟩ | ⟨-, hd⟩
        exacts [he', hearly k d hd]
      · refine .inr ⟨hd', hrec', i, _, hself, hw', fun k d hk hd => ?_⟩
        rcases getElem?_set_some hd with ⟨rfl, rfl⟩ | ⟨-, hd⟩
        exacts [absurd rfl hk, ReleaseCall.lost_of_early h₀ (hargs k d hd).2 (hearly k d hd)]
    · by_cases hiw : i = iw
      · subst hiw
        obtain rfl : cw = c := Option.some.inj (hcw.symm.trans hi)
        obtain ⟨hw', hd', hrec'⟩ := ReleaseCall.winner_step now hwin hd hrec hr
        refine .inr ⟨hd', hrec', i, _, hself, hw', fun k d hk hd => ?_⟩
        rcases getElem?_set_some hd with ⟨rfl, rfl⟩ | ⟨-, hd⟩
        exacts [absurd rfl hk, hlost k d hk hd]
      · obtain ⟨hl', rfl⟩ := ReleaseCall.lost_step now hc.2 (hlost i c hiw hi) hd hrec hr
        refine .inr ⟨hd, hrec, iw, cw, by rwa [List.getElem?_set_ne hiw], hwin,
          fun k d hk hd => ?_⟩
        rcases getElem?_set_some hd with ⟨rfl, rfl⟩ | ⟨-, hd⟩
        exacts [hl', hlost k d hk hd]

theorem releaseInv_run (h₀ : ReleaseStart s₀ j) {calls : List (JobOrId × Option QueueOrName)}
    (sched : List (Nat × Nat)) {w : World ReleaseCall Unit} (h : ReleaseInv s₀ j now calls w) :
    ReleaseInv s₀ j now calls (w.run (ReleaseCall.step now) sched) :=
  World.run_induction (ReleaseInv s₀ j now calls)
    (fun _ i n hw => releaseInv_tick now h₀ hw i n) sched w h

end Release

/-- Concurrent `release_job` calls on one deferred job whose record decodes: once all have
    returned, exactly one passed its `SREM` and returned what it alone returns from `s₀`
    (normally, or on a synchronous target the exception of the job's function), every other
    raised `NoSuchJobError` or `InvalidJobOperationError`, and the store is what the winner
    alone makes of `s₀`. -/
theorem release_race (s₀ : Store) (j : Job) (now : Nat)
    (calls : List (JobOrId × Option QueueOrName)) (sched : List (Nat × Nat))
    (hrec : s₀.records j.id = some j) (hdec : j.decodes = true)
    (hst : j.status = some .deferred) (hd : j.id ∈ s₀.sets .deferred)
    (hcalls : ∀ a ∈ calls,
      a.1 = .id j.id ∨ ∃ o, a.1 = .job o ∧ o.id = j.id ∧ o.decodes = true)
    (hne : calls ≠ [])
    (hfin : ∀ c ∈ (releaseRun now s₀ calls sched).clients, ∃ err, c.pc = .done err) :
    ∃ (i : Nat) (c : ReleaseCall) (job : Job),
      (releaseRun now s₀ calls sched).clients[i]? = some c ∧ calls[i]? = some c.args ∧
      c.jobOrId.resolve s₀ = .ok job ∧
      c.pc = .ofResult (if (QueueOrName.resolve job c.queueOrName).isAsync then .ok ()
        else job.perform) ∧
      (∀ (k : Nat) (d : ReleaseCall), k ≠ i →
        (releaseRun now s₀ calls sched).clients[k]? = some d →
        ∃ e : RqError, d.pc = .done (some e) ∧ e.refusal = true) ∧
      (releaseRun now s₀ calls sched).store = (releaseJob c.jobOrId c.queueOrName now s₀).2 ∧
      j.id ∉ (releaseRun now s₀ calls sched).store.sets .deferred ∧
      Job.getStatus (releaseRun now s₀ calls sched).store j.id = some .queued ∧
      (releaseRun now s₀ calls sched).store.lists (QueueOrName.resolve job c.queueOrName).key =
        s₀.lists (QueueOrName.resolve job c.queueOrName).key ++
          if (QueueOrName.resolve job c.queueOrName).isAsync then [j.id] else [] := by
  have h₀ : ReleaseStart s₀ j := ⟨hrec, hdec, hst, hd⟩
  obtain ⟨hlen, hargs, hphase⟩ := releaseInv_run now h₀ sched (releaseInv_init now hcalls)
  rw [← releaseRun] at hlen hargs hphase
  rcases hphase with ⟨-, hearly⟩ | ⟨-, -, i, c, hc, ⟨hwpc, hrest⟩, hlost⟩
  · obtain ⟨d, hd0⟩ : ∃ d, (releaseRun now s₀ calls sched).clients[0]? = some d :=
      Option.isSome_iff_exists.1 (by
        simp [List.getElem?_eq_getElem, hlen, List.length_pos.2 hne])
    obtain ⟨err, herr⟩ := hfin d (List.getElem?_mem hd0)
    have := hearly 0 d hd0
    simp [ReleaseCall.early, herr] at this
  · obtain ⟨err, herr⟩ := hfin c (List.getElem?_mem hc)
    simp only [herr] at hwpc hrest
    obtain ⟨job, hr, hid, -⟩ := h₀.resolve (hargs i c hc).2
    have hst' : Job.getStatus s₀ job.id = some .deferred := by
      simp [Job.getStatus, hid, hrec, hst]
    obtain ⟨hd₁, hst₁, hl₁⟩ :=
      @releaseJob_of_deferred_store _ c.queueOrName now _ _ hr hst' (hid ▸ hd)
    simp only [releaseRest] at hrest
    refine ⟨i, c, job, hc, (hargs i c hc).1, hr,
      by rw [herr, hwpc, releaseJob_of_deferred hr hst' (hid ▸ hd)], fun k d hk hdk => ?_,
      hrest, ?_⟩
    · obtain ⟨err', herr'⟩ := hfin d (List.getElem?_mem hdk)
      have hl := hlost k d hk hdk
      simp only [ReleaseCall.lost, herr'] at hl
      cases err' with
      | none => exact hl.elim
      | some e => exact ⟨e, herr', hl⟩
    · rw [hrest, ← hid]
      exact ⟨hd₁, hst₁, hl₁⟩

end Rq
