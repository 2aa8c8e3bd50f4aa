import Rq.Race.Release
import Rq.Failed

/-
  Concurrent `FailedQueue.requeue(j.id)` calls on one failed job (lines 470-486).

  The `LREM` of the failed list (line 480) removes every occurrence of the ID and says how many
  there were: the first call to run it claims the job, and every later one finds nothing and
  raises `InvalidJobOperationError` without writing. This needs the job's origin queue not to be
  the failed queue itself: the winner pushes the ID onto the origin's list, where a later `LREM`
  of the failed list would find it again.

  * `requeueStep_alone`: run alone for five steps or more, the machine of one call ends with
    the result and the store of the sequential `FailedQueue.requeue`.
  * `requeue_race`: once all calls on a failed job whose record decodes have returned, exactly
    one returned normally, every other raised `InvalidJobOperationError`, and the store is what
    the winner alone makes of the initial store: the ID is out of the failed list and pushed
    once onto `Queue(j.origin)`, the record `QUEUED` with no `exc_info`.
  * `release_requeue_races`: `release_race` and `requeue_race` together.
  * `release_sync_or_undecodable`: two releases into a synchronous queue of a job whose
    function raises both raise, a record that does not decode makes `requeue` raise
    `UnpickleError`, and two requeues of a job whose origin is the failed queue both return
    normally.
-/

namespace Rq

/-! ## `requeue` as a machine -/

/-- Where a running `FailedQueue.requeue(job_id)` is: before `Job.fetch`, before the `LREM` of
    a job with no record, before the `LREM` that claims the job, inside `enqueue_job`, or
    returned. -/
inductive RequeuePc
  | fetch
  | purge
  | remove (job : Job)
  | enqueue (job : Job) (pc : EnqueueJobPc)
  | done (err : Option RqError)
  deriving DecidableEq, Repr

/-- One command of `FailedQueue.requeue(job_id)`. -/
def requeueStep (jobId : String) (now : Nat) : RequeuePc → Store → RequeuePc × Store
  | .fetch, s =>
    match Job.fetch s jobId with
    | .error (.noSuchJob _) => (.purge, s)
    | .error e => (.done (some e), s)
    | .ok job => (.remove job, s)
  | .purge, s => (.done none, (FailedQueue.new.remove jobId s).2)
  | .remove job, s =>
    let (removed, s) := FailedQueue.new.remove job.id s
    if removed = 0 then (.done (some (.invalidJobOperation "Cannot requeue non-failed jobs.")), s)
    else (.enqueue { job with status := some .queued, excInfo := none } .register, s)
  | .enqueue job pc, s =>
    let queue := Queue.ofOrigin job.origin
    match queue.enqueueJobStep (queue.jobMeta job true now) pc s with
    | (none, s) => (.done none, s)
    | (some pc, s) => (.enqueue job pc, s)
  | .done err, s => (.done err, s)

/-- One step of a `requeue(job_id)` call; the calls record no events. -/
def RequeuePc.step (jobId : String) (now : Nat) (pc : RequeuePc) (_ : Nat) (s : Store) :
    RequeuePc × Store × List Unit :=
  let r := requeueStep jobId now pc s
  (r.1, r.2, [])

/-- `m` calls of `requeue(job_id)`, all started, run from `s₀`. -/
def requeueRun (jobId : String) (now : Nat) (s₀ : Store) (m : Nat) (sched : List (Nat × Nat)) :
    World RequeuePc Unit :=
  (World.mk s₀ (List.replicate m .fetch) []).run (RequeuePc.step jobId now) sched

/-! ## `requeue` run alone -/

/-- The state a finished `requeue` machine is in, from what the call returned or raised. -/
def RequeuePc.ofResult : Except RqError Unit → RequeuePc
  | .ok () => .done none
  | .error e => .done (some e)

/-- Run alone, the `enqueue_job` a `requeue` starts returns after its three commands. -/
theorem requeueStep_enqueue_alone (jobId : String) (now : Nat) (job : Job) (s : Store) :
    (Function.uncurry (requeueStep jobId now))^[3] (.enqueue job .register, s) =
      (.done none, ((Queue.ofOrigin job.origin).enqueueJob job true now s).2) := rfl

/-- Run alone for five steps or more, the machine ends with the result and the store of the
    sequential `FailedQueue.requeue`. -/
theorem requeueStep_alone (jobId : String) (now : Nat) (s : Store) {n : Nat} (hn : 5 ≤ n) :
    (Function.uncurry (requeueStep jobId now))^[n] (.fetch, s) =
      (.ofResult (FailedQueue.requeue jobId now s).1, (FailedQueue.requeue jobId now s).2) := by
  refine iterate_stays (m := 5) ?_ (by cases (FailedQueue.requeue jobId now s).1 <;> rfl) hn
  rcases hf : Job.fetch s jobId with e | job
  · rcases Job.fetch_error hf with rfl | rfl
    · simp [FailedQueue.requeue, hf, requeueStep, Function.iterate_succ_apply, RequeuePc.ofResult]
    · simp [FailedQueue.requeue, hf, requeueStep, Function.iterate_succ_apply, RequeuePc.ofResult]
  · have h1 : Function.uncurry (requeueStep jobId now) (.fetch, s) = (.remove job, s) := by
      simp [requeueStep, hf]
    rw [Function.iterate_succ_apply, h1]
    simp only [FailedQueue.requeue, hf]
    rcases hr : FailedQueue.new.remove job.id s with ⟨r, s'⟩
    dsimp only
    split
    · rename_i h0
      simp [Function.iterate_succ_apply, requeueStep, hr, h0, RequeuePc.ofResult]
    · rename_i h0
      have h2 : Function.uncurry (requeueStep jobId now) (.remove job, s) =
          (.enqueue { job with status := some .queued, excInfo := none } .register, s') := by
        simp [requeueStep, hr, h0]
      rw [Function.iterate_succ_apply, h2, requeueStep_enqueue_alone]
      rfl

theorem requeueStep_alone_failed :
    (let s := (FailedQueue.quarantine { id := "j", origin := some "a" } "boom" 0 Store.empty).2;
      (Function.uncurry (requeueStep "j" 1))^[5] (.fetch, s) =
        (.ofResult (FailedQueue.requeue "j" 1 s).1, (FailedQueue.requeue "j" 1 s).2)) :=
  requeueStep_alone "j" 1 _ le_rfl

/-! ## The invariant of a requeue race -/

section Requeue

variable (s₀ : Store) (j : Job) (now : Nat)

/-- The start of a requeue race: `j` is the record of its ID and decodes, its ID is in the
    failed list, and its origin queue is not the failed queue. -/
structure RequeueStart : Prop where
  record : s₀.records j.id = some j
  decodes : j.decodes = true
  failed : j.id ∈ s₀.lists FailedQueue.new.key
  origin : (Queue.ofOrigin j.origin).key ≠ FailedQueue.new.key

/-- Before any call has claimed the job, a call is before its fetch or holds `j`. -/
def RequeuePc.early : RequeuePc → Prop
  | .fetch => True
  | .remove job => job = j
  | _ => False

/-- Once a call has claimed the job, any other call is before its fetch, holds a job with `j`'s
    ID, or has raised `InvalidJobOperationError`. -/
def RequeuePc.lost : RequeuePc → Prop
  | .fetch => True
  | .remove job => job.id = j.id
  | .done (some e) => e = .invalidJobOperation "Cannot requeue non-failed jobs."
  | _ => False

/-- What a call past a claiming `LREM` still writes when it runs alone. -/
def requeueRest : RequeuePc → Store → Store
  | .enqueue job pc, s =>
    let queue := Queue.ofOrigin job.origin
    queue.enqueueJobRest (queue.jobMeta job true now) pc s
  | _, s => s

/-- The winner: past its `LREM`, holding a job with `j`'s ID and origin that decodes, and what it
    still writes turns the store into what it alone makes of `s₀`. -/
def RequeuePc.winner (pc : RequeuePc) (s : Store) : Prop :=
  (match pc with
    | .enqueue job _ => job.id = j.id ∧ job.decodes = true ∧ job.origin = j.origin
    | .done none => True
    | _ => False) ∧
  requeueRest now pc s = (FailedQueue.requeue j.id now s₀).2

/-- Every step of every call keeps the invariant of a requeue race: before any call has
    claimed the job the store is `s₀` and every call is early; after, one call is the winner
    and every other is losing, with `j`'s ID out of the failed list and its record readable. -/
def RequeueInv (m : Nat) (w : World RequeuePc Unit) : Prop :=
  w.clients.length = m ∧
  ((w.store = s₀ ∧ ∀ (k : Nat) (pc : RequeuePc), w.clients[k]? = some pc → pc.early j) ∨
    (j.id ∉ w.store.lists FailedQueue.new.key ∧ RecordOk j.id w.store ∧
      ∃ (i : Nat) (pc : RequeuePc), w.clients[i]? = some pc ∧ pc.winner s₀ j now w.store ∧
        ∀ (k : Nat) (pc' : RequeuePc), k ≠ i → w.clients[k]? = some pc' → pc'.lost j))

variable {s₀ j}

theorem RequeueStart.fetch (h₀ : RequeueStart s₀ j) : Job.fetch s₀ j.id = .ok j := by
  simp [Job.fetch, h₀.record, h₀.decodes]

theorem RequeuePc.lost_of_early {pc : RequeuePc} (he : pc.early j) : pc.lost j := by
  cases pc <;> simp_all [RequeuePc.early, RequeuePc.lost]

/-- Before any call has claimed the job, a step reads the initial store and moves on, or is the
    `LREM` that claims it: that call wins. -/
theorem RequeuePc.early_step (h₀ : RequeueStart s₀ j) {pc pc' : RequeuePc} {s : Store}
    (he : pc.early j) (h : requeueStep j.id now pc s₀ = (pc', s)) :
    (pc'.early j ∧ s = s₀) ∨
      (pc'.winner s₀ j now s ∧ j.id ∉ s.lists FailedQueue.new.key ∧ RecordOk j.id s) := by
  cases pc with
  | fetch =>
    simp only [requeueStep, h₀.fetch, Prod.mk.injEq] at h
    obtain ⟨rfl, rfl⟩ := h
    exact .inl ⟨rfl, rfl⟩
  | remove job =>
    obtain rfl : job = j := he
    have hc : (s₀.lists FailedQueue.new.key).count job.id ≠ 0 :=
      (List.count_pos_iff.2 h₀.failed).ne'
    simp only [requeueStep, Queue.remove, Store.lrem, hc, if_false, Prod.mk.injEq] at h
    obtain ⟨rfl, rfl⟩ := h
    refine .inr ⟨⟨⟨rfl, h₀.decodes, rfl⟩, ?_⟩, by simp,
      RecordOk.of_records ⟨job, h₀.record, rfl, h₀.decodes⟩ rfl⟩
    simp only [requeueRest, Queue.enqueueJobRest_register,
      FailedQueue.requeue_of_failed h₀.fetch rfl h₀.failed, Queue.remove, Store.lrem]
  | purge => exact he.elim
  | enqueue job pc => exact he.elim
  | done err => exact he.elim

/-- Once a call has claimed the job, a step of another call writes nothing, and that call stays
    losing. -/
theorem RequeuePc.lost_step {pc pc' : RequeuePc} {s s' : Store} (hl : pc.lost j)
    (hm : j.id ∉ s.lists FailedQueue.new.key) (hrec : RecordOk j.id s)
    (h : requeueStep j.id now pc s = (pc', s')) : pc'.lost j ∧ s' = s := by
  cases pc with
  | fetch =>
    obtain ⟨r, hf, hid, -⟩ := hrec.fetch
    simp only [requeueStep, hf, Prod.mk.injEq] at h
    obtain ⟨rfl, rfl⟩ := h
    exact ⟨hid, rfl⟩
  | remove job =>
    have hl : job.id = j.id := hl
    simp only [requeueStep, Queue.remove, Store.lrem_not_mem (hl ▸ hm), if_true,
      Prod.mk.injEq] at h
    obtain ⟨rfl, rfl⟩ := h
    exact ⟨rfl, rfl⟩
  | done err =>
    cases h
    exact ⟨hl, rfl⟩
  | purge => exact hl.elim
  | enqueue job pc => exact hl.elim

/-- A step of the winner keeps it the winner, keeps `j`'s ID out of the failed list and its
    record readable. -/
theorem RequeuePc.winner_step (h₀ : RequeueStart s₀ j) {pc pc' : RequeuePc} {s s' : Store}
    (hw : pc.winner s₀ j now s) (hm : j.id ∉ s.lists FailedQueue.new.key)
    (hrec : RecordOk j.id s) (h : requeueStep j.id now pc s = (pc', s')) :
    pc'.winner s₀ j now s' ∧ j.id ∉ s'.lists FailedQueue.new.key ∧ RecordOk j.id s' := by
  obtain ⟨hjob, hrest⟩ := hw
  cases pc with
  | enqueue job epc =>
    obtain ⟨hid, hdec, horig⟩ := hjob
    set queue := Queue.ofOrigin job.origin
    have hk : FailedQueue.new.key ≠ queue.key := by
      simpa [queue, horig] using Ne.symm h₀.origin
    have hlists := queue.enqueueJobStep_lists (queue.jobMeta job true now) epc s hk
    have hok := hrec.enqueueJobStep queue (queue.jobMeta job true now) (by simpa)
      (by simpa) epc
    have hstep := queue.enqueueJobRest_step (queue.jobMeta job true now) epc s
    simp only [requeueRest] at hrest
    rcases hr : queue.enqueueJobStep (queue.jobMeta job true now) epc s with ⟨_ | epc', s''⟩ <;>
      simp only [requeueStep, hr, Prod.mk.injEq] at h <;> obtain ⟨rfl, rfl⟩ := h <;>
      simp only [hr] at hlists hok hstep <;> refine ⟨⟨?_, ?_⟩, hlists ▸ hm, hok⟩
    · trivial
    · simpa [requeueRest, hstep] using hrest
    · exact ⟨hid, hdec, horig⟩
    · simpa [requeueRest, hstep] using hrest
  | done err =>
    cases h
    exact ⟨⟨hjob, hrest⟩, hm, hrec⟩
  | fetch => exact hjob.elim
  | purge => exact hjob.elim
  | remove job => exact hjob.elim

/-- Every call starts before its fetch, before it has read anything. -/
theorem requeueInv_init (m : Nat) :
    RequeueInv s₀ j now m ⟨s₀, List.replicate m .fetch, []⟩ := by
  refine ⟨by simp, .inl ⟨rfl, fun k d hk => ?_⟩⟩
  simp only [List.getElem?_replicate] at hk
  split at hk <;> cases hk
  trivial

theorem requeueInv_tick (h₀ : RequeueStart s₀ j) {m : Nat} {w : World RequeuePc Unit}
    (h : RequeueInv s₀ j now m w) (i n : Nat) :
    RequeueInv s₀ j now m (w.tick (RequeuePc.step j.id now) i n) := by
  obtain ⟨hlen, hphase⟩ := h
  cases hi : w.clients[i]? with
  | none => rw [World.tick_of_none n hi]; exact ⟨hlen, hphase⟩
  | some pc =>
    rw [World.tick_of_get n hi]
    have hil : i < w.clients.length := (List.getElem?_eq_some_iff.1 hi).1
    generalize hr : requeueStep j.id now pc w.store = r
    obtain ⟨pc', s⟩ := r
    simp only [RequeuePc.step, hr]
    have hself : (w.clients.set i pc')[i]? = some pc' := List.getElem?_set_self hil
    refine ⟨by simp [hlen], ?_⟩
    rcases hphase with ⟨hs, hearly⟩ | ⟨hm, hrec, iw, pcw, hcw, hwin, hlost⟩
    · rw [hs] at hr
      rcases RequeuePc.early_step now h₀ (hearly i pc hi) hr with
        ⟨he', rfl⟩ | ⟨hw', hm', hrec'⟩
      · refine .inl ⟨rfl, fun k d hd => ?_⟩
        rcases getElem?_set_some hd with ⟨rfl, rfl⟩ | ⟨-, hd⟩
        exacts [he', hearly k d hd]
      · refine .inr ⟨hm', hrec', i, _, hself, hw', fun k d hk hd => ?_⟩
        rcases getElem?_set_some hd with ⟨rfl, rfl⟩ | ⟨-, hd⟩
        exacts [absurd rfl hk, RequeuePc.lost_of_early (hearly k d hd)]
    · by_cases hiw : i = iw
      · subst hiw
        obtain rfl : pcw = pc := Option.some.inj (hcw.symm.trans hi)
        obtain ⟨hw', hm', hrec'⟩ := RequeuePc.winner_step now h₀ hwin hm hrec hr
        refine .inr ⟨hm', hrec', i, _, hself, hw', fun k d hk hd => ?_⟩
        rcases getElem?_set_some hd with ⟨rfl, rfl⟩ | ⟨-, hd⟩
        exacts [absurd rfl hk, hlost k d hk hd]
      · obtain ⟨hl', rfl⟩ := RequeuePc.lost_step now (hlost i pc hiw hi) hm hrec hr
        refine .inr ⟨hm, hrec, iw, pcw, by rwa [List.getElem?_set_ne hiw], hwin,
          fun k d hk hd => ?_⟩
        rcases getElem?_set_some hd with ⟨rfl, rfl⟩ | ⟨-, hd⟩
        exacts [hl', hlost k d hk hd]

theorem requeueInv_run (h₀ : RequeueStart s₀ j) {m : Nat} (sched : List (Nat × Nat))
    {w : World RequeuePc Unit} (h : RequeueInv s₀ j now m w) :
    RequeueInv s₀ j now m (w.run (RequeuePc.step j.id now) sched) :=
  World.run_induction (RequeueInv s₀ j now m) (fun _ i n hw => requeueInv_tick now h₀ hw i n)
    sched w h

end Requeue

/-- `m ≥ 1` concurrent `requeue(j.id)` calls on a failed job whose record decodes and whose
    origin is not the failed queue: once all have returned, exactly one returned normally, every
    other raised `InvalidJobOperationError`, and the store is what the winner alone makes of
    `s₀`. -/
theorem requeue_race (s₀ : Store) (j : Job) (now m : Nat) (sched : List (Nat × Nat))
    (hrec : s₀.records j.id = some j) (hdec : j.decodes = true)
    (hfailed : j.id ∈ s₀.lists FailedQueue.new.key)
    (horigin : (Queue.ofOrigin j.origin).key ≠ FailedQueue.new.key) (hm : 0 < m)
    (hfin : ∀ pc ∈ (requeueRun j.id now s₀ m sched).clients, ∃ err, pc = .done err) :
    ∃ i : Nat, (requeueRun j.id now s₀ m sched).clients[i]? = some (.done none) ∧
      (∀ (k : Nat) (pc : RequeuePc), k ≠ i →
        (requeueRun j.id now s₀ m sched).clients[k]? = some pc →
        pc = .done (some (.invalidJobOperation "Cannot requeue non-failed jobs."))) ∧
      (requeueRun j.id now s₀ m sched).store = (FailedQueue.requeue j.id now s₀).2 ∧
      j.id ∉ (requeueRun j.id now s₀ m sched).store.lists FailedQueue.new.key ∧
      (requeueRun j.id now s₀ m sched).store.lists (Queue.ofOrigin j.origin).key =
        s₀.lists (Queue.ofOrigin j.origin).key ++ [j.id] ∧
      Job.getStatus (requeueRun j.id now s₀ m sched).store j.id = some .queued ∧
      ((requeueRun j.id now s₀ m sched).store.records j.id).bind (·.excInfo) = none := by
  have h₀ : RequeueStart s₀ j := ⟨hrec, hdec, hfailed, horigin⟩
  obtain ⟨hlen, hphase⟩ := requeueInv_run now h₀ sched (requeueInv_init now m)
  rw [← requeueRun] at hlen hphase
  rcases hphase with ⟨-, hearly⟩ | ⟨-, -, i, pc, hc, ⟨hwpc, hrest⟩, hlost⟩
  · obtain ⟨d, hd0⟩ : ∃ d, (requeueRun j.id now s₀ m sched).clients[0]? = some d :=
      Option.isSome_iff_exists.1 (by simp [List.getElem?_eq_getElem, hlen, hm])
    obtain ⟨err, rfl⟩ := hfin d (List.getElem?_mem hd0)
    exact (hearly 0 _ hd0).elim
  · obtain ⟨err, rfl⟩ := hfin pc (List.getElem?_mem hc)
    cases err with
    | some e => exact hwpc.elim
    | none =>
      obtain ⟨hm₁, hl₁, hst₁, hx₁⟩ :=
        @FailedQueue.requeue_of_failed_store _ now _ _ h₀.fetch rfl hfailed horigin
      simp only [requeueRest] at hrest
      refine ⟨i, hc, fun k d hk hdk => ?_, hrest, ?_⟩
      · obtain ⟨err', rfl⟩ := hfin d (List.getElem?_mem hdk)
        have hl := hlost k _ hk hdk
        cases err' with
        | none => exact hl.elim
        | some e => exact congrArg (fun e => RequeuePc.done (some e)) hl
      · rw [hrest]
        exact ⟨hm₁, hl₁, hst₁, hx₁⟩

/-! ## Both races -/

/-- Concurrent `release_job` calls on a deferred job, and concurrent `requeue` calls on a failed
    job: in each race exactly one call gets past its claim and returns what it alone returns
    (a release into a synchronous queue raises what the job's function raises), the others
    refuse without writing, and the store is what the winner alone makes of the initial
    store. -/
theorem release_requeue_races :
    (∀ (s₀ : Store) (j : Job) (now : Nat) (calls : List (JobOrId × Option QueueOrName))
      (sched : List (Nat × Nat)),
      s₀.records j.id = some j → j.decodes = true → j.status = some .deferred →
      j.id ∈ s₀.sets .deferred →
      (∀ a ∈ calls,
        a.1 = .id j.id ∨ ∃ o, a.1 = .job o ∧ o.id = j.id ∧ o.decodes = true) →
      calls ≠ [] →
      (∀ c ∈ (releaseRun now s₀ calls sched).clients, ∃ err, c.pc = .done err) →
      ∃ (i : Nat) (c : ReleaseCall) (job : Job),
        (releaseRun now s₀ calls sched).clients[i]? = some c ∧ calls[i]? = some c.args ∧
        c.jobOrId.resolve s₀ = .ok job ∧
        c.pc = .ofResult (if (QueueOrName.resolve job c.queueOrName).isAsync then .ok ()
          else job.perform) ∧
        (∀ (k : Nat) (d : ReleaseCall), k ≠ i →
          (releaseRun now s₀ calls sched).clients[k]? = some d →
          ∃ e : RqError, d.pc = .done (some e) ∧ e.refusal = true) ∧
        (releaseRun now s₀ calls sched).store =
          (releaseJob c.jobOrId c.queueOrName now s₀).2 ∧
        j.id ∉ (releaseRun now s₀ calls sched).store.sets .deferred ∧
        Job.getStatus (releaseRun now s₀ calls sched).store j.id = some .queued ∧
        (releaseRun now s₀ calls sched).store.lists (QueueOrName.resolve job c.queueOrName).key =
          s₀.lists (QueueOrName.resolve job c.queueOrName).key ++
            if (QueueOrName.resolve job c.queueOrName).isAsync then [j.id] else []) ∧
    (∀ (s₀ : Store) (j : Job) (now m : Nat) (sched : List (Nat × Nat)),
      s₀.records j.id = some j → j.decodes = true →
      j.id ∈ s₀.lists FailedQueue.new.key →
      (Queue.ofOrigin j.origin).key ≠ FailedQueue.new.key → 0 < m →
      (∀ pc ∈ (requeueRun j.id now s₀ m sched).clients, ∃ err, pc = .done err) →
      ∃ i : Nat, (requeueRun j.id now s₀ m sched).clients[i]? = some (.done none) ∧
        (∀ (k : Nat) (pc : RequeuePc), k ≠ i →
          (requeueRun j.id now s₀ m sched).clients[k]? = some pc →
          pc = .done (some (.invalidJobOperation "Cannot requeue non-failed jobs."))) ∧
        (requeueRun j.id now s₀ m sched).store = (FailedQueue.requeue j.id now s₀).2 ∧
        j.id ∉ (requeueRun j.id now s₀ m sched).store.lists FailedQueue.new.key ∧
        (requeueRun j.id now s₀ m sched).store.lists (Queue.ofOrigin j.origin).key =
          s₀.lists (Queue.ofOrigin j.origin).key ++ [j.id] ∧
        Job.getStatus (requeueRun j.id now s₀ m sched).store j.id = some .queued ∧
        ((requeueRun j.id now s₀ m sched).store.records j.id).bind (·.excInfo) = none) :=
  ⟨release_race, requeue_race⟩

/-- Two `release_job` calls by ID on a deferred job, the first run to the end before the
    second, and two `requeue` calls on a failed job, likewise. -/
theorem release_requeue_races_two_calls :
    (let s₀ := (Job.save Store.empty
        { id := "j", status := some .deferred, origin := some "a" }).sadd .deferred "j";
      let w := releaseRun 0 s₀ [(.id "j", none), (.id "j", none)]
        (List.replicate 8 (0, 0) ++ List.replicate 3 (1, 0));
      ∃ c ∈ w.clients, c.pc = .done none ∧
        w.store = (releaseJob c.jobOrId c.queueOrName 0 s₀).2) ∧
    (let s₀ := (Job.save Store.empty { id := "j", origin := some "a" }).rpush
        FailedQueue.new.key "j";
      let w := requeueRun "j" 0 s₀ 2 (List.replicate 5 (0, 0) ++ List.replicate 2 (1, 0));
      .done none ∈ w.clients ∧ w.store = (FailedQueue.requeue "j" 0 s₀).2) := by
  constructor
  · intro s₀ w
    have hcl : w.clients = [⟨.id "j", none, .done none⟩, ⟨.id "j", none, .done (some
        (.invalidJobOperation "Job id 'j' status is queued and not 'deferred'"))⟩] := by decide
    obtain ⟨i, c, job, hi, -, hres, hpc, -, hstore, -⟩ := release_requeue_races.1 s₀
      { id := "j", status := some .deferred, origin := some "a" } 0
      [(.id "j", none), (.id "j", none)] (List.replicate 8 (0, 0) ++ List.replicate 3 (1, 0))
      rfl rfl rfl (by decide) (by simp) (by simp) (fun c hc => by
        change c ∈ w.clients at hc
        rw [hcl] at hc
        rcases List.mem_pair.1 hc with rfl | rfl <;> exact ⟨_, rfl⟩)
    have hc : c ∈ w.clients := List.getElem?_mem hi
    have hargs : c.jobOrId = .id "j" ∧ c.queueOrName = none := by
      rw [hcl] at hc
      rcases List.mem_pair.1 hc with rfl | rfl <;> exact ⟨rfl, rfl⟩
    rw [hargs.1] at hres
    obtain rfl : job = { id := "j", status := some .deferred, origin := some "a" } :=
      Except.ok.inj (hres.symm.trans rfl)
    exact ⟨c, hc, hpc.trans (by rw [hargs.2]; rfl), hstore⟩
  · intro s₀ w
    have hcl : w.clients = [.done none,
        .done (some (.invalidJobOperation "Cannot requeue non-failed jobs."))] := by decide
    obtain ⟨i, hi, -, hstore, -⟩ :=
      release_requeue_races.2 s₀ { id := "j", origin := some "a" } 0 2
        (List.replicate 5 (0, 0) ++ List.replicate 2 (1, 0)) rfl rfl (by decide) (by decide)
        (by decide) (fun pc hpc => by
          change pc ∈ w.clients at hpc
          rw [hcl] at hpc
          rcases List.mem_pair.1 hpc with rfl | rfl <;> exact ⟨_, rfl⟩)
    exact ⟨List.getElem?_mem hi, hstore⟩

/-- Two releases into a synchronous queue of a job whose function raises: the first runs the
    job, which raises, and the second finds it queued, so no call returns normally and nothing
    is pushed; a `requeue` of a job whose record does not decode raises `UnpickleError`; and
    two `requeue` calls on a job whose origin is the failed queue both return normally, the
    second finding the ID the first pushed back. -/
theorem release_sync_or_undecodable :
    (let s₀ := (Job.save Store.empty
        { id := "j", status := some .deferred, origin := some "a", raises := some "boom" }).sadd
        .deferred "j";
      let b := some (QueueOrName.queue (Queue.new "b" none false));
      let w := releaseRun 0 s₀ [(.id "j", b), (.id "j", b)]
        (List.replicate 7 (0, 0) ++ List.replicate 3 (1, 0));
      w.clients.map (·.pc) = [.done (some (.jobRaised "boom")), .done (some
        (.invalidJobOperation "Job id 'j' status is queued and not 'deferred'"))] ∧
      w.store.lists "rq:queue:b" = []) ∧
    (let s₀ := (Job.save Store.empty { id := "j", origin := some "a", decodes := false }).rpush
        FailedQueue.new.key "j";
      (requeueRun "j" 0 s₀ 1 [(0, 0)]).clients = [.done (some (.unpickle none none))]) ∧
    (let s₀ := (Job.save Store.empty { id := "j", origin := some "failed" }).rpush
        FailedQueue.new.key "j";
      (requeueRun "j" 0 s₀ 2 (List.replicate 5 (0, 0) ++ List.replicate 5 (1, 0))).clients =
        [.done none, .done none]) := by
  decide

end Rq
