import Rq.Interleave

/-
  The race between a producer's `q.enqueue_call(f, depends_on=P)` and a worker completing `P`
  (it persists `FINISHED`, then runs `enqueue_dependents(P)`).

  The producer's status check (line 233), its registration on `P` (line 234) and its save
  (line 235) are separate Redis commands. The watch on `P`'s key (line 232) guards no
  transaction: `register_dependency` and `save` go through the connection, not the pipeline,
  and the pipeline is never executed, so no `WatchError` can signal the worker's write.

  * `parkStep_alone`: run alone for four steps or more, the producer ends with the store of the
    sequential `enqueue_call` with one parent.
  * `drainStep_alone`: run alone, `SPOP` choosing as `pick` does, the worker's drain ends after
    five steps per dependent and the last `SPOP` with the result and the store of the
    sequential `enqueue_dependents`.
  * `child_parked_after_drain`: the check sees `P` unfinished, the worker finishes `P` and drains
    its (still empty) dependents set, then the producer registers the child: both calls end,
    and the child is parked on a finished parent whose drain has run, in no FIFO list.
  * `dep_child_accounted`: no step of either call removes the child from a list or from the
    deferred set, and the worker takes it out of `P`'s dependents set only by popping it, which
    hands it to the fetch and the push; so once both calls return under any schedule, the child
    is in the queue, deferred, or parked on `P`, or the drain raised. It raises when its `SPOP`
    lands between the producer's registration and its save (`dep_child_accounted_raised`).
-/

namespace Rq

/-- Where `enqueue_call(f, depends_on=P)` is, past `Job.create`. -/
inductive ParkPc
  | check
  | register
  | save
  | defer (added : Bool)
  | enqueue (pc : EnqueueJobPc)
  | done
  deriving DecidableEq, Repr

/-- Where a worker completing a job is: the status write, the loop of `enqueue_dependents`. -/
inductive DrainPc
  | finish
  | pop
  | fetch (jobId : String)
  | enqueue (dependent : Job) (pc : EnqueueJobPc)
  | done (err : Option RqError)
  deriving DecidableEq, Repr

/-- The two clients of the race: a producer enqueueing `job` on `q` with parent `parent`, and a
    worker completing `parent` and draining its dependents into `q`. -/
inductive DepClient
  | producer (q : Queue) (job : Job) (parent : String) (now : Nat) (pc : ParkPc)
  | worker (q : Queue) (parent : String) (now : Nat) (pc : DrainPc)
  deriving DecidableEq, Repr

/-- One command of the producer (lines 233-244). -/
def parkStep (q : Queue) (job : Job) (parent : String) (now : Nat) :
    ParkPc → Store → ParkPc × Store
  | .check, s =>
    if Job.getStatus s parent ≠ some .finished then (.register, s)
    else if job.status = some .deferred then (.defer false, s) else (.enqueue .register, s)
  | .register, s => (.save, Job.registerDependency s job parent)
  | .save, s => (.done, Job.save s job)
  | .defer false, s => (.defer true, s.sadd .deferred job.id)
  | .defer true, s => (.done, Job.save s (q.jobMeta job true now))
  | .enqueue pc, s =>
    match q.enqueueJobStep (q.jobMeta job true now) pc s with
    | (none, s') => (.done, s')
    | (some pc', s') => (.enqueue pc', s')
  | .done, s => (.done, s)

/-- One command of the worker: the status write, then `enqueue_dependents` (lines 335-340);
    `pick` chooses the member `SPOP` returns. -/
def drainStep (q : Queue) (parent : String) (now pick : Nat) :
    DrainPc → Store → DrainPc × Store
  | .finish, s => (.pop, Job.setStatus s parent .finished)
  | .pop, s =>
    match s.spop (.dependents parent) pick with
    | (none, s') => (.done none, s')
    | (some jobId, s') => (.fetch jobId, s')
  | .fetch jobId, s =>
    match Job.fetch s jobId with
    | .error e => (.done (some e), s)
    | .ok dep => (.enqueue (q.jobMeta dep true now) .register, s)
  | .enqueue dep pc, s =>
    match q.enqueueJobStep dep pc s with
    | (none, s') =>
      match q.enqueueJobResult dep with
      | .ok () => (.pop, s')
      | .error e => (.done (some e), s')
    | (some pc', s') => (.enqueue dep pc', s')
  | .done err, s => (.done err, s)

/-- One step of either client. -/
def DepClient.step : DepClient → Nat → Store → DepClient × Store × List Unit
  | .producer q job parent now pc, _, s =>
    let r := parkStep q job parent now pc s
    (.producer q job parent now r.1, r.2, [])
  | .worker q parent now pc, pick, s =>
    let r := drainStep q parent now pick pc s
    (.worker q parent now r.1, r.2, [])

/-- The client's call has returned. -/
def DepClient.finished : DepClient → Bool
  | .producer _ _ _ _ pc => pc = .done
  | .worker _ _ _ (.done _) => true
  | .worker _ _ _ _ => false

/-! ## The producer run alone -/

/-- Run alone for four steps or more, the producer ends with the store of the sequential
    `enqueue_call` with one parent. -/
theorem parkStep_alone (q : Queue) (o : CallOptions) (id parent : String) (now : Nat)
    (s : Store) (hpar : o.parents = some (.job parent)) {n : Nat} (hn : 4 ≤ n) :
    (Function.uncurry (parkStep q (q.createJob o id) parent now))^[n] (.check, s) =
      (.done, (q.enqueueCall o id now s).2) := by
  refine iterate_stays (m := 4) ?_ rfl hn
  by_cases hst : Job.getStatus s parent ≠ some .finished
  · simp [Function.iterate_succ_apply, parkStep, hst, Queue.enqueueCall, hpar]
  by_cases hdef : (q.createJob o id).status = some .deferred
  · simp [Function.iterate_succ_apply, parkStep, hst, hdef, Queue.enqueueCall, hpar,
      Queue.deferOrEnqueue, Queue.deferJob]
  · cases ha : q.isAsync <;>
      simp [Function.iterate_succ_apply, parkStep, hst, hdef, Queue.enqueueCall, hpar,
        Queue.deferOrEnqueue, Queue.enqueueJob_snd, Queue.enqueueJobStep, ha]

theorem parkStep_alone_unfinished :
    (let q := Queue.new "default";
      let o : CallOptions := { dependsOn := some (.job "p") };
      let s := Job.save Store.empty { id := "p", status := some .queued };
      (Function.uncurry (parkStep q (q.createJob o "c") "p" 0))^[4] (.check, s) =
        (.done, (q.enqueueCall o "c" 0 s).2)) :=
  parkStep_alone (Queue.new "default") { dependsOn := some (.job "p") } "c" "p" 0 _ rfl le_rfl

/-! ## The drain run alone -/

/-- The state a finished drain is in, from what `enqueue_dependents` returned or raised. -/
def DrainPc.ofResult : Except RqError Unit → DrainPc
  | .ok () => .done none
  | .error e => .done (some e)

section Drain

variable (q : Queue) (job : Job) (pick : List String → Nat) (now : Nat)

/-- One step of the drain run alone: `SPOP` returns the member `pick` chooses from the set. -/
def drainAlone (p : DrainPc × Store) : DrainPc × Store :=
  drainStep q job.id now (pick (p.2.sets (.dependents job.id))) p.1 p.2

/-- Run alone, the `enqueue_job` of a dependent returns to the loop's `SPOP`, or ends the drain
    with the exception of the dependent's function. -/
theorem drainAlone_enqueue (dep : Job) (s : Store) :
    (drainAlone q job pick now)^[if q.isAsync then 3 else 2]
        (.enqueue (q.jobMeta dep true now) .register, s) =
      (match (q.enqueueJob dep true now s).1 with
        | .ok _ => .pop
        | .error e => .done (some e), (q.enqueueJob dep true now s).2) := by
  rw [Queue.enqueueJob_fst_result, Queue.enqueueJob_snd]
  cases ha : q.isAsync
  · cases hr : q.enqueueJobResult (q.jobMeta dep true now) <;>
      simp [Function.iterate_succ_apply, drainAlone, drainStep, Queue.enqueueJobStep, ha, hr,
        Except.map]
  · simp [Function.iterate_succ_apply, drainAlone, drainStep, Queue.enqueueJobStep, ha,
      Queue.enqueueJobResult, Except.map]

theorem drainAlone_run (s : Store) :
    ∃ m ≤ 5 * (s.sets (.dependents job.id)).length + 1,
      (drainAlone q job pick now)^[m] (.pop, s) =
        (.ofResult (q.enqueueDependents job pick now s).1,
          (q.enqueueDependents job pick now s).2) := by
  induction s using Queue.enqueueDependents.induct q job pick now with
  | case1 s s' h =>
    refine ⟨1, by omega, ?_⟩
    rw [Queue.enqueueDependents, h]
    simp [drainAlone, drainStep, h, DrainPc.ofResult]
  | case2 s x s' h e hf =>
    have hlen := Store.spop_sets_length h
    refine ⟨2, by omega, ?_⟩
    rw [Queue.enqueueDependents, h]
    simp [Function.iterate_succ_apply, drainAlone, drainStep, h, hf, DrainPc.ofResult]
  | case3 s x s' h d hf r e he =>
    have hlen := Store.spop_sets_length h
    have he' : (q.enqueueJob d true now s').1 = .error e := he
    have hpop : (drainAlone q job pick now)^[2] (.pop, s) =
        (.enqueue (q.jobMeta d true now) .register, s') := by
      simp [Function.iterate_succ_apply, drainAlone, drainStep, h, hf]
    refine ⟨(if q.isAsync then 3 else 2) + 2, by split <;> omega, ?_⟩
    rw [Function.iterate_add_apply, hpop, drainAlone_enqueue, Queue.enqueueDependents, h]
    simp only [hf, he']
    rfl
  | case4 s x s' h d hf r j hj ih =>
    obtain ⟨m, hm, hrun⟩ := ih
    have hlen := Store.spop_sets_length h
    have hj' : (q.enqueueJob d true now s').1 = .ok j := hj
    rw [Queue.enqueueJob_sets_dependents] at hm
    have hpop : (drainAlone q job pick now)^[2] (.pop, s) =
        (.enqueue (q.jobMeta d true now) .register, s') := by
      simp [Function.iterate_succ_apply, drainAlone, drainStep, h, hf]
    have hnext : q.enqueueDependents job pick now s =
        q.enqueueDependents job pick now (q.enqueueJob d true now s').2 := by
      rw [Queue.enqueueDependents, h]; simp only [hf, hj']
    refine ⟨m + ((if q.isAsync then 3 else 2) + 2), by split <;> omega, ?_⟩
    rw [Function.iterate_add_apply, Function.iterate_add_apply, hpop, drainAlone_enqueue, hj',
      hrun, hnext]

/-- Run alone for enough steps (five per dependent, and the last `SPOP`), the drain ends with
    the result and the store of the sequential `enqueue_dependents`. -/
theorem drainStep_alone (s : Store) {n : Nat}
    (hn : 5 * (s.sets (.dependents job.id)).length + 1 ≤ n) :
    (drainAlone q job pick now)^[n] (.pop, s) =
      (.ofResult (q.enqueueDependents job pick now s).1,
        (q.enqueueDependents job pick now s).2) := by
  obtain ⟨m, hm, hrun⟩ := drainAlone_run q job pick now s
  exact iterate_stays hrun (by cases (q.enqueueDependents job pick now s).1 <;> rfl) (by omega)

end Drain

theorem drainStep_alone_two :
    (let s := Job.save (Job.save ((Store.empty.sadd (.dependents "p") "a").sadd
        (.dependents "p") "b") { id := "a" }) { id := "b" };
      let q := Queue.new "default";
      (drainAlone q { id := "p" } (fun _ => 1) 0)^[11] (.pop, s) =
        (.ofResult (q.enqueueDependents { id := "p" } (fun _ => 1) 0 s).1,
          (q.enqueueDependents { id := "p" } (fun _ => 1) 0 s).2)) :=
  drainStep_alone (Queue.new "default") { id := "p" } (fun _ => 1) 0 _ (by decide)

/-! ## The race -/

/-- The producer checks first, the worker then finishes and drains `P`, the producer then
    registers and saves the child. -/
theorem child_parked_after_drain :
    (let q := Queue.new "default";
      let w := (World.mk (Job.save Store.empty { id := "p", status := some .queued })
        [.producer q (q.createJob { dependsOn := some (.job "p") } "c") "p" 0 .check,
          .worker q "p" 0 .finish] []).run DepClient.step [(0, 0), (1, 0), (1, 0), (0, 0), (0, 0)];
      (∀ c ∈ w.clients, c.finished) ∧ Job.getStatus w.store "p" = some .finished ∧
        "c" ∈ w.store.sets (.dependents "p") ∧ ∀ k, "c" ∉ w.store.lists k) := by
  intro q w
  have hl : w.store.lists = fun _ => [] := rfl
  exact ⟨by decide, by decide, by decide, fun k => by simp [hl]⟩

/-! ## Where the child ends -/

section Outcome

variable (q : Queue) (p c : String)

/-- The worker holds the child: it has popped the child's ID and not yet pushed it. -/
def DrainPc.holds : DrainPc → Prop
  | .fetch x => x = c
  | .enqueue dep _ => dep.id = c
  | _ => False

/-- The child is in `q`'s list or in `p`'s dependents set, the worker holds it, or the worker's
    drain raised. -/
def ChildPlaced (s : Store) (w : DrainPc) : Prop :=
  c ∈ s.lists q.key ∨ c ∈ s.sets (.dependents p) ∨ w.holds c ∨ ∃ e, w = .done (some e)

/-- What is known of the child by where the producer is: nothing before its registration, its
    `SADD` into the deferred set or its `RPUSH`; after them, where it can be. -/
def ChildAccounted (s : Store) : ParkPc → DrainPc → Prop
  | .save, w | .done, w => ChildPlaced q p c s w ∨ c ∈ s.sets .deferred
  | .defer true, _ => c ∈ s.sets .deferred
  | _, _ => True

theorem ChildPlaced.of_eq {s s' : Store} {w : DrainPc} (hl : s'.lists = s.lists)
    (hs : s'.sets = s.sets) (h : ChildPlaced q p c s w) : ChildPlaced q p c s' w := by
  rwa [ChildPlaced, hl, hs]

variable {q p c}

/-- What a step of the worker writes: the parent's status, or one `SPOP` of the parent's
    dependents, whose member the worker then holds, or one command of `enqueue_job`, or
    nothing. -/
theorem drainStep_store (now pick : Nat) (w : DrainPc) (s : Store) :
    (drainStep q p now pick w s).2 = Job.setStatus s p .finished ∨
      (∃ x, s.spop (.dependents p) pick = (some x, (drainStep q p now pick w s).2) ∧
        (drainStep q p now pick w s).1 = .fetch x) ∨
      (∃ dep pc, (drainStep q p now pick w s).2 = (q.enqueueJobStep dep pc s).2) ∨
      (drainStep q p now pick w s).2 = s := by
  cases w with
  | finish => exact .inl rfl
  | pop =>
    rcases hsp : s.spop (.dependents p) pick with ⟨_ | x, s'⟩ <;> simp only [drainStep, hsp]
    · exact .inr (.inr (.inr (Store.spop_none hsp).1))
    · exact .inr (.inl ⟨x, rfl, rfl⟩)
  | fetch x => simp only [drainStep]; split <;> exact .inr (.inr (.inr rfl))
  | enqueue dep pc =>
    refine .inr (.inr (.inl ⟨dep, pc, ?_⟩))
    simp only [drainStep]
    rcases hr : q.enqueueJobStep dep pc s with ⟨_ | pc', s'⟩
    · simp only; split <;> rfl
    · rfl
  | done err => exact .inr (.inr (.inr rfl))

/-- The worker removes no member of the deferred set. -/
theorem drainStep_deferred (now pick : Nat) (w : DrainPc) {s : Store}
    (h : c ∈ s.sets .deferred) : c ∈ (drainStep q p now pick w s).2.sets .deferred := by
  rcases drainStep_store now pick w s with h' | ⟨x, hx, -⟩ | ⟨dep, pc, h'⟩ | h'
  · rw [h']; simpa using h
  · have hs : (s.spop (.dependents p) pick).2.sets .deferred = s.sets .deferred :=
      Store.spop_sets_ne s pick (by simp)
    rw [hx] at hs; dsimp only at hs; rwa [hs]
  · rwa [h', Queue.enqueueJobStep_sets q dep pc s (QueueClass.redisQueuesKeys_ne_deferred _).symm]
  · rwa [h']

/-- The worker removes no ID from a list. -/
theorem drainStep_lists (now pick : Nat) (w : DrainPc) {s : Store} {k x : String}
    (h : x ∈ s.lists k) : x ∈ (drainStep q p now pick w s).2.lists k := by
  rcases drainStep_store now pick w s with h' | ⟨y, hy, -⟩ | ⟨dep, pc, h'⟩ | h'
  · rw [h']; simpa using h
  · have hs := Store.spop_lists s (.dependents p) pick
    rw [hy] at hs; dsimp only at hs; rwa [hs]
  · rw [h']; exact Queue.enqueueJobStep_lists_mono q dep pc h
  · rwa [h']

/-- The worker removes an ID from `p`'s dependents set only by popping it, and then holds it. -/
theorem drainStep_dependents (now pick : Nat) (w : DrainPc) {s : Store}
    (h : c ∈ s.sets (.dependents p)) :
    c ∈ (drainStep q p now pick w s).2.sets (.dependents p) ∨
      (drainStep q p now pick w s).1 = .fetch c := by
  rcases drainStep_store now pick w s with h' | ⟨x, hx, hpc⟩ | ⟨dep, pc, h'⟩ | h'
  · rw [h']; exact .inl (by simpa using h)
  · by_cases hcx : c = x
    · exact .inr (hcx ▸ hpc)
    · exact .inl (Store.mem_spop hx h hcx)
  · rw [h', Queue.enqueueJobStep_sets q dep pc s
      (by cases q.cls <;> simp [QueueClass.redisQueuesKeys])]
    exact .inl h
  · rw [h']; exact .inl h

theorem drainStep_keyed (now pick : Nat) (w : DrainPc) {s : Store} (hk : s.WellKeyed) :
    (drainStep q p now pick w s).2.WellKeyed := by
  rcases drainStep_store now pick w s with h' | ⟨x, hx, -⟩ | ⟨dep, pc, h'⟩ | h'
  · rw [h']; exact hk.setStatus p .finished
  · have hs := Store.spop_records s (.dependents p) pick
    rw [hx] at hs; exact hk.of_records hs
  · rw [h']; exact hk.enqueueJobStep q dep pc
  · rwa [h']


/-- Every step of the worker keeps the child placed: an `SPOP` of the child hands it to the
    worker, the fetch of it hands it on or raises, and the push of it puts it in the list. -/
theorem drainStep_placed (hasync : q.isAsync = true) (now pick : Nat) (w : DrainPc) {s : Store}
    (hk : s.WellKeyed) (h : ChildPlaced q p c s w) :
    ChildPlaced q p c (drainStep q p now pick w s).2 (drainStep q p now pick w s).1 := by
  rcases h with h | h | h | ⟨e, rfl⟩
  · exact .inl (drainStep_lists now pick w h)
  · rcases drainStep_dependents now pick w h with h | h
    · exact .inr (.inl h)
    · exact .inr (.inr (.inl (by rw [h]; rfl)))
  · cases w with
    | fetch x =>
      simp only [drainStep]
      split
      · exact .inr (.inr (.inr ⟨_, rfl⟩))
      · rename_i dep hf
        exact .inr (.inr (.inl (by simpa [DrainPc.holds, hk.fetch hf] using h)))
    | enqueue dep pc =>
      cases pc with
      | register => exact .inr (.inr (.inl h))
      | save =>
        simp only [drainStep, Queue.enqueueJobStep, hasync, if_true]
        exact .inr (.inr (.inl h))
      | push =>
        have h : dep.id = c := h
        exact .inl (by simp [drainStep, Queue.enqueueJobStep, Queue.enqueueJobResult, hasync, h])
    | _ => exact h.elim
  · exact .inr (.inr (.inr ⟨e, rfl⟩))

theorem drainStep_accounted (hasync : q.isAsync = true) (now pick : Nat) (P : ParkPc)
    (w : DrainPc) {s : Store} (hk : s.WellKeyed) (h : ChildAccounted q p c s P w) :
    ChildAccounted q p c (drainStep q p now pick w s).2 P (drainStep q p now pick w s).1 := by
  rcases P with _ | _ | _ | ⟨_ | _⟩ | _ | _
  case save | done =>
    exact h.imp (drainStep_placed hasync now pick w hk) (drainStep_deferred now pick w)
  case defer.true => exact drainStep_deferred now pick w h
  all_goals trivial

/-- Every step of the producer keeps the child accounted for: its registration parks the child
    on `p`, its `SADD` defers it, its `RPUSH` lists it, and its saves touch neither. -/
theorem parkStep_accounted (hasync : q.isAsync = true) (job : Job) (now : Nat) (P : ParkPc)
    (w : DrainPc) {s : Store} (h : ChildAccounted q p job.id s P w) :
    ChildAccounted q p job.id (parkStep q job p now P s).2 (parkStep q job p now P s).1 w := by
  cases P with
  | check => simp only [parkStep]; split_ifs <;> trivial
  | register =>
    exact .inl (.inr (.inl (by simp [parkStep, Job.registerDependency, Store.mem_sadd])))
  | save => exact h.imp (ChildPlaced.of_eq q p _ rfl rfl) id
  | defer added =>
    cases added with
    | false =>
      show job.id ∈ (s.sadd .deferred job.id).sets .deferred
      simp [Store.mem_sadd]
    | true => exact .inr h
  | enqueue pc =>
    cases pc with
    | register => trivial
    | save => simp only [parkStep, Queue.enqueueJobStep, hasync, if_true]; trivial
    | push => exact .inl (.inl (by simp [parkStep, Queue.enqueueJobStep]))
  | done => exact h

theorem parkStep_keyed (job : Job) (now : Nat) (P : ParkPc) {s : Store} (hk : s.WellKeyed) :
    (parkStep q job p now P s).2.WellKeyed := by
  cases P with
  | check => simp only [parkStep]; split_ifs <;> exact hk
  | register => exact hk.of_records (Store.sadd_records _ _ _)
  | save => exact hk.save job
  | defer added =>
    cases added
    exacts [hk.of_records (Store.sadd_records _ _ _), hk.save _]
  | enqueue pc =>
    have h := hk.enqueueJobStep q (q.jobMeta job true now) pc
    simp only [parkStep]; split <;> rename_i hr <;> rw [hr] at h <;> exact h
  | done => exact hk

end Outcome

/-- The producer and the worker run from `s₀` under `sched`. -/
def depRun (q : Queue) (job : Job) (p : String) (now now' : Nat) (s₀ : Store)
    (sched : List (Nat × Nat)) : World DepClient Unit :=
  (World.mk s₀ [.producer q job p now .check, .worker q p now' .finish] []).run DepClient.step
    sched

section Invariant

variable (q : Queue) (job : Job) (p : String) (now now' : Nat)

/-- The two clients, the store keyed, and the child accounted for. -/
def DepInv (w : World DepClient Unit) : Prop :=
  ∃ P W, w.clients = [.producer q job p now P, .worker q p now' W] ∧ w.store.WellKeyed ∧
    ChildAccounted q p job.id w.store P W

variable {q job p now now'}

theorem depInv_tick (hasync : q.isAsync = true) {w : World DepClient Unit}
    (h : DepInv q job p now now' w) (i n : Nat) :
    DepInv q job p now now' (w.tick DepClient.step i n) := by
  obtain ⟨P, W, hw, hk, hacc⟩ := h
  rcases i with _ | _ | i
  · rw [World.tick_of_get n (c := .producer q job p now P) (by simp [hw])]
    exact ⟨_, W, by simp [hw, DepClient.step], parkStep_keyed job now P hk,
      parkStep_accounted hasync job now P W hacc⟩
  · rw [World.tick_of_get n (c := .worker q p now' W) (by simp [hw])]
    exact ⟨P, _, by simp [hw, DepClient.step], drainStep_keyed now' n W hk,
      drainStep_accounted hasync now' n P W hk hacc⟩
  · rw [World.tick_of_none n (by simp [hw])]
    exact ⟨P, W, hw, hk, hacc⟩

end Invariant

/-- Once `q.enqueue_call(f, depends_on=p)` on an asynchronous queue and the worker completing `p`
    have both returned, under any interleaving, the child is in `q`'s list, in the deferred set
    or in `p`'s dependents set, or the worker's `enqueue_dependents` raised. The race can leave
    the child parked on a finished `p`, and an `SPOP` of the child between the producer's
    registration and its save makes the drain raise `NoSuchJobError`; the child is never
    dropped silently. -/
theorem dep_child_accounted (q : Queue) (job : Job) (p : String) (now now' : Nat) (s₀ : Store)
    (sched : List (Nat × Nat)) (err : Option RqError) (hasync : q.isAsync = true)
    (hkeyed : s₀.WellKeyed)
    (hfin : (depRun q job p now now' s₀ sched).clients =
      [.producer q job p now .done, .worker q p now' (.done err)]) :
    job.id ∈ (depRun q job p now now' s₀ sched).store.lists q.key ∨
      job.id ∈ (depRun q job p now now' s₀ sched).store.sets .deferred ∨
      job.id ∈ (depRun q job p now now' s₀ sched).store.sets (.dependents p) ∨
      err.isSome := by
  obtain ⟨P, W, hw, -, hacc⟩ : DepInv q job p now now' (depRun q job p now now' s₀ sched) :=
    World.run_induction (DepInv q job p now now') (fun _ i n hw => depInv_tick hasync hw i n)
      sched _ ⟨.check, .finish, rfl, hkeyed, trivial⟩
  rw [hfin] at hw
  simp only [List.cons.injEq, DepClient.producer.injEq, DepClient.worker.injEq, true_and,
    and_true] at hw
  obtain ⟨rfl, rfl⟩ := hw
  rcases hacc with (h | h | h | ⟨e, he⟩) | h
  · exact .inl h
  · exact .inr (.inr (.inl h))
  · exact h.elim
  · cases he; exact .inr (.inr (.inr rfl))
  · exact .inr (.inl h)

/-- The worker pops the child after its registration and before its save: the drain raises
    `NoSuchJobError`, and the child is in no list and in neither set. -/
theorem dep_child_accounted_raised :
    (let q := Queue.new "default";
      let w := depRun q { id := "c" } "p" 0 0
        (Job.save Store.empty { id := "p", status := some .queued })
        [(0, 0), (0, 0), (1, 0), (1, 0), (1, 0), (0, 0)];
      w.clients = [.producer q { id := "c" } "p" 0 .done,
          .worker q "p" 0 (.done (some (.noSuchJob "No such job: rq:job:c")))] ∧
        "c" ∉ w.store.lists q.key ∧ "c" ∉ w.store.sets .deferred ∧
        "c" ∉ w.store.sets (.dependents "p") ∧
        ("c" ∈ w.store.lists q.key ∨ "c" ∈ w.store.sets .deferred ∨
          "c" ∈ w.store.sets (.dependents "p") ∨
          (some (RqError.noSuchJob "No such job: rq:job:c")).isSome)) :=
  ⟨by decide, by decide, by decide, by decide,
    dep_child_accounted (Queue.new "default") { id := "c" } "p" 0 0 _ _ _ rfl
      (Store.WellKeyed.save (fun _ _ h => Option.noConfusion h) _) (by decide)⟩

end Rq
