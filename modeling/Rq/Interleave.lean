import Rq.Dequeue

/-
  Clients interleaved over one store. Each client runs one method of `rq/queue.py` as a small
  state machine whose step issues one Redis command; Redis runs each command atomically, so an
  interleaving is a sequence of steps, each taken by one client. A schedule lists which client
  moves and the value resolving that step's nondeterminism (a clock reading, the member `SPOP`
  returns). Steps may emit events; the log of events is a history variable for stating results
  (which push landed before which read), read by no client.

  `World.run_induction` packages the induction over schedules: a property kept by every step of
  every client holds after every schedule. `Queue.enqueueJobStep` is `enqueue_job` as such a
  machine, shared by the clients that enqueue; `Queue.enqueueJobRest_register` says that run
  alone it leaves the store `Queue.enqueueJob` leaves, and `Queue.enqueueJobResult` is how it
  ends. `Queue.dequeueStep` is `dequeue` as a machine, shared by the clients that consume;
  `Queue.dequeueStep_alone` says that run alone for enough steps it ends with the result and the
  store of `Queue.dequeue`.
  `Queue.dequeueAnyStep` is `dequeue_any` as a machine: the non-blocking `Queue.lpop` is one
  `LPOP` per key, each its own round trip, the blocking one a single `BLPOP`;
  `Queue.dequeueAnyStep_alone` says that run alone it ends where `Queue.dequeueAny` ends.
-/

namespace Rq

/-- Clients sharing one store, and the events their steps have emitted so far. -/
structure World (C E : Type) where
  store : Store
  clients : List C
  log : List E

variable {C E : Type}

/-- Client `i` takes one step, with `n` resolving its nondeterminism; a missing client does
    nothing, and a finished client's step changes nothing. -/
def World.tick (step : C → Nat → Store → C × Store × List E) (w : World C E) (i n : Nat) :
    World C E :=
  match w.clients[i]? with
  | none => w
  | some c =>
    let r := step c n w.store
    ⟨r.2.1, w.clients.set i r.1, w.log ++ r.2.2⟩

/-- Runs a schedule of (client, value) pairs. -/
def World.run (step : C → Nat → Store → C × Store × List E) (w : World C E) :
    List (Nat × Nat) → World C E
  | [] => w
  | (i, n) :: sched => (w.tick step i n).run step sched

@[simp] theorem World.run_nil (step : C → Nat → Store → C × Store × List E)
    (w : World C E) :
    w.run step [] = w := rfl

@[simp] theorem World.run_cons (step : C → Nat → Store → C × Store × List E) (w : World C E)
    (i n : Nat) (sched : List (Nat × Nat)) :
    w.run step ((i, n) :: sched) = (w.tick step i n).run step sched := rfl

theorem World.run_append (step : C → Nat → Store → C × Store × List E)
    (w : World C E) (l l' : List (Nat × Nat)) :
    w.run step (l ++ l') = (w.run step l).run step l' := by
  induction l generalizing w with
  | nil => rfl
  | cons p l ih => exact ih _

/-- A property kept by every step holds after every schedule. -/
theorem World.run_induction {step : C → Nat → Store → C × Store × List E}
    (P : World C E → Prop)
    (hstep : ∀ w i n, P w → P (w.tick step i n)) :
    ∀ (sched : List (Nat × Nat)) (w : World C E), P w → P (w.run step sched)
  | [], _, h => h
  | (i, n) :: sched, w, h => World.run_induction P hstep sched _ (hstep w i n h)

/-- A run of a machine that reaches a state its step keeps stays there. -/
theorem iterate_stays {α : Type} {f : α → α} {x y : α} {m n : Nat} (hm : f^[m] x = y)
    (hy : f y = y) (hn : m ≤ n) : f^[n] x = y := by
  obtain ⟨k, rfl⟩ := Nat.exists_eq_add_of_le hn
  rw [Nat.add_comm, Function.iterate_add_apply, hm, Function.iterate_fixed hy]

theorem World.tick_of_get {step : C → Nat → Store → C × Store × List E} {w : World C E}
    {i : Nat} {c : C} (n : Nat) (h : w.clients[i]? = some c) :
    w.tick step i n =
      ⟨(step c n w.store).2.1, w.clients.set i (step c n w.store).1,
        w.log ++ (step c n w.store).2.2⟩ := by
  simp [World.tick, h]

/-- After a step of client `i`, client `k` is the stepped client or the one it was. -/
theorem getElem?_set_some {α : Type} {l : List α} {i k : Nat} {a d : α}
    (h : (l.set i a)[k]? = some d) : (k = i ∧ d = a) ∨ (k ≠ i ∧ l[k]? = some d) := by
  rw [List.getElem?_set] at h
  by_cases hk : i = k
  · subst hk
    simp only [if_true] at h
    split at h <;> simp_all
  · simp only [hk, if_false] at h
    exact .inr ⟨Ne.symm hk, h⟩

theorem World.tick_of_none {step : C → Nat → Store → C × Store × List E} {w : World C E}
    {i : Nat} (n : Nat) (h : w.clients[i]? = none) : w.tick step i n = w := by
  simp [World.tick, h]

/-- Client `i`'s step on its own state and the store, the log left out. -/
def World.alone (step : C → Nat → Store → C × Store × List E) (n : Nat) (p : C × Store) :
    C × Store :=
  ((step p.1 n p.2).1, (step p.1 n p.2).2.1)

/-- A schedule that moves only client `i` runs that client alone. -/
theorem World.run_replicate (step : C → Nat → Store → C × Store × List E) {w : World C E}
    {i : Nat} {c : C} (h : w.clients[i]? = some c) (n m : Nat) :
    (w.run step (List.replicate m (i, n))).store = ((World.alone step n)^[m] (c, w.store)).2 ∧
      (w.run step (List.replicate m (i, n))).clients =
        w.clients.set i ((World.alone step n)^[m] (c, w.store)).1 := by
  obtain ⟨hi, hc⟩ := List.getElem?_eq_some_iff.mp h
  induction m generalizing w c with
  | zero =>
    refine ⟨rfl, List.ext_getElem? fun j => ?_⟩
    rw [Function.iterate_zero_apply, List.getElem?_set]
    split <;> simp_all
  | succ m ih =>
    rw [List.replicate_succ, World.run_cons, World.tick_of_get n h, Function.iterate_succ_apply]
    obtain ⟨h1, h2⟩ := ih (w := ⟨_, w.clients.set i (step c n w.store).1, _⟩)
      (c := (step c n w.store).1) (by simp [hi]) (by simpa using hi) (by simp)
    exact ⟨h1, h2.trans (List.set_set _ _ _ _)⟩

/-! ## `enqueue_job` as a machine -/

/-- Where a running `enqueue_job` is: its next command is at line 315, 323 or 326. -/
inductive EnqueueJobPc
  | register
  | save
  | push
  deriving DecidableEq, Repr

/-- One command of `q.enqueue_job(job)`, `job` already carrying what `jobMeta` sets; `none`
    once the call ends. A synchronous queue ends at the save: it runs the job in place, and when
    the job's function returns it saves the job again, which writes what the first save wrote
    (`Job.save_save`); `Queue.enqueueJobResult` says how the call ends. -/
def Queue.enqueueJobStep (q : Queue) (job : Job) :
    EnqueueJobPc → Store → Option EnqueueJobPc × Store
  | .register, s => (some .save, s.sadd q.cls.redisQueuesKeys q.key)
  | .save, s => if q.isAsync then (some .push, Job.save s job) else (none, Job.save s job)
  | .push, s => (none, s.rpush q.key job.id)

/-- How a finished `enqueue_job` machine ended: it returned, or, on a synchronous queue, raised
    the exception of the job's function. -/
def Queue.enqueueJobResult (q : Queue) (job : Job) : Except RqError Unit :=
  if q.isAsync then .ok () else job.perform

/-- The machine ends as `enqueue_job` does. -/
theorem Queue.enqueueJob_fst_result (q : Queue) (job : Job) (b : Bool) (now : Nat) (s : Store) :
    (q.enqueueJob job b now s).1 =
      (q.enqueueJobResult (q.jobMeta job b now)).map fun _ => q.jobMeta job b now := by
  rw [Queue.enqueueJob_fst, Queue.enqueueJobResult, Queue.jobMeta_perform]

/-- What `release_job` and `requeue` return after their `enqueue_job`. -/
theorem Queue.enqueueJob_fst_unit (q : Queue) (job : Job) (b : Bool) (now : Nat) (s : Store) :
    ((q.enqueueJob job b now s).1.map fun _ => ()) = q.enqueueJobResult (q.jobMeta job b now) := by
  rw [Queue.enqueueJob_fst_result]
  cases q.enqueueJobResult (q.jobMeta job b now) <;> rfl

/-- The rest of an `enqueue_job` from `pc`, with no other client acting. -/
def Queue.enqueueJobRest (q : Queue) (job : Job) : EnqueueJobPc → Store → Store
  | .push, s => s.rpush q.key job.id
  | .save, s => if q.isAsync then (Job.save s job).rpush q.key job.id else Job.save s job
  | .register, s =>
    let s := s.sadd q.cls.redisQueuesKeys q.key
    if q.isAsync then (Job.save s job).rpush q.key job.id else Job.save s job

theorem Queue.enqueueJobRest_step (q : Queue) (job : Job) (pc : EnqueueJobPc) (s : Store) :
    q.enqueueJobRest job pc s =
      match q.enqueueJobStep job pc s with
      | (none, s') => s'
      | (some pc', s') => q.enqueueJobRest job pc' s' := by
  cases pc with
  | save => simp only [Queue.enqueueJobRest, Queue.enqueueJobStep]; split <;> rfl
  | _ => rfl

theorem Queue.enqueueJobStep_sets (q : Queue) (job : Job) (pc : EnqueueJobPc) (s : Store)
    {k : SetKey} (hk : k ≠ q.cls.redisQueuesKeys) :
    (q.enqueueJobStep job pc s).2.sets k = s.sets k := by
  cases pc with
  | register => simp [Queue.enqueueJobStep, Store.sadd, hk]; split <;> simp [hk]
  | save => simp only [Queue.enqueueJobStep]; split <;> rfl
  | push => rfl

/-- A step of `enqueue_job` writes no list but its queue's. -/
theorem Queue.enqueueJobStep_lists (q : Queue) (job : Job) (pc : EnqueueJobPc) (s : Store)
    {k : String} (hk : k ≠ q.key) : (q.enqueueJobStep job pc s).2.lists k = s.lists k := by
  cases pc with
  | register => simp [Queue.enqueueJobStep]
  | save => simp only [Queue.enqueueJobStep]; split <;> rfl
  | push => simp [Queue.enqueueJobStep, hk]

/-- A step of `enqueue_job` removes no ID from a list. -/
theorem Queue.enqueueJobStep_lists_mono (q : Queue) (job : Job) (pc : EnqueueJobPc) {s : Store}
    {k x : String} (h : x ∈ s.lists k) : x ∈ (q.enqueueJobStep job pc s).2.lists k := by
  cases pc with
  | register => simpa [Queue.enqueueJobStep] using h
  | save => simp only [Queue.enqueueJobStep]; split <;> simpa [Job.save] using h
  | push =>
    simp only [Queue.enqueueJobStep, Store.rpush_lists]
    split <;> simp_all

/-- A step of `enqueue_job` writes no record but `job`'s. -/
theorem Queue.enqueueJobStep_records (q : Queue) (job : Job) (pc : EnqueueJobPc) (s : Store) :
    (q.enqueueJobStep job pc s).2.records = s.records ∨
      (q.enqueueJobStep job pc s).2.records = (Job.save s job).records := by
  cases pc with
  | register => simp [Queue.enqueueJobStep]
  | save => simp only [Queue.enqueueJobStep]; split <;> exact .inr rfl
  | push => simp [Queue.enqueueJobStep]

theorem Store.WellKeyed.enqueueJobStep {s : Store} (hk : s.WellKeyed) (q : Queue) (job : Job)
    (pc : EnqueueJobPc) : (q.enqueueJobStep job pc s).2.WellKeyed := fun x r hr => by
  rcases q.enqueueJobStep_records job pc s with h | h <;> rw [h] at hr
  · exact hk x r hr
  · by_cases hx : x = job.id
    · simp [Job.save, hx] at hr
      exact hr ▸ hx.symm
    · exact hk x r (by simpa [Job.save, hx] using hr)

/-- Run alone, the machine leaves the store `Queue.enqueueJob` leaves. -/
theorem Queue.enqueueJobRest_register (q : Queue) (job : Job) (b : Bool) (now : Nat)
    (s : Store) :
    q.enqueueJobRest (q.jobMeta job b now) .register s = (q.enqueueJob job b now s).2 := by
  rw [Queue.enqueueJob_snd, Queue.enqueueJobRest]
  simp

/-! ## `dequeue` as a machine -/

/-- Where a running `dequeue` is: before its `LPOP`, holding a popped ID before the fetch (each
    with the calls of itself it may still make), or returned or raised. -/
inductive DequeuePc
  | pop (frames : Nat)
  | fetch (frames : Nat) (jobId : String)
  | returned (job : Option Job)
  | raised (e : RqError)
  deriving DecidableEq, Repr

/-- One command of `q.dequeue()`; a finished call stays as it is. -/
def Queue.dequeueStep (q : Queue) : DequeuePc → Store → DequeuePc × Store
  | .pop frames, s =>
    match s.lpop q.key with
    | (none, s') => (.returned none, s')
    | (some jobId, s') => (.fetch frames jobId, s')
  | .fetch frames jobId, s =>
    match Job.fetch s jobId with
    | .error (.noSuchJob _) =>
      match frames with
      | 0 => (.raised .recursionError, s)
      | frames + 1 => (.pop frames, s)
    | .error (.unpickle _ _) => (.raised (.unpickle (some jobId) (some q)), s)
    | .error e => (.raised e, s)
    | .ok job => (.returned (some job), s)
  | pc, s => (pc, s)

/-- The fetch after the `LPOP` reads the store and writes nothing. -/
theorem Queue.dequeueStep_fetch (q : Queue) (frames : Nat) (x : String) (s : Store) :
    (q.dequeueStep (.fetch frames x) s).2 = s := by
  simp only [Queue.dequeueStep]; split <;> (try split) <;> rfl

/-- A step of `dequeue` writes no record. -/
theorem Queue.dequeueStep_records (q : Queue) (pc : DequeuePc) (s : Store) :
    (q.dequeueStep pc s).2.records = s.records := by
  cases pc with
  | pop f => cases hm : s.lists q.key <;> simp [Queue.dequeueStep, Store.lpop, hm]
  | fetch f x => rw [Queue.dequeueStep_fetch]
  | returned j => rfl
  | raised e => rfl

/-- What a finished `dequeue` machine returned or raised (`none` while it runs). -/
def DequeuePc.result : DequeuePc → Option (Except RqError (Option Job))
  | .returned job => some (.ok job)
  | .raised e => some (.error e)
  | _ => none

/-- The finished machine that returned or raised `r`. -/
def DequeuePc.ofResult : Except RqError (Option Job) → DequeuePc
  | .ok job => .returned job
  | .error e => .raised e

theorem DequeuePc.ofResult_fixed (q : Queue) (r : Except RqError (Option Job)) (s : Store)
    (m : Nat) : (Function.uncurry q.dequeueStep)^[m] (.ofResult r, s) = (.ofResult r, s) :=
  Function.iterate_fixed (by cases r <;> rfl) m

/-- Run alone, the machine ends where `Queue.dequeue` ends, within two steps per ID it pops and
    the last `LPOP`. -/
theorem Queue.dequeueStep_run (q : Queue) (frames : Nat) (s : Store) :
    ∃ m ≤ 2 * (s.lists q.key).length + 1, (Function.uncurry q.dequeueStep)^[m] (.pop frames, s) =
      (.ofResult (q.dequeue frames s).1, (q.dequeue frames s).2) := by
  obtain ⟨L, hL⟩ : ∃ L, s.lists q.key = L := ⟨_, rfl⟩
  induction L generalizing s frames with
  | nil =>
    refine ⟨1, by simp, ?_⟩
    simp [Queue.dequeueStep, Store.lpop, hL, Queue.dequeue_nil q frames hL, DequeuePc.ofResult]
  | cons x xs ih =>
    rw [Queue.dequeue_cons q frames hL]
    cases hr : s.records x with
    | none =>
      cases frames with
      | zero =>
        refine ⟨2, by simp only [hL, List.length_cons]; omega, ?_⟩
        simp [Queue.dequeueStep, Store.lpop, hL, Job.fetch, Job.exists, hr, DequeuePc.ofResult]
      | succ n =>
        obtain ⟨m, hm, hrun⟩ := ih n (s.setList q.key xs) (by simp)
        refine ⟨m + 2, ?_, ?_⟩
        · simp only [hL, Store.setList_lists, if_true, List.length_cons] at hm ⊢; omega
        · rw [Function.iterate_add_apply]
          simpa [Queue.dequeueStep, Store.lpop, hL, Job.fetch, Job.exists, hr] using hrun
    | some j =>
      refine ⟨2, by simp only [hL, List.length_cons]; omega, ?_⟩
      cases hd : j.decodes <;>
        simp [Queue.dequeueStep, Store.lpop, hL, DequeuePc.ofResult, dequeueHit, Job.fetch,
          Job.exists, hr, hd]

/-- Run alone for enough steps (two per ID it pops, and the last `LPOP`), the machine ends where
    `Queue.dequeue` ends. -/
theorem Queue.dequeueStep_alone (q : Queue) (frames : Nat) (s : Store) {n : Nat}
    (hn : 2 * (s.lists q.key).length < n) :
    ((Function.uncurry q.dequeueStep)^[n] (.pop frames, s)).1.result =
        some (q.dequeue frames s).1 ∧
      ((Function.uncurry q.dequeueStep)^[n] (.pop frames, s)).2 = (q.dequeue frames s).2 := by
  obtain ⟨m, hm, hrun⟩ := Queue.dequeueStep_run q frames s
  obtain ⟨k, rfl⟩ : ∃ k, n = k + m := ⟨n - m, by omega⟩
  rw [Function.iterate_add_apply, hrun, DequeuePc.ofResult_fixed]
  cases (q.dequeue frames s).1 <;> exact ⟨rfl, rfl⟩

theorem Queue.dequeueStep_alone_one :
    (let q := Queue.new "default";
      let s := q.pushJobId "a" Store.empty;
      ((Function.uncurry q.dequeueStep)^[3] (.pop 0, s)).1.result = some (q.dequeue 0 s).1 ∧
        ((Function.uncurry q.dequeueStep)^[3] (.pop 0, s)).2 = (q.dequeue 0 s).2) :=
  Queue.dequeueStep_alone (Queue.new "default") 0
    ((Queue.new "default").pushJobId "a" Store.empty) (by decide)

/-! ## `dequeue_any` as a machine -/

/-- Where a running `Queue.dequeue_any(queues, timeout)` is: before `Queue.lpop`, in the
    non-blocking variant's `LPOP`s with the keys still to try, holding a popped ID before
    `from_queue_key` and the fetch (each with the calls of itself it may still make), or
    returned or raised. The blocking variant's `BLPOP` is one command: taken while every list is
    empty, it is the one that times out. -/
inductive DequeueAnyPc
  | lpop (frames : Nat)
  | scan (frames : Nat) (queueKeys : List String)
  | fetch (frames : Nat) (queueKey jobId : String)
  | returned (result : Option (Job × Queue))
  | raised (e : RqError)
  deriving DecidableEq, Repr

/-- One command of `Queue.dequeue_any(queues, timeout)`; a finished call stays as it is. -/
def Queue.dequeueAnyStep (queues : List Queue) (timeout : Option Nat) :
    DequeueAnyPc → Store → DequeueAnyPc × Store
  | .lpop frames, s =>
    match timeout with
    | none => (.scan frames (queues.map Queue.key), s)
    | some t =>
      match Queue.lpopKeys (queues.map Queue.key) (some t) s with
      | (.error e, s') => (.raised e, s')
      | (.ok none, s') => (.returned none, s')
      | (.ok (some (queueKey, jobId)), s') => (.fetch frames queueKey jobId, s')
  | .scan _ [], s => (.returned none, s)
  | .scan frames (queueKey :: queueKeys), s =>
    match s.lpop queueKey with
    | (none, s') => (.scan frames queueKeys, s')
    | (some jobId, s') => (.fetch frames queueKey jobId, s')
  | .fetch frames queueKey jobId, s =>
    match Queue.fromQueueKey queueKey with
    | .error e => (.raised e, s)
    | .ok queue =>
      match Job.fetch s jobId with
      | .error (.noSuchJob _) =>
        match frames with
        | 0 => (.raised .recursionError, s)
        | frames + 1 => (.lpop frames, s)
      | .error (.unpickle _ _) => (.raised (.unpickle (some jobId) (some queue)), s)
      | .error e => (.raised e, s)
      | .ok job => (.returned (some (job, queue)), s)
  | pc, s => (pc, s)

/-- What a finished `dequeue_any` machine returned or raised (`none` while it runs). -/
def DequeueAnyPc.result : DequeueAnyPc → Option (Except RqError (Option (Job × Queue)))
  | .returned r => some (.ok r)
  | .raised e => some (.error e)
  | _ => none

/-- The finished machine that returned or raised `r`. -/
def DequeueAnyPc.ofResult : Except RqError (Option (Job × Queue)) → DequeueAnyPc
  | .ok r => .returned r
  | .error e => .raised e

theorem DequeueAnyPc.ofResult_fixed (queues : List Queue) (timeout : Option Nat)
    (r : Except RqError (Option (Job × Queue))) (s : Store) (m : Nat) :
    (Function.uncurry (Queue.dequeueAnyStep queues timeout))^[m] (.ofResult r, s) =
      (.ofResult r, s) :=
  Function.iterate_fixed (by cases r <;> rfl) m

/-- The non-blocking `LPOP`s, run alone, pop what `Store.lpopFirst` pops, one step per key. -/
theorem Queue.dequeueAnyStep_scan (queues : List Queue) (timeout : Option Nat) (frames : Nat) :
    ∀ (keys : List String) (s : Store), ∃ m ≤ keys.length + 1,
      (Function.uncurry (Queue.dequeueAnyStep queues timeout))^[m] (.scan frames keys, s) =
        match s.lpopFirst keys with
        | (none, s') => (.returned none, s')
        | (some (k, x), s') => (.fetch frames k x, s')
  | [], s => ⟨1, Nat.le_refl _, rfl⟩
  | k :: ks, s => by
    cases h : s.lpop k with
    | mk r s' =>
      cases r with
      | some x =>
        exact ⟨1, by simp, by simp [Queue.dequeueAnyStep, Store.lpopFirst, h]⟩
      | none =>
        obtain ⟨m, hm, hrun⟩ := Queue.dequeueAnyStep_scan queues timeout frames ks s'
        refine ⟨m + 1, by simp; omega, ?_⟩
        rw [Function.iterate_succ_apply]
        simp only [Function.uncurry_apply_pair, Queue.dequeueAnyStep, h, Store.lpopFirst, hrun]

/-- One round of `Queue.lpop`, run alone, ends where `Queue.lpopKeys` ends. -/
theorem Queue.dequeueAnyStep_lpop (queues : List Queue) (timeout : Option Nat) (frames : Nat)
    (s : Store) :
    ∃ m ≤ (queues.map Queue.key).length + 2,
      (Function.uncurry (Queue.dequeueAnyStep queues timeout))^[m] (.lpop frames, s) =
        match Queue.lpopKeys (queues.map Queue.key) timeout s with
        | (.error e, s') => (.raised e, s')
        | (.ok none, s') => (.returned none, s')
        | (.ok (some (k, x)), s') => (.fetch frames k x, s') := by
  cases timeout with
  | some t => exact ⟨1, by omega, rfl⟩
  | none =>
    obtain ⟨m, hm, hrun⟩ :=
      Queue.dequeueAnyStep_scan queues none frames (queues.map Queue.key) s
    refine ⟨m + 1, by omega, ?_⟩
    rw [Function.iterate_succ_apply]
    simp only [Function.uncurry_apply_pair, Queue.dequeueAnyStep, hrun, Queue.lpopKeys]
    rcases s.lpopFirst (queues.map Queue.key) with ⟨_ | ⟨k, x⟩, s'⟩ <;> rfl

/-- Run alone, the machine ends where `Queue.dequeueAny` ends, within `L + 3` steps for each ID
    it pops (`L` the number of queues), and `L + 3` more. -/
theorem Queue.dequeueAnyStep_run (queues : List Queue) (timeout : Option Nat) (frames : Nat)
    (s : Store) :
    ∃ m ≤ (s.totalLength (queues.map Queue.key) + 1) * ((queues.map Queue.key).length + 3),
      (Function.uncurry (Queue.dequeueAnyStep queues timeout))^[m] (.lpop frames, s) =
        (.ofResult (Queue.dequeueAny queues timeout frames s).1,
          (Queue.dequeueAny queues timeout frames s).2) := by
  obtain ⟨T, hT⟩ : ∃ T, s.totalLength (queues.map Queue.key) = T := ⟨_, rfl⟩
  induction T using Nat.strong_induction_on generalizing s frames with
  | _ T ih =>
  set L := (queues.map Queue.key).length
  have hround : L + 3 ≤ (T + 1) * (L + 3) := Nat.le_mul_of_pos_left _ (Nat.succ_pos T)
  obtain ⟨m, hm, hrun⟩ := Queue.dequeueAnyStep_lpop queues timeout frames s
  rw [hT, Queue.dequeueAny]
  split
  case h_3 queueKey jobId s' hl =>
    rw [hl] at hrun
    have hone : ∀ r, Function.uncurry (Queue.dequeueAnyStep queues timeout)
        (.fetch frames queueKey jobId, s') = (.ofResult r, s') → ∃ m' ≤ (T + 1) * (L + 3),
          (Function.uncurry (Queue.dequeueAnyStep queues timeout))^[m'] (.lpop frames, s) =
            (.ofResult r, s') := fun r hr =>
      ⟨m + 1, by omega, by rw [Nat.add_comm, Function.iterate_add_apply, hrun]; exact hr⟩
    cases hq : Queue.fromQueueKey queueKey with
    | error e => exact hone (.error e) (by simp [Queue.dequeueAnyStep, hq, DequeueAnyPc.ofResult])
    | ok queue =>
      cases hf : Job.fetch s' jobId with
      | ok job =>
        exact hone (.ok (some (job, queue)))
          (by simp [Queue.dequeueAnyStep, hq, hf, DequeueAnyPc.ofResult])
      | error e =>
        cases e with
        | noSuchJob msg =>
          cases frames with
          | zero =>
            exact hone (.error .recursionError)
              (by simp [Queue.dequeueAnyStep, hq, hf, DequeueAnyPc.ofResult])
          | succ n =>
            -- the retry: one ID fewer in the lists
            have hlt := hT ▸ Queue.lpopKeys_totalLength hl
            obtain ⟨m', hm', hrun'⟩ := ih _ hlt n s' rfl
            have hmul : (s'.totalLength (queues.map Queue.key) + 1) * (L + 3) ≤ T * (L + 3) :=
              Nat.mul_le_mul_right _ hlt
            refine ⟨m' + (m + 1), by rw [Nat.succ_mul]; omega, ?_⟩
            rw [Function.iterate_add_apply, Nat.add_comm, Function.iterate_add_apply, hrun]
            simpa [Queue.dequeueAnyStep, hq, hf] using hrun'
        | _ => exact hone _ (by simp [Queue.dequeueAnyStep, hq, hf, DequeueAnyPc.ofResult])
  all_goals
    rename_i hl
    rw [hl] at hrun
    exact ⟨m, by omega, hrun⟩

/-- Run alone for enough steps, the machine ends with the result and the store of
    `Queue.dequeueAny`. -/
theorem Queue.dequeueAnyStep_alone (queues : List Queue) (timeout : Option Nat) (frames : Nat)
    (s : Store) {n : Nat}
    (hn : (s.totalLength (queues.map Queue.key) + 1) * ((queues.map Queue.key).length + 3) ≤ n) :
    ((Function.uncurry (Queue.dequeueAnyStep queues timeout))^[n] (.lpop frames, s)).1.result =
        some (Queue.dequeueAny queues timeout frames s).1 ∧
      ((Function.uncurry (Queue.dequeueAnyStep queues timeout))^[n] (.lpop frames, s)).2 =
        (Queue.dequeueAny queues timeout frames s).2 := by
  obtain ⟨m, hm, hrun⟩ := Queue.dequeueAnyStep_run queues timeout frames s
  obtain ⟨k, rfl⟩ : ∃ k, n = k + m := ⟨n - m, by omega⟩
  rw [Function.iterate_add_apply, hrun, DequeueAnyPc.ofResult_fixed]
  cases (Queue.dequeueAny queues timeout frames s).1 <;> exact ⟨rfl, rfl⟩

theorem Queue.dequeueAnyStep_alone_one :
    (let queues := [Queue.new "low", Queue.new "high"];
      let s := (Queue.new "high").pushJobId "a" Store.empty;
      let run := (Function.uncurry (Queue.dequeueAnyStep queues none))^[10] (.lpop 0, s);
      run.1.result = some (Queue.dequeueAny queues none 0 s).1 ∧
        run.2 = (Queue.dequeueAny queues none 0 s).2) :=
  Queue.dequeueAnyStep_alone [Queue.new "low", Queue.new "high"] none 0
    ((Queue.new "high").pushJobId "a" Store.empty) (by decide)

end Rq
