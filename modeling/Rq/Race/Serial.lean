import Rq.Race.Fifo

/-
  The producers and consumers of the FIFO world run one after another instead of interleaved.

  `Op.fifoClient` is the client that makes a `push_job_id`, `enqueue_job`, `dequeue` or
  `dequeue_any` call command by command, and `serialSched` runs clients in turn, each for a
  number of steps.

  * `Op.fifoClient_alone`: one such client, run alone for enough steps, leaves the store its
    call leaves (`Op.run`).
  * `fifo_serial`: calls whose clients run one after another, each for enough steps, leave the
    store `runOps` gives for the same calls: on serial schedules the interleaving model is the
    sequential one, so the results proved of each (`fifo_run`, `fifo_listed_saved`; `runOps_keyed`
    and the other run results) speak about the same calls.
  * `fifo_serial_returns`: on the same schedules each client ends returned, each consumer
    holding what `dequeue` or `dequeue_any` returns on the store the calls before it leave
    (`fifoReturns`).
-/

namespace Rq

/-- The client that runs a producer or consumer call command by command, from its first
    command; `none` for the other calls. An `enqueue_job` client carries its job with the meta
    data the call sets. -/
def Op.fifoClient : Op → Option FifoClient
  | .pushJobId q x => some (.pusher q x false)
  | .enqueueJob q job b now => some (.enqueuer q (q.jobMeta job b now) (some .register))
  | .dequeue q frames => some (.consumer q (.pop frames))
  | .dequeueAny queues t frames => some (.anyConsumer queues t (.lpop frames))
  | _ => none

/-- Clients `i` to `i + k - 1` in turn, each for `n` steps. -/
def serialSched (i k n : Nat) : List (Nat × Nat) :=
  (List.range' i k).flatMap fun j => List.replicate n (j, 0)

/-! ## One client alone -/

/-- An `enqueue_job` client run alone ends where `Queue.enqueueJobRest` ends. -/
theorem FifoClient.enqueuer_alone (q : Queue) (job : Job) (pc : EnqueueJobPc) (s : Store) :
    ∃ m, (World.alone FifoClient.step 0)^[m] (.enqueuer q job (some pc), s) =
      (.enqueuer q job none, q.enqueueJobRest job pc s) := by
  have hsave : ∀ s, ∃ m,
      (World.alone FifoClient.step 0)^[m] (.enqueuer q job (some .save), s) =
        (.enqueuer q job none, q.enqueueJobRest job .save s) := fun s => by
    refine ⟨if q.isAsync then 2 else 1, ?_⟩
    cases h : q.isAsync <;>
      simp [World.alone, FifoClient.step, Queue.enqueueJobStep, Queue.enqueueJobRest, h]
  cases pc with
  | push => exact ⟨1, rfl⟩
  | save => exact hsave s
  | register =>
    obtain ⟨m, hm⟩ := hsave (s.sadd q.cls.redisQueuesKeys q.key)
    exact ⟨m + 1, hm⟩

/-- A client that runs the machine `g` on its own pc runs `g` when it runs alone. -/
theorem World.alone_iterate {C E P : Type} (step : C → Nat → Store → C × Store × List E)
    (v : Nat) (e : P → C) (g : P × Store → P × Store)
    (h : ∀ p, World.alone step v (e p.1, p.2) = (e (g p).1, (g p).2)) (m : Nat) (p : P × Store) :
    (World.alone step v)^[m] (e p.1, p.2) = (e (g^[m] p).1, (g^[m] p).2) :=
  ((Function.Semiconj.iterate_right (f := fun p => (e p.1, p.2)) (fun p => (h p).symm)) m p).symm

/-- The client of a producer or consumer call that has returned, made on `s`: a consumer holds
    what the sequential call returns there. -/
def Op.fifoReturned : Op → Store → Option FifoClient
  | .pushJobId q x, _ => some (.pusher q x true)
  | .enqueueJob q job b now, _ => some (.enqueuer q (q.jobMeta job b now) none)
  | .dequeue q frames, s => some (.consumer q (.ofResult (q.dequeue frames s).1))
  | .dequeueAny queues t frames, s =>
    some (.anyConsumer queues t (.ofResult (Queue.dequeueAny queues t frames s).1))
  | _, _ => none

/-- The returned clients of calls made one after another from `s`. -/
def fifoReturns : List Op → Store → List FifoClient
  | [], _ => []
  | op :: ops, s => (op.fifoReturned s).toList ++ fifoReturns ops (op.run s)

/-- A producer or consumer call's client, run alone for enough steps, returns what the call
    returns and leaves the store the call leaves. -/
theorem Op.fifoClient_alone {op : Op} {c : FifoClient} (h : op.fifoClient = some c) (s : Store) :
    ∃ c', op.fifoReturned s = some c' ∧
      ∃ N, ∀ n ≥ N, (World.alone FifoClient.step 0)^[n] (c, s) = (c', op.run s) := by
  cases op <;> simp only [Op.fifoClient, Option.some.injEq, reduceCtorEq] at h <;> subst h
  case pushJobId q x => exact ⟨_, rfl, 1, fun n hn => iterate_stays (m := 1) rfl rfl hn⟩
  case enqueueJob q job b now =>
    obtain ⟨m, hm⟩ := FifoClient.enqueuer_alone q (q.jobMeta job b now) .register s
    refine ⟨_, rfl, m, fun n hn => ?_⟩
    rw [iterate_stays hm rfl hn, Queue.enqueueJobRest_register]
    rfl
  case dequeue q frames =>
    obtain ⟨m, -, hm⟩ := Queue.dequeueStep_run q frames s
    refine ⟨_, rfl, m, fun n hn => ?_⟩
    rw [World.alone_iterate FifoClient.step 0 (FifoClient.consumer q)
      (Function.uncurry q.dequeueStep) (fun _ => rfl) n (.pop frames, s),
      iterate_stays hm (DequeuePc.ofResult_fixed q _ _ 1) hn]
    rfl
  case dequeueAny queues t frames =>
    obtain ⟨m, -, hm⟩ := Queue.dequeueAnyStep_run queues t frames s
    refine ⟨_, rfl, m, fun n hn => ?_⟩
    rw [World.alone_iterate FifoClient.step 0 (FifoClient.anyConsumer queues t)
      (Function.uncurry (Queue.dequeueAnyStep queues t)) (fun _ => rfl) n (.lpop frames, s),
      iterate_stays hm (DequeueAnyPc.ofResult_fixed queues t _ _ 1) hn]
    rfl

/-! ## Clients one after another -/

theorem serialSched_succ (i k n : Nat) :
    serialSched i (k + 1) n = List.replicate n (i, 0) ++ serialSched (i + 1) k n := rfl

/-- Clients run one after another, each for enough steps, leave the store their calls leave
    when made one after another, and each has returned what its call returns there; the
    clients before them, finished or not, take no step. -/
theorem serial_run (ops : List Op) (hops : ∀ op ∈ ops, (Op.fifoClient op).isSome) (s : Store) :
    ∃ N, ∀ n ≥ N, ∀ (w : World FifoClient FifoEvent) (pre : List FifoClient),
      w.store = s → w.clients = pre ++ ops.filterMap Op.fifoClient →
      (w.run FifoClient.step (serialSched pre.length ops.length n)).store = runOps ops s ∧
        (w.run FifoClient.step (serialSched pre.length ops.length n)).clients =
          pre ++ fifoReturns ops s := by
  induction ops generalizing s with
  | nil => exact ⟨0, fun n _ w pre hs hw => ⟨hs, by simpa [fifoReturns] using hw⟩⟩
  | cons op ops ih =>
    obtain ⟨c, hc⟩ := Option.isSome_iff_exists.mp (hops op (.head _))
    obtain ⟨c', hc', N₁, h₁⟩ := Op.fifoClient_alone hc s
    obtain ⟨N₂, h₂⟩ := ih (fun op h => hops op (.tail _ h)) (op.run s)
    refine ⟨max N₁ N₂, fun n hn w pre hs hw => ?_⟩
    have hget : w.clients[pre.length]? = some c := by
      rw [hw, List.filterMap_cons_some hc, List.getElem?_append_right (le_refl _), Nat.sub_self,
        List.getElem?_cons_zero]
    obtain ⟨hst, hcl⟩ := World.run_replicate FifoClient.step hget 0 n
    rw [hs, h₁ n (le_of_max_le_left hn)] at hst hcl
    have h := h₂ n (le_of_max_le_right hn) _ (pre ++ [c']) hst
      (by rw [hcl, hw, List.filterMap_cons_some hc]; simp)
    rw [List.length_append, List.length_singleton, ← World.run_append, ← serialSched_succ] at h
    simpa [fifoReturns, hc'] using h

/-- Producer and consumer calls whose clients run one after another, each for enough steps,
    leave the store the calls leave when made one after another: run serially, the
    command-by-command machines refine the sequential model `runOps`. -/
theorem fifo_serial (ops : List Op) (hops : ∀ op ∈ ops, (Op.fifoClient op).isSome)
    (s₀ : Store) :
    ∃ N, ∀ n ≥ N,
      (fifoRun s₀ (ops.filterMap Op.fifoClient) (serialSched 0 ops.length n)).store =
        runOps ops s₀ := by
  obtain ⟨N, h⟩ := serial_run ops hops s₀
  exact ⟨N, fun n hn => (h n hn _ [] rfl rfl).1⟩

theorem fifo_serial_enqueue_dequeue :
    (let q := Queue.new "default";
      let ops := [Op.enqueueJob q { id := "a" } true 0, .pushJobId q "b", .dequeue q 0];
      ∃ N, ∀ n ≥ N,
        (fifoRun Store.empty (ops.filterMap Op.fifoClient) (serialSched 0 3 n)).store =
          runOps ops Store.empty) :=
  fifo_serial [.enqueueJob (Queue.new "default") { id := "a" } true 0,
    .pushJobId (Queue.new "default") "b", .dequeue (Queue.new "default") 0] (by decide)
    Store.empty

/-- Run serially, each consumer returns what `dequeue` or `dequeue_any` returns on the store the
    calls before it leave, and each producer has finished. -/
theorem fifo_serial_returns (ops : List Op) (hops : ∀ op ∈ ops, (Op.fifoClient op).isSome)
    (s₀ : Store) :
    ∃ N, ∀ n ≥ N,
      (fifoRun s₀ (ops.filterMap Op.fifoClient) (serialSched 0 ops.length n)).clients =
        fifoReturns ops s₀ := by
  obtain ⟨N, h⟩ := serial_run ops hops s₀
  exact ⟨N, fun n hn => (h n hn _ [] rfl rfl).2⟩

theorem fifo_serial_returns_two_consumers :
    (let q := Queue.new "default";
      let ops := [Op.enqueueJob q { id := "a" } true 0, .dequeue q 0, .dequeue q 0];
      ∃ N, ∀ n ≥ N,
        (fifoRun Store.empty (ops.filterMap Op.fifoClient) (serialSched 0 3 n)).clients =
          fifoReturns ops Store.empty) :=
  fifo_serial_returns [.enqueueJob (Queue.new "default") { id := "a" } true 0,
    .dequeue (Queue.new "default") 0, .dequeue (Queue.new "default") 0] (by decide) Store.empty

end Rq
