import Rq.Interleave
import Rq.Reachable

/-
  The queues' lists under any interleaving of producers and consumers: `push_job_id` and
  `enqueue_job` callers on any queues (lines 197-199, 306-330), `dequeue` callers (lines
  376-397) and `dequeue_any` callers over any lists of queues, blocking or not (lines
  346-374, 399-429).

  Every write these calls make to a list is one `RPUSH` onto its tail or one `LPOP` or `BLPOP`
  of its head, each an atomic Redis command; the reads of `enqueue_job`'s registration, of the
  fetches and of `from_queue_key` write no list.

  * `FifoClient.step_conserves`: one step of any client, on every list, moves an ID from the
    list's head into the log of pops, appends a pushed ID to the list's tail, or does nothing.
  * `fifo_run`: after any schedule, for every list, the IDs consumers popped from it followed by
    the list are the list it started as followed by the IDs pushed onto it, in the order the
    pushes landed: no ID is lost, duplicated or reordered. So no ID is popped more often than
    it was in the list or pushed onto it: an ID pushed once reaches at most one consumer.
  * `fifo_listed_saved`: no step deletes a record, and `enqueue_job` runs its `SET` before its
    `RPUSH`; so from a store whose listed IDs all have records, where each `push_job_id` caller
    pushes an ID that has one, every listed ID keeps a record after any schedule, and every
    consumer that popped an ID finds its record: no `dequeue` or `dequeue_any` skips a job.
  * `fifo_all_sees_registered`: no step removes a set member, and `enqueue_job` runs its `SADD`
    before its `RPUSH`; so, with no client on a `WIPQueue`, `Queue.all()` read after any schedule
    returns normally and lists the queue of every `enqueue_job` caller past its `SADD`, every
    queue such a caller has pushed onto among them.
-/

namespace Rq

/-! ## The clients -/

/-- What the steps record: each ID pushed onto or popped from the list under a key. -/
inductive FifoEvent
  | pushed (queueKey jobId : String)
  | popped (queueKey jobId : String)
  deriving DecidableEq, Repr

namespace FifoEvent

/-- The IDs pushed onto the list under `k`, in the order the pushes landed. -/
def pushes (k : String) : List FifoEvent → List String :=
  List.filterMap fun
    | .pushed k' x => if k' = k then some x else none
    | .popped _ _ => none

/-- The IDs popped from the list under `k`, in the order of the pops. -/
def pops (k : String) : List FifoEvent → List String :=
  List.filterMap fun
    | .popped k' x => if k' = k then some x else none
    | .pushed _ _ => none

@[simp] theorem pushes_append (k : String) (l l' : List FifoEvent) :
    pushes k (l ++ l') = pushes k l ++ pushes k l' := List.filterMap_append _ _ _
@[simp] theorem pops_append (k : String) (l l' : List FifoEvent) :
    pops k (l ++ l') = pops k l ++ pops k l' := List.filterMap_append _ _ _
@[simp] theorem pushes_nil (k : String) : pushes k [] = [] := rfl
@[simp] theorem pops_nil (k : String) : pops k [] = [] := rfl
@[simp] theorem pushes_pushed (k k' x : String) :
    pushes k [.pushed k' x] = if k' = k then [x] else [] := by
  by_cases h : k' = k <;> simp [pushes, h]
@[simp] theorem pops_pushed (k k' x : String) : pops k [.pushed k' x] = [] := rfl
@[simp] theorem pushes_popped (k k' x : String) : pushes k [.popped k' x] = [] := rfl
@[simp] theorem pops_popped (k k' x : String) :
    pops k [.popped k' x] = if k' = k then [x] else [] := by
  by_cases h : k' = k <;> simp [pops, h]

end FifoEvent

open FifoEvent

/-- The producers and consumers: `push_job_id`, `enqueue_job`, `dequeue` and `dequeue_any`
    callers, each with the queue or queues it was called on. -/
inductive FifoClient
  | pusher (q : Queue) (jobId : String) (pushed : Bool)
  | enqueuer (q : Queue) (job : Job) (pc : Option EnqueueJobPc)
  | consumer (q : Queue) (pc : DequeuePc)
  | anyConsumer (queues : List Queue) (timeout : Option Nat) (pc : DequeueAnyPc)
  deriving DecidableEq, Repr

/-- One step of a producer or a consumer. -/
def FifoClient.step : FifoClient → Nat → Store → FifoClient × Store × List FifoEvent
  | .pusher q x false, _, s => (.pusher q x true, q.pushJobId x s, [.pushed q.key x])
  | .pusher q x true, _, s => (.pusher q x true, s, [])
  | .enqueuer q job (some pc), _, s =>
    let r := q.enqueueJobStep job pc s
    (.enqueuer q job r.1, r.2, if pc = .push then [.pushed q.key job.id] else [])
  | .enqueuer q job none, _, s => (.enqueuer q job none, s, [])
  | .consumer q pc, _, s =>
    let r := q.dequeueStep pc s
    (.consumer q r.1, r.2, match r.1 with
      | .fetch _ x => [.popped q.key x]
      | _ => [])
  | .anyConsumer queues t pc, _, s =>
    let r := Queue.dequeueAnyStep queues t pc s
    (.anyConsumer queues t r.1, r.2, match r.1 with
      | .fetch _ k x => [.popped k x]
      | _ => [])

/-- The clients run from `s₀` under `sched`. -/
def fifoRun (s₀ : Store) (clients : List FifoClient) (sched : List (Nat × Nat)) :
    World FifoClient FifoEvent :=
  (World.mk s₀ clients []).run FifoClient.step sched

/-! ## One step -/

/-- On every list, what the step popped followed by the list after it is the list before it
    followed by what the step pushed. -/
def ListsConserved (s s' : Store) (evs : List FifoEvent) : Prop :=
  ∀ k, pops k evs ++ s'.lists k = s.lists k ++ pushes k evs

theorem ListsConserved.quiet {s s' : Store} (h : s'.lists = s.lists) : ListsConserved s s' [] :=
  fun k => by simp [h]

theorem ListsConserved.push (s : Store) (k' x : String) :
    ListsConserved s (s.rpush k' x) [.pushed k' x] :=
  fun k => by
    by_cases h : k = k'
    · subst h; simp
    · simp [h, Ne.symm h]

theorem ListsConserved.pop {s : Store} {k' x : String} {xs : List String}
    (h : s.lists k' = x :: xs) : ListsConserved s (s.setList k' xs) [.popped k' x] :=
  fun k => by
    by_cases hk : k = k'
    · subst hk; simp [h]
    · simp [hk, Ne.symm hk]

/-- A step of `dequeue` pops the head of the queue's list and holds it, or writes no list. -/
theorem Queue.dequeueStep_lists (q : Queue) (pc : DequeuePc) (s : Store) :
    (∃ f x xs, (q.dequeueStep pc s).1 = .fetch f x ∧ s.lists q.key = x :: xs ∧
      (q.dequeueStep pc s).2 = s.setList q.key xs) ∨
    ((∀ f x, (q.dequeueStep pc s).1 ≠ .fetch f x) ∧ (q.dequeueStep pc s).2.lists = s.lists) := by
  cases pc with
  | pop f =>
    cases hm : s.lists q.key with
    | nil => exact .inr ⟨by simp [Queue.dequeueStep, Store.lpop, hm], by
        simp [Queue.dequeueStep, Store.lpop, hm]⟩
    | cons x xs => exact .inl ⟨f, x, xs, by simp [Queue.dequeueStep, Store.lpop, hm], rfl, by
        simp [Queue.dequeueStep, Store.lpop, hm]⟩
  | fetch f x =>
    refine .inr ⟨fun f' y => ?_, by rw [Queue.dequeueStep_fetch]⟩
    simp only [Queue.dequeueStep]
    split <;> (try split) <;> simp
  | returned j => exact .inr ⟨by simp [Queue.dequeueStep], rfl⟩
  | raised e => exact .inr ⟨by simp [Queue.dequeueStep], rfl⟩

/-- A step of `dequeue_any` pops the head of one list and holds it, or writes no list. -/
theorem Queue.dequeueAnyStep_lists (queues : List Queue) (timeout : Option Nat)
    (pc : DequeueAnyPc) (s : Store) :
    (∃ f k x xs, (Queue.dequeueAnyStep queues timeout pc s).1 = .fetch f k x ∧
      s.lists k = x :: xs ∧ (Queue.dequeueAnyStep queues timeout pc s).2 = s.setList k xs) ∨
    ((∀ f k x, (Queue.dequeueAnyStep queues timeout pc s).1 ≠ .fetch f k x) ∧
      (Queue.dequeueAnyStep queues timeout pc s).2.lists = s.lists) := by
  cases pc with
  | lpop f =>
    rcases timeout with _ | t
    · simp [Queue.dequeueAnyStep]
    by_cases ht : t = 0
    · simp [Queue.dequeueAnyStep, Queue.lpopKeys, ht]
    by_cases hk : queues.map Queue.key = []
    · simp [Queue.dequeueAnyStep, Queue.lpopKeys, ht, hk]
    rcases hb : s.blpop (queues.map Queue.key) with ⟨_ | ⟨k, x⟩, s'⟩
    · obtain rfl := Store.blpop_none hb
      simp [Queue.dequeueAnyStep, Queue.lpopKeys, ht, hk, hb]
    · obtain ⟨-, xs, hx, rfl⟩ := Store.blpop_some hb
      refine .inl ⟨f, k, x, xs, ?_, hx, ?_⟩ <;>
        simp [Queue.dequeueAnyStep, Queue.lpopKeys, ht, hk, hb]
  | scan f keys =>
    rcases keys with _ | ⟨k, ks⟩
    · simp [Queue.dequeueAnyStep]
    cases hm : s.lists k with
    | nil => simp [Queue.dequeueAnyStep, Store.lpop, hm]
    | cons x xs =>
      refine .inl ⟨f, k, x, xs, ?_, hm, ?_⟩ <;> simp [Queue.dequeueAnyStep, Store.lpop, hm]
  | fetch f k x =>
    refine .inr ⟨fun f' k' x' => ?_, ?_⟩ <;> simp only [Queue.dequeueAnyStep] <;> split
    all_goals (try split) <;> (try split) <;> simp
  | returned r => simp [Queue.dequeueAnyStep]
  | raised e => simp [Queue.dequeueAnyStep]

/-- Every step of every client conserves every list. -/
theorem FifoClient.step_conserves (c : FifoClient) (n : Nat) (s : Store) :
    ListsConserved s (c.step n s).2.1 (c.step n s).2.2 := by
  cases c with
  | pusher q x b => cases b; exacts [.push s q.key x, .quiet rfl]
  | enqueuer q job pc =>
    rcases pc with _ | _ | _ | _
    · exact .quiet rfl
    · exact .quiet (by simp [FifoClient.step, Queue.enqueueJobStep])
    · refine .quiet ?_
      simp only [FifoClient.step, Queue.enqueueJobStep]
      split <;> simp [Job.save]
    · exact .push s q.key job.id
  | consumer q pc =>
    simp only [FifoClient.step]
    rcases Queue.dequeueStep_lists q pc s with ⟨f, x, xs, h1, hm, h2⟩ | ⟨h1, h2⟩
    · rw [h1, h2]; exact .pop hm
    · split
      · rename_i f x hx; exact absurd hx (h1 f x)
      · exact .quiet h2
  | anyConsumer queues t pc =>
    simp only [FifoClient.step]
    rcases Queue.dequeueAnyStep_lists queues t pc s with ⟨f, k, x, xs, h1, hm, h2⟩ | ⟨h1, h2⟩
    · rw [h1, h2]; exact .pop hm
    · split
      · rename_i f k x hx; exact absurd hx (h1 f k x)
      · exact .quiet h2

/-! ## Every run -/

theorem fifo_run (s₀ : Store) (clients : List FifoClient) (sched : List (Nat × Nat))
    (k : String) :
    pops k (fifoRun s₀ clients sched).log ++ (fifoRun s₀ clients sched).store.lists k =
        s₀.lists k ++ pushes k (fifoRun s₀ clients sched).log ∧
      ∀ x, (pops k (fifoRun s₀ clients sched).log).count x ≤
        (s₀.lists k).count x + (pushes k (fifoRun s₀ clients sched).log).count x := by
  have hlists : ∀ k, pops k (fifoRun s₀ clients sched).log ++
      (fifoRun s₀ clients sched).store.lists k =
        s₀.lists k ++ pushes k (fifoRun s₀ clients sched).log := by
    refine World.run_induction
      (fun w => ∀ k, pops k w.log ++ w.store.lists k = s₀.lists k ++ pushes k w.log)
      (fun w i n hw k => ?_) sched ⟨s₀, clients, []⟩ (fun k => by simp)
    simp only [World.tick]
    split
    · exact hw k
    · rename_i c _
      simp only [pops_append, pushes_append, List.append_assoc,
        FifoClient.step_conserves c n w.store k]
      rw [← List.append_assoc, hw k, List.append_assoc]
  refine ⟨hlists k, fun x => ?_⟩
  have h := congrArg (List.count x) (hlists k)
  rw [List.count_append, List.count_append] at h
  omega

/-! ## Records of listed IDs -/

/-- A step of `dequeue` writes lists only. -/
theorem Queue.dequeueStep_listsOnly (q : Queue) (pc : DequeuePc) (s : Store) :
    Store.ListsOnly s (q.dequeueStep pc s).2 := by
  cases pc with
  | pop f =>
    have h := Store.ListsOnly.lpop s q.key
    simp only [Queue.dequeueStep]
    split <;> rename_i hl <;> rwa [hl] at h
  | fetch f x => rw [Queue.dequeueStep_fetch]; exact .refl s
  | _ => exact .refl s

/-- A step of `dequeue_any` writes lists only. -/
theorem Queue.dequeueAnyStep_listsOnly (queues : List Queue) (timeout : Option Nat)
    (pc : DequeueAnyPc) (s : Store) :
    Store.ListsOnly s (Queue.dequeueAnyStep queues timeout pc s).2 := by
  cases pc with
  | lpop f =>
    cases timeout with
    | none => exact .refl s
    | some t =>
      have h := Store.ListsOnly.lpopKeys (queues.map Queue.key) (some t) s
      simp only [Queue.dequeueAnyStep]
      split <;> rename_i hl <;> rwa [hl] at h
  | scan f keys =>
    cases keys with
    | nil => exact .refl s
    | cons k ks =>
      have h := Store.ListsOnly.lpop s k
      simp only [Queue.dequeueAnyStep]
      split <;> rename_i hl <;> rwa [hl] at h
  | fetch f k x =>
    simp only [Queue.dequeueAnyStep]
    split
    · exact .refl s
    · split <;> (try split) <;> exact .refl s
  | _ => exact .refl s

/-- No step of a producer or a consumer deletes a record. -/
theorem FifoClient.step_exists (c : FifoClient) (n : Nat) (s : Store) {x : String}
    (h : Job.exists s x = true) : Job.exists (c.step n s).2.1 x = true := by
  cases c with
  | pusher q y b => cases b <;> exact h
  | enqueuer q job pc =>
    rcases pc with _ | pc
    · exact h
    · rcases Queue.enqueueJobStep_records q job pc s with hr | hr <;>
        simp only [FifoClient.step, Job.exists, hr] at h ⊢
      · exact h
      · by_cases hx : x = job.id <;> simp_all [Job.save]
  | consumer q pc =>
    simp only [FifoClient.step, Job.exists, (Queue.dequeueStep_listsOnly q pc s).2.2]; exact h
  | anyConsumer queues t pc =>
    simp only [FifoClient.step, Job.exists, (Queue.dequeueAnyStep_listsOnly queues t pc s).2.2]
    exact h

/-- The job ID a client relies on having a record: a `push_job_id` caller's ID before its
    push, an `enqueue_job` caller's own job between its `SET` and its `RPUSH`, and the ID a
    consumer popped and has not yet fetched. -/
def FifoClient.needs : FifoClient → Option String
  | .pusher _ x false => some x
  | .enqueuer _ job (some .push) => some job.id
  | .consumer _ (.fetch _ x) => some x
  | .anyConsumer _ _ (.fetch _ _ x) => some x
  | _ => none

/-- Every ID a step pushes is the one its client relied on. -/
theorem FifoClient.step_pushes_needs (c : FifoClient) (n : Nat) (s : Store) {k x : String}
    (h : x ∈ pushes k (c.step n s).2.2) : c.needs = some x := by
  cases c with
  | pusher q y b => cases b <;> simp_all [FifoClient.step, FifoClient.needs]
  | enqueuer q job pc =>
    rcases pc with _ | _ | _ | _ <;> simp_all [FifoClient.step, FifoClient.needs]
  | consumer q pc => simp only [FifoClient.step] at h; split at h <;> simp at h
  | anyConsumer queues t pc => simp only [FifoClient.step] at h; split at h <;> simp at h

/-- After a step, the ID its client relies on has a record. -/
theorem FifoClient.step_needs (c : FifoClient) (n : Nat) (s : Store)
    (hl : ∀ k, ∀ x ∈ s.lists k, Job.exists s x = true) {x : String}
    (h : (c.step n s).1.needs = some x) : Job.exists (c.step n s).2.1 x = true := by
  cases c with
  | pusher q y b => cases b <;> simp [FifoClient.step, FifoClient.needs] at h
  | enqueuer q job pc =>
    rcases pc with _ | _ | _ | _
    · simp [FifoClient.step, FifoClient.needs] at h
    · simp [FifoClient.step, FifoClient.needs, Queue.enqueueJobStep] at h
    · simp only [FifoClient.step, Queue.enqueueJobStep] at h ⊢
      split at h <;> simp_all [FifoClient.needs, Job.exists, Job.save]
    · simp [FifoClient.step, FifoClient.needs, Queue.enqueueJobStep] at h
  | consumer q pc =>
    rcases Queue.dequeueStep_lists q pc s with ⟨f, y, ys, h1, hm, h2⟩ | ⟨h1, -⟩
    · simp only [FifoClient.step, h1, FifoClient.needs, Option.some.injEq] at h
      subst h
      simpa [FifoClient.step, Job.exists, (Queue.dequeueStep_listsOnly q pc s).2.2] using
        hl q.key y (by simp [hm])
    · generalize hp : (q.dequeueStep pc s).1 = pc' at h1
      cases pc' <;> simp_all [FifoClient.step, FifoClient.needs]
  | anyConsumer queues t pc =>
    rcases Queue.dequeueAnyStep_lists queues t pc s with ⟨f, k, y, ys, h1, hm, h2⟩ | ⟨h1, -⟩
    · simp only [FifoClient.step, h1, FifoClient.needs, Option.some.injEq] at h
      subst h
      simpa [FifoClient.step, Job.exists, (Queue.dequeueAnyStep_listsOnly queues t pc s).2.2] using
        hl k y (by simp [hm])
    · generalize hp : (Queue.dequeueAnyStep queues t pc s).1 = pc' at h1
      cases pc' <;> simp_all [FifoClient.step, FifoClient.needs]

/-- Every listed ID has a record, and so does every ID a client relies on. -/
def FifoSound (w : World FifoClient FifoEvent) : Prop :=
  (∀ k, ∀ x ∈ w.store.lists k, Job.exists w.store x = true) ∧
    ∀ c ∈ w.clients, ∀ x ∈ c.needs, Job.exists w.store x = true

theorem fifoSound_tick {w : World FifoClient FifoEvent} (i n : Nat) (hw : FifoSound w) :
    FifoSound (w.tick FifoClient.step i n) := by
  obtain ⟨hl, hc⟩ := hw
  simp only [World.tick]
  split
  · exact ⟨hl, hc⟩
  · rename_i c hi
    have mono : ∀ {x}, Job.exists w.store x = true →
        Job.exists (c.step n w.store).2.1 x = true :=
      FifoClient.step_exists c n w.store
    refine ⟨fun k x hx => ?_, fun d hd x hx => ?_⟩
    · have h := FifoClient.step_conserves c n w.store k
      have hx' : x ∈ pops k (c.step n w.store).2.2 ++ (c.step n w.store).2.1.lists k :=
        List.mem_append_right _ hx
      rcases List.mem_append.mp (h ▸ hx') with hx' | hx'
      · exact mono (hl k x hx')
      · exact mono (hc c (List.getElem?_mem hi) x (FifoClient.step_pushes_needs c n w.store hx'))
    · rcases List.mem_or_eq_of_mem_set hd with hd | rfl
      · exact mono (hc d hd x hx)
      · exact FifoClient.step_needs c n w.store hl hx

/-- In every interleaving of `push_job_id`, `enqueue_job`, `dequeue` and `dequeue_any` calls
    from a store whose listed IDs all have records, where each client's needed ID has one,
    every listed ID keeps a record: an `enqueue_job` caller's `RPUSH` finds its job saved by
    its `SET`, and every consumer holding a popped ID finds its record, so no `dequeue` skips. -/
theorem fifo_listed_saved (s₀ : Store) (clients : List FifoClient) (sched : List (Nat × Nat))
    (hs₀ : ∀ k, ∀ x ∈ s₀.lists k, Job.exists s₀ x = true)
    (hcl : ∀ c ∈ clients, ∀ x ∈ c.needs, Job.exists s₀ x = true) :
    (∀ k, ∀ x ∈ (fifoRun s₀ clients sched).store.lists k,
      Job.exists (fifoRun s₀ clients sched).store x = true) ∧
    ∀ c ∈ (fifoRun s₀ clients sched).clients, ∀ x ∈ c.needs,
      Job.exists (fifoRun s₀ clients sched).store x = true :=
  World.run_induction FifoSound (fun _ i n hw => fifoSound_tick i n hw) sched _ ⟨hs₀, hcl⟩

theorem fifo_listed_saved_push :
    (let q := Queue.new "default";
      let w := fifoRun (Job.save Store.empty { id := "a" })
        [.pusher q "a" false, .enqueuer q { id := "b" } (some .register), .consumer q (.pop 0)]
        [(1, 0), (1, 0), (0, 0), (2, 0), (1, 0), (2, 0)];
      (∀ k, ∀ x ∈ w.store.lists k, Job.exists w.store x = true) ∧
        ∀ c ∈ w.clients, ∀ x ∈ c.needs, Job.exists w.store x = true) :=
  fifo_listed_saved (Job.save Store.empty { id := "a" })
    [.pusher (Queue.new "default") "a" false,
      .enqueuer (Queue.new "default") { id := "b" } (some .register),
      .consumer (Queue.new "default") (.pop 0)]
    [(1, 0), (1, 0), (0, 0), (2, 0), (1, 0), (2, 0)]
    (fun _ _ hx => nomatch hx) (by decide)

/-! ## The queue registry -/

/-- The queue an `enqueue_job` client enqueues on. -/
def FifoClient.enqueuesOn : FifoClient → Option Queue
  | .enqueuer q _ _ => some q
  | _ => none

/-- The queue an `enqueue_job` client has registered, once past its `SADD`. -/
def FifoClient.registered : FifoClient → Option Queue
  | .enqueuer _ _ (some .register) => none
  | .enqueuer q _ _ => some q
  | _ => none

theorem FifoClient.step_enqueuesOn (c : FifoClient) (n : Nat) (s : Store) :
    (c.step n s).1.enqueuesOn = c.enqueuesOn := by
  cases c with
  | pusher q x b => cases b <;> rfl
  | enqueuer q job pc => rcases pc with _ | _ | _ | _ <;> rfl
  | _ => rfl

/-- A step adds to a set only the `SADD` of an `enqueue_job` client's queue key into its
    registry, and removes from no set. -/
theorem FifoClient.step_sets (c : FifoClient) (n : Nat) (s : Store) {K : SetKey} {k : String} :
    k ∈ (c.step n s).2.1.sets K ↔ k ∈ s.sets K ∨ ∃ q job,
      c = .enqueuer q job (some .register) ∧ K = q.cls.redisQueuesKeys ∧ k = q.key := by
  cases c with
  | pusher q x b => cases b <;> simp [FifoClient.step, Queue.pushJobId, Store.rpush]
  | enqueuer q job pc =>
    rcases pc with _ | _ | _ | _
    · simp [FifoClient.step]
    · simp [FifoClient.step, Queue.enqueueJobStep, Store.mem_sadd]
    · simp only [FifoClient.step, Queue.enqueueJobStep]
      split <;> simp [Job.save]
    · simp [FifoClient.step, Queue.enqueueJobStep, Store.rpush]
  | consumer q pc => simp [FifoClient.step, (Queue.dequeueStep_listsOnly q pc s).1]
  | anyConsumer queues t pc =>
    simp [FifoClient.step, (Queue.dequeueAnyStep_listsOnly queues t pc s).1]

/-- A client registered after its step was registered before it, or has just run its `SADD`. -/
theorem FifoClient.step_registered (c : FifoClient) (n : Nat) (s : Store) {q : Queue}
    (h : (c.step n s).1.registered = some q) :
    c.registered = some q ∨ ∃ job, c = .enqueuer q job (some .register) := by
  cases c with
  | pusher q x b => cases b <;> simp [FifoClient.step, FifoClient.registered] at h
  | enqueuer q' job pc =>
    rcases pc with _ | _ | _ | _
    · exact .inl h
    · simp only [FifoClient.step, Queue.enqueueJobStep, FifoClient.registered,
        Option.some.injEq] at h
      exact .inr ⟨job, h ▸ rfl⟩
    · refine .inl ?_
      simp only [FifoClient.step, Queue.enqueueJobStep] at h
      split at h <;> simpa [FifoClient.registered] using h
    · simp [FifoClient.step, Queue.enqueueJobStep, FifoClient.registered] at h ⊢; exact h
  | consumer q' pc => simp [FifoClient.step, FifoClient.registered] at h
  | anyConsumer queues t pc => simp [FifoClient.step, FifoClient.registered] at h

/-- `rq:queues` holds plain-queue keys only, no `enqueue_job` client is on a `WIPQueue`, and
    every registered client's queue key is in its registry. -/
def FifoRegistered (w : World FifoClient FifoEvent) : Prop :=
  w.store.RegistryPlain ∧ ∀ c ∈ w.clients, (∀ q ∈ c.enqueuesOn, q.cls ≠ .wipQueue) ∧
    ∀ q ∈ c.registered, q.key ∈ w.store.sets q.cls.redisQueuesKeys

theorem fifoRegistered_tick {w : World FifoClient FifoEvent} (i n : Nat)
    (hw : FifoRegistered w) : FifoRegistered (w.tick FifoClient.step i n) := by
  obtain ⟨hr, hc⟩ := hw
  simp only [World.tick]
  split
  · exact ⟨hr, hc⟩
  · rename_i c hi
    have hcw := hc c (List.getElem?_mem hi)
    have mono : ∀ {K k}, k ∈ w.store.sets K → k ∈ (c.step n w.store).2.1.sets K :=
      fun h => (FifoClient.step_sets c n w.store).2 (.inl h)
    refine ⟨fun k hk => ?_, fun d hd => ?_⟩
    · rcases (FifoClient.step_sets c n w.store).1 hk with hk | ⟨q, job, rfl, hK, rfl⟩
      · exact hr k hk
      · exact Queue.key_plain (hcw.1 q rfl) hK.symm
    · rcases List.mem_or_eq_of_mem_set hd with hd | rfl
      · exact ⟨(hc d hd).1, fun q hq => mono ((hc d hd).2 q hq)⟩
      · refine ⟨by rw [FifoClient.step_enqueuesOn]; exact hcw.1, fun q hq => ?_⟩
        rcases FifoClient.step_registered c n w.store hq with h | ⟨job, rfl⟩
        · exact mono (hcw.2 q h)
        · exact (FifoClient.step_sets _ n w.store).2 (.inr ⟨q, job, rfl, rfl, rfl⟩)

/-- In every interleaving of producers and consumers, none of them on a `WIPQueue`, from a
    store whose `rq:queues` holds plain-queue keys only: `Queue.all()` read after any schedule
    returns normally, and it lists the queue of every `enqueue_job` caller past its `SADD`.
    `enqueue_job` pushes only after its `SADD`, so it lists every queue `enqueue_job` has pushed
    a job onto. -/
theorem fifo_all_sees_registered (s₀ : Store) (clients : List FifoClient)
    (sched : List (Nat × Nat)) (hr : s₀.RegistryPlain)
    (hcl : ∀ c ∈ clients, (∀ q ∈ c.enqueuesOn, q.cls ≠ .wipQueue) ∧
      ∀ q ∈ c.registered, q.key ∈ s₀.sets q.cls.redisQueuesKeys) :
    ∃ qs, Queue.all (fifoRun s₀ clients sched).store = .ok qs ∧
      ∀ c ∈ (fifoRun s₀ clients sched).clients, ∀ q ∈ c.registered,
        q.cls.redisQueuesKeys = .queues → q.key ∈ qs.map Queue.key := by
  obtain ⟨hr', hc'⟩ : FifoRegistered (fifoRun s₀ clients sched) :=
    World.run_induction _ (fun _ i n hw => fifoRegistered_tick i n hw) sched _ ⟨hr, hcl⟩
  have hall := all_keys_of_plain _ hr'
  cases h : Queue.all (fifoRun s₀ clients sched).store with
  | error e => simp [h, Except.map] at hall
  | ok qs =>
    simp only [h, Except.map, Except.ok.injEq] at hall
    refine ⟨qs, rfl, fun c hc q hq hK => hall ▸ List.mem_filter.2 ⟨?_, ?_⟩⟩
    exacts [hK ▸ (hc' c hc).2 q hq, by simpa using q.key_ne_empty]

theorem fifo_all_sees_registered_pushed :
    (let q := Queue.new "default";
      let w := fifoRun Store.empty [.enqueuer q { id := "a" } (some .register), .consumer q (.pop 0)]
        [(0, 0), (1, 0), (0, 0), (0, 0)];
      ∃ qs, Queue.all w.store = .ok qs ∧ ∀ c ∈ w.clients, ∀ q ∈ c.registered,
        q.cls.redisQueuesKeys = .queues → q.key ∈ qs.map Queue.key) :=
  fifo_all_sees_registered Store.empty
    [.enqueuer (Queue.new "default") { id := "a" } (some .register),
      .consumer (Queue.new "default") (.pop 0)]
    [(0, 0), (1, 0), (0, 0), (0, 0)] (fun _ h => nomatch h) (by decide)

end Rq
