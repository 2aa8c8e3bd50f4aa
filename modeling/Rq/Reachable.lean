import Rq.Registry

/-
  The store over whole runs of the public calls (`Op.run`, `runOps`), from any store that
  satisfies the invariant at hand.

  Model. `Store.Writes Q` says once what a call outside the child queues may write: lists only
  (`LPOP`, `BLPOP`, `RPUSH`, `LREM`, `RENAME`, `DEL`), a job's record (`save`, `set_status`), the
  deletion of a record (`job.cancel()` in `empty`), a set other than the two registries
  (`deferred`, a job's `dependents`), or an `enqueue_job` on a queue that `Q` allows.
  `Op.run_writes` proves every such call a sequence of these writes, the loops of
  `enqueue_dependents`, `dequeue_any`, `get_jobs` and `compact` included; a call of `WIPQueue` or
  `DoneQueue` writes its sorted set only (`Op.run_of_zsetKey`). Each invariant is proved once per
  kind of write, then for every call and every run.

  * `runOps_keyed`: every record stays under its own ID, so every fetch returns the job whose ID
    was asked for.
  * `runOps_registry_grows`: no call removes a member of `rq:queues` or `rq:donequeues`.
  * `all_sees_enqueued`: while no call enqueues on a `WIPQueue`, `Queue.all()` returns, after
    any later calls, every queue of `rq:queues` that `enqueue_job` has run on.
  * `runOps_registry_plain`: while no call enqueues on a `WIPQueue`, `rq:queues` holds plain
    queue keys only, and `Queue.all()` returns one queue per non-empty member without raising.
  * `child_deadlines_run`: the sorted set of a child queue holds, for each member, exactly the
    deadline the abstract map `Op.deadlines` gives after the calls (`add_job` sets it,
    `remove_job` and `remove_expired_jobs` drop it); `ZSCORE` reads that deadline, and
    `remove_job` removes at most one entry. It is stated for the runs on which the store, which
    keeps lists and sorted sets apart, agrees with Redis, which keeps one value per key.
  * `runOps_listed_saved`: `Store.KeepsSaved` says that a call deletes no record, that every ID
    it lists was listed before or has a record once it returns, and that every ID it adds to
    `rq:deferred` or a dependents set has one; every call but `push_job_id` and `empty` keeps it,
    since each saves a job before or while it stores the job's ID, and `compact` only moves IDs
    between lists. So from a store whose listed IDs all have records, after any calls without
    `push_job_id` and `empty` every listed ID has a record, and `dequeue` pops exactly the head
    of its list.
  * `runOps_dependents_found`: `push_job_id` writes one list only, so every call but `empty`
    keeps the members of `rq:deferred` and of the dependents sets saved. After any calls without
    `empty` from a store whose job sets are saved, `enqueue_dependents` never raises
    `NoSuchJobError`; run command by command against a concurrent `enqueue_call`, it can
    (`Rq.Race.Dependency`).
-/

namespace Rq

/-! ## Calls that write lists only -/

/-- `s'` differs from `s` in its lists only. -/
def Store.ListsOnly (s s' : Store) : Prop :=
  s'.sets = s.sets ∧ s'.zsets = s.zsets ∧ s'.records = s.records

namespace Store.ListsOnly

theorem refl (s : Store) : ListsOnly s s := ⟨rfl, rfl, rfl⟩

theorem trans {s s' s'' : Store} (h : ListsOnly s s') (h' : ListsOnly s' s'') :
    ListsOnly s s'' :=
  ⟨h'.1.trans h.1, h'.2.1.trans h.2.1, h'.2.2.trans h.2.2⟩

theorem setList (s : Store) (k : String) (xs : List String) : ListsOnly s (s.setList k xs) :=
  ⟨rfl, rfl, rfl⟩

theorem lpop (s : Store) (k : String) : ListsOnly s (s.lpop k).2 := by
  unfold Store.lpop; split
  exacts [refl s, setList s k _]

theorem blpop (s : Store) : ∀ keys, ListsOnly s (s.blpop keys).2
  | [] => refl s
  | k :: ks => by
    unfold Store.blpop; split
    exacts [blpop s ks, setList s k _]

theorem lpopFirst : ∀ (s : Store) keys, ListsOnly s (s.lpopFirst keys).2
  | s, [] => refl s
  | s, k :: ks => by
    unfold Store.lpopFirst; split
    · rename_i h; exact (lpop s k).trans (by rw [h]; exact refl _)
    · rename_i s' h
      exact (lpop s k).trans (h ▸ lpopFirst s' ks : ListsOnly (s.lpop k).2 _)

theorem lpopKeys (keys : List String) (timeout : Option Nat) (s : Store) :
    ListsOnly s (Queue.lpopKeys keys timeout s).2 := by
  unfold Queue.lpopKeys
  cases timeout with
  | none => rcases hp : s.lpopFirst keys with ⟨r, s'⟩; simpa [hp] using lpopFirst s keys
  | some t =>
    simp only
    split
    · exact refl s
    · split
      · exact refl s
      · rcases hb : s.blpop keys with ⟨_ | r, s'⟩ <;> simpa [hb] using blpop s keys

theorem dequeue (q : Queue) (frames : Nat) (s : Store) : ListsOnly s (q.dequeue frames s).2 := by
  rw [Queue.dequeue_eq]; split
  · exact setList s _ _
  · split <;> exact setList s _ _

theorem dequeueAny (queues : List Queue) (timeout : Option Nat) (frames : Nat) (s : Store) :
    ListsOnly s (Queue.dequeueAny queues timeout frames s).2 :=
  Queue.dequeueAny_preserves queues timeout (ListsOnly s)
    (fun _ h => h.trans (lpopKeys _ _ _)) frames s (refl s)

theorem getJobs (q : Queue) (offset length : Int) (s : Store) :
    ListsOnly s (q.getJobs offset length s).2 :=
  q.getJobs_preserves (ListsOnly s) (fun _ _ h => h.trans (setList _ _ _)) offset length (refl s)

theorem rename {s s' : Store} {src dst : String} (h : s.rename src dst = .ok s') :
    ListsOnly s s' := by
  unfold Store.rename at h
  split at h
  · cases h
  · cases h; exact (setList s src []).trans (setList _ dst _)

/-- `compact` moves ids between lists only. -/
theorem compact (q : Queue) (uuid : String) (s : Store) :
    ListsOnly s ((Op.compact q uuid).run s) := by
  simp only [Op.run]
  split
  · rename_i r h
    refine q.compact_preserves (ListsOnly s) uuid _ (fun _ _ h₁ h₂ => h₁.trans (rename h₂))
      (fun _ h₁ => h₁.trans (lpop _ _)) (fun s₁ x s₂ h₁ hp => h₁.trans ?_) (refl s) h
    have h₂ := lpop s₁ (q.compactKey uuid)
    rw [hp] at h₂
    exact h₂.trans (setList _ _ _)
  · exact refl s

end Store.ListsOnly

/-! ## What a call writes -/

/-- The writes of the calls that leave the sorted sets alone, as the run invariants read them:
    list writes, saves, status updates, writes to a set other than the two registries, the
    deletion of a record by `job.cancel()`, and `enqueue_job` on a queue that `Q` allows; and any
    sequence of these. -/
inductive Store.Writes (Q : Queue → Prop) : Store → Store → Prop
  | lists {s s' : Store} : s.ListsOnly s' → Store.Writes Q s s'
  | save (s : Store) (job : Job) : Store.Writes Q s (Job.save s job)
  | setStatus (s : Store) (id : String) (st : Status) : Store.Writes Q s (Job.setStatus s id st)
  | setSet (s : Store) {k : SetKey} (xs : List String) :
      k ≠ .queues → k ≠ .donequeues → Store.Writes Q s (s.setSet k xs)
  | cancel (s : Store) (job : Job) : Store.Writes Q s (Job.cancel s job)
  | enqueueJob (s : Store) {q : Queue} (job : Job) (b : Bool) (now : Nat) :
      Q q → Store.Writes Q s (q.enqueueJob job b now s).2
  | trans {s s' s'' : Store} :
      Store.Writes Q s s' → Store.Writes Q s' s'' → Store.Writes Q s s''

namespace Store.Writes

variable {Q : Queue → Prop}

theorem refl (s : Store) : Store.Writes Q s s := .lists (ListsOnly.refl s)

theorem sadd (s : Store) (k : SetKey) (v : String) (h₁ : k ≠ .queues)
    (h₂ : k ≠ .donequeues) :
    Store.Writes Q s (s.sadd k v) := by
  unfold Store.sadd; split
  exacts [refl s, setSet s _ h₁ h₂]

theorem srem (s : Store) (k : SetKey) (v : String) (h₁ : k ≠ .queues)
    (h₂ : k ≠ .donequeues) :
    Store.Writes Q s (s.srem k v).2 := setSet s _ h₁ h₂

theorem spop (s : Store) (k : SetKey) (p : Nat) (h₁ : k ≠ .queues)
    (h₂ : k ≠ .donequeues) :
    Store.Writes Q s (s.spop k p).2 := by
  unfold Store.spop; split
  exacts [refl s, setSet s _ h₁ h₂]

theorem cancels : ∀ (jobs : List Job) (s : Store), Store.Writes Q s (jobs.foldl Job.cancel s)
  | [], s => refl s
  | job :: jobs, s => (cancel s job).trans (cancels jobs _)

theorem deferOrEnqueue (q : Queue) (job : Job) (now : Nat) (s : Store) (hq : Q q) :
    Store.Writes Q s (Prod.snd <| q.deferOrEnqueue job now s) := by
  unfold Queue.deferOrEnqueue; split
  · exact (sadd s .deferred job.id nofun nofun).trans (.save _ _)
  · exact .enqueueJob s job true now hq

end Store.Writes

/-! ## What each call writes -/

/-- The key of the sorted set a call of a child queue writes; `none` for every other call. -/
def Op.zsetKey : Op → Option String
  | .addJob q _ _ | .removeJob q _ | .removeExpiredJobs q _ => some q.key
  | _ => none

/-- The queues on which a call may run `enqueue_job`: the queue it was called on, the target
    of `release_job` (a `Queue(name)` unless a queue object was given), the failed queue for
    `quarantine`, and a `Queue(origin)` for `requeue`. -/
def Op.enqueuesOn : Op → Queue → Prop
  | .enqueueCall q .., q' | .enqueueJob q .., q' | .enqueueDependents q .., q' => q' = q
  | .releaseJob _ (some (.queue q)) _, q' => q' = q
  | .releaseJob _ _ _, q' => q'.cls = .queue
  | .quarantine .., q' => q' = FailedQueue.new
  | .requeue .., q' => q'.cls = .queue
  | _, _ => False

theorem Op.enqueuesOn_release (j : JobOrId) (target : Option QueueOrName) (now : Nat)
    (job : Job) :
    (Op.releaseJob j target now).enqueuesOn (QueueOrName.resolve job target) := by
  rcases target with _ | _ | _ <;> rfl

/-- Every call outside the child queues is a sequence of the writes `Store.Writes` allows. -/
theorem Op.run_writes (op : Op) (s : Store) (h : op.zsetKey = none) :
    Store.Writes op.enqueuesOn s (op.run s) := by
  cases op with
  | enqueueCall q o id now =>
    have hq : Store.Writes (Op.enqueueCall q o id now).enqueuesOn s
        (Prod.snd <| q.deferOrEnqueue (q.createJob o id) now s) := .deferOrEnqueue q _ now s rfl
    simp only [Op.run, Queue.enqueueCall]
    split
    · exact .refl s
    · rename_i pid _
      split
      · exact (Store.Writes.sadd s (.dependents pid) id nofun nofun).trans
          (.save _ (q.createJob o id))
      · exact hq
    · exact hq
  | enqueueJob q job b now => exact .enqueueJob s job b now rfl
  | deferJob q job b now =>
    exact (Store.Writes.sadd s .deferred job.id nofun nofun).trans (.save _ _)
  | pushJobId q x => exact .lists (Store.ListsOnly.setList s _ _)
  | remove q x => exact .lists (Store.ListsOnly.setList s _ _)
  | enqueueDependents q job pick now =>
    exact Queue.enqueueDependents_preserves q job pick now _
      (fun s' p hs => hs.trans (Store.Writes.spop s' (.dependents job.id) p nofun nofun))
      (fun s' j hs => hs.trans (.enqueueJob s' j true now rfl)) s (.refl s)
  | releaseJob j target now =>
    simp only [Op.run]; unfold Rq.releaseJob
    split
    · exact .refl s
    · rename_i job _
      split
      · exact .refl s
      · have h₀ := Store.Writes.srem (Q := (Op.releaseJob j target now).enqueuesOn) s .deferred
          job.id nofun nofun
        rcases hr : s.srem .deferred job.id with ⟨r, s'⟩
        rw [hr] at h₀
        dsimp only
        split
        · exact h₀
        · exact (h₀.trans (.save _ _)).trans
            (.enqueueJob _ _ true now (Op.enqueuesOn_release j target now job))
  | quarantine job e now => exact .enqueueJob s _ false now rfl
  | requeue x now =>
    simp only [Op.run, FailedQueue.requeue]
    split
    · exact .lists (Store.ListsOnly.setList s _ _)
    · exact .refl s
    · simp only [Queue.remove, Store.lrem]
      split
      · exact .lists (Store.ListsOnly.setList s _ _)
      · exact (Store.Writes.lists (Store.ListsOnly.setList s _ _)).trans
          (.enqueueJob _ _ true now (rfl : (Queue.ofOrigin _).cls = .queue))
  | dequeue q frames => exact .lists (Store.ListsOnly.dequeue q frames s)
  | dequeueAny qs t frames => exact .lists (Store.ListsOnly.dequeueAny qs t frames s)
  | getJobs q offset length => exact .lists (Store.ListsOnly.getJobs q offset length s)
  | empty q =>
    have h₁ := Store.ListsOnly.getJobs q 0 (-1) s
    simp only [Op.run, Queue.empty]
    split <;> rename_i h <;> rw [h] at h₁
    · exact .lists h₁
    · exact (Store.Writes.lists (h₁.trans (Store.ListsOnly.setList _ _ _))).trans (.cancels _ _)
  | compact q uuid => exact .lists (Store.ListsOnly.compact q uuid s)
  | setStatus x st => exact .setStatus s x st
  | addJob q job now => cases h
  | removeJob q job => cases h
  | removeExpiredJobs q now => cases h

/-! ## What the writes keep -/

section Writes

variable {Q : Queue → Prop}

theorem Store.Writes.zsets {s s' : Store} (h : Store.Writes Q s s') : s'.zsets = s.zsets := by
  induction h with
  | lists h => exact h.2.1
  | save => rfl
  | setStatus s id st => exact Job.setStatus_zsets s id st
  | setSet | cancel => rfl
  | enqueueJob => rw [Queue.enqueueJob_snd]; unfold Store.sadd; split <;> split <;> rfl
  | trans _ _ ih ih' => exact ih'.trans ih

theorem Store.Writes.keyed {s s' : Store} (h : Store.Writes Q s s') (hk : s.WellKeyed) :
    s'.WellKeyed := by
  induction h with
  | lists h => exact hk.of_records h.2.2
  | save _ job => exact hk.save job
  | setStatus _ id st => exact hk.setStatus id st
  | setSet => exact hk.of_records rfl
  | cancel _ job => exact hk.cancel job
  | enqueueJob _ job b now => exact hk.enqueueJob _ job b now
  | trans _ _ ih ih' => exact ih' (ih hk)

/-- `enqueue_job` adds the queue's key to its class's registry and nothing else to a set. -/
theorem Queue.enqueueJob_sets_mem {q : Queue} {job : Job} {b : Bool} {now : Nat} {s : Store}
    {K : SetKey} {k : String} (h : k ∈ (q.enqueueJob job b now s).2.sets K) :
    k ∈ s.sets K ∨ (K = q.cls.redisQueuesKeys ∧ k = q.key) := by
  by_cases hK : K = q.cls.redisQueuesKeys
  · subst hK
    rw [Queue.enqueueJob_snd] at h
    unfold Store.sadd at h
    split at h <;> split at h <;> simp_all [Job.save, Store.rpush]
  · exact .inl (q.enqueueJob_sets job b now s hK ▸ h)

/-- `enqueue_job` removes no member of any set. -/
theorem Queue.enqueueJob_sets_subset {q : Queue} {job : Job} {b : Bool} {now : Nat} {s : Store}
    {K : SetKey} {k : String} (hk : k ∈ s.sets K) :
    k ∈ (q.enqueueJob job b now s).2.sets K := by
  by_cases hK : K = q.cls.redisQueuesKeys
  · subst hK
    rw [Queue.enqueueJob_snd]
    unfold Store.sadd
    split <;> split <;> simp [Job.save, Store.rpush, hk]
  · exact (q.enqueueJob_sets job b now s hK).symm ▸ hk

/-- Every member of `rq:queues` is a plain-queue key. -/
def Store.RegistryPlain (s : Store) : Prop := ∀ k ∈ s.sets .queues, PlainKey k

/-- The key a queue registers in `rq:queues` is a plain-queue key unless it is a `WIPQueue`. -/
theorem Queue.key_plain {q : Queue} (hw : q.cls ≠ .wipQueue)
    (hK : q.cls.redisQueuesKeys = .queues) : PlainKey q.key :=
  ⟨q.name, by cases hc : q.cls <;> simp_all [Queue.key, QueueClass.redisQueueNamespacePrefix,
    QueueClass.redisQueuesKeys]⟩

theorem Store.Writes.registryPlain (hQ : ∀ q, Q q → q.cls ≠ .wipQueue) {s s' : Store}
    (h : Store.Writes Q s s') (hr : s.RegistryPlain) : s'.RegistryPlain := by
  induction h with
  | lists h => exact fun k hk => hr k (h.1 ▸ hk)
  | save => exact hr
  | setStatus s id st => exact fun k hk => hr k (Job.setStatus_sets s id st ▸ hk)
  | setSet _ _ h₁ => exact fun k hk => hr k (by simpa [Ne.symm h₁] using hk)
  | cancel => exact hr
  | enqueueJob _ _ _ _ hq =>
    exact fun k hk => (Queue.enqueueJob_sets_mem hk).elim (hr k) fun ⟨hK, hk⟩ =>
      hk ▸ Queue.key_plain (hQ _ hq) hK.symm
  | trans _ _ ih ih' => exact ih' (ih hr)

/-- No write removes a member of `rq:queues` or `rq:donequeues`. -/
theorem Store.Writes.registry_mono {s s' : Store} (h : Store.Writes Q s s') {K : SetKey}
    (hK : K = .queues ∨ K = .donequeues) {k : String} (hk : k ∈ s.sets K) :
    k ∈ s'.sets K := by
  induction h with
  | lists h => exact h.1 ▸ hk
  | save => exact hk
  | setStatus s id st => exact (Job.setStatus_sets s id st).symm ▸ hk
  | @setSet _ K' _ h₁ h₂ =>
    have hne : K ≠ K' := by rcases hK with rfl | rfl <;> exact Ne.symm ‹_›
    simpa [hne] using hk
  | cancel => exact hk
  | enqueueJob => exact Queue.enqueueJob_sets_subset hk
  | trans _ _ ih ih' => exact ih' (ih hk)

end Writes

/-! ## Calls of the child queues -/

/-- The sorted set under `k` holds, for each member, the one entry its deadline in `m` gives. -/
def Store.ZsetHolds (s : Store) (k : String) (m : String → Option Nat) : Prop :=
  ∀ x, s.zentries k x = ((m x).map fun r => (x, r)).toList

/-- The deadlines after one call, as the child queues' methods say: `add_job` sets the job's,
    `remove_job` drops the job's, `remove_expired_jobs` at `now` drops every one at most `now`. -/
def Op.deadlines (k : String) (m : String → Option Nat) : Op → String → Option Nat
  | .addJob q job now => fun x =>
    if q.key = k ∧ job.id = x then some (ChildQueue.rank q job now) else m x
  | .removeJob q job => fun x => if q.key = k ∧ x = job.text then none else m x
  | .removeExpiredJobs q now => fun x => if q.key = k then (m x).filter (now < ·) else m x
  | _ => m

/-- The keys a call deletes or moves whatever the type of their value: the `DEL` of `empty`, and
    both keys of the `RENAME` of `compact`. -/
def Op.dropsKeys : Op → List String
  | .empty q => [q.key]
  | .compact q uuid => [q.key, q.compactKey uuid]
  | _ => []

theorem Store.zentries_setZset_ne (s : Store) {k k' : String} (h : k ≠ k')
    (z : List (String × Nat)) (x : String) : (s.setZset k' z).zentries k x = s.zentries k x := by
  simp [Store.zentries, h]

theorem Store.ZsetHolds.of_zsets {s s' : Store} {k : String} {m : String → Option Nat}
    (h : s.ZsetHolds k m) (hz : s'.zsets = s.zsets) : s'.ZsetHolds k m := fun x => by
  rw [Store.zentries, hz]; exact h x

/-- One call keeps the sorted set under `k` in step with its deadlines. -/
theorem Op.run_zsetHolds (op : Op) {s : Store} {k : String} {m : String → Option Nat}
    (h : s.ZsetHolds k m) : (op.run s).ZsetHolds k (op.deadlines k m) := by
  cases op
  case addJob q job now =>
    intro x
    by_cases hk : q.key = k
    · subst hk
      by_cases hx : job.id = x <;> simp [Op.run, Op.deadlines, ChildQueue.addJob_zentries, hx, h x]
    · simp [Op.run, Op.deadlines, ChildQueue.addJob, Store.zadd,
        Store.zentries_setZset_ne _ (Ne.symm hk), hk, h x]
  case removeJob q job =>
    intro x
    by_cases hk : q.key = k
    · subst hk
      by_cases hx : x = job.text <;>
        simp [Op.run, Op.deadlines, WIPQueue.removeJob_zentries, hx, h x]
    · simp [Op.run, Op.deadlines, WIPQueue.removeJob, Store.zrem,
        Store.zentries_setZset_ne _ (Ne.symm hk), hk, h x]
  case removeExpiredJobs q now =>
    intro x
    by_cases hk : q.key = k
    · subst hk
      rw [Op.run, WIPQueue.removeExpiredJobs_zentries, h x]
      simp only [Op.deadlines, if_true]
      cases m x with
      | none => simp
      | some r =>
        by_cases hr : r ≤ now
        · simp [hr, Option.filter, Nat.not_lt.mpr hr]
        · simp [hr, Option.filter, Nat.lt_of_not_le hr]
    · simp only [Op.run, WIPQueue.removeExpiredJobs]
      split <;> simp [Op.deadlines, Store.zrem, Store.zentries_setZset_ne _ (Ne.symm hk), hk, h x]
  all_goals exact h.of_zsets (Op.run_writes _ s (by rfl)).zsets

/-- A call of a child queue writes its sorted set and nothing else. -/
theorem Op.run_of_zsetKey {op : Op} {k : String} (h : op.zsetKey = some k) (s : Store) :
    (op.run s).sets = s.sets ∧ (op.run s).records = s.records := by
  cases op
  case addJob | removeJob => exact ⟨rfl, rfl⟩
  case removeExpiredJobs q now =>
    simp only [Op.run, WIPQueue.removeExpiredJobs]
    split <;> exact ⟨rfl, rfl⟩
  all_goals exact Option.noConfusion h

/-! ## Every run -/

theorem Op.run_keyed (op : Op) {s : Store} (hk : s.WellKeyed) : (op.run s).WellKeyed := by
  cases hz : op.zsetKey with
  | none => exact (op.run_writes s hz).keyed hk
  | some k => exact hk.of_records (Op.run_of_zsetKey hz s).2

theorem runOps_keyed (ops : List Op) (s : Store) (hk : s.WellKeyed) :
    (runOps ops s).WellKeyed ∧
      ∀ x job, Job.fetch (runOps ops s) x = .ok job → job.id = x := by
  have h : (runOps ops s).WellKeyed := by
    induction ops generalizing s with
    | nil => exact hk
    | cons op ops ih => exact ih _ (op.run_keyed hk)
  exact ⟨h, fun _ _ => h.fetch⟩

theorem Op.run_registryPlain (op : Op) (hop : ∀ q, op.enqueuesOn q → q.cls ≠ .wipQueue)
    {s : Store} (hr : s.RegistryPlain) : (op.run s).RegistryPlain := by
  cases hz : op.zsetKey with
  | none => exact (op.run_writes s hz).registryPlain hop hr
  | some k => exact fun x hx => hr x ((Op.run_of_zsetKey hz s).1 ▸ hx)

theorem runOps_registryPlain (ops : List Op) {s : Store}
    (hops : ∀ op ∈ ops, ∀ q, op.enqueuesOn q → q.cls ≠ .wipQueue) (hr : s.RegistryPlain) :
    (runOps ops s).RegistryPlain := by
  induction ops generalizing s with
  | nil => exact hr
  | cons op ops ih =>
    exact ih (fun o ho => hops o (.tail _ ho)) (op.run_registryPlain (hops op (.head _)) hr)

theorem runOps_registry_plain (ops : List Op) (s : Store)
    (hops : ∀ op ∈ ops, ∀ q, op.enqueuesOn q → q.cls ≠ .wipQueue) (hr : s.RegistryPlain) :
    (runOps ops s).RegistryPlain ∧
      (Queue.all (runOps ops s)).map (·.map Queue.key) =
        .ok (((runOps ops s).sets .queues).filter (· ≠ "")) :=
  ⟨runOps_registryPlain ops hops hr, all_keys_of_plain _ (runOps_registryPlain ops hops hr)⟩

theorem runOps_registry_plain_failed :
    (let s := runOps [.enqueueCall (Queue.new "a") {} "x" 0, .quarantine { id := "y" } "boom" 0,
        .requeue "y" 1] Store.empty;
      s.RegistryPlain ∧
        (Queue.all s).map (·.map Queue.key) = .ok ((s.sets .queues).filter (· ≠ ""))) :=
  runOps_registry_plain _ _ (fun op hop q hq => by
    simp only [List.mem_cons, List.mem_singleton, List.not_mem_nil, or_false] at hop
    rcases hop with rfl | rfl | rfl
    · rw [hq]; decide
    · rw [hq]; decide
    · rw [show q.cls = .queue from hq]; decide)
    fun _ h => nomatch h

theorem Op.run_registry_mono (op : Op) (s : Store) {K : SetKey}
    (hK : K = .queues ∨ K = .donequeues) {k : String} (hk : k ∈ s.sets K) :
    k ∈ (op.run s).sets K := by
  cases hz : op.zsetKey with
  | none => exact (op.run_writes s hz).registry_mono hK hk
  | some k' => exact (Op.run_of_zsetKey hz s).1 ▸ hk

theorem runOps_registry_mono (ops : List Op) {s : Store} {K : SetKey}
    (hK : K = .queues ∨ K = .donequeues) {k : String} (hk : k ∈ s.sets K) :
    k ∈ (runOps ops s).sets K := by
  induction ops generalizing s with
  | nil => exact hk
  | cons op ops ih => exact ih (op.run_registry_mono s hK hk)

theorem runOps_registry_grows (ops : List Op) (s : Store) :
    (∀ k ∈ s.sets .queues, k ∈ (runOps ops s).sets .queues) ∧
      ∀ k ∈ s.sets .donequeues, k ∈ (runOps ops s).sets .donequeues :=
  ⟨fun _ => runOps_registry_mono ops (.inl rfl), fun _ => runOps_registry_mono ops (.inr rfl)⟩

/-- No queue key is empty: each starts with its class's prefix. -/
theorem Queue.key_ne_empty (q : Queue) : q.key ≠ "" := fun h => by
  have hp : 0 < q.cls.redisQueueNamespacePrefix.length := by cases q.cls <;> decide
  have hl := congrArg String.length h
  rw [Queue.key, String.length_append] at hl
  exact absurd hl (by rw [show "".length = 0 from rfl]; omega)

theorem all_sees_enqueued (pre post : List Op) (s : Store) (q : Queue) (job : Job) (b : Bool)
    (now : Nat)
    (hops : ∀ op ∈ pre ++ .enqueueJob q job b now :: post, ∀ q', op.enqueuesOn q' →
      q'.cls ≠ .wipQueue)
    (hr : s.RegistryPlain) (hK : q.cls.redisQueuesKeys = .queues) :
    ∃ qs, Queue.all (runOps (pre ++ .enqueueJob q job b now :: post) s) = .ok qs ∧
      q.key ∈ qs.map Queue.key := by
  have hin : q.key ∈ (runOps (pre ++ .enqueueJob q job b now :: post) s).sets .queues := by
    rw [runOps_append, runOps_cons]
    exact runOps_registry_mono post (.inl rfl) (hK ▸ enqueueJob_registers q job b now _)
  have hall := all_keys_of_plain _ (runOps_registryPlain _ hops hr)
  cases h : Queue.all (runOps (pre ++ .enqueueJob q job b now :: post) s) with
  | error e => simp [h, Except.map] at hall
  | ok qs =>
    simp only [h, Except.map, Except.ok.injEq] at hall
    exact ⟨qs, rfl, hall ▸ List.mem_filter.2 ⟨hin, by simpa using q.key_ne_empty⟩⟩

theorem all_sees_enqueued_dequeued :
    (let q := Queue.new "a";
      ∃ qs, Queue.all (runOps ([] ++ .enqueueJob q { id := "x" } true 0 :: [.dequeue q 0])
        Store.empty) = .ok qs ∧ q.key ∈ qs.map Queue.key) :=
  all_sees_enqueued [] [.dequeue (Queue.new "a") 0] Store.empty (Queue.new "a") { id := "x" } true
    0
    (fun op hop q hq => by
      simp only [List.nil_append, List.mem_cons, List.mem_singleton, List.not_mem_nil,
        or_false] at hop
      rcases hop with rfl | rfl
      · rw [hq]; decide
      · exact hq.elim)
    (fun _ h => nomatch h) rfl

theorem runOps_zsetHolds (ops : List Op) {s : Store} {k : String} {m : String → Option Nat}
    (h : s.ZsetHolds k m) :
    (runOps ops s).ZsetHolds k (ops.foldl (fun m op => op.deadlines k m) m) := by
  induction ops generalizing s m with
  | nil => exact h
  | cons op ops ih => exact ih (op.run_zsetHolds h)

theorem Store.ZsetHolds.zscore {s : Store} {k : String} {m : String → Option Nat}
    (h : s.ZsetHolds k m) (x : String) : s.zscore k x = m x := by
  rw [Store.zscore_eq_zentries, h x]; cases m x <;> rfl

theorem Store.ZsetHolds.removeJob_le_one {s : Store} {q : Queue} {m : String → Option Nat}
    (h : s.ZsetHolds q.key m) (job : JobOrId) : (WIPQueue.removeJob q job s).1 ≤ 1 := by
  rw [(WIPQueue.removeJob_zentries q job s job.text).1, h]; cases m job.text <;> simp

/-- The sorted set under `k` follows the deadlines over any calls. The store keeps lists and
    sorted sets apart, where Redis keeps one value per key: the hypotheses are the runs on which
    the two agree, with no list under `k` before any call (a list there makes `ZADD` raise
    `WRONGTYPE`) and no call that deletes or renames `k`. The model needs neither. -/
theorem child_deadlines_run (ops : List Op) (s : Store) (k : String) (m : String → Option Nat)
    (h : s.ZsetHolds k m) (_hlist : ∀ n, (runOps (ops.take n) s).lists k = [])
    (_hdrop : ∀ op ∈ ops, k ∉ op.dropsKeys) :
    (runOps ops s).ZsetHolds k (ops.foldl (fun m op => op.deadlines k m) m) ∧
      (∀ x, (runOps ops s).zscore k x = ops.foldl (fun m op => op.deadlines k m) m x) ∧
      ∀ q job, q.key = k → (WIPQueue.removeJob q job (runOps ops s)).1 ≤ 1 := by
  have hr := runOps_zsetHolds ops h
  exact ⟨hr, hr.zscore, fun q job hq => (hq ▸ hr).removeJob_le_one job⟩

theorem child_deadlines_run_wip :
    (let wq := WIPQueue.ofParent (Queue.new "a");
      let ops := [Op.addJob wq { id := "j" } 0, .addJob wq { id := "k" } 500,
        .removeExpiredJobs wq 200];
      let m := ops.foldl (fun m op => op.deadlines wq.key m) fun _ => none;
      let s := runOps ops Store.empty;
      s.ZsetHolds wq.key m ∧ (∀ x, s.zscore wq.key x = m x) ∧
        ∀ q job, q.key = wq.key → (WIPQueue.removeJob q job s).1 ≤ 1) :=
  child_deadlines_run _ Store.empty _ _ (fun _ => rfl)
    (fun n => by rcases n with _ | _ | _ | _ | n <;> rfl) (by decide)

/-! ## Stored IDs keep their records -/

/-- The sets whose members are job IDs: `rq:deferred` and every job's dependents set. -/
def SetKey.holdsJobs : SetKey → Bool
  | .deferred => true
  | .dependents _ => true
  | _ => false

theorem QueueClass.redisQueuesKeys_holdsJobs (c : QueueClass) :
    c.redisQueuesKeys.holdsJobs = false := by
  cases c <;> rfl

/-- Every member of `rq:deferred` and of every dependents set has a record. -/
def Store.JobSetsSaved (s : Store) : Prop :=
  ∀ k x, k.holdsJobs = true → x ∈ s.sets k → Job.exists s x = true

/-- Every record of the first store is still there, every ID the second store lists was listed
    (under some key) in the first or has a record in the second, and every ID the second holds
    in a job set was held in that set in the first or has a record in the second. -/
def Store.KeepsSaved (s s' : Store) : Prop :=
  (∀ x, Job.exists s x = true → Job.exists s' x = true) ∧
    (∀ k x, x ∈ s'.lists k → (∃ k', x ∈ s.lists k') ∨ Job.exists s' x = true) ∧
    ∀ k x, k.holdsJobs = true → x ∈ s'.sets k → x ∈ s.sets k ∨ Job.exists s' x = true

namespace Store.KeepsSaved

theorem refl (s : Store) : KeepsSaved s s :=
  ⟨fun _ h => h, fun k _ h => .inl ⟨k, h⟩, fun _ _ _ h => .inl h⟩

theorem trans {s s' s'' : Store} (h : KeepsSaved s s') (h' : KeepsSaved s' s'') :
    KeepsSaved s s'' :=
  ⟨fun x hx => h'.1 x (h.1 x hx),
    fun k x hx => (h'.2.1 k x hx).elim
      (fun ⟨k', hx⟩ => (h.2.1 k' x hx).imp id (h'.1 x)) .inr,
    fun k x hk hx => (h'.2.2 k x hk hx).elim (fun hx => (h.2.2 k x hk hx).imp id (h'.1 x)) .inr⟩

/-- A store the relation reaches from one whose job sets are saved has its job sets saved. -/
theorem jobSetsSaved {s s' : Store} (h : KeepsSaved s s') (hs : s.JobSetsSaved) :
    s'.JobSetsSaved :=
  fun k x hk hx => (h.2.2 k x hk hx).elim (fun hx => h.1 x (hs k x hk hx)) id

/-- A write that removes IDs from lists and job sets and keeps every record. -/
theorem of_sub {s s' : Store} (hr : ∀ x, Job.exists s x = true → Job.exists s' x = true)
    (hl : ∀ k, s'.lists k ⊆ s.lists k)
    (hs : ∀ k, k.holdsJobs = true → s'.sets k ⊆ s.sets k) : KeepsSaved s s' :=
  ⟨hr, fun k _ hx => .inl ⟨k, hl k hx⟩, fun k _ hk hx => .inl (hs k hk hx)⟩

theorem of_records {s s' : Store} (hr : s'.records = s.records)
    (hl : ∀ k, s'.lists k ⊆ s.lists k)
    (hs : ∀ k, k.holdsJobs = true → s'.sets k ⊆ s.sets k) : KeepsSaved s s' :=
  of_sub (fun x h => by simpa [Job.exists, hr] using h) hl hs

/-- A write of the sorted sets only. -/
theorem zsetsOnly {s s' : Store} (hl : s'.lists = s.lists) (hs : s'.sets = s.sets)
    (hr : s'.records = s.records) : KeepsSaved s s' :=
  of_records hr (fun _ => hl ▸ List.Subset.refl _) fun _ _ => hs ▸ List.Subset.refl _

theorem save (s : Store) (job : Job) : KeepsSaved s (Job.save s job) :=
  of_sub (fun x h => by by_cases hx : x = job.id <;> simp_all [Job.exists, Job.save])
    (fun _ => List.Subset.refl _) (fun _ _ => List.Subset.refl _)

theorem setStatus (s : Store) (id : String) (st : Status) :
    KeepsSaved s (Job.setStatus s id st) := by
  unfold Job.setStatus
  split
  · exact refl s
  · exact of_sub (fun x h => by by_cases hx : x = id <;> simp_all [Job.exists])
      (fun _ => List.Subset.refl _) (fun _ _ => List.Subset.refl _)

/-- `SADD` to a set that holds no job IDs. -/
theorem sadd (s : Store) {k : SetKey} (hk : k.holdsJobs = false) (v : String) :
    KeepsSaved s (s.sadd k v) :=
  of_records (Store.sadd_records s k v) (fun k' => by simp) fun k' hk' y hy =>
    (Store.mem_sadd.1 hy).resolve_right fun ⟨he, _⟩ => by simp [he, hk] at hk'

/-- `SADD` of an ID, then `save` of the job with that ID. -/
theorem saddSave (s : Store) (k : SetKey) {v : String} (job : Job) (hv : job.id = v) :
    KeepsSaved s (Job.save (s.sadd k v) job) :=
  ⟨fun x h => (save _ job).1 x (by simpa [Job.exists] using h),
    fun k' y hy => .inl ⟨k', by simpa [Job.save] using hy⟩, fun k' y _ hy => by
    rw [Job.save, Store.setRecord_sets, Store.mem_sadd] at hy
    rcases hy with hy | ⟨-, rfl⟩
    exacts [.inl hy, .inr (by simp [Job.exists, Job.save, hv])]⟩

theorem setList (s : Store) (k : String) {xs : List String} (h : xs ⊆ s.lists k) :
    KeepsSaved s (s.setList k xs) :=
  of_records rfl (fun k' => by by_cases hk : k' = k <;> simp [hk, h])
    (fun _ _ => List.Subset.refl _)

/-- `RPUSH` of an ID that has a record. -/
theorem rpush {s : Store} (k : String) {x : String} (hx : Job.exists s x = true) :
    KeepsSaved s (s.rpush k x) :=
  ⟨fun _ h => h, fun k' y hy => by
    by_cases hk : k' = k
    · subst hk
      simp only [Store.rpush_lists, if_true, List.mem_append, List.mem_singleton] at hy
      rcases hy with hy | rfl
      exacts [.inl ⟨_, hy⟩, .inr hx]
    · exact .inl ⟨k', by simpa [hk] using hy⟩, fun _ _ _ hy => .inl hy⟩

theorem lpop (s : Store) (k : String) : KeepsSaved s (s.lpop k).2 := by
  unfold Store.lpop; split
  · exact refl s
  · exact setList s k (by simp [*])

/-- An `LPOP`, then an `RPUSH` of the ID it returned: the ID was listed before. -/
theorem lpop_rpush {s s' : Store} {k x : String} (h : s.lpop k = (some x, s')) (k' : String) :
    KeepsSaved s (s'.rpush k' x) := by
  unfold Store.lpop at h
  split at h
  · cases h
  · rename_i xs hl
    cases h
    have hsub : ∀ k'', (s.setList k xs).lists k'' ⊆ s.lists k'' := fun k'' => by
      by_cases hk : k'' = k <;> simp [hk, hl]
    refine ⟨fun _ h => h, fun k'' y hy => .inl ?_, fun _ _ _ hy => .inl hy⟩
    by_cases hk : k'' = k'
    · subst hk
      rw [Store.rpush_lists, if_pos rfl, List.mem_append, List.mem_singleton] at hy
      rcases hy with hy | rfl
      exacts [⟨_, hsub _ hy⟩, ⟨k, by simp [hl]⟩]
    · exact ⟨k'', hsub _ (by simpa [hk] using hy)⟩

/-- `RENAME` moves a list to another key. -/
theorem rename {s s' : Store} {src dst : String} (h : s.rename src dst = .ok s') :
    KeepsSaved s s' := by
  unfold Store.rename at h
  split at h
  · cases h
  · cases h
    refine ⟨fun _ h => h, fun k x hx => .inl ?_, fun _ _ _ hx => .inl hx⟩
    simp only [Store.setList_lists] at hx
    split_ifs at hx
    exacts [⟨src, hx⟩, absurd hx (List.not_mem_nil x), ⟨k, hx⟩]

theorem srem (s : Store) (k : SetKey) (v : String) : KeepsSaved s (s.srem k v).2 :=
  of_records rfl (fun _ => List.Subset.refl _) fun k' _ => by
    by_cases hk : k' = k <;> simp [Store.srem, hk, List.filter_subset']

theorem spop (s : Store) (k : SetKey) (p : Nat) : KeepsSaved s (s.spop k p).2 :=
  of_records (Store.spop_records s k p) (fun _ => Store.spop_lists s k p ▸ List.Subset.refl _)
    fun k' _ => Store.spop_sets_subset s k k' p

/-- `enqueue_job` saves the job before it pushes its ID, and adds to no set but the registry. -/
theorem enqueueJob (q : Queue) (job : Job) (b : Bool) (now : Nat) (s : Store) :
    KeepsSaved s (q.enqueueJob job b now s).2 := by
  have h := (sadd s (QueueClass.redisQueuesKeys_holdsJobs q.cls) q.key).trans
    (save _ (q.jobMeta job b now))
  rw [Queue.enqueueJob_snd]
  split
  · exact h.trans (rpush _ (by simp [Job.exists, Job.save]))
  · exact h

theorem blpop (s : Store) (keys : List String) : KeepsSaved s (s.blpop keys).2 := by
  rcases hb : s.blpop keys with ⟨_ | ⟨k, x⟩, s'⟩
  · rw [Store.blpop_none hb]; exact refl s
  · obtain ⟨-, xs, hx, rfl⟩ := Store.blpop_some hb
    exact setList s k (by simp [hx])

theorem lpopKeys (keys : List String) (t : Option Nat) (s : Store) :
    KeepsSaved s (Queue.lpopKeys keys t s).2 := by
  have h := blpop s keys
  rcases hb : s.blpop keys with ⟨r, s'⟩
  rw [hb] at h
  rcases t with _ | t
  · simpa [Queue.lpopKeys, Store.lpopFirst_eq_blpop, hb] using h
  · by_cases ht : t = 0
    · simpa [Queue.lpopKeys, ht] using refl s
    · by_cases hk : keys = []
      · simpa [Queue.lpopKeys, ht, hk] using refl s
      · rcases r with _ | r <;> simpa [Queue.lpopKeys, ht, hk, hb] using h

theorem lrem (s : Store) (k v : String) : KeepsSaved s (s.lrem k v).2 :=
  setList s k (List.filter_subset' _)

theorem deferOrEnqueue (q : Queue) (job : Job) (now : Nat) (s : Store) :
    KeepsSaved s (Prod.snd <| q.deferOrEnqueue job now s) := by
  unfold Queue.deferOrEnqueue Queue.deferJob
  split
  exacts [saddSave _ _ _ (Queue.jobMeta_id q job true now), enqueueJob q job true now s]

end Store.KeepsSaved

/-- No call but `push_job_id` lists an ID without a record, none adds an ID to `rq:deferred` or to
    a dependents set without saving its job in the same call, and none deletes a record. -/
theorem Op.run_keepsSaved (op : Op) (hpush : ∀ q x, op ≠ .pushJobId q x)
    (hempty : ∀ q, op ≠ .empty q) (s : Store) : Store.KeepsSaved s (op.run s) := by
  cases op with
  | enqueueCall q o id now =>
    simp only [Op.run, Queue.enqueueCall]
    split
    · exact .refl s
    · split
      · exact .saddSave s _ _ rfl
      · exact .deferOrEnqueue q _ now s
    · exact .deferOrEnqueue q _ now s
  | enqueueJob q job b now => exact .enqueueJob q job b now s
  | deferJob q job b now => exact .saddSave s _ _ (Queue.jobMeta_id q job b now)
  | pushJobId q x => exact absurd rfl (hpush q x)
  | empty q => exact absurd rfl (hempty q)
  | remove q x => exact .lrem s _ _
  | enqueueDependents q job pick now =>
    exact Queue.enqueueDependents_preserves q job pick now _
      (fun s' p hs => hs.trans (.spop s' _ p))
      (fun s' j hs => hs.trans (.enqueueJob q j true now s')) s (.refl s)
  | releaseJob j target now =>
    simp only [Op.run]; unfold Rq.releaseJob
    split
    · exact .refl s
    · rename_i job _
      split
      · exact .refl s
      · have h₀ := Store.KeepsSaved.srem s .deferred job.id
        rcases hr : s.srem .deferred job.id with ⟨r, s'⟩
        rw [hr] at h₀
        dsimp only
        split
        · exact h₀
        · exact (h₀.trans (.save _ _)).trans (.enqueueJob _ _ true now _)
  | quarantine job e now => exact .enqueueJob _ _ false now s
  | requeue x now =>
    simp only [Op.run, FailedQueue.requeue]
    split
    · exact .lrem s _ _
    · exact .refl s
    · rename_i job _
      simp only [Queue.remove]
      have h := Store.KeepsSaved.lrem s FailedQueue.new.key job.id
      rcases hl : s.lrem FailedQueue.new.key job.id with ⟨r, s'⟩
      rw [hl] at h
      dsimp only
      split
      · exact h
      · exact h.trans (.enqueueJob _ _ true now _)
  | dequeue q frames =>
    simp only [Op.run, Queue.dequeue_eq]
    split
    · exact .setList s _ (List.drop_subset _ _)
    · split
      · exact .setList s _ (List.nil_subset _)
      · rename_i x rest hd
        exact .setList s _ fun y hy =>
          (List.dropWhile_suffix _).subset (hd ▸ List.mem_cons_of_mem x hy)
  | dequeueAny qs t frames =>
    exact Queue.dequeueAny_preserves qs t _ (fun s' hs => hs.trans (.lpopKeys _ t s')) frames s
      (.refl s)
  | getJobs q offset length =>
    exact q.getJobs_preserves _ (fun s' x hs => hs.trans (.lrem s' _ x)) offset length (.refl s)
  | compact q uuid =>
    simp only [Op.run]
    split
    · exact q.compact_preserves _ uuid _ (fun _ _ h₁ h₂ => h₁.trans (.rename h₂))
        (fun s' h₁ => h₁.trans (.lpop s' _)) (fun _ _ _ h₁ hp => h₁.trans (.lpop_rpush hp _))
        (.refl s) ‹_›
    · exact .refl s
  | setStatus x st => exact .setStatus s x st
  | addJob q job now => exact .zsetsOnly rfl rfl rfl
  | removeJob q job => exact .zsetsOnly rfl rfl rfl
  | removeExpiredJobs q now =>
    simp only [Op.run, WIPQueue.removeExpiredJobs]
    split <;> exact .zsetsOnly rfl rfl rfl

theorem runOps_keepsSaved (ops : List Op)
    (hops : ∀ op ∈ ops, (∀ q x, op ≠ .pushJobId q x) ∧ ∀ q, op ≠ .empty q) (s : Store) :
    Store.KeepsSaved s (runOps ops s) := by
  induction ops generalizing s with
  | nil => exact .refl s
  | cons op ops ih =>
    exact (op.run_keepsSaved (hops op (.head _)).1 (hops op (.head _)).2 s).trans
      (ih (fun op h => hops op (.tail _ h)) (op.run s))

/-- From a store whose listed IDs all have records, a sequence of calls without `push_job_id`,
    which lists an ID it does not save, and without `empty`, which deletes the records of the
    jobs it removes, deletes no record and leaves every listed ID with one; so `dequeue` on any
    queue then pops exactly the head of its list, skipping no ID as missing. -/
theorem runOps_listed_saved (ops : List Op)
    (hops : ∀ op ∈ ops, (∀ q x, op ≠ .pushJobId q x) ∧ ∀ q, op ≠ .empty q)
    (s : Store) (hs : ∀ k, ∀ x ∈ s.lists k, Job.exists s x = true) :
    (∀ x, Job.exists s x = true → Job.exists (runOps ops s) x = true) ∧
      (∀ k, ∀ x ∈ (runOps ops s).lists k, Job.exists (runOps ops s) x = true) ∧
      ∀ (q : Queue) (frames : Nat),
        (q.dequeue frames (runOps ops s)).2.lists q.key = ((runOps ops s).lists q.key).tail := by
  have hk := runOps_keepsSaved ops hops s
  have hlisted : ∀ k, ∀ x ∈ (runOps ops s).lists k, Job.exists (runOps ops s) x = true :=
    fun k x hx => (hk.2.1 k x hx).elim (fun ⟨k', h⟩ => hk.1 x (hs k' x h)) id
  refine ⟨hk.1, hlisted, fun q frames => ?_⟩
  rw [Queue.dequeue_eq]
  cases hl : (runOps ops s).lists q.key with
  | nil => simp
  | cons x rest => simp [hlisted q.key x (by simp [hl])]

theorem runOps_listed_saved_compact :
    (let q := Queue.new "default";
      let s := runOps [.enqueueCall q {} "a" 0, .quarantine { id := "b" } "boom" 0,
        .compact q "u", .dequeue q 0] Store.empty;
      (∀ x, Job.exists Store.empty x = true → Job.exists s x = true) ∧
        (∀ k, ∀ x ∈ s.lists k, Job.exists s x = true) ∧
        ∀ (q : Queue) (frames : Nat), (q.dequeue frames s).2.lists q.key = (s.lists q.key).tail) :=
  runOps_listed_saved [.enqueueCall (Queue.new "default") {} "a" 0,
    .quarantine { id := "b" } "boom" 0, .compact (Queue.new "default") "u",
    .dequeue (Queue.new "default") 0]
    (fun op hop => ⟨fun q x h => by subst h; simp at hop, fun q h => by subst h; simp at hop⟩)
    Store.empty (fun _ _ h => nomatch h)

/-- Every call but `empty` keeps the job sets saved: `push_job_id` writes one list only. -/
theorem Op.run_jobSetsSaved (op : Op) (hop : ∀ q, op ≠ .empty q) {s : Store}
    (hs : s.JobSetsSaved) : (op.run s).JobSetsSaved := by
  by_cases hpush : ∀ q x, op ≠ .pushJobId q x
  · exact (op.run_keepsSaved hpush hop s).jobSetsSaved hs
  · simp only [not_forall, not_not] at hpush
    obtain ⟨q, x, rfl⟩ := hpush
    exact hs

theorem runOps_jobSetsSaved (ops : List Op) (hops : ∀ op ∈ ops, ∀ q, op ≠ .empty q) {s : Store}
    (hs : s.JobSetsSaved) : (runOps ops s).JobSetsSaved := by
  induction ops generalizing s with
  | nil => exact hs
  | cons op ops ih =>
    exact ih (fun op h => hops op (.tail _ h)) (op.run_jobSetsSaved (hops op (.head _)) hs)

/-- `enqueue_dependents` on a store whose job sets are saved raises no `NoSuchJobError`: each
    `SPOP` returns a member of the dependents set, which has a record, and each pass keeps the
    job sets saved. -/
theorem Queue.enqueueDependents_found (q : Queue) (job : Job) (pick : List String → Nat)
    (now : Nat) (s : Store) (hs : s.JobSetsSaved) (e : String) :
    (q.enqueueDependents job pick now s).1 ≠ .error (.noSuchJob e) := by
  induction s using Queue.enqueueDependents.induct q job pick now with
  | case1 s s' h =>
    rw [Queue.enqueueDependents, h]; simp
  | case2 s x s' h e' hf =>
    rw [Queue.enqueueDependents, h]
    simp only [hf, ne_eq, Except.error.injEq]
    rintro rfl
    have hx := hs (.dependents job.id) x rfl (Store.spop_some_mem h)
    exact Job.fetch_ne_noSuchJob (by simpa [Job.exists, (Store.spop_some h).2.2] using hx) e hf
  | case3 s x s' h d hf r e' he =>
    have he' : (q.enqueueJob d true now s').1 = .error e' := he
    rw [Queue.enqueueDependents, h]
    simp only [hf, he', ne_eq]
    obtain ⟨exc, rfl⟩ := Queue.enqueueJob_error he'
    exact nofun
  | case4 s x s' h d hf r j hj ih =>
    have hk := Store.KeepsSaved.spop s (.dependents job.id) (pick (s.sets (.dependents job.id)))
    have hj' : (q.enqueueJob d true now s').1 = .ok j := hj
    rw [h] at hk
    rw [Queue.enqueueDependents, h]
    simp only [hf, hj']
    exact ih ((hk.trans (.enqueueJob q d true now s')).jobSetsSaved hs)

/-- From a store where every member of `rq:deferred` and of every dependents set has a record,
    any sequence of calls without `empty`, `push_job_id` included, keeps it so: a call adds an ID
    to either set only in a call that saves its job, and only `empty` deletes records. So
    `enqueue_dependents` run after the calls raises no `NoSuchJobError`, for any job and any
    members `SPOP` returns. -/
theorem runOps_dependents_found (ops : List Op) (hops : ∀ op ∈ ops, ∀ q, op ≠ .empty q)
    (s : Store) (hs : s.JobSetsSaved) :
    (runOps ops s).JobSetsSaved ∧
      ∀ (q : Queue) (job : Job) (pick : List String → Nat) (now : Nat) (e : String),
        (q.enqueueDependents job pick now (runOps ops s)).1 ≠ .error (.noSuchJob e) :=
  have h := runOps_jobSetsSaved ops hops hs
  ⟨h, fun q job pick now => Queue.enqueueDependents_found q job pick now _ h⟩

theorem runOps_dependents_found_parked :
    (let q := Queue.new "default";
      let s := runOps [.enqueueCall q { dependsOn := some (.job "p") } "c" 0,
        .pushJobId q "ghost"] Store.empty;
      s.JobSetsSaved ∧ ∀ e, (q.enqueueDependents { id := "p" } (fun _ => 0) 0 s).1 ≠
        .error (.noSuchJob e)) :=
  have h := runOps_dependents_found [.enqueueCall (Queue.new "default")
    { dependsOn := some (.job "p") } "c" 0, .pushJobId (Queue.new "default") "ghost"]
    (fun op hop q h => by subst h; simp at hop) Store.empty (fun _ _ _ h => nomatch h)
  ⟨h.1, h.2 (Queue.new "default") { id := "p" } (fun _ => 0) 0⟩

end Rq
