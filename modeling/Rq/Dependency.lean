import Rq.Ops

/-
  The dependency and deferral protocol of `enqueue_call` and `enqueue_dependents`, one client
  at a time.

  * `enqueueCall_parks`: a child whose parent is not `FINISHED` is saved and added to the
    parent's dependents set, and nothing else changes: it is in no list and, even when
    created `DEFERRED` through `blocked_by`, not in `rq:deferred`.
  * `enqueueCall_list_parents`: with a list of parents (`depends_on=[...]` or
    `blocked_by=[...]`) the call raises `AttributeError` at `depends_on.key` and changes
    nothing; the tests pass such lists and expect the child to be parked.
  * `enqueueDependents_single`: draining a parent with one dependent enqueues that dependent on
    the queue that drains, with that queue's name as origin, and leaves its status as it was.
  * `enqueueDependents_drains`: on a store whose records sit under their own IDs, draining a
    parent whose dependents all have a record that decodes returns, for every order `SPOP`
    returns them in, when the draining queue is asynchronous or no dependent's function raises:
    the dependents set is left empty, each dependent's ID is appended once to the draining
    queue's list in that order (when the queue is asynchronous), and each dependent's record
    gets that queue's meta data.
  * `enqueueDependents_error_drops`: a drain that raises has already popped the dependent it
    failed on: that ID is gone from the parent's dependents set (a Redis set, without repeats),
    so the failure leaves partial state. The error is that ID's fetch error, or, on a
    synchronous queue, the exception of its function, its record saved.
  * `defer_release_round_trip`: `enqueue_call(deferred=True)` then `release_job(id)` leaves
    `rq:deferred` as it was and pushes the ID once onto `Queue(name)`'s list, the record
    `QUEUED` with the deferring queue's name as origin; the release goes to the plain
    asynchronous queue of that name even when the deferring queue is synchronous.
-/

namespace Rq

theorem Queue.enqueueDependents_nil (q : Queue) (job : Job) (pick : List String → Nat)
    (now : Nat) (s : Store) (h : s.sets (.dependents job.id) = []) :
    q.enqueueDependents job pick now s = (.ok (), s) := by
  rw [Queue.enqueueDependents]
  have : s.spop (.dependents job.id) (pick (s.sets (.dependents job.id))) = (none, s) := by
    simp [Store.spop, h]
  split <;> simp_all

theorem Queue.enqueueDependents_pop (q : Queue) (job : Job) (pick : List String → Nat)
    (now : Nat) {s s' : Store} {x : String} {dep : Job}
    (h : s.spop (.dependents job.id) (pick (s.sets (.dependents job.id))) = (some x, s'))
    (hf : Job.fetch s' x = .ok dep) (hok : q.isAsync = true ∨ dep.raises = none) :
    q.enqueueDependents job pick now s =
      q.enqueueDependents job pick now (q.enqueueJob dep true now s').2 := by
  rw [Queue.enqueueDependents]
  split <;> simp_all [Queue.enqueueJob_ok hok]

theorem Queue.enqueueDependents_single (q : Queue) (job : Job) (pick : List String → Nat)
    (now : Nat) {s : Store} {c : String} {dep : Job} (hset : s.sets (.dependents job.id) = [c])
    (hc : s.records c = some dep) (hdec : dep.decodes = true)
    (hok : q.isAsync = true ∨ dep.raises = none) :
    q.enqueueDependents job pick now s =
      (.ok (), (q.enqueueJob dep true now (s.setSet (.dependents job.id) [])).2) := by
  have hpop : s.spop (.dependents job.id) (pick (s.sets (.dependents job.id))) =
      (some c, s.setSet (.dependents job.id) []) := by
    simp [Store.spop, hset, Nat.mod_one]
  have hf : Job.fetch (s.setSet (.dependents job.id) []) c = .ok dep := by
    simp [Job.fetch, hc, hdec]
  rw [Queue.enqueueDependents_pop q job pick now hpop hf hok, Queue.enqueueDependents_nil]
  rw [Queue.enqueueJob_sets_dependents]
  simp

/-- The child parked by queue `b` on `p` is pushed onto the list of queue `a`, the queue that
    drains `p`, and takes `a` as origin. -/
theorem dependent_enqueued_on_draining_queue :
    (let s := runOps [.enqueueCall (Queue.new "b") { dependsOn := some (.job "p") } "c" 0,
        .setStatus "p" .finished, .enqueueDependents (Queue.new "a") { id := "p" } (fun _ => 0) 0]
        (Job.save Store.empty { id := "p", status := some .queued });
      "c" ∈ s.lists (Queue.new "a").key ∧ "c" ∉ s.lists (Queue.new "b").key ∧
        (s.records "c").bind (·.origin) = some "a") := by
  intro s
  have h : s = ((Queue.new "a").enqueueJob
      ((Queue.new "b").createJob { dependsOn := some (.job "p") } "c") true 0
      ((Job.setStatus ((Queue.new "b").enqueueCall { dependsOn := some (.job "p") } "c" 0
        (Job.save Store.empty { id := "p", status := some .queued })).2 "p" .finished).setSet
        (.dependents "p") [])).2 := by
    simp only [s, runOps_cons, runOps_nil, Op.run]
    rw [Queue.enqueueDependents_single _ _ _ _ (c := "c") (by rfl) (by rfl) rfl (.inl rfl)]
  rw [h]
  decide

/-- From an empty store: a child created `blocked_by` an unfinished job is `DEFERRED` but not in
    `rq:deferred`; once the parent finishes and is drained, the child is in the FIFO list and
    still `DEFERRED`. -/
theorem blocked_child_deferred_outside_deferred_set :
    (let q := Queue.new "default";
      let s₁ := runOps [.enqueueCall q {} "p" 0,
        .enqueueCall q { blockedBy := some (.job "p") } "c" 0] Store.empty;
      let s₂ := runOps [.setStatus "p" .finished,
        .enqueueDependents q { id := "p" } (fun _ => 0) 0] s₁;
      Job.getStatus s₁ "c" = some .deferred ∧ "c" ∉ s₁.sets .deferred ∧
        Job.getStatus s₂ "c" = some .deferred ∧ "c" ∈ s₂.lists q.key) := by
  intro q s₁ s₂
  have h : s₂ = (q.enqueueJob (q.createJob { blockedBy := some (.job "p") } "c") true 0
      ((Job.setStatus s₁ "p" .finished).setSet (.dependents "p") [])).2 := by
    simp only [s₂, runOps_cons, runOps_nil, Op.run]
    rw [Queue.enqueueDependents_single _ _ _ _ (c := "c") (by rfl) (by rfl) rfl (.inl rfl)]
  rw [h]
  decide

/-- Draining a parent whose dependents all have a record that decodes, for every order `SPOP`
    returns them in. -/
theorem enqueueDependents_drains (q : Queue) (job : Job) (pick : List String → Nat) (now : Nat)
    (s : Store) (hk : s.WellKeyed)
    (hdeps : ∀ x ∈ s.sets (.dependents job.id),
      ∃ d, s.records x = some d ∧ d.decodes = true ∧ (q.isAsync = true ∨ d.raises = none)) :
    ∃ order : List String, order.Perm (s.sets (.dependents job.id)) ∧
      (q.enqueueDependents job pick now s).1 = .ok () ∧
      (q.enqueueDependents job pick now s).2.sets (.dependents job.id) = [] ∧
      (∀ k, (q.enqueueDependents job pick now s).2.lists k =
        if k = q.key ∧ q.isAsync then s.lists k ++ order else s.lists k) ∧
      ∀ x, (q.enqueueDependents job pick now s).2.records x =
        if x ∈ s.sets (.dependents job.id) then (s.records x).map (q.jobMeta · true now)
        else s.records x := by
  induction s using Queue.enqueueDependents.induct q job pick now with
  | case1 s s' h =>
    obtain ⟨rfl, hD⟩ := Store.spop_none h
    rw [Queue.enqueueDependents_nil q job pick now s' hD]
    exact ⟨[], by rw [hD], rfl, hD, fun k => by split <;> simp, fun x => by simp [hD]⟩
  | case2 s x s' h e hf =>
    obtain ⟨hperm, -, hr⟩ := Store.spop_some h
    obtain ⟨d, hd, hdec, -⟩ := hdeps x (hperm.mem_iff.2 (List.mem_cons_self _ _))
    simp [Job.fetch, hr, hd, hdec] at hf
  | case3 s x s' h d hf r e he =>
    obtain ⟨hperm, -, hr⟩ := Store.spop_some h
    obtain ⟨hd, -⟩ := Job.fetch_eq_ok.1 hf
    obtain ⟨d', hd', -, hok⟩ := hdeps x (hperm.mem_iff.2 (List.mem_cons_self _ _))
    rw [hr, hd'] at hd
    cases hd
    simp [r, Queue.enqueueJob_ok hok] at he
  | case4 s x s' h d hf r j hj ih =>
    obtain ⟨hperm, hl, hr⟩ := Store.spop_some h
    obtain ⟨hd, hdec⟩ := Job.fetch_eq_ok.1 hf
    rw [hr] at hd
    have hdx : d.id = x := hk x d hd
    obtain ⟨d', hd', -, hok⟩ := hdeps x (hperm.mem_iff.2 (List.mem_cons_self _ _))
    rw [hd] at hd'
    cases hd'
    rw [Queue.enqueueDependents_pop q job pick now h hf hok]
    -- the rest of the drain runs on the store the first `enqueue_job` leaves
    set s₂ := (q.enqueueJob d true now s').2
    have hD₂ : s₂.sets (.dependents job.id) = s'.sets (.dependents job.id) :=
      Queue.enqueueJob_sets_dependents q d true now s' job.id
    have hrec₂ : ∀ z, s₂.records z =
        if z = x then some (q.jobMeta d true now) else s.records z := fun z => by
      rw [Queue.enqueueJob_records, hdx, hr]
    have hdeps₂ : ∀ z ∈ s₂.sets (.dependents job.id),
        ∃ d, s₂.records z = some d ∧ d.decodes = true ∧ (q.isAsync = true ∨ d.raises = none) := by
      intro z hz
      rw [hrec₂]
      split
      · exact ⟨_, rfl, by simpa using hdec, by simpa using hok⟩
      · exact hdeps z (hperm.mem_iff.2 (List.mem_cons_of_mem _ (hD₂ ▸ hz)))
    obtain ⟨order, hperm', hres, hset, hlists, hrecs⟩ :=
      ih ((hk.of_records hr).enqueueJob q d true now) hdeps₂
    refine ⟨x :: order, ((hD₂ ▸ hperm').cons x).trans hperm.symm, hres, hset,
      fun k => ?_, fun z => ?_⟩
    · rw [hlists k, Queue.enqueueJob_lists, hl, hdx]
      split <;> simp
    · simp only [hrecs z, hD₂, hrec₂, hperm.mem_iff, List.mem_cons]
      by_cases hz : z = x
      · simp [hz, hd]
      · simp [hz]

/-- Two dependents, `SPOP` taking the second first. -/
theorem enqueueDependents_drains_two :
    (let s := Job.save (Job.save ((Store.empty.sadd (.dependents "p") "a").sadd
        (.dependents "p") "b") { id := "a" }) { id := "b" };
      let r := (Queue.new "default").enqueueDependents { id := "p" } (fun _ => 1) 0 s;
      ∃ order : List String, order.Perm (s.sets (.dependents "p")) ∧
        r.1 = .ok () ∧ r.2.sets (.dependents "p") = [] ∧
        (∀ k, r.2.lists k =
          if k = (Queue.new "default").key ∧ (Queue.new "default").isAsync then s.lists k ++ order
          else s.lists k) ∧
        ∀ x, r.2.records x =
          if x ∈ s.sets (.dependents "p") then
            (s.records x).map ((Queue.new "default").jobMeta · true 0)
          else s.records x) :=
  enqueueDependents_drains (Queue.new "default") { id := "p" } (fun _ => 1) 0 _
    (fun x r h => by
      simp only [Job.save, Store.setRecord_records, Store.sadd_records] at h
      split at h
      · cases h; simp_all
      · split at h
        · cases h; simp_all
        · cases h)
    (fun x hx => by
      simp [Job.save, Store.sadd, Store.empty] at hx
      rcases hx with rfl | rfl
      exacts [⟨{ id := "a" }, by decide, rfl, .inl rfl⟩, ⟨{ id := "b" }, by decide, rfl, .inl rfl⟩])

/-- A drain that raises undoes nothing: its error is, on the store it leaves, the fetch error of
    a member of the dependents set it started with, or the exception of that member's function
    with its record saved; and that member is no longer in the set, so the store is not the one
    the drain started from. -/
theorem enqueueDependents_error_drops (q : Queue) (job : Job) (pick : List String → Nat)
    (now : Nat) (s : Store) (hk : s.WellKeyed) (hn : (s.sets (.dependents job.id)).Nodup)
    (e : RqError) (h : (q.enqueueDependents job pick now s).1 = .error e) :
    ∃ x ∈ s.sets (.dependents job.id),
      x ∉ (q.enqueueDependents job pick now s).2.sets (.dependents job.id) ∧
        (Job.fetch (q.enqueueDependents job pick now s).2 x = .error e ∨
          ∃ d, Job.fetch (q.enqueueDependents job pick now s).2 x = .ok d ∧
            d.perform = .error e) := by
  induction s using Queue.enqueueDependents.induct q job pick now with
  | case1 s s' hp =>
    rw [Queue.enqueueDependents, hp] at h
    cases h
  | case2 s x s' hp e' hf =>
    rw [Queue.enqueueDependents, hp] at h ⊢
    simp only [hf] at h ⊢
    cases h
    exact ⟨x, Store.spop_some_mem hp, (Store.spop_nodup hp hn).2, .inl hf⟩
  | case3 s x s' hp d hf r e' he =>
    have he' : (q.enqueueJob d true now s').1 = .error e' := he
    rw [Queue.enqueueDependents, hp] at h ⊢
    simp only [hf, he'] at h ⊢
    cases h
    obtain ⟨hd, hdec⟩ := Job.fetch_eq_ok.1 hf
    have hdx : d.id = x := (hk.of_records (Store.spop_some hp).2.2) x d hd
    rw [Queue.enqueueJob_fst, except_map_eq_error] at he'
    refine ⟨x, Store.spop_some_mem hp, ?_, .inr ⟨q.jobMeta d true now, ?_, ?_⟩⟩
    · rw [Queue.enqueueJob_sets_dependents]; exact (Store.spop_nodup hp hn).2
    · rw [Job.fetch_eq_ok, Queue.enqueueJob_records, if_pos hdx.symm]
      exact ⟨rfl, by simpa using hdec⟩
    · rw [Queue.jobMeta_perform]
      split at he'
      · cases he'
      · exact he'
  | case4 s x s' hp d hf r j hj ih =>
    rw [Queue.enqueueDependents, hp] at h ⊢
    simp only [hf, show (q.enqueueJob d true now s').1 = .ok j from hj] at h ⊢
    have hs' := Queue.enqueueJob_sets_dependents q d true now s' job.id
    obtain ⟨y, hy, hy', hfy⟩ :=
      ih ((hk.of_records (Store.spop_some hp).2.2).enqueueJob q d true now)
        (hs' ▸ (Store.spop_nodup hp hn).1) h
    have hsub := Store.spop_sets_subset s (.dependents job.id) (.dependents job.id)
      (pick (s.sets (.dependents job.id)))
    rw [hp] at hsub
    exact ⟨y, hsub (hs' ▸ hy), hy', hfy⟩

/-- On a synchronous queue, a dependent whose function raises is dropped from its parent's set,
    its record saved. -/
theorem enqueueDependents_error_drops_sync_raise :
    (let q := Queue.new "default" none false;
      let s := Job.save (Store.empty.sadd (.dependents "p") "c")
        { id := "c", raises := some "boom" };
      ∃ x ∈ s.sets (.dependents "p"),
        x ∉ (q.enqueueDependents { id := "p" } (fun _ => 0) 0 s).2.sets (.dependents "p") ∧
        (Job.fetch (q.enqueueDependents { id := "p" } (fun _ => 0) 0 s).2 x =
            .error (.jobRaised "boom") ∨
          ∃ d, Job.fetch (q.enqueueDependents { id := "p" } (fun _ => 0) 0 s).2 x = .ok d ∧
            d.perform = .error (.jobRaised "boom"))) :=
  enqueueDependents_error_drops (Queue.new "default" none false) { id := "p" } (fun _ => 0) 0 _
    (Store.WellKeyed.save (fun _ _ h => by simp [Store.empty] at h) _) (by decide)
    (.jobRaised "boom") (by rw [Queue.enqueueDependents]; rfl)

theorem enqueueCall_list_parents (q : Queue) (o : CallOptions) (id : String) (now : Nat)
    (s : Store) {ids : List String} (h : o.parents = some (.list ids)) :
    q.enqueueCall o id now s =
      (.error (.attributeError "'list' object has no attribute 'key'"), s) := by
  simp [Queue.enqueueCall, h]

/-- `depends_on=[p1]` with `p1` unfinished: the call raises, and after `p1` finishes and is
    drained the child is in no list. -/
theorem list_parents_never_enqueued :
    (let q := Queue.new "default";
      let s₀ := Job.save Store.empty { id := "p1", status := some .queued };
      let s := runOps [.enqueueCall q { dependsOn := some (.list ["p1"]) } "c" 0,
        .setStatus "p1" .finished, .enqueueDependents q { id := "p1" } (fun _ => 0) 0] s₀;
      (q.enqueueCall { dependsOn := some (.list ["p1"]) } "c" 0 s₀).1 =
          .error (.attributeError "'list' object has no attribute 'key'") ∧
        ∀ k, "c" ∉ s.lists k) := by
  intro q s₀ s
  have h : s = Job.setStatus s₀ "p1" .finished := by
    simp only [s, runOps_cons, runOps_nil, Op.run]
    rw [Queue.enqueueDependents_nil _ _ _ _ _ (by rfl)]
    rfl
  refine ⟨rfl, fun k => ?_⟩
  rw [h]
  simp [Job.setStatus, Job.save, Store.empty, s₀]

theorem enqueueCall_parks (q : Queue) (o : CallOptions) (id : String) (now : Nat) (s : Store)
    {pid : String} (h : o.parents = some (.job pid)) (hp : Job.getStatus s pid ≠ some .finished) :
    q.enqueueCall o id now s =
      (.ok (q.createJob o id),
        Job.save (s.sadd (.dependents pid) id) (q.createJob o id)) := by
  simp [Queue.enqueueCall, h, hp, Job.registerDependency, Queue.createJob]

/-! ## Deferring, then releasing -/

/-- A deferred `enqueue_call`: the job is saved `DEFERRED` with the queue's meta data and its ID
    added to `rq:deferred`, and no list changes. -/
theorem enqueueCall_defers (q : Queue) (o : CallOptions) (id : String) (now : Nat) (s : Store)
    (hpar : o.parents = none) (hdef : o.deferred = true) :
    q.enqueueCall o id now s =
      (.ok (q.jobMeta (q.createJob o id) true now),
        Job.save (s.sadd .deferred id) (q.jobMeta (q.createJob o id) true now)) := by
  have hst : (q.createJob o id).status = some .deferred := by
    simp [Queue.createJob, CallOptions.initStatus, hdef]
  simp only [Queue.enqueueCall, hpar, Queue.deferOrEnqueue, hst, if_true, Queue.deferJob]
  rfl

theorem releaseJob_of_deferred {jobOrId : JobOrId} {queueOrName : Option QueueOrName}
    {now : Nat} {s : Store} {job : Job} (hr : jobOrId.resolve s = .ok job)
    (hst : Job.getStatus s job.id = some .deferred) (hd : job.id ∈ s.sets .deferred) :
    releaseJob jobOrId queueOrName now s =
      (if (QueueOrName.resolve job queueOrName).isAsync then .ok () else job.perform,
        ((QueueOrName.resolve job queueOrName).enqueueJob
          { job with status := some .queued } true now
          (Job.save (s.srem .deferred job.id).2 { job with status := some .queued })).2) := by
  simp only [releaseJob, hr, hst, Store.srem, hd, ne_eq, not_true_eq_false, if_false, if_true,
    one_ne_zero, Queue.enqueueJob_fst]
  congr 1
  split <;> cases hp : job.perform <;> simp_all [Except.map, Job.perform]

/-- What `release_job` alone does to a deferred job: its ID leaves `rq:deferred`, its record is
    `QUEUED`, and its ID is pushed once onto the target list when the target is asynchronous. -/
theorem releaseJob_of_deferred_store {jobOrId : JobOrId} {queueOrName : Option QueueOrName}
    {now : Nat} {s : Store} {job : Job} (hr : jobOrId.resolve s = .ok job)
    (hst : Job.getStatus s job.id = some .deferred) (hd : job.id ∈ s.sets .deferred) :
    job.id ∉ (releaseJob jobOrId queueOrName now s).2.sets .deferred ∧
      Job.getStatus (releaseJob jobOrId queueOrName now s).2 job.id = some .queued ∧
      (releaseJob jobOrId queueOrName now s).2.lists (QueueOrName.resolve job queueOrName).key =
        s.lists (QueueOrName.resolve job queueOrName).key ++
          if (QueueOrName.resolve job queueOrName).isAsync then [job.id] else [] := by
  rw [releaseJob_of_deferred hr hst hd]
  refine ⟨?_, by simp [Job.getStatus, Queue.enqueueJob_records], ?_⟩
  · rw [Queue.enqueueJob_sets _ _ _ _ _ (Ne.symm (QueueClass.redisQueuesKeys_ne_deferred _))]
    simp [Job.save, Store.srem]
  · by_cases ha : (QueueOrName.resolve job queueOrName).isAsync <;>
      simp [Queue.enqueueJob_lists, ha, Job.save, Store.srem]

/-- A job deferred by `enqueue_call` and then released by ID: the release reverses the deferral
    on `rq:deferred`, and the ID is pushed once onto the list of `Queue(q.name)`, the plain
    asynchronous queue of the deferring queue's name, whatever that queue's class or `async`. -/
theorem defer_release_round_trip (q : Queue) (o : CallOptions) (id : String) (now now' : Nat)
    (s : Store) (hpar : o.parents = none) (hdef : o.deferred = true)
    (hin : id ∉ s.sets .deferred) :
    (let s₁ := (q.enqueueCall o id now s).2;
      let r := releaseJob (.id id) none now' s₁;
      id ∈ s₁.sets .deferred ∧ s₁.lists = s.lists ∧
      r.1 = .ok () ∧ r.2.sets .deferred = s.sets .deferred ∧
      (∀ k, r.2.lists k = if k = (Queue.new q.name).key then s.lists k ++ [id] else s.lists k) ∧
      Job.getStatus r.2 id = some .queued ∧ (r.2.records id).bind (·.origin) = some q.name) := by
  rw [enqueueCall_defers q o id now s hpar hdef]
  set J := q.jobMeta (q.createJob o id) true now
  have hJid : J.id = id := by simp [J, Queue.createJob]
  have hJdec : J.decodes = true := by simp [J, Queue.createJob]
  have hJst : J.status = some .deferred := by
    simp [J, Queue.createJob, CallOptions.initStatus, hdef]
  have hmem : id ∈ (Job.save (s.sadd .deferred id) J).sets .deferred := by
    simp [Job.save, Store.sadd]; split <;> simp_all
  have hres : (JobOrId.id id).resolve (Job.save (s.sadd .deferred id) J) = .ok J := by
    simp [JobOrId.resolve, Job.exists, Job.fetch, Job.save, hJid, hJdec]
  have hst : Job.getStatus (Job.save (s.sadd .deferred id) J) J.id = some .deferred := by
    simp [Job.getStatus, Job.save, hJst]
  have hq : QueueOrName.resolve J none = Queue.new q.name := by
    simp [QueueOrName.resolve, Queue.ofOrigin, J]
  refine ⟨hmem, by simp [Job.save], ?_⟩
  rw [releaseJob_of_deferred hres hst (hJid ▸ hmem), hq]
  refine ⟨rfl, ?_, fun k => ?_, ?_, ?_⟩
  · rw [Queue.enqueueJob_sets _ _ _ _ _ (by simp [Queue.new, QueueClass.redisQueuesKeys])]
    have hf : (s.sets .deferred).filter (fun x => !decide (x = id)) = s.sets .deferred :=
      List.filter_eq_self.2 fun x hx => by simpa using ne_of_mem_of_not_mem hx hin
    simp [Job.save, Store.srem, Store.sadd, hin, List.filter_append, hJid, hf]
  · have ha : (Queue.new q.name).isAsync = true := rfl
    by_cases hk : k = (Queue.new q.name).key <;>
      simp [Queue.enqueueJob_lists, hk, ha, hJid, Job.save, Store.srem]
  · simp [Job.getStatus, Queue.enqueueJob_records, hJid]
  · simp [Queue.enqueueJob_records, hJid, Queue.new]

/-- Deferred on a synchronous queue: the release pushes the ID all the same. -/
theorem defer_release_round_trip_sync :
    (let q := Queue.new "low" none false;
      let s₁ := (q.enqueueCall { deferred := true } "j" 0 Store.empty).2;
      let r := releaseJob (.id "j") none 1 s₁;
      "j" ∈ s₁.sets .deferred ∧ s₁.lists = Store.empty.lists ∧
      r.1 = .ok () ∧ r.2.sets .deferred = Store.empty.sets .deferred ∧
      (∀ k, r.2.lists k =
        if k = (Queue.new q.name).key then Store.empty.lists k ++ ["j"] else Store.empty.lists k) ∧
      Job.getStatus r.2 "j" = some .queued ∧ (r.2.records "j").bind (·.origin) = some q.name) :=
  defer_release_round_trip (Queue.new "low" none false) { deferred := true } "j" 0 1 Store.empty
    rfl rfl (by simp [Store.empty])

end Rq
