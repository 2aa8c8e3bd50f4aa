import Rq.Dequeue
import Rq.Maintenance

/-
  Calls on one queue made one after another by one client, and what they give back.

  `Queue.enqueueJobs` is `enqueue_job` of each job in turn, and `Queue.dequeueTimes` is `n`
  successive `dequeue` calls with their results in order: the way `test_dequeue` and
  `test_dequeue_ignores_nonexisting_jobs` drive the queue.

  * `Queue.dequeueTimes_hits`: on a list whose every ID has a record that decodes, one
    `dequeue` per ID returns those records in the list's order, one more returns `None`, and
    the list is left empty.
  * `enqueue_dequeue_fifo`: jobs with distinct IDs whose records decode, enqueued on an empty
    asynchronous queue, come back from successive `dequeue` calls in the order they were
    enqueued, each with the meta data `enqueue_job` wrote; one more `dequeue` returns `None`,
    and the store is the one the enqueues left, with the list empty.
  * `compact_twice`: on a non-empty list, a second `compact` after the first raises
    `ResponseError` when the first left the list empty, and otherwise returns and changes
    nothing but its own scratch key: every ID left has a record.
-/

namespace Rq

/-! ## Enqueued, then dequeued -/

/-- `enqueue_job` of each job in turn. -/
def Queue.enqueueJobs (q : Queue) (jobs : List Job) (setMetaData : Bool) (now : Nat)
    (s : Store) : Store :=
  jobs.foldl (fun s job => (q.enqueueJob job setMetaData now s).2) s

/-- `n` successive `dequeue` calls, each with `frames` frames left: their results, in order, and
    the store they leave. -/
def Queue.dequeueTimes (q : Queue) (frames : Nat) :
    Nat → Store → List (Except RqError (Option Job)) × Store
  | 0, s => ([], s)
  | n + 1, s =>
    let r := q.dequeueTimes frames n (q.dequeue frames s).2
    ((q.dequeue frames s).1 :: r.1, r.2)

section Enqueue

variable (q : Queue) (b : Bool) (now : Nat)

@[simp] theorem Queue.enqueueJobs_nil (s : Store) : q.enqueueJobs [] b now s = s := rfl

@[simp] theorem Queue.enqueueJobs_cons (j : Job) (js : List Job) (s : Store) :
    q.enqueueJobs (j :: js) b now s = q.enqueueJobs js b now (q.enqueueJob j b now s).2 := rfl

theorem Queue.enqueueJobs_lists (hasync : q.isAsync = true) (jobs : List Job) (s : Store) :
    (q.enqueueJobs jobs b now s).lists q.key = s.lists q.key ++ jobs.map Job.id := by
  induction jobs generalizing s with
  | nil => simp
  | cons j js ih => simp [ih, Queue.enqueueJob_lists, hasync]

theorem Queue.enqueueJobs_records_of_not_mem {x : String} (jobs : List Job)
    (hx : x ∉ jobs.map Job.id) (s : Store) :
    (q.enqueueJobs jobs b now s).records x = s.records x := by
  induction jobs generalizing s with
  | nil => rfl
  | cons j js ih =>
    simp only [List.map_cons, List.mem_cons, not_or] at hx
    rw [Queue.enqueueJobs_cons, ih hx.2, Queue.enqueueJob_records, if_neg hx.1]

/-- With distinct IDs, each job's record is the one its own `enqueue_job` wrote. -/
theorem Queue.enqueueJobs_records (jobs : List Job) (hids : (jobs.map Job.id).Nodup)
    (s : Store) :
    ∀ j ∈ jobs, (q.enqueueJobs jobs b now s).records j.id = some (q.jobMeta j b now) := by
  induction jobs generalizing s with
  | nil => intro j hj; cases hj
  | cons j js ih =>
    simp only [List.map_cons, List.nodup_cons] at hids
    intro j' hj'
    rcases List.mem_cons.mp hj' with rfl | hj'
    · rw [Queue.enqueueJobs_cons, q.enqueueJobs_records_of_not_mem b now js hids.1,
        Queue.enqueueJob_records, if_pos rfl]
    · exact ih hids.2 _ j' hj'

end Enqueue

theorem Queue.dequeueTimes_hits (q : Queue) (frames : Nat) (m : Job → Job) (jobs : List Job)
    (s : Store) (hl : s.lists q.key = jobs.map Job.id)
    (hr : ∀ j ∈ jobs, s.records j.id = some (m j) ∧ (m j).decodes = true) :
    q.dequeueTimes frames (jobs.length + 1) s =
      (jobs.map (fun j => .ok (some (m j))) ++ [.ok none], s.setList q.key []) := by
  induction jobs generalizing s with
  | nil =>
    simp only [List.map_nil] at hl
    simp [Queue.dequeueTimes, Queue.dequeue_nil q frames hl, Store.setList_same hl]
  | cons j js ih =>
    obtain ⟨hrec, hdec⟩ := hr j (.head _)
    have hstep : q.dequeue frames s = (.ok (some (m j)), s.setList q.key (js.map Job.id)) := by
      rw [Queue.dequeue_cons q frames hl]
      simp [Job.exists, dequeueHit, Job.fetch, hrec, hdec]
    have hrest := ih (s.setList q.key (js.map Job.id)) (by simp)
      fun j' hj' => hr j' (.tail _ hj')
    rw [List.length_cons, Queue.dequeueTimes, hstep, hrest]
    simp

theorem enqueue_dequeue_fifo (q : Queue) (jobs : List Job) (b : Bool) (now : Nat) (s : Store)
    (frames : Nat) (hasync : q.isAsync = true) (hempty : s.lists q.key = [])
    (hids : (jobs.map Job.id).Nodup) (hdec : ∀ j ∈ jobs, j.decodes = true) :
    q.dequeueTimes frames (jobs.length + 1) (q.enqueueJobs jobs b now s) =
      (jobs.map (fun j => .ok (some (q.jobMeta j b now))) ++ [.ok none],
        (q.enqueueJobs jobs b now s).setList q.key []) :=
  q.dequeueTimes_hits frames (q.jobMeta · b now) jobs _
    (by rw [q.enqueueJobs_lists b now hasync, hempty, List.nil_append])
    fun j hj => ⟨q.enqueueJobs_records b now jobs hids s j hj, by simp [hdec j hj]⟩

theorem enqueue_dequeue_fifo_two :
    (let q := Queue.new "default";
      let jobs : List Job := [{ id := "a" }, { id := "b" }];
      q.dequeueTimes 0 3 (q.enqueueJobs jobs true 0 Store.empty) =
        (jobs.map (fun j => .ok (some (q.jobMeta j true 0))) ++ [.ok none],
          (q.enqueueJobs jobs true 0 Store.empty).setList q.key [])) :=
  enqueue_dequeue_fifo (Queue.new "default") [{ id := "a" }, { id := "b" }] true 0 Store.empty 0
    rfl rfl (by decide) (by simp)

/-! ## Compacted twice -/

theorem compact_twice (q : Queue) (u u' : String) (hkey : q.compactKey u ≠ q.key)
    (hkey' : q.compactKey u' ≠ q.key) (s : Store) (hne : s.lists q.key ≠ []) {fuel : Nat}
    (hfuel : (s.lists q.key).length < fuel) :
    ∃ s₁, q.compact u fuel s = some (.ok (), s₁) ∧
      (∀ x ∈ s₁.lists q.key, Job.exists s₁ x = true) ∧
      q.compact u' fuel s₁ =
        if s₁.lists q.key = [] then some (.error (.responseError "no such key"), s₁)
        else some (.ok (), s₁.setList (q.compactKey u') []) := by
  set s₁ := (s.setList q.key ((s.lists q.key).filter (Job.exists s))).setList (q.compactKey u) []
  have hl : s₁.lists q.key = (s.lists q.key).filter (Job.exists s) := by simp [s₁, hkey.symm]
  have hlive : ∀ x ∈ s₁.lists q.key, Job.exists s₁ x = true := fun x hx => by
    rw [hl] at hx; exact (List.mem_filter.mp hx).2
  refine ⟨s₁, Queue.compact_eq q u hkey s hne hfuel, hlive, ?_⟩
  split
  · rename_i h; simp [Queue.compact, Store.rename, h]
  · rename_i h
    have hfuel' : (s₁.lists q.key).length < fuel :=
      hl ▸ (List.length_filter_le _ _).trans_lt hfuel
    rw [Queue.compact_eq q u' hkey' s₁ h hfuel', List.filter_eq_self.mpr hlive,
      Store.setList_same rfl]

theorem compact_twice_one :
    (let q := Queue.new "default";
      let s := Job.save (q.pushJobId "a" Store.empty) { id := "a" };
      ∃ s₁, q.compact "u" 2 s = some (.ok (), s₁) ∧
        (∀ x ∈ s₁.lists q.key, Job.exists s₁ x = true) ∧
        q.compact "v" 2 s₁ =
          if s₁.lists q.key = [] then some (.error (.responseError "no such key"), s₁)
          else some (.ok (), s₁.setList (q.compactKey "v") [])) :=
  compact_twice (Queue.new "default") "u" "v" (by decide) (by decide)
    (Job.save ((Queue.new "default").pushJobId "a" Store.empty) { id := "a" }) (by decide)
    (by decide)

end Rq
