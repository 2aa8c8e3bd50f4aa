import Rq.Ops

/-
  The queue registry `rq:queues` and `Queue.all()`.

  * `enqueueJob_registers`: `enqueue_job` adds the queue's key to the set its class names in
    `redis_queues_keys`: `rq:donequeues` for `DoneQueue`, `rq:queues` for every other class,
    `WIPQueue` included, although a `WIPQueue` key is not a plain-queue key.
  * `fromQueueKey_round_trip`: `from_queue_key` is the inverse of `key` on `Queue`s with the
    default options: it accepts exactly their keys, returns the queue whose key it was given,
    and raises `ValueError('Not a valid RQ queue key: ...')` on any other string.
  * `all_keys_of_plain`: when every member of `rq:queues` is a plain-queue key, `Queue.all()`
    returns, without raising, one queue per non-empty member, whose key is that member.
  * `wip_enqueueJob_breaks_all`: from an empty store, one `enqueue_job` on the `WIPQueue` of a
    queue puts `rq:wipqueue:<name>` into `rq:queues`, and `Queue.all()` raises `ValueError`.
-/

namespace Rq

theorem enqueueJob_registers (q : Queue) (job : Job) (b : Bool) (now : Nat) (s : Store) :
    q.key ∈ (q.enqueueJob job b now s).2.sets q.cls.redisQueuesKeys := by
  rw [Queue.enqueueJob_snd]
  unfold Store.sadd
  split <;> split <;> simp_all [Job.save, Store.rpush]

/-- A plain-queue key: the prefix of `Queue`, then a name. -/
def PlainKey (k : String) : Prop := ∃ name, k = QueueClass.queue.redisQueueNamespacePrefix ++ name

theorem fromQueueKey_of_plain {k : String} (h : PlainKey k) :
    (Queue.fromQueueKey k).map Queue.key = .ok k := by
  obtain ⟨name, rfl⟩ := h
  rw [show QueueClass.queue.redisQueueNamespacePrefix ++ name = (Queue.new name).key from rfl,
    Queue.fromQueueKey_key (q := Queue.new name) rfl]
  rfl

/-- `from_queue_key` parses exactly what `__init__` prints: it returns `q` for a key exactly
    when `q` is a `Queue` with the default options whose key is that key, and otherwise it raises
    `ValueError` naming the key, and nothing else. -/
theorem fromQueueKey_round_trip (k : String) :
    (∀ q, Queue.fromQueueKey k = .ok q ↔ q = Queue.new q.name ∧ q.key = k) ∧
      ∀ e, Queue.fromQueueKey k = .error e →
        e = .valueError ("Not a valid RQ queue key: " ++ k) := by
  refine ⟨fun q => ⟨fun h => ?_, ?_⟩, fun e h => ?_⟩
  · simp only [Queue.fromQueueKey] at h
    split_ifs at h with hp
    cases h
    obtain ⟨t, ht⟩ := List.isPrefixOf_iff_prefix.1 hp
    refine ⟨rfl, String.ext ?_⟩
    show (QueueClass.queue.redisQueueNamespacePrefix.data ++ List.drop _ k.data) = k.data
    rw [← ht]
    exact congrArg _ (List.drop_left _ _)
  · rintro ⟨hq, rfl⟩
    rw [Queue.fromQueueKey_key (by rw [hq]; rfl), ← hq]
  · simp only [Queue.fromQueueKey] at h
    split_ifs at h
    cases h
    rfl

theorem mapM_fromQueueKey_of_plain (ks : List String) (h : ∀ k ∈ ks, PlainKey k) :
    (ks.mapM Queue.fromQueueKey).map (·.map Queue.key) = .ok ks := by
  induction ks with
  | nil => rfl
  | cons k ks ih =>
    have hk := fromQueueKey_of_plain (h k (List.mem_cons_self _ _))
    have hks := ih fun k' hk' => h k' (List.mem_cons_of_mem _ hk')
    simp only [List.mapM_cons]
    cases hq : Queue.fromQueueKey k with
    | error e => rw [hq] at hk; cases hk
    | ok q =>
      cases hqs : ks.mapM Queue.fromQueueKey with
      | error e => rw [hqs] at hks; cases hks
      | ok qs =>
        rw [hq] at hk
        rw [hqs] at hks
        simp only [Except.map] at hk hks
        cases hk
        cases hks
        rfl

theorem all_keys_of_plain (s : Store) (h : ∀ k ∈ s.sets .queues, PlainKey k) :
    (Queue.all s).map (·.map Queue.key) = .ok ((s.sets .queues).filter (· ≠ "")) :=
  mapM_fromQueueKey_of_plain _ fun k hk => h k (List.mem_of_mem_filter hk)

/-- One `enqueue_job` on a `WIPQueue`, from an empty store, breaks `Queue.all()`. -/
theorem wip_enqueueJob_breaks_all :
    (let s := runOps [.enqueueJob (WIPQueue.ofParent (Queue.new "a")) { id := "j" } true 0]
        Store.empty;
      "rq:wipqueue:a" ∈ s.sets .queues ∧
        Queue.all s = .error (.valueError "Not a valid RQ queue key: rq:wipqueue:a")) := by
  constructor
  · decide
  · rfl

end Rq
