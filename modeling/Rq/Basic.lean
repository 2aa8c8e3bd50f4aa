import Mathlib.Data.List.Basic

/-
  rq core, the store layer: the data the queue code keeps in Redis, and the Redis commands
  `rq/queue.py` issues, each as one atomic function on a `Store`.

  Keys. FIFO lists and sorted sets are kept under their key text (`rq:queue:<name>`,
  `rq:wipqueue:<name>`, the compaction scratch key), since the code computes those texts and
  stores them as data (`rq:queues` holds queue keys). The four sets have fixed roles and are
  keyed by `SetKey`; job hashes `rq:job:<id>` are keyed by the job id. Lists and sorted sets
  are separate maps, so one key text can hold both; Redis keeps one type per key and refuses a
  command on a key of the other type (WRONGTYPE), which is not modelled. The results a WRONGTYPE
  would change assume that no list sits under a sorted set's key.

  Job records. `rq/job.py` is not part of the sources. `Job` keeps the fields the queue code
  reads or writes; `Job.save`, `Job.fetch`, `Job.exists`, `Job.cancel`,
  `Job.registerDependency` and `Job.getStatus` are modelled from the spec (their docstrings
  say so). A record whose payload cannot be unpickled has `decodes = false`; `raises` is the
  exception the job's function raises when `job.perform()` runs it (`none`: it returns).
-/

namespace Rq

/-- Job statuses (`rq.job.Status`). -/
inductive Status
  | queued
  | finished
  | failed
  | started
  | deferred
  deriving DecidableEq, Repr

/-- The text Redis stores for a status; `Status.FAILED` also names the failed queue. -/
def Status.text : Status → String
  | .queued => "queued"
  | .finished => "finished"
  | .failed => "failed"
  | .started => "started"
  | .deferred => "deferred"

/-- The fields of a job record that the queue code reads or writes. -/
structure Job where
  id : String
  status : Option Status := none
  origin : Option String := none
  description : Option String := none
  timeout : Option Nat := none
  resultTtl : Option Nat := none
  excInfo : Option String := none
  enqueuedAt : Option Nat := none
  endedAt : Option Nat := none
  dependencyIds : List String := []
  decodes : Bool := true
  raises : Option String := none
  deriving DecidableEq, Repr

/-- The queue classes; each fixes the class attributes the inherited methods read. -/
inductive QueueClass
  | queue
  | failedQueue
  | wipQueue
  | doneQueue
  deriving DecidableEq, Repr

/-- The sets the code keeps: `rq:queues`, `rq:donequeues`, `rq:deferred`,
    `rq:job:<id>:dependents`. -/
inductive SetKey
  | queues
  | donequeues
  | deferred
  | dependents (jobId : String)
  deriving DecidableEq, Repr

/-- `redis_queue_namespace_prefix`: `WIPQueue` and `DoneQueue` override it. -/
def QueueClass.redisQueueNamespacePrefix : QueueClass → String
  | .wipQueue => "rq:wipqueue:"
  | .doneQueue => "rq:donequeue:"
  | _ => "rq:queue:"

/-- `redis_queues_keys`: only `DoneQueue` overrides it; `WIPQueue` inherits `rq:queues`. -/
def QueueClass.redisQueuesKeys : QueueClass → SetKey
  | .doneQueue => .donequeues
  | _ => .queues

theorem QueueClass.redisQueuesKeys_ne_deferred (c : QueueClass) :
    c.redisQueuesKeys ≠ .deferred := by
  cases c <;> simp [QueueClass.redisQueuesKeys]

/-- A queue object: its class, `name`, `_default_timeout` and `_async`. -/
structure Queue where
  cls : QueueClass
  name : String
  defaultTimeout : Option Nat := none
  isAsync : Bool := true
  deriving DecidableEq, Repr

/-- `Queue.key`: `'%s%s' % (prefix, name)`. -/
def Queue.key (q : Queue) : String := q.cls.redisQueueNamespacePrefix ++ q.name

/-- `Queue.DEFAULT_TIMEOUT`. -/
def DEFAULT_TIMEOUT : Nat := 180

/-- The exceptions the queue code raises or lets through. `unpickle` carries the `job_id` and
    `queue` attributes that `dequeue` and `dequeue_any` attach; `responseError` is a Redis error
    as redis-py raises it (without Redis' `ERR ` prefix); `assertionError` is a failed `assert`;
    `jobRaised` is the exception of a job's own function, which `job.perform()` lets through;
    `recursionError` is a call past Python's recursion limit. -/
inductive RqError
  | noSuchJob (msg : String)
  | invalidJobOperation (msg : String)
  | unpickle (jobId : Option String) (queue : Option Queue)
  | dequeueTimeout (timeout : Nat) (queueKeys : List String)
  | valueError (msg : String)
  | attributeError (msg : String)
  | responseError (msg : String)
  | assertionError (msg : String)
  | jobRaised (exc : String)
  | recursionError
  deriving DecidableEq, Repr

/-- The Redis data the queue code uses. -/
structure Store where
  lists : String → List String
  sets : SetKey → List String
  zsets : String → List (String × Nat)
  records : String → Option Job

/-- Removing the member at an index leaves the others. -/
theorem perm_cons_eraseIdx {α : Type} {l : List α} {i : Nat} {x : α} (h : l[i]? = some x) :
    l.Perm (x :: l.eraseIdx i) := by
  obtain ⟨hi, rfl⟩ := List.getElem?_eq_some_iff.1 h
  rw [List.eraseIdx_eq_take_drop_succ]
  conv_lhs => rw [← List.take_append_drop i l, ← List.getElem_cons_drop l i hi]
  exact List.perm_middle

/-- `Except.map` keeps an error as it is. -/
@[simp] theorem except_map_eq_error {α β ε : Type} {f : α → β} {x : Except ε α} {e : ε} :
    x.map f = .error e ↔ x = .error e := by
  cases x <;> simp [Except.map]

namespace Store

/-- The empty Redis database. -/
def empty : Store := ⟨fun _ => [], fun _ => [], fun _ => [], fun _ => none⟩

/-! ## Updates -/

def setList (s : Store) (k : String) (xs : List String) : Store :=
  { s with lists := fun k' => if k' = k then xs else s.lists k' }

def setSet (s : Store) (k : SetKey) (xs : List String) : Store :=
  { s with sets := fun k' => if k' = k then xs else s.sets k' }

def setZset (s : Store) (k : String) (z : List (String × Nat)) : Store :=
  { s with zsets := fun k' => if k' = k then z else s.zsets k' }

def setRecord (s : Store) (id : String) (r : Option Job) : Store :=
  { s with records := fun i => if i = id then r else s.records i }

@[simp] theorem setList_lists (s : Store) (k k' : String) (xs : List String) :
    (s.setList k xs).lists k' = if k' = k then xs else s.lists k' := rfl
@[simp] theorem setList_sets (s : Store) (k : String) (xs : List String) :
    (s.setList k xs).sets = s.sets := rfl
@[simp] theorem setList_zsets (s : Store) (k : String) (xs : List String) :
    (s.setList k xs).zsets = s.zsets := rfl
@[simp] theorem setList_records (s : Store) (k : String) (xs : List String) :
    (s.setList k xs).records = s.records := rfl

@[simp] theorem setSet_sets (s : Store) (k k' : SetKey) (xs : List String) :
    (s.setSet k xs).sets k' = if k' = k then xs else s.sets k' := rfl
@[simp] theorem setSet_lists (s : Store) (k : SetKey) (xs : List String) :
    (s.setSet k xs).lists = s.lists := rfl
@[simp] theorem setSet_zsets (s : Store) (k : SetKey) (xs : List String) :
    (s.setSet k xs).zsets = s.zsets := rfl
@[simp] theorem setSet_records (s : Store) (k : SetKey) (xs : List String) :
    (s.setSet k xs).records = s.records := rfl

@[simp] theorem setZset_zsets (s : Store) (k k' : String) (z : List (String × Nat)) :
    (s.setZset k z).zsets k' = if k' = k then z else s.zsets k' := rfl
@[simp] theorem setZset_lists (s : Store) (k : String) (z : List (String × Nat)) :
    (s.setZset k z).lists = s.lists := rfl
@[simp] theorem setZset_sets (s : Store) (k : String) (z : List (String × Nat)) :
    (s.setZset k z).sets = s.sets := rfl
@[simp] theorem setZset_records (s : Store) (k : String) (z : List (String × Nat)) :
    (s.setZset k z).records = s.records := rfl

@[simp] theorem setRecord_records (s : Store) (id i : String) (r : Option Job) :
    (s.setRecord id r).records i = if i = id then r else s.records i := rfl
@[simp] theorem setRecord_lists (s : Store) (id : String) (r : Option Job) :
    (s.setRecord id r).lists = s.lists := rfl
@[simp] theorem setRecord_sets (s : Store) (id : String) (r : Option Job) :
    (s.setRecord id r).sets = s.sets := rfl
@[simp] theorem setRecord_zsets (s : Store) (id : String) (r : Option Job) :
    (s.setRecord id r).zsets = s.zsets := rfl

theorem setList_same {s : Store} {k : String} {xs : List String} (h : s.lists k = xs) :
    s.setList k xs = s := by
  cases s
  simp only [setList, Store.mk.injEq, and_true]
  funext k'
  split <;> simp_all

@[simp] theorem setList_setList (s : Store) (k : String) (xs ys : List String) :
    (s.setList k xs).setList k ys = s.setList k ys := by
  simp only [setList, Store.mk.injEq, and_true]
  funext k'
  split <;> simp_all

theorem setList_comm (s : Store) {k k' : String} (h : k ≠ k') (xs ys : List String) :
    (s.setList k xs).setList k' ys = (s.setList k' ys).setList k xs := by
  simp only [setList, Store.mk.injEq, and_true]
  funext k''
  split <;> split <;> simp_all

theorem setSet_same {s : Store} {k : SetKey} {xs : List String} (h : s.sets k = xs) :
    s.setSet k xs = s := by
  cases s
  simp only [setSet, Store.mk.injEq, true_and, and_true]
  funext k'
  split <;> simp_all

/-! ## Lists -/

/-- `RPUSH k v`. -/
def rpush (s : Store) (k v : String) : Store := s.setList k (s.lists k ++ [v])

@[simp] theorem rpush_lists (s : Store) (k k' v : String) :
    (s.rpush k v).lists k' = if k' = k then s.lists k ++ [v] else s.lists k' := rfl
@[simp] theorem rpush_records (s : Store) (k v : String) : (s.rpush k v).records = s.records :=
  rfl

/-- `LPOP k`: the head, or `None` on an empty (absent) list. -/
def lpop (s : Store) (k : String) : Option String × Store :=
  match s.lists k with
  | [] => (none, s)
  | x :: xs => (some x, s.setList k xs)

/-- `LREM k 0 v`: removes every occurrence and returns how many there were. -/
def lrem (s : Store) (k v : String) : Nat × Store :=
  ((s.lists k).count v, s.setList k ((s.lists k).filter (· ≠ v)))

theorem lrem_not_mem {s : Store} {k v : String} (h : v ∉ s.lists k) : s.lrem k v = (0, s) := by
  have hf : (s.lists k).filter (· ≠ v) = s.lists k :=
    List.filter_eq_self.2 fun x hx => by simpa using ne_of_mem_of_not_mem hx h
  simp only [lrem, List.count_eq_zero_of_not_mem h, hf, setList_same rfl]

/-- `RENAME src dst`; Redis refuses an absent (empty) source. -/
def rename (s : Store) (src dst : String) : Except RqError Store :=
  match s.lists src with
  | [] => .error (.responseError "no such key")
  | xs => .ok ((s.setList src []).setList dst xs)

theorem rename_ok_lists {s s' : Store} {src dst : String} (h : s.rename src dst = .ok s') :
    s'.lists dst = s.lists src := by
  unfold rename at h
  split at h
  · cases h
  · cases h; simp

/-- `DEL k` on a list key. -/
def delete (s : Store) (k : String) : Store := s.setList k []

/-- `LLEN k`. -/
def llen (s : Store) (k : String) : Nat := (s.lists k).length

/-- `LRANGE k start stop`, as Redis computes it: a negative index counts from the end, `start`
    is then raised to 0, the range is empty when `start > stop` or `start` is past the end, and
    `stop` is clipped to the last index; both ends are inclusive. -/
def lrange (s : Store) (k : String) (start stop : Int) : List String :=
  let xs := s.lists k
  let llen : Int := xs.length
  let start := if start < 0 then llen + start else start
  let stop := if stop < 0 then llen + stop else stop
  let start := max start 0
  if start > stop ∨ start ≥ llen then []
  else
    let stop := min stop (llen - 1)
    (xs.drop start.toNat).take (stop - start + 1).toNat

/-- From a start that is not negative, `LRANGE` is a slice: drop `start` ids, then keep
    through `stop` (a negative `stop` counted from the end). -/
theorem lrange_of_nonneg (s : Store) (k : String) {start : Int} (stop : Int) (h : 0 ≤ start) :
    s.lrange k start stop =
      ((s.lists k).drop start.toNat).take
        ((if stop < 0 then ((s.lists k).length : Int) + stop else stop) + 1 - start).toNat := by
  have hs : ¬ start < 0 := by omega
  have hm : max start 0 = start := by omega
  simp only [lrange, hs, if_false, hm]
  generalize (if stop < 0 then ((s.lists k).length : Int) + stop else stop) = e
  split
  · rename_i hr
    rcases hr with hr | hr
    · rw [show (e + 1 - start).toNat = 0 by omega, List.take_zero]
    · rw [List.drop_eq_nil_of_le (by omega), List.take_nil]
  · rw [List.take_eq_take, List.length_drop]
    omega

/-- `BLPOP keys timeout` with no other client acting: pops the head of the first non-empty
    list in key order, or gives `None` once the timeout expires. -/
def blpop (s : Store) : List String → Option (String × String) × Store
  | [] => (none, s)
  | k :: ks =>
    match s.lists k with
    | [] => blpop s ks
    | x :: xs => (some (k, x), s.setList k xs)

/-! ## Sets (duplicate-free lists) -/

/-- `SADD k v`. -/
def sadd (s : Store) (k : SetKey) (v : String) : Store :=
  if v ∈ s.sets k then s else s.setSet k (s.sets k ++ [v])

@[simp] theorem sadd_lists (s : Store) (k : SetKey) (v : String) :
    (s.sadd k v).lists = s.lists := by
  unfold sadd; split <;> rfl
@[simp] theorem sadd_records (s : Store) (k : SetKey) (v : String) :
    (s.sadd k v).records = s.records := by
  unfold sadd; split <;> rfl

/-- `SADD k v` adds `v` to `k` and nothing else. -/
theorem mem_sadd {s : Store} {k k' : SetKey} {v x : String} :
    x ∈ (s.sadd k v).sets k' ↔ x ∈ s.sets k' ∨ (k' = k ∧ x = v) := by
  unfold sadd
  split <;> by_cases hk : k' = k <;> simp_all

/-- `SREM k v`: 1 if `v` was a member, else 0. -/
def srem (s : Store) (k : SetKey) (v : String) : Nat × Store :=
  (if v ∈ s.sets k then 1 else 0, s.setSet k ((s.sets k).filter (· ≠ v)))

theorem srem_not_mem {s : Store} {k : SetKey} {v : String} (h : v ∉ s.sets k) :
    s.srem k v = (0, s) := by
  have hf : (s.sets k).filter (· ≠ v) = s.sets k :=
    List.filter_eq_self.2 fun x hx => by simpa using ne_of_mem_of_not_mem hx h
  simp only [srem, h, if_false, hf, setSet_same rfl]

/-- `SPOP k`: Redis returns an arbitrary member; `pick` says which one. -/
def spop (s : Store) (k : SetKey) (pick : Nat) : Option String × Store :=
  match s.sets k with
  | [] => (none, s)
  | x :: xs =>
    let i := pick % (xs.length + 1)
    (some ((x :: xs).getD i x), s.setSet k ((x :: xs).eraseIdx i))

/-- `SPOP` of a non-empty set returns and removes the member at some index. -/
theorem spop_cons {s : Store} {k : SetKey} {y : String} {ys : List String} (p : Nat)
    (h : s.sets k = y :: ys) :
    ∃ i x, (y :: ys)[i]? = some x ∧
      s.spop k p = (some x, s.setSet k ((y :: ys).eraseIdx i)) := by
  have hi : p % (ys.length + 1) < (y :: ys).length := Nat.mod_lt _ (Nat.succ_pos _)
  exact ⟨_, _, List.getElem?_eq_getElem hi, by simp [Store.spop, h, List.getElem?_eq_getElem hi]⟩

theorem spop_lists (s : Store) (k : SetKey) (pick : Nat) :
    (s.spop k pick).2.lists = s.lists := by
  unfold Store.spop; split <;> rfl

theorem spop_records (s : Store) (k : SetKey) (pick : Nat) :
    (s.spop k pick).2.records = s.records := by
  unfold Store.spop; split <;> rfl

theorem spop_sets_ne (s : Store) {k k' : SetKey} (pick : Nat) (h : k' ≠ k) :
    (s.spop k pick).2.sets k' = s.sets k' := by
  unfold Store.spop; split <;> simp [h]

theorem spop_none {s s' : Store} {k : SetKey} {pick : Nat} (h : s.spop k pick = (none, s')) :
    s' = s ∧ s.sets k = [] := by
  unfold Store.spop at h
  split at h
  · cases h; exact ⟨rfl, ‹_›⟩
  · cases h

/-- What an `SPOP` that returns `x` does: it removes `x` from the set and nothing else. -/
theorem spop_some {s s' : Store} {k : SetKey} {pick : Nat} {x : String}
    (h : s.spop k pick = (some x, s')) :
    (s.sets k).Perm (x :: s'.sets k) ∧ s'.lists = s.lists ∧ s'.records = s.records := by
  cases hk : s.sets k with
  | nil => simp [spop, hk] at h
  | cons y ys =>
    obtain ⟨i, z, hz, hp⟩ := spop_cons pick hk
    rw [hp] at h
    cases h
    exact ⟨by simpa using perm_cons_eraseIdx hz, rfl, rfl⟩

/-- `SPOP` returns a member of the set. -/
theorem spop_some_mem {s s' : Store} {k : SetKey} {pick : Nat} {x : String}
    (h : s.spop k pick = (some x, s')) : x ∈ s.sets k :=
  (spop_some h).1.mem_iff.2 (List.mem_cons_self _ _)

/-- An `SPOP` that returns `x` removes no other member. -/
theorem mem_spop {s : Store} {k : SetKey} {pick : Nat} {x y : String} {s' : Store}
    (h : s.spop k pick = (some x, s')) (hy : y ∈ s.sets k) (hne : y ≠ x) : y ∈ s'.sets k :=
  ((List.mem_cons.1 ((spop_some h).1.mem_iff.1 hy)).resolve_left hne)

/-- `SPOP` of a set without repeats leaves a set without repeats, which no longer holds the
    member returned. -/
theorem spop_nodup {s s' : Store} {k : SetKey} {pick : Nat} {x : String}
    (h : s.spop k pick = (some x, s')) (hn : (s.sets k).Nodup) :
    (s'.sets k).Nodup ∧ x ∉ s'.sets k :=
  (List.nodup_cons.1 ((spop_some h).1.nodup_iff.1 hn)).symm

/-- `SPOP` adds a member to no set. -/
theorem spop_sets_subset (s : Store) (k k' : SetKey) (pick : Nat) :
    (s.spop k pick).2.sets k' ⊆ s.sets k' := by
  unfold Store.spop
  split
  · exact List.Subset.refl _
  · by_cases hk : k' = k
    · subst hk; simpa [*] using List.eraseIdx_subset _ _
    · simp [hk]

/-! ## Sorted sets -/

/-- The score of a member. -/
def zscore (s : Store) (k m : String) : Option Nat :=
  ((s.zsets k).find? (·.1 = m)).map (·.2)

/-- `ZADD k score member`: sets the member's score, adding it if absent. -/
def zadd (s : Store) (k : String) (score : Nat) (m : String) : Store :=
  s.setZset k ((s.zsets k).filter (·.1 ≠ m) ++ [(m, score)])

/-- `ZRANGEBYSCORE k -inf t`: the members whose score is at most `t`. -/
def zrangebyscore (s : Store) (k : String) (t : Nat) : List String :=
  ((s.zsets k).filter (·.2 ≤ t)).map (·.1)

/-- `ZREM k m₁ … mₙ`, returning how many entries it removed. -/
def zrem (s : Store) (k : String) (ms : List String) : Nat × Store :=
  (((s.zsets k).filter (·.1 ∈ ms)).length, s.setZset k ((s.zsets k).filter (·.1 ∉ ms)))

/-- The entries of member `m` in the sorted set at `k`: Redis keeps at most one, and the
    commands above keep at most one when there was. -/
def zentries (s : Store) (k m : String) : List (String × Nat) := (s.zsets k).filter (·.1 = m)

theorem zscore_eq_zentries (s : Store) (k m : String) :
    s.zscore k m = ((s.zentries k m).head?).map (·.2) := by
  rw [zscore, zentries, List.filter_head?]

theorem mem_zrangebyscore {s : Store} {k m : String} {t : Nat} :
    m ∈ s.zrangebyscore k t ↔ ∃ e ∈ s.zentries k m, e.2 ≤ t := by
  simp only [zrangebyscore, zentries, List.mem_map, List.mem_filter, decide_eq_true_eq]
  constructor
  · rintro ⟨e, ⟨he, ht⟩, rfl⟩
    exact ⟨e, ⟨he, rfl⟩, ht⟩
  · rintro ⟨e, ⟨he, rfl⟩, ht⟩
    exact ⟨e, ⟨he, ht⟩, rfl⟩

@[simp] theorem zentries_zadd (s : Store) (k : String) (r : Nat) (m x : String) :
    (s.zadd k r m).zentries k x = if m = x then [(m, r)] else s.zentries k x := by
  by_cases h : m = x
  · subst h
    simp [zadd, zentries, List.filter_filter, List.filter_eq_nil_iff]
  · simp only [zadd, zentries, setZset_zsets, if_true, List.filter_append, List.filter_filter, h,
      if_false]
    simp only [List.filter_cons, decide_eq_true_eq, h, if_false, List.filter_nil, List.append_nil]
    congr 1
    funext e
    by_cases he : e.1 = x <;> simp [he, Ne.symm h]

@[simp] theorem zentries_zrem (s : Store) (k : String) (ms : List String) (x : String) :
    (s.zrem k ms).2.zentries k x = if x ∈ ms then [] else s.zentries k x := by
  simp only [zrem, zentries, setZset_zsets, if_true, List.filter_filter]
  split
  · simp only [List.filter_eq_nil_iff, Bool.and_eq_true, decide_eq_true_eq, not_and]
    rintro e - rfl
    simpa
  · congr 1
    funext e
    by_cases he : e.1 = x <;> simp_all

end Store

/-! ## Job records (`rq/job.py`, modelled from the spec) -/

namespace Job

/-- Modelled from the spec: `job.save()` persists the record (`HMSET rq:job:<id>`). -/
def save (s : Store) (job : Job) : Store := s.setRecord job.id (some job)

@[simp] theorem save_lists (s : Store) (job : Job) : (save s job).lists = s.lists := rfl

/-- Saving a job twice writes what saving it once does. -/
@[simp] theorem save_save (s : Store) (job : Job) : save (save s job) job = save s job := by
  simp only [save, Store.setRecord, Store.mk.injEq, true_and]
  funext i
  split <;> rfl

/-- Modelled from the spec: `Job.exists(id)`. -/
def «exists» (s : Store) (id : String) : Bool := (s.records id).isSome

@[simp] theorem exists_setList (s : Store) (k : String) (xs : List String) :
    Job.exists (s.setList k xs) = Job.exists s := rfl

/-- Modelled from the spec: `Job.fetch(id)` loads the record, raising `NoSuchJobError` when
    there is none and `UnpickleError` when its payload does not decode. -/
def fetch (s : Store) (id : String) : Except RqError Job :=
  match s.records id with
  | none => .error (.noSuchJob ("No such job: rq:job:" ++ id))
  | some j => if j.decodes then .ok j else .error (.unpickle none none)

/-- `Job.fetch` raises `NoSuchJobError` or `UnpickleError` and nothing else. -/
theorem fetch_error {s : Store} {x : String} {e : RqError} (h : fetch s x = .error e) :
    e = .noSuchJob ("No such job: rq:job:" ++ x) ∨ e = .unpickle none none := by
  unfold fetch at h
  split at h
  · cases h; exact .inl rfl
  · split at h <;> cases h; exact .inr rfl

/-- `Job.fetch` returns exactly a record that decodes. -/
theorem fetch_eq_ok {s : Store} {x : String} {j : Job} :
    fetch s x = .ok j ↔ s.records x = some j ∧ j.decodes = true := by
  unfold fetch
  split
  · simp_all
  · split <;> simp_all <;> rintro rfl <;> assumption

/-- `Job.fetch` raises `NoSuchJobError` only for an ID that has no record. -/
theorem fetch_ne_noSuchJob {s : Store} {x : String} (h : Job.exists s x = true) (e : String) :
    fetch s x ≠ .error (.noSuchJob e) := by
  obtain ⟨r, hr⟩ := Option.isSome_iff_exists.1 h
  simp only [fetch, hr]
  split <;> simp

/-- Modelled from the spec: `job.perform()` runs the job's function in this process and lets its
    exception through; the result it stores is not among the fields kept here. -/
def perform (job : Job) : Except RqError Unit :=
  match job.raises with
  | none => .ok ()
  | some exc => .error (.jobRaised exc)

/-- `job.perform()` raises only the job's own exception. -/
theorem perform_error {job : Job} {e : RqError} (h : job.perform = .error e) :
    ∃ exc, e = .jobRaised exc := by
  unfold perform at h
  split at h <;> cases h
  exact ⟨_, rfl⟩

/-- Modelled from the spec: `job.cancel()` deletes the record. -/
def cancel (s : Store) (job : Job) : Store := s.setRecord job.id none

/-- Modelled from the spec: `job.get_status()` reads the record's status field. -/
def getStatus (s : Store) (id : String) : Option Status := (s.records id).bind (·.status)

/-- Modelled from the spec: the worker persists a new status (`job.set_status(st)`). -/
def setStatus (s : Store) (id : String) (st : Status) : Store :=
  match s.records id with
  | none => s
  | some j => s.setRecord id (some { j with status := some st })

@[simp] theorem setStatus_lists (s : Store) (id : String) (st : Status) :
    (setStatus s id st).lists = s.lists := by
  unfold setStatus; split <;> rfl

@[simp] theorem setStatus_sets (s : Store) (id : String) (st : Status) :
    (setStatus s id st).sets = s.sets := by
  unfold setStatus; split <;> rfl

@[simp] theorem setStatus_zsets (s : Store) (id : String) (st : Status) :
    (setStatus s id st).zsets = s.zsets := by
  unfold setStatus; split <;> rfl

/-- Modelled from the spec: `job.register_dependency()` adds the child's id to the parent's
    reverse-dependency set `rq:job:<parent>:dependents`. -/
def registerDependency (s : Store) (job : Job) (parentId : String) : Store :=
  s.sadd (.dependents parentId) job.id

end Job

/-! ## Records under their own IDs -/

/-- Every record is stored under its own ID. -/
def Store.WellKeyed (s : Store) : Prop := ∀ x r, s.records x = some r → r.id = x

theorem Store.WellKeyed.fetch {s : Store} (h : s.WellKeyed) {x : String} {job : Job}
    (hf : Job.fetch s x = .ok job) : job.id = x := by
  unfold Job.fetch at hf
  split at hf
  · cases hf
  · split at hf
    · cases hf
      exact h _ _ ‹_›
    · cases hf

theorem Store.WellKeyed.of_records {s s' : Store} (hk : s.WellKeyed) (h : s'.records = s.records) :
    s'.WellKeyed := fun x r hr => hk x r (h ▸ hr)

theorem Store.WellKeyed.save {s : Store} (hk : s.WellKeyed) (job : Job) :
    (Job.save s job).WellKeyed := fun x r hr => by
  simp only [Job.save, Store.setRecord_records] at hr
  split at hr
  · rename_i hx; cases hr; exact hx.symm
  · exact hk x r hr

theorem Store.WellKeyed.setStatus {s : Store} (hk : s.WellKeyed) (id : String) (st : Status) :
    (Job.setStatus s id st).WellKeyed := by
  unfold Job.setStatus
  split
  · exact hk
  · rename_i j hj
    intro x r hr
    simp only [Store.setRecord_records] at hr
    split at hr
    · rename_i hx; cases hr; exact (hk _ _ hj).trans hx.symm
    · exact hk x r hr

theorem Store.WellKeyed.cancel {s : Store} (hk : s.WellKeyed) (job : Job) :
    (Job.cancel s job).WellKeyed := fun x r hr => by
  simp only [Job.cancel, Store.setRecord_records] at hr
  split at hr
  exacts [Option.noConfusion hr, hk x r hr]

end Rq
