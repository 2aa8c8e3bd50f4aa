import Rq.Queue

/-
  rq core, the enumeration and maintenance methods of `Queue` (rq/queue.py lines 72-73 and
  122-194), run by one client with no other client acting: `get_job_ids`, `job_ids`, `count`,
  `is_empty`, `fetch_job`, `get_jobs`, `jobs`, the module helper `compact`, and the method
  `compact`.

  `get_job_ids(offset, length)` asks `LRANGE` for the inclusive end `offset + (length - 1)`.
  `compact()` renames the list to a scratch key and moves the ids that have a record back one
  at a time. Its `while True` loop is given `fuel` iterations (`none` when they run out): with a
  scratch key equal to the queue's own key it would not end.

  * `Queue.getJobIds_slice`, `Queue.getJobIds_to_end`: from an offset `≥ 0`, a length `≥ 0`
    gives the slice `L[offset : offset + length]` (offset 0 with length 0 apart), and the
    length `-1` gives `L[offset:]`.
  * `getJobIds_zero_length_returns_all`: `get_job_ids(0, 0)` returns the whole list: the end
    `-1` is read by `LRANGE` as the last index.
  * `Queue.fetchJobs_eq`: when every record decodes, the fetch loop over a list of ids returns
    each id's record (`None` when there is none) and removes from the queue every id of the list
    that has no record.
  * `jobs_live`: `jobs` returns the jobs of the ids that have a record, in order and with their
    multiplicities, and leaves the list filtered to those ids.
  * `Queue.compactLoop_eq`, `Queue.compact_eq`: on a non-empty list, with a scratch key other
    than the queue's own and any fuel above the list's length, `compact` returns and leaves the
    list filtered to the ids that have a record, and the scratch key empty.
  * `compact_empty_raises`: on an empty list the `RENAME` raises `ResponseError`.
-/

namespace Rq

/-! ## Reading the list -/

/-- `Queue.get_job_ids(offset, length)`: `LRANGE key offset end`, where `end` is the inclusive
    `offset + (length - 1)` for a length `≥ 0` and `length` itself otherwise. -/
def Queue.getJobIds (q : Queue) (offset length : Int) (s : Store) : List String :=
  let start := offset
  let stop := if length ≥ 0 then offset + (length - 1) else length
  s.lrange q.key start stop

/-- `Queue.job_ids`. -/
def Queue.jobIds (q : Queue) (s : Store) : List String := q.getJobIds 0 (-1) s

/-- `Queue.count`: `LLEN key`. -/
def Queue.count (q : Queue) (s : Store) : Nat := s.llen q.key

/-- `Queue.is_empty()`. -/
def Queue.isEmpty (q : Queue) (s : Store) : Bool := q.count s == 0

theorem Queue.getJobIds_slice (q : Queue) (s : Store) {offset length : Int} (ho : 0 ≤ offset)
    (hl : 0 ≤ length) (h : 0 < offset ∨ 0 < length) :
    q.getJobIds offset length s = ((s.lists q.key).drop offset.toNat).take length.toNat := by
  have hstop : ¬ offset + (length - 1) < 0 := by omega
  simp only [Queue.getJobIds, if_pos hl, Store.lrange_of_nonneg _ _ _ ho, hstop, if_false]
  congr 2
  omega

theorem Queue.getJobIds_to_end (q : Queue) (s : Store) {offset : Int} (ho : 0 ≤ offset) :
    q.getJobIds offset (-1) s = (s.lists q.key).drop offset.toNat := by
  simp only [Queue.getJobIds, show ¬ (-1 : Int) ≥ 0 by omega, if_false,
    Store.lrange_of_nonneg _ _ _ ho, show (-1 : Int) < 0 by omega, if_true]
  exact List.take_of_length_le (by simp only [List.length_drop]; omega)

/-- `job_ids` is the whole list. -/
theorem Queue.jobIds_eq (q : Queue) (s : Store) : q.jobIds s = s.lists q.key :=
  q.getJobIds_to_end s (Int.le_refl 0)

theorem Queue.isEmpty_iff (q : Queue) (s : Store) : q.isEmpty s = true ↔ s.lists q.key = [] := by
  simp [Queue.isEmpty, Queue.count, Store.llen]

theorem getJobIds_zero_length_returns_all (q : Queue) (s : Store) :
    q.getJobIds 0 0 s = s.lists q.key := by
  simp only [Queue.getJobIds, le_refl, if_true, Store.lrange_of_nonneg _ _ _ (Int.le_refl 0),
    show (0 : Int) + (0 - 1) < 0 by omega, if_true, Int.toNat_zero, List.drop_zero]
  exact List.take_of_length_le (by omega)

/-! ## Reading the jobs -/

/-- The module helper `compact(lst)`: the items that are not `None`. -/
def compact {α : Type} (lst : List (Option α)) : List α := lst.filterMap id

/-- `Queue.fetch_job(job_id)`: the job, or `None` after removing the id from the queue when it
    has no record; an `UnpickleError` goes through. -/
def Queue.fetchJob (q : Queue) (jobId : String) (s : Store) :
    Except RqError (Option Job) × Store :=
  match Job.fetch s jobId with
  | .ok job => (.ok (some job), s)
  | .error (.noSuchJob _) => (.ok none, (q.remove jobId s).2)
  | .error e => (.error e, s)

/-- `[self.fetch_job(job_id) for job_id in job_ids]`: one `fetch_job` per id, in order; the
    first exception ends it. -/
def Queue.fetchJobs (q : Queue) : List String → Store → Except RqError (List (Option Job)) × Store
  | [], s => (.ok [], s)
  | jobId :: jobIds, s =>
    match q.fetchJob jobId s with
    | (.error e, s) => (.error e, s)
    | (.ok job, s) =>
      match q.fetchJobs jobIds s with
      | (.error e, s) => (.error e, s)
      | (.ok jobs, s) => (.ok (job :: jobs), s)

/-- `Queue.get_jobs(offset, length)`. -/
def Queue.getJobs (q : Queue) (offset length : Int) (s : Store) :
    Except RqError (List Job) × Store :=
  let jobIds := q.getJobIds offset length s
  match q.fetchJobs jobIds s with
  | (.error e, s) => (.error e, s)
  | (.ok jobs, s) => (.ok (compact jobs), s)

/-- A property every `LREM` of the queue's list keeps holds of what `get_jobs` leaves: its only
    writes are the `LREM`s of `fetch_job`. -/
theorem Queue.fetchJobs_preserves (q : Queue) (P : Store → Prop)
    (hrem : ∀ s x, P s → P (q.remove x s).2) :
    ∀ (jobIds : List String) (s : Store), P s → P (q.fetchJobs jobIds s).2
  | [], _, hs => hs
  | x :: jobIds, s, hs => by
    have h₁ : P (q.fetchJob x s).2 := by
      unfold Queue.fetchJob; split
      exacts [hs, hrem s x hs, hs]
    unfold Queue.fetchJobs
    rcases hf : q.fetchJob x s with ⟨_ | _, s'⟩ <;> rw [hf] at h₁ <;> dsimp only
    · exact h₁
    · have h₂ := Queue.fetchJobs_preserves q P hrem jobIds s' h₁
      rcases hr : q.fetchJobs jobIds s' with ⟨_ | _, s''⟩ <;> rw [hr] at h₂ <;> exact h₂

theorem Queue.getJobs_preserves (q : Queue) (P : Store → Prop)
    (hrem : ∀ s x, P s → P (q.remove x s).2) (offset length : Int) {s : Store} (hs : P s) :
    P (q.getJobs offset length s).2 := by
  have h := q.fetchJobs_preserves P hrem (q.getJobIds offset length s) s hs
  unfold Queue.getJobs
  dsimp only
  rcases hr : q.fetchJobs (q.getJobIds offset length s) s with ⟨_ | _, s'⟩ <;> rw [hr] at h <;>
    exact h

/-- `Queue.jobs`. -/
def Queue.jobs (q : Queue) (s : Store) : Except RqError (List Job) × Store := q.getJobs 0 (-1) s

/-- Every record of the store decodes. -/
def Store.Decodable (s : Store) : Prop := ∀ x j, s.records x = some j → j.decodes = true

/-- `fetch_job` on a decodable store: the record, and the id removed when there is none. -/
theorem Queue.fetchJob_eq (q : Queue) {s : Store} (hs : s.Decodable) (x : String) :
    q.fetchJob x s =
      (.ok (s.records x), if Job.exists s x then s else (q.remove x s).2) := by
  cases hr : s.records x with
  | none => simp [Queue.fetchJob, Job.fetch, Job.exists, hr]
  | some j => simp [Queue.fetchJob, Job.fetch, Job.exists, hr, hs x j hr]

theorem Queue.fetchJobs_eq (q : Queue) {s : Store} (hs : s.Decodable) (M : List String) :
    q.fetchJobs M s =
      (.ok (M.map s.records),
        s.setList q.key ((s.lists q.key).filter fun x => Job.exists s x || !decide (x ∈ M))) := by
  induction M generalizing s with
  | nil => simp [Queue.fetchJobs, Store.setList_same]
  | cons x M ih =>
    rw [Queue.fetchJobs, Queue.fetchJob_eq q hs]
    cases hx : Job.exists s x
    · simp only [Bool.false_eq_true, if_false, Queue.remove, Store.lrem]
      rw [ih (s := s.setList q.key _) hs]
      simp only [List.map_cons, Store.setList_records, Store.setList_setList, Job.exists_setList,
        Store.setList_lists, if_true, List.filter_filter]
      congr 3
      funext y
      by_cases hy : y = x <;> simp [hy, hx]
    · simp only [if_true, ih hs, List.map_cons]
      congr 3
      funext y
      by_cases hy : y = x <;> simp [hy, hx]

/-- The fetch loop returns one slot per id it was given. -/
theorem Queue.fetchJobs_length (q : Queue) {M : List String} {s s' : Store}
    {js : List (Option Job)} (h : q.fetchJobs M s = (.ok js, s')) : js.length = M.length := by
  induction M generalizing s js with
  | nil => cases h; rfl
  | cons x M ih =>
    unfold Queue.fetchJobs at h
    split at h
    · cases h
    · split at h
      · cases h
      · rename_i hrest
        cases h
        simp [ih hrest]

/-- Over the whole list, "has a record or is not in the list" is "has a record". -/
theorem filter_live_or_not_mem (s : Store) (L : List String) :
    L.filter (fun x => Job.exists s x || !decide (x ∈ L)) = L.filter (Job.exists s) :=
  List.filter_congr fun x hx => by simp [hx]

theorem jobs_live (q : Queue) (s : Store) (hs : s.Decodable) :
    q.jobs s = (.ok ((s.lists q.key).filterMap s.records),
      s.setList q.key ((s.lists q.key).filter (Job.exists s))) := by
  simp only [Queue.jobs, Queue.getJobs, show q.getJobIds 0 (-1) s = s.lists q.key from q.jobIds_eq s,
    Queue.fetchJobs_eq q hs, compact, List.filterMap_map, Function.id_comp, filter_live_or_not_mem]

/-- The list of `test_jobs` grown to three ids: a stale one on each side of a live one. -/
theorem jobs_live_drops_stale :
    (Queue.new "default").jobs (Job.save (((Store.empty.rpush "rq:queue:default" "u").rpush
      "rq:queue:default" "r").rpush "rq:queue:default" "u") { id := "r" }) =
    (.ok [{ id := "r" }], (Job.save (((Store.empty.rpush "rq:queue:default" "u").rpush
      "rq:queue:default" "r").rpush "rq:queue:default" "u") { id := "r" }).setList
      "rq:queue:default" ["r"]) :=
  jobs_live _ _ fun x j h => by
    simp only [Job.save, Store.setRecord_records, Store.rpush_records] at h
    split at h
    · cases h; rfl
    · cases h

/-! ## Emptying -/

/-- `Queue.empty()`: `get_jobs()`, `DEL key`, then `job.cancel()` for each job fetched. -/
def Queue.empty (q : Queue) (s : Store) : Except RqError Unit × Store :=
  match q.getJobs 0 (-1) s with
  | (.error e, s) => (.error e, s)
  | (.ok jobList, s) => (.ok (), jobList.foldl Job.cancel (s.delete q.key))

@[simp] theorem Job.foldl_cancel_lists (jobs : List Job) (s : Store) :
    (jobs.foldl Job.cancel s).lists = s.lists := by
  induction jobs generalizing s with
  | nil => rfl
  | cons j jobs ih => exact ih _

theorem Job.foldl_cancel_records (jobs : List Job) (s : Store) (y : String) :
    (jobs.foldl Job.cancel s).records y = if ∃ j ∈ jobs, j.id = y then none else s.records y := by
  induction jobs generalizing s with
  | nil => simp
  | cons j jobs ih =>
    rw [List.foldl_cons, ih]
    by_cases hj : j.id = y
    · simp [Job.cancel, hj]
    · simp [Job.cancel, hj, Ne.symm hj]

/-- `empty` on a store whose records decode: the list is gone, and the job of every ID in it that
    has a record is cancelled, in the list's order. -/
theorem Queue.empty_eq (q : Queue) (s : Store) (hs : s.Decodable) :
    q.empty s =
      (.ok (), ((s.lists q.key).filterMap s.records).foldl Job.cancel (s.setList q.key [])) := by
  simp only [Queue.empty, Queue.getJobs, show q.getJobIds 0 (-1) s = s.lists q.key from q.jobIds_eq s,
    Queue.fetchJobs_eq q hs, compact, List.filterMap_map, Function.id_comp, Store.delete,
    Store.setList_setList]

/-! ## Compacting -/

/-- The `while True` loop of `compact`: `LPOP` the scratch list and `RPUSH` each id that has a
    record back onto the queue, for `fuel` iterations (`none` when they run out). -/
def Queue.compactLoop (q : Queue) (scratch : String) : Nat → Store → Option Store
  | 0, _ => none
  | fuel + 1, s =>
    match s.lpop scratch with
    | (none, s) => some s
    | (some jobId, s) =>
      if Job.exists s jobId then q.compactLoop scratch fuel (s.rpush q.key jobId)
      else q.compactLoop scratch fuel s

/-- `Queue.compact()`, `uuid4()` drawn as `uuid`: `RENAME` the list to the scratch key, then the
    loop. A `ResponseError` of the `RENAME` goes through. -/
def Queue.compact (q : Queue) (uuid : String) (fuel : Nat) (s : Store) :
    Option (Except RqError Unit × Store) :=
  let scratch := q.compactKey uuid
  match s.rename q.key scratch with
  | .error e => some (.error e, s)
  | .ok s => (q.compactLoop scratch fuel s).map fun s => (.ok (), s)

section Preserves

variable (q : Queue) (P : Store → Prop)

/-- A property kept by each `LPOP` of the scratch key, and by each `RPUSH` back of the id that
    `LPOP` returned, holds of what the loop leaves. -/
theorem Queue.compactLoop_preserves (scratch : String) (hpop : ∀ s, P s → P (s.lpop scratch).2)
    (hpush : ∀ s x s', P s → s.lpop scratch = (some x, s') → P (s'.rpush q.key x)) :
    ∀ (fuel : Nat) (s s' : Store), P s → q.compactLoop scratch fuel s = some s' → P s'
  | 0, _, _, _, h => nomatch h
  | fuel + 1, s, s', hs, h => by
    have h₁ := hpop s hs
    unfold Queue.compactLoop at h
    rcases hp : s.lpop scratch with ⟨_ | x, s₁⟩ <;> rw [hp] at h h₁
    · exact Option.some.inj h ▸ h₁
    · have ih := Queue.compactLoop_preserves scratch hpop hpush fuel
      dsimp only at h
      split at h
      exacts [ih _ _ (hpush s x s₁ hs hp) h, ih _ _ h₁ h]

/-- A property kept by the `RENAME` and by each step of the loop holds of what `compact` leaves
    when it returns. -/
theorem Queue.compact_preserves (uuid : String) (fuel : Nat)
    (hren : ∀ s s', P s → s.rename q.key (q.compactKey uuid) = .ok s' → P s')
    (hpop : ∀ s, P s → P (s.lpop (q.compactKey uuid)).2)
    (hpush : ∀ s x s', P s → s.lpop (q.compactKey uuid) = (some x, s') →
      P (s'.rpush q.key x))
    {s : Store} (hs : P s) {r : Except RqError Unit × Store} (h : q.compact uuid fuel s = some r) :
    P r.2 := by
  unfold Queue.compact at h
  rcases hr : s.rename q.key (q.compactKey uuid) with e | s₁ <;> simp only [hr] at h
  · exact Option.some.inj h ▸ hs
  · obtain ⟨s', hl, rfl⟩ := Option.map_eq_some'.1 h
    exact q.compactLoop_preserves P _ hpop hpush fuel s₁ s' (hren s s₁ hs hr) hl

end Preserves

/-- The loop appends the scratch list's ids that have a record to the queue's list, in order,
    and leaves the scratch key empty. -/
theorem Queue.compactLoop_eq (q : Queue) {scratch : String} (hkey : scratch ≠ q.key) (s : Store)
    {fuel : Nat} (hfuel : (s.lists scratch).length < fuel) :
    q.compactLoop scratch fuel s =
      some ((s.setList q.key (s.lists q.key ++ (s.lists scratch).filter (Job.exists s))).setList
        scratch []) := by
  obtain ⟨M, hM⟩ : ∃ M, s.lists scratch = M := ⟨_, rfl⟩
  induction M generalizing s fuel with
  | nil =>
    obtain ⟨fuel, rfl⟩ : ∃ f, fuel = f + 1 := ⟨fuel - 1, by omega⟩
    simp [Queue.compactLoop, Store.lpop, hM, Store.setList_same]
  | cons x M ih =>
    obtain ⟨fuel, rfl⟩ : ∃ f, fuel = f + 1 := ⟨fuel - 1, by omega⟩
    have hex : Job.exists (s.setList scratch M) = Job.exists s := rfl
    have hq : (s.setList scratch M).lists q.key = s.lists q.key := by simp [Ne.symm hkey]
    have hf : M.length < fuel := by simp only [hM, List.length_cons] at hfuel; omega
    simp only [Queue.compactLoop, Store.lpop, hM, hex, List.filter_cons]
    cases hx : Job.exists s x
    · rw [if_neg Bool.false_ne_true, ih _ (by simpa using hf) (by simp), hq, hex]
      simp only [Bool.false_eq_true, if_false, Store.setList_lists, if_true]
      rw [Store.setList_comm _ hkey, Store.setList_setList]
    · rw [if_pos rfl, ih _ (by simpa [Store.rpush, hkey] using hf) (by simp [Store.rpush, hkey])]
      simp only [Store.rpush, Store.setList_lists, if_true, hq, if_neg (Ne.symm hkey), if_neg hkey,
        Store.setList_setList, List.append_assoc, List.singleton_append, Job.exists_setList]
      rw [Store.setList_comm _ hkey, Store.setList_setList]

theorem Queue.compact_eq (q : Queue) (uuid : String) (hkey : q.compactKey uuid ≠ q.key)
    (s : Store) (hne : s.lists q.key ≠ []) {fuel : Nat} (hfuel : (s.lists q.key).length < fuel) :
    q.compact uuid fuel s =
      some (.ok (), (s.setList q.key ((s.lists q.key).filter (Job.exists s))).setList
        (q.compactKey uuid) []) := by
  have hren : s.rename q.key (q.compactKey uuid) =
      .ok ((s.setList q.key []).setList (q.compactKey uuid) (s.lists q.key)) := by
    cases hL : s.lists q.key with
    | nil => exact absurd hL hne
    | cons x xs => simp [Store.rename, hL]
  simp only [Queue.compact, hren]
  rw [Queue.compactLoop_eq q hkey _ (by simpa using hfuel)]
  simp only [Store.setList_lists, if_true, if_neg (Ne.symm hkey), Job.exists_setList,
    List.nil_append, Option.map_some']
  rw [Store.setList_comm _ hkey, Store.setList_setList, Store.setList_setList]

/-- `compact` on a queue whose list is empty raises at the `RENAME` and changes nothing. -/
theorem compact_empty_raises (q : Queue) (uuid : String) (fuel : Nat) (s : Store) :
    q.compact uuid fuel (s.setList q.key []) =
      some (.error (.responseError "no such key"), s.setList q.key []) := by
  simp [Queue.compact, Store.rename]

end Rq
