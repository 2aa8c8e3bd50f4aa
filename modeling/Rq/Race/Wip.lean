import Rq.ChildQueue
import Rq.Interleave

/-
  `WIPQueue.remove_expired_jobs()` (lines 536-542) run together with workers' `add_job` calls
  (lines 516-524) on the same WIP queue.

  `remove_expired_jobs` reads the clock as `t`, reads the members scored at most `t`
  (`ZRANGEBYSCORE`), and removes them by name (`ZREM`). The read and the `ZREM` are separate
  round trips, and `ZREM` removes a member whatever its score is by then: a worker that
  re-claims an expired ID between the two loses its new entry.

  * `removeExpired_race`: once `remove_expired_jobs` has returned, when every worker's deadline
    is after `t`, an ID has no entry when its initial entry was scored at most `t` and no
    `add_job` of it landed before the read or after the `ZREM`; otherwise it has the score of
    its last `add_job`, or its initial score when no `add_job` named it.
  * `removeExpired_drops_reclaim`: a re-claim between the read and the `ZREM` is removed.

  The proof is an invariant of every reachable world (`wipInv_run`): the log splits at the two
  commands of `remove_expired_jobs`, and each member's entries follow from the three parts.
-/

namespace Rq

/-! ## The clients -/

/-- Where a running `remove_expired_jobs` is: before its read, before its `ZREM` of the IDs it
    read, or returned. -/
inductive ExpirePc
  | range
  | rem (toRemove : List String)
  | done
  deriving DecidableEq, Repr

/-- One command of `q.remove_expired_jobs()`, the clock read as `t`. -/
def WIPQueue.removeExpiredStep (q : Queue) (t : Nat) : ExpirePc → Store → ExpirePc × Store
  | .range, s => (.rem (s.zrangebyscore q.key t), s)
  | .rem toRemove, s => (.done, if toRemove.length > 0 then (s.zrem q.key toRemove).2 else s)
  | .done, s => (.done, s)

/-- Run alone, the two commands are `remove_expired_jobs`. -/
theorem WIPQueue.removeExpiredStep_alone (q : Queue) (t : Nat) (s : Store) :
    WIPQueue.removeExpiredStep q t (WIPQueue.removeExpiredStep q t .range s).1 s =
      (.done, WIPQueue.removeExpiredJobs q t s) := rfl

/-- What the steps record: the read of `remove_expired_jobs`, its `ZREM`, and each `add_job`. -/
inductive WipEvent
  | snapshot (toRemove : List String)
  | removed
  | added (jobId : String) (rank : Nat)
  deriving DecidableEq, Repr

/-- The mark a command of `remove_expired_jobs` leaves in the log. -/
def ExpirePc.events (q : Queue) (t : Nat) : ExpirePc → Store → List WipEvent
  | .range, s => [.snapshot (s.zrangebyscore q.key t)]
  | .rem _, _ => [.removed]
  | .done, _ => []

/-- The clients: `q.remove_expired_jobs()`, and workers each making one `q.add_job(job)` with
    the clock read as `now`. -/
inductive WipClient
  | remover (pc : ExpirePc)
  | adder (call : Option (Job × Nat))
  deriving DecidableEq, Repr

/-- One step of a client. -/
def WipClient.step (q : Queue) (t : Nat) :
    WipClient → Nat → Store → WipClient × Store × List WipEvent
  | .remover pc, _, s =>
    let r := WIPQueue.removeExpiredStep q t pc s
    (.remover r.1, r.2, pc.events q t s)
  | .adder (some (job, now)), _, s =>
    (.adder none, WIPQueue.addJob q job now s, [.added job.id (ChildQueue.rank q job now)])
  | .adder none, _, s => (.adder none, s, [])

/-- `q.remove_expired_jobs()` with the clock read as `t`, and one worker per call, run from
    `s₀`. -/
def wipRun (q : Queue) (t : Nat) (calls : List (Job × Nat)) (s₀ : Store)
    (sched : List (Nat × Nat)) : World WipClient WipEvent :=
  (World.mk s₀ (.remover .range :: calls.map fun c => .adder (some c)) []).run
    (WipClient.step q t) sched

namespace WipEvent

/-- The rank of the last `add_job` of `x` in the log. -/
def lastRank (x : String) : List WipEvent → Option Nat
  | [] => none
  | .added y r :: l => (lastRank x l).or (if y = x then some r else none)
  | .snapshot _ :: l | .removed :: l => lastRank x l

/-- The log before the read of `remove_expired_jobs`. -/
def beforeSnapshot : List WipEvent → List WipEvent
  | [] => []
  | .snapshot _ :: _ => []
  | .removed :: l => .removed :: beforeSnapshot l
  | .added y r :: l => .added y r :: beforeSnapshot l

/-- The log after the `ZREM` of `remove_expired_jobs`. -/
def afterRemoval : List WipEvent → List WipEvent
  | [] => []
  | .removed :: l => l
  | .snapshot _ :: l | .added _ _ :: l => afterRemoval l

end WipEvent

/-- The re-claim lands between the read and the `ZREM`: the worker's deadline is after the
    clock reading, yet its entry is gone once both calls have returned. -/
theorem removeExpired_drops_reclaim :
    (let q := WIPQueue.ofParent (Queue.new "default");
      let s₀ : Store :=
        { Store.empty with zsets := fun k => if k = q.key then [("j", 5)] else [] };
      let w := wipRun q 10 [({ id := "j" }, 10)] s₀ [(0, 0), (1, 0), (0, 0)];
      w.clients = [.remover .done, .adder none] ∧ 10 < ChildQueue.rank q { id := "j" } 10 ∧
        w.log = [.snapshot ["j"], .added "j" 190, .removed] ∧
        w.store.zscore q.key "j" = none) := by
  decide

/-! ## The log -/

namespace WipEvent

@[simp] theorem lastRank_append (x : String) (l l' : List WipEvent) :
    lastRank x (l ++ l') = (lastRank x l').or (lastRank x l) := by
  induction l with
  | nil => simp [lastRank]
  | cons e l ih => cases e <;> simp [lastRank, ih, Option.or_assoc]

@[simp] theorem lastRank_added (x y : String) (r : Nat) :
    lastRank x [.added y r] = if y = x then some r else none := by
  simp [lastRank]

@[simp] theorem lastRank_snapshot (x : String) (ids : List String) :
    lastRank x [.snapshot ids] = none := rfl

@[simp] theorem lastRank_removed (x : String) : lastRank x [.removed] = none := rfl

theorem added_of_lastRank {x : String} {r : Nat} :
    ∀ {l : List WipEvent}, lastRank x l = some r → .added x r ∈ l
  | [], h => by simp [lastRank] at h
  | .snapshot _ :: l, h => .tail _ (added_of_lastRank h)
  | .removed :: l, h => .tail _ (added_of_lastRank h)
  | .added y r' :: l, h => by
    simp only [lastRank] at h
    cases hl : lastRank x l with
    | some _ => rw [hl] at h; cases h; exact .tail _ (added_of_lastRank hl)
    | none => rw [hl] at h; split at h <;> simp_all

/-- Only workers' `add_job`s. -/
def AddsOnly (l : List WipEvent) : Prop := ∀ e ∈ l, ∃ y r, e = .added y r

theorem AddsOnly.append {l l' : List WipEvent} (h : AddsOnly l) (h' : AddsOnly l') :
    AddsOnly (l ++ l') := by
  intro e he
  rcases List.mem_append.1 he with he | he
  exacts [h e he, h' e he]

theorem addsOnly_added (y : String) (r : Nat) : AddsOnly [.added y r] := by
  simp [AddsOnly]

theorem beforeSnapshot_of_adds {A : List WipEvent} (hA : AddsOnly A) (ids : List String)
    (l : List WipEvent) : beforeSnapshot (A ++ .snapshot ids :: l) = A := by
  induction A with
  | nil => rfl
  | cons e A ih =>
    obtain ⟨y, r, rfl⟩ := hA e (.head _)
    simp [beforeSnapshot, ih fun e he => hA e (.tail _ he)]

theorem afterRemoval_of_adds {A : List WipEvent} (hA : AddsOnly A) (l : List WipEvent) :
    afterRemoval (A ++ l) = afterRemoval l := by
  induction A with
  | nil => rfl
  | cons e A ih =>
    obtain ⟨y, r, rfl⟩ := hA e (.head _)
    simp [afterRemoval, ih fun e he => hA e (.tail _ he)]

/-- `x`'s entries as the log's `add_job`s leave them: its last one, else its initial entries. -/
def addedEntries (s₀ : Store) (k x : String) (log : List WipEvent) : List (String × Nat) :=
  match lastRank x log with
  | some r => [(x, r)]
  | none => s₀.zentries k x

theorem addedEntries_added (s₀ : Store) (k x : String) (log : List WipEvent) (y : String)
    (r : Nat) : addedEntries s₀ k x (log ++ [.added y r]) =
      if y = x then [(x, r)] else addedEntries s₀ k x log := by
  unfold addedEntries
  by_cases h : y = x <;> simp [h]

theorem addedEntries_mark (s₀ : Store) (k x : String) (log : List WipEvent) {e : WipEvent}
    (he : lastRank x [e] = none) :
    addedEntries s₀ k x (log ++ [e]) = addedEntries s₀ k x log := by
  simp only [addedEntries, lastRank_append, he, Option.none_or]

theorem addedEntries_zscore (s₀ : Store) (k x : String) (log : List WipEvent) :
    ((addedEntries s₀ k x log).head?).map (·.2) = (lastRank x log).or (s₀.zscore k x) := by
  unfold addedEntries
  cases lastRank x log <;> simp [Store.zscore_eq_zentries]

end WipEvent

open WipEvent

/-! ## The invariant -/

section Invariant

variable (q : Queue) (t : Nat) (s₀ : Store)

/-- `toRemove` is what the read returns once the `add_job`s of `A` have landed. -/
def ReadOf (A : List WipEvent) (toRemove : List String) : Prop :=
  ∀ x, x ∈ toRemove ↔ x ∈ s₀.zrangebyscore q.key t ∧ lastRank x A = none

/-- Where the log and the WIP set stand, by the point `remove_expired_jobs` has reached. Before
    its read, only `add_job`s have landed, each with a deadline after `t`. After it, the log is
    split at the read (and at the `ZREM`), and the `ZREM` has emptied the members it read that
    were not re-added after it. -/
def WipState : ExpirePc → Store → List WipEvent → Prop
  | .range, s, log =>
    (∀ e ∈ log, ∃ y r, e = .added y r ∧ t < r) ∧
      ∀ x, s.zentries q.key x = addedEntries s₀ q.key x log
  | .rem toRemove, s, log =>
    ∃ A B, log = A ++ .snapshot toRemove :: B ∧ AddsOnly A ∧ AddsOnly B ∧
      ReadOf q t s₀ A toRemove ∧ ∀ x, s.zentries q.key x = addedEntries s₀ q.key x log
  | .done, s, log =>
    ∃ A toRemove B C, log = A ++ .snapshot toRemove :: (B ++ .removed :: C) ∧ AddsOnly A ∧
      AddsOnly B ∧ ReadOf q t s₀ A toRemove ∧
      ∀ x, s.zentries q.key x =
        if x ∈ toRemove ∧ lastRank x C = none then [] else addedEntries s₀ q.key x log

/-- A worker that has its `add_job` still to make gives a deadline after `t`. -/
def WipClient.Adder : WipClient → Prop
  | .adder (some (job, now)) => t < ChildQueue.rank q job now
  | .adder none => True
  | .remover _ => False

/-- `remove_expired_jobs` is client `0`, every other client is a worker, and the state is as
    its point says. -/
def WipInv (w : World WipClient WipEvent) : Prop :=
  ∃ pc rest, w.clients = .remover pc :: rest ∧ (∀ c ∈ rest, WipClient.Adder q t c) ∧
    WipState q t s₀ pc w.store w.log

variable {q t s₀}

/-- A worker's `ZADD` keeps the state, wherever `remove_expired_jobs` is; before its read, the
    deadline must be after `t`. -/
theorem wipState_addJob {pc : ExpirePc} {s : Store} {log : List WipEvent} (job : Job)
    (now : Nat) (hr : t < ChildQueue.rank q job now) (h : WipState q t s₀ pc s log) :
    WipState q t s₀ pc (WIPQueue.addJob q job now s)
      (log ++ [.added job.id (ChildQueue.rank q job now)]) := by
  have hz : ∀ x, (WIPQueue.addJob q job now s).zentries q.key x =
      if job.id = x then [(x, ChildQueue.rank q job now)] else s.zentries q.key x :=
    ChildQueue.addJob_zentries q job now s
  cases pc with
  | range =>
    obtain ⟨hlog, hs⟩ := h
    refine ⟨fun e he => ?_, fun x => by rw [hz, hs, addedEntries_added]⟩
    rcases List.mem_append.1 he with he | he
    · exact hlog e he
    · exact ⟨_, _, List.mem_singleton.1 he, hr⟩
  | rem toRemove =>
    obtain ⟨A, B, hlog, hA, hB, hread, hs⟩ := h
    refine ⟨A, B ++ [.added job.id (ChildQueue.rank q job now)], by simp [hlog], hA,
      hB.append (addsOnly_added _ _), hread, fun x => by rw [hz, hs, addedEntries_added]⟩
  | done =>
    obtain ⟨A, toRemove, B, C, hlog, hA, hB, hread, hs⟩ := h
    refine ⟨A, toRemove, B, C ++ [.added job.id (ChildQueue.rank q job now)], by simp [hlog], hA,
      hB, hread, fun x => ?_⟩
    rw [hz, hs, addedEntries_added]
    by_cases hx : job.id = x <;> simp [hx]

/-- The read of `remove_expired_jobs` returns the members whose initial entry has expired and
    that no `add_job` has re-added: every re-added one has a deadline after `t`. -/
theorem readOf_range {s : Store} {log : List WipEvent}
    (hlog : ∀ e ∈ log, ∃ y r, e = .added y r ∧ t < r)
    (hs : ∀ x, s.zentries q.key x = addedEntries s₀ q.key x log) :
    ReadOf q t s₀ log (s.zrangebyscore q.key t) := by
  intro x
  rw [Store.mem_zrangebyscore, hs, addedEntries]
  cases hl : lastRank x log with
  | none => simp [Store.mem_zrangebyscore]
  | some r =>
    obtain ⟨y, r', he, hr⟩ := hlog _ (added_of_lastRank hl)
    cases he
    simp only [List.mem_singleton, exists_eq_left, reduceCtorEq, and_false, iff_false, not_le]
    exact hr

/-- Each command of `remove_expired_jobs` keeps the state. -/
theorem wipState_removeExpiredStep {pc : ExpirePc} {s : Store} {log : List WipEvent}
    (h : WipState q t s₀ pc s log) :
    WipState q t s₀ (WIPQueue.removeExpiredStep q t pc s).1
      (WIPQueue.removeExpiredStep q t pc s).2 (log ++ pc.events q t s) := by
  cases pc with
  | range =>
    obtain ⟨hlog, hs⟩ := h
    refine ⟨log, [], rfl, fun e he => ?_, by simp [AddsOnly], readOf_range hlog hs, fun x => ?_⟩
    · obtain ⟨y, r, he, -⟩ := hlog e he
      exact ⟨y, r, he⟩
    · rw [ExpirePc.events, addedEntries_mark _ _ _ _ (lastRank_snapshot x _), ← hs]
      rfl
  | rem toRemove =>
    obtain ⟨A, B, hlog, hA, hB, hread, hs⟩ := h
    refine ⟨A, toRemove, B, [], by simp [hlog, ExpirePc.events], hA, hB, hread, fun x => ?_⟩
    simp only [WIPQueue.removeExpiredStep, ExpirePc.events,
      addedEntries_mark _ _ _ _ (lastRank_removed x), lastRank, and_true]
    split
    · rw [Store.zentries_zrem, hs]
    · have : toRemove = [] := List.eq_nil_of_length_eq_zero (by omega)
      simp [this, hs]
  | done => simpa [WIPQueue.removeExpiredStep, ExpirePc.events] using h

/-- A worker's step keeps it a worker and keeps the state. -/
theorem WipClient.adder_step {c : WipClient} (hc : c.Adder q t) (n : Nat) {pc : ExpirePc}
    {s : Store} {log : List WipEvent} (h : WipState q t s₀ pc s log) :
    (c.step q t n s).1.Adder q t ∧
      WipState q t s₀ pc (c.step q t n s).2.1 (log ++ (c.step q t n s).2.2) :=
  match c, hc with
  | .adder none, _ => ⟨trivial, by simpa [WipClient.step] using h⟩
  | .adder (some (job, now)), hr => ⟨trivial, wipState_addJob job now hr h⟩

theorem wipInv_tick {w : World WipClient WipEvent} (i n : Nat) (h : WipInv q t s₀ w) :
    WipInv q t s₀ (w.tick (WipClient.step q t) i n) := by
  obtain ⟨pc, rest, hcl, hrest, hst⟩ := h
  cases i with
  | zero =>
    rw [World.tick_of_get n (show w.clients[0]? = some (.remover pc) by simp [hcl])]
    exact ⟨_, rest, by simp [hcl, WipClient.step], hrest, wipState_removeExpiredStep hst⟩
  | succ k =>
    cases hc : rest[k]? with
    | none =>
      rw [World.tick_of_none n (by simp [hcl, hc])]
      exact ⟨pc, rest, hcl, hrest, hst⟩
    | some c =>
      rw [World.tick_of_get n (show w.clients[k + 1]? = some c by simp [hcl, hc])]
      obtain ⟨hc', hst'⟩ := WipClient.adder_step (hrest c (List.getElem?_mem hc)) n hst
      refine ⟨pc, rest.set k (c.step q t n w.store).1, by simp [hcl], fun d hd => ?_, hst'⟩
      rcases List.mem_or_eq_of_mem_set hd with hd | rfl
      exacts [hrest d hd, hc']

theorem wipInv_run (sched : List (Nat × Nat)) {w : World WipClient WipEvent}
    (h : WipInv q t s₀ w) : WipInv q t s₀ (w.run (WipClient.step q t) sched) :=
  World.run_induction _ (fun _ i n hw => wipInv_tick i n hw) sched w h

end Invariant

/-! ## The race -/

/-- Once `remove_expired_jobs` has returned, each ID's score, when every worker's deadline is
    after the clock reading `t`: an ID has no entry when its initial entry was scored at most
    `t` and no `add_job` of it landed before the read or after the `ZREM`; otherwise it has the
    score of its last `add_job`, or its initial score when no `add_job` named it. -/
theorem removeExpired_race (q : Queue) (t : Nat) (calls : List (Job × Nat)) (s₀ : Store)
    (sched : List (Nat × Nat)) (hrank : ∀ c ∈ calls, t < ChildQueue.rank q c.1 c.2)
    (hdone : (wipRun q t calls s₀ sched).clients[0]? = some (.remover .done)) (x : String) :
    (wipRun q t calls s₀ sched).store.zscore q.key x =
      if x ∈ s₀.zrangebyscore q.key t ∧
          lastRank x (beforeSnapshot (wipRun q t calls s₀ sched).log) = none ∧
          lastRank x (afterRemoval (wipRun q t calls s₀ sched).log) = none
      then none
      else (lastRank x (wipRun q t calls s₀ sched).log).or (s₀.zscore q.key x) := by
  have hinit :
      WipInv q t s₀ ⟨s₀, .remover .range :: calls.map fun c => .adder (some c), []⟩ :=
    ⟨.range, _, rfl, fun c hc => by
      obtain ⟨⟨job, now⟩, hm, rfl⟩ := List.mem_map.1 hc
      exact hrank _ hm,
      by simp, fun x => by simp [addedEntries, lastRank]⟩
  obtain ⟨pc, rest, hcl, -, hst⟩ := wipInv_run sched hinit
  rw [← wipRun] at hcl hst
  rw [hcl] at hdone
  simp only [List.getElem?_cons_zero, Option.some.injEq, WipClient.remover.injEq] at hdone
  subst hdone
  obtain ⟨A, toRemove, B, C, hlog, hA, hB, hread, hs⟩ := hst
  have hC : afterRemoval (wipRun q t calls s₀ sched).log = C := by
    rw [hlog, afterRemoval_of_adds hA, afterRemoval, afterRemoval_of_adds hB]; rfl
  rw [hC, hlog, beforeSnapshot_of_adds hA, ← hlog, Store.zscore_eq_zentries, hs]
  have hcond : x ∈ toRemove ∧ lastRank x C = none ↔
      x ∈ s₀.zrangebyscore q.key t ∧ lastRank x A = none ∧ lastRank x C = none := by
    rw [hread x, and_assoc]
  by_cases h : x ∈ toRemove ∧ lastRank x C = none
  · rw [if_pos h, if_pos (hcond.1 h)]
    rfl
  · rw [if_neg h, if_neg (mt hcond.2 h), addedEntries_zscore]

/-- The run of `removeExpired_drops_reclaim`, where the one worker re-claims `j` between the read
    and the `ZREM`. -/
theorem removeExpired_race_reclaimed :
    (let q := WIPQueue.ofParent (Queue.new "default");
      let s₀ : Store :=
        { Store.empty with zsets := fun k => if k = q.key then [("j", 5)] else [] };
      let w := wipRun q 10 [({ id := "j" }, 10)] s₀ [(0, 0), (1, 0), (0, 0)];
      (∀ c ∈ [(({ id := "j" } : Job), 10)], 10 < ChildQueue.rank q c.1 c.2) ∧
        w.clients[0]? = some (.remover .done) ∧
        w.store.zscore q.key "j" =
          if "j" ∈ s₀.zrangebyscore q.key 10 ∧ lastRank "j" (beforeSnapshot w.log) = none ∧
              lastRank "j" (afterRemoval w.log) = none
          then none
          else (lastRank "j" w.log).or (s₀.zscore q.key "j")) :=
  ⟨by decide, by decide,
    removeExpired_race (WIPQueue.ofParent (Queue.new "default")) 10 [({ id := "j" }, 10)]
      { Store.empty with
        zsets := fun k => if k = (WIPQueue.ofParent (Queue.new "default")).key then [("j", 5)]
          else [] }
      [(0, 0), (1, 0), (0, 0)] (by decide) (by decide) "j"⟩

end Rq
