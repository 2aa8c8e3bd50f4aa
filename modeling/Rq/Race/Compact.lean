import Rq.Interleave
import Rq.Maintenance

/-
  `Queue.compact` (lines 182-194) run together with producers pushing onto the same queue
  (`push_job_id`, `enqueue_job`) and consumers calling `dequeue`.

  `compact` renames the list to a fresh scratch key, then pops the scratch key head-first and
  re-appends each ID that has a record; each of these is its own Redis command. A push that
  lands after the rename goes to the primary key, which the rename left empty, ahead of the
  survivors not yet re-appended.

  * `compact_interleaves`: the peers push IDs that had a record at the start, or enqueue jobs,
    fresh ones included. Once the compaction has returned, the IDs consumers popped (less the
    IDs of the initial list that had no record), followed by the queue's list, interleave two
    sequences, each kept in order: the survivors of the initial list followed by the pushes
    that landed before the rename, and the pushes that landed after it. Nothing is lost or
    duplicated (`Merge.perm`), but order across the two sequences is not kept.
  * `compact_push_overtakes`: one push after the rename ends ahead of the one survivor.
  * `Queue.compactStep_alone`: run alone for enough steps, the machine ends with the result and
    the store of the sequential `Queue.compact` of `Rq.Maintenance`, on every list.

  The proof is an invariant of every reachable world (`compactInv_run`): the compactor's
  state, read from the primary list, the scratch list and the log (`compactState`), is kept
  by the compactor's steps (`compactState_step`) and by any step of a peer, which either
  leaves the primary list alone, appends a live ID or pops its head (`peer_lists`). The ID the
  compactor checks has a record exactly when it is live (`compactAfter_check_live`), because
  no step deletes a record, an ID of the initial list gets none it did not have, and an
  `enqueue_job` peer saves its job before it pushes (`peer_records`).
-/

namespace Rq

/-! ## Interleavings of two sequences -/

/-- `c` interleaves `a` and `b`, keeping the order of each. -/
inductive Merge {α : Type} : List α → List α → List α → Prop
  | nil : Merge [] [] []
  | left {a b c : List α} (x : α) : Merge a b c → Merge (x :: a) b (x :: c)
  | right {a b c : List α} (x : α) : Merge a b c → Merge a (x :: b) (x :: c)

namespace Merge

variable {α : Type} {a b c : List α}

theorem self_nil : ∀ a : List α, Merge a [] a
  | [] => .nil
  | x :: a => .left x (self_nil a)

theorem snoc_left (x : α) (h : Merge a b c) : Merge (a ++ [x]) b (c ++ [x]) := by
  induction h with
  | nil => exact .left x .nil
  | left y _ ih => exact .left y ih
  | right y _ ih => exact .right y ih

theorem snoc_right (x : α) (h : Merge a b c) : Merge a (b ++ [x]) (c ++ [x]) := by
  induction h with
  | nil => exact .right x .nil
  | left y _ ih => exact .left y ih
  | right y _ ih => exact .right y ih

/-- An interleaving loses and duplicates nothing. -/
theorem perm (h : Merge a b c) : c.Perm (a ++ b) := by
  induction h with
  | nil => exact .nil
  | left x _ ih => exact ih.cons x
  | right x _ ih => exact (ih.cons x).trans List.perm_middle.symm

end Merge

/-! ## The clients -/

/-- Where a running `compact` is: before the `RENAME`, before an `LPOP` of the scratch key,
    holding a popped ID before its `EXISTS` or before its `RPUSH`, or returned. -/
inductive CompactPc
  | rename
  | pop
  | check (jobId : String)
  | push (jobId : String)
  | done (err : Option RqError)
  deriving DecidableEq, Repr

/-- One command of `q.compact()` with scratch key `scratch`. -/
def Queue.compactStep (q : Queue) (scratch : String) : CompactPc → Store → CompactPc × Store
  | .rename, s =>
    match s.rename q.key scratch with
    | .error e => (.done (some e), s)
    | .ok s' => (.pop, s')
  | .pop, s =>
    match s.lpop scratch with
    | (none, s') => (.done none, s')
    | (some jobId, s') => (.check jobId, s')
  | .check jobId, s => if Job.exists s jobId then (.push jobId, s) else (.pop, s)
  | .push jobId, s => (.pop, s.rpush q.key jobId)
  | .done err, s => (.done err, s)

/-- What the steps of a compaction run record: the `RENAME`, and each ID pushed onto or popped
    from the queue's list. -/
inductive CompactEvent
  | renamed
  | pushed (jobId : String)
  | popped (jobId : String)
  deriving DecidableEq, Repr

namespace CompactEvent

/-- The IDs pushed onto the queue's list, in the order the pushes landed. -/
def pushes : List CompactEvent → List String :=
  List.filterMap fun | .pushed x => some x | _ => none

/-- The IDs consumers popped from the queue's list, in the order of the pops. -/
def pops : List CompactEvent → List String :=
  List.filterMap fun | .popped x => some x | _ => none

@[simp] theorem pushes_append (l l' : List CompactEvent) :
    pushes (l ++ l') = pushes l ++ pushes l' := List.filterMap_append _ _ _
@[simp] theorem pops_append (l l' : List CompactEvent) :
    pops (l ++ l') = pops l ++ pops l' := List.filterMap_append _ _ _
@[simp] theorem pushes_nil : pushes [] = [] := rfl
@[simp] theorem pops_nil : pops [] = [] := rfl
@[simp] theorem pushes_renamed (l : List CompactEvent) : pushes (.renamed :: l) = pushes l := rfl
@[simp] theorem pops_renamed (l : List CompactEvent) : pops (.renamed :: l) = pops l := rfl
@[simp] theorem pushes_pushed (x : String) (l : List CompactEvent) :
    pushes (.pushed x :: l) = x :: pushes l := rfl
@[simp] theorem pops_pushed (x : String) (l : List CompactEvent) :
    pops (.pushed x :: l) = pops l := rfl
@[simp] theorem pushes_popped (x : String) (l : List CompactEvent) :
    pushes (.popped x :: l) = pushes l := rfl
@[simp] theorem pops_popped (x : String) (l : List CompactEvent) :
    pops (.popped x :: l) = x :: pops l := rfl

end CompactEvent

open CompactEvent

/-- The clients of a compaction run: the compactor, `push_job_id` and `enqueue_job` callers,
    and `dequeue` callers, all on the same queue. -/
inductive CompactClient
  | compactor (pc : CompactPc)
  | pusher (jobId : String) (pushed : Bool)
  | enqueuer (job : Job) (pc : Option EnqueueJobPc)
  | consumer (pc : DequeuePc)
  deriving DecidableEq, Repr

/-- One step of a client of a compaction of `q`. -/
def CompactClient.step (q : Queue) (scratch : String) :
    CompactClient → Nat → Store → CompactClient × Store × List CompactEvent
  | .compactor pc, _, s =>
    let r := q.compactStep scratch pc s
    (.compactor r.1, r.2, if pc = .rename then [.renamed] else [])
  | .pusher x false, _, s => (.pusher x true, q.pushJobId x s, [.pushed x])
  | .pusher x true, _, s => (.pusher x true, s, [])
  | .enqueuer job (some pc), _, s =>
    let r := q.enqueueJobStep job pc s
    (.enqueuer job r.1, r.2, if pc = .push then [.pushed job.id] else [])
  | .enqueuer job none, _, s => (.enqueuer job none, s, [])
  | .consumer pc, _, s =>
    let r := q.dequeueStep pc s
    (.consumer r.1, r.2, match pc, r.1 with
      | .pop _, .fetch _ x => [.popped x]
      | _, _ => [])

/-- `compact` on `q` with scratch key for `uuid`, run from `s₀` together with `peers`. -/
def compactRun (q : Queue) (uuid : String) (s₀ : Store) (peers : List CompactClient)
    (sched : List (Nat × Nat)) : World CompactClient CompactEvent :=
  (World.mk s₀ (.compactor .rename :: peers) []).run (CompactClient.step q (q.compactKey uuid))
    sched

/-- One push after the rename: the compaction returns, and the pushed ID is ahead of the one
    survivor of the initial list. -/
theorem compact_push_overtakes :
    (let q := Queue.new "default";
      let s₀ := (Job.save (Job.save Store.empty { id := "a" }) { id := "x" }).rpush q.key "a";
      let w := compactRun q "u" s₀ [.pusher "x" false]
        [(0, 0), (1, 0), (0, 0), (0, 0), (0, 0), (0, 0)];
      w.clients.head? = some (.compactor (.done none)) ∧ pops w.log = [] ∧
        pushes w.log = ["x"] ∧ w.store.lists q.key = ["x", "a"]) := by
  decide

/-! ## The invariant -/

section Invariant

variable (L : List String) (live : String → Bool)

/-- The IDs the compactor has still to re-append or drop, the one it holds first, given the
    scratch list `sc`. -/
def CompactPc.pending (sc : List String) : CompactPc → List String
  | .rename | .pop => sc
  | .check x | .push x => x :: sc
  | .done _ => []

/-- Before the rename: the scratch list is empty, and the primary list `main` is `L` with the
    pushes appended and the pops taken from its head. -/
def compactBefore (main sc : List String) (log : List CompactEvent) : Prop :=
  sc = [] ∧ pops log ++ main = L ++ pushes log

/-- After the rename: the survivors of `L` and the pushes before the rename are `D`, the IDs
    re-appended so far, followed by the live IDs the compactor still holds; `D` and the pushes
    after the rename interleave into the live pops followed by `main`. -/
def compactAfter (pc : CompactPc) (main sc : List String) (log : List CompactEvent) : Prop :=
  (∀ x, pc = .push x → live x) ∧ (∀ x ∈ main, live x) ∧
    ∃ pre post D, log = pre ++ .renamed :: post ∧
      L.filter live ++ pushes pre = D ++ (pc.pending sc).filter live ∧
      Merge D (pushes post) ((pops log).filter live ++ main)

/-- Where a compaction run stands. -/
def compactState (pc : CompactPc) (main sc : List String) (log : List CompactEvent) : Prop :=
  if pc = .rename then compactBefore L main sc log else compactAfter L live pc main sc log

/-- What one step of a peer does to the primary list and the log. -/
inductive PeerEffect (main : List String) : List String → List CompactEvent → Prop
  | quiet : PeerEffect main main []
  | push (x : String) : live x → PeerEffect main (main ++ [x]) [.pushed x]
  | pop {main' : List String} (z : String) : main = z :: main' →
      PeerEffect main main' [.popped z]

theorem compactBefore_peer {main main' sc : List String} {log evs : List CompactEvent}
    (he : PeerEffect live main main' evs) (h : compactBefore L main sc log) :
    compactBefore L main' sc (log ++ evs) := by
  obtain ⟨hsc, hl⟩ := h
  refine ⟨hsc, ?_⟩
  cases he with
  | quiet => simpa using hl
  | push x _ => simpa [← List.append_assoc] using hl
  | pop z hz => subst hz; simpa using hl

theorem compactAfter_peer {pc : CompactPc} {main main' sc : List String}
    {log evs : List CompactEvent} (he : PeerEffect live main main' evs)
    (h : compactAfter L live pc main sc log) : compactAfter L live pc main' sc (log ++ evs) := by
  obtain ⟨hpc, hmain, pre, post, D, rfl, hA, hM⟩ := h
  cases he with
  | quiet => exact ⟨hpc, hmain, pre, post, D, by simp, hA, by simpa using hM⟩
  | push x hx =>
    refine ⟨hpc, ?_, pre, post ++ [.pushed x], D, by simp, hA, ?_⟩
    · simpa [or_imp, forall_and] using ⟨hmain, hx⟩
    · simpa [← List.append_assoc] using hM.snoc_right x
  | pop z hz =>
    subst hz
    have hz : live z := hmain z (List.mem_cons_self _ _)
    refine ⟨hpc, fun x hx => hmain x (List.mem_cons_of_mem _ hx), pre, post ++ [.popped z], D,
      by simp, hA, ?_⟩
    simpa [hz] using hM

theorem compactState_peer {pc : CompactPc} {main main' sc : List String}
    {log evs : List CompactEvent} (he : PeerEffect live main main' evs)
    (h : compactState L live pc main sc log) : compactState L live pc main' sc (log ++ evs) := by
  unfold compactState at *
  split
  · exact compactBefore_peer L live he (by simpa [*] using h)
  · exact compactAfter_peer L live he (by simpa [*] using h)

end Invariant

/-! ## Peers -/

section Peers

variable (L : List String) (rec₀ : String → Bool)

/-- The IDs a compaction of the initial list `L` keeps when it meets them: those of `L` that had
    a record at the start (`rec₀`), and every ID not in `L`, which a peer pushes only once it has
    a record. -/
def compactLive (x : String) : Bool := rec₀ x || !L.contains x

/-- A peer of the compaction: a `push_job_id` of an ID that had a record at the start, an
    `enqueue_job` of a job whose ID had one or is not in `L` (a fresh job), or a consumer. -/
def CompactClient.peerOk : CompactClient → Bool
  | .compactor _ => false
  | .pusher x _ => rec₀ x
  | .enqueuer job _ => compactLive L rec₀ job.id
  | .consumer _ => true

/-- An `enqueue_job` peer about to push has saved its job. -/
def CompactClient.ready (s : Store) : CompactClient → Bool
  | .enqueuer job (some .push) => (s.records job.id).isSome
  | _ => true

/-- The records a compaction run relies on: every ID that had a record at the start still has
    one, and an ID of `L` has one exactly when it had. -/
def RecordsKept (s : Store) : Prop :=
  (∀ x, rec₀ x = true → (s.records x).isSome = true) ∧ ∀ x ∈ L, (s.records x).isSome = rec₀ x

theorem compactLive_of_mem {x : String} (hx : x ∈ L) : compactLive L rec₀ x = rec₀ x := by
  simp [compactLive, hx]

theorem compactLive_of_not_mem {x : String} (hx : x ∉ L) : compactLive L rec₀ x = true := by
  simp [compactLive, hx]

theorem filter_compactLive : L.filter (compactLive L rec₀) = L.filter rec₀ :=
  List.filter_congr fun _ hx => compactLive_of_mem L rec₀ hx

/-- Readiness only asks for a record, and no step deletes one. -/
theorem CompactClient.ready_mono {c : CompactClient} {s s' : Store}
    (hs : ∀ x, (s.records x).isSome = true → (s'.records x).isSome = true)
    (h : c.ready s = true) : c.ready s' = true := by
  rcases c with _ | _ | ⟨job, _ | _ | _ | _⟩ | _ <;> first | rfl | exact hs _ h

end Peers

/-! ## Steps -/

section Steps

variable (L : List String) (live : String → Bool) {q : Queue} {scratch : String}

theorem Queue.compactStep_records (pc : CompactPc) (s : Store) :
    (q.compactStep scratch pc s).2.records = s.records := by
  cases pc with
  | rename => cases hm : s.lists q.key <;> simp [Queue.compactStep, Store.rename, hm]
  | pop => cases hm : s.lists scratch <;> simp [Queue.compactStep, Store.lpop, hm]
  | check x => simp only [Queue.compactStep]; split <;> rfl
  | push x => rfl
  | done e => rfl

theorem Queue.compactStep_ne_rename (pc : CompactPc) (s : Store) :
    (q.compactStep scratch pc s).1 ≠ .rename := by
  cases pc with
  | rename => cases hm : s.lists q.key <;> simp [Queue.compactStep, Store.rename, hm]
  | pop => cases hm : s.lists scratch <;> simp [Queue.compactStep, Store.lpop, hm]
  | check x => simp only [Queue.compactStep]; split <;> simp
  | push x => simp [Queue.compactStep]
  | done e => simp [Queue.compactStep]

/-- The rename moves the whole primary list to the scratch key; when that list is empty Redis
    refuses, and the compaction returns with nothing pending. -/
theorem compactState_rename (hkey : scratch ≠ q.key) {s : Store} {log : List CompactEvent}
    (hpush : ∀ x ∈ pushes log, live x = true)
    (h : compactBefore L (s.lists q.key) (s.lists scratch) log) :
    compactAfter L live (q.compactStep scratch .rename s).1
      ((q.compactStep scratch .rename s).2.lists q.key)
      ((q.compactStep scratch .rename s).2.lists scratch) (log ++ [.renamed]) := by
  obtain ⟨hsc, hl⟩ := h
  have hA : (pops log).filter live ++ (s.lists q.key).filter live = L.filter live ++ pushes log :=
    by rw [← List.filter_append, hl, List.filter_append, List.filter_eq_self.2 hpush]
  cases hm : s.lists q.key with
  | nil =>
    rw [hm] at hA
    simp only [Queue.compactStep, Store.rename, hm]
    refine ⟨by simp, by simp [hm], log, [], (pops log).filter live, rfl, ?_, ?_⟩
    · simpa [CompactPc.pending] using hA.symm
    · simpa [hm] using Merge.self_nil _
  | cons y ys =>
    rw [hm] at hA
    simp only [Queue.compactStep, Store.rename, hm]
    refine ⟨by simp, by simp [hkey.symm], log, [], (pops log).filter live, rfl, ?_, ?_⟩
    · simpa [CompactPc.pending] using hA.symm
    · simpa [hkey.symm] using Merge.self_nil _

theorem compactAfter_pop (hkey : scratch ≠ q.key) {s : Store} {log : List CompactEvent}
    (h : compactAfter L live .pop (s.lists q.key) (s.lists scratch) log) :
    compactAfter L live (q.compactStep scratch .pop s).1
      ((q.compactStep scratch .pop s).2.lists q.key)
      ((q.compactStep scratch .pop s).2.lists scratch) log := by
  obtain ⟨-, hmain, pre, post, D, hlog, hA, hM⟩ := h
  cases hsc : s.lists scratch with
  | nil =>
    simp only [Queue.compactStep, Store.lpop, hsc]
    exact ⟨by simp, hmain, pre, post, D, hlog, by simpa [CompactPc.pending, hsc] using hA, hM⟩
  | cons y ys =>
    simp only [Queue.compactStep, Store.lpop, hsc]
    refine ⟨by simp, by simpa [hkey.symm] using hmain, pre, post, D, hlog, ?_, ?_⟩
    · simpa [CompactPc.pending, hsc] using hA
    · simpa [hkey.symm] using hM

theorem compactAfter_check {x : String} {s : Store} {log : List CompactEvent}
    (hrec : (s.records x).isSome = live x)
    (h : compactAfter L live (.check x) (s.lists q.key) (s.lists scratch) log) :
    compactAfter L live (q.compactStep scratch (.check x) s).1
      ((q.compactStep scratch (.check x) s).2.lists q.key)
      ((q.compactStep scratch (.check x) s).2.lists scratch) log := by
  obtain ⟨-, hmain, pre, post, D, hlog, hA, hM⟩ := h
  simp only [Queue.compactStep, Job.exists, hrec]
  by_cases hx : live x
  · simp only [hx, if_true]
    exact ⟨by simp [hx], hmain, pre, post, D, hlog, by simpa [CompactPc.pending] using hA, hM⟩
  · simp only [hx, if_false]
    exact ⟨by simp, hmain, pre, post, D, hlog, by simpa [CompactPc.pending, hx] using hA, hM⟩

theorem compactAfter_push (hkey : scratch ≠ q.key) {x : String} {s : Store}
    {log : List CompactEvent}
    (h : compactAfter L live (.push x) (s.lists q.key) (s.lists scratch) log) :
    compactAfter L live (q.compactStep scratch (.push x) s).1
      ((q.compactStep scratch (.push x) s).2.lists q.key)
      ((q.compactStep scratch (.push x) s).2.lists scratch) log := by
  obtain ⟨hpc, hmain, pre, post, D, hlog, hA, hM⟩ := h
  have hx : live x := hpc x rfl
  simp only [Queue.compactStep, Store.rpush_lists, if_true, hkey, if_false]
  refine ⟨by simp, ?_, pre, post, D ++ [x], hlog, ?_, ?_⟩
  · simpa [or_imp, forall_and] using ⟨hmain, hx⟩
  · simpa [CompactPc.pending, hx] using hA
  · simpa using hM.snoc_left x

/-- Each step of the compactor keeps where the run stands. -/
theorem compactState_step (hkey : scratch ≠ q.key) {pc : CompactPc} {s : Store}
    {log : List CompactEvent} (hrec : ∀ x, pc = .check x → (s.records x).isSome = live x)
    (hpush : ∀ x ∈ pushes log, live x = true)
    (h : compactState L live pc (s.lists q.key) (s.lists scratch) log) :
    compactState L live (q.compactStep scratch pc s).1
      ((q.compactStep scratch pc s).2.lists q.key) ((q.compactStep scratch pc s).2.lists scratch)
      (log ++ if pc = .rename then [.renamed] else []) := by
  unfold compactState at *
  rw [if_neg (Queue.compactStep_ne_rename pc s)]
  cases pc with
  | rename => simpa using compactState_rename L live hkey hpush (by simpa using h)
  | pop => simpa using compactAfter_pop L live hkey (by simpa using h)
  | check x => simpa using compactAfter_check L live (hrec x rfl) (by simpa using h)
  | push x => simpa using compactAfter_push L live hkey (by simpa using h)
  | done e => simpa [Queue.compactStep] using h

/-- The ID the compactor holds at its `EXISTS` has a record exactly when it is live: an ID of
    `L` has kept its record or its lack of one, and any other ID it holds was pushed, each push
    after a record. -/
theorem compactAfter_check_live (rec₀ : String → Bool) {x : String} {main sc : List String}
    {log : List CompactEvent} {s : Store} (hrec : RecordsKept L rec₀ s)
    (hpush : ∀ y ∈ pushes log, (s.records y).isSome = true)
    (h : compactAfter L (compactLive L rec₀) (.check x) main sc log) :
    (s.records x).isSome = compactLive L rec₀ x := by
  by_cases hx : x ∈ L
  · rw [hrec.2 x hx, compactLive_of_mem L rec₀ hx]
  · have hlive := compactLive_of_not_mem L rec₀ hx
    obtain ⟨-, -, pre, post, D, rfl, hA, -⟩ := h
    have hmem : x ∈ L.filter (compactLive L rec₀) ++ pushes pre := by
      rw [hA]; simp [CompactPc.pending, hlive]
    rcases List.mem_append.1 hmem with hm | hm
    · exact absurd (List.mem_filter.1 hm).1 hx
    · rw [hlive]; exact hpush x (by simp [hm])

theorem PeerEffect.pushes_live {main main' : List String} {evs : List CompactEvent}
    (he : PeerEffect live main main' evs) : ∀ x ∈ pushes evs, live x = true := by
  cases he with
  | quiet => simp
  | push x hx => simpa using hx
  | pop z _ => simp

variable (rec₀ : String → Bool)

/-- What a step of a peer does to the records: it deletes none, leaves those of `L` as they
    were, and pushes only an ID that has one; the peer stays a peer, ready once it is about to
    push. -/
theorem CompactClient.peer_records {c c' : CompactClient} {n : Nat} {s s' : Store}
    {evs : List CompactEvent} (h : c.step q scratch n s = (c', s', evs))
    (hc : c.peerOk L rec₀ = true) (hready : c.ready s = true) (hrec : RecordsKept L rec₀ s) :
    c'.peerOk L rec₀ = true ∧ c'.ready s' = true ∧ RecordsKept L rec₀ s' ∧
      (∀ x, (s.records x).isSome = true → (s'.records x).isSome = true) ∧
      ∀ x ∈ pushes evs, (s'.records x).isSome = true := by
  cases c with
  | compactor pc => simp [CompactClient.peerOk] at hc
  | pusher x b =>
    cases b <;> cases h
    · exact ⟨hc, rfl, hrec, fun _ h => h, by simpa [Queue.pushJobId] using hrec.1 x hc⟩
    · exact ⟨hc, rfl, hrec, fun _ h => h, by simp⟩
  | enqueuer job pc =>
    rcases pc with _ | _ | _ | _
    · cases h
      exact ⟨hc, rfl, hrec, fun _ h => h, by simp⟩
    · simp only [CompactClient.step, Queue.enqueueJobStep, Prod.mk.injEq] at h
      obtain ⟨rfl, rfl, rfl⟩ := h
      have hr := Store.sadd_records s q.cls.redisQueuesKeys q.key
      exact ⟨hc, rfl, by simpa [RecordsKept, hr] using hrec, fun _ h => by rwa [hr], by simp⟩
    · have hsave : RecordsKept L rec₀ (Job.save s job) := by
        refine ⟨fun x hx => ?_, fun x hx => ?_⟩ <;> by_cases hj : x = job.id
        · simp [Job.save, hj]
        · simpa [Job.save, hj] using hrec.1 x hx
        · subst hj
          have hl : rec₀ job.id = true := by
            simpa [CompactClient.peerOk, compactLive_of_mem L rec₀ hx] using hc
          simp [Job.save, hl]
        · simpa [Job.save, hj] using hrec.2 x hx
      have hmono : ∀ x, (s.records x).isSome = true →
          ((Job.save s job).records x).isSome = true := fun x hx => by
        by_cases hj : x = job.id <;> simp [Job.save, hj, hx]
      simp only [CompactClient.step, Queue.enqueueJobStep] at h
      split at h <;> cases h
      · exact ⟨hc, by simp [CompactClient.ready, Job.save], hsave, hmono, by simp⟩
      · exact ⟨hc, rfl, hsave, hmono, by simp⟩
    · simp only [CompactClient.step, Queue.enqueueJobStep, Prod.mk.injEq] at h
      obtain ⟨rfl, rfl, rfl⟩ := h
      exact ⟨hc, rfl, hrec, fun _ h => h, by simpa [CompactClient.ready] using hready⟩
  | consumer pc =>
    simp only [CompactClient.step, Prod.mk.injEq] at h
    obtain ⟨rfl, rfl, rfl⟩ := h
    have hr := Queue.dequeueStep_records q pc s
    refine ⟨rfl, rfl, by simpa [RecordsKept, hr] using hrec, fun _ h => by rwa [hr],
      fun x hx => ?_⟩
    split at hx <;> simp at hx

/-- What a step of a peer does to the lists: the scratch list is left alone, and the primary
    list is left alone, gets a live ID appended, or loses its head to a pop. -/
theorem CompactClient.peer_lists (hkey : scratch ≠ q.key) {c c' : CompactClient} {n : Nat}
    {s s' : Store} {evs : List CompactEvent} (h : c.step q scratch n s = (c', s', evs))
    (hc : c.peerOk L rec₀ = true) :
    s'.lists scratch = s.lists scratch ∧
      PeerEffect (compactLive L rec₀) (s.lists q.key) (s'.lists q.key) evs := by
  cases c with
  | compactor pc => simp [CompactClient.peerOk] at hc
  | pusher x b =>
    cases b <;> cases h
    · exact ⟨by simp [Queue.pushJobId, hkey], by
        simpa [Queue.pushJobId] using
          PeerEffect.push x (by simp [compactLive, show rec₀ x = true from hc])⟩
    · exact ⟨rfl, .quiet⟩
  | enqueuer job pc =>
    rcases pc with _ | _ | _ | _
    · cases h
      exact ⟨rfl, .quiet⟩
    · simp only [CompactClient.step, Queue.enqueueJobStep, Prod.mk.injEq] at h
      obtain ⟨rfl, rfl, rfl⟩ := h
      exact ⟨by simp, by simpa using PeerEffect.quiet⟩
    · simp only [CompactClient.step, Queue.enqueueJobStep] at h
      split at h <;> cases h <;> exact ⟨by simp, by simpa using PeerEffect.quiet⟩
    · simp only [CompactClient.step, Queue.enqueueJobStep, Prod.mk.injEq] at h
      obtain ⟨rfl, rfl, rfl⟩ := h
      exact ⟨by simp [hkey], by simpa using PeerEffect.push job.id hc⟩
  | consumer pc =>
    cases pc with
    | pop f =>
      cases hm : s.lists q.key with
      | nil =>
        simp only [CompactClient.step, Queue.dequeueStep, Store.lpop, hm, Prod.mk.injEq] at h
        obtain ⟨rfl, rfl, rfl⟩ := h
        exact ⟨rfl, hm ▸ .quiet⟩
      | cons z rest =>
        simp only [CompactClient.step, Queue.dequeueStep, Store.lpop, hm, Prod.mk.injEq] at h
        obtain ⟨rfl, rfl, rfl⟩ := h
        exact ⟨by simp [hkey], by simpa using (PeerEffect.pop z rfl :
          PeerEffect (compactLive L rec₀) (z :: rest) rest _)⟩
    | fetch f x =>
      cases h
      rw [Queue.dequeueStep_fetch]
      exact ⟨rfl, .quiet⟩
    | returned _ | raised _ =>
      cases h
      exact ⟨rfl, .quiet⟩

end Steps

/-! ## Every run -/

section Run

variable (L : List String) (rec₀ : String → Bool) (q : Queue) (scratch : String)

/-- The invariant of a compaction run: the compactor leads the clients, its peers stay peers
    and are ready; the records it relies on are kept; every push so far was of a live ID that
    has a record; and the compactor's state matches the two lists and the log. -/
def CompactInv (w : World CompactClient CompactEvent) : Prop :=
  ∃ pc peers, w.clients = .compactor pc :: peers ∧
    (∀ c ∈ peers, c.peerOk L rec₀ = true ∧ c.ready w.store = true) ∧
    RecordsKept L rec₀ w.store ∧
    (∀ x ∈ pushes w.log, compactLive L rec₀ x = true ∧ (w.store.records x).isSome = true) ∧
    compactState L (compactLive L rec₀) pc (w.store.lists q.key) (w.store.lists scratch) w.log

variable {L rec₀ q scratch}

theorem compactInv_tick (hkey : scratch ≠ q.key) {w : World CompactClient CompactEvent}
    (h : CompactInv L rec₀ q scratch w) (i n : Nat) :
    CompactInv L rec₀ q scratch (w.tick (CompactClient.step q scratch) i n) := by
  obtain ⟨pc, peers, hw, hpeers, hrec, hpush, hst⟩ := h
  cases i with
  | zero =>
    rw [World.tick_of_get n (c := .compactor pc) (by simp [hw])]
    have hr := @Queue.compactStep_records q scratch pc w.store
    have hmono : ∀ x, (w.store.records x).isSome = true →
        ((q.compactStep scratch pc w.store).2.records x).isSome = true := by simp [hr]
    refine ⟨(q.compactStep scratch pc w.store).1, peers, by simp [hw, CompactClient.step],
      fun c hc => ⟨(hpeers c hc).1, CompactClient.ready_mono hmono (hpeers c hc).2⟩, ?_, ?_, ?_⟩
    · simpa [CompactClient.step, RecordsKept, hr] using hrec
    · simp only [CompactClient.step, pushes_append, hr]
      split <;> simpa using hpush
    · refine compactState_step L _ hkey (fun x hx => ?_) (fun x hx => (hpush x hx).1) hst
      subst hx
      unfold compactState at hst
      exact compactAfter_check_live L rec₀ hrec (fun y hy => (hpush y hy).2)
        (by simpa using hst)
  | succ j =>
    cases hj : peers[j]? with
    | none =>
      rw [World.tick_of_none n (by simp [hw, hj])]
      exact ⟨pc, peers, hw, hpeers, hrec, hpush, hst⟩
    | some c =>
      rw [World.tick_of_get n (c := c) (by simp [hw, hj])]
      generalize hr : CompactClient.step q scratch c n w.store = r
      obtain ⟨c', s', evs⟩ := r
      have hc := hpeers c (List.getElem?_mem hj)
      obtain ⟨hc', hready', hrec', hmono, hpushed⟩ :=
        CompactClient.peer_records L rec₀ hr hc.1 hc.2 hrec
      obtain ⟨hsc, he⟩ := CompactClient.peer_lists L rec₀ hkey hr hc.1
      refine ⟨pc, peers.set j c', by simp [hw], fun d hd => ?_, hrec', ?_, ?_⟩
      · rcases List.mem_or_eq_of_mem_set hd with hd | rfl
        exacts [⟨(hpeers d hd).1, CompactClient.ready_mono hmono (hpeers d hd).2⟩,
          ⟨hc', hready'⟩]
      · simp only [pushes_append, List.mem_append]
        rintro x (hx | hx)
        exacts [⟨(hpush x hx).1, hmono x (hpush x hx).2⟩,
          ⟨PeerEffect.pushes_live _ he x hx, hpushed x hx⟩]
      · simpa [hsc] using compactState_peer L _ he hst

theorem compactInv_run (hkey : scratch ≠ q.key) (sched : List (Nat × Nat))
    {w : World CompactClient CompactEvent} (h : CompactInv L rec₀ q scratch w) :
    CompactInv L rec₀ q scratch (w.run (CompactClient.step q scratch) sched) :=
  World.run_induction (CompactInv L rec₀ q scratch) (fun _ i n hw => compactInv_tick hkey hw i n)
    sched w h

end Run

/-- Once `compact` has returned, the IDs consumers popped (less the IDs of the initial list that
    had no record), followed by the queue's list, interleave the survivors of the initial list
    followed by the pushes that landed before the rename, with the pushes that landed after it.
    The peers push IDs that had a record at the start, or enqueue jobs, fresh ones included. -/
theorem compact_interleaves (q : Queue) (uuid : String) (s₀ : Store)
    (peers : List CompactClient) (sched : List (Nat × Nat)) (err : Option RqError)
    (hkey : q.compactKey uuid ≠ q.key) (hfresh : s₀.lists (q.compactKey uuid) = [])
    (hpeers : ∀ c ∈ peers, c.peerOk (s₀.lists q.key) (fun x => (s₀.records x).isSome) = true ∧
      c.ready s₀ = true)
    (hdone : (compactRun q uuid s₀ peers sched).clients.head? =
      some (.compactor (.done err))) :
    ∃ pre post, (compactRun q uuid s₀ peers sched).log = pre ++ .renamed :: post ∧
      Merge ((s₀.lists q.key).filter (fun x => (s₀.records x).isSome) ++ pushes pre)
        (pushes post)
        ((pops (compactRun q uuid s₀ peers sched).log).filter
            (compactLive (s₀.lists q.key) fun x => (s₀.records x).isSome) ++
          (compactRun q uuid s₀ peers sched).store.lists q.key) := by
  obtain ⟨pc, peers', hw, -, -, -, hst⟩ := compactInv_run hkey sched
    (L := s₀.lists q.key) (w := ⟨s₀, .compactor .rename :: peers, []⟩)
    ⟨.rename, peers, rfl, hpeers, ⟨fun _ h => h, fun _ _ => rfl⟩, by simp,
      by simp [compactState, compactBefore, hfresh]⟩
  rw [compactRun, hw] at hdone
  cases hdone
  obtain ⟨-, -, pre, post, D, hlog, hA, hM⟩ := hst
  simp only [CompactPc.pending, List.filter_nil, List.append_nil, filter_compactLive] at hA
  exact ⟨pre, post, hlog, hA ▸ hM⟩

/-- The run of `compact_push_overtakes` with the late push made by `enqueue_job` of a fresh job:
    the survivor `a` and the new job `x` interleave. -/
theorem compact_interleaves_fresh_enqueue :
    (let q := Queue.new "default";
      let s₀ := (Job.save Store.empty { id := "a" }).rpush q.key "a";
      let w := compactRun q "u" s₀ [.enqueuer { id := "x" } (some .register)]
        [(0, 0), (1, 0), (1, 0), (1, 0), (0, 0), (0, 0), (0, 0), (0, 0)];
      ∃ pre post, w.log = pre ++ .renamed :: post ∧
        Merge ((s₀.lists q.key).filter (fun x => (s₀.records x).isSome) ++ pushes pre)
          (pushes post)
          ((pops w.log).filter (compactLive (s₀.lists q.key) fun x => (s₀.records x).isSome) ++
            w.store.lists q.key)) :=
  compact_interleaves (Queue.new "default") "u"
    ((Job.save Store.empty { id := "a" }).rpush (Queue.new "default").key "a")
    [.enqueuer { id := "x" } (some .register)]
    [(0, 0), (1, 0), (1, 0), (1, 0), (0, 0), (0, 0), (0, 0), (0, 0)] none
    (by decide) (by decide) (by decide) (by decide)

/-! ## The compaction run alone -/

/-- What a finished compaction returned or raised (`none` while it runs). -/
def CompactPc.result : CompactPc → Option (Except RqError Unit)
  | .done none => some (.ok ())
  | .done (some e) => some (.error e)
  | _ => none

theorem CompactPc.done_fixed (q : Queue) (scratch : String) (err : Option RqError) (s : Store)
    (m : Nat) :
    (Function.uncurry (q.compactStep scratch))^[m] (.done err, s) = (.done err, s) :=
  Function.iterate_fixed rfl m

/-- The machine's loop, run alone from its `LPOP` for three steps per scratch ID and one more,
    ends where `Queue.compactLoop` ends. -/
theorem Queue.compactStep_pop_alone (q : Queue) {scratch : String} (hkey : scratch ≠ q.key)
    (s : Store) {fuel n : Nat} (hfuel : (s.lists scratch).length < fuel)
    (hn : 3 * (s.lists scratch).length < n) :
    ((Function.uncurry (q.compactStep scratch))^[n] (.pop, s)).1 = .done none ∧
      q.compactLoop scratch fuel s =
        some ((Function.uncurry (q.compactStep scratch))^[n] (.pop, s)).2 := by
  obtain ⟨M, hM⟩ : ∃ M, s.lists scratch = M := ⟨_, rfl⟩
  induction M generalizing s fuel n with
  | nil =>
    obtain ⟨f, rfl⟩ : ∃ f, fuel = f + 1 := ⟨fuel - 1, by omega⟩
    obtain ⟨m, rfl⟩ : ∃ m, n = m + 1 := ⟨n - 1, by omega⟩
    rw [Function.iterate_succ_apply]
    simp [Function.uncurry_apply_pair, Queue.compactStep, Queue.compactLoop, Store.lpop, hM,
      CompactPc.done_fixed]
  | cons x M ih =>
    simp only [hM, List.length_cons] at hfuel hn
    obtain ⟨f, rfl⟩ : ∃ f, fuel = f + 1 := ⟨fuel - 1, by omega⟩
    obtain ⟨m, rfl⟩ : ∃ m, n = m + 2 := ⟨n - 2, by omega⟩
    rw [Function.iterate_succ_apply, Function.iterate_succ_apply]
    have hs₁ : (s.setList scratch M).lists scratch = M := by simp
    cases hx : Job.exists s x
    · simp only [Function.uncurry_apply_pair, Queue.compactStep, Queue.compactLoop, Store.lpop, hM,
        Job.exists_setList, hx, Bool.false_eq_true, if_false]
      exact ih _ (by rw [hs₁]; omega) (by rw [hs₁]; omega) hs₁
    · obtain ⟨m, rfl⟩ : ∃ k, m = k + 1 := ⟨m - 1, by omega⟩
      rw [Function.iterate_succ_apply]
      simp only [Function.uncurry_apply_pair, Queue.compactStep, Queue.compactLoop, Store.lpop, hM,
        Job.exists_setList, hx, if_true]
      have hs₂ : ((s.setList scratch M).rpush q.key x).lists scratch = M := by
        simp [Store.rpush, hkey]
      exact ih _ (by rw [hs₂]; omega) (by rw [hs₂]; omega) hs₂

/-- Run alone from its `RENAME` for enough steps, the compaction machine ends with the result
    and the store of `Queue.compact`, on every list (on the empty one the `RENAME` raises). -/
theorem Queue.compactStep_alone (q : Queue) (uuid : String) (hkey : q.compactKey uuid ≠ q.key)
    (s : Store) {fuel n : Nat} (hfuel : (s.lists q.key).length < fuel)
    (hn : 3 * (s.lists q.key).length + 1 < n) :
    q.compact uuid fuel s =
      ((Function.uncurry (q.compactStep (q.compactKey uuid)))^[n] (.rename, s)).1.result.map
        fun res => (res, ((Function.uncurry (q.compactStep (q.compactKey uuid)))^[n]
          (.rename, s)).2) := by
  obtain ⟨m, rfl⟩ : ∃ m, n = m + 1 := ⟨n - 1, by omega⟩
  rw [Function.iterate_succ_apply]
  cases hr : s.rename q.key (q.compactKey uuid) with
  | error e => simp [Queue.compact, Function.uncurry_apply_pair, Queue.compactStep, hr,
      CompactPc.done_fixed, CompactPc.result]
  | ok s' =>
    have hl := Store.rename_ok_lists hr
    obtain ⟨hdone, hloop⟩ := @Queue.compactStep_pop_alone q _ hkey s' fuel m
      (by rw [hl]; omega) (by rw [hl]; omega)
    simp [Queue.compact, Function.uncurry_apply_pair, Queue.compactStep, hr, hloop, hdone,
      CompactPc.result]

theorem Queue.compactStep_alone_one :
    (let q := Queue.new "default";
      let s := q.pushJobId "a" Store.empty;
      let run := (Function.uncurry (q.compactStep (q.compactKey "u")))^[5] (.rename, s);
      q.compact "u" 2 s = run.1.result.map fun res => (res, run.2)) :=
  Queue.compactStep_alone (Queue.new "default") "u" (by decide)
    ((Queue.new "default").pushJobId "a" Store.empty) (by decide) (by decide)

end Rq
