import Rq.Dequeue
import Rq.ChildQueue
import Rq.Maintenance

/-
  The store as a state machine: the public operations of `Queue`, `FailedQueue`, the child
  queues and `release_job` as transitions on `Store`, one call at a time (`addJob` is the
  `add_job` of `WIPQueue` and `DoneQueue`, whose bodies are the same). A call that raises
  still leaves the writes it made before raising, so every transition gives a store.
  A worker that finishes a job persists its status (`setStatus`) and then calls
  `enqueue_dependents`; both are transitions here. The reading calls (`count`, `is_empty`,
  `job_ids`, `get_job_ids`, `Queue.all`) write nothing and are left out; `jobs` is
  `get_jobs(0, -1)`.

  `compact` runs its loop for one more iteration than the list has ids, which is enough for it
  to return (`Queue.compact_eq`) unless its scratch key is the queue's own key and an id has a
  record: that call never returns, and the transition leaves the store as it found it.
-/

namespace Rq

/-- One call of a public operation, with the caller's arguments and the values the
    environment supplies: the clock, the fresh job id, the member `SPOP` returns. -/
inductive Op
  | enqueueCall (q : Queue) (o : CallOptions) (id : String) (now : Nat)
  | enqueueJob (q : Queue) (job : Job) (setMetaData : Bool) (now : Nat)
  | deferJob (q : Queue) (job : Job) (setMetaData : Bool) (now : Nat)
  | pushJobId (q : Queue) (jobId : String)
  | remove (q : Queue) (jobId : String)
  | enqueueDependents (q : Queue) (job : Job) (pick : List String → Nat) (now : Nat)
  | releaseJob (jobOrId : JobOrId) (target : Option QueueOrName) (now : Nat)
  | quarantine (job : Job) (excInfo : String) (now : Nat)
  | requeue (jobId : String) (now : Nat)
  | dequeue (q : Queue) (frames : Nat)
  | dequeueAny (queues : List Queue) (timeout : Option Nat) (frames : Nat)
  | getJobs (q : Queue) (offset length : Int)
  | empty (q : Queue)
  | compact (q : Queue) (uuid : String)
  | setStatus (id : String) (st : Status)
  | addJob (q : Queue) (job : Job) (now : Nat)
  | removeJob (q : Queue) (job : JobOrId)
  | removeExpiredJobs (q : Queue) (now : Nat)

/-- The store a call leaves. -/
def Op.run : Op → Store → Store
  | .enqueueCall q o id now, s => (q.enqueueCall o id now s).2
  | .enqueueJob q job b now, s => (q.enqueueJob job b now s).2
  | .deferJob q job b now, s => (q.deferJob job b now s).2
  | .pushJobId q jobId, s => q.pushJobId jobId s
  | .remove q jobId, s => (q.remove jobId s).2
  | .enqueueDependents q job pick now, s => (q.enqueueDependents job pick now s).2
  | .releaseJob j target now, s => (Rq.releaseJob j target now s).2
  | .quarantine job e now, s => (FailedQueue.quarantine job e now s).2
  | .requeue jobId now, s => (FailedQueue.requeue jobId now s).2
  | .dequeue q frames, s => (q.dequeue frames s).2
  | .dequeueAny qs t frames, s => (Queue.dequeueAny qs t frames s).2
  | .getJobs q offset length, s => (q.getJobs offset length s).2
  | .empty q, s => (q.empty s).2
  | .compact q uuid, s =>
    match q.compact uuid ((s.lists q.key).length + 1) s with
    | some r => r.2
    | none => s
  | .setStatus id st, s => Job.setStatus s id st
  | .addJob q job now, s => ChildQueue.addJob q job now s
  | .removeJob q job, s => (WIPQueue.removeJob q job s).2
  | .removeExpiredJobs q now, s => WIPQueue.removeExpiredJobs q now s

/-- The store a sequence of calls leaves. -/
def runOps (ops : List Op) (s : Store) : Store := ops.foldl (fun s op => op.run s) s

@[simp] theorem runOps_nil (s : Store) : runOps [] s = s := rfl

@[simp] theorem runOps_cons (op : Op) (ops : List Op) (s : Store) :
    runOps (op :: ops) s = runOps ops (op.run s) := rfl

theorem runOps_append (ops ops' : List Op) (s : Store) :
    runOps (ops ++ ops') s = runOps ops' (runOps ops s) := List.foldl_append _ _ _ _

end Rq
