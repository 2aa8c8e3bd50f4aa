import Rq.Interleave
import Rq.Maintenance

/-
  `Queue.empty()` (lines 123-128) run together with a producer's `q.enqueue_job(j)` on an
  asynchronous queue.

  `empty` reads the list (the `LRANGE` of `get_job_ids`), fetches each ID's record (removing
  IDs that have none), deletes the list key, then cancels each fetched job. The read and the
  `DEL` are separate round trips: an ID pushed between them is deleted from the list without
  being in `empty`'s snapshot, so its record survives.

  * `empty_orphan_iff`: once both calls have returned, `j`'s record is live with its ID out of
    the list exactly when `j`'s push landed after `empty`'s `LRANGE` and before its `DEL`.
    Pushed before the `LRANGE`, `j` is cancelled with the rest (or, when its record does not
    decode, `empty` raises and leaves the list); pushed after the `DEL`, it stays listed.
  * `empty_orphans_job`: a push between the two leaves a live record listed nowhere.
  * `Queue.emptyStep_alone`: run alone for enough steps, the machine ends with the result and
    the store of the sequential `Queue.empty` of `Rq.Maintenance`.

  The proof is an invariant of every reachable world (`emptyInv_run`), built on where `j`'s push
  sits among `empty`'s two marks (`EmptyEvent.marksBefore`) and on whether `empty` still
  holds `j`, to fetch or to cancel (`EmptyPc.tracks`).
-/

namespace Rq

/-! ## The clients -/

/-- Where a running `q.empty()` is: before its `LRANGE`, fetching the IDs it read (holding the
    jobs fetched so far), removing an ID with no record, before its `DEL`, cancelling the
    fetched jobs, or returned. -/
inductive EmptyPc
  | lrange
  | fetch (ids : List String) (jobs : List Job)
  | remove (jobId : String) (ids : List String) (jobs : List Job)
  | delete (jobs : List Job)
  | cancel (jobs : List Job)
  | done (err : Option RqError)
  deriving DecidableEq, Repr

/-- One command of `q.empty()`. -/
def Queue.emptyStep (q : Queue) : EmptyPc → Store → EmptyPc × Store
  | .lrange, s => (.fetch (s.lists q.key) [], s)
  | .fetch [] jobs, s => (.delete jobs, s)
  | .fetch (x :: xs) jobs, s =>
    match Job.fetch s x with
    | .ok job => (.fetch xs (jobs ++ [job]), s)
    | .error (.noSuchJob _) => (.remove x xs jobs, s)
    | .error e => (.done (some e), s)
  | .remove x xs jobs, s => (.fetch xs jobs, (q.remove x s).2)
  | .delete jobs, s => (.cancel jobs, s.delete q.key)
  | .cancel [], s => (.done none, s)
  | .cancel (job :: jobs), s => (.cancel jobs, Job.cancel s job)
  | .done err, s => (.done err, s)

/-- What the steps record: `empty`'s `LRANGE` and `DEL`, and each push. -/
inductive EmptyEvent
  | snapshot
  | deleted
  | pushed (jobId : String)
  deriving DecidableEq, Repr

/-- The marks a command of `empty` leaves in the log. -/
def EmptyPc.events : EmptyPc → List EmptyEvent
  | .lrange => [.snapshot]
  | .delete _ => [.deleted]
  | _ => []

/-- The two clients: `q.empty()`, and `q.enqueue_job` of one job. -/
inductive EmptyClient
  | emptier (pc : EmptyPc)
  | producer (pc : Option EnqueueJobPc)
  deriving DecidableEq, Repr

/-- One step of a client; `job` is the job `enqueue_job` saves and pushes. -/
def EmptyClient.step (q : Queue) (job : Job) :
    EmptyClient → Nat → Store → EmptyClient × Store × List EmptyEvent
  | .emptier pc, _, s =>
    let r := q.emptyStep pc s
    (.emptier r.1, r.2, pc.events)
  | .producer (some pc), _, s =>
    let r := q.enqueueJobStep job pc s
    (.producer r.1, r.2, if pc = .push then [.pushed job.id] else [])
  | .producer none, _, s => (.producer none, s, [])

/-- `q.empty()` and `q.enqueue_job(j)` at time `now`, run from `s₀`. -/
def emptyRun (q : Queue) (j : Job) (now : Nat) (s₀ : Store) (sched : List (Nat × Nat)) :
    World EmptyClient EmptyEvent :=
  (World.mk s₀ [.emptier .lrange, .producer (some .register)] []).run
    (EmptyClient.step q (q.jobMeta j true now)) sched

namespace EmptyEvent

/-- How many of `empty`'s marks, its `LRANGE` and its `DEL`, the log holds. -/
def marks : List EmptyEvent → Nat
  | [] => 0
  | .pushed _ :: l => marks l
  | _ :: l => marks l + 1

/-- How many of `empty`'s marks precede the first push of `x`, once `x` has been pushed. -/
def marksBefore (x : String) : List EmptyEvent → Option Nat
  | [] => none
  | .pushed y :: l => if y = x then some 0 else marksBefore x l
  | _ :: l => (marksBefore x l).map (· + 1)

end EmptyEvent

/-- `x`'s push landed after `empty`'s `LRANGE` and before its `DEL`. -/
def pushedBetween (x : String) (log : List EmptyEvent) : Prop :=
  EmptyEvent.marksBefore x log = some 1 ∧ .deleted ∈ log

instance (x : String) (log : List EmptyEvent) : Decidable (pushedBetween x log) :=
  inferInstanceAs (Decidable (_ ∧ _))

/-- The push lands between `empty`'s `LRANGE` of an empty list and its `DEL`: both calls
    return, and `j`'s record is live while its ID is not in the queue's list. -/
theorem empty_orphans_job :
    (let q := Queue.new "default";
      let w := emptyRun q { id := "j" } 0 Store.empty
        [(0, 0), (1, 0), (1, 0), (1, 0), (0, 0), (0, 0), (0, 0)];
      w.clients = [.emptier (.done none), .producer none] ∧ pushedBetween "j" w.log ∧
        (w.store.records "j").isSome ∧ "j" ∉ w.store.lists q.key) := by
  decide

/-! ## The log -/

namespace EmptyEvent

@[simp] theorem marks_append (l l' : List EmptyEvent) : marks (l ++ l') = marks l + marks l' := by
  induction l with
  | nil => simp [marks]
  | cons e l ih => cases e <;> simp [marks, ih] <;> omega

@[simp] theorem marks_snapshot : marks [.snapshot] = 1 := rfl
@[simp] theorem marks_deleted : marks [.deleted] = 1 := rfl
@[simp] theorem marks_pushed (x : String) : marks [.pushed x] = 0 := rfl

theorem marksBefore_append_of_some {x : String} {l : List EmptyEvent} {k : Nat}
    (h : marksBefore x l = some k) (l' : List EmptyEvent) : marksBefore x (l ++ l') = some k := by
  induction l generalizing k with
  | nil => simp [marksBefore] at h
  | cons e l ih =>
    cases e with
    | pushed y =>
      simp only [marksBefore, List.cons_append] at h ⊢
      split at h
      · simp [*]
      · simp [*, ih h]
    | snapshot | deleted =>
      simp only [marksBefore, List.cons_append, Option.map_eq_some'] at h ⊢
      obtain ⟨k', hk', rfl⟩ := h
      exact ⟨k', ih hk', rfl⟩

theorem marksBefore_append_pushed {x : String} {l : List EmptyEvent}
    (h : marksBefore x l = none) : marksBefore x (l ++ [.pushed x]) = some (marks l) := by
  induction l with
  | nil => simp [marksBefore, marks]
  | cons e l ih =>
    cases e with
    | pushed y =>
      simp only [marksBefore, List.cons_append, marks] at h ⊢
      split at h
      · cases h
      · simp [*, ih h]
    | snapshot | deleted =>
      simp only [marksBefore, List.cons_append, Option.map_eq_none', marks] at h ⊢
      simp [ih h]

theorem marksBefore_append_other {x : String} {l : List EmptyEvent} {e : EmptyEvent}
    (h : marksBefore x l = none) (he : e ≠ .pushed x) : marksBefore x (l ++ [e]) = none := by
  induction l with
  | nil => cases e <;> simp_all [marksBefore]
  | cons e' l ih =>
    cases e' with
    | pushed y =>
      simp only [marksBefore, List.cons_append] at h ⊢
      split at h
      · cases h
      · simp [*, ih h]
    | snapshot | deleted =>
      simp only [marksBefore, List.cons_append, Option.map_eq_none'] at h ⊢
      exact ih h

theorem marksBefore_le {x : String} {l : List EmptyEvent} {k : Nat}
    (h : marksBefore x l = some k) : k ≤ marks l := by
  induction l generalizing k with
  | nil => simp [marksBefore] at h
  | cons e l ih =>
    cases e with
    | pushed y =>
      simp only [marksBefore, marks] at h ⊢
      split at h
      · cases h; omega
      · exact ih h
    | snapshot | deleted =>
      simp only [marksBefore, Option.map_eq_some', marks] at h ⊢
      obtain ⟨k', hk', rfl⟩ := h
      have := ih hk'
      omega

end EmptyEvent

/-! ## What `empty` holds -/

/-- How many marks `empty` has made: none before its `LRANGE`, one until its `DEL` (or until it
    raised), two after. -/
def EmptyPc.phase : EmptyPc → Nat
  | .lrange => 0
  | .cancel _ | .done none => 2
  | _ => 1

/-- `empty` is between its `LRANGE` and its `DEL`, and has not raised. -/
def EmptyPc.reading : EmptyPc → Prop
  | .fetch .. | .remove .. | .delete _ => True
  | _ => False

/-- The IDs `empty` has still to fetch, the one it is removing first. -/
def EmptyPc.pending : EmptyPc → List String
  | .fetch ids _ => ids
  | .remove x ids _ => x :: ids
  | _ => []

/-- The jobs `empty` has fetched and will cancel. -/
def EmptyPc.held : EmptyPc → List Job
  | .fetch _ jobs | .remove _ _ jobs | .delete jobs | .cancel jobs => jobs
  | _ => []

/-- `empty` holds `x`: it will fetch it, or cancel a job with that ID. -/
def EmptyPc.tracks (x : String) (pc : EmptyPc) : Prop :=
  x ∈ pc.pending ∨ ∃ j ∈ pc.held, j.id = x

section Steps

/-- What one command of `empty` does, one case per branch of `Queue.emptyStep`
    (`Queue.emptyStep_spec`). -/
inductive EmptyStep (q : Queue) : EmptyPc → Store → EmptyPc → Store → Prop
  | lrange (s : Store) : EmptyStep q .lrange s (.fetch (s.lists q.key) []) s
  | fetchNil (jobs : List Job) (s : Store) : EmptyStep q (.fetch [] jobs) s (.delete jobs) s
  | fetchOk {x : String} {xs : List String} {jobs : List Job} {s : Store} {job : Job}
      (hf : Job.fetch s x = .ok job) :
      EmptyStep q (.fetch (x :: xs) jobs) s (.fetch xs (jobs ++ [job])) s
  | fetchMissing {x : String} {xs : List String} {jobs : List Job} {s : Store} {m : String}
      (hf : Job.fetch s x = .error (.noSuchJob m)) :
      EmptyStep q (.fetch (x :: xs) jobs) s (.remove x xs jobs) s
  | fetchRaises {x : String} {xs : List String} {jobs : List Job} {s : Store} {e : RqError}
      (hf : Job.fetch s x = .error e) (he : ∀ m, e ≠ .noSuchJob m) :
      EmptyStep q (.fetch (x :: xs) jobs) s (.done (some e)) s
  | remove (x : String) (xs : List String) (jobs : List Job) (s : Store) :
      EmptyStep q (.remove x xs jobs) s (.fetch xs jobs) (q.remove x s).2
  | delete (jobs : List Job) (s : Store) :
      EmptyStep q (.delete jobs) s (.cancel jobs) (s.delete q.key)
  | cancelNil (s : Store) : EmptyStep q (.cancel []) s (.done none) s
  | cancel (j : Job) (js : List Job) (s : Store) :
      EmptyStep q (.cancel (j :: js)) s (.cancel js) (Job.cancel s j)
  | done (err : Option RqError) (s : Store) : EmptyStep q (.done err) s (.done err) s

variable {q : Queue} {E E' : EmptyPc} {s s' : Store}

theorem Queue.emptyStep_spec (h : q.emptyStep E s = (E', s')) : EmptyStep q E s E' s' := by
  cases E with
  | fetch ids jobs =>
    cases ids with
    | nil => cases h; exact .fetchNil _ _
    | cons x xs =>
      simp only [Queue.emptyStep] at h
      split at h <;> cases h
      · exact .fetchOk ‹_›
      · exact .fetchMissing ‹_›
      · exact .fetchRaises ‹_› fun m he => by simp_all
  | cancel jobs => cases jobs <;> cases h <;> constructor
  | _ => cases h; constructor

/-- A command of `empty` writes no record but to cancel one. -/
theorem Queue.emptyStep_records (h : q.emptyStep E s = (E', s')) (x : String) :
    s'.records x = s.records x ∨ s'.records x = none := by
  cases Queue.emptyStep_spec h with
  | cancel j js => by_cases hx : x = j.id <;> simp [Job.cancel, hx]
  | _ => exact .inl (by simp [Queue.remove, Store.lrem, Store.delete])

theorem Queue.emptyStep_keyed (hk : s.WellKeyed) (h : q.emptyStep E s = (E', s')) :
    s'.WellKeyed := fun x r hr => by
  rcases Queue.emptyStep_records h x with hx | hx
  · exact hk x r (hx ▸ hr)
  · simp [hx] at hr

/-- `empty`'s phase grows by the marks its command leaves, and it reaches two exactly at the
    `DEL`. -/
theorem Queue.emptyStep_phase (h : q.emptyStep E s = (E', s')) :
    E'.phase = E.phase + EmptyEvent.marks E.events ∧
      (E'.phase = 2 ↔ E.phase = 2 ∨ .deleted ∈ E.events) := by
  cases Queue.emptyStep_spec h <;> simp [EmptyPc.phase, EmptyPc.events, EmptyEvent.marks]

/-- A command of `empty` that does not hold `x` keeps not holding it, leaves `x`'s record, and
    keeps `x`'s place in the list but at the `DEL`. -/
theorem Queue.emptyStep_untracked {x : String} (hk : s.WellKeyed) (ht : ¬ E.tracks x)
    (hl : E = .lrange → x ∉ s.lists q.key) (h : q.emptyStep E s = (E', s')) :
    ¬ E'.tracks x ∧ s'.records x = s.records x ∧
      (x ∈ s'.lists q.key ↔ x ∈ s.lists q.key ∧ ∀ jobs, E ≠ .delete jobs) := by
  simp only [EmptyPc.tracks, EmptyPc.pending, EmptyPc.held, not_or, not_exists, not_and] at ht ⊢
  cases Queue.emptyStep_spec h with
  | lrange => simp [hl rfl]
  | fetchOk hf =>
    simp only [List.mem_cons, not_or] at ht
    refine ⟨⟨ht.1.2, fun j hj => ?_⟩, rfl, by simp⟩
    rcases List.mem_append.1 hj with hj | hj
    exacts [ht.2 j hj, List.mem_singleton.1 hj ▸ hk.fetch hf ▸ Ne.symm ht.1.1]
  | remove y ys jobs =>
    simp only [List.mem_cons, not_or] at ht
    exact ⟨⟨ht.1.2, ht.2⟩, rfl, by simp [Queue.remove, Store.lrem, ht.1.1]⟩
  | delete jobs => simpa [Store.delete] using ht
  | cancel j js =>
    simp only [List.mem_cons, forall_eq_or_imp] at ht
    exact ⟨⟨by simp, ht.2.2⟩, by simp [Job.cancel, Ne.symm ht.2.1], by simp [Job.cancel]⟩
  | fetchNil | fetchMissing => simpa using ht
  | _ => simp

end Steps

/-! ## Where the job stands -/

section Invariant

variable (q : Queue) (job : Job)

/-- `job` is not pushed yet: its ID is not listed, and `empty` does not hold it. -/
def jobUnpushed (E : EmptyPc) (s : Store) : Prop :=
  job.id ∉ s.lists q.key ∧ ¬ E.tracks job.id

/-- `job` was pushed before `empty`'s `LRANGE`: until the `DEL` it is listed, live, and held by
    a reading `empty` (which is not removing it); after the `DEL` it is unlisted, and held or
    cancelled. -/
def jobEarly (E : EmptyPc) (s : Store) : Prop :=
  (∀ x ids jobs, E = .remove x ids jobs → x ≠ job.id) ∧
  (E.phase < 2 → job.id ∈ s.lists q.key ∧ s.records job.id = some job ∧
    (E.reading → E.tracks job.id)) ∧
  (E.phase = 2 → job.id ∉ s.lists q.key ∧
    ((∃ j ∈ E.held, j.id = job.id) ∨ s.records job.id = none))

/-- `job` was pushed after `empty`'s `LRANGE`: `empty` does not hold it and its record stays
    live; it is listed unless it was pushed before the `DEL` (`between`) and the `DEL` has
    happened. -/
def jobLate (between : Prop) (E : EmptyPc) (s : Store) : Prop :=
  ¬ E.tracks job.id ∧ s.records job.id = some job ∧
    (job.id ∈ s.lists q.key ↔ (between → E.phase = 1))

/-- Where `job` stands, by the producer's progress and by where its push sits among `empty`'s
    marks. -/
def jobState (E : EmptyPc) (P : Option EnqueueJobPc) (s : Store) (log : List EmptyEvent) :
    Prop :=
  match P, EmptyEvent.marksBefore job.id log with
  | some pc, none => jobUnpushed q job E s ∧ (pc = .push → s.records job.id = some job)
  | none, some 0 => jobEarly q job E s
  | none, some (k + 1) => jobLate q job (k = 0) E s
  | _, _ => False

/-- The invariant of an `empty` race: the records stay under their own IDs, `empty`'s phase
    matches the marks in the log, and `job` stands as `jobState` says. -/
def EmptyInv (w : World EmptyClient EmptyEvent) : Prop :=
  ∃ E P, w.clients = [.emptier E, .producer P] ∧ w.store.WellKeyed ∧
    EmptyEvent.marks w.log = E.phase ∧ (.deleted ∈ w.log ↔ E.phase = 2) ∧
    jobState q job E P w.store w.log

variable {q job} {E E' : EmptyPc} {s s' : Store}

/-- Every command of `empty` keeps a job pushed before its `LRANGE` where `jobEarly` says. -/
theorem jobEarly_emptyStep (hk : s.WellKeyed) (he : jobEarly q job E s)
    (h : q.emptyStep E s = (E', s')) : jobEarly q job E' s' := by
  obtain ⟨hrm, hlive, hdead⟩ := he
  cases Queue.emptyStep_spec h with
  | lrange =>
    obtain ⟨hl, hr, -⟩ := hlive (by simp [EmptyPc.phase])
    exact ⟨by simp, fun _ => ⟨hl, hr, fun _ => .inl hl⟩, by simp [EmptyPc.phase]⟩
  | fetchNil jobs =>
    obtain ⟨hl, hr, ht⟩ := hlive (by simp [EmptyPc.phase])
    have ht : ∃ j ∈ jobs, j.id = job.id := by
      simpa [EmptyPc.tracks, EmptyPc.pending, EmptyPc.held] using ht trivial
    exact ⟨by simp, fun _ => ⟨hl, hr, fun _ => .inr ht⟩, by simp [EmptyPc.phase]⟩
  | @fetchOk y ys jobs _ r hf =>
    obtain ⟨hl, hr, ht⟩ := hlive (by simp [EmptyPc.phase])
    refine ⟨by simp, fun _ => ⟨hl, hr, fun _ => ?_⟩, by simp [EmptyPc.phase]⟩
    have ht := ht trivial
    simp only [EmptyPc.tracks, EmptyPc.pending, EmptyPc.held, List.mem_cons,
      List.mem_append, List.mem_singleton] at ht ⊢
    rcases ht with (rfl | hy) | ⟨j, hj, hjid⟩
    · exact .inr ⟨r, by simp, hk.fetch hf⟩
    · exact .inl hy
    · exact .inr ⟨j, by simp [hj], hjid⟩
  | @fetchMissing y ys jobs _ m hf =>
    obtain ⟨hl, hr, ht⟩ := hlive (by simp [EmptyPc.phase])
    have hy : y ≠ job.id := by
      rintro rfl
      simp [Job.fetch, hr] at hf
      split at hf <;> cases hf
    refine ⟨by simpa using hy, fun _ => ⟨hl, hr, fun _ => ?_⟩, by simp [EmptyPc.phase]⟩
    simpa [EmptyPc.tracks, EmptyPc.pending, EmptyPc.held] using ht trivial
  | fetchRaises =>
    obtain ⟨hl, hr, -⟩ := hlive (by simp [EmptyPc.phase])
    exact ⟨by simp, fun _ => ⟨hl, hr, fun h => h.elim⟩, by simp [EmptyPc.phase]⟩
  | remove y ys jobs =>
    obtain ⟨hl, hr, ht⟩ := hlive (by simp [EmptyPc.phase])
    have hy := hrm y ys jobs rfl
    refine ⟨by simp, fun _ => ⟨by simp [Queue.remove, Store.lrem, hl, Ne.symm hy], hr,
      fun _ => ?_⟩, by simp [EmptyPc.phase]⟩
    simpa [EmptyPc.tracks, EmptyPc.pending, EmptyPc.held, Ne.symm hy] using ht trivial
  | delete jobs =>
    obtain ⟨-, -, ht⟩ := hlive (by simp [EmptyPc.phase])
    refine ⟨by simp, by simp [EmptyPc.phase], fun _ => ⟨by simp [Store.delete], .inl ?_⟩⟩
    simpa [EmptyPc.tracks, EmptyPc.pending, EmptyPc.held] using ht trivial
  | cancelNil =>
    obtain ⟨hl, hheld⟩ := hdead rfl
    refine ⟨by simp, by simp [EmptyPc.phase], fun _ => ⟨hl, .inr ?_⟩⟩
    simpa [EmptyPc.held] using hheld
  | cancel j js =>
    obtain ⟨hl, hheld⟩ := hdead rfl
    refine ⟨by simp, by simp [EmptyPc.phase], fun _ => ⟨by simpa [Job.cancel] using hl, ?_⟩⟩
    by_cases hj : j.id = job.id
    · exact .inr (by simp [Job.cancel, hj])
    · simp only [EmptyPc.held, List.mem_cons, exists_eq_or_imp, hj, false_or] at hheld
      rcases hheld with h' | h'
      · exact .inl h'
      · exact .inr (by simp [Job.cancel, Ne.symm hj, h'])
  | done => exact ⟨hrm, hlive, hdead⟩

/-- Every command of `empty` keeps where `job` stands. -/
theorem jobState_emptyStep {P : Option EnqueueJobPc} {log : List EmptyEvent}
    (hk : s.WellKeyed) (hm : EmptyEvent.marks log = E.phase)
    (hst : jobState q job E P s log) (h : q.emptyStep E s = (E', s')) :
    jobState q job E' P s' (log ++ E.events) := by
  have hmb : EmptyEvent.marksBefore job.id (log ++ E.events) =
      EmptyEvent.marksBefore job.id log := by
    cases hb : EmptyEvent.marksBefore job.id log with
    | none =>
      cases E <;> simp [EmptyPc.events, hb, EmptyEvent.marksBefore_append_other hb]
    | some k => exact EmptyEvent.marksBefore_append_of_some hb _
  obtain ⟨hph, hph2⟩ := Queue.emptyStep_phase h
  unfold jobState at hst ⊢
  rw [hmb]
  cases P with
  | some pc =>
    cases hb : EmptyEvent.marksBefore job.id log with
    | some k => simp [hb] at hst
    | none =>
      simp only [hb] at hst ⊢
      obtain ⟨⟨hl, ht⟩, hr⟩ := hst
      obtain ⟨ht', hr', hl'⟩ := Queue.emptyStep_untracked hk ht (fun _ => hl) h
      exact ⟨⟨fun hin => hl (hl'.1 hin).1, ht'⟩, fun hp => hr' ▸ hr hp⟩
  | none =>
    cases hb : EmptyEvent.marksBefore job.id log with
    | none => simp [hb] at hst
    | some k =>
      cases k with
      | zero =>
        simp only [hb] at hst ⊢
        exact jobEarly_emptyStep hk hst h
      | succ k =>
        simp only [hb] at hst ⊢
        have hle := EmptyEvent.marksBefore_le hb
        obtain ⟨ht, hr, hl⟩ := hst
        have hne : E ≠ .lrange := by
          rintro rfl
          simp [EmptyPc.phase] at hm
          omega
        obtain ⟨ht', hr', hl'⟩ := Queue.emptyStep_untracked hk ht (fun h => absurd h hne) h
        refine ⟨ht', hr' ▸ hr, ?_⟩
        rw [hl', hl]
        by_cases hd : ∃ jobs, E = .delete jobs
        · obtain ⟨jobs, rfl⟩ := hd
          have h2 : E'.phase = 2 := by rw [hph]; rfl
          have hk0 : k = 0 := by
            have : EmptyEvent.marks log = 1 := hm
            omega
          simp [hk0, h2]
        · push_neg at hd
          have hev : E.events = [] := by cases E <;> simp_all [EmptyPc.events]
          simp only [hev, EmptyEvent.marks, Nat.add_zero] at hph
          simp [hph, hd]

theorem EmptyPc.phase_eq_zero {E : EmptyPc} : E.phase = 0 ↔ E = .lrange := by
  cases E with
  | done err => cases err <;> simp [EmptyPc.phase]
  | _ => simp [EmptyPc.phase]

/-- Every step of the producer keeps where `job` stands; its push files `job` by `empty`'s
    phase at that moment. -/
theorem jobState_producerStep (hasync : q.isAsync = true) {pc : EnqueueJobPc}
    {P' : Option EnqueueJobPc} {log : List EmptyEvent} (hm : EmptyEvent.marks log = E.phase)
    (hst : jobState q job E (some pc) s log) (h : q.enqueueJobStep job pc s = (P', s')) :
    jobState q job E P' s' (log ++ if pc = .push then [.pushed job.id] else []) := by
  unfold jobState at hst
  cases hb : EmptyEvent.marksBefore job.id log with
  | some k => simp [hb] at hst
  | none =>
    simp only [hb] at hst
    obtain ⟨⟨hl, ht⟩, hr⟩ := hst
    cases pc with
    | register =>
      cases h
      simpa [jobState, hb, jobUnpushed] using ⟨hl, ht⟩
    | save =>
      simp only [Queue.enqueueJobStep, hasync, if_true] at h
      cases h
      simpa [jobState, hb, jobUnpushed, Job.save] using ⟨hl, ht⟩
    | push =>
      cases h
      have hr := hr rfl
      have hmb := EmptyEvent.marksBefore_append_pushed hb
      rw [hm] at hmb
      simp only [if_true]
      unfold jobState
      rw [hmb]
      cases hph : E.phase with
      | zero =>
        obtain rfl := EmptyPc.phase_eq_zero.1 hph
        refine ⟨by simp, fun _ => ⟨by simp, by simpa using hr, fun h => h.elim⟩, ?_⟩
        simp [EmptyPc.phase]
      | succ k => exact ⟨ht, by simpa using hr, by simp [hph]⟩

theorem emptyInv_tick (hasync : q.isAsync = true) {w : World EmptyClient EmptyEvent}
    (h : EmptyInv q job w) (i n : Nat) : EmptyInv q job (w.tick (EmptyClient.step q job) i n) := by
  obtain ⟨E, P, hw, hk, hm, hd, hst⟩ := h
  rcases i with _ | _ | i
  · rw [World.tick_of_get n (c := .emptier E) (by simp [hw])]
    generalize hr : q.emptyStep E w.store = r
    obtain ⟨E', s'⟩ := r
    obtain ⟨hph, hph2⟩ := Queue.emptyStep_phase hr
    simp only [EmptyClient.step, hr]
    refine ⟨E', P, by simp [hw], Queue.emptyStep_keyed hk hr, by simp [hm, hph], ?_,
      jobState_emptyStep hk hm hst hr⟩
    rw [hph2, ← hd, List.mem_append]
  · cases P with
    | none =>
      rw [World.tick_of_get n (c := .producer none) (by simp [hw])]
      simp only [EmptyClient.step, List.append_nil]
      exact ⟨E, none, by simp [hw], hk, hm, hd, hst⟩
    | some pc =>
      rw [World.tick_of_get n (c := .producer (some pc)) (by simp [hw])]
      generalize hr : q.enqueueJobStep job pc w.store = r
      obtain ⟨P', s'⟩ := r
      have hk' := hk.enqueueJobStep q job pc
      rw [hr] at hk'
      simp only [EmptyClient.step, hr]
      refine ⟨E, P', by simp [hw], hk', ?_, ?_, jobState_producerStep hasync hm hst hr⟩
      · split <;> simp [hm]
      · split <;> simpa using hd
  · rw [World.tick_of_none n (by simp [hw])]
    exact ⟨E, P, hw, hk, hm, hd, hst⟩

theorem emptyInv_run (hasync : q.isAsync = true) (sched : List (Nat × Nat))
    {w : World EmptyClient EmptyEvent} (h : EmptyInv q job w) :
    EmptyInv q job (w.run (EmptyClient.step q job) sched) :=
  World.run_induction (EmptyInv q job) (fun _ i n hw => emptyInv_tick hasync hw i n) sched w h

end Invariant

/-- Once `q.empty()` and `q.enqueue_job(j)` on an asynchronous queue have both returned, `j`'s
    record is live with its ID out of the list exactly when its push landed after `empty`'s
    `LRANGE` and before its `DEL`. -/
theorem empty_orphan_iff (q : Queue) (j : Job) (now : Nat) (s₀ : Store)
    (sched : List (Nat × Nat)) (err : Option RqError) (hasync : q.isAsync = true)
    (hkeyed : s₀.WellKeyed) (hnot : j.id ∉ s₀.lists q.key)
    (hfin : (emptyRun q j now s₀ sched).clients = [.emptier (.done err), .producer none]) :
    (((emptyRun q j now s₀ sched).store.records j.id).isSome ∧
        j.id ∉ (emptyRun q j now s₀ sched).store.lists q.key) ↔
      pushedBetween j.id (emptyRun q j now s₀ sched).log := by
  have hinit : EmptyInv q (q.jobMeta j true now)
      ⟨s₀, [.emptier .lrange, .producer (some .register)], []⟩ :=
    ⟨.lrange, some .register, rfl, hkeyed, rfl, by simp [EmptyPc.phase],
      by simp [jobState, EmptyEvent.marksBefore, jobUnpushed, hnot, EmptyPc.tracks,
        EmptyPc.pending, EmptyPc.held]⟩
  obtain ⟨E, P, hw, -, -, hd, hst⟩ := emptyInv_run hasync sched hinit
  rw [← emptyRun] at hw hd hst
  rw [hfin] at hw
  simp only [List.cons.injEq, EmptyClient.emptier.injEq, EmptyClient.producer.injEq,
    and_true] at hw
  obtain ⟨rfl, rfl⟩ := hw
  unfold jobState at hst
  unfold pushedBetween
  rw [hd]
  cases hb : EmptyEvent.marksBefore j.id (emptyRun q j now s₀ sched).log with
  | none => simp [hb] at hst
  | some k =>
    cases k with
    | zero =>
      simp only [hb, jobEarly, Queue.jobMeta_id] at hst
      obtain ⟨-, hlive, hdead⟩ := hst
      cases err with
      | some e =>
        have := (hlive (by simp [EmptyPc.phase])).1
        simp [this]
      | none =>
        obtain ⟨-, hnone⟩ := hdead rfl
        simp [EmptyPc.held] at hnone
        simp [hnone]
    | succ k =>
      simp only [hb, jobLate, Queue.jobMeta_id] at hst
      obtain ⟨-, hr, hl⟩ := hst
      rw [hl]
      cases err <;> simp [hr, EmptyPc.phase]

/-- The run of `empty_orphans_job`, where both calls return and the push lands between the
    `LRANGE` and the `DEL`. -/
theorem empty_orphan_iff_between :
    (Queue.new "default").isAsync = true ∧ Store.empty.WellKeyed ∧
      (let q := Queue.new "default";
        let w := emptyRun q { id := "j" } 0 Store.empty
          [(0, 0), (1, 0), (1, 0), (1, 0), (0, 0), (0, 0), (0, 0)];
        "j" ∉ Store.empty.lists q.key ∧ w.clients = [.emptier (.done none), .producer none] ∧
          (((w.store.records "j").isSome ∧ "j" ∉ w.store.lists q.key) ↔
            pushedBetween "j" w.log)) :=
  ⟨rfl, fun _ _ h => by simp [Store.empty] at h, by decide, by decide,
    empty_orphan_iff _ { id := "j" } 0 Store.empty
      [(0, 0), (1, 0), (1, 0), (1, 0), (0, 0), (0, 0), (0, 0)] none rfl
      (fun _ _ h => by simp [Store.empty] at h) (by decide) (by decide)⟩

/-! ## `empty` run alone -/

/-- What a finished `empty` returned or raised (`none` while it runs). -/
def EmptyPc.result : EmptyPc → Option (Except RqError Unit)
  | .done none => some (.ok ())
  | .done (some e) => some (.error e)
  | _ => none

theorem EmptyPc.done_fixed (q : Queue) (err : Option RqError) (s : Store) (m : Nat) :
    (Function.uncurry q.emptyStep)^[m] (.done err, s) = (.done err, s) :=
  Function.iterate_fixed rfl m

/-- The fetch loop of the machine, run alone, reaches the `DEL` holding the jobs `get_jobs`
    returns, or ends with the exception it raises, within two steps per ID and one more. -/
theorem Queue.emptyStep_fetch_alone (q : Queue) (M : List String) (jobs : List Job) (s : Store) :
    ∃ k ≤ 2 * M.length + 1, (Function.uncurry q.emptyStep)^[k] (.fetch M jobs, s) =
      match q.fetchJobs M s with
      | (.ok js, s') => (.delete (jobs ++ Rq.compact js), s')
      | (.error e, s') => (.done (some e), s') := by
  induction M generalizing jobs s with
  | nil => exact ⟨1, by simp, by simp [Queue.emptyStep, Queue.fetchJobs, Rq.compact]⟩
  | cons x M ih =>
    cases hf : Job.fetch s x with
    | ok job =>
      obtain ⟨k, hk, hrun⟩ := ih (jobs ++ [job]) s
      refine ⟨k + 1, by simp; omega, ?_⟩
      rw [Function.iterate_succ_apply]
      simp only [Function.uncurry_apply_pair, Queue.emptyStep, hf, hrun, Queue.fetchJobs,
        Queue.fetchJob]
      rcases q.fetchJobs M s with ⟨_ | js, s'⟩ <;> simp [Rq.compact]
    | error e =>
      cases e with
      | noSuchJob msg =>
        obtain ⟨k, hk, hrun⟩ := ih jobs (q.remove x s).2
        refine ⟨k + 2, by simp; omega, ?_⟩
        rw [Function.iterate_succ_apply, Function.iterate_succ_apply]
        simp only [Function.uncurry_apply_pair, Queue.emptyStep, hf, hrun, Queue.fetchJobs,
          Queue.fetchJob]
        rcases q.fetchJobs M (q.remove x s).2 with ⟨_ | js, s'⟩ <;> simp [Rq.compact]
      | _ =>
        refine ⟨1, by simp, ?_⟩
        simp [Queue.emptyStep, Queue.fetchJobs, Queue.fetchJob, hf]

/-- The cancel loop of the machine, run alone, cancels the held jobs in order and returns. -/
theorem Queue.emptyStep_cancel_alone (q : Queue) (jobs : List Job) (s : Store) :
    (Function.uncurry q.emptyStep)^[jobs.length + 1] (.cancel jobs, s) =
      (.done none, jobs.foldl Job.cancel s) := by
  induction jobs generalizing s with
  | nil => rfl
  | cons j jobs ih =>
    rw [List.length_cons, Function.iterate_succ_apply]
    exact ih _

/-- Run alone for enough steps, the `empty` machine ends with the result and the store of the
    sequential `Queue.empty`. -/
theorem Queue.emptyStep_alone (q : Queue) (s : Store) {n : Nat}
    (hn : 3 * (s.lists q.key).length + 3 < n) :
    ((Function.uncurry q.emptyStep)^[n] (.lrange, s)).1.result = some (q.empty s).1 ∧
      ((Function.uncurry q.emptyStep)^[n] (.lrange, s)).2 = (q.empty s).2 := by
  obtain ⟨k, hk, hrun⟩ := q.emptyStep_fetch_alone (s.lists q.key) [] s
  obtain ⟨m, rfl⟩ : ∃ m, n = m + k + 1 := ⟨n - k - 1, by omega⟩
  rw [Function.iterate_succ_apply, Function.iterate_add_apply,
    show Function.uncurry q.emptyStep (.lrange, s) = (.fetch (s.lists q.key) [], s) from rfl, hrun]
  simp only [Queue.empty, Queue.getJobs,
    show q.getJobIds 0 (-1) s = s.lists q.key from q.jobIds_eq s]
  cases hj : q.fetchJobs (s.lists q.key) s with
  | mk r s' =>
    cases r with
    | error e => simp [EmptyPc.done_fixed, EmptyPc.result]
    | ok js =>
      have hlen : (Rq.compact js).length ≤ (s.lists q.key).length :=
        (List.length_filterMap_le _ _).trans (Queue.fetchJobs_length q hj).le
      obtain ⟨i, rfl⟩ : ∃ i, m = i + ((Rq.compact js).length + 1) + 1 :=
        ⟨m - (Rq.compact js).length - 2, by omega⟩
      dsimp only
      rw [Function.iterate_succ_apply, Function.iterate_add_apply, List.nil_append,
        show Function.uncurry q.emptyStep (.delete (Rq.compact js), s') =
          (.cancel (Rq.compact js), s'.delete q.key) from rfl,
        Queue.emptyStep_cancel_alone, EmptyPc.done_fixed]
      exact ⟨rfl, rfl⟩


theorem Queue.emptyStep_alone_one :
    (let q := Queue.new "default";
      let s := q.pushJobId "a" Store.empty;
      ((Function.uncurry q.emptyStep)^[7] (.lrange, s)).1.result = some (q.empty s).1 ∧
        ((Function.uncurry q.emptyStep)^[7] (.lrange, s)).2 = (q.empty s).2) :=
  Queue.emptyStep_alone (Queue.new "default") ((Queue.new "default").pushJobId "a" Store.empty)
    (by decide)

end Rq
