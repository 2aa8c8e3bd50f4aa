import Rq.Queue

/-
  rq core, `Queue.enqueue(f, *args, **kwargs)` (rq/queue.py lines 246-286), run by one client
  with no other client acting: how it splits its arguments into the function's arguments and
  the options of `enqueue_call`.

  A value in the call is a `PyValue`: `None`, `False`, a number, a text, a job or a list of jobs,
  or any other object (of type `α`). `enqueue_call` reads a timeout or a TTL as a number, a
  description as a text, `depends_on` and `blocked_by` as jobs and `deferred` by its truth
  value; a value of another kind is read as absent.

  `enqueue` takes its explicit form when one of the keys `args`, `kwargs`, `depends_on`,
  `deferred` or `blocked_by` is given. It then asserts that there are no positional arguments
  and pops the options, `args` and `kwargs` from the keyword dict. Otherwise it passes the
  positional tuple and the whole keyword dict on to the function, and every option keeps its
  default.

  * `Queue.enqueueCall_timeout`: a job that `enqueue_call` admits (it has no parent) gets the
    timeout it was given, else the queue's default, else `DEFAULT_TIMEOUT`.
  * `Queue.enqueue_explicit_timeout`: in the explicit form that timeout is the value of the key
    `timeout`.
  * `Queue.enqueue_implicit_timeout`: in the implicit form it is the queue's default or
    `DEFAULT_TIMEOUT`, whatever the key `timeout` holds, and the whole dict goes to the function.
  * `enqueue_implicit_options_forwarded`: the implicit call of `test_enqueue_explicit_args`
    makes a job with timeout 180 and no result TTL and passes `timeout` and `result_ttl` on to
    the function; positional arguments together with `depends_on` raise `AssertionError`.
-/

namespace Rq

/-- The function argument of `enqueue`: a dotted path, or a callable, known by its
    `__module__`. -/
inductive EnqueueFunc
  | path (name : String)
  | callable (module : String)
  deriving DecidableEq, Repr

/-- A value passed to `enqueue`: `None`, `False`, a number, a text, a job or a list of jobs, or
    any other object. -/
inductive PyValue (α : Type)
  | None
  | False
  | int (n : Nat)
  | str (s : String)
  | jobs (d : DependsOn)
  | obj (v : α)
  deriving DecidableEq, Repr

namespace PyValue

variable {α : Type}

/-- A timeout or a TTL, as `enqueue_call` passes it to `Job.create`. -/
def seconds : PyValue α → Option Nat
  | .int n => some n
  | _ => none

/-- A description. -/
def text : PyValue α → Option String
  | .str s => some s
  | _ => none

/-- A `depends_on` or `blocked_by`. -/
def parents : PyValue α → Option DependsOn
  | .jobs d => some d
  | _ => none

/-- Python's truth value. -/
def truthy : PyValue α → Bool
  | .None | .False => false
  | .int n => n ≠ 0
  | .str s => s ≠ ""
  | .jobs d => d.truthy
  | .obj _ => true

end PyValue

/-- The arguments `enqueue` passes to `enqueue_call`. `args` is the positional tuple (implicit
    form) or the value of the key `args` (explicit form); `kwargs` is the keyword dict or the
    value of the key `kwargs`. -/
structure EnqueueCallArgs (α : Type) where
  func : EnqueueFunc
  args : List (PyValue α) ⊕ PyValue α
  kwargs : List (String × PyValue α) ⊕ PyValue α
  timeout : PyValue α
  resultTtl : PyValue α
  description : PyValue α
  dependsOn : PyValue α
  deferred : PyValue α
  blockedBy : PyValue α
  deriving DecidableEq, Repr

/-- `kwargs.pop(key, default)`: the value given for `key`, else the default. A `**kwargs` dict
    holds each key once, so the pops of different keys do not interfere. -/
def popKw {α : Type} (kwargs : List (String × PyValue α)) (key : String) (default : PyValue α) :
    PyValue α :=
  (kwargs.lookup key).getD default

/-- The keys whose presence makes a call explicit. -/
def explicitTokens : List String := ["args", "kwargs", "depends_on", "deferred", "blocked_by"]

/-- `Queue.enqueue(f, *args, **kwargs)` up to its call of `enqueue_call`: the arguments of that
    call. -/
def Queue.enqueueArgs {α : Type} (f : EnqueueFunc) (args : List (PyValue α))
    (kwargs : List (String × PyValue α)) : Except RqError (EnqueueCallArgs α) :=
  if f = .callable "__main__" then
    .error (.valueError "Functions from the __main__ module cannot be processed by workers.")
  else if explicitTokens.any fun token => (kwargs.lookup token).isSome then
    if args.isEmpty then
      .ok { func := f
            args := .inr (popKw kwargs "args" .None)
            kwargs := .inr (popKw kwargs "kwargs" .None)
            timeout := popKw kwargs "timeout" .None
            resultTtl := popKw kwargs "result_ttl" .None
            description := popKw kwargs "description" .None
            dependsOn := popKw kwargs "depends_on" .None
            deferred := popKw kwargs "deferred" .False
            blockedBy := popKw kwargs "blocked_by" .None }
    else
      .error (.assertionError
        "Extra positional arguments cannot be used when using explicit args and kwargs.")
  else
    .ok { func := f, args := .inl args, kwargs := .inl kwargs, timeout := .None,
          resultTtl := .None, description := .None, dependsOn := .None, deferred := .False,
          blockedBy := .False }

/-- The options `enqueue_call` reads from the arguments `enqueue` gives it. -/
def EnqueueCallArgs.options {α : Type} (c : EnqueueCallArgs α) : CallOptions :=
  { timeout := c.timeout.seconds, resultTtl := c.resultTtl.seconds,
    description := c.description.text, dependsOn := c.dependsOn.parents,
    deferred := c.deferred.truthy, blockedBy := c.blockedBy.parents }

/-- `Queue.enqueue(f, *args, **kwargs)`: the parse, then `enqueue_call`, with the job ID `id`
    that `Job.create` draws, the clock read as `now`, and what the call of `f` raises when the
    job runs (`raises`, by default nothing). -/
def Queue.enqueue {α : Type} (q : Queue) (f : EnqueueFunc) (args : List (PyValue α))
    (kwargs : List (String × PyValue α)) (id : String) (now : Nat) (s : Store)
    (raises : Option String := none) : Except RqError Job × Store :=
  match Queue.enqueueArgs f args kwargs with
  | .error e => (.error e, s)
  | .ok c => q.enqueueCall { c.options with raises } id now s

/-! ## The timeout of the job -/

/-- A job whose function returns is admitted with its timeout, else `DEFAULT_TIMEOUT`. -/
theorem Queue.deferOrEnqueue_timeout (q : Queue) {job : Job} (hr : job.raises = none) (now : Nat)
    (s : Store) :
    (q.deferOrEnqueue job now s).1.map (·.timeout) = .ok (some (job.timeout.getD DEFAULT_TIMEOUT)) := by
  unfold Queue.deferOrEnqueue Queue.deferJob
  split
  · simp [Except.map]
  · rw [Queue.enqueueJob_fst]
    split <;> simp [Except.map, Job.perform, hr]

theorem Queue.enqueueCall_timeout (q : Queue) {o : CallOptions} (h : o.parents = none)
    (hr : o.raises = none) (id : String) (now : Nat) (s : Store) :
    (q.enqueueCall o id now s).1.map (·.timeout) =
      .ok (some ((pyOr o.timeout q.defaultTimeout).getD DEFAULT_TIMEOUT)) := by
  simp only [Queue.enqueueCall, h]
  rw [Queue.deferOrEnqueue_timeout q (by simp [Queue.createJob, hr])]
  rfl

theorem Queue.enqueue_explicit_timeout {α : Type} (q : Queue) {f : EnqueueFunc}
    (hf : f ≠ .callable "__main__") {kwargs : List (String × PyValue α)}
    (hkw : ∃ token ∈ explicitTokens, (kwargs.lookup token).isSome)
    (hdep : kwargs.lookup "depends_on" = none) (hblk : kwargs.lookup "blocked_by" = none)
    (id : String) (now : Nat) (s : Store) :
    (q.enqueue f [] kwargs id now s).1.map (·.timeout) =
      .ok (some ((pyOr (popKw kwargs "timeout" .None).seconds q.defaultTimeout).getD
        DEFAULT_TIMEOUT)) := by
  have hany : (explicitTokens.any fun token => (kwargs.lookup token).isSome) = true :=
    List.any_eq_true.2 (by simpa using hkw)
  simp only [Queue.enqueue, Queue.enqueueArgs, hf, if_false, hany, if_true, List.isEmpty_nil]
  exact Queue.enqueueCall_timeout q (by simp [CallOptions.parents, CallOptions.blocked,
    EnqueueCallArgs.options, popKw, hdep, hblk, PyValue.parents]) rfl id now s

theorem Queue.enqueue_implicit_timeout {α : Type} (q : Queue) {f : EnqueueFunc}
    (hf : f ≠ .callable "__main__") (args : List (PyValue α))
    {kwargs : List (String × PyValue α)}
    (hkw : ∀ token ∈ explicitTokens, kwargs.lookup token = none) (id : String) (now : Nat)
    (s : Store) :
    (Queue.enqueueArgs f args kwargs).map (·.kwargs) = .ok (.inl kwargs) ∧
      (q.enqueue f args kwargs id now s).1.map (·.timeout) =
        .ok (some (q.defaultTimeout.getD DEFAULT_TIMEOUT)) := by
  have hany : (explicitTokens.any fun token => (kwargs.lookup token).isSome) = false :=
    List.any_eq_false.2 fun token ht => by simp [hkw token ht]
  simp only [Queue.enqueue, Queue.enqueueArgs, hf, if_false, hany, Bool.false_eq_true]
  exact ⟨rfl, Queue.enqueueCall_timeout q (by rfl) rfl id now s⟩

/-- `q.enqueue(echo, 1, timeout=1, result_ttl=1, bar='baz')` from `test_enqueue_explicit_args`:
    the job gets the timeout 180 and no result TTL, and `timeout` and `result_ttl` reach `echo`
    with `bar`. `q.enqueue(echo, 1, depends_on=p)` raises `AssertionError`. -/
theorem enqueue_implicit_options_forwarded :
    ((Queue.new "default").enqueue (.callable "tests.fixtures") [(.int 1 : PyValue Empty)]
        [("timeout", .int 1), ("result_ttl", .int 1), ("bar", .str "baz")] "j" 0
        Store.empty).1.map (fun job => (job.timeout, job.resultTtl)) = .ok (some 180, none) ∧
    (Queue.enqueueArgs (.callable "tests.fixtures") [(.int 1 : PyValue Empty)]
        [("timeout", .int 1), ("result_ttl", .int 1), ("bar", .str "baz")]).map (·.kwargs) =
      .ok (.inl [("timeout", .int 1), ("result_ttl", .int 1), ("bar", .str "baz")]) ∧
    (Queue.enqueueArgs (.callable "tests.fixtures") [(.int 1 : PyValue Empty)]
        [("depends_on", .jobs (.job "p"))]).map (·.func) =
      .error (.assertionError
        "Extra positional arguments cannot be used when using explicit args and kwargs.") :=
  ⟨rfl, rfl, rfl⟩

end Rq
