import PegasusShell.TopContainerProofs

/-! # `scan_data_next` — one split as a transition system

    `scan_data_next` refills a split's requests from inside the callbacks it issues, so a
    split is a growing set of threads sharing the atomics of `scan_data_context`.  This file
    makes that set explicit:

    * the initial call (`ScanState.main`) and every callback issued so far
      (`ScanState.callbacks`, in issue order), each at the next atomic access it makes
      (`LoopPc`, `CallbackPc`): a load, an increment, a decrement, a store, an exchange, a
      call that issues an asynchronous operation, or a print;
    * a pending callback starts when its result arrives (`Action.deliverNext`,
      `Action.deliverWrite`); the cursor's and the clients' results are inputs, so every
      sequence of results is a run;
    * `scanDataNext` takes one atomic step of the thread an `Action` names, or starts the
      callback a result arrives for; any interleaving of the threads is a list of actions
      (`run`), and `Reachable` is what some interleaving reaches.  `*error_occurred` is
      shared by all splits of a job: another split may set it at any time
      (`Action.otherSplitFails`).

    Every step is a total function of the state, so a concrete schedule evaluates with
    `decide`.  The step lemmas at the end (`next_main`, `next_callback`, ...) are what the
    invariant proofs use; they never unfold `scanDataNext`. -/

namespace PegasusScanStep

open PegasusTop

/-- `scan_data_operator`. -/
inductive ScanDataOperator
  | scanCopy
  | scanClear
  | scanCount
  | scanGenGeo
  deriving DecidableEq, Repr

/-- A row as the cursor delivers it to an `async_next` callback. -/
structure Row where
  hashKey : String
  sortKey : String
  value : String
  deriving DecidableEq, Repr

/-- What the cursor delivers to an `async_next` callback. -/
inductive NextResult
  /-- `ret == PERR_OK`, with the row. -/
  | row (r : Row)
  /-- `ret == PERR_SCAN_COMPLETE`. -/
  | scanComplete
  /-- Any other `ret`. -/
  | error (ret : Int)
  deriving DecidableEq, Repr

/-- What the store or geo client delivers to a write callback. -/
inductive WriteResult
  | ok
  /-- `err != PERR_OK`. -/
  | error (err : Int)
  deriving DecidableEq, Repr

/-- The fields of `scan_data_context` that never change, and the client's
    `get_error_string`.  The scanner and the clients are the result inputs. -/
structure ScanDataContext where
  op : ScanDataOperator
  splitId : Int
  maxBatchCount : Int
  statSize : Bool
  topCount : Int
  getErrorString : Int → String

/-- The atomics of `scan_data_context`, the job's `*error_occurred`, the statistics and
    what the split printed.  The two `std::atomic_long` counters are unbounded integers
    here; `topRows` is `none` once a `top_rows.push` was undefined.  `errorStores` counts
    this split's `error_occurred->store(true)` calls; no code reads it. -/
structure Shared where
  splitRows : Int
  splitRequestCount : Int
  splitCompleted : Bool
  errorOccurred : Bool
  hashKeySizeHistogram : List Int
  sortKeySizeHistogram : List Int
  valueSizeHistogram : List Int
  rowSizeHistogram : List Int
  topRows : Option TopContainer
  stderr : List String
  errorStores : Nat

/-- The next atomic access of a running `scan_data_next` loop. -/
inductive LoopPc
  /-- `!context->split_completed.load()`. -/
  | loadCompleted
  /-- `!context->error_occurred->load()`. -/
  | loadError
  /-- `context->split_request_count.load() < context->max_batch_count`. -/
  | loadCount
  /-- `context->split_request_count++`. -/
  | increment
  /-- `context->scanner->async_next(...)`. -/
  | asyncNext
  deriving DecidableEq, Repr

/-- The write a row callback issues. -/
inductive WriteKind
  /-- SCAN_COPY: `client->async_set`. -/
  | set
  /-- SCAN_CLEAR: `client->async_del`. -/
  | del
  /-- SCAN_GEN_GEO: `geoclient->async_set`. -/
  | geoSet
  deriving DecidableEq, Repr

/-- What a failing write's diagnostic calls the write. -/
def WriteKind.what : WriteKind → String
  | .set => "async set"
  | .del => "async del"
  | .geoSet => "async set"

/-- Where one callback is: pending until its result arrives, then its next atomic access. -/
inductive CallbackPc
  /-- Issued by `async_next`, no result yet. -/
  | pendingNext
  /-- Issued by a row callback's write, no result yet. -/
  | pendingWrite (k : WriteKind)
  /-- A row under a writing operator: `split_request_count++` before the write. -/
  | writeIncrement (k : WriteKind)
  /-- The write call. -/
  | writeIssue (k : WriteKind)
  /-- A row under SCAN_COUNT: `split_rows++`. -/
  | countRows (r : Row)
  /-- The four histograms and `top_rows.push` (under `stat_size`). -/
  | countStats (r : Row)
  /-- `PERR_SCAN_COMPLETE`: `split_completed.store(true)`. -/
  | storeCompleted
  /-- A failure: `split_completed.exchange(true)`, with the diagnostic it would print. -/
  | exchange (msg : String)
  /-- The exchange returned false: `fprintf(stderr, ...)`. -/
  | print (msg : String)
  /-- `error_occurred->store(true)`. -/
  | storeError
  /-- A successful write: `split_rows++`. -/
  | writeRows
  /-- The nested `scan_data_next(context)`. -/
  | loop (l : LoopPc)
  /-- The final `split_request_count--`; `failed` says whether the result was a failure. -/
  | decrement (failed : Bool)
  /-- Returned. -/
  | done (failed : Bool)
  deriving DecidableEq, Repr

/-- One split: the shared state, the initial `scan_data_next` call (`none` once it
    returned) and every callback issued so far. -/
structure ScanState where
  shared : Shared
  main : Option LoopPc
  callbacks : List CallbackPc

/-- `fprintf(stderr, "ERROR: split[%d] <what> failed: %s\n", split_id, get_error_string(err))`. -/
def diagnostic (ctx : ScanDataContext) (what : String) (err : Int) : String :=
  "ERROR: split[" ++ toString ctx.splitId ++ "] " ++ what ++ " failed: " ++
    ctx.getErrorString err ++ "\n"

-- ── The loop ─────────────────────────────────────────────────────────────────────────

/-- The shared state after the loop's access at `l`. -/
def loopShared (sh : Shared) : LoopPc → Shared
  | .increment => { sh with splitRequestCount := sh.splitRequestCount + 1 }
  | _ => sh

/-- Where the loop goes after its access at `l`; `none` when the loop condition failed. -/
def loopNext (ctx : ScanDataContext) (sh : Shared) : LoopPc → Option LoopPc
  | .loadCompleted => if sh.splitCompleted then none else some .loadError
  | .loadError => if sh.errorOccurred then none else some .loadCount
  | .loadCount => if sh.splitRequestCount < ctx.maxBatchCount then some .increment else none
  | .increment => some .asyncNext
  | .asyncNext => some .loadCompleted

/-- The callback the loop's access at `l` issues. -/
def loopSpawn : LoopPc → List CallbackPc
  | .asyncNext => [.pendingNext]
  | _ => []

-- ── The callbacks ────────────────────────────────────────────────────────────────────

/-- Where an `async_next` callback starts once the cursor delivers `r`: the `switch` on
    `op` for a row. -/
def afterNext (ctx : ScanDataContext) : NextResult → CallbackPc
  | .row r =>
      match ctx.op with
      | .scanCopy => .writeIncrement .set
      | .scanClear => .writeIncrement .del
      | .scanCount => .countRows r
      | .scanGenGeo => .writeIncrement .geoSet
  | .scanComplete => .storeCompleted
  | .error ret => .exchange (diagnostic ctx "scan next" ret)

/-- Where a write callback starts once its client delivers `r`. -/
def afterWrite (ctx : ScanDataContext) (k : WriteKind) : WriteResult → CallbackPc
  | .ok => .writeRows
  | .error err => .exchange (diagnostic ctx k.what err)

/-- The statistics one SCAN_COUNT row adds: four histogram samples and, when
    `top_count > 0`, a `top_rows.push`. -/
def recordStats (ctx : ScanDataContext) (sh : Shared) (r : Row) : Shared :=
  let hashKeySize : Int := r.hashKey.length
  let sortKeySize : Int := r.sortKey.length
  let valueSize : Int := r.value.length
  let rowSize := hashKeySize + sortKeySize + valueSize
  { sh with
    hashKeySizeHistogram := sh.hashKeySizeHistogram ++ [hashKeySize]
    sortKeySizeHistogram := sh.sortKeySizeHistogram ++ [sortKeySize]
    valueSizeHistogram := sh.valueSizeHistogram ++ [valueSize]
    rowSizeHistogram := sh.rowSizeHistogram ++ [rowSize]
    topRows := if 0 < ctx.topCount then sh.topRows.bind (·.push r.hashKey r.sortKey rowSize)
      else sh.topRows }

/-- The shared state after a callback's access at `pc`. -/
def callbackShared (ctx : ScanDataContext) (sh : Shared) : CallbackPc → Shared
  | .writeIncrement _ => { sh with splitRequestCount := sh.splitRequestCount + 1 }
  | .countRows _ => { sh with splitRows := sh.splitRows + 1 }
  | .countStats r => recordStats ctx sh r
  | .storeCompleted => { sh with splitCompleted := true }
  | .exchange _ => { sh with splitCompleted := true }
  | .print msg => { sh with stderr := sh.stderr ++ [msg] }
  | .storeError => { sh with errorOccurred := true, errorStores := sh.errorStores + 1 }
  | .writeRows => { sh with splitRows := sh.splitRows + 1 }
  | .loop l => loopShared sh l
  | .decrement _ => { sh with splitRequestCount := sh.splitRequestCount - 1 }
  | .pendingNext | .pendingWrite _ | .writeIssue _ | .done _ => sh

/-- Where a callback goes after its access at `pc`.  A pending or returned callback stays. -/
def callbackNext (ctx : ScanDataContext) (sh : Shared) : CallbackPc → CallbackPc
  | .pendingNext => .pendingNext
  | .pendingWrite k => .pendingWrite k
  | .writeIncrement k => .writeIssue k
  | .writeIssue _ => .decrement false
  | .countRows r => if ctx.statSize then .countStats r else .loop .loadCompleted
  | .countStats _ => .loop .loadCompleted
  | .storeCompleted => .decrement false
  | .exchange msg => if sh.splitCompleted then .decrement true else .print msg
  | .print _ => .storeError
  | .storeError => .decrement true
  | .writeRows => .loop .loadCompleted
  | .loop l =>
      match loopNext ctx sh l with
      | some l' => .loop l'
      | none => .decrement false
  | .decrement f => .done f
  | .done f => .done f

/-- The callback a callback's access at `pc` issues. -/
def callbackSpawn : CallbackPc → List CallbackPc
  | .writeIssue k => [.pendingWrite k]
  | .loop l => loopSpawn l
  | _ => []

-- ── The system ───────────────────────────────────────────────────────────────────────

/-- Which thread moves, or which result arrives. -/
inductive Action
  /-- The initial `scan_data_next` call takes its next step. -/
  | main
  /-- Callback `i` takes its next step. -/
  | callback (i : Nat)
  /-- The cursor answers callback `i`'s `async_next`. -/
  | deliverNext (i : Nat) (r : NextResult)
  /-- The client answers callback `i`'s write. -/
  | deliverWrite (i : Nat) (r : WriteResult)
  /-- Another split of the job stores `*error_occurred = true`. -/
  | otherSplitFails
  deriving DecidableEq, Repr

/-- `scan_data_next` and the callbacks it issues, one atomic step at a time.  An action
    whose thread cannot move leaves the state as it is. -/
def scanDataNext (ctx : ScanDataContext) (s : ScanState) : Action → ScanState
  | .main =>
      match s.main with
      | some l => ⟨loopShared s.shared l, loopNext ctx s.shared l, s.callbacks ++ loopSpawn l⟩
      | none => s
  | .callback i =>
      match s.callbacks[i]? with
      | some pc =>
          ⟨callbackShared ctx s.shared pc, s.main,
            s.callbacks.set i (callbackNext ctx s.shared pc) ++ callbackSpawn pc⟩
      | none => s
  | .deliverNext i r =>
      match s.callbacks[i]? with
      | some .pendingNext => { s with callbacks := s.callbacks.set i (afterNext ctx r) }
      | _ => s
  | .deliverWrite i r =>
      match s.callbacks[i]? with
      | some (.pendingWrite k) => { s with callbacks := s.callbacks.set i (afterWrite ctx k r) }
      | _ => s
  | .otherSplitFails => { s with shared := { s.shared with errorOccurred := true } }

/-- A fresh `scan_data_context` right before the caller's `scan_data_next(context)`. -/
def init (ctx : ScanDataContext) : ScanState where
  shared :=
    { splitRows := 0, splitRequestCount := 0, splitCompleted := false, errorOccurred := false,
      hashKeySizeHistogram := [], sortKeySizeHistogram := [], valueSizeHistogram := [],
      rowSizeHistogram := [], topRows := some (TopContainer.new ctx.topCount), stderr := [],
      errorStores := 0 }
  main := some .loadCompleted
  callbacks := []

/-- The states some interleaving of the split's threads reaches. -/
inductive Reachable (ctx : ScanDataContext) : ScanState → Prop
  | init : Reachable ctx (init ctx)
  | step {s : ScanState} (a : Action) : Reachable ctx s → Reachable ctx (scanDataNext ctx s a)

/-- A schedule, run from `s`. -/
def run (ctx : ScanDataContext) (s : ScanState) (as : List Action) : ScanState :=
  as.foldl (scanDataNext ctx) s

/-- The split has drained: the initial call returned and every issued callback returned. -/
def Quiescent (s : ScanState) : Prop :=
  s.main = none ∧ ∀ pc ∈ s.callbacks, ∃ f, pc = .done f

theorem reachable_run (ctx : ScanDataContext) {s : ScanState} (hs : Reachable ctx s)
    (as : List Action) : Reachable ctx (run ctx s as) := by
  induction as generalizing s with
  | nil => exact hs
  | cons a as ih => exact ih (.step a hs)

-- ── Step lemmas ──────────────────────────────────────────────────────────────────────

variable {ctx : ScanDataContext} {s : ScanState}

theorem next_main {l : LoopPc} (h : s.main = some l) :
    scanDataNext ctx s .main = ⟨loopShared s.shared l, loopNext ctx s.shared l, s.callbacks ++ loopSpawn l⟩ := by
  simp [scanDataNext, h]

theorem next_main_none (h : s.main = none) : scanDataNext ctx s .main = s := by
  simp [scanDataNext, h]

theorem next_callback {i : Nat} {pc : CallbackPc} (h : s.callbacks[i]? = some pc) :
    scanDataNext ctx s (.callback i) = ⟨callbackShared ctx s.shared pc, s.main,
      s.callbacks.set i (callbackNext ctx s.shared pc) ++ callbackSpawn pc⟩ := by
  simp [scanDataNext, h]

theorem next_callback_none {i : Nat} (h : s.callbacks[i]? = none) :
    scanDataNext ctx s (.callback i) = s := by
  simp [scanDataNext, h]

/-- A delivery either starts a pending callback or changes nothing. -/
theorem next_deliverNext (ctx : ScanDataContext) (s : ScanState) (i : Nat) (r : NextResult) :
    (s.callbacks[i]? = some .pendingNext ∧
      scanDataNext ctx s (.deliverNext i r) = { s with callbacks := s.callbacks.set i (afterNext ctx r) }) ∨
    scanDataNext ctx s (.deliverNext i r) = s := by
  simp only [scanDataNext]
  split <;> simp_all

/-- A write result either starts a pending write callback or changes nothing. -/
theorem next_deliverWrite (ctx : ScanDataContext) (s : ScanState) (i : Nat) (r : WriteResult) :
    (∃ k, s.callbacks[i]? = some (.pendingWrite k) ∧
      scanDataNext ctx s (.deliverWrite i r) = { s with callbacks := s.callbacks.set i (afterWrite ctx k r) }) ∨
    scanDataNext ctx s (.deliverWrite i r) = s := by
  simp only [scanDataNext]
  split <;> simp_all

@[simp] theorem next_otherSplitFails :
    scanDataNext ctx s .otherSplitFails = { s with shared := { s.shared with errorOccurred := true } } :=
  rfl

end PegasusScanStep
