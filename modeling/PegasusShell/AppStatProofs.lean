import PegasusShell.CounterNameProofs
import Mathlib

/-! # `get_app_stat` — the perf-counter table behind `app_stat`

    `get_app_stat` lists the available apps, the alive replica servers (`fill_nodes`),
    asks every server for its `app.pegasus` perf counters (`call_remote_command`) and
    folds each counter into the row of its app (empty `app_name`) or of its partition
    (one app), keeping only counters reported by the partition's primary.  Its
    collaborators are the answers held in `ShellContext`; a call ends by returning, by a
    failed `dassert`, or in undefined behaviour (`AppStatEnd`).

    * `updateAppPegasusPerfCounter_counters` — a counter adds its value to the one field
      its metric name names and to no other;
    * `get_app_stat_true_when_list_apps_fails` — a failed `list_apps` is reported as
      success, with the rows untouched. -/

namespace PegasusAppStat

open PegasusCounterName

-- ── The data `get_app_stat` reads ────────────────────────────────────────────────────

/-- `dsn::rpc_address`, as the host and port its `to_string()` prints. -/
structure RpcAddress where
  host : String
  port : Nat
  deriving DecidableEq, Repr

/-- `rpc_address::to_string()`. -/
def RpcAddress.toString (a : RpcAddress) : String := a.host ++ ":" ++ Nat.repr a.port

/-- `node_desc`. -/
structure NodeDesc where
  desc : String
  address : RpcAddress
  deriving DecidableEq, Repr

/-- The keys of the `std::map<rpc_address, node_status::type>` that `list_nodes` fills,
    in the map's order: a map holds each key once. -/
structure NodeMap where
  nodes : List RpcAddress
  nodup : nodes.Nodup

/-- `dsn::app_info`: the fields `get_app_stat` reads. -/
structure AppInfo where
  appId : Int
  appName : String
  partitionCount : Int
  deriving DecidableEq, Repr

/-- `dsn::partition_configuration`: the field `get_app_stat` reads. -/
structure PartitionConfiguration where
  primary : RpcAddress
  deriving DecidableEq, Repr

/-- `dsn::perf_counter_metric`: a name and a `double` value, read as an exact number. -/
structure PerfCounterMetric where
  name : String
  value : ℚ
  deriving DecidableEq, Repr

/-- `dsn::perf_counter_info`: a node's answer to `perf-counters`. -/
structure PerfCounterInfo where
  result : String
  counters : List PerfCounterMetric

/-- `dsn::command`. -/
structure Command where
  cmd : String
  arguments : List String
  deriving DecidableEq, Repr

/-- The twenty `double` fields of `row_data`. -/
inductive RowField
  | getQps | multiGetQps | putQps | multiPutQps | removeQps | multiRemoveQps | incrQps
  | checkAndSetQps | checkAndMutateQps | scanQps | recentExpireCount | recentFilterCount
  | recentAbnormalCount | storageMb | storageCount | rdbBlockCacheHitCount
  | rdbBlockCacheTotalCount | rdbBlockCacheMemUsage | rdbIndexAndFilterBlocksMemUsage
  | rdbMemtableMemUsage
  deriving DecidableEq, Repr

/-- The metric name `update_app_pegasus_perf_counter` adds into each field. -/
def RowField.counterName : RowField → String
  | .getQps => "get_qps"
  | .multiGetQps => "multi_get_qps"
  | .putQps => "put_qps"
  | .multiPutQps => "multi_put_qps"
  | .removeQps => "remove_qps"
  | .multiRemoveQps => "multi_remove_qps"
  | .incrQps => "incr_qps"
  | .checkAndSetQps => "check_and_set_qps"
  | .checkAndMutateQps => "check_and_mutate_qps"
  | .scanQps => "scan_qps"
  | .recentExpireCount => "recent.expire.count"
  | .recentFilterCount => "recent.filter.count"
  | .recentAbnormalCount => "recent.abnormal.count"
  | .storageMb => "disk.storage.sst(MB)"
  | .storageCount => "disk.storage.sst.count"
  | .rdbBlockCacheHitCount => "rdb.block_cache.hit_count"
  | .rdbBlockCacheTotalCount => "rdb.block_cache.total_count"
  | .rdbBlockCacheMemUsage => "rdb.block_cache.memory_usage"
  | .rdbIndexAndFilterBlocksMemUsage => "rdb.index_and_filter_blocks.memory_usage"
  | .rdbMemtableMemUsage => "rdb.memtable.memory_usage"

/-- The fields in the order of `update_app_pegasus_perf_counter`'s `if` chain. -/
def RowField.all : List RowField :=
  [.getQps, .multiGetQps, .putQps, .multiPutQps, .removeQps, .multiRemoveQps, .incrQps,
    .checkAndSetQps, .checkAndMutateQps, .scanQps, .recentExpireCount, .recentFilterCount,
    .recentAbnormalCount, .storageMb, .storageCount, .rdbBlockCacheHitCount,
    .rdbBlockCacheTotalCount, .rdbBlockCacheMemUsage, .rdbIndexAndFilterBlocksMemUsage,
    .rdbMemtableMemUsage]

/-- `row_data`: `row_name` and the twenty counters, by field. -/
@[ext] structure RowData where
  rowName : String
  counters : RowField → ℚ

/-- `row_data()`: an empty name and every counter 0. -/
def RowData.fresh : RowData := ⟨"", fun _ => 0⟩

/-- The answers `get_app_stat` gets from the shell's clients and from the rDSN library. -/
structure ShellContext where
  /-- `sc->meta_list`. -/
  metaList : List RpcAddress
  /-- `ddl_client->list_apps(AS_AVAILABLE, apps)`: the apps, or the error's name. -/
  listApps : Except String (List AppInfo)
  /-- `ddl_client->list_nodes(NS_ALIVE, rs_nodes)`. -/
  listNodes : Except String NodeMap
  /-- `ddl_client->list_app(app_name, app_id, partition_count, partitions)`. -/
  listApp : String → Except String (Int × Int × List PartitionConfiguration)
  /-- What `cli.call(cmd, ..., address)` leaves in `results[i]`: `(true, body)`, or
      `(false, name of the error)`. -/
  callRemote : Command → RpcAddress → Bool × String
  /-- `json_forwarder<perf_counter_info>::decode`; `none` when it returns false. -/
  decode : String → Option PerfCounterInfo

/-- How a call of `get_app_stat` ends. -/
inductive AppStatEnd
  /-- It returns `ret` and leaves `rows`; `stderr` holds what `fill_nodes` printed and
      `log` the `derror` lines. -/
  | returned (ret : Bool) (rows : List RowData) (stderr log : List String)
  /-- A `dassert` fails, or an exception escapes: the process stops. -/
  | aborted (msg : String)
  /-- A vector is indexed past its end. -/
  | undefinedBehaviour

-- ── `update_app_pegasus_perf_counter` ────────────────────────────────────────────────

/-- The field the `if` chain of `update_app_pegasus_perf_counter` picks: the first whose
    metric name matches. -/
def fieldOf (counterName : String) : Option RowField :=
  RowField.all.find? fun f => f.counterName == counterName

/-- `update_app_pegasus_perf_counter`: the updated row and the return value. -/
def updateAppPegasusPerfCounter (row : RowData) (counterName : String) (value : ℚ) :
    RowData × Bool :=
  match fieldOf counterName with
  | some f => ({ row with counters := Function.update row.counters f (row.counters f + value) }, true)
  | none => (row, false)

theorem fieldOf_counterName (f : RowField) : fieldOf f.counterName = some f := by
  cases f <;> rfl

theorem counterName_of_fieldOf {name : String} {f : RowField} (h : fieldOf name = some f) :
    f.counterName = name := by
  simpa using List.find?_some h

/-- **ONE FIELD PER METRIC.**  A counter adds its value to the field its metric name names,
    and leaves every other field as it was. -/
theorem updateAppPegasusPerfCounter_counters (row : RowData) (name : String) (v : ℚ)
    (f : RowField) :
    (updateAppPegasusPerfCounter row name v).1.counters f =
      row.counters f + if f.counterName = name then v else 0 := by
  unfold updateAppPegasusPerfCounter
  split
  · next g hg =>
    by_cases hf : f = g
    · subst hf; simp [counterName_of_fieldOf hg]
    · have hne : f.counterName ≠ name := fun h => by
        rw [← h, fieldOf_counterName] at hg; exact hf (Option.some.inj hg)
      simp [Function.update_noteq hf, hne]
  · next hn =>
    have hne : f.counterName ≠ name := fun h => by rw [← h, fieldOf_counterName] at hn; cases hn
    simp [hne]

@[simp] theorem updateAppPegasusPerfCounter_rowName (row : RowData) (name : String) (v : ℚ) :
    (updateAppPegasusPerfCounter row name v).1.rowName = row.rowName := by
  unfold updateAppPegasusPerfCounter; split <;> rfl

-- ── `fill_nodes`, `call_remote_command` and the containers ───────────────────────────

/-- `fill_nodes(sc, type, nodes)`: the nodes with the new ones appended, or the line it
    prints to `stderr` before returning false. -/
def fillNodes (sc : ShellContext) (type : String) (nodes : List NodeDesc) :
    Except String (List NodeDesc) :=
  let nodes :=
    if type = "all" ∨ type = "meta-server" then nodes ++ sc.metaList.map (NodeDesc.mk "meta-server")
    else nodes
  if type = "all" ∨ type = "replica-server" then
    match sc.listNodes with
    | .error err => .error ("ERROR: list node failed: " ++ err ++ "\n")
    | .ok rsNodes => .ok (nodes ++ rsNodes.nodes.map (NodeDesc.mk "replica-server"))
  else .ok nodes

/-- `call_remote_command`: `results[i]` is the reply of `nodes[i]`. -/
def callRemoteCommand (sc : ShellContext) (nodes : List NodeDesc) (cmd : Command) :
    List (Bool × String) :=
  nodes.map fun node => sc.callRemote cmd node.address

/-- The `perf-counters` command: the counters of every app, or of `app_info->app_id`. -/
def perfCountersCommand : Option AppInfo → Command
  | none => ⟨"perf-counters", [".*\\*app\\.pegasus\\*.*@.*"]⟩
  | some app => ⟨"perf-counters", [".*\\*app\\.pegasus\\*.*@" ++ toString app.appId ++ "\\..*"]⟩

/-- `std::vector<row_data>::resize(n)`. -/
def vectorResize (rows : List RowData) (n : Nat) : List RowData :=
  rows.take n ++ List.replicate (n - rows.length) RowData.fresh

/-- `v[i]` with an `int` index: below 0 it converts to a `size_t` past the end. -/
def vectorAt {α : Type} (v : List α) (i : Int) : Option α :=
  if 0 ≤ i then v[i.toNat]? else none

/-- `m[k] = v` on a `std::map<int32_t, _>`, kept as the list of its entries. -/
def mapAssign {α : Type} (m : List (Int × α)) (k : Int) (v : α) : List (Int × α) :=
  if m.any (·.1 == k) then m.map fun e => if e.1 = k then (k, v) else e else m ++ [(k, v)]

-- ── `get_app_stat` ───────────────────────────────────────────────────────────────────

/-- A client call followed by `if (err != ERR_OK) { derror(...); return true; }`. -/
def orReturn {α : Type} (x : Except String α) (stop : String → AppStatEnd) :
    Except AppStatEnd α :=
  match x with
  | .ok a => .ok a
  | .error err => .error (stop err)

/-- The `app_name` lookup: `none` for an empty name, the first app of that name otherwise. -/
def findAppInfo (appName : String) (apps : List AppInfo) (rows : List RowData) :
    Except AppStatEnd (Option AppInfo) :=
  if appName.isEmpty then .ok none
  else
    match apps.find? (·.appName == appName) with
    | some app => .ok (some app)
    | none => .error (.returned true rows [] ["app " ++ appName ++ " not found"])

/-- The checks both branches make on `results[i]` before reading its counters; the
    `derror` line when one fails. -/
def checkNodeReply (sc : ShellContext) (nodeAddr : RpcAddress) (result : Bool × String) :
    Except String (List PerfCounterMetric) :=
  if !result.1 then .error ("query perf counter info from node " ++ nodeAddr.toString ++ " failed")
  else
    match sc.decode result.2 with
    | none => .error ("decode perf counter info from node " ++ nodeAddr.toString ++
        " failed, result = " ++ result.2)
    | some info =>
      if info.result ≠ "OK" then
        .error ("query perf counter info from node " ++ nodeAddr.toString ++
          " returns error, error = " ++ info.result)
      else .ok info.counters

/-- The loop over the nodes, the same in both branches: check each reply, then fold its
    counters with the branch's loop body `step`. -/
def nodeLoop (sc : ShellContext)
    (step : RpcAddress → List RowData → PerfCounterMetric → Except AppStatEnd (List RowData)) :
    List (NodeDesc × (Bool × String)) → List RowData → Except AppStatEnd (List RowData)
  | [], rows => .ok rows
  | (node, result) :: rest, rows =>
    match checkNodeReply sc node.address result with
    | .error msg => .error (.returned true rows [] [msg])
    | .ok counters =>
      match counters.foldlM (step node.address) rows with
      | .error e => .error e
      | .ok rows => nodeLoop sc step rest rows

/-- `update_app_pegasus_perf_counter(rows[idx], counter_name, m.value)`. -/
def updateRow (rows : List RowData) (idx : Nat) (counterName : String) (value : ℚ) :
    Except AppStatEnd (List RowData) :=
  match rows[idx]? with
  | none => .error .undefinedBehaviour
  | some row => .ok (rows.set idx (updateAppPegasusPerfCounter row counterName value).1)

/-- The all-apps loop body for a counter `m` of node `nodeAddr`. -/
def appCounterStep (appPartitions : List (Int × List PartitionConfiguration))
    (appRowIdx : List (Int × Nat)) (nodeAddr : RpcAddress) (rows : List RowData)
    (m : PerfCounterMetric) : Except AppStatEnd (List RowData) :=
  match parseAppPegasusPerfCounterName m.name with
  | none => .error (.aborted ("name = " ++ m.name))
  | some (appIdX, partitionIndexX, counterName) =>
    match appPartitions.lookup appIdX with
    | none => .ok rows
    | some partitions =>
      match vectorAt partitions partitionIndexX with
      | none => .error .undefinedBehaviour
      | some pc =>
        if pc.primary ≠ nodeAddr then .ok rows
        else updateRow rows ((appRowIdx.lookup appIdX).getD 0) counterName m.value

/-- The one-app loop body, with the `app_id` and `partition_count` `list_app` returned. -/
def partitionCounterStep (appId partitionCount : Int) (partitions : List PartitionConfiguration)
    (nodeAddr : RpcAddress) (rows : List RowData) (m : PerfCounterMetric) :
    Except AppStatEnd (List RowData) :=
  match parseAppPegasusPerfCounterName m.name with
  | none => .error (.aborted ("name = " ++ m.name))
  | some (appIdX, partitionIndexX, counterName) =>
    if appIdX ≠ appId then .error (.aborted ("name = " ++ m.name))
    else if ¬ partitionIndexX < partitionCount then .error (.aborted ("name = " ++ m.name))
    else
      match vectorAt partitions partitionIndexX with
      | none => .error .undefinedBehaviour
      | some pc =>
        if pc.primary ≠ nodeAddr then .ok rows
        else updateRow rows partitionIndexX.toNat counterName m.value

/-- The all-apps `list_app` loop: each app's partitions go to `app_partitions[app.app_id]`,
    and its `app_id` and `partition_count` are asserted. -/
def listAppPartitions (sc : ShellContext) (appName : String) (rows : List RowData) :
    List AppInfo → List (Int × List PartitionConfiguration) →
      Except AppStatEnd (List (Int × List PartitionConfiguration))
  | [], appPartitions => .ok appPartitions
  | app :: apps, appPartitions =>
    match sc.listApp app.appName with
    | .error err => .error (.returned true rows [] ["list app " ++ appName ++ " failed, error = " ++ err])
    | .ok (appId, partitionCount, partitions) =>
      if appId ≠ app.appId then .error (.aborted (toString appId ++ " VS " ++ toString app.appId))
      else if partitionCount ≠ app.partitionCount then
        .error (.aborted (toString partitionCount ++ " VS " ++ toString app.partitionCount))
      else listAppPartitions sc appName rows apps (mapAssign appPartitions app.appId partitions)

/-- The all-apps naming loop: `rows[idx].row_name = app.app_name; app_row_idx[app.app_id] = idx`. -/
def nameAppRows : List AppInfo → Nat → List RowData → List (Int × Nat) →
    Except AppStatEnd (List RowData × List (Int × Nat))
  | [], _, rows, appRowIdx => .ok (rows, appRowIdx)
  | app :: apps, idx, rows, appRowIdx =>
    match rows[idx]? with
    | none => .error .undefinedBehaviour
    | some row =>
      nameAppRows apps (idx + 1) (rows.set idx { row with rowName := app.appName })
        (mapAssign appRowIdx app.appId idx)

/-- The one-app naming loop: `rows[i].row_name = boost::lexical_cast<std::string>(i)`. -/
def namePartitionRows : Nat → List RowData → List RowData
  | _, [] => []
  | i, row :: rows => { row with rowName := toString (i : Int) } :: namePartitionRows (i + 1) rows

/-- The `app_name.empty()` branch, once the replies are in. -/
def allAppsStat (sc : ShellContext) (appName : String) (apps : List AppInfo)
    (replies : List (NodeDesc × (Bool × String))) (rows : List RowData) :
    Except AppStatEnd (List RowData) := do
  let appPartitions ← listAppPartitions sc appName rows apps []
  let (rows, appRowIdx) ← nameAppRows apps 0 (vectorResize rows appPartitions.length) []
  nodeLoop sc (appCounterStep appPartitions appRowIdx) replies rows

/-- The one-app branch.  `rows.resize(partition_count)` with a negative `int` asks for
    more than `max_size()` and throws `std::length_error`. -/
def oneAppStat (sc : ShellContext) (appName : String) (app : AppInfo)
    (replies : List (NodeDesc × (Bool × String))) (rows : List RowData) :
    Except AppStatEnd (List RowData) :=
  if app.partitionCount < 0 then .error (.aborted "vector::_M_default_append")
  else
    let rows := namePartitionRows 0 (vectorResize rows app.partitionCount.toNat)
    match sc.listApp appName with
    | .error err => .error (.returned true rows [] ["list app " ++ appName ++ " failed, error = " ++ err])
    | .ok (appId, partitionCount, partitions) =>
      if appId ≠ app.appId then .error (.aborted (toString appId ++ " VS " ++ toString app.appId))
      else if partitionCount ≠ app.partitionCount then
        .error (.aborted (toString partitionCount ++ " VS " ++ toString app.partitionCount))
      else nodeLoop sc (partitionCounterStep appId partitionCount partitions) replies rows

/-- `get_app_stat` up to its final `return true`: the rows it builds, or how it ends early. -/
def getAppStatRows (sc : ShellContext) (appName : String) (rows : List RowData) :
    Except AppStatEnd (List RowData) := do
  let apps ← orReturn sc.listApps fun err => .returned true rows [] ["list apps failed, error = " ++ err]
  let appInfo ← findAppInfo appName apps rows
  let nodes ← orReturn (fillNodes sc "replica-server" []) fun msg =>
    .returned true rows [msg] ["get replica server node list failed"]
  let results := callRemoteCommand sc nodes (perfCountersCommand appInfo)
  match appInfo with
  | none => allAppsStat sc appName apps (nodes.zip results) rows
  | some app => oneAppStat sc appName app (nodes.zip results) rows

/-- `get_app_stat(sc, app_name, rows)`. -/
def getAppStat (sc : ShellContext) (appName : String) (rows : List RowData) : AppStatEnd :=
  match getAppStatRows sc appName rows with
  | .ok rows => .returned true rows [] []
  | .error e => e

theorem fillNodes_replica_ok {sc : ShellContext} {nm : NodeMap} (h : sc.listNodes = .ok nm) :
    fillNodes sc "replica-server" [] = .ok (nm.nodes.map (NodeDesc.mk "replica-server")) := by
  simp only [fillNodes, h]; rfl

-- ── A failure reported as success ───────────────────────────────────────────────────

/-- A failed `list_apps` is reported as success: `get_app_stat` logs the error and returns
    true with the rows it was given. -/
theorem get_app_stat_true_when_list_apps_fails (sc : ShellContext) (appName : String)
    (rows : List RowData) (err : String) (h : sc.listApps = .error err) :
    getAppStat sc appName rows = .returned true rows [] ["list apps failed, error = " ++ err] := by
  simp only [getAppStat, getAppStatRows, h]; rfl

/-- A shell whose meta servers do not answer. -/
def metaDown : ShellContext where
  metaList := []
  listApps := .error "ERR_NETWORK_FAILURE"
  listNodes := .error "ERR_NETWORK_FAILURE"
  listApp := fun _ => .error "ERR_NETWORK_FAILURE"
  callRemote := fun _ _ => (false, "ERR_NETWORK_FAILURE")
  decode := fun _ => none

theorem get_app_stat_true_when_meta_down :
    metaDown.listApps = .error "ERR_NETWORK_FAILURE" ∧
      getAppStat metaDown "" [] =
        .returned true [] [] ["list apps failed, error = " ++ "ERR_NETWORK_FAILURE"] :=
  ⟨rfl, get_app_stat_true_when_list_apps_fails metaDown "" [] _ rfl⟩

end PegasusAppStat
