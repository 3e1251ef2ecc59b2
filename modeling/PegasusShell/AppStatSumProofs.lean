import PegasusShell.AppStatProofs
import Mathlib

/-! # The rows `get_app_stat` builds — exact sums over the primaries' counters

    Once every collaborator answers, `get_app_stat` is a fold over the counters the nodes
    report.  The rows it should build are stated as sums (`counterSum`, over a family of
    keyed rows: `appRows` for all apps, `partitionRows` for one), and the fold is shown to
    compute them:

    * `counterSum_snoc` — one more counter adds its value to exactly the fields it counts for;
    * `keyedRows_snoc_skip`, `keyedRows_snoc_hit` — a counter that counts for no row leaves
      the rows alone, one that counts for a single row is the `update_app_pegasus_perf_counter`
      on that row;
    * `appCounterStep_run`, `partitionCounterStep_run` — each branch's loop body takes the
      rows over the counters read so far to the rows over one more;
    * `nodeLoop_run` — so the loop over the nodes yields the rows over every reported counter;
      `nodeLoop_stops` — or, at the first reply that fails a check, returns true with the rows
      over the nodes before it (`getAppStat_true_on_node_failure`: a partial table reported
      as success);
    * `get_app_stat_rows` — with every collaborator answering, both tables are exactly
      these sums;
    * `get_app_stat_aborts_on_foreign_counter` — with one app requested, a counter of another
      app stops the process at `dassert(app_id_x == app_id)`. -/

namespace PegasusAppStatSum

open PegasusCounterName PegasusAppStat

-- ── What the nodes report ────────────────────────────────────────────────────────────

/-- Node `n`'s decoded reply to `cmd`, when it was received and decodes. -/
def nodeReply (sc : ShellContext) (cmd : Command) (n : RpcAddress) : Option PerfCounterInfo :=
  if (sc.callRemote cmd n).1 then sc.decode (sc.callRemote cmd n).2 else none

/-- The counters in node `n`'s reply to `cmd`. -/
def nodeCounters (sc : ShellContext) (cmd : Command) (n : RpcAddress) : List PerfCounterMetric :=
  ((nodeReply sc cmd n).map (·.counters)).getD []

/-- Every counter the nodes report, with the node that reported it, in the order the loops
    read them. -/
def reported (sc : ShellContext) (cmd : Command) (nodes : List RpcAddress) :
    List (RpcAddress × PerfCounterMetric) :=
  nodes.flatMap fun n => (nodeCounters sc cmd n).map (n, ·)

theorem checkNodeReply_ok {sc : ShellContext} {cmd : Command} {n : RpcAddress}
    {info : PerfCounterInfo} (h : nodeReply sc cmd n = some info) (hok : info.result = "OK") :
    checkNodeReply sc n (sc.callRemote cmd n) = .ok (nodeCounters sc cmd n) := by
  unfold nodeReply at h
  split at h
  · next hr => simp [checkNodeReply, nodeCounters, nodeReply, hr, h, hok]
  · cases h

/-- The replies in the order `get_app_stat` reads them: `nodes[i]` with `results[i]`. -/
theorem zip_callRemoteCommand (sc : ShellContext) (cmd : Command) (ns : List RpcAddress) :
    (ns.map (NodeDesc.mk "replica-server")).zip
        (callRemoteCommand sc (ns.map (NodeDesc.mk "replica-server")) cmd) =
      ns.map fun n => (NodeDesc.mk "replica-server" n, sc.callRemote cmd n) := by
  induction ns with
  | nil => rfl
  | cons n ns ih => simpa [callRemoteCommand] using ih

-- ── The sums ─────────────────────────────────────────────────────────────────────────

/-- Counter `c` counts for field `f` of a row when its name parses to `(a, p, metric)` with
    `sel a p` (the row's app or partition), `metric` is the field's name, and `c`'s node is
    the recorded primary of partition `p` of app `a`. -/
def counts (primaryOf : Int → Int → Option RpcAddress) (sel : Int → Int → Bool) (f : RowField)
    (c : RpcAddress × PerfCounterMetric) : Bool :=
  match parseAppPegasusPerfCounterName c.2.name with
  | some (a, p, metric) => sel a p && f.counterName == metric && primaryOf a p == some c.1
  | none => false

/-- The value of field `f`: the sum of the values of the counters of `R` that count for it. -/
def counterSum (R : List (RpcAddress × PerfCounterMetric))
    (primaryOf : Int → Int → Option RpcAddress) (sel : Int → Int → Bool) (f : RowField) : ℚ :=
  ((R.filter (counts primaryOf sel f)).map (·.2.value)).sum

@[simp] theorem counterSum_nil (primaryOf : Int → Int → Option RpcAddress)
    (sel : Int → Int → Bool) (f : RowField) : counterSum [] primaryOf sel f = 0 := rfl

theorem counterSum_snoc (R : List (RpcAddress × PerfCounterMetric)) (c : RpcAddress × PerfCounterMetric)
    (primaryOf : Int → Int → Option RpcAddress) (sel : Int → Int → Bool) (f : RowField) :
    counterSum (R ++ [c]) primaryOf sel f =
      counterSum R primaryOf sel f + if counts primaryOf sel f c then c.2.value else 0 := by
  by_cases h : counts primaryOf sel f c <;> simp [counterSum, List.filter_append, h]

/-- Rows keyed by `keys`: the row of `k` is named `name k` and field `f` sums the counters
    of `R` that count for `f` under `sel k`. -/
def keyedRows {κ : Type} (keys : List κ) (name : κ → String)
    (primaryOf : Int → Int → Option RpcAddress) (sel : κ → Int → Int → Bool)
    (R : List (RpcAddress × PerfCounterMetric)) : List RowData :=
  keys.map fun k => ⟨name k, counterSum R primaryOf (sel k)⟩

/-- `primary` of partition `p` of a partition table. -/
def tablePrimary (table : List PartitionConfiguration) (p : Int) : Option RpcAddress :=
  (vectorAt table p).map (·.primary)

/-- The all-apps rows over the counters `R`: one per app, in the order of `apps`, named by
    the app, summing the counters of that app reported by the primary of their partition
    in the app's table `parts app_id`. -/
def appRows (apps : List AppInfo) (parts : Int → List PartitionConfiguration)
    (R : List (RpcAddress × PerfCounterMetric)) : List RowData :=
  keyedRows apps (·.appName) (fun a p => tablePrimary (parts a) p) (fun app a _ => a == app.appId) R

/-- The one-app rows over the counters `R`: one per partition `p` of the table, named by
    `p`, summing the counters of partition `p` reported by its primary. -/
def partitionRows (partitions : List PartitionConfiguration)
    (R : List (RpcAddress × PerfCounterMetric)) : List RowData :=
  keyedRows (List.range' 0 partitions.length) (fun p => toString (p : Int))
    (fun _ q => tablePrimary partitions q) (fun p _ q => q == p) R

-- ── One counter more ─────────────────────────────────────────────────────────────────

/-- Setting entry `i` of a mapped list of distinct keys replaces exactly the entry of key
    `l[i]`. -/
theorem map_set_of_nodup {κ β : Type} [DecidableEq κ] {l : List κ} (hnd : l.Nodup) {i : Nat}
    {k : κ} (hi : l[i]? = some k) (g : κ → β) (y : β) :
    (l.map g).set i y = l.map fun x => if x = k then y else g x := by
  induction l generalizing i with
  | nil => simp at hi
  | cons x xs ih =>
    rw [List.nodup_cons] at hnd
    cases i with
    | zero =>
      simp only [List.getElem?_cons_zero, Option.some.injEq] at hi
      subst hi
      simp only [List.map_cons, List.set_cons_zero, if_pos rfl]
      exact congrArg _ (List.map_congr_left fun z hz => (if_neg fun h : z = x => hnd.1 (h ▸ hz)).symm)
    | succ i =>
      simp only [List.getElem?_cons_succ] at hi
      have hx : x ≠ k := fun h => hnd.1 (h ▸ List.getElem?_mem hi)
      rw [List.map_cons, List.map_cons, List.set_cons_succ, ih hnd.2 hi, if_neg hx]

section Keyed

variable {κ : Type} {keys : List κ} {name : κ → String}
  {primaryOf : Int → Int → Option RpcAddress} {sel : κ → Int → Int → Bool}

/-- A counter that counts for no row leaves the rows as they were. -/
theorem keyedRows_snoc_skip (R : List (RpcAddress × PerfCounterMetric))
    {c : RpcAddress × PerfCounterMetric} (h : ∀ k ∈ keys, ∀ f, counts primaryOf (sel k) f c = false) :
    keyedRows keys name primaryOf sel (R ++ [c]) = keyedRows keys name primaryOf sel R := by
  refine List.map_congr_left fun k hk => ?_
  ext f
  · rfl
  · simp [counterSum_snoc, h k hk f]

/-- A counter that counts for the row of `k₀` alone, in the field its metric names, is
    `update_app_pegasus_perf_counter` on that row. -/
theorem keyedRows_snoc_hit [DecidableEq κ] (hnd : keys.Nodup) (R : List (RpcAddress × PerfCounterMetric))
    (c : RpcAddress × PerfCounterMetric) {metric : String} {i : Nat} {k₀ : κ}
    (hi : keys[i]? = some k₀)
    (h : ∀ k ∈ keys, ∀ f, counts primaryOf (sel k) f c = (decide (k = k₀) && f.counterName == metric)) :
    updateRow (keyedRows keys name primaryOf sel R) i metric c.2.value =
      .ok (keyedRows keys name primaryOf sel (R ++ [c])) := by
  have hrow : (keyedRows keys name primaryOf sel R)[i]? = some ⟨name k₀, counterSum R primaryOf (sel k₀)⟩ := by
    simp [keyedRows, hi]
  simp only [updateRow, hrow]
  refine congrArg Except.ok ?_
  unfold keyedRows
  rw [map_set_of_nodup hnd hi]
  refine List.map_congr_left fun k hk => ?_
  split_ifs with hk₀
  · subst hk₀
    ext f
    · simp
    · simp [updateAppPegasusPerfCounter_counters, counterSum_snoc, h k hk f]
  · ext f
    · rfl
    · simp [counterSum_snoc, h k hk f, hk₀]

end Keyed

theorem vectorAt_of_lt {α : Type} {v : List α} {p : Int} (h0 : 0 ≤ p) (h1 : p < v.length) :
    vectorAt v p = some v[p.toNat] := by
  simp [vectorAt, h0, List.getElem?_eq_getElem (show p.toNat < v.length by omega)]

/-- The primary of a partition inside the table. -/
theorem tablePrimary_of_lt {t : List PartitionConfiguration} {p : Int} (h0 : 0 ≤ p)
    (h1 : p < t.length) : tablePrimary t p = some t[p.toNat].primary := by
  rw [tablePrimary, vectorAt_of_lt h0 h1, Option.map_some']

/-- `app_partitions.find(a)` on the table built from distinct apps. -/
theorem lookup_keyed {α β : Type} (key : α → Int) (g : Int → β) (l : List α) (a : Int) :
    (l.map fun x => (key x, g (key x))).lookup a = if a ∈ l.map key then some (g a) else none := by
  induction l with
  | nil => rfl
  | cons x xs ih =>
    by_cases hx : a = key x
    · subst hx; simp [List.lookup]
    · have hb : (a == key x) = false := by simpa using hx
      simp only [List.map_cons, List.lookup_cons, hb, ih, List.mem_cons, hx, false_or]

/-- `app_row_idx[a]` is the index of an app of id `a`. -/
theorem lookup_enumFrom {l : List AppInfo} {a : Int} (h : a ∈ l.map (·.appId)) (k : Nat) :
    ∃ i b, ((l.enumFrom k).map fun p => (p.2.appId, p.1)).lookup a = some (k + i) ∧
      l[i]? = some b ∧ b.appId = a := by
  induction l generalizing k with
  | nil => simp at h
  | cons x xs ih =>
    by_cases hx : a = x.appId
    · exact ⟨0, x, by simp [List.enumFrom_cons, List.lookup, hx], List.getElem?_cons_zero, hx.symm⟩
    · obtain ⟨i, b, hl, hb, hab⟩ := ih (by simpa [hx] using h) (k + 1)
      refine ⟨i + 1, b, ?_, by simpa using hb, hab⟩
      simp only [List.enumFrom_cons, List.map_cons, List.lookup, hl, show (a == x.appId) = false by simpa using hx]
      congr 1; omega

/-- A counter whose name parses counts for field `f` when `sel` picks its app and partition,
    its metric is `f`'s, and the node that reported it is its partition's primary. -/
theorem counts_of_parse {primaryOf : Int → Int → Option RpcAddress} {sel : Int → Int → Bool}
    {n : RpcAddress} {m : PerfCounterMetric} {a p : Int} {metric : String}
    (hp : parseAppPegasusPerfCounterName m.name = some (a, p, metric)) (f : RowField) :
    counts primaryOf sel f (n, m) = (sel a p && f.counterName == metric && primaryOf a p == some n) := by
  simp only [counts, hp]

/-- **ALL APPS, ONE COUNTER.**  On the rows over `L`, the all-apps loop body yields the rows
    over `L ++ [(n, m)]`, for a counter whose name parses and names a partition of its app's
    table when the app is listed. -/
theorem appCounterStep_run {apps : List AppInfo} {parts : Int → List PartitionConfiguration}
    (hnd : (apps.map (·.appId)).Nodup) (n : RpcAddress) (m : PerfCounterMetric)
    (hm : ∃ a p metric, parseAppPegasusPerfCounterName m.name = some (a, p, metric) ∧
      (a ∈ apps.map (·.appId) → 0 ≤ p ∧ p < (parts a).length))
    (L : List (RpcAddress × PerfCounterMetric)) :
    appCounterStep (apps.map fun app => (app.appId, parts app.appId))
        ((apps.enumFrom 0).map fun p => (p.2.appId, p.1)) n (appRows apps parts L) m =
      .ok (appRows apps parts (L ++ [(n, m)])) := by
  obtain ⟨a, p, metric, hp, hr⟩ := hm
  unfold appRows
  simp only [appCounterStep, hp, lookup_keyed AppInfo.appId parts]
  by_cases ha : a ∈ apps.map (·.appId)
  · obtain ⟨h0, h1⟩ := hr ha
    simp only [if_pos ha, vectorAt_of_lt h0 h1, ne_eq]
    by_cases hprim : (parts a)[p.toNat].primary = n
    · obtain ⟨i, b, hl, hb, hab⟩ := lookup_enumFrom ha 0
      rw [if_neg (not_not.mpr hprim), hl, Option.getD_some, Nat.zero_add]
      refine keyedRows_snoc_hit (List.Nodup.of_map _ hnd) L (n, m) hb fun app happ f => ?_
      have hiff : a = app.appId ↔ app = b := ⟨fun h => List.inj_on_of_nodup_map hnd happ
        (List.getElem?_mem hb) (hab.trans h).symm, fun h => h ▸ hab.symm⟩
      rw [counts_of_parse hp, tablePrimary_of_lt h0 h1, hprim, show (a == app.appId) = decide (app = b)
        from beq_eq_decide.trans (decide_eq_decide.mpr hiff)]
      simp
    · rw [if_pos hprim]
      refine congrArg Except.ok (keyedRows_snoc_skip L fun app _ f => ?_).symm
      simp [counts_of_parse hp, tablePrimary_of_lt h0 h1, hprim]
  · rw [if_neg ha]
    refine congrArg Except.ok (keyedRows_snoc_skip L fun app happ f => ?_).symm
    have : a ≠ app.appId := fun h => ha (h ▸ List.mem_map_of_mem _ happ)
    simp [counts_of_parse hp, this]

/-- **ONE APP, ONE COUNTER.**  On the rows over `L`, the one-app loop body yields the rows
    over `L ++ [(n, m)]`, for a counter of the app that names a partition of its table. -/
theorem partitionCounterStep_run {app : AppInfo} {partitions : List PartitionConfiguration}
    (hsize : (partitions.length : Int) = app.partitionCount) (n : RpcAddress) (m : PerfCounterMetric)
    (hm : ∃ p metric, parseAppPegasusPerfCounterName m.name = some (app.appId, p, metric) ∧
      0 ≤ p ∧ p < partitions.length)
    (L : List (RpcAddress × PerfCounterMetric)) :
    partitionCounterStep app.appId app.partitionCount partitions n (partitionRows partitions L) m =
      .ok (partitionRows partitions (L ++ [(n, m)])) := by
  obtain ⟨p, metric, hp, h0, h1⟩ := hm
  unfold partitionRows
  simp only [partitionCounterStep, hp, ne_eq, not_true_eq_false, if_false,
    show p < app.partitionCount by omega, not_true, vectorAt_of_lt h0 h1]
  by_cases hprim : partitions[p.toNat].primary = n
  · have hq : (List.range' 0 partitions.length)[p.toNat]? = some p.toNat := by
      rw [List.getElem?_range' _ _ (by omega)]; simp
    rw [if_neg (not_not.mpr hprim)]
    refine keyedRows_snoc_hit (List.nodup_range' _ _) L (n, m) hq fun q _ f => ?_
    have hiff : p = (q : Int) ↔ q = p.toNat := by omega
    rw [counts_of_parse hp, tablePrimary_of_lt h0 h1, hprim, show (p == (q : Int)) = decide (q = p.toNat)
      from beq_eq_decide.trans (decide_eq_decide.mpr hiff)]
    simp
  · rw [if_pos hprim]
    refine congrArg Except.ok (keyedRows_snoc_skip L fun q _ f => ?_).symm
    simp [counts_of_parse hp, tablePrimary_of_lt h0 h1, hprim]

-- ── Every counter ────────────────────────────────────────────────────────────────────

section Run

variable (E : List (RpcAddress × PerfCounterMetric) → List RowData)

/-- A loop body that takes the rows over `L` to the rows over `L ++ [(n, m)]` folds a reply's
    counters onto the rows over all of them. -/
theorem foldlM_run (step : List RowData → PerfCounterMetric → Except AppStatEnd (List RowData))
    (n : RpcAddress) (ms : List PerfCounterMetric)
    (hstep : ∀ L, ∀ m ∈ ms, step (E L) m = .ok (E (L ++ [(n, m)])))
    (L : List (RpcAddress × PerfCounterMetric)) :
    ms.foldlM step (E L) = .ok (E (L ++ ms.map (n, ·))) := by
  induction ms generalizing L with
  | nil => simp; rfl
  | cons m ms ih =>
    rw [List.foldlM_cons, hstep L m (List.mem_cons_self _ _)]
    refine (ih (fun L m hm => hstep L m (List.mem_cons_of_mem _ hm)) _).trans ?_
    simp

theorem reported_cons (sc : ShellContext) (cmd : Command) (n : RpcAddress) (ns : List RpcAddress) :
    reported sc cmd (n :: ns) = (nodeCounters sc cmd n).map (n, ·) ++ reported sc cmd ns := by
  rw [reported, List.flatMap_cons]; rfl

/-- A node whose reply is received, decodes and says OK has its counters folded in. -/
theorem nodeLoop_cons_ok (sc : ShellContext) (cmd : Command)
    {step : RpcAddress → List RowData → PerfCounterMetric → Except AppStatEnd (List RowData)}
    {n : RpcAddress} {info : PerfCounterInfo} (hr : nodeReply sc cmd n = some info)
    (hres : info.result = "OK")
    (hstep : ∀ L, ∀ m ∈ nodeCounters sc cmd n, step n (E L) m = .ok (E (L ++ [(n, m)])))
    (replies : List (NodeDesc × (Bool × String))) (L : List (RpcAddress × PerfCounterMetric)) :
    nodeLoop sc step ((NodeDesc.mk "replica-server" n, sc.callRemote cmd n) :: replies) (E L) =
      nodeLoop sc step replies (E (L ++ (nodeCounters sc cmd n).map (n, ·))) := by
  simp only [nodeLoop, checkNodeReply_ok hr hres, foldlM_run E (step n) n _ hstep L]

/-- **THE NODE LOOP.**  When every reply is received, decodes and says OK, and the loop body
    takes the rows over `L` to the rows over `L ++ [c]` for every reported `c`, the loop
    over the nodes yields the rows over all reported counters. -/
theorem nodeLoop_run (sc : ShellContext) (cmd : Command)
    {step : RpcAddress → List RowData → PerfCounterMetric → Except AppStatEnd (List RowData)}
    (ns : List RpcAddress)
    (hok : ∀ n ∈ ns, ∃ info, nodeReply sc cmd n = some info ∧ info.result = "OK")
    (hstep : ∀ L, ∀ c ∈ reported sc cmd ns, step c.1 (E L) c.2 = .ok (E (L ++ [c])))
    (L : List (RpcAddress × PerfCounterMetric)) :
    nodeLoop sc step (ns.map fun n => (NodeDesc.mk "replica-server" n, sc.callRemote cmd n)) (E L) =
      .ok (E (L ++ reported sc cmd ns)) := by
  induction ns generalizing L with
  | nil => simp [nodeLoop, reported]
  | cons n ns ih =>
    obtain ⟨info, hr, hres⟩ := hok n (List.mem_cons_self _ _)
    simp only [reported_cons, List.mem_append] at hstep
    rw [List.map_cons, nodeLoop_cons_ok E sc cmd hr hres
      (fun L m hm => hstep L (n, m) (.inl (List.mem_map_of_mem _ hm))),
      ih (fun n hn => hok n (List.mem_cons_of_mem _ hn)) (fun L c hc => hstep L c (.inr hc)),
      reported_cons, List.append_assoc]

/-- The loop stops at the first reply that fails a check and returns true, with the rows
    over the counters of the nodes before it. -/
theorem nodeLoop_stops (sc : ShellContext) (cmd : Command)
    {step : RpcAddress → List RowData → PerfCounterMetric → Except AppStatEnd (List RowData)}
    (ns : List RpcAddress) {n : RpcAddress} (rest : List RpcAddress) {msg : String}
    (hok : ∀ m ∈ ns, ∃ info, nodeReply sc cmd m = some info ∧ info.result = "OK")
    (hstep : ∀ L, ∀ c ∈ reported sc cmd ns, step c.1 (E L) c.2 = .ok (E (L ++ [c])))
    (hfail : checkNodeReply sc n (sc.callRemote cmd n) = .error msg)
    (L : List (RpcAddress × PerfCounterMetric)) :
    nodeLoop sc step ((ns ++ n :: rest).map fun m => (NodeDesc.mk "replica-server" m, sc.callRemote cmd m))
        (E L) = .error (.returned true (E (L ++ reported sc cmd ns)) [] [msg]) := by
  induction ns generalizing L with
  | nil => simp [nodeLoop, hfail, reported]
  | cons m ns ih =>
    obtain ⟨info, hr, hres⟩ := hok m (List.mem_cons_self _ _)
    simp only [reported_cons, List.mem_append] at hstep
    rw [List.cons_append, List.map_cons, nodeLoop_cons_ok E sc cmd hr hres
      (fun L c hc => hstep L (m, c) (.inl (List.mem_map_of_mem _ hc))),
      ih (fun m hm => hok m (List.mem_cons_of_mem _ hm)) (fun L c hc => hstep L c (.inr hc)),
      reported_cons, List.append_assoc]

end Run

-- ── The tables ───────────────────────────────────────────────────────────────────────

theorem mapAssign_fresh {α : Type} {m : List (Int × α)} {k : Int} (h : k ∉ m.map Prod.fst)
    (v : α) : mapAssign m k v = m ++ [(k, v)] := by
  rw [mapAssign, if_neg]
  simpa using h

/-- With distinct app ids, `app_partitions` ends up holding each app's table under its id. -/
theorem listAppPartitions_ok {sc : ShellContext} {parts : Int → List PartitionConfiguration}
    (appName : String) (rows : List RowData) (apps : List AppInfo)
    (hList : ∀ app ∈ apps, sc.listApp app.appName = .ok (app.appId, app.partitionCount, parts app.appId))
    (acc : List (Int × List PartitionConfiguration))
    (hnd : (acc.map Prod.fst ++ apps.map (·.appId)).Nodup) :
    listAppPartitions sc appName rows apps acc =
      .ok (acc ++ apps.map fun app => (app.appId, parts app.appId)) := by
  induction apps generalizing acc with
  | nil => simp [listAppPartitions]
  | cons app apps ih =>
    rw [List.map_cons] at hnd
    have hfresh : app.appId ∉ acc.map Prod.fst := fun h =>
      List.disjoint_of_nodup_append hnd h (List.mem_cons_self _ _)
    simp only [listAppPartitions, hList app (List.mem_cons_self _ _), ne_eq, not_true_eq_false,
      if_false, mapAssign_fresh hfresh]
    rw [ih (fun a ha => hList a (List.mem_cons_of_mem _ ha)) _ (by simpa using hnd)]
    simp

/-- With distinct app ids, the naming loop names row `idx` after app `idx` and records
    `app_row_idx[app_id] = idx`. -/
theorem nameAppRows_ok (apps : List AppInfo) (pre : List RowData) (acc : List (Int × Nat))
    (hnd : (acc.map Prod.fst ++ apps.map (·.appId)).Nodup) :
    nameAppRows apps pre.length (pre ++ List.replicate apps.length RowData.fresh) acc =
      .ok (pre ++ apps.map (fun app => { RowData.fresh with rowName := app.appName }),
        acc ++ (apps.enumFrom pre.length).map fun p => (p.2.appId, p.1)) := by
  induction apps generalizing pre acc with
  | nil => simp [nameAppRows]
  | cons app apps ih =>
    rw [List.map_cons] at hnd
    have hfresh : app.appId ∉ acc.map Prod.fst := fun h =>
      List.disjoint_of_nodup_append hnd h (List.mem_cons_self _ _)
    have hget : (pre ++ List.replicate (apps.length + 1) RowData.fresh)[pre.length]? =
        some RowData.fresh := by
      rw [List.getElem?_append_right (le_refl _), Nat.sub_self, List.getElem?_replicate_of_lt (by omega)]
    have hset : (pre ++ List.replicate (apps.length + 1) RowData.fresh).set pre.length
        { RowData.fresh with rowName := app.appName } =
          (pre ++ [{ RowData.fresh with rowName := app.appName }]) ++
            List.replicate apps.length RowData.fresh := by
      simp [List.set_append_right, List.replicate_succ]
    have hrest := ih (pre ++ [{ RowData.fresh with rowName := app.appName }])
      (acc ++ [(app.appId, pre.length)]) (by simpa using hnd)
    simp only [List.length_append, List.length_singleton] at hrest
    simp only [List.length_cons, nameAppRows, hget, hset, mapAssign_fresh hfresh, hrest]
    simp [List.enumFrom_cons]

/-- The one-app naming loop on fresh rows names row `p` by `p`. -/
theorem namePartitionRows_replicate (k n : Nat) :
    namePartitionRows k (List.replicate n RowData.fresh) =
      (List.range' k n).map fun p => { RowData.fresh with rowName := toString (p : Int) } := by
  induction n generalizing k with
  | zero => rfl
  | succ n ih => simp [List.replicate_succ, namePartitionRows, ih, List.range'_succ]

theorem keyedRows_nil {κ : Type} (keys : List κ) (name : κ → String)
    (primaryOf : Int → Int → Option RpcAddress) (sel : κ → Int → Int → Bool) :
    keyedRows keys name primaryOf sel [] = keys.map fun k => { RowData.fresh with rowName := name k } := by
  refine List.map_congr_left fun k _ => ?_
  ext f
  · rfl
  · simp [RowData.fresh]

/-- What both tables assume of the collaborators: `list_apps` answers with apps of distinct
    ids, `list_nodes` answers, and every node's reply to `cmd` is received, decodes and
    says OK. -/
structure Answered (sc : ShellContext) (cmd : Command) (apps : List AppInfo) (nm : NodeMap) :
    Prop where
  listApps : sc.listApps = .ok apps
  distinctIds : (apps.map (·.appId)).Nodup
  listNodes : sc.listNodes = .ok nm
  repliesOk : ∀ n ∈ nm.nodes, ∃ info, nodeReply sc cmd n = some info ∧ info.result = "OK"

/-- The all-apps assumptions: `list_app` answers every app with its own id and partition
    count and the table `parts app_id`, and every reported name parses, naming a partition
    of its app's table when that app is listed. -/
structure AllAppsAnswered (sc : ShellContext) (apps : List AppInfo) (nm : NodeMap)
    (parts : Int → List PartitionConfiguration)
    extends Answered sc (perfCountersCommand none) apps nm : Prop where
  listApp : ∀ app ∈ apps,
    sc.listApp app.appName = .ok (app.appId, app.partitionCount, parts app.appId)
  countersParse : ∀ c ∈ reported sc (perfCountersCommand none) nm.nodes, ∃ a p metric,
    parseAppPegasusPerfCounterName c.2.name = some (a, p, metric) ∧
      (a ∈ apps.map (·.appId) → 0 ≤ p ∧ p < (parts a).length)

/-- The one-app assumptions for the app `app` that `appName` requests: it is the first app of
    that name, `list_app` answers with its id, its partition count and a table of that many
    partitions, and every reported counter is one of this app's, naming a partition of the
    table. -/
structure OneAppAnswered (sc : ShellContext) (appName : String) (app : AppInfo)
    (apps : List AppInfo) (nm : NodeMap) (partitions : List PartitionConfiguration)
    extends Answered sc (perfCountersCommand (some app)) apps nm : Prop where
  nameGiven : appName.isEmpty = false
  found : apps.find? (·.appName == appName) = some app
  listApp : sc.listApp appName = .ok (app.appId, app.partitionCount, partitions)
  tableSize : (partitions.length : Int) = app.partitionCount
  countersOwn : ∀ c ∈ reported sc (perfCountersCommand (some app)) nm.nodes, ∃ p metric,
    parseAppPegasusPerfCounterName c.2.name = some (app.appId, p, metric) ∧
      0 ≤ p ∧ p < partitions.length

/-- Up to its node loop the all-apps call only lists: with `list_apps`, `list_nodes` and every
    `list_app` answering, it is the node loop started from the table of zeros. -/
theorem getAppStatRows_allApps {sc : ShellContext} {apps : List AppInfo} {nm : NodeMap}
    {parts : Int → List PartitionConfiguration} (hApps : sc.listApps = .ok apps)
    (hIds : (apps.map (·.appId)).Nodup)
    (hList : ∀ app ∈ apps,
      sc.listApp app.appName = .ok (app.appId, app.partitionCount, parts app.appId))
    (hNodes : sc.listNodes = .ok nm) :
    getAppStatRows sc "" [] =
      nodeLoop sc (appCounterStep (apps.map fun app => (app.appId, parts app.appId))
          ((apps.enumFrom 0).map fun p => (p.2.appId, p.1)))
        (nm.nodes.map fun n => (NodeDesc.mk "replica-server" n, sc.callRemote (perfCountersCommand none) n))
        (appRows apps parts []) := by
  have hparts := listAppPartitions_ok "" [] apps hList [] (by simpa using hIds)
  have hnames := nameAppRows_ok apps [] [] (by simpa using hIds)
  simp only [List.nil_append, List.length_nil] at hparts hnames
  rw [appRows, keyedRows_nil]
  simp only [getAppStatRows, hApps, orReturn, bind, Except.bind,
    show findAppInfo "" apps [] = .ok none from rfl, fillNodes_replica_ok hNodes,
    allAppsStat, hparts, List.length_map, vectorResize, List.take_nil, List.length_nil,
    Nat.sub_zero, List.nil_append, hnames, zip_callRemoteCommand]

theorem getAppStat_allApps {sc : ShellContext} {apps : List AppInfo} {nm : NodeMap}
    {parts : Int → List PartitionConfiguration} (h : AllAppsAnswered sc apps nm parts) :
    getAppStat sc "" [] =
      .returned true (appRows apps parts (reported sc (perfCountersCommand none) nm.nodes)) [] [] := by
  rw [getAppStat, getAppStatRows_allApps h.listApps h.distinctIds h.listApp h.listNodes,
    nodeLoop_run (appRows apps parts) sc _ nm.nodes h.repliesOk
      (fun L c hc => appCounterStep_run h.distinctIds c.1 c.2 (h.countersParse c hc) L) [],
    List.nil_append]

/-- **A PARTIAL TABLE REPORTED AS SUCCESS.**  All apps requested, and every collaborator
    answering up to node `n`, whose reply fails a check: `get_app_stat` logs that failure and
    returns true with the table over the counters of the nodes before `n` alone. -/
theorem getAppStat_true_on_node_failure {sc : ShellContext} {apps : List AppInfo} {nm : NodeMap}
    {parts : Int → List PartitionConfiguration} {ns rest : List RpcAddress} {n : RpcAddress}
    {msg : String} (hApps : sc.listApps = .ok apps) (hIds : (apps.map (·.appId)).Nodup)
    (hList : ∀ app ∈ apps,
      sc.listApp app.appName = .ok (app.appId, app.partitionCount, parts app.appId))
    (hNodes : sc.listNodes = .ok nm) (hSplit : nm.nodes = ns ++ n :: rest)
    (hOk : ∀ m ∈ ns, ∃ info, nodeReply sc (perfCountersCommand none) m = some info ∧
      info.result = "OK")
    (hParse : ∀ c ∈ reported sc (perfCountersCommand none) ns, ∃ a p metric,
      parseAppPegasusPerfCounterName c.2.name = some (a, p, metric) ∧
        (a ∈ apps.map (·.appId) → 0 ≤ p ∧ p < (parts a).length))
    (hFail : checkNodeReply sc n (sc.callRemote (perfCountersCommand none) n) = .error msg) :
    getAppStat sc "" [] =
      .returned true (appRows apps parts (reported sc (perfCountersCommand none) ns)) [] [msg] := by
  rw [getAppStat, getAppStatRows_allApps hApps hIds hList hNodes, hSplit,
    nodeLoop_stops (appRows apps parts) sc _ ns rest hOk
      (fun L c hc => appCounterStep_run hIds c.1 c.2 (hParse c hc) L) hFail [],
    List.nil_append]

/-- Up to its node loop the one-app call only lists: with `list_apps` and `list_nodes`
    answering, the app found, and `list_app` answering with its id, its partition count and a
    table of that many partitions, it is the node loop started from the rows of zeros. -/
theorem getAppStatRows_oneApp {sc : ShellContext} {appName : String} {app : AppInfo}
    {apps : List AppInfo} {nm : NodeMap} {partitions : List PartitionConfiguration}
    (hApps : sc.listApps = .ok apps) (hName : appName.isEmpty = false)
    (hFind : apps.find? (·.appName == appName) = some app)
    (hList : sc.listApp appName = .ok (app.appId, app.partitionCount, partitions))
    (hSize : (partitions.length : Int) = app.partitionCount) (hNodes : sc.listNodes = .ok nm) :
    getAppStatRows sc appName [] =
      nodeLoop sc (partitionCounterStep app.appId app.partitionCount partitions)
        (nm.nodes.map fun n =>
          (NodeDesc.mk "replica-server" n, sc.callRemote (perfCountersCommand (some app)) n))
        (partitionRows partitions []) := by
  have hfind : findAppInfo appName apps [] = .ok (some app) := by
    simp only [findAppInfo, hName, hFind]; rfl
  have hrows : namePartitionRows 0 (vectorResize [] app.partitionCount.toNat) =
      partitionRows partitions [] := by
    rw [vectorResize, List.take_nil, List.length_nil, Nat.sub_zero, List.nil_append,
      namePartitionRows_replicate, partitionRows, keyedRows_nil, ← hSize, Int.toNat_natCast]
  simp only [getAppStatRows, hApps, orReturn, bind, Except.bind, hfind,
    fillNodes_replica_ok hNodes, oneAppStat, if_neg (show ¬ app.partitionCount < 0 by
      rw [← hSize]; omega), hrows, hList, ne_eq, not_true_eq_false, if_false,
    zip_callRemoteCommand, List.nil_append]

theorem getAppStat_oneApp {sc : ShellContext} {appName : String} {app : AppInfo}
    {apps : List AppInfo} {nm : NodeMap} {partitions : List PartitionConfiguration}
    (h : OneAppAnswered sc appName app apps nm partitions) :
    getAppStat sc appName [] =
      .returned true (partitionRows partitions
        (reported sc (perfCountersCommand (some app)) nm.nodes)) [] [] := by
  rw [getAppStat, getAppStatRows_oneApp h.listApps h.nameGiven h.found h.listApp h.tableSize
      h.listNodes,
    nodeLoop_run (partitionRows partitions) sc _ nm.nodes h.repliesOk
      (fun L c hc => partitionCounterStep_run h.tableSize c.1 c.2 (h.countersOwn c hc) L) [],
    List.nil_append]

/-- **THE TABLES.**  With every collaborator answering, `get_app_stat` returns true with the
    all-apps table `appRows` for an empty `app_name`, and with the requested app's table
    `partitionRows` otherwise: each field the exact sum of the counters of the row's app (or
    partition) and metric that the partition's recorded primary reported. -/
theorem get_app_stat_rows :
    (∀ sc apps nm parts, AllAppsAnswered sc apps nm parts →
      getAppStat sc "" [] =
        .returned true (appRows apps parts (reported sc (perfCountersCommand none) nm.nodes)) [] []) ∧
    (∀ sc appName app apps nm partitions, OneAppAnswered sc appName app apps nm partitions →
      getAppStat sc appName [] =
        .returned true (partitionRows partitions
          (reported sc (perfCountersCommand (some app)) nm.nodes)) [] []) :=
  ⟨fun _ _ _ _ h => getAppStat_allApps h, fun _ _ _ _ _ _ h => getAppStat_oneApp h⟩

-- ── A two-app cluster ────────────────────────────────────────────────────────────────

/-- Two replica servers. -/
def nodeA : RpcAddress := ⟨"10.0.0.1", 34801⟩
def nodeB : RpcAddress := ⟨"10.0.0.2", 34801⟩

def sampleNodes : NodeMap := ⟨[nodeA, nodeB], by decide⟩

/-- App `t` (id 1) with two partitions and app `u` (id 2) with one. -/
def tableT : AppInfo := ⟨1, "t", 2⟩
def tableU : AppInfo := ⟨2, "u", 1⟩

/-- The partition tables: `1.0` on `nodeA`, `1.1` and `2.0` on `nodeB`. -/
def sampleParts (appId : Int) : List PartitionConfiguration :=
  if appId = 1 then [⟨nodeA⟩, ⟨nodeB⟩] else if appId = 2 then [⟨nodeB⟩] else []

/-- The text a node sends back: its host, and which command it answers. -/
def sampleBody (cmd : Command) (n : RpcAddress) : String :=
  n.host ++ if cmd = perfCountersCommand none then " all" else " t"

/-- `decode` of the sample replies.  `nodeA` also reports `1.1`, whose primary it is not;
    only the reply to the all-apps command carries app 2's counter. -/
def sampleDecode (body : String) : Option PerfCounterInfo :=
  if body = "10.0.0.1 all" ∨ body = "10.0.0.1 t" then
    some ⟨"OK", [⟨"replica*app.pegasus*get_qps@1.0", 10⟩, ⟨"replica*app.pegasus*get_qps@1.1", 4⟩]⟩
  else if body = "10.0.0.2 all" then
    some ⟨"OK", [⟨"replica*app.pegasus*get_qps@1.1", 7⟩, ⟨"replica*app.pegasus*put_qps@2.0", 3⟩]⟩
  else if body = "10.0.0.2 t" then some ⟨"OK", [⟨"replica*app.pegasus*get_qps@1.1", 7⟩]⟩
  else none

def sampleShell : ShellContext where
  metaList := []
  listApps := .ok [tableT, tableU]
  listNodes := .ok sampleNodes
  listApp := fun name =>
    if name = "t" then .ok (1, 2, sampleParts 1)
    else if name = "u" then .ok (2, 1, sampleParts 2) else .error "ERR_OBJECT_NOT_FOUND"
  callRemote := fun cmd n => (true, sampleBody cmd n)
  decode := sampleDecode

theorem sample_repliesOk (cmd : Command) :
    ∀ n ∈ sampleNodes.nodes, ∃ info, nodeReply sampleShell cmd n = some info ∧ info.result = "OK" := by
  intro n hn
  simp only [sampleNodes, List.mem_cons, List.mem_singleton, List.not_mem_nil, or_false] at hn
  by_cases hc : cmd = perfCountersCommand none <;>
    rcases hn with rfl | rfl <;> exact ⟨_, by simp [nodeReply, sampleShell, sampleBody, hc]; rfl, rfl⟩

theorem get_app_stat_rows_sample :
    (AllAppsAnswered sampleShell [tableT, tableU] sampleNodes sampleParts ∧
      getAppStat sampleShell "" [] = .returned true (appRows [tableT, tableU] sampleParts
        (reported sampleShell (perfCountersCommand none) sampleNodes.nodes)) [] []) ∧
    (OneAppAnswered sampleShell "t" tableT [tableT, tableU] sampleNodes (sampleParts 1) ∧
      getAppStat sampleShell "t" [] = .returned true (partitionRows (sampleParts 1)
        (reported sampleShell (perfCountersCommand (some tableT)) sampleNodes.nodes)) [] []) := by
  have hAll : AllAppsAnswered sampleShell [tableT, tableU] sampleNodes sampleParts := by
    refine ⟨⟨rfl, by decide, rfl, sample_repliesOk _⟩, ?_, ?_⟩
    · intro app happ
      simp only [List.mem_cons, List.mem_singleton, List.not_mem_nil, or_false] at happ
      rcases happ with rfl | rfl <;> rfl
    · intro c hc
      rw [show reported sampleShell (perfCountersCommand none) sampleNodes.nodes =
        [(nodeA, ⟨"replica*app.pegasus*get_qps@1.0", 10⟩), (nodeA, ⟨"replica*app.pegasus*get_qps@1.1", 4⟩),
          (nodeB, ⟨"replica*app.pegasus*get_qps@1.1", 7⟩), (nodeB, ⟨"replica*app.pegasus*put_qps@2.0", 3⟩)]
        from rfl] at hc
      simp only [List.mem_cons, List.mem_singleton, List.not_mem_nil, or_false] at hc
      rcases hc with rfl | rfl | rfl | rfl <;> exact ⟨_, _, _, rfl, by decide⟩
  have hOne : OneAppAnswered sampleShell "t" tableT [tableT, tableU] sampleNodes (sampleParts 1) := by
    refine ⟨⟨rfl, by decide, rfl, sample_repliesOk _⟩, rfl, rfl, rfl, rfl, ?_⟩
    intro c hc
    rw [show reported sampleShell (perfCountersCommand (some tableT)) sampleNodes.nodes =
      [(nodeA, ⟨"replica*app.pegasus*get_qps@1.0", 10⟩), (nodeA, ⟨"replica*app.pegasus*get_qps@1.1", 4⟩),
        (nodeB, ⟨"replica*app.pegasus*get_qps@1.1", 7⟩)] from rfl] at hc
    simp only [List.mem_cons, List.mem_singleton, List.not_mem_nil, or_false] at hc
    rcases hc with rfl | rfl | rfl <;> exact ⟨_, _, rfl, by decide⟩
  exact ⟨⟨hAll, get_app_stat_rows.1 _ _ _ _ hAll⟩, ⟨hOne, get_app_stat_rows.2 _ _ _ _ _ _ hOne⟩⟩

/-- On the sample, the counters that count for `t`'s `get_qps` are `10` and `7`: the `4` that
    `nodeA` reports for `1.1`, whose primary it is not, is left out. -/
example : ((reported sampleShell (perfCountersCommand none) sampleNodes.nodes).filter
    (counts (fun a p => tablePrimary (sampleParts a) p) (fun a _ => a == tableT.appId) .getQps)).map
      (·.2.value) = [10, 7] := by
  decide

-- ── A node whose reply does not decode ───────────────────────────────────────────────

/-- `decode` when `nodeB`'s reply to the all-apps command does not decode. -/
def garbledDecode (body : String) : Option PerfCounterInfo :=
  if body = "10.0.0.2 all" then none else sampleDecode body

def garbledShell : ShellContext := { sampleShell with decode := garbledDecode }

/-- The `derror` line for `nodeB`'s reply. -/
def garbledMessage : String :=
  "decode perf counter info from node " ++ nodeB.toString ++ " failed, result = " ++ "10.0.0.2 all"

theorem getAppStat_true_on_node_failure_garbled :
    garbledShell.listApps = .ok [tableT, tableU] ∧ ([tableT, tableU].map (·.appId)).Nodup ∧
      (∀ app ∈ [tableT, tableU], garbledShell.listApp app.appName =
        .ok (app.appId, app.partitionCount, sampleParts app.appId)) ∧
      garbledShell.listNodes = .ok sampleNodes ∧ sampleNodes.nodes = [nodeA] ++ nodeB :: [] ∧
      (∀ m ∈ [nodeA], ∃ info, nodeReply garbledShell (perfCountersCommand none) m = some info ∧
        info.result = "OK") ∧
      (∀ c ∈ reported garbledShell (perfCountersCommand none) [nodeA], ∃ a p metric,
        parseAppPegasusPerfCounterName c.2.name = some (a, p, metric) ∧
          (a ∈ [tableT, tableU].map (·.appId) → 0 ≤ p ∧ p < (sampleParts a).length)) ∧
      checkNodeReply garbledShell nodeB (garbledShell.callRemote (perfCountersCommand none) nodeB) =
        .error garbledMessage ∧
      getAppStat garbledShell "" [] = .returned true (appRows [tableT, tableU] sampleParts
        (reported garbledShell (perfCountersCommand none) [nodeA])) [] [garbledMessage] := by
  have hList : ∀ app ∈ [tableT, tableU], garbledShell.listApp app.appName =
      .ok (app.appId, app.partitionCount, sampleParts app.appId) := by
    intro app happ
    simp only [List.mem_cons, List.mem_singleton, List.not_mem_nil, or_false] at happ
    rcases happ with rfl | rfl <;> rfl
  have hOk : ∀ m ∈ [nodeA], ∃ info, nodeReply garbledShell (perfCountersCommand none) m = some info ∧
      info.result = "OK" := by
    intro m hm
    rw [List.mem_singleton.mp hm]
    exact ⟨_, rfl, rfl⟩
  have hParse : ∀ c ∈ reported garbledShell (perfCountersCommand none) [nodeA], ∃ a p metric,
      parseAppPegasusPerfCounterName c.2.name = some (a, p, metric) ∧
        (a ∈ [tableT, tableU].map (·.appId) → 0 ≤ p ∧ p < (sampleParts a).length) := by
    intro c hc
    rw [show reported garbledShell (perfCountersCommand none) [nodeA] =
      [(nodeA, ⟨"replica*app.pegasus*get_qps@1.0", 10⟩), (nodeA, ⟨"replica*app.pegasus*get_qps@1.1", 4⟩)]
      from rfl] at hc
    simp only [List.mem_cons, List.mem_singleton, List.not_mem_nil, or_false] at hc
    rcases hc with rfl | rfl <;> exact ⟨_, _, _, rfl, by decide⟩
  have hFail : checkNodeReply garbledShell nodeB (garbledShell.callRemote (perfCountersCommand none) nodeB) =
      .error garbledMessage := rfl
  exact ⟨rfl, by decide, hList, rfl, rfl, hOk, hParse, hFail,
    getAppStat_true_on_node_failure rfl (by decide) hList rfl rfl hOk hParse hFail⟩

-- ── A counter of another app ─────────────────────────────────────────────────────────

/-- `decode` when `nodeA` answers the command of `t` with a counter named
    `replica*app.pegasus*get_qps@1.0@2.0`: the filter the command sends for `t`,
    `.*\*app\.pegasus\*.*@1\..*`, lets it through, and its last `@` names app 2. -/
def foreignDecode (body : String) : Option PerfCounterInfo :=
  if body = "10.0.0.1 t" then some ⟨"OK", [⟨"replica*app.pegasus*get_qps@1.0@2.0", 1⟩]⟩
  else sampleDecode body

def foreignShell : ShellContext := { sampleShell with decode := foreignDecode }

/-- **A FOREIGN COUNTER ABORTS.**  Every collaborator answers: two apps of distinct ids,
    `list_app` giving each its table, two distinct nodes whose replies decode and say OK, and
    a counter that the filter sent for `t` lets through but whose name parses to partition 0
    of app 2, which exists.  Asked for `t`, `get_app_stat` still does not return:
    `dassert(app_id_x == app_id)` stops the process. -/
theorem get_app_stat_aborts_on_foreign_counter :
    Answered foreignShell (perfCountersCommand (some tableT)) [tableT, tableU] sampleNodes ∧
      (∀ app ∈ [tableT, tableU],
        foreignShell.listApp app.appName = .ok (app.appId, app.partitionCount, sampleParts app.appId)) ∧
      (∀ c ∈ reported foreignShell (perfCountersCommand (some tableT)) sampleNodes.nodes, ∃ a p metric,
        parseAppPegasusPerfCounterName c.2.name = some (a, p, metric) ∧
          (a ∈ [tableT, tableU].map (·.appId) → 0 ≤ p ∧ p < (sampleParts a).length)) ∧
      getAppStat foreignShell "t" [] =
        .aborted ("name = " ++ "replica*app.pegasus*get_qps@1.0@2.0") := by
  refine ⟨⟨rfl, by decide, rfl, ?_⟩, ?_, ?_, rfl⟩
  · intro n hn
    simp only [sampleNodes, List.mem_cons, List.mem_singleton, List.not_mem_nil, or_false] at hn
    rcases hn with rfl | rfl <;> exact ⟨_, rfl, rfl⟩
  · intro app happ
    simp only [List.mem_cons, List.mem_singleton, List.not_mem_nil, or_false] at happ
    rcases happ with rfl | rfl <;> rfl
  · intro c hc
    rw [show reported foreignShell (perfCountersCommand (some tableT)) sampleNodes.nodes =
      [(nodeA, ⟨"replica*app.pegasus*get_qps@1.0@2.0", 1⟩),
        (nodeB, ⟨"replica*app.pegasus*get_qps@1.1", 7⟩)]
      from rfl] at hc
    simp only [List.mem_cons, List.mem_singleton, List.not_mem_nil, or_false] at hc
    rcases hc with rfl | rfl <;> exact ⟨_, _, _, rfl, by decide⟩

end PegasusAppStatSum
