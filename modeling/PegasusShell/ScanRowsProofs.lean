import PegasusShell.ScanInvariantProofs

/-! # `split_rows` — every row the split is handed is counted once

    `split_rows` is what the shell reports for a split: the rows it counted under
    SCAN_COUNT, or the rows whose write the store acknowledged under the writing operators.
    The increment is a separate atomic access after the result arrives, so at any instant
    some handed rows may still wait for it.  Over every schedule:

    * `acknowledged` — what the cursor and the clients hand the split along a schedule: a
      row delivered to a waiting `async_next` under SCAN_COUNT, or a write acknowledged
      with `PERR_OK`; failed results, `PERR_SCAN_COMPLETE` and results for no waiting
      callback add nothing;
    * `splitRows_next` — **one step moves `split_rows` plus the callbacks still holding an
      unrecorded row by exactly what the step hands the split**;
    * `split_rows_exact` — so from the fresh context, along every schedule, `split_rows` is
      the rows handed less those not yet recorded, and once the split has drained it is
      exactly the rows handed: no row is lost or counted twice by the interleaving;
    * `histogram_samples_exact` — under SCAN_COUNT with `stat_size` every row the split
      counts goes into each of the four histograms once (`samples_next`, and
      `writing_next`: a SCAN_COUNT split never holds a write), so once the split has
      drained each histogram holds `split_rows` samples; under any other setting none;
    * `top_rows_size` — and `top_rows` then holds `min(split_rows, top_count)` rows, no
      `push` of it having been undefined.

    Every fact about the shared state alone goes through `shared_run`: the results
    touch only the callbacks, so what each thread's access keeps holds along every run. -/

namespace PegasusScanRows

open PegasusTop PegasusScanStep PegasusScanInvariant

/-- A callback holding a row that `split_rows` does not count yet: a SCAN_COUNT row before
    its `split_rows++`, or an acknowledged write before its `split_rows++`. -/
def unrecorded : CallbackPc → Nat
  | .countRows _ | .writeRows => 1
  | _ => 0

/-- The row a result hands the split: a row the cursor delivers to a waiting `async_next`
    under SCAN_COUNT, or a client's `PERR_OK` for a waiting write. -/
def acknowledges (ctx : ScanDataContext) (s : ScanState) : Action → Nat
  | .deliverNext i (.row _) =>
      match s.callbacks[i]? with
      | some .pendingNext => if ctx.op = .scanCount then 1 else 0
      | _ => 0
  | .deliverWrite i .ok =>
      match s.callbacks[i]? with
      | some (.pendingWrite _) => 1
      | _ => 0
  | _ => 0

/-- The rows a schedule hands the split, run from `s`. -/
def acknowledged (ctx : ScanDataContext) : ScanState → List Action → Nat
  | _, [] => 0
  | s, a :: as => acknowledges ctx s a + acknowledged ctx (scanDataNext ctx s a) as

variable {ctx : ScanDataContext} {s : ScanState} {i : Nat}

-- ── What a result hands the split ────────────────────────────────────────────────────

theorem acknowledges_deliverNext (hp : s.callbacks[i]? = some .pendingNext) (r : NextResult) :
    acknowledges ctx s (.deliverNext i r) = unrecorded (afterNext ctx r) := by
  cases r with
  | row r => cases h : ctx.op <;> simp [acknowledges, hp, afterNext, h, unrecorded]
  | _ => rfl

theorem acknowledges_deliverNext_other (hp : s.callbacks[i]? ≠ some .pendingNext) (r : NextResult) :
    acknowledges ctx s (.deliverNext i r) = 0 := by
  cases r with
  | row r => simp only [acknowledges]
  | _ => rfl

theorem acknowledges_deliverWrite {k : WriteKind} (hp : s.callbacks[i]? = some (.pendingWrite k))
    (r : WriteResult) :
    acknowledges ctx s (.deliverWrite i r) = unrecorded (afterWrite ctx k r) := by
  cases r with
  | ok => simp [acknowledges, hp, afterWrite, unrecorded]
  | error e => rfl

theorem acknowledges_deliverWrite_other (hp : ∀ k, s.callbacks[i]? ≠ some (.pendingWrite k))
    (r : WriteResult) : acknowledges ctx s (.deliverWrite i r) = 0 := by
  cases r with
  | ok => simp only [acknowledges]
  | error e => rfl

-- ── One step ─────────────────────────────────────────────────────────────────────────

/-- A callback's step records its row exactly when it leaves `countRows` or `writeRows`. -/
theorem callback_splitRows (ctx : ScanDataContext) (sh : Shared) (pc : CallbackPc) :
    (callbackShared ctx sh pc).splitRows + unrecorded (callbackNext ctx sh pc) +
      total unrecorded (callbackSpawn pc) = sh.splitRows + unrecorded pc := by
  rcases pc with _ | _ | _ | _ | _ | _ | _ | _ | _ | _ | _ | l | _ | _ <;> try (cases l)
  all_goals simp only [callbackShared, callbackNext, callbackSpawn, loopShared, loopNext,
    loopSpawn, recordStats]
  all_goals (try split_ifs) <;> simp [unrecorded]

/-- Starting a pending callback moves the unrecorded rows by what the result hands over. -/
theorem total_unrecorded_set {pc pc' : CallbackPc} (hi : s.callbacks[i]? = some pc)
    (h0 : unrecorded pc = 0) :
    total unrecorded (s.callbacks.set i pc') = total unrecorded s.callbacks + unrecorded pc' := by
  have := total_set unrecorded hi pc'
  omega

/-- **ONE STEP, ONE ROW AT MOST.**  `split_rows` plus the rows still waiting for their
    `split_rows++` grows by exactly what the step hands the split. -/
theorem splitRows_next (ctx : ScanDataContext) (s : ScanState) (a : Action) :
    (scanDataNext ctx s a).shared.splitRows + total unrecorded (scanDataNext ctx s a).callbacks =
      s.shared.splitRows + total unrecorded s.callbacks + acknowledges ctx s a := by
  cases a with
  | main =>
    rcases hm : s.main with _ | l
    · rw [next_main_none hm]; simp [acknowledges]
    · rw [next_main hm, total_append]
      cases l <;> simp [loopShared, loopSpawn, unrecorded, acknowledges]
  | callback i =>
    rcases hi : s.callbacks[i]? with _ | pc
    · rw [next_callback_none hi]; simp [acknowledges]
    · have ht := total_next_callback ctx unrecorded hi
      have hc := callback_splitRows ctx s.shared pc
      rw [next_callback hi] at ht ⊢
      simp only [acknowledges] at ht ⊢
      push_cast at *
      omega
  | deliverNext i r =>
    by_cases hp : s.callbacks[i]? = some .pendingNext
    · have he : scanDataNext ctx s (.deliverNext i r) =
          { s with callbacks := s.callbacks.set i (afterNext ctx r) } := by simp [scanDataNext, hp]
      rw [he, acknowledges_deliverNext hp, total_unrecorded_set hp rfl]
      push_cast; omega
    · rw [(next_deliverNext ctx s i r).resolve_left fun h => hp h.1,
        acknowledges_deliverNext_other hp]
      simp
  | deliverWrite i r =>
    by_cases hp : ∃ k, s.callbacks[i]? = some (.pendingWrite k)
    · obtain ⟨k, hk⟩ := hp
      have he : scanDataNext ctx s (.deliverWrite i r) =
          { s with callbacks := s.callbacks.set i (afterWrite ctx k r) } := by simp [scanDataNext, hk]
      rw [he, acknowledges_deliverWrite hk, total_unrecorded_set hk rfl]
      push_cast; omega
    · push_neg at hp
      rw [(next_deliverWrite ctx s i r).resolve_left fun ⟨k, h, _⟩ => hp k h,
        acknowledges_deliverWrite_other hp]
      simp
  | otherSplitFails => simp [acknowledges]

theorem splitRows_run (ctx : ScanDataContext) (s : ScanState) (as : List Action) :
    (run ctx s as).shared.splitRows + total unrecorded (run ctx s as).callbacks =
      s.shared.splitRows + total unrecorded s.callbacks + acknowledged ctx s as := by
  induction as generalizing s with
  | nil => simp [run, acknowledged]
  | cons a as ih =>
    have := splitRows_next ctx s a
    simp only [run, List.foldl_cons, acknowledged] at ih ⊢
    rw [ih]
    push_cast
    omega

/-- A drained split holds only returned callbacks: a weight that is 0 on them sums to 0. -/
theorem total_quiescent {f : CallbackPc → Nat} (hq : Quiescent s) (h0 : f (.done false) = 0)
    (h1 : f (.done true) = 0) : total f s.callbacks = 0 :=
  List.sum_eq_zero fun x hx => by
    obtain ⟨pc, hpc, rfl⟩ := List.mem_map.mp hx
    obtain ⟨b, rfl⟩ := hq.2 pc hpc
    cases b <;> assumption

/-- **EVERY ROW COUNTED ONCE.**  Along every schedule from the fresh context, every
    interleaving and every sequence of results: `split_rows` plus the rows still waiting
    for their `split_rows++` is exactly the rows the cursor and the clients handed the
    split; once it has drained, `split_rows` is exactly those rows. -/
theorem split_rows_exact (ctx : ScanDataContext) (as : List Action) :
    (run ctx (init ctx) as).shared.splitRows + total unrecorded (run ctx (init ctx) as).callbacks =
        acknowledged ctx (init ctx) as ∧
      (Quiescent (run ctx (init ctx) as) →
        (run ctx (init ctx) as).shared.splitRows = acknowledged ctx (init ctx) as) := by
  have h := splitRows_run ctx (init ctx) as
  rw [show (init ctx).shared.splitRows + (total unrecorded (init ctx).callbacks : Int) = 0 from rfl,
    zero_add] at h
  refine ⟨h, fun hq => ?_⟩
  rwa [total_quiescent hq rfl rfl, Nat.cast_zero, add_zero] at h

-- ── The SCAN_COUNT statistics ────────────────────────────────────────────────────────

/-- Whether the split samples its rows: SCAN_COUNT with `stat_size`. -/
def sampling (ctx : ScanDataContext) : Bool := ctx.statSize && decide (ctx.op = .scanCount)

/-- The four histograms a SCAN_COUNT row is sampled into. -/
def histograms (sh : Shared) : List (List Int) :=
  [sh.hashKeySizeHistogram, sh.sortKeySizeHistogram, sh.valueSizeHistogram, sh.rowSizeHistogram]

/-- A row whose histogram samples are still to come: a SCAN_COUNT row before its
    `split_rows++` under `stat_size`, or right before the four `Add`s. -/
def unsampled (ctx : ScanDataContext) : CallbackPc → Nat
  | .countRows _ => if ctx.statSize then 1 else 0
  | .countStats _ => 1
  | _ => 0

/-- A callback of a writing operator's row: the write, before it or after it. -/
def writing : CallbackPc → Nat
  | .pendingWrite _ | .writeIncrement _ | .writeIssue _ | .writeRows => 1
  | _ => 0

/-- The histograms hold equally many samples. -/
def Aligned (sh : Shared) : Prop := ∀ h ∈ histograms sh, h.length = sh.rowSizeHistogram.length

theorem aligned_callbackShared {sh : Shared} (h : Aligned sh) (pc : CallbackPc) :
    Aligned (callbackShared ctx sh pc) := by
  rcases pc with _ | _ | _ | _ | _ | _ | _ | _ | _ | _ | _ | l | _ | _ <;> try (cases l)
  all_goals simp_all [Aligned, histograms, callbackShared, loopShared, recordStats]

/-- No `top_rows.push` was undefined, and `top_rows` holds one row per sample up to
    `top_count`, when the split pushes at all. -/
def TopFilled (ctx : ScanDataContext) (sh : Shared) : Prop :=
  ∃ c, sh.topRows = some c ∧ c.count = ctx.topCount ∧ (c.heap.size : Int) =
    if 0 < ctx.topCount then min (sh.rowSizeHistogram.length : Int) ctx.topCount else 0

theorem topFilled_init : TopFilled ctx (init ctx).shared := by
  refine ⟨_, rfl, rfl, ?_⟩
  split_ifs with hpos
  · simp [init, TopContainer.new, TopHeap.empty, TopHeap.size, hpos.le]
  · rfl

theorem topFilled_callbackShared (hK : ctx.topCount < 2 ^ 64) {sh : Shared} (h : TopFilled ctx sh)
    (pc : CallbackPc) : TopFilled ctx (callbackShared ctx sh pc) := by
  rcases pc with _ | _ | _ | _ | _ | _ | _ | _ | _ | _ | _ | l | _ | _ <;> try exact h
  case loop => cases l <;> exact h
  case countStats r =>
    obtain ⟨c, hsome, hc, hs⟩ := h
    by_cases hpos : 0 < ctx.topCount
    · rw [if_pos hpos] at hs
      have hle : (c.heap.size : Int) ≤ c.count := by rw [hs, hc]; omega
      obtain ⟨c', hc'⟩ := c.push_defined (hc ▸ hpos) (hc ▸ hK) r.hashKey r.sortKey
        ((r.hashKey.length : Int) + r.sortKey.length + r.value.length)
      refine ⟨c', ?_, by rw [TopContainer.count_push hc', hc], ?_⟩
      · simp only [callbackShared, recordStats, if_pos hpos, hsome, Option.some_bind, hc']
      · simp only [callbackShared, recordStats, if_pos hpos, List.length_append,
          List.length_singleton]
        rw [TopContainer.push_size (hc ▸ hpos) (hc ▸ hK) hle hc', hs, hc]
        push_cast
        omega
    · refine ⟨c, by simp only [callbackShared, recordStats, if_neg hpos, hsome], hc, ?_⟩
      simpa only [callbackShared, recordStats, if_neg hpos] using hs

/-- A property of the shared state that every thread's access and another split's failure
    keep holds along every schedule: the results themselves touch only the callbacks. -/
theorem shared_run {P : Shared → Prop} (hcb : ∀ sh pc, P sh → P (callbackShared ctx sh pc))
    (hother : ∀ sh, P sh → P { sh with errorOccurred := true }) (s : ScanState)
    (as : List Action) (h : P s.shared) : P (run ctx s as).shared := by
  induction as generalizing s with
  | nil => exact h
  | cons a as ih =>
    refine ih (scanDataNext ctx s a) ?_
    cases a with
    | main =>
      rcases hm : s.main with _ | l
      · rwa [next_main_none hm]
      · rw [next_main hm]; exact hcb _ (.loop l) h
    | callback i =>
      rcases hi : s.callbacks[i]? with _ | pc
      · rwa [next_callback_none hi]
      · rw [next_callback hi]; exact hcb _ pc h
    | deliverNext i r => rcases next_deliverNext ctx s i r with ⟨-, he⟩ | he <;> rwa [he]
    | deliverWrite i r => rcases next_deliverWrite ctx s i r with ⟨_, -, he⟩ | he <;> rwa [he]
    | otherSplitFails => exact hother _ h

/-- A callback's step takes its samples exactly when it leaves `countStats`. -/
theorem callback_samples (ctx : ScanDataContext) (sh : Shared) (pc : CallbackPc) :
    (callbackShared ctx sh pc).rowSizeHistogram.length + unsampled ctx (callbackNext ctx sh pc) +
      total (unsampled ctx) (callbackSpawn pc) = sh.rowSizeHistogram.length + unsampled ctx pc := by
  rcases pc with _ | _ | _ | _ | _ | _ | _ | _ | _ | _ | _ | l | _ | _ <;> try (cases l)
  all_goals simp only [callbackShared, callbackNext, callbackSpawn, loopShared, loopNext,
    loopSpawn, recordStats]
  all_goals (try split_ifs) <;> simp_all [unsampled]

/-- A callback never starts a write it does not already stand for. -/
theorem callback_writing (ctx : ScanDataContext) (sh : Shared) (pc : CallbackPc) :
    writing (callbackNext ctx sh pc) + total writing (callbackSpawn pc) ≤ writing pc := by
  rcases pc with _ | _ | _ | _ | _ | _ | _ | _ | _ | _ | _ | l | _ | _ <;> try (cases l)
  all_goals simp only [callbackNext, callbackSpawn, loopNext, loopSpawn]
  all_goals (try split_ifs) <;> simp [writing]

/-- A row delivered to a waiting `async_next` is still to be sampled exactly when the split
    samples and the split is still to count it. -/
theorem unsampled_afterNext (ctx : ScanDataContext) (r : NextResult) :
    unsampled ctx (afterNext ctx r) = if sampling ctx then unrecorded (afterNext ctx r) else 0 := by
  cases r <;> cases h : ctx.op <;> cases hs : ctx.statSize <;>
    simp [afterNext, sampling, unsampled, unrecorded, h, hs]

theorem writing_afterNext (hop : ctx.op = .scanCount) (r : NextResult) :
    writing (afterNext ctx r) = 0 := by
  cases r <;> simp [afterNext, hop, writing]

/-- A SCAN_COUNT split never holds a write. -/
theorem writing_next (hop : ctx.op = .scanCount) (h : total writing s.callbacks = 0) (a : Action) :
    total writing (scanDataNext ctx s a).callbacks = 0 := by
  cases a with
  | main =>
    rcases hm : s.main with _ | l
    · rwa [next_main_none hm]
    · rw [next_main hm, total_append, h]; cases l <;> rfl
  | callback i =>
    rcases hi : s.callbacks[i]? with _ | pc
    · rwa [next_callback_none hi]
    · have := total_next_callback ctx writing hi
      have := callback_writing ctx s.shared pc
      omega
  | deliverNext i r =>
    rcases next_deliverNext ctx s i r with ⟨hp, he⟩ | he
    · have := total_set writing hp (afterNext ctx r)
      rw [writing_afterNext hop, h, Nat.add_zero] at this
      rw [he]
      exact (Nat.add_eq_zero_iff.mp this).1
    · rwa [he]
  | deliverWrite i r =>
    rcases next_deliverWrite ctx s i r with ⟨k, hk, -⟩ | he
    · have := le_total writing hk
      simp only [h, writing] at this
      omega
    · rwa [he]
  | otherSplitFails => exact h

/-- **ONE STEP, ONE SAMPLE AT MOST.**  The samples taken plus the rows still to be sampled
    grow by exactly the rows the step hands a sampling split. -/
theorem samples_next (hw : ctx.op = .scanCount → total writing s.callbacks = 0) (a : Action) :
    (scanDataNext ctx s a).shared.rowSizeHistogram.length + total (unsampled ctx) (scanDataNext ctx s a).callbacks =
      s.shared.rowSizeHistogram.length + total (unsampled ctx) s.callbacks +
        if sampling ctx then acknowledges ctx s a else 0 := by
  cases a with
  | main =>
    rcases hm : s.main with _ | l
    · rw [next_main_none hm]; simp [acknowledges]
    · rw [next_main hm, total_append]
      cases l <;> simp [loopShared, loopSpawn, unsampled, acknowledges]
  | callback i =>
    rcases hi : s.callbacks[i]? with _ | pc
    · rw [next_callback_none hi]; simp [acknowledges]
    · have ht := total_next_callback ctx (unsampled ctx) hi
      have hc := callback_samples ctx s.shared pc
      rw [next_callback hi] at ht ⊢
      simp only [acknowledges, ite_self] at ht hc ⊢
      omega
  | deliverNext i r =>
    by_cases hp : s.callbacks[i]? = some .pendingNext
    · have he : scanDataNext ctx s (.deliverNext i r) =
          { s with callbacks := s.callbacks.set i (afterNext ctx r) } := by simp [scanDataNext, hp]
      have := total_set (unsampled ctx) hp (afterNext ctx r)
      rw [he, acknowledges_deliverNext hp, ← unsampled_afterNext]
      simp only [unsampled] at this ⊢
      omega
    · rw [(next_deliverNext ctx s i r).resolve_left fun h => hp h.1,
        acknowledges_deliverNext_other hp]
      simp
  | deliverWrite i r =>
    by_cases hp : ∃ k, s.callbacks[i]? = some (.pendingWrite k)
    · obtain ⟨k, hk⟩ := hp
      have he : scanDataNext ctx s (.deliverWrite i r) =
          { s with callbacks := s.callbacks.set i (afterWrite ctx k r) } := by simp [scanDataNext, hk]
      have hz : (if sampling ctx then acknowledges ctx s (.deliverWrite i r) else 0) = 0 := by
        rw [if_neg]
        intro hsm
        have := le_total writing hk
        simp only [hw (of_decide_eq_true (Bool.and_eq_true_iff.mp hsm).2), writing] at this
        omega
      have := total_set (unsampled ctx) hk (afterWrite ctx k r)
      rw [he, hz]
      cases r <;> simp only [afterWrite, unsampled] at this ⊢ <;> omega
    · push_neg at hp
      rw [(next_deliverWrite ctx s i r).resolve_left fun ⟨k, h, _⟩ => hp k h,
        acknowledges_deliverWrite_other hp]
      simp
  | otherSplitFails => simp [acknowledges]

theorem samples_run (ctx : ScanDataContext) (s : ScanState) (as : List Action)
    (hw : ctx.op = .scanCount → total writing s.callbacks = 0) :
    (ctx.op = .scanCount → total writing (run ctx s as).callbacks = 0) ∧
      (run ctx s as).shared.rowSizeHistogram.length +
          total (unsampled ctx) (run ctx s as).callbacks =
        s.shared.rowSizeHistogram.length + total (unsampled ctx) s.callbacks +
          if sampling ctx then acknowledged ctx s as else 0 := by
  induction as generalizing s with
  | nil => exact ⟨hw, by simp [run, acknowledged]⟩
  | cons a as ih =>
    have hstep := samples_next hw a
    obtain ⟨ihw, ih⟩ := ih (scanDataNext ctx s a) fun hop => writing_next hop (hw hop) a
    simp only [run, List.foldl_cons, acknowledged] at ihw ih ⊢
    refine ⟨ihw, ?_⟩
    rw [ih, hstep]
    split_ifs <;> omega

/-- Once the split has drained, the samples taken are the rows counted, when it samples. -/
theorem samples_quiescent (ctx : ScanDataContext) (as : List Action)
    (hq : Quiescent (run ctx (init ctx) as)) :
    ((run ctx (init ctx) as).shared.rowSizeHistogram.length : Int) =
      if sampling ctx then (run ctx (init ctx) as).shared.splitRows else 0 := by
  have hrows := (split_rows_exact ctx as).1
  have hsamples := (samples_run ctx (init ctx) as fun _ => rfl).2
  rw [total_quiescent hq rfl rfl, Nat.cast_zero, add_zero] at hrows
  rw [total_quiescent hq rfl rfl, add_zero, show (init ctx).shared.rowSizeHistogram.length +
    total (unsampled ctx) (init ctx).callbacks = 0 from rfl, zero_add] at hsamples
  rw [hsamples]
  split_ifs
  · exact hrows.symm
  · rfl

/-- **EVERY COUNTED ROW SAMPLED ONCE.**  Along every schedule from the fresh context, once
    the split has drained, each of the four histograms holds exactly `split_rows` samples
    when the operator is SCAN_COUNT with `stat_size`, and none otherwise: no row the split
    counts is left out of the statistics or sampled twice. -/
theorem histogram_samples_exact (ctx : ScanDataContext) (as : List Action)
    (hq : Quiescent (run ctx (init ctx) as)) :
    ∀ h ∈ histograms (run ctx (init ctx) as).shared,
      (h.length : Int) = if sampling ctx then (run ctx (init ctx) as).shared.splitRows else 0 := by
  intro h hh
  rw [shared_run (P := Aligned) (fun _ pc h => aligned_callbackShared h pc) (fun _ h => h)
    (init ctx) as (by simp [Aligned, histograms, init]) h hh, samples_quiescent ctx as hq]

/-- **THE TOP ROWS ARE THE FIRST `top_count` SAMPLES' WORTH.**  Along every schedule from
    the fresh context, once the split has drained, `top_rows` holds `min(split_rows,
    top_count)` rows under SCAN_COUNT with `stat_size` and a positive `top_count`, and none
    otherwise (`top_count` an `int`, so below 2^64 once converted to `size_t`). -/
theorem top_rows_size (ctx : ScanDataContext) (as : List Action) (hK : ctx.topCount < 2 ^ 64)
    (hq : Quiescent (run ctx (init ctx) as)) :
    ∃ c, (run ctx (init ctx) as).shared.topRows = some c ∧
      (c.all.length : Int) =
        if sampling ctx ∧ 0 < ctx.topCount then
          min (run ctx (init ctx) as).shared.splitRows ctx.topCount
        else 0 := by
  obtain ⟨c, hsome, -, hs⟩ := shared_run (P := TopFilled ctx)
    (fun _ pc h => topFilled_callbackShared hK h pc) (fun _ h => h) (init ctx) as topFilled_init
  rw [samples_quiescent ctx as hq] at hs
  refine ⟨c, hsome, ?_⟩
  rw [show c.all.length = c.heap.size from rfl, hs]
  by_cases hpos : 0 < ctx.topCount
  · by_cases hsm : sampling ctx <;> simp [hsm, hpos, hpos.le]
  · simp [hpos]

/-- A SCAN_COUNT split with `stat_size`, one slot and a top-rows table of one row. -/
def countContext : ScanDataContext :=
  { copyContext with op := .scanCount, statSize := true, maxBatchCount := 1, topCount := 1 }

/-- The initial call issues one `async_next` and returns; the row arrives, and its callback
    counts it, samples it, finds its own slot still taken and returns. -/
def countOneRow : List Action :=
  List.replicate 8 .main ++ .deliverNext 0 (.row sampleRow) :: List.replicate 6 (.callback 0)

/-- The split after `countOneRow`. -/
def countedOne : ScanState := run countContext (init countContext) countOneRow

theorem countedOne_quiescent : Quiescent countedOne :=
  ⟨rfl, by simp only [show countedOne.callbacks = [.done false] from rfl]; decide⟩

theorem histogram_samples_exact_one_row :
    Quiescent countedOne ∧ ∀ h ∈ histograms countedOne.shared,
      (h.length : Int) = if sampling countContext then countedOne.shared.splitRows else 0 :=
  ⟨countedOne_quiescent, histogram_samples_exact countContext countOneRow countedOne_quiescent⟩

theorem top_rows_size_one_row :
    countContext.topCount < 2 ^ 64 ∧ Quiescent countedOne ∧
      ∃ c, countedOne.shared.topRows = some c ∧
        (c.all.length : Int) =
          if sampling countContext ∧ 0 < countContext.topCount then
            min countedOne.shared.splitRows countContext.topCount
          else 0 :=
  ⟨by decide, countedOne_quiescent,
    top_rows_size countContext countOneRow (by decide) countedOne_quiescent⟩

end PegasusScanRows
