import PegasusShell.ScanRowsProofs
import PegasusShell.AtomicMaxProofs

/-! # Draining a split — no state is stuck, and completion bounds what is left

    The caller of `scan_data_next` waits until every callback of the split has returned.
    Two properties of the transition system say that this wait can end and, once the
    scan reports its end, does end; a third says that the end of the wait does not mean
    the end of the scan:

    * `split_can_drain` — from every state some continuation drains the split, with no
      failure in it: the threads step, the cursor answers each waiting `async_next` with
      PERR_SCAN_COMPLETE and the clients acknowledge each waiting write.  No state is stuck;
    * `split_drains_after_completion` — once `split_completed` is set, every schedule of
      steps that change the state is bounded, whatever the interleaving and the results:
      the loop check `!split_completed.load()` stops every refill, and what is in flight
      finishes; and a state no action changes is drained, so the bounded schedules end
      with every thread returned;
    * `split_idles_before_scan_end` — but drained is not done: before `split_completed`,
      two successful writes that both check the count before either decrements see
      `2 < 2` fail, and the split drains to `0` with neither flag set.

    Both rest on ranks per thread: `rank` counts what a thread can still do once
    `split_completed` is set (a refill already past its check issues one more
    `async_next`), `refillRank` what it does before it returns or issues its next
    `async_next`, whose result can then end the scan. -/

namespace PegasusScanDrain

open PegasusScanStep PegasusScanInvariant

/-- A schedule, every action of which changes the state. -/
def Moves (ctx : ScanDataContext) : ScanState → List Action → Prop
  | _, [] => True
  | s, a :: as => scanDataNext ctx s a ≠ s ∧ Moves ctx (scanDataNext ctx s a) as

/-- An action that is no failure: a thread's step, PERR_SCAN_COMPLETE for a read, or
    PERR_OK for a write. -/
def clean : Action → Bool
  | .main | .callback _ => true
  | .deliverNext _ r => r == .scanComplete
  | .deliverWrite _ r => r == .ok
  | .otherSplitFails => false

/-- A callback that cannot step: waiting for its result, or returned. -/
def idle : CallbackPc → Bool
  | .pendingNext | .pendingWrite _ | .done _ => true
  | _ => false

theorem run_append (ctx : ScanDataContext) (s : ScanState) (as bs : List Action) :
    run ctx s (as ++ bs) = run ctx (run ctx s as) bs :=
  List.foldl_append _ _ _ _

variable {ctx : ScanDataContext} {s : ScanState}

theorem next_callback_idle {i : Nat} {pc : CallbackPc} (h : s.callbacks[i]? = some pc)
    (hidle : idle pc = true) : scanDataNext ctx s (.callback i) = s := by
  rw [next_callback h]
  cases pc <;> simp only [idle, Bool.false_eq_true] at hidle <;>
    simp only [callbackShared, callbackNext, callbackSpawn, List.append_nil,
      PegasusAtomicMax.set_self_of_getElem? h]

theorem errorOccurred_callbackShared (sh : Shared) (pc : CallbackPc) (h : sh.errorOccurred = true) :
    (callbackShared ctx sh pc).errorOccurred = true := by
  rcases pc with _ | _ | _ | _ | _ | _ | _ | _ | _ | _ | _ | l | _ | _ <;> try (cases l)
  all_goals simp [callbackShared, loopShared, recordStats, h]

-- ── Once `split_completed` is set ────────────────────────────────────────────────────

/-- The steps a loop can still take once `split_completed` is set: the check fails at the
    next `split_completed.load()`, and a refill past its check issues one `async_next`. -/
def loopRank : LoopPc → Nat
  | .loadCompleted => 1
  | .asyncNext => 10
  | .increment => 11
  | .loadCount => 12
  | .loadError => 13

/-- The steps, results included, a callback can still take once `split_completed` is set. -/
def rank : CallbackPc → Nat
  | .pendingNext => 8
  | .pendingWrite _ => 4
  | .writeIncrement _ => 7
  | .writeIssue _ => 6
  | .countRows _ => 4
  | .countStats _ | .print _ | .writeRows => 3
  | .storeCompleted | .exchange _ | .storeError => 2
  | .loop l => loopRank l + 1
  | .decrement _ => 1
  | .done _ => 0

/-- The initial call's rank. -/
def mainRank : Option LoopPc → Nat
  | some l => loopRank l
  | none => 0

/-- Another split's failure is one more step while `*error_occurred` is false. -/
def errorRank (sh : Shared) : Nat := if sh.errorOccurred then 0 else 1

/-- What is left of a split once `split_completed` is set. -/
def drainRank (s : ScanState) : Nat := mainRank s.main + total rank s.callbacks + errorRank s.shared

theorem main_rank (ctx : ScanDataContext) {sh : Shared} (hc : sh.splitCompleted = true) (l : LoopPc) :
    mainRank (loopNext ctx sh l) + total rank (loopSpawn l) < loopRank l := by
  cases l <;> simp only [loopNext, loopSpawn, hc] <;> (try split_ifs) <;> simp [mainRank, loopRank, rank]

theorem callback_rank (ctx : ScanDataContext) {sh : Shared} (hc : sh.splitCompleted = true) {pc : CallbackPc}
    (hidle : idle pc = false) :
    rank (callbackNext ctx sh pc) + total rank (callbackSpawn pc) < rank pc := by
  rcases pc with _ | _ | _ | _ | _ | _ | _ | _ | _ | _ | _ | l | _ | _ <;> try (cases l)
  all_goals simp only [idle, Bool.true_eq_false] at hidle
  all_goals simp only [callbackNext, callbackSpawn, loopNext, loopSpawn, hc]
  all_goals (try split_ifs) <;> simp [rank, loopRank]

theorem rank_afterNext (ctx : ScanDataContext) (r : NextResult) : rank (afterNext ctx r) < rank .pendingNext := by
  cases r with
  | row r => cases h : ctx.op <;> simp [afterNext, h, rank]
  | _ => simp [afterNext, rank]

theorem rank_afterWrite (ctx : ScanDataContext) (k : WriteKind) (r : WriteResult) :
    rank (afterWrite ctx k r) < rank (.pendingWrite k) := by
  cases r <;> simp [afterWrite, rank]

theorem errorRank_callbackShared (ctx : ScanDataContext) (sh : Shared) (pc : CallbackPc) :
    errorRank (callbackShared ctx sh pc) ≤ errorRank sh := by
  unfold errorRank
  cases h : sh.errorOccurred
  · split <;> simp
  · simp [errorOccurred_callbackShared sh pc h]

theorem drainRank_main (hc : s.shared.splitCompleted = true) {l : LoopPc} (hm : s.main = some l) :
    drainRank (scanDataNext ctx s .main) < drainRank s := by
  have := main_rank ctx hc l
  rw [next_main hm]
  cases l <;> simp only [drainRank, loopShared, total_append, errorRank, hm, mainRank] at this ⊢ <;>
    omega

theorem drainRank_callback (hc : s.shared.splitCompleted = true) {i : Nat} {pc : CallbackPc}
    (hi : s.callbacks[i]? = some pc) (hidle : idle pc = false) :
    drainRank (scanDataNext ctx s (.callback i)) < drainRank s := by
  have ht := total_next_callback ctx rank hi
  have := callback_rank ctx hc hidle
  have := errorRank_callbackShared ctx s.shared pc
  rw [next_callback hi] at ht ⊢
  simp only [drainRank] at ht ⊢
  omega

theorem drainRank_deliverNext {i : Nat} (hp : s.callbacks[i]? = some .pendingNext) (r : NextResult) :
    drainRank (scanDataNext ctx s (.deliverNext i r)) < drainRank s := by
  have he : scanDataNext ctx s (.deliverNext i r) =
      { s with callbacks := s.callbacks.set i (afterNext ctx r) } := by simp [scanDataNext, hp]
  have := total_set rank hp (afterNext ctx r)
  have := rank_afterNext ctx r
  rw [he]
  simp only [drainRank]
  omega

theorem drainRank_deliverWrite {i : Nat} {k : WriteKind} (hk : s.callbacks[i]? = some (.pendingWrite k))
    (r : WriteResult) : drainRank (scanDataNext ctx s (.deliverWrite i r)) < drainRank s := by
  have he : scanDataNext ctx s (.deliverWrite i r) =
      { s with callbacks := s.callbacks.set i (afterWrite ctx k r) } := by simp [scanDataNext, hk]
  have := total_set rank hk (afterWrite ctx k r)
  have := rank_afterWrite ctx k r
  rw [he]
  simp only [drainRank]
  omega

/-- **ONCE COMPLETED, EVERY STEP COUNTS.**  With `split_completed` set, an action changes
    nothing or lowers the rank of the split. -/
theorem drainRank_next (hc : s.shared.splitCompleted = true) (a : Action) :
    scanDataNext ctx s a = s ∨ drainRank (scanDataNext ctx s a) < drainRank s := by
  cases a with
  | main =>
    rcases hm : s.main with _ | l
    exacts [.inl (next_main_none hm), .inr (drainRank_main hc hm)]
  | callback i =>
    rcases hi : s.callbacks[i]? with _ | pc
    · exact .inl (next_callback_none hi)
    · cases hidle : idle pc
      exacts [.inr (drainRank_callback hc hi hidle), .inl (next_callback_idle hi hidle)]
  | deliverNext i r =>
    by_cases hp : s.callbacks[i]? = some .pendingNext
    · exact .inr (drainRank_deliverNext hp r)
    · exact .inl ((next_deliverNext ctx s i r).resolve_left fun h => hp h.1)
  | deliverWrite i r =>
    by_cases hp : ∃ k, s.callbacks[i]? = some (.pendingWrite k)
    · obtain ⟨k, hk⟩ := hp
      exact .inr (drainRank_deliverWrite hk r)
    · exact .inl ((next_deliverWrite ctx s i r).resolve_left fun ⟨k, h, _⟩ => hp ⟨k, h⟩)
  | otherSplitFails =>
    cases he : s.shared.errorOccurred
    · exact .inr (by simp [drainRank, errorRank, he])
    · exact .inl (by rw [next_otherSplitFails, ← he])

/-- A split that has not drained has a thread that can step or a callback that has not
    returned. -/
theorem exists_move (hq : ¬ Quiescent s) :
    (∃ l, s.main = some l) ∨
      ∃ (i : Nat) (pc : CallbackPc), s.callbacks[i]? = some pc ∧ ∀ f, pc ≠ .done f := by
  rcases hm : s.main with _ | l
  · right
    by_contra hall
    push_neg at hall
    refine hq ⟨hm, fun pc hpc => ?_⟩
    obtain ⟨i, hi⟩ := List.mem_iff_getElem?.mp hpc
    exact hall i pc hi
  · exact .inl ⟨l, rfl⟩

/-- With `split_completed` set, a split that has not drained has a clean action that lowers
    its rank. -/
theorem drainRank_progress (ctx : ScanDataContext) (hc : s.shared.splitCompleted = true) (hq : ¬ Quiescent s) :
    ∃ a, clean a = true ∧ drainRank (scanDataNext ctx s a) < drainRank s := by
  rcases exists_move hq with ⟨l, hm⟩ | ⟨i, pc, hi, hpc⟩
  · exact ⟨.main, rfl, drainRank_main hc hm⟩
  · cases hidle : idle pc
    · exact ⟨.callback i, rfl, drainRank_callback hc hi hidle⟩
    · cases pc <;> simp only [idle, Bool.false_eq_true] at hidle
      · exact ⟨.deliverNext i .scanComplete, rfl, drainRank_deliverNext hi _⟩
      · exact ⟨.deliverWrite i .ok, rfl, drainRank_deliverWrite hi _⟩
      · exact absurd rfl (hpc _)

/-- With `split_completed` set, clean actions drain the split. -/
theorem drain_of_completed (s : ScanState) (hc : s.shared.splitCompleted = true) :
    ∃ as, (∀ a ∈ as, clean a = true) ∧ Quiescent (run ctx s as) := by
  by_cases hq : Quiescent s
  · exact ⟨[], by simp, hq⟩
  · obtain ⟨a, ha, hlt⟩ := drainRank_progress ctx hc hq
    obtain ⟨as, has, hqs⟩ := drain_of_completed (scanDataNext ctx s a) (splitCompleted_next hc a)
    exact ⟨a :: as, List.forall_mem_cons.mpr ⟨ha, has⟩, hqs⟩
termination_by drainRank s

/-- A schedule of steps that change the state is no longer than the rank it starts from. -/
theorem moves_length_le (hc : s.shared.splitCompleted = true) (as : List Action)
    (h : Moves ctx s as) : as.length ≤ drainRank s := by
  induction as generalizing s with
  | nil => exact Nat.zero_le _
  | cons a as ih =>
    obtain ⟨hne, hmv⟩ := h
    have hlt := (drainRank_next hc a).resolve_left hne
    have := ih (splitCompleted_next hc a) hmv
    rw [List.length_cons]
    omega

-- ── Before `split_completed` ─────────────────────────────────────────────────────────

/-- The steps a loop takes before it returns or issues its `async_next`. -/
def loopRefill : LoopPc → Nat
  | .asyncNext => 1
  | .increment => 2
  | .loadCount => 3
  | .loadError => 4
  | .loadCompleted => 5

/-- The steps, results included, a callback takes before it returns or a loop it runs
    issues an `async_next`.  A waiting `async_next` counts nothing: its result can end the
    scan. -/
def refillRank : CallbackPc → Nat
  | .pendingNext | .done _ => 0
  | .pendingWrite _ | .countRows _ => 8
  | .writeIncrement _ => 11
  | .writeIssue _ => 10
  | .countStats _ | .writeRows => 7
  | .exchange _ => 4
  | .print _ => 3
  | .storeCompleted | .storeError => 2
  | .loop l => loopRefill l + 1
  | .decrement _ => 1

/-- The initial call's refill rank. -/
def mainRefill : Option LoopPc → Nat
  | some l => loopRefill l
  | none => 0

/-- What the split does before it returns or issues another `async_next`. -/
def refillMeasure (s : ScanState) : Nat := mainRefill s.main + total refillRank s.callbacks

theorem main_refill (ctx : ScanDataContext) (sh : Shared) {l : LoopPc} (hl : l ≠ .asyncNext) :
    mainRefill (loopNext ctx sh l) + total refillRank (loopSpawn l) < loopRefill l := by
  cases l <;> simp only [loopNext, loopSpawn] <;> (try split_ifs) <;>
    simp_all [mainRefill, loopRefill]

theorem callback_refill (ctx : ScanDataContext) (sh : Shared) {pc : CallbackPc} (hidle : idle pc = false)
    (hl : pc ≠ .loop .asyncNext) :
    refillRank (callbackNext ctx sh pc) + total refillRank (callbackSpawn pc) < refillRank pc := by
  rcases pc with _ | _ | _ | _ | _ | _ | _ | _ | _ | _ | _ | l | _ | _ <;> try (cases l)
  all_goals simp only [idle, Bool.true_eq_false] at hidle
  all_goals simp only [callbackNext, callbackSpawn, loopNext, loopSpawn]
  all_goals (try split_ifs) <;> simp_all [refillRank, loopRefill]

/-- Before `split_completed` is set and with no `async_next` waiting, a split that has not
    drained has a clean action that issues an `async_next` or lowers its refill rank. -/
theorem refill_progress (ctx : ScanDataContext) (hq : ¬ Quiescent s) (hp : .pendingNext ∉ s.callbacks) :
    ∃ a, clean a = true ∧
      (.pendingNext ∈ (scanDataNext ctx s a).callbacks ∨ refillMeasure (scanDataNext ctx s a) < refillMeasure s) := by
  rcases exists_move hq with ⟨l, hm⟩ | ⟨i, pc, hi, hpc⟩
  · refine ⟨.main, rfl, ?_⟩
    rw [next_main hm]
    by_cases hl : l = .asyncNext
    · subst hl
      exact .inl (List.mem_append_right _ (List.mem_singleton_self _))
    · have := main_refill ctx s.shared hl
      right
      simp only [refillMeasure, total_append, hm, mainRefill] at this ⊢
      omega
  · cases hidle : idle pc
    · refine ⟨.callback i, rfl, ?_⟩
      by_cases hl : pc = .loop .asyncNext
      · subst hl
        rw [next_callback hi]
        exact .inl (List.mem_append_right _ (List.mem_singleton_self _))
      · have ht := total_next_callback ctx refillRank hi
        have := callback_refill ctx s.shared hidle hl
        right
        rw [next_callback hi] at ht ⊢
        simp only [refillMeasure] at ht ⊢
        omega
    · have hmem : pc ∈ s.callbacks := List.mem_iff_getElem?.mpr ⟨i, hi⟩
      cases pc <;> simp only [idle, Bool.false_eq_true] at hidle
      · exact absurd hmem hp
      · next k =>
        refine ⟨.deliverWrite i .ok, rfl, .inr ?_⟩
        have he : scanDataNext ctx s (.deliverWrite i .ok) =
            { s with callbacks := s.callbacks.set i .writeRows } := by simp [scanDataNext, hi, afterWrite]
        have := total_set refillRank hi .writeRows
        rw [he]
        simp only [refillMeasure, refillRank] at this ⊢
        omega
      · exact absurd rfl (hpc _)

/-- Clean actions bring every split to a state that has drained, has `split_completed`
    set, or has an `async_next` waiting for its result. -/
theorem reach_ready (ctx : ScanDataContext) (s : ScanState) :
    ∃ as, (∀ a ∈ as, clean a = true) ∧
      (Quiescent (run ctx s as) ∨ (run ctx s as).shared.splitCompleted = true ∨
        .pendingNext ∈ (run ctx s as).callbacks) := by
  by_cases hr : Quiescent s ∨ s.shared.splitCompleted = true ∨ .pendingNext ∈ s.callbacks
  · exact ⟨[], by simp, hr⟩
  · simp only [not_or] at hr
    obtain ⟨a, ha, hspawn | hlt⟩ := refill_progress ctx hr.1 hr.2.2
    · exact ⟨[a], by simp [ha], .inr (.inr hspawn)⟩
    · obtain ⟨as, has, h⟩ := reach_ready ctx (scanDataNext ctx s a)
      exact ⟨a :: as, List.forall_mem_cons.mpr ⟨ha, has⟩, h⟩
termination_by refillMeasure s

/-- PERR_SCAN_COMPLETE for a waiting `async_next`, and its callback's store: the split is
    completed. -/
theorem complete_of_pending {i : Nat} (hp : s.callbacks[i]? = some .pendingNext) :
    (run ctx s [.deliverNext i .scanComplete, .callback i]).shared.splitCompleted = true := by
  have h1 : scanDataNext ctx s (.deliverNext i .scanComplete) =
      { s with callbacks := s.callbacks.set i .storeCompleted } := by simp [scanDataNext, hp, afterNext]
  have h2 : (scanDataNext ctx s (.deliverNext i .scanComplete)).callbacks[i]? = some .storeCompleted := by
    rw [h1]
    exact List.getElem?_set_self (List.getElem?_eq_some_iff.mp hp).1
  simp only [run, List.foldl_cons, List.foldl_nil]
  rw [next_callback h2]
  rfl

-- ── Headline statements ──────────────────────────────────────────────────────────────

/-- **NO STATE IS STUCK.**  From every state of a split, reachable or not, a schedule
    without failures drains it: the threads step, the cursor answers each waiting
    `async_next` with PERR_SCAN_COMPLETE and the clients acknowledge each waiting write,
    and in the end the initial call and every issued callback have returned. -/
theorem split_can_drain (ctx : ScanDataContext) (s : ScanState) :
    ∃ as, (∀ a ∈ as, clean a = true) ∧ Quiescent (run ctx s as) := by
  obtain ⟨as, has, hr⟩ := reach_ready ctx s
  rcases hr with hq | hc | hp
  · exact ⟨as, has, hq⟩
  · obtain ⟨bs, hbs, hq⟩ := drain_of_completed _ hc
    refine ⟨as ++ bs, List.forall_mem_append.mpr ⟨has, hbs⟩, ?_⟩
    rwa [run_append]
  · obtain ⟨i, hi⟩ := List.mem_iff_getElem?.mp hp
    obtain ⟨bs, hbs, hq⟩ := drain_of_completed _ (complete_of_pending hi)
    refine ⟨as ++ [.deliverNext i .scanComplete, .callback i] ++ bs,
      List.forall_mem_append.mpr ⟨List.forall_mem_append.mpr ⟨has, by simp [clean]⟩, hbs⟩, ?_⟩
    rwa [run_append, run_append]

/-- **ONCE COMPLETED, THE SPLIT DRAINS.**  After `split_completed` is set, every schedule
    whose actions all change the state is bounded, for every interleaving and every
    result the cursor and the clients return, failures included: no refill passes the
    loop check again, and every operation in flight finishes in a bounded number of steps.
    And wherever a schedule leads, a state that no action changes any more is drained:
    the bounded schedules end with every thread returned. -/
theorem split_drains_after_completion (ctx : ScanDataContext) (s : ScanState)
    (hc : s.shared.splitCompleted = true) :
    (∃ B, ∀ as, Moves ctx s as → as.length ≤ B) ∧
      ∀ as, (∀ a, scanDataNext ctx (run ctx s as) a = run ctx s as) →
        Quiescent (run ctx s as) := by
  refine ⟨⟨drainRank s, moves_length_le hc⟩, fun as hstill => ?_⟩
  by_contra hq
  obtain ⟨a, -, hlt⟩ := drainRank_progress ctx (splitCompleted_run hc as) hq
  rw [hstill a] at hlt
  exact lt_irrefl _ hlt

/-- A SCAN_COPY split whose first fetch gets PERR_SCAN_COMPLETE while the second is still
    out. -/
def afterScanComplete : ScanState :=
  run copyContext (init copyContext) (fillTwo ++ [.deliverNext 0 .scanComplete, .callback 0])

theorem split_drains_after_completion_sample :
    afterScanComplete.shared.splitCompleted = true ∧
      (∃ B, ∀ as, Moves copyContext afterScanComplete as → as.length ≤ B) ∧
        ∀ as, (∀ a, scanDataNext copyContext (run copyContext afterScanComplete as) a =
            run copyContext afterScanComplete as) →
          Quiescent (run copyContext afterScanComplete as) :=
  ⟨by decide, split_drains_after_completion copyContext afterScanComplete (by decide)⟩

-- ── Drained is not done ──────────────────────────────────────────────────────────────

/-- Both fetches get rows and issue their writes (callbacks 2 and 3); both writes succeed
    and check the count before either decrements. -/
def writesCheckBeforeDecrement : List Action :=
  fillTwo ++
    [.deliverNext 0 (.row sampleRow), .callback 0, .callback 0, .callback 0,
      .deliverNext 1 (.row sampleRow), .callback 1, .callback 1, .callback 1,
      .deliverWrite 2 .ok, .callback 2, .callback 2, .callback 2, .callback 2,
      .deliverWrite 3 .ok, .callback 3, .callback 3, .callback 3, .callback 3,
      .callback 2, .callback 3]

/-- The split after `writesCheckBeforeDecrement`. -/
def idleSplit : ScanState := run copyContext (init copyContext) writesCheckBeforeDecrement

set_option maxRecDepth 4000 in
/-- **AN IDLE SPLIT.**  Every thread has returned and the count is zero, yet neither the
    cursor's end nor an error was recorded: two rows were copied and the scan stopped. -/
theorem split_idles_before_scan_end :
    Reachable copyContext idleSplit ∧ Quiescent idleSplit ∧
      idleSplit.shared.splitRequestCount = 0 ∧ idleSplit.shared.splitCompleted = false ∧
      idleSplit.shared.errorOccurred = false ∧ idleSplit.shared.splitRows = 2 := by
  refine ⟨reachable_run copyContext .init _, ⟨rfl, ?_⟩, rfl, rfl, rfl, rfl⟩
  simp only [show idleSplit.callbacks = [.done false, .done false, .done false, .done false]
    from rfl]
  decide

end PegasusScanDrain
