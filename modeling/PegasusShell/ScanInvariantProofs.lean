import PegasusShell.ScanStepProofs

/-! # The split's accounting, over every interleaving

    Three invariants of every reachable state, each a sum of per-thread weights that one
    step changes only at the moving thread:

    * `CountInv` — `split_request_count` is the number of callbacks that have not passed
      their final decrement, plus the threads that raised it for an operation they have
      not issued yet (`reserved`): the increment comes BEFORE `async_next` / `async_set`,
      so between the two the count is one ahead of the operations issued;
    * `SlotInv` — the pending operations, the row callbacks bound to write and the loops
      past their check hold at most `max(max_batch_count, 0)` slots.  A loop passes its
      check only while `split_request_count < max_batch_count`, and every slot but the
      loop's own is already in the count (`slot_add_atLoadCount_le_held`);
    * `ReportInv` — `split_completed.exchange(true)` lets at most one failure print, and
      every `*error_occurred` store follows its own print.

    The headline statements are `split_request_count_balance`,
    `pending_le_max_batch_count` and `split_reports_at_most_once`.  The exchange that
    keeps the reports to one is shared with the success path, so it also silences a
    failure: `write_failure_swallowed_after_scan_complete` — a write that fails after
    another callback stored `split_completed` for PERR_SCAN_COMPLETE prints nothing and
    leaves `*error_occurred` false, although a row was not copied. -/

namespace PegasusScanInvariant

open PegasusScanStep

/-- `Σ f` over a list of callbacks. -/
def total (f : CallbackPc → Nat) (l : List CallbackPc) : Nat := (l.map f).sum

section Total

variable (f : CallbackPc → Nat)

@[simp] theorem total_nil : total f [] = 0 := rfl

@[simp] theorem total_cons (a : CallbackPc) (l : List CallbackPc) :
    total f (a :: l) = f a + total f l := by
  simp [total]

@[simp] theorem total_append (l m : List CallbackPc) :
    total f (l ++ m) = total f l + total f m := by
  induction l with
  | nil => simp
  | cons x l ih => simp only [List.cons_append, total_cons, ih, Nat.add_assoc]

/-- Replacing one callback changes the sum by the difference of the two weights. -/
theorem total_set {l : List CallbackPc} {i : Nat} {a : CallbackPc} (h : l[i]? = some a)
    (b : CallbackPc) : total f (l.set i b) + f a = total f l + f b := by
  induction l generalizing i with
  | nil => simp at h
  | cons x l ih =>
    cases i with
    | zero =>
      simp only [List.getElem?_cons_zero, Option.some.injEq] at h
      subst h
      simp only [List.set_cons_zero, total_cons]
      omega
    | succ i =>
      simp only [List.getElem?_cons_succ] at h
      simp only [List.set_cons_succ, total_cons]
      have := ih h
      omega

/-- One callback's weight is part of the sum. -/
theorem le_total {l : List CallbackPc} {i : Nat} {a : CallbackPc} (h : l[i]? = some a) :
    f a ≤ total f l := by
  have := total_set f h a
  induction l generalizing i with
  | nil => simp at h
  | cons x l ih =>
    cases i with
    | zero => simp_all
    | succ i =>
      simp only [List.getElem?_cons_succ] at h
      have := ih h (total_set f h a)
      simp only [total_cons]
      omega

/-- Sums keep a pointwise bound. -/
theorem total_add_le {g k : CallbackPc → Nat} (h : ∀ x, f x + g x ≤ k x) (l : List CallbackPc) :
    total f l + total g l ≤ total k l := by
  induction l with
  | nil => rfl
  | cons x l ih => simp only [total_cons]; have := h x; omega

theorem total_mono {g : CallbackPc → Nat} (h : ∀ x, f x ≤ g x) (l : List CallbackPc) :
    total f l ≤ total g l := by
  induction l with
  | nil => rfl
  | cons x l ih => simp only [total_cons]; have := h x; omega

theorem eq_zero_of_total_eq_zero {l : List CallbackPc} (h : total f l = 0) :
    ∀ x ∈ l, f x = 0 := by
  induction l with
  | nil => simp
  | cons y l ih =>
    simp only [total_cons] at h
    simp only [List.mem_cons, forall_eq_or_imp]
    exact ⟨by omega, ih (by omega)⟩

end Total

-- ── Weights ──────────────────────────────────────────────────────────────────────────

/-- A callback that has not passed its final `split_request_count--`. -/
def live : CallbackPc → Nat
  | .done _ => 0
  | _ => 1

/-- A callback that has returned. -/
def finished : CallbackPc → Nat
  | .done _ => 1
  | _ => 0

/-- A callback that raised `split_request_count` for an operation it has not issued. -/
def reserved : CallbackPc → Nat
  | .writeIssue _ | .loop .asyncNext => 1
  | _ => 0

/-- The initial call between its increment and its `async_next`. -/
def mainReserved : Option LoopPc → Nat
  | some .asyncNext => 1
  | _ => 0

/-- What a callback contributes to `split_request_count`: its own slot and its reserve. -/
def held (pc : CallbackPc) : Nat := live pc + reserved pc

/-- An issued operation whose completion callback has not begun. -/
def pending : CallbackPc → Nat
  | .pendingNext | .pendingWrite _ => 1
  | _ => 0

/-- A callback that holds one of the `max_batch_count` slots: a pending operation, a row
    callback that will issue its write, or a loop past its check that has not issued. -/
def slot : CallbackPc → Nat
  | .pendingNext | .pendingWrite _ | .writeIncrement _ | .writeIssue _
  | .loop .increment | .loop .asyncNext => 1
  | _ => 0

/-- The initial call past its check, before its `async_next`. -/
def mainSlot : Option LoopPc → Nat
  | some .increment | some .asyncNext => 1
  | _ => 0

/-- A callback about to load `split_request_count` in its loop check. -/
def atLoadCount : CallbackPc → Nat
  | .loop .loadCount => 1
  | _ => 0

/-- A callback that won the exchange and has not printed. -/
def printing : CallbackPc → Nat
  | .print _ => 1
  | _ => 0

/-- A callback that printed and has not stored `*error_occurred`. -/
def storing : CallbackPc → Nat
  | .storeError => 1
  | _ => 0

theorem live_add_finished (pc : CallbackPc) : live pc + finished pc = 1 := by
  cases pc <;> rfl

theorem total_live_add_finished (l : List CallbackPc) :
    total live l + total finished l = l.length := by
  induction l with
  | nil => rfl
  | cons x l ih => simp only [total_cons, List.length_cons]; have := live_add_finished x; omega

theorem slot_add_atLoadCount_le_held (pc : CallbackPc) : slot pc + atLoadCount pc ≤ held pc := by
  rcases pc with _ | _ | _ | _ | _ | _ | _ | _ | _ | _ | _ | l | _ | _ <;> try (cases l)
  all_goals simp [slot, atLoadCount, held, live, reserved]

theorem pending_le_slot (pc : CallbackPc) : pending pc ≤ slot pc := by
  cases pc <;> simp [pending, slot]

theorem mainSlot_le (m : Option LoopPc) : mainSlot m ≤ mainReserved m + 1 := by
  rcases m with _ | ⟨_ | _ | _ | _ | _⟩ <;> simp [mainSlot, mainReserved]

-- ── What one step does to a sum ──────────────────────────────────────────────────────

variable {ctx : ScanDataContext} {s : ScanState}

theorem total_next_callback (ctx : ScanDataContext) (f : CallbackPc → Nat) {i : Nat} {pc : CallbackPc}
    (h : s.callbacks[i]? = some pc) :
    total f (scanDataNext ctx s (.callback i)).callbacks + f pc =
      total f s.callbacks + f (callbackNext ctx s.shared pc) + total f (callbackSpawn pc) := by
  rw [next_callback h, total_append]
  have := total_set f h (callbackNext ctx s.shared pc)
  omega

/-- The same, split at the moving callback: the others weigh `p` before and after. -/
theorem total_next_callback_split (ctx : ScanDataContext) (f : CallbackPc → Nat) {i : Nat}
    {pc : CallbackPc} (h : s.callbacks[i]? = some pc) :
    ∃ p, total f s.callbacks = p + f pc ∧ total f (scanDataNext ctx s (.callback i)).callbacks =
      p + f (callbackNext ctx s.shared pc) + total f (callbackSpawn pc) := by
  have := total_next_callback ctx f h
  have := le_total f h
  exact ⟨total f s.callbacks - f pc, by omega, by omega⟩

-- ── `split_request_count` ────────────────────────────────────────────────────────────

/-- `split_request_count` is the live callbacks plus the raised-but-unissued operations. -/
def CountInv (s : ScanState) : Prop :=
  s.shared.splitRequestCount = ((total held s.callbacks + mainReserved s.main : Nat) : Int)

theorem held_afterNext (r : NextResult) : held (afterNext ctx r) = 1 := by
  cases r with
  | row r => cases h : ctx.op <;> simp [afterNext, h, held, live, reserved]
  | scanComplete => rfl
  | error ret => rfl

theorem held_afterWrite (k : WriteKind) (r : WriteResult) : held (afterWrite ctx k r) = 1 := by
  cases r <;> rfl

/-- A callback's step moves `split_request_count` by exactly what it moves its weight. -/
theorem callback_count (ctx : ScanDataContext) (sh : Shared) (pc : CallbackPc) :
    (callbackShared ctx sh pc).splitRequestCount + held pc =
      sh.splitRequestCount + held (callbackNext ctx sh pc) + total held (callbackSpawn pc) := by
  rcases pc with _ | _ | _ | _ | _ | _ | _ | _ | _ | _ | _ | l | _ | _ <;> try (cases l)
  all_goals simp only [callbackShared, callbackNext, callbackSpawn, loopShared, loopNext,
    loopSpawn, recordStats]
  all_goals (try split_ifs) <;> simp [held, live, reserved] <;> omega

theorem main_count (ctx : ScanDataContext) (sh : Shared) (l : LoopPc) :
    (loopShared sh l).splitRequestCount + mainReserved (some l) =
      sh.splitRequestCount + mainReserved (loopNext ctx sh l) + total held (loopSpawn l) := by
  cases l <;> simp only [loopShared, loopNext, loopSpawn]
  all_goals (try split_ifs) <;> simp [mainReserved, held, live, reserved]

/-- Starting a pending callback in a state of the same weight keeps the count. -/
theorem countInv_set {i : Nat} {pc pc' : CallbackPc} (hi : s.callbacks[i]? = some pc)
    (hw : held pc' = held pc) (h : CountInv s) :
    CountInv { s with callbacks := s.callbacks.set i pc' } := by
  have := total_set held hi pc'
  unfold CountInv at *
  push_cast at *
  omega

theorem countInv_next (h : CountInv s) (a : Action) : CountInv (scanDataNext ctx s a) := by
  unfold CountInv at *
  cases a with
  | main =>
    rcases hm : s.main with _ | l
    · rw [next_main_none hm]; exact h
    · rw [next_main hm]
      have := main_count ctx s.shared l
      simp only [total_append, hm] at h ⊢
      push_cast at *
      omega
  | callback i =>
    rcases hi : s.callbacks[i]? with _ | pc
    · rw [next_callback_none hi]; exact h
    · have ht := total_next_callback ctx held hi
      have hc := callback_count ctx s.shared pc
      rw [next_callback hi] at ht ⊢
      dsimp only at ht ⊢
      push_cast at *
      omega
  | deliverNext i r =>
    rcases next_deliverNext ctx s i r with ⟨hi, he⟩ | he <;> rw [he]
    exacts [countInv_set hi (held_afterNext r) h, h]
  | deliverWrite i r =>
    rcases next_deliverWrite ctx s i r with ⟨k, hi, he⟩ | he <;> rw [he]
    exacts [countInv_set hi (held_afterWrite k r) h, h]
  | otherSplitFails => exact h

theorem countInv_init : CountInv (init ctx) := rfl

theorem countInv_of_reachable (hs : Reachable ctx s) : CountInv s := by
  induction hs with
  | init => exact countInv_init
  | step a _ ih => exact countInv_next ih a


-- ── The `max_batch_count` slots ──────────────────────────────────────────────────────

/-- At most `max(max_batch_count, 0)` slots are held. -/
def SlotInv (ctx : ScanDataContext) (s : ScanState) : Prop :=
  ((total slot s.callbacks + mainSlot s.main : Nat) : Int) ≤ max ctx.maxBatchCount 0

/-- A callback's step frees slots, or passes its loop check and takes one. -/
theorem callback_slot (ctx : ScanDataContext) (sh : Shared) (pc : CallbackPc) :
    slot (callbackNext ctx sh pc) + total slot (callbackSpawn pc) ≤ slot pc ∨
    (pc = .loop .loadCount ∧ sh.splitRequestCount < ctx.maxBatchCount ∧
      slot (callbackNext ctx sh pc) + total slot (callbackSpawn pc) = slot pc + 1) := by
  rcases pc with _ | _ | _ | _ | _ | _ | _ | _ | _ | _ | _ | l | _ | _ <;> try (cases l)
  all_goals simp only [callbackNext, callbackSpawn, loopNext, loopSpawn]
  all_goals (try split_ifs) <;> simp_all [slot]

theorem main_slot (ctx : ScanDataContext) (sh : Shared) (l : LoopPc) :
    mainSlot (loopNext ctx sh l) + total slot (loopSpawn l) ≤ mainSlot (some l) ∨
    (l = .loadCount ∧ sh.splitRequestCount < ctx.maxBatchCount ∧
      mainSlot (loopNext ctx sh l) + total slot (loopSpawn l) = mainSlot (some l) + 1) := by
  cases l <;> simp only [loopNext, loopSpawn]
  all_goals (try split_ifs) <;> simp_all [mainSlot, slot]

theorem slot_afterNext (ctx : ScanDataContext) (r : NextResult) : slot (afterNext ctx r) ≤ slot .pendingNext := by
  cases r with
  | row r => cases h : ctx.op <;> simp [afterNext, h, slot]
  | scanComplete => simp [afterNext, slot]
  | error ret => simp [afterNext, slot]

theorem slot_afterWrite (ctx : ScanDataContext) (k : WriteKind) (r : WriteResult) :
    slot (afterWrite ctx k r) ≤ slot (.pendingWrite k) := by
  cases r <;> simp [afterWrite, slot]

/-- Every slot but a checking loop's own is already in `split_request_count`. -/
theorem slots_le_count (hc : CountInv s) (hchk : s.main = some .loadCount ∨
      ∃ i : Nat, s.callbacks[i]? = some (CallbackPc.loop .loadCount)) :
    ((total slot s.callbacks + mainSlot s.main : Nat) : Int) ≤ s.shared.splitRequestCount := by
  have hsum := total_add_le slot slot_add_atLoadCount_le_held s.callbacks
  rw [hc]
  rcases hchk with hm | ⟨i, hi⟩
  · simp only [hm, mainSlot, mainReserved]
    omega
  · have h1 := le_total atLoadCount hi
    have h2 := mainSlot_le s.main
    simp only [atLoadCount] at h1
    omega

/-- Starting a pending callback in a state that holds no more slots keeps the bound. -/
theorem slotInv_set {i : Nat} {pc pc' : CallbackPc} (hi : s.callbacks[i]? = some pc)
    (hw : slot pc' ≤ slot pc) (h : SlotInv ctx s) :
    SlotInv ctx { s with callbacks := s.callbacks.set i pc' } := by
  have := total_set slot hi pc'
  unfold SlotInv at *
  push_cast at *
  omega

theorem slotInv_next (hc : CountInv s) (h : SlotInv ctx s) (a : Action) :
    SlotInv ctx (scanDataNext ctx s a) := by
  unfold SlotInv at *
  cases a with
  | main =>
    rcases hm : s.main with _ | l
    · rw [next_main_none hm]; exact h
    · rw [next_main hm]
      simp only [total_append, hm] at h ⊢
      rcases main_slot ctx s.shared l with hle | ⟨rfl, hlt, heq⟩
      · push_cast at *; omega
      · have := slots_le_count hc (.inl hm)
        rw [hm] at this
        push_cast at *; omega
  | callback i =>
    rcases hi : s.callbacks[i]? with _ | pc
    · rw [next_callback_none hi]; exact h
    · have ht := total_next_callback ctx slot hi
      rw [next_callback hi] at ht ⊢
      dsimp only at ht ⊢
      rcases callback_slot ctx s.shared pc with hle | ⟨rfl, hlt, heq⟩
      · push_cast at *; omega
      · have := slots_le_count hc (.inr ⟨i, hi⟩)
        push_cast at *; omega
  | deliverNext i r =>
    rcases next_deliverNext ctx s i r with ⟨hi, he⟩ | he <;> rw [he]
    exacts [slotInv_set hi (slot_afterNext ctx r) h, h]
  | deliverWrite i r =>
    rcases next_deliverWrite ctx s i r with ⟨k, hi, he⟩ | he <;> rw [he]
    exacts [slotInv_set hi (slot_afterWrite ctx k r) h, h]
  | otherSplitFails => exact h

theorem slotInv_of_reachable (hs : Reachable ctx s) : CountInv s ∧ SlotInv ctx s := by
  induction hs with
  | init => exact ⟨countInv_init, by simp [SlotInv, init, mainSlot]⟩
  | step a _ ih => exact ⟨countInv_next ih.1 a, slotInv_next ih.1 ih.2 a⟩


-- ── The failure reports ──────────────────────────────────────────────────────────────

/-- The exchange's bookkeeping, given `p` callbacks about to print and `st` about to store:
    at most one failure wins, a winner has set `split_completed`, and each print is
    followed by its own store. -/
structure Reports (p st : Nat) (sh : Shared) : Prop where
  winners_le : p + sh.stderr.length ≤ 1
  completed : 0 < p + sh.stderr.length → sh.splitCompleted = true
  stores : st + sh.errorStores = sh.stderr.length

/-- `Reports` over the split's callbacks. -/
def ReportInv (s : ScanState) : Prop :=
  Reports (total printing s.callbacks) (total storing s.callbacks) s.shared

theorem callback_reports (ctx : ScanDataContext) (sh : Shared) (pc : CallbackPc) (p st : Nat)
    (h : Reports (p + printing pc) (st + storing pc) sh) :
    Reports (p + printing (callbackNext ctx sh pc) + total printing (callbackSpawn pc))
      (st + storing (callbackNext ctx sh pc) + total storing (callbackSpawn pc))
      (callbackShared ctx sh pc) := by
  obtain ⟨h1, h2, h3⟩ := h
  cases pc with
  | exchange msg =>
    simp only [callbackShared, callbackNext, callbackSpawn, printing, storing, total_nil,
      Nat.add_zero] at *
    split_ifs with hc
    · exact ⟨h1, fun _ => rfl, h3⟩
    · -- the first winner: no print has happened and nobody else is about to print
      have h0 : p + sh.stderr.length = 0 := by
        by_contra hne
        exact hc (h2 (by omega))
      refine ⟨?_, fun _ => rfl, h3⟩
      simp only [printing]
      omega
  | loop l =>
    cases l <;> simp only [callbackShared, callbackNext, callbackSpawn, loopShared, loopNext,
      loopSpawn] at *
    all_goals (try split_ifs) <;> refine ⟨?_, fun h => ?_, ?_⟩
    all_goals simp only [printing, storing, total_cons, total_nil] at *
    all_goals first | omega | exact h2 (by omega)
  | _ =>
    simp only [callbackShared, callbackNext, callbackSpawn, recordStats] at *
    all_goals (try split_ifs) <;> refine ⟨?_, fun h => ?_, ?_⟩
    all_goals simp only [printing, storing, total_cons, total_nil, List.length_append,
      List.length_singleton] at *
    all_goals first | omega | rfl | exact h2 (by omega)

theorem main_reports (sh : Shared) (l : LoopPc) {p st : Nat} (h : Reports p st sh) :
    Reports (p + total printing (loopSpawn l)) (st + total storing (loopSpawn l))
      (loopShared sh l) := by
  obtain ⟨h1, h2, h3⟩ := h
  cases l <;> exact ⟨by simpa [loopSpawn, printing] using h1,
    by simpa [loopShared, loopSpawn, printing] using h2, by simpa [loopSpawn, storing] using h3⟩

/-- A callback a delivery starts has not printed and is not about to store. -/
theorem afterNext_quiet (ctx : ScanDataContext) (r : NextResult) :
    printing (afterNext ctx r) = 0 ∧ storing (afterNext ctx r) = 0 := by
  cases r with
  | row r => cases hop : ctx.op <;> simp [afterNext, hop, printing, storing]
  | _ => exact ⟨rfl, rfl⟩

theorem afterWrite_quiet (ctx : ScanDataContext) (k : WriteKind) (r : WriteResult) :
    printing (afterWrite ctx k r) = 0 ∧ storing (afterWrite ctx k r) = 0 := by
  cases r <;> exact ⟨rfl, rfl⟩

/-- Replacing a callback that neither prints nor stores by another such keeps the reports. -/
theorem reportInv_set {i : Nat} {pc pc' : CallbackPc} (hi : s.callbacks[i]? = some pc)
    (hpc : printing pc = 0 ∧ storing pc = 0) (hpc' : printing pc' = 0 ∧ storing pc' = 0)
    (h : ReportInv s) : ReportInv { s with callbacks := s.callbacks.set i pc' } := by
  have hp := total_set printing hi pc'
  have hs := total_set storing hi pc'
  obtain ⟨h1, h2⟩ := hpc
  obtain ⟨h3, h4⟩ := hpc'
  unfold ReportInv at *
  rwa [show total printing (s.callbacks.set i pc') = total printing s.callbacks by omega,
    show total storing (s.callbacks.set i pc') = total storing s.callbacks by omega]

theorem reportInv_next (h : ReportInv s) (a : Action) : ReportInv (scanDataNext ctx s a) := by
  unfold ReportInv at *
  cases a with
  | main =>
    rcases hm : s.main with _ | l
    · rw [next_main_none hm]; exact h
    · rw [next_main hm]
      simpa only [total_append] using main_reports s.shared l h
  | callback i =>
    rcases hi : s.callbacks[i]? with _ | pc
    · rw [next_callback_none hi]; exact h
    · obtain ⟨p, hp0, hp1⟩ := total_next_callback_split ctx printing hi
      obtain ⟨st, hs0, hs1⟩ := total_next_callback_split ctx storing hi
      rw [hp0, hs0] at h
      rw [hp1, hs1, next_callback hi]
      exact callback_reports ctx s.shared pc p st h
  | deliverNext i r =>
    rcases next_deliverNext ctx s i r with ⟨hi, he⟩ | he <;> rw [he]
    exacts [reportInv_set hi ⟨rfl, rfl⟩ (afterNext_quiet ctx r) h, h]
  | deliverWrite i r =>
    rcases next_deliverWrite ctx s i r with ⟨k, hi, he⟩ | he <;> rw [he]
    exacts [reportInv_set hi ⟨rfl, rfl⟩ (afterWrite_quiet ctx k r) h, h]
  | otherSplitFails => exact ⟨h.1, h.2, h.3⟩

theorem reportInv_of_reachable (hs : Reachable ctx s) : ReportInv s := by
  induction hs with
  | init => exact ⟨by simp [init], by simp [init], by simp [init]⟩
  | step a _ ih => exact reportInv_next ih a

-- ── `split_completed` only rises ─────────────────────────────────────────────────────

theorem callbackShared_splitCompleted {sh : Shared} (h : sh.splitCompleted = true)
    (pc : CallbackPc) : (callbackShared ctx sh pc).splitCompleted = true := by
  rcases pc with _ | _ | _ | _ | _ | _ | _ | _ | _ | _ | _ | l | _ | _ <;> try (cases l)
  all_goals simp [callbackShared, loopShared, recordStats, h]

theorem splitCompleted_next (h : s.shared.splitCompleted = true) (a : Action) :
    (scanDataNext ctx s a).shared.splitCompleted = true := by
  cases a with
  | main =>
    rcases hm : s.main with _ | l
    · rwa [next_main_none hm]
    · rw [next_main hm]; cases l <;> exact h
  | callback i =>
    rcases hi : s.callbacks[i]? with _ | pc
    · rwa [next_callback_none hi]
    · rw [next_callback hi]; exact callbackShared_splitCompleted h pc
  | deliverNext i r => rcases next_deliverNext ctx s i r with ⟨-, he⟩ | he <;> rwa [he]
  | deliverWrite i r => rcases next_deliverWrite ctx s i r with ⟨_, _, he⟩ | he <;> rwa [he]
  | otherSplitFails => exact h

theorem splitCompleted_run (h : s.shared.splitCompleted = true) (as : List Action) :
    (run ctx s as).shared.splitCompleted = true := by
  induction as generalizing s with
  | nil => exact h
  | cons a as ih => exact ih (splitCompleted_next h a)

-- ── Headline statements ──────────────────────────────────────────────────────────────

/-- A SCAN_COPY split with `max_batch_count = 2`, the setting of the concrete runs. -/
def copyContext : ScanDataContext where
  op := .scanCopy
  splitId := 0
  maxBatchCount := 2
  statSize := false
  topCount := 0
  getErrorString := fun _ => "ERR_TIMEOUT"

/-- The initial call fills both slots and returns: two `async_next` callbacks pending. -/
def fillTwo : List Action := List.replicate 13 .main

/-- The split after `fillTwo`. -/
def afterFill : ScanState := run copyContext (init copyContext) fillTwo

theorem total_held (l : List CallbackPc) : total held l = total live l + total reserved l := by
  induction l with
  | nil => rfl
  | cons x l ih => simp only [total_cons, ih, held]; omega

theorem eq_done_of_held_eq_zero {pc : CallbackPc} (h : held pc = 0) : ∃ f, pc = .done f := by
  cases pc <;> simp_all [held, live, reserved]

/-- **`split_request_count` ACCOUNTING.**  In every reachable state the count is the
    operations issued, less the callbacks past their final decrement, plus the operations
    counted and not yet issued; so it is never negative, and at zero every issued callback
    has returned and no thread is about to issue. -/
theorem split_request_count_balance (hs : Reachable ctx s) :
    s.shared.splitRequestCount =
        (s.callbacks.length : Int) - total finished s.callbacks +
          (total reserved s.callbacks + mainReserved s.main : Nat) ∧
      0 ≤ s.shared.splitRequestCount ∧
      (s.shared.splitRequestCount = 0 →
        (∀ pc ∈ s.callbacks, ∃ f, pc = .done f) ∧ mainReserved s.main = 0) := by
  have hc : CountInv s := countInv_of_reachable hs
  have hl := total_live_add_finished s.callbacks
  have hh := total_held s.callbacks
  unfold CountInv at hc
  refine ⟨by omega, by omega, fun h0 => ⟨?_, by omega⟩⟩
  exact fun pc hpc => eq_done_of_held_eq_zero (eq_zero_of_total_eq_zero held (by omega) pc hpc)

theorem split_request_count_balance_after_fill :
    Reachable copyContext afterFill ∧
      (afterFill.shared.splitRequestCount =
          (afterFill.callbacks.length : Int) - total finished afterFill.callbacks +
            (total reserved afterFill.callbacks + mainReserved afterFill.main : Nat) ∧
        0 ≤ afterFill.shared.splitRequestCount ∧
        (afterFill.shared.splitRequestCount = 0 →
          (∀ pc ∈ afterFill.callbacks, ∃ f, pc = .done f) ∧ mainReserved afterFill.main = 0)) :=
  let h := reachable_run copyContext .init fillTwo
  ⟨h, split_request_count_balance h⟩

/-- The split right after the initial call's first `split_request_count++`, before its
    `async_next`. -/
def afterFirstIncrement : ScanState := run copyContext (init copyContext) (List.replicate 4 .main)

/-- There the count is 1 and nothing has been issued. -/
theorem split_request_count_ahead_of_issue :
    Reachable copyContext afterFirstIncrement ∧
      afterFirstIncrement.shared.splitRequestCount ≠
        (afterFirstIncrement.callbacks.length : Int) - total finished afterFirstIncrement.callbacks :=
  ⟨reachable_run copyContext .init _, by decide⟩

/-- **IN-FLIGHT BOUND.**  The operations issued whose callbacks have not begun never exceed
    `max_batch_count` (nor 0, when it is negative), in every interleaving. -/
theorem pending_le_max_batch_count (hs : Reachable ctx s) :
    (total pending s.callbacks : Int) ≤ max ctx.maxBatchCount 0 := by
  have h := (slotInv_of_reachable hs).2
  have := total_mono pending pending_le_slot s.callbacks
  unfold SlotInv at h
  push_cast at h
  omega

theorem pending_le_max_batch_count_after_fill :
    Reachable copyContext afterFill ∧
      (total pending afterFill.callbacks : Int) ≤ max copyContext.maxBatchCount 0 :=
  let h := reachable_run copyContext .init fillTwo
  ⟨h, pending_le_max_batch_count h⟩

/-- The same split with `max_batch_count = -1`. -/
def negativeBatchContext : ScanDataContext := { copyContext with maxBatchCount := -1 }

/-- With a negative `max_batch_count` no bound below zero holds: the fresh split has no
    pending operation, and `0 > -1`. -/
theorem pending_exceeds_negative_max_batch_count :
    Reachable negativeBatchContext (init negativeBatchContext) ∧
      ¬ (total pending (init negativeBatchContext).callbacks : Int) ≤
        negativeBatchContext.maxBatchCount :=
  ⟨.init, by decide⟩

/-- **ONE REPORT PER SPLIT.**  A split prints at most one diagnostic; its stores to
    `*error_occurred` are exactly the prints already followed by their store; and
    `split_completed`, once set, stays set along every continuation. -/
theorem split_reports_at_most_once (hs : Reachable ctx s) :
    s.shared.stderr.length ≤ 1 ∧
      s.shared.errorStores + total storing s.callbacks = s.shared.stderr.length ∧
      ∀ as, s.shared.splitCompleted = true → (run ctx s as).shared.splitCompleted = true := by
  obtain ⟨h1, -, h3⟩ := reportInv_of_reachable hs
  exact ⟨by omega, by omega, fun as h => splitCompleted_run h as⟩

/-- Both fetches fail: the first wins the exchange and prints, the second finds
    `split_completed` set. -/
def afterTwoFailures : ScanState :=
  run copyContext (init copyContext) (fillTwo ++
    [.deliverNext 0 (.error (-1)), .callback 0, .callback 0, .deliverNext 1 (.error (-1)),
      .callback 1])

theorem split_reports_at_most_once_two_failures :
    Reachable copyContext afterTwoFailures ∧
      (afterTwoFailures.shared.stderr.length ≤ 1 ∧
        afterTwoFailures.shared.errorStores + total storing afterTwoFailures.callbacks =
          afterTwoFailures.shared.stderr.length ∧
        ∀ as, afterTwoFailures.shared.splitCompleted = true →
          (run copyContext afterTwoFailures as).shared.splitCompleted = true) :=
  let h := reachable_run copyContext .init _
  ⟨h, split_reports_at_most_once h⟩

-- ── A failure the shared exchange swallows ───────────────────────────────────────────

/-- The row the concrete schedules scan. -/
def sampleRow : Row := ⟨"h", "s", "v"⟩

/-- Callback 0 gets a row and issues its `async_set` (callback 2); callback 1 gets
    PERR_SCAN_COMPLETE; then the write fails. -/
def writeFailsAfterComplete : List Action :=
  fillTwo ++
    [.deliverNext 0 (.row sampleRow), .callback 0, .callback 0, .callback 0,
      .deliverNext 1 .scanComplete, .callback 1, .callback 1,
      .deliverWrite 2 (.error (-1)), .callback 2, .callback 2]

/-- The split after `writeFailsAfterComplete`. -/
def swallowedFailure : ScanState := run copyContext (init copyContext) writeFailsAfterComplete

/-- **A SWALLOWED FAILURE.**  The run drains, a write callback returned with a failure, and
    the split reports nothing. -/
theorem write_failure_swallowed_after_scan_complete :
    Reachable copyContext swallowedFailure ∧ Quiescent swallowedFailure ∧
      CallbackPc.done true ∈ swallowedFailure.callbacks ∧
      swallowedFailure.shared.errorOccurred = false ∧ swallowedFailure.shared.stderr = [] := by
  refine ⟨reachable_run copyContext .init _, ⟨rfl, ?_⟩, by decide, rfl, rfl⟩
  simp only [show swallowedFailure.callbacks = [.done false, .done false, .done true] from rfl]
  decide

end PegasusScanInvariant
