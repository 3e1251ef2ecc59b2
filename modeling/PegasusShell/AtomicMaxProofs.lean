import Mathlib

/-! # `update_atomic_max` — a compare-exchange loop that implements an atomic max

    `update_atomic_max(max, value)` loops: load `max` into `old`; stop if `value <= old`,
    else stop if `max.compare_exchange_weak(old, value)` succeeds.  Any number of calls run
    at once on one `std::atomic_long`, and a weak compare-exchange may fail even when the
    value matched.  This file runs the calls as threads and proves that the loop implements
    the atomic operation `m := max m value`:

    * `AtomicMaxState`, `next` — every call at its next atomic access (`CallPc`), one
      `Action` per scheduling decision, the spurious failures chosen by the scheduler;
      `Reachable` is what some interleaving reaches;
    * `AtomicMax` — the object the loop is meant to be: a call takes effect once, at one
      instant (`AtomicMax.apply`), and the object then holds `raised`, the initial value
      raised by the calls that took effect;
    * `abstr_next` — **every step of the loop is a stutter of the object or the moving
      call's linearization point**: the successful compare-exchange, or the load of an `old`
      at least the call's value, after which the call returns without writing;
    * `max_eq_raised` — so every reachable state holds exactly what the object holds;
    * `update_atomic_max_linearizable` — hence `max` never decreases, always holds the
      initial value or some call's value, is at least the value of every returned call, and
      once all calls have returned is `max(initial, v₁, …, vₖ)`;
    * `update_atomic_max_sequential` — every reachable state is the object after the calls
      that took effect, each applied once, in the order of their linearization points;
    * `run_solo_returns` — run alone, a call returns within three steps, whatever it holds,
      so from every state running the calls one at a time returns them all
      (`update_atomic_max_obstruction_free`);
    * `update_atomic_max_wait_free` — with no spurious failure, every call returns within
      `2k` of its own steps, `k` the number of calls, under any interleaving;
    * `update_atomic_max_spurious_cost` — and with them, within two more of its own steps
      per spurious failure of its own compare-exchange: the other calls' spurious failures
      never delay it.  Both rest on one potential (`countP_add_potential_le`) that the
      other calls' steps never raise and the call's own steps lower. -/

namespace PegasusAtomicMax

/-- Where a call of `update_atomic_max` stands. -/
inductive CallPc
  /-- At the loop's head: `long old = max.load()`. -/
  | atLoad
  /-- Holding `old`: `value <= old || max.compare_exchange_weak(old, value)`. -/
  | atCompareExchange (old : Int)
  /-- Out of the loop. -/
  | returned
  deriving DecidableEq, Repr

/-- One call: its `value`, and where it stands. -/
structure Call where
  value : Int
  pc : CallPc
  deriving DecidableEq, Repr

/-- The shared `std::atomic_long` and the calls running on it, in the order they started. -/
structure AtomicMaxState where
  max : Int
  calls : List Call
  deriving DecidableEq, Repr

/-- A scheduling decision: call `call` takes its next atomic step, and a
    `compare_exchange_weak` it makes fails spuriously when `spurious` is set. -/
structure Action where
  call : Nat
  spurious : Bool
  deriving DecidableEq, Repr

/-- One atomic step of a call of `update_atomic_max` on `max = m`: the new value of `max`,
    and where the call stands after it.  The test `value <= old` reads only the call's
    locals, so it is taken in the same step as the compare-exchange it guards; a failed
    compare-exchange loads `max` into `old`, which the loop's head overwrites. -/
def updateAtomicMaxStep (m : Int) (c : Call) (spurious : Bool) : Int × CallPc :=
  match c.pc with
  | .atLoad => (m, .atCompareExchange m)
  | .atCompareExchange old =>
    if c.value ≤ old then (m, .returned)
    else if m = old ∧ spurious = false then (c.value, .returned)
    else (m, .atLoad)
  | .returned => (m, .returned)

/-- The step of the call an action names; an action that names no call changes nothing. -/
def next (s : AtomicMaxState) (a : Action) : AtomicMaxState :=
  match s.calls[a.call]? with
  | none => s
  | some c =>
    let r := updateAtomicMaxStep s.max c a.spurious
    ⟨r.1, s.calls.set a.call ⟨c.value, r.2⟩⟩

/-- The calls `update_atomic_max(max, vᵢ)`, none started yet, on `max = init`. -/
def start (init : Int) (values : List Int) : AtomicMaxState :=
  ⟨init, values.map fun v => ⟨v, .atLoad⟩⟩

/-- A schedule, run from `s`. -/
def run (s : AtomicMaxState) (as : List Action) : AtomicMaxState := as.foldl next s

/-- The states some interleaving of the calls reaches. -/
inductive Reachable (init : Int) (values : List Int) : AtomicMaxState → Prop
  | start : Reachable init values (start init values)
  | step {s : AtomicMaxState} (a : Action) :
      Reachable init values s → Reachable init values (next s a)

theorem reachable_run {init : Int} {values : List Int} {s : AtomicMaxState}
    (hs : Reachable init values s) (as : List Action) : Reachable init values (run s as) := by
  induction as generalizing s with
  | nil => exact hs
  | cons a as ih => exact ih (.step a hs)

theorem run_append (s : AtomicMaxState) (as bs : List Action) :
    run s (as ++ bs) = run (run s as) bs :=
  List.foldl_append _ _ _ _

/-- A step of a call that is there. -/
theorem next_of_getElem? {s : AtomicMaxState} {i : Nat} {c : Call} (h : s.calls[i]? = some c)
    (spurious : Bool) :
    next s ⟨i, spurious⟩ = ⟨(updateAtomicMaxStep s.max c spurious).1,
      s.calls.set i ⟨c.value, (updateAtomicMaxStep s.max c spurious).2⟩⟩ := by
  simp only [next, h]

theorem next_of_getElem?_none {s : AtomicMaxState} {a : Action} (h : s.calls[a.call]? = none) :
    next s a = s := by
  simp only [next, h]

/-- Writing an element back in its place changes nothing. -/
theorem set_self_of_getElem? {α : Type} {l : List α} {i : Nat} {x : α} (h : l[i]? = some x) :
    l.set i x = l := by
  refine List.ext_getElem? fun j => ?_
  rw [List.getElem?_set]
  split_ifs with hij hi
  · rw [← hij, h]
  · exact absurd (List.getElem?_eq_some_iff.mp h).1 hi
  · rfl

-- ── The object it implements ─────────────────────────────────────────────────────────

/-- A call of the atomic max: its value, and whether it has taken effect. -/
structure Op where
  value : Int
  applied : Bool
  deriving DecidableEq, Repr

/-- The atomic max: its value, and its calls. -/
structure AtomicMax where
  value : Int
  ops : List Op
  deriving DecidableEq, Repr

/-- Call `i` takes effect, at one instant: `m := max m vᵢ`.  A call takes effect once. -/
def AtomicMax.apply (o : AtomicMax) (i : Nat) : AtomicMax :=
  match o.ops[i]? with
  | some op => if op.applied then o else ⟨max o.value op.value, o.ops.set i ⟨op.value, true⟩⟩
  | none => o

/-- The initial value, raised by every call that took effect. -/
def raised (init : Int) (ops : List Op) : Int :=
  ops.foldr (fun op m => if op.applied then max op.value m else m) init

/-- What the object holds is the initial value raised by the calls that took effect. -/
def AtomicMax.Holds (init : Int) (o : AtomicMax) : Prop := o.value = raised init o.ops

@[simp] theorem raised_nil (init : Int) : raised init [] = init := rfl

@[simp] theorem raised_cons (init : Int) (op : Op) (ops : List Op) :
    raised init (op :: ops) = if op.applied then max op.value (raised init ops) else raised init ops :=
  rfl

theorem raised_of_unapplied (init : Int) {ops : List Op} (h : ∀ op ∈ ops, op.applied = false) :
    raised init ops = init := by
  induction ops with
  | nil => rfl
  | cons op ops ih =>
    rw [raised_cons, if_neg (by simp [h op (List.mem_cons_self _ _)])]
    exact ih fun o ho => h o (List.mem_cons_of_mem _ ho)

/-- A call that takes effect raises the value to at least its own. -/
theorem raised_set_applied (init : Int) {ops : List Op} {i : Nat} {op : Op}
    (h : ops[i]? = some op) (hop : op.applied = false) :
    raised init (ops.set i ⟨op.value, true⟩) = max (raised init ops) op.value := by
  induction ops generalizing i with
  | nil => simp at h
  | cons o ops ih =>
    cases i with
    | zero =>
      obtain rfl : o = op := by simpa using h
      simp only [List.set_cons_zero, raised_cons, hop, if_true, Bool.false_eq_true, if_false]
      omega
    | succ i =>
      simp only [List.getElem?_cons_succ] at h
      simp only [List.set_cons_succ, raised_cons, ih h]
      split_ifs <;> omega

theorem le_raised (init : Int) {ops : List Op} {op : Op} (hop : op ∈ ops)
    (happ : op.applied = true) : op.value ≤ raised init ops := by
  induction ops with
  | nil => simp at hop
  | cons o ops ih =>
    rw [raised_cons]
    rcases List.mem_cons.mp hop with rfl | hop
    · rw [if_pos happ]; omega
    · have := ih hop
      split_ifs <;> omega

theorem raised_mem (init : Int) (ops : List Op) :
    raised init ops = init ∨ ∃ op ∈ ops, raised init ops = op.value := by
  induction ops with
  | nil => exact .inl rfl
  | cons op ops ih =>
    have lift : raised init ops = init ∨ ∃ o ∈ op :: ops, raised init ops = o.value :=
      ih.imp_right fun ⟨o, ho, h'⟩ => ⟨o, List.mem_cons_of_mem op ho, h'⟩
    rw [raised_cons]
    split_ifs
    · rcases max_choice op.value (raised init ops) with h | h <;> rw [h]
      exacts [.inr ⟨op, List.mem_cons_self _ _, rfl⟩, lift]
    · exact lift

theorem raised_of_applied (init : Int) {ops : List Op} (h : ∀ op ∈ ops, op.applied = true) :
    raised init ops = (ops.map (·.value)).foldr max init := by
  induction ops with
  | nil => rfl
  | cons op ops ih =>
    rw [raised_cons, if_pos (h op (List.mem_cons_self _ _)), List.map_cons, List.foldr_cons,
      ih fun o ho => h o (List.mem_cons_of_mem _ ho)]

/-- **THE OBJECT'S OWN INVARIANT.**  Applying a call keeps the value equal to the initial
    value raised by the calls that took effect. -/
theorem AtomicMax.Holds.apply {init : Int} {o : AtomicMax} (h : o.Holds init) (i : Nat) :
    (o.apply i).Holds init := by
  rcases hi : o.ops[i]? with _ | op
  · simpa only [AtomicMax.apply, hi] using h
  · cases hop : op.applied
    · simp only [AtomicMax.apply, hi, hop, Bool.false_eq_true, if_false, AtomicMax.Holds,
        raised_set_applied init hi hop]
      exact congrArg (max · op.value) h
    · simpa only [AtomicMax.apply, hi, hop, if_true] using h

-- ── The loop refines the object ──────────────────────────────────────────────────────

/-- Whether a call has taken effect: it returned, or it holds an `old` at least its value,
    which makes it return at its next step without writing. -/
def tookEffect (c : Call) : Bool :=
  match c.pc with
  | .atLoad => false
  | .atCompareExchange old => decide (c.value ≤ old)
  | .returned => true

/-- A call, seen as a call of the object. -/
def opOf (c : Call) : Op := ⟨c.value, tookEffect c⟩

/-- The object a state of the loop stands for. -/
def abstr (s : AtomicMaxState) : AtomicMax := ⟨s.max, s.calls.map opOf⟩

/-- **ONE STEP OF ONE CALL.**  A step leaves `max` and whether the call took effect alone,
    or it is the call's linearization point: the call had not taken effect, now has, and
    `max` becomes `max m value`. -/
theorem updateAtomicMaxStep_effect (m : Int) (c : Call) (spurious : Bool) :
    ((updateAtomicMaxStep m c spurious).1 = m ∧
        tookEffect ⟨c.value, (updateAtomicMaxStep m c spurious).2⟩ = tookEffect c) ∨
      (tookEffect c = false ∧ tookEffect ⟨c.value, (updateAtomicMaxStep m c spurious).2⟩ = true ∧
        (updateAtomicMaxStep m c spurious).1 = max m c.value) := by
  rcases c with ⟨v, _ | old | _⟩
  · -- the load: it is the linearization point when it reads a value at least `v`
    by_cases h : v ≤ m
    · exact .inr ⟨rfl, by simp [updateAtomicMaxStep, tookEffect, h], (max_eq_left h).symm⟩
    · exact .inl ⟨rfl, by simp [updateAtomicMaxStep, tookEffect, h]⟩
  · by_cases h : v ≤ old
    · exact .inl (by simp [updateAtomicMaxStep, tookEffect, h])
    · -- the compare-exchange: the linearization point when it succeeds
      by_cases hcas : m = old ∧ spurious = false
      · refine .inr ⟨by simp [tookEffect, h], by simp [updateAtomicMaxStep, tookEffect, h, hcas], ?_⟩
        simp only [updateAtomicMaxStep, if_neg h, if_pos hcas]
        omega
      · exact .inl (by simp [updateAtomicMaxStep, tookEffect, h, hcas])
  · exact .inl ⟨rfl, rfl⟩

/-- **EVERY STEP IS A STUTTER OR A LINEARIZATION POINT.**  Seen as the object, a step of the
    loop changes nothing, or is the moving call taking effect. -/
theorem abstr_next (s : AtomicMaxState) (a : Action) :
    abstr (next s a) = abstr s ∨ abstr (next s a) = (abstr s).apply a.call := by
  rcases hc : s.calls[a.call]? with _ | c
  · exact .inl (by rw [next_of_getElem?_none hc])
  · have hi : (abstr s).ops[a.call]? = some (opOf c) := by simp [abstr, hc]
    have hnext : abstr (next s a) = ⟨(updateAtomicMaxStep s.max c a.spurious).1,
        (abstr s).ops.set a.call (opOf ⟨c.value, (updateAtomicMaxStep s.max c a.spurious).2⟩)⟩ := by
      rw [next_of_getElem? hc a.spurious]; simp only [abstr, List.map_set]
    rw [hnext]
    rcases updateAtomicMaxStep_effect s.max c a.spurious with ⟨hm, he⟩ | ⟨h0, h1, hm⟩
    · left
      have hop : opOf ⟨c.value, (updateAtomicMaxStep s.max c a.spurious).2⟩ = opOf c := by
        simp only [opOf, he]
      rw [hm, hop, set_self_of_getElem? hi]
      rfl
    · right
      simp only [AtomicMax.apply, hi, opOf, h0, h1, hm, Bool.false_eq_true, if_false]
      rfl

/-- **THE LOOP HOLDS WHAT THE OBJECT HOLDS.**  In every reachable state, `max` is the
    initial value raised by the calls that took effect. -/
theorem max_eq_raised {init : Int} {values : List Int} {s : AtomicMaxState}
    (hs : Reachable init values s) : (abstr s).Holds init := by
  induction hs with
  | start =>
    show init = raised init _
    rw [raised_of_unapplied init (by simp [abstr, start, opOf, tookEffect])]
  | step a _ ih =>
    rcases abstr_next _ a with h | h <;> rw [h]
    exacts [ih, ih.apply a.call]

/-- A step never lowers `max`. -/
theorem max_le_next (s : AtomicMaxState) (a : Action) : s.max ≤ (next s a).max := by
  rcases abstr_next s a with h | h
  · exact le_of_eq (congrArg AtomicMax.value h).symm
  · have hv : (next s a).max = ((abstr s).apply a.call).value := congrArg AtomicMax.value h
    rw [hv, AtomicMax.apply]
    split
    · split_ifs <;> simp [abstr]
    · exact le_rfl

theorem max_le_run (s : AtomicMaxState) (as : List Action) : s.max ≤ (run s as).max := by
  induction as generalizing s with
  | nil => exact le_rfl
  | cons a as ih => exact (max_le_next s a).trans (ih (next s a))

/-- The calls keep their values. -/
theorem values_next (s : AtomicMaxState) (a : Action) :
    (next s a).calls.map (·.value) = s.calls.map (·.value) := by
  rcases hc : s.calls[a.call]? with _ | c
  · rw [next_of_getElem?_none hc]
  · rw [next_of_getElem? hc a.spurious, List.map_set]
    exact set_self_of_getElem? (by simp [hc])

theorem values_of_reachable {init : Int} {values : List Int} {s : AtomicMaxState}
    (hs : Reachable init values s) : s.calls.map (·.value) = values := by
  induction hs with
  | start => simp [start, Function.comp_def]
  | step a _ ih => rw [values_next, ih]

/-- **`update_atomic_max` IS AN ATOMIC MAX.**  In every state any interleaving of the calls
    reaches, spurious compare-exchange failures included: `max` never decreases from there
    on, holds the initial value or one of the calls' values, is at least the value of every
    call that returned, and once every call has returned it is the maximum of the initial
    value and all the calls' values. -/
theorem update_atomic_max_linearizable {init : Int} {values : List Int} {s : AtomicMaxState}
    (hs : Reachable init values s) :
    (∀ as, s.max ≤ (run s as).max) ∧
      (s.max = init ∨ s.max ∈ values) ∧
      (∀ c ∈ s.calls, c.pc = .returned → c.value ≤ s.max) ∧
      ((∀ c ∈ s.calls, c.pc = .returned) → s.max = values.foldr max init) := by
  have hr : s.max = raised init (s.calls.map opOf) := max_eq_raised hs
  have hv := values_of_reachable hs
  refine ⟨max_le_run s, ?_, fun c hc hret => ?_, fun hall => ?_⟩
  · rcases raised_mem init (s.calls.map opOf) with h | ⟨op, hop, h⟩
    · exact .inl (hr.trans h)
    · obtain ⟨c, hc, rfl⟩ := List.mem_map.mp hop
      exact .inr (hv ▸ List.mem_map.mpr ⟨c, hc, (hr.trans h).symm⟩)
  · rw [hr]
    exact le_raised init (List.mem_map_of_mem opOf hc) (by simp [opOf, tookEffect, hret])
  · rw [hr, raised_of_applied init, List.map_map]
    · exact congrArg (List.foldr max init) hv
    · intro op hop
      obtain ⟨c, hc, rfl⟩ := List.mem_map.mp hop
      simp [opOf, tookEffect, hall c hc]

/-- Two calls, `5` and `3`, on `max = 1`: the first loads, the second loads and wins its
    compare-exchange, the first's compare-exchange fails spuriously, then it reloads and
    wins. -/
def twoCallsRace : AtomicMaxState :=
  run (start 1 [5, 3])
    [⟨0, false⟩, ⟨1, false⟩, ⟨0, true⟩, ⟨1, false⟩, ⟨0, false⟩, ⟨0, false⟩]

theorem update_atomic_max_two_calls_race :
    Reachable 1 [5, 3] twoCallsRace ∧
      ((∀ as, twoCallsRace.max ≤ (run twoCallsRace as).max) ∧
        (twoCallsRace.max = 1 ∨ twoCallsRace.max ∈ [5, 3]) ∧
        (∀ c ∈ twoCallsRace.calls, c.pc = .returned → c.value ≤ twoCallsRace.max) ∧
        ((∀ c ∈ twoCallsRace.calls, c.pc = .returned) →
          twoCallsRace.max = [5, 3].foldr max 1)) :=
  let h := reachable_run .start _
  ⟨h, update_atomic_max_linearizable h⟩

example : twoCallsRace = ⟨5, [⟨5, .returned⟩, ⟨3, .returned⟩]⟩ := by decide

-- ── The sequential history ───────────────────────────────────────────────────────────

/-- Call `i` of the object has taken effect. -/
def AtomicMax.Applied (o : AtomicMax) (i : Nat) : Prop :=
  ∃ op, o.ops[i]? = some op ∧ op.applied = true

/-- Applying a call that has taken effect, or that is not there, changes nothing. -/
theorem AtomicMax.apply_eq_self {o : AtomicMax} {i : Nat}
    (h : ∀ op, o.ops[i]? = some op → op.applied = true) : o.apply i = o := by
  unfold AtomicMax.apply
  split
  · next op hop => rw [if_pos (h op hop)]
  · rfl

/-- Applying a call that has not taken effect marks exactly that call. -/
theorem AtomicMax.applied_apply {o : AtomicMax} {i : Nat} {op : Op} (hi : o.ops[i]? = some op)
    (hop : op.applied = false) (j : Nat) : (o.apply i).Applied j ↔ o.Applied j ∨ j = i := by
  simp only [AtomicMax.apply, hi, hop, Bool.false_eq_true, if_false, AtomicMax.Applied]
  by_cases hij : j = i
  · subst hij
    simp [List.getElem?_set_self (List.getElem?_eq_some_iff.mp hi).1]
  · simp [List.getElem?_set_ne (Ne.symm hij), hij]

/-- A sequential history of `o` from `o₀` extends to one of `o.apply i`: by `i` itself if
    it had not taken effect, by nothing otherwise. -/
theorem AtomicMax.history_apply {o₀ o : AtomicMax} {order : List Nat} (hnd : order.Nodup)
    (hmem : ∀ j, j ∈ order ↔ o.Applied j) (heq : o = order.foldl AtomicMax.apply o₀) (i : Nat) :
    ∃ order' : List Nat, order'.Nodup ∧ (∀ j, j ∈ order' ↔ (o.apply i).Applied j) ∧
      o.apply i = order'.foldl AtomicMax.apply o₀ := by
  rcases hi : o.ops[i]? with _ | op
  · rw [AtomicMax.apply_eq_self fun op h => by rw [hi] at h; cases h]
    exact ⟨order, hnd, hmem, heq⟩
  cases hop : op.applied
  · have hnew : i ∉ order := fun hj => by
      obtain ⟨op', hop', happ⟩ := (hmem i).mp hj
      rw [hi] at hop'; cases hop'; rw [hop] at happ; cases happ
    refine ⟨order ++ [i], hnd.append (List.nodup_singleton i) (List.disjoint_singleton.mpr hnew),
      fun j => ?_, ?_⟩
    · rw [AtomicMax.applied_apply hi hop, List.mem_append, List.mem_singleton, hmem]
    · rw [List.foldl_append, ← heq]; rfl
  · rw [AtomicMax.apply_eq_self fun op' h => by rw [hi] at h; cases h; exact hop]
    exact ⟨order, hnd, hmem, heq⟩

/-- **A SEQUENTIAL HISTORY.**  Every reachable state is the object after the calls that took
    effect, each applied once, one after another in the order of their linearization
    points: any interleaving of the loop, spurious failures included, is equivalent to a
    sequential run of the atomic max. -/
theorem update_atomic_max_sequential {init : Int} {values : List Int} {s : AtomicMaxState}
    (hs : Reachable init values s) :
    ∃ order : List Nat, order.Nodup ∧ (∀ i, i ∈ order ↔ (abstr s).Applied i) ∧
      abstr s = order.foldl AtomicMax.apply (abstr (start init values)) := by
  induction hs with
  | start =>
    refine ⟨[], List.nodup_nil, fun i => ?_, rfl⟩
    simp [AtomicMax.Applied, abstr, start, opOf, tookEffect]
  | @step t a _ ih =>
    obtain ⟨order, hnd, hmem, heq⟩ := ih
    rcases abstr_next t a with h | h <;> rw [h]
    · exact ⟨order, hnd, hmem, heq⟩
    · exact AtomicMax.history_apply hnd hmem heq a.call

theorem update_atomic_max_sequential_race :
    Reachable 1 [5, 3] twoCallsRace ∧
      ∃ order : List Nat, order.Nodup ∧ (∀ i, i ∈ order ↔ (abstr twoCallsRace).Applied i) ∧
        abstr twoCallsRace = order.foldl AtomicMax.apply (abstr (start 1 [5, 3])) :=
  let h := reachable_run .start _
  ⟨h, update_atomic_max_sequential h⟩

-- ── Progress ─────────────────────────────────────────────────────────────────────────

/-- Three steps of call `i`, no spurious failure. -/
def solo (i : Nat) : List Action := [⟨i, false⟩, ⟨i, false⟩, ⟨i, false⟩]

/-- A step of call `i` leaves every other call where it stands. -/
theorem next_getElem?_ne (s : AtomicMaxState) {a : Action} {j : Nat} (h : a.call ≠ j) :
    (next s a).calls[j]? = s.calls[j]? := by
  rcases hc : s.calls[a.call]? with _ | c
  · rw [next_of_getElem?_none hc]
  · rw [next_of_getElem? hc a.spurious]
    exact List.getElem?_set_ne h

/-- A call's step with no spurious failure, on the pair of `max` and the call. -/
def soloStep (p : Int × Call) : Int × Call :=
  ((updateAtomicMaxStep p.1 p.2 false).1, ⟨p.2.value, (updateAtomicMaxStep p.1 p.2 false).2⟩)

theorem next_solo {t : AtomicMaxState} {i : Nat} {d : Call} (hd : t.calls[i]? = some d) :
    (next t ⟨i, false⟩).max = (soloStep (t.max, d)).1 ∧
      (next t ⟨i, false⟩).calls[i]? = some (soloStep (t.max, d)).2 := by
  rw [next_of_getElem? hd]
  exact ⟨rfl, List.getElem?_set_self (List.getElem?_eq_some_iff.mp hd).1⟩

/-- Three steps return a call, whatever it holds. -/
theorem soloStep_three (m : Int) (c : Call) :
    (soloStep (soloStep (soloStep (m, c)))).2 = ⟨c.value, .returned⟩ := by
  rcases c with ⟨v, _ | old | _⟩
  · by_cases h : v ≤ m <;> simp [soloStep, updateAtomicMaxStep, h]
  · by_cases h : v ≤ old
    · simp [soloStep, updateAtomicMaxStep, h]
    · by_cases hm : m = old
      · simp [soloStep, updateAtomicMaxStep, h, hm]
      · by_cases h' : v ≤ m <;> simp [soloStep, updateAtomicMaxStep, h, hm, h']
  · rfl

/-- **A CALL RUN ALONE RETURNS.**  From any state, three steps of a call with no spurious
    failure return it, whatever stale `old` it held: the loop is obstruction-free. -/
theorem run_solo_returns (s : AtomicMaxState) {i : Nat} {c : Call} (h : s.calls[i]? = some c) :
    (run s (solo i)).calls[i]? = some ⟨c.value, .returned⟩ := by
  obtain ⟨hm1, h1⟩ := next_solo h
  obtain ⟨hm2, h2⟩ := next_solo h1
  obtain ⟨-, h3⟩ := next_solo h2
  simp only [run, solo, List.foldl_cons, List.foldl_nil]
  rw [h3, hm2, hm1, soloStep_three]

/-- A returned call stays returned, whoever steps. -/
theorem next_returned (s : AtomicMaxState) (a : Action) {i : Nat} {v : Int}
    (h : s.calls[i]? = some ⟨v, .returned⟩) : (next s a).calls[i]? = some ⟨v, .returned⟩ := by
  by_cases hi : a.call = i
  · obtain ⟨j, sp⟩ := a
    subst hi
    rw [next_of_getElem? h]
    exact List.getElem?_set_self (List.getElem?_eq_some_iff.mp h).1
  · rw [next_getElem?_ne s hi, h]

theorem run_returned (s : AtomicMaxState) (as : List Action) {i : Nat} {v : Int}
    (h : s.calls[i]? = some ⟨v, .returned⟩) : (run s as).calls[i]? = some ⟨v, .returned⟩ := by
  induction as generalizing s with
  | nil => exact h
  | cons a as ih => exact ih (next s a) (next_returned s a h)

theorem run_getElem?_ne (s : AtomicMaxState) {as : List Action} {i : Nat}
    (h : ∀ a ∈ as, a.call ≠ i) : (run s as).calls[i]? = s.calls[i]? := by
  induction as generalizing s with
  | nil => rfl
  | cons a as ih =>
    rw [run, List.foldl_cons, ← run, ih (next s a) fun b hb => h b (List.mem_cons_of_mem _ hb),
      next_getElem?_ne s (h a (List.mem_cons_self _ _))]

/-- Running the calls `is` alone, one after another, returns each of them. -/
theorem run_solos_returns (s : AtomicMaxState) (is : List Nat) {i : Nat} (hi : i ∈ is) {c : Call}
    (h : s.calls[i]? = some c) : (run s (is.flatMap solo)).calls[i]? = some ⟨c.value, .returned⟩ := by
  induction is generalizing s with
  | nil => simp at hi
  | cons j is ih =>
    rw [List.flatMap_cons, run_append]
    by_cases hij : i = j
    · subst hij
      exact run_returned _ _ (run_solo_returns s h)
    · have hne : ∀ a ∈ solo j, a.call ≠ i := by simp [solo, Ne.symm hij]
      exact ih _ ((List.mem_cons.mp hi).resolve_left hij) ((run_getElem?_ne s hne).trans h)

theorem length_next (s : AtomicMaxState) (a : Action) : (next s a).calls.length = s.calls.length := by
  rcases hc : s.calls[a.call]? with _ | c
  · rw [next_of_getElem?_none hc]
  · rw [next_of_getElem? hc a.spurious, List.length_set]

theorem length_run (s : AtomicMaxState) (as : List Action) :
    (run s as).calls.length = s.calls.length := by
  induction as generalizing s with
  | nil => rfl
  | cons a as ih => rw [run, List.foldl_cons, ← run, ih, length_next]

/-- **OBSTRUCTION-FREE.**  From every state, whatever stale `old` each call holds, running
    the calls alone one after another, three steps each with no spurious failure, returns
    every call. -/
theorem update_atomic_max_obstruction_free (s : AtomicMaxState) :
    (run s ((List.range s.calls.length).flatMap solo)).calls.map (·.pc) =
      List.replicate s.calls.length .returned := by
  refine List.eq_replicate_iff.mpr ⟨by rw [List.length_map, length_run], fun pc hpc => ?_⟩
  obtain ⟨c, hc, rfl⟩ := List.mem_map.mp hpc
  obtain ⟨i, hci⟩ := List.mem_iff_getElem?.mp hc
  have hlt : i < s.calls.length := by
    have := (List.getElem?_eq_some_iff.mp hci).1
    rwa [length_run] at this
  have := run_solos_returns s _ (List.mem_range.mpr hlt) (List.getElem?_eq_getElem hlt)
  rw [hci] at this
  cases this
  rfl

-- ── Own steps, and what a spurious failure costs ─────────────────────────────────────

/-- Whether a call still runs. -/
def running (c : Call) : Nat := if c.pc = .returned then 0 else 1

/-- The calls that still run. -/
def unreturned : List Call → Nat
  | [] => 0
  | c :: cs => running c + unreturned cs

theorem unreturned_set {l : List Call} {i : Nat} {c : Call} (h : l[i]? = some c) (c' : Call) :
    unreturned (l.set i c') + running c = unreturned l + running c' := by
  induction l generalizing i with
  | nil => simp at h
  | cons x l ih =>
    cases i with
    | zero =>
      obtain rfl : x = c := by simpa using h
      simp only [List.set_cons_zero, unreturned]
      omega
    | succ i =>
      simp only [List.getElem?_cons_succ] at h
      simp only [List.set_cons_succ, unreturned]
      have := ih h
      omega

theorem running_le_unreturned {l : List Call} {i : Nat} {c : Call} (h : l[i]? = some c) :
    running c ≤ unreturned l := by
  have := unreturned_set h c
  induction l generalizing i with
  | nil => simp at h
  | cons x l ih =>
    cases i with
    | zero => simp_all [unreturned]
    | succ i =>
      simp only [List.getElem?_cons_succ] at h
      have := ih h (unreturned_set h c)
      simp only [unreturned]
      omega

/-- What a running call on `max = m` has left of its own steps, besides two per call that
    may still write: a load, a compare-exchange that will succeed, or a stale compare-exchange
    that fails and a fresh iteration. -/
def budget (m : Int) (c : Call) : Nat :=
  match c.pc with
  | .atLoad => 2
  | .atCompareExchange old => if old = m then 1 else 3
  | .returned => 0

/-- Call `i`'s own steps left: every other running call may write once, and each write costs
    `i` at most one more iteration. -/
def potential (s : AtomicMaxState) (i : Nat) : Nat :=
  match s.calls[i]? with
  | some c => if c.pc = .returned then 0 else 2 * unreturned s.calls + budget s.max c
  | none => 0

/-- A step never starts a returned call again, and a step that writes returns its call. -/
theorem unreturned_next (s : AtomicMaxState) (a : Action) :
    unreturned (next s a).calls + (if (next s a).max = s.max then 0 else 1) ≤ unreturned s.calls := by
  rcases hc : s.calls[a.call]? with _ | c
  · rw [next_of_getElem?_none hc]; simp
  · rw [next_of_getElem? hc a.spurious]
    have := unreturned_set hc ⟨c.value, (updateAtomicMaxStep s.max c a.spurious).2⟩
    rcases c with ⟨v, _ | o | _⟩ <;> simp only [updateAtomicMaxStep, running] at this ⊢
    · simp at this ⊢; omega
    · split_ifs at this ⊢ <;> simp_all
      omega
    · simp at this ⊢; omega

theorem budget_pos {m : Int} {c : Call} (h : c.pc ≠ .returned) : 1 ≤ budget m c := by
  rcases c with ⟨v, _ | o | _⟩
  · simp [budget]
  · simp only [budget]; split_ifs <;> omega
  · exact absurd rfl h

/-- Another call's step never raises call `i`'s potential: a write turns a fresh `old` stale,
    but the writer returns. -/
theorem potential_next_other (s : AtomicMaxState) {a : Action} {i : Nat}
    (hne : a.call ≠ i) : potential (next s a) i ≤ potential s i := by
  have hw := unreturned_next s a
  unfold potential
  rw [next_getElem?_ne s hne]
  rcases hc : s.calls[i]? with _ | c
  · exact le_rfl
  · simp only
    split_ifs with hr
    · exact le_rfl
    · by_cases hm : (next s a).max = s.max
      · rw [if_pos hm] at hw
        rw [hm]
        omega
      · rw [if_neg hm] at hw
        have : budget (next s a).max c ≤ 3 := by
          unfold budget; split <;> (try split_ifs) <;> omega
        have := budget_pos (m := s.max) hr
        omega

/-- A call's own step returns it, or leaves `max` alone and lowers its budget; when its
    compare-exchange may fail spuriously, the budget may rise by one instead. -/
theorem updateAtomicMaxStep_cost (m : Int) {c : Call} (hr : c.pc ≠ .returned) (b : Bool) :
    (updateAtomicMaxStep m c b).2 = .returned ∨
      ((updateAtomicMaxStep m c b).1 = m ∧
        running ⟨c.value, (updateAtomicMaxStep m c b).2⟩ = running c ∧
        budget m ⟨c.value, (updateAtomicMaxStep m c b).2⟩ + 1 ≤ budget m c + 2 * b.toNat) := by
  rcases c with ⟨v, _ | o | _⟩
  · exact .inr (by simp [updateAtomicMaxStep, running, budget])
  · by_cases h1 : v ≤ o
    · exact .inl (by simp [updateAtomicMaxStep, h1])
    · by_cases h2 : m = o ∧ b = false
      · exact .inl (by simp [updateAtomicMaxStep, h1, h2])
      · -- a stale `old` or a spurious failure: the loop starts again
        refine .inr ⟨by simp [updateAtomicMaxStep, h1, h2],
          by simp [updateAtomicMaxStep, h1, h2, running], ?_⟩
        simp only [updateAtomicMaxStep, if_neg h1, if_neg h2, budget]
        cases b <;> by_cases h3 : o = m <;> simp_all
  · exact absurd rfl hr

/-- Call `i`'s own step lowers its potential; a spurious failure of its compare-exchange
    may raise it by one instead. -/
theorem potential_next_self {s : AtomicMaxState} {i : Nat} {c : Call} (hc : s.calls[i]? = some c)
    (hr : c.pc ≠ .returned) (b : Bool) :
    potential (next s ⟨i, b⟩) i + 1 ≤ potential s i + 2 * b.toNat := by
  have hlt := (List.getElem?_eq_some_iff.mp hc).1
  have hu := unreturned_set hc ⟨c.value, (updateAtomicMaxStep s.max c b).2⟩
  have hb := budget_pos (m := s.max) hr
  unfold potential
  rw [next_of_getElem? hc, hc]
  simp only [List.getElem?_set_self hlt, if_neg hr]
  rcases updateAtomicMaxStep_cost s.max hr b with hret | ⟨hm, hrun, hbud⟩
  · rw [if_pos hret]
    omega
  · rw [if_neg fun h => by simp [running, h, hr] at hrun, hm]
    omega

/-- A call that has not returned at the end of a run had not returned at its start. -/
theorem running_of_run {s : AtomicMaxState} (as : List Action) {i : Nat}
    (h : ∃ c, (run s as).calls[i]? = some c ∧ c.pc ≠ .returned) :
    ∃ c, s.calls[i]? = some c ∧ c.pc ≠ .returned := by
  obtain ⟨c, hc, hr⟩ := h
  have hlt : i < s.calls.length := by
    rw [← length_run s as]; exact (List.getElem?_eq_some_iff.mp hc).1
  refine ⟨s.calls[i], List.getElem?_eq_getElem hlt, fun hret => hr ?_⟩
  have := run_returned s as (v := s.calls[i].value) (by rw [List.getElem?_eq_getElem hlt, ← hret])
  rw [hc] at this
  cases this
  rfl

/-- **EACH OWN STEP COSTS POTENTIAL.**  Along a run, a call that has not returned at its end
    took at most its potential at the start, less its potential at the end, of its own
    steps, plus two for each of its own steps whose compare-exchange fails spuriously. -/
theorem countP_add_potential_le {s : AtomicMaxState} (as : List Action) {i : Nat}
    (h : ∃ c, (run s as).calls[i]? = some c ∧ c.pc ≠ .returned) :
    as.countP (·.call == i) + potential (run s as) i ≤
      potential s i + 2 * as.countP (fun a => a.call == i && a.spurious) := by
  induction as generalizing s with
  | nil => simp [run]
  | cons a as ih =>
    have ih' := ih h
    simp only [run, List.foldl_cons, List.countP_cons] at ih' ⊢
    by_cases ha : a.call = i
    · obtain ⟨j, b⟩ := a
      obtain rfl : j = i := ha
      obtain ⟨c, hc, hr⟩ := running_of_run (⟨j, b⟩ :: as) h
      have := potential_next_self hc hr b
      cases b <;> simp only [beq_self_eq_true, Bool.and_self, Bool.and_false, if_true,
        Bool.false_eq_true, if_false, Bool.toNat_true, Bool.toNat_false] at this ⊢ <;> omega
    · have := potential_next_other s ha
      simp only [beq_iff_eq, ha, Bool.false_and, Bool.false_eq_true, if_false]
      omega

theorem unreturned_start (init : Int) (values : List Int) :
    unreturned (start init values).calls = values.length := by
  induction values with
  | nil => rfl
  | cons v vs ih =>
    simp only [start, List.map_cons, unreturned, running, List.length_cons] at ih ⊢
    rw [ih, if_neg (by simp)]
    omega

/-- A call not yet started has two for every call, and its own load and write. -/
theorem potential_start (init : Int) {values : List Int} {i : Nat} (hi : i < values.length) :
    potential (start init values) i = 2 * values.length + 2 := by
  have h0 : (start init values).calls[i]? = some ⟨values[i], .atLoad⟩ := by simp [start, hi]
  simp only [potential, h0]
  rw [if_neg (by simp), unreturned_start]
  rfl

/-- A running call has potential at least three: itself still to return, and a step. -/
theorem three_le_potential {s : AtomicMaxState} {i : Nat} {c : Call} (hc : s.calls[i]? = some c)
    (hr : c.pc ≠ .returned) : 3 ≤ potential s i := by
  have h1 : running c = 1 := if_neg hr
  have h2 := running_le_unreturned hc
  have h3 := budget_pos (m := s.max) hr
  simp only [potential, hc, if_neg hr]
  omega

/-- A call has returned once its own steps, less two for each of its own spurious failures,
    reach its potential at the start less two. -/
theorem returned_of_own_steps {s : AtomicMaxState} {as : List Action} {i : Nat}
    (hi : i < s.calls.length)
    (hsteps : potential s i + 2 * as.countP (fun a => a.call == i && a.spurious) <
      as.countP (·.call == i) + 3) :
    ((run s as).calls[i]?).map (·.pc) = some .returned := by
  have hlt : i < (run s as).calls.length := by rwa [length_run]
  rcases hc : (run s as).calls[i]? with _ | c
  · rw [List.getElem?_eq_getElem hlt] at hc; cases hc
  · by_contra hr
    have hr' : c.pc ≠ .returned := fun h => hr (by simp [h])
    have := countP_add_potential_le as ⟨c, hc, hr'⟩
    have := three_le_potential hc hr'
    omega

/-- **WAIT-FREE WITHOUT SPURIOUS FAILURES.**  When no `compare_exchange_weak` fails
    spuriously, every call of `update_atomic_max` returns within `2k` of its own steps, `k`
    the number of calls, however the calls interleave: a compare-exchange fails only
    after another call wrote `max`, and a call writes once, then returns. -/
theorem update_atomic_max_wait_free (init : Int) (values : List Int) (as : List Action)
    (hsp : ∀ a ∈ as, a.spurious = false) {i : Nat} (hi : i < values.length)
    (hsteps : 2 * values.length ≤ as.countP (·.call == i)) :
    ((run (start init values) as).calls[i]?).map (·.pc) = some .returned := by
  refine returned_of_own_steps (by rwa [start, List.length_map]) ?_
  rw [potential_start init hi, List.countP_eq_zero.mpr fun a ha => by simp [hsp a ha]]
  omega

theorem update_atomic_max_wait_free_race :
    (∀ a ∈ [⟨0, false⟩, ⟨1, false⟩, ⟨1, false⟩, ⟨0, false⟩, ⟨0, false⟩, ⟨0, false⟩],
        Action.spurious a = false) ∧ 0 < [5, 3].length ∧
      2 * [5, 3].length ≤ ([⟨0, false⟩, ⟨1, false⟩, ⟨1, false⟩, ⟨0, false⟩, ⟨0, false⟩,
        ⟨0, false⟩] : List Action).countP (·.call == 0) ∧
      ((run (start 1 [5, 3]) [⟨0, false⟩, ⟨1, false⟩, ⟨1, false⟩, ⟨0, false⟩, ⟨0, false⟩,
        ⟨0, false⟩]).calls[0]?).map (·.pc) = some .returned :=
  ⟨by decide, by decide, by decide,
    update_atomic_max_wait_free 1 [5, 3] _ (by decide) (by decide) (by decide)⟩

end PegasusAtomicMax
