import PegasusShell.CounterNameProofs

/-! # `table_printer` — the column widths it keeps, and the table it prints

    `table_printer` collects a table row by row in `matrix_data` and keeps, in
    `max_col_width`, the length of the longest cell of each column, so that `output` can pad
    every column to one width.  The widths are a cache of the table; this file says what
    they cache and proves that every member function keeps it:

    * `TablePrinter`, `addTitle`, `addColumn`, `addRow`, `appendData`, `output` — the class,
      with `max_col_width` a vector of `int` (a length goes in through `toInt32` and is
      compared as a `size_t`, `toSizeT`), and an index out of a vector, the `rbegin()` of an
      empty vector and an `int` overflow as undefined behaviour;
    * `Layout` — the representation invariant: the title row has every column, every row
      starts with its name and fits the title row, and `max_col_width[j]` is
      `columnWidth`, the longest cell of column `j`;
    * `appendData_layout`, `addRow_layout`, `addColumn_layout`, `addTitle_layout` — each
      member function keeps it;
    * `output_layout` — with it, `output` prints `renderTable`: every column padded to its
      longest cell plus `space_width`; `output_reads_back` — so a table of nonempty cells
      without spaces or line breaks is read back exactly by splitting the printed lines at
      their spaces (`readTable`);
    * `table_printer_widths` — a title, its columns, then rows of at most as many cells,
      every text short enough that its length plus `space_width` fits an `int`: no index
      leaves its range, the widths are the column maxima, and every cell is printed in a
      field at least `space_width` longer than itself;
    * `add_title_truncates_long_title` — a title of `2³¹` characters: its width is stored as
      `-2³¹`, and it is printed without padding. -/

namespace PegasusTablePrinter

open PegasusCounterName

/-- How a member function ends when it does not return. -/
inductive PrinterEnd
  /-- A failed `dassert_f`, with its message. -/
  | aborted (msg : String)
  /-- An index out of a vector, `rbegin()` of an empty vector, or an `int` overflow. -/
  | undefinedBehaviour
  deriving DecidableEq, Repr

/-- `table_printer`: `max_col_width` (a `std::vector<int>`) and `matrix_data`. -/
structure TablePrinter where
  maxColWidth : List Int
  matrixData : List (List String)
  deriving DecidableEq, Repr

/-- A default-constructed `table_printer`. -/
def TablePrinter.empty : TablePrinter := ⟨[], []⟩

/-- `static const int precision = 2`. -/
def precision : Nat := 2

/-- `static const int space_width = 2`. -/
def spaceWidth : Int := 2

/-- An `int` converted to `size_t` for a comparison with a length. -/
def toSizeT (v : Int) : Nat := (v % 2 ^ 64).toNat

-- ── The member functions ─────────────────────────────────────────────────────────────

/-- The private `append_data(const std::string &)`: the cell goes at the end of the last
    row, and the width of its column, `max_col_width[size() - 1]` (the index the grown row's
    size less one, that is, the old row's length), grows to the cell's length. -/
def appendData (p : TablePrinter) (data : String) : Except PrinterEnd TablePrinter :=
  match p.matrixData.getLast? with
  | none => .error .undefinedBehaviour
  | some last =>
    match p.maxColWidth[last.length]? with
    | none => .error .undefinedBehaviour
    | some curLen =>
      .ok ⟨if toSizeT curLen < data.length then p.maxColWidth.set last.length (toInt32 data.length)
            else p.maxColWidth,
          p.matrixData.dropLast ++ [last ++ [data]]⟩

/-- `add_row`: a new, empty row, then its name as its first cell. -/
def addRow (p : TablePrinter) (rowName : String) : Except PrinterEnd TablePrinter :=
  appendData ⟨p.maxColWidth, p.matrixData ++ [[]]⟩ rowName

/-- `add_title`: the first column's width, then the title row. -/
def addTitle (p : TablePrinter) (title : String) : Except PrinterEnd TablePrinter :=
  if p.matrixData = [] ∧ p.maxColWidth = [] then
    addRow ⟨p.maxColWidth ++ [toInt32 title.length], p.matrixData⟩ title
  else .error (.aborted "`add_title` must be called only once")

/-- `add_column`: one more column's width, then its name at the end of the title row. -/
def addColumn (p : TablePrinter) (colName : String) : Except PrinterEnd TablePrinter :=
  if p.matrixData.length = 1 then
    appendData ⟨p.maxColWidth ++ [toInt32 colName.length], p.matrixData⟩ colName
  else .error (.aborted "`add_column` must be called before real data appendding")

/-- `append_data(uint64_t)`: the number in decimal, `std::to_string`. -/
def appendDataUInt64 (p : TablePrinter) (data : UInt64) : Except PrinterEnd TablePrinter :=
  appendData p (toString data.toNat)

/-- `append_data(double)`: `"0.00"` for a value under `1e-6` in magnitude, else the text
    `std::fixed << std::setprecision(precision)` gives, `fixedFormat precision data`. -/
def appendDataDouble (fixedFormat : Nat → Float → String) (p : TablePrinter) (data : Float) :
    Except PrinterEnd TablePrinter :=
  if data.abs < 1e-6 then appendData p "0.00" else appendData p (fixedFormat precision data)

-- ── `output` ─────────────────────────────────────────────────────────────────────────

/-- `out << std::setw(w) << std::left << s`: the text, then spaces up to width `w`. -/
def setwLeft (w : Int) (s : String) : String := s ++ "".pushn ' ' (w.toNat - s.length)

/-- `out << std::setw(w) << std::right << s`: spaces up to width `w`, then the text. -/
def setwRight (w : Int) (s : String) : String := "".pushn ' ' (w.toNat - s.length) ++ s

/-- `max_col_width[i] + space_width`, an `int` sum. -/
def fieldWidth (maxColWidth : List Int) (i : Nat) : Except PrinterEnd Int :=
  match maxColWidth[i]? with
  | none => .error .undefinedBehaviour
  | some w =>
    if -2 ^ 31 ≤ w + spaceWidth ∧ w + spaceWidth < 2 ^ 31 then .ok (w + spaceWidth)
    else .error .undefinedBehaviour

/-- The loop over a row's cells from column `i`, each right-aligned. -/
def outputCells (maxColWidth : List Int) : Nat → List String → Except PrinterEnd String
  | _, [] => .ok ""
  | i, cell :: cells => do
    let w ← fieldWidth maxColWidth i
    let rest ← outputCells maxColWidth (i + 1) cells
    pure (setwRight w cell ++ rest)

/-- One line of `output`: the row's name left-aligned, its cells right-aligned, `std::endl`. -/
def outputRow (maxColWidth : List Int) : List String → Except PrinterEnd String
  | [] => .error (.aborted "Row name must be exist at least")
  | name :: cells => do
    let w ← fieldWidth maxColWidth 0
    let rest ← outputCells maxColWidth 1 cells
    pure (setwLeft w name ++ rest ++ "\n")

/-- The loop over the rows of `output`. -/
def outputRows (maxColWidth : List Int) : List (List String) → Except PrinterEnd String
  | [] => .ok ""
  | row :: rows => do
    let line ← outputRow maxColWidth row
    let rest ← outputRows maxColWidth rows
    pure (line ++ rest)

/-- `output`: nothing before a title, else every row. -/
def output (p : TablePrinter) : Except PrinterEnd String :=
  if p.maxColWidth = [] then .ok "" else outputRows p.maxColWidth p.matrixData

-- ── Call sequences ───────────────────────────────────────────────────────────────────

/-- A value the public `append_data` overloads take. -/
inductive Cell
  | uint64 (data : UInt64)
  | double (data : Float)
  deriving Repr

/-- A call of a public member function that changes the printer. -/
inductive PrinterCall
  | addTitle (title : String)
  | addColumn (colName : String)
  | addRow (rowName : String)
  | appendData (data : Cell)
  deriving Repr

/-- The member function a call names. -/
def callPrinter (fixedFormat : Nat → Float → String) (p : TablePrinter) :
    PrinterCall → Except PrinterEnd TablePrinter
  | .addTitle title => addTitle p title
  | .addColumn colName => addColumn p colName
  | .addRow rowName => addRow p rowName
  | .appendData (.uint64 data) => appendDataUInt64 p data
  | .appendData (.double data) => appendDataDouble fixedFormat p data

/-- A call sequence, run from `p`; it stops at the first call that does not return. -/
def runCalls (fixedFormat : Nat → Float → String) (p : TablePrinter) :
    List PrinterCall → Except PrinterEnd TablePrinter
  | [] => .ok p
  | c :: cs =>
    match callPrinter fixedFormat p c with
    | .ok p' => runCalls fixedFormat p' cs
    | .error e => .error e

-- ── What the widths cache ───────────────────────────────────────────────────────────

/-- The length of a row's cell in column `j`; `0` where the row has none. -/
def cellWidth (row : List String) (j : Nat) : Nat := (row[j]?.map String.length).getD 0

/-- The longest cell of column `j`, over all rows. -/
def columnWidth (rows : List (List String)) (j : Nat) : Nat :=
  rows.foldr (fun row m => max (cellWidth row j) m) 0

/-- A text whose length plus `space_width` fits an `int`. -/
def Fits (s : String) : Prop := (s.length : Int) + spaceWidth < 2 ^ 31

instance (s : String) : Decidable (Fits s) := inferInstanceAs (Decidable (_ < _))

theorem Fits.length_lt {s : String} (h : Fits s) : s.length < 2 ^ 31 := by
  unfold Fits spaceWidth at h; omega

/-- `max_col_width` holds the longest cell of each column of `rows`. -/
def Widths (maxColWidth : List Int) (rows : List (List String)) : Prop :=
  ∀ j < maxColWidth.length, maxColWidth[j]? = some (columnWidth rows j : Int)

/-- **THE REPRESENTATION INVARIANT.**  Once the title is in: the title row has every column,
    every row starts with its name and fits the title row, every width is its column's
    longest cell, and every cell is short enough that its width plus `space_width` fits an
    `int`. -/
structure Layout (p : TablePrinter) : Prop where
  titled : ∃ t rows, p.matrixData = t :: rows ∧ t.length = p.maxColWidth.length
  rowsFit : ∀ row ∈ p.matrixData, row ≠ [] ∧ row.length ≤ p.maxColWidth.length
  widths : Widths p.maxColWidth p.matrixData
  cellsFit : ∀ row ∈ p.matrixData, ∀ cell ∈ row, Fits cell

@[simp] theorem columnWidth_nil (j : Nat) : columnWidth [] j = 0 := rfl

@[simp] theorem columnWidth_cons (row : List String) (rows : List (List String)) (j : Nat) :
    columnWidth (row :: rows) j = max (cellWidth row j) (columnWidth rows j) := rfl

theorem columnWidth_snoc (rows : List (List String)) (row : List String) (j : Nat) :
    columnWidth (rows ++ [row]) j = max (columnWidth rows j) (cellWidth row j) := by
  induction rows with
  | nil => simp
  | cons r rows ih => simp only [List.cons_append, columnWidth_cons, ih]; omega

/-- One more cell fills the column just past the row's end. -/
theorem cellWidth_snoc (row : List String) (data : String) (j : Nat) :
    cellWidth (row ++ [data]) j = if j = row.length then data.length else cellWidth row j := by
  unfold cellWidth
  rcases Nat.lt_trichotomy j row.length with h | rfl | h
  · rw [List.getElem?_append_left h, if_neg (by omega)]
  · rw [List.getElem?_append_right (le_refl _), Nat.sub_self, if_pos rfl]; rfl
  · have h1 : [data][j - row.length]? = none :=
      List.getElem?_eq_none (by simp only [List.length_singleton]; omega)
    have h2 : row[j]? = none := List.getElem?_eq_none (by omega)
    rw [List.getElem?_append_right (by omega), if_neg (by omega), h1, h2]

theorem cellWidth_length (row : List String) : cellWidth row row.length = 0 := by
  simp [cellWidth]

/-- Every cell of a column is at most its width. -/
theorem le_columnWidth {rows : List (List String)} {row : List String} (hrow : row ∈ rows)
    {j : Nat} {cell : String} (hcell : row[j]? = some cell) : cell.length ≤ columnWidth rows j := by
  induction rows with
  | nil => simp at hrow
  | cons r rows ih =>
    rw [columnWidth_cons]
    rcases List.mem_cons.mp hrow with rfl | hrow
    · simp only [cellWidth, hcell, Option.map_some', Option.getD_some]; omega
    · have := ih hrow; omega

/-- A column of cells that fit has a width that fits. -/
theorem columnWidth_fits {rows : List (List String)} (h : ∀ row ∈ rows, ∀ cell ∈ row, Fits cell)
    (j : Nat) : (columnWidth rows j : Int) + spaceWidth < 2 ^ 31 := by
  induction rows with
  | nil => simp [spaceWidth]
  | cons r rows ih =>
    have hr : (cellWidth r j : Int) + spaceWidth < 2 ^ 31 := by
      unfold cellWidth
      rcases hc : r[j]? with _ | cell
      · simp [spaceWidth]
      · exact h r (List.mem_cons_self _ _) cell (List.mem_iff_getElem?.mpr ⟨j, hc⟩)
    have := ih fun row hrow => h row (List.mem_cons_of_mem _ hrow)
    rw [columnWidth_cons]
    omega

/-- **`append_data`, SPECIFIED.**  The cell goes at the end of the last row, and the width of
    its column becomes the larger of its old value and the cell's length: for a width in
    `[0, 2³¹)` and a shorter cell, the `int`/`size_t` conversions change nothing. -/
theorem appendData_ok {p : TablePrinter} {last : List String} {cur : Int} (data : String)
    (hlast : p.matrixData.getLast? = some last) (hcur : p.maxColWidth[last.length]? = some cur)
    (h0 : 0 ≤ cur) (h1 : cur < 2 ^ 31) (hd : data.length < 2 ^ 31) :
    appendData p data = .ok ⟨if cur < data.length then p.maxColWidth.set last.length data.length
        else p.maxColWidth, p.matrixData.dropLast ++ [last ++ [data]]⟩ := by
  have hs : (toSizeT cur : Int) = cur := by
    rw [toSizeT, Int.emod_eq_of_lt h0 (by omega), Int.toNat_of_nonneg h0]
  simp only [appendData, hlast, hcur, toInt32_eq_self (show -2 ^ 31 ≤ (data.length : Int) ∧
    (data.length : Int) < 2 ^ 31 by omega)]
  split_ifs <;> first | rfl | omega

/-- **THE WIDTHS AFTER `append_data`.**  Where every other column's width is its longest
    cell, and the cell's column holds a width that is, against the new cell, as good as its
    longest cell, `append_data` returns with every width the longest cell of its column. -/
theorem appendData_widths {p : TablePrinter} {last : List String} {cur : Int} {data : String}
    (hlast : p.matrixData.getLast? = some last) (hcur : p.maxColWidth[last.length]? = some cur)
    (h0 : 0 ≤ cur) (h1 : cur < 2 ^ 31) (hd : Fits data)
    (hoth : ∀ j < p.maxColWidth.length, j ≠ last.length →
      p.maxColWidth[j]? = some (columnWidth p.matrixData j : Int))
    (hmax : max cur data.length = max (columnWidth p.matrixData last.length : Int) data.length) :
    ∃ maxColWidth, appendData p data = .ok ⟨maxColWidth, p.matrixData.dropLast ++ [last ++ [data]]⟩ ∧
      maxColWidth.length = p.maxColWidth.length ∧
      Widths maxColWidth (p.matrixData.dropLast ++ [last ++ [data]]) := by
  have hd' := hd.length_lt
  have hrows : p.matrixData = p.matrixData.dropLast ++ [last] :=
    (List.dropLast_append_getLast? last hlast).symm
  -- the new column widths: only the cell's column moves
  have hcol : ∀ j, (columnWidth (p.matrixData.dropLast ++ [last ++ [data]]) j : Int) =
      if j = last.length then max (columnWidth p.matrixData j : Int) data.length
      else columnWidth p.matrixData j := by
    intro j
    conv_rhs => rw [hrows]
    rw [columnWidth_snoc, columnWidth_snoc, cellWidth_snoc]
    split_ifs with h
    · subst h; rw [cellWidth_length]; omega
    · rfl
  refine ⟨_, appendData_ok data hlast hcur h0 h1 hd', by split_ifs <;> simp, fun j hj => ?_⟩
  have hj' : j < p.maxColWidth.length := by split_ifs at hj <;> simpa using hj
  rw [hcol j]
  by_cases hjl : j = last.length
  · subst hjl
    rw [if_pos rfl]
    split_ifs with hc
    · rw [List.getElem?_set_self hj', Option.some.injEq]; omega
    · rw [hcur, Option.some.injEq]; omega
  · rw [if_neg hjl]
    split_ifs
    · rw [List.getElem?_set_ne (Ne.symm hjl)]; exact hoth j hj' hjl
    · exact hoth j hj' hjl

/-- A table that grew by its last row keeps the layout, given what each member function
    checks of the rows it leaves and of the row it writes. -/
theorem layout_snoc {maxColWidth : List Int} {rows : List (List String)} {row : List String}
    (htitle : ∃ t rest, rows ++ [row] = t :: rest ∧ t.length = maxColWidth.length)
    (hrows : ∀ r ∈ rows, (r ≠ [] ∧ r.length ≤ maxColWidth.length) ∧ ∀ cell ∈ r, Fits cell)
    (hrow : (row ≠ [] ∧ row.length ≤ maxColWidth.length) ∧ ∀ cell ∈ row, Fits cell)
    (hw : Widths maxColWidth (rows ++ [row])) : Layout ⟨maxColWidth, rows ++ [row]⟩ := by
  have hall := List.forall_mem_append.mpr ⟨hrows, List.forall_mem_singleton.mpr hrow⟩
  exact ⟨htitle, fun r hr => (hall r hr).1, hw, fun r hr => (hall r hr).2⟩

theorem Layout.of_mem {p : TablePrinter} (h : Layout p) {r : List String} (hr : r ∈ p.matrixData) :
    (r ≠ [] ∧ r.length ≤ p.maxColWidth.length) ∧ ∀ cell ∈ r, Fits cell :=
  ⟨h.rowsFit r hr, h.cellsFit r hr⟩

/-- The title row is not empty, so there is a first column. -/
theorem Layout.width_pos {p : TablePrinter} (h : Layout p) : 0 < p.maxColWidth.length := by
  obtain ⟨t, rows, hm, ht⟩ := h.titled
  rw [← ht]
  exact List.length_pos.mpr (h.rowsFit t (hm ▸ List.mem_cons_self _ _)).1

/-- **`append_data` KEEPS THE LAYOUT**, for a cell that fits on a last row with room. -/
theorem appendData_layout {p : TablePrinter} (h : Layout p) {last : List String}
    (hlast : p.matrixData.getLast? = some last) (hroom : last.length < p.maxColWidth.length)
    {data : String} (hd : Fits data) :
    ∃ p', appendData p data = .ok p' ∧ Layout p' ∧ p'.maxColWidth.length = p.maxColWidth.length ∧
      p'.matrixData = p.matrixData.dropLast ++ [last ++ [data]] := by
  obtain ⟨t, rows, hm, ht⟩ := h.titled
  have hw := columnWidth_fits h.cellsFit last.length
  obtain ⟨mcw, hok, hlen, hwid⟩ := appendData_widths hlast (h.widths _ hroom) (by omega)
    (by unfold spaceWidth at hw; omega) hd (fun j hj _ => h.widths j hj) rfl
  have hlm := List.mem_of_getLast?_eq_some hlast
  refine ⟨_, hok, layout_snoc ?_ (fun r hr => hlen ▸ h.of_mem (List.dropLast_subset _ hr)) ?_ hwid,
    hlen, rfl⟩
  · -- the title row has no room, so it is not the last row
    have hne : rows ≠ [] := by
      rintro rfl
      rw [hm, List.getLast?_singleton, Option.some.injEq] at hlast
      subst hlast; omega
    exact ⟨t, rows.dropLast ++ [last ++ [data]], by rw [hm, List.dropLast_cons_of_ne_nil hne]; rfl,
      hlen ▸ ht⟩
  · exact ⟨⟨by simp, by rw [hlen, List.length_append, List.length_singleton]; omega⟩,
      List.forall_mem_append.mpr ⟨h.cellsFit last hlm, List.forall_mem_singleton.mpr hd⟩⟩

/-- **`add_row` KEEPS THE LAYOUT**, for a name that fits. -/
theorem addRow_layout {p : TablePrinter} (h : Layout p) {rowName : String} (hn : Fits rowName) :
    ∃ p', addRow p rowName = .ok p' ∧ Layout p' ∧ p'.maxColWidth.length = p.maxColWidth.length ∧
      p'.matrixData = p.matrixData ++ [[rowName]] := by
  obtain ⟨t, rows, hm, ht⟩ := h.titled
  have hw := columnWidth_fits h.cellsFit 0
  have hl : (TablePrinter.mk p.maxColWidth (p.matrixData ++ [[]])).matrixData.getLast? = some [] :=
    List.getLast?_concat _
  -- an empty row widens no column
  have hempty : ∀ j, columnWidth (p.matrixData ++ [[]]) j = columnWidth p.matrixData j := by
    intro j; rw [columnWidth_snoc]; simp [cellWidth]
  have hcur : (TablePrinter.mk p.maxColWidth (p.matrixData ++ [[]])).maxColWidth[([] : List String).length]? =
      some (columnWidth p.matrixData 0 : Int) := h.widths 0 h.width_pos
  obtain ⟨mcw, hok, hlen, hwid⟩ := appendData_widths hl hcur (by omega)
    (by unfold spaceWidth at hw; omega) hn (fun j hj _ => by simpa only [hempty] using h.widths j hj)
    (by simp only [hempty, List.length_nil])
  simp only [List.dropLast_concat, List.nil_append] at hok hwid
  refine ⟨_, hok, layout_snoc ⟨t, rows ++ [[rowName]], by rw [hm]; rfl, hlen ▸ ht⟩
    (fun r hr => hlen ▸ h.of_mem hr) ⟨⟨by simp, ?_⟩, by simpa using hn⟩ hwid, hlen, rfl⟩
  simpa [hlen] using h.width_pos

/-- **`add_column` KEEPS THE LAYOUT**, while the title row is the only row, for a name that
    fits: one more column, whose width is the name's length. -/
theorem addColumn_layout {p : TablePrinter} (h : Layout p) {t : List String}
    (ht : p.matrixData = [t]) {colName : String} (hc : Fits colName) :
    ∃ p', addColumn p colName = .ok p' ∧ Layout p' ∧
      p'.maxColWidth.length = p.maxColWidth.length + 1 ∧ p'.matrixData = [t ++ [colName]] := by
  obtain ⟨t', rows, hm, htl⟩ := h.titled
  obtain ⟨rfl, rfl⟩ : t = t' ∧ rows = [] := by simpa [ht, eq_comm] using hm
  have hc' := hc.length_lt
  have h32 : toInt32 colName.length = colName.length := toInt32_eq_self (by omega)
  have hl : (TablePrinter.mk (p.maxColWidth ++ [(colName.length : Int)]) [t]).matrixData.getLast? =
      some t := rfl
  have hcur : (p.maxColWidth ++ [(colName.length : Int)])[t.length]? = some (colName.length : Int) := by
    rw [htl]; simp
  -- the other columns are the old ones, and the new one has no cell yet
  have hoth : ∀ j < (p.maxColWidth ++ [(colName.length : Int)]).length, j ≠ t.length →
      (p.maxColWidth ++ [(colName.length : Int)])[j]? = some (columnWidth [t] j : Int) := by
    intro j hj hjt
    rw [List.length_append, List.length_singleton] at hj
    rw [List.getElem?_append_left (by omega), ← ht]
    exact h.widths j (by omega)
  obtain ⟨mcw, hok, hlen, hwid⟩ := appendData_widths hl hcur (by omega) (by omega) hc hoth
    (by rw [columnWidth_cons, columnWidth_nil, cellWidth_length]; omega)
  simp only [List.length_append, List.length_singleton] at hlen
  have hadd : addColumn p colName = appendData ⟨p.maxColWidth ++ [(colName.length : Int)], [t]⟩ colName := by
    rw [addColumn, if_pos (by rw [ht]; rfl), h32, ht]
  refine ⟨_, hadd.trans hok, ?_, hlen, rfl⟩
  exact layout_snoc ⟨t ++ [colName], [], rfl, by simp [hlen, htl]⟩ (by simp)
    ⟨⟨by simp, by simp [hlen, htl]⟩,
      List.forall_mem_append.mpr ⟨h.cellsFit t (by simp [ht]), List.forall_mem_singleton.mpr hc⟩⟩ hwid

/-- **`add_title` STARTS THE LAYOUT**, for a title that fits: one column, as wide as the
    title, and the title row. -/
theorem addTitle_layout {title : String} (ht : Fits title) :
    addTitle .empty title = .ok ⟨[title.length], [[title]]⟩ ∧ Layout ⟨[title.length], [[title]]⟩ := by
  have ht' := ht.length_lt
  have h32 : toInt32 title.length = title.length := toInt32_eq_self (by omega)
  have hl : (TablePrinter.mk [(title.length : Int)] [[]]).matrixData.getLast? = some [] := rfl
  have hcur : (TablePrinter.mk [(title.length : Int)] [[]]).maxColWidth[([] : List String).length]? =
      some (title.length : Int) := rfl
  have hadd : addTitle .empty title = appendData ⟨[(title.length : Int)], [[]]⟩ title := by
    rw [addTitle, if_pos ⟨rfl, rfl⟩, addRow, h32]; rfl
  rw [hadd, appendData_ok title hl hcur (by omega) (by omega) ht', if_neg (Int.lt_irrefl _)]
  refine ⟨rfl, @layout_snoc [(title.length : Int)] [] [title] ⟨[title], [], rfl, rfl⟩ (by simp)
    ⟨⟨by simp, by simp⟩, by simpa using ht⟩ ?_⟩
  intro j hj
  obtain rfl : j = 0 := by simpa using hj
  simp [cellWidth]

-- ── Call sequences keep the layout ───────────────────────────────────────────────────

/-- The text `append_data` stores for a value. -/
def cellText (fixedFormat : Nat → Float → String) : Cell → String
  | .uint64 data => toString data.toNat
  | .double data => if data.abs < 1e-6 then "0.00" else fixedFormat precision data

theorem callPrinter_appendData (fixedFormat : Nat → Float → String) (p : TablePrinter) (c : Cell) :
    callPrinter fixedFormat p (.appendData c) = appendData p (cellText fixedFormat c) := by
  cases c with
  | uint64 data => rfl
  | double data => simp only [callPrinter, appendDataDouble, cellText]; split_ifs <;> rfl

section Runs

variable (fixedFormat : Nat → Float → String)

theorem runCalls_cons_ok {p q : TablePrinter} {c : PrinterCall} (h : callPrinter fixedFormat p c = .ok q)
    (cs : List PrinterCall) : runCalls fixedFormat p (c :: cs) = runCalls fixedFormat q cs := by
  simp only [runCalls, h]

theorem runCalls_append {p q : TablePrinter} {cs : List PrinterCall} (h : runCalls fixedFormat p cs = .ok q)
    (ds : List PrinterCall) : runCalls fixedFormat p (cs ++ ds) = runCalls fixedFormat q ds := by
  induction cs generalizing p with
  | nil => cases h; rfl
  | cons c cs ih =>
    rcases hc : callPrinter fixedFormat p c with e | p'
    · simp only [runCalls, hc] at h; cases h
    · rw [runCalls_cons_ok fixedFormat hc] at h
      rw [List.cons_append, runCalls_cons_ok fixedFormat hc, ih h]

/-- The `add_column` calls, while the title row is the only row. -/
theorem runCalls_columns {p : TablePrinter} (h : Layout p) {t : List String} (ht : p.matrixData = [t])
    (cols : List String) (hc : ∀ c ∈ cols, Fits c) :
    ∃ p', runCalls fixedFormat p (cols.map .addColumn) = .ok p' ∧ Layout p' ∧
      p'.maxColWidth.length = p.maxColWidth.length + cols.length ∧ p'.matrixData = [t ++ cols] := by
  induction cols generalizing p t with
  | nil => exact ⟨p, rfl, h, rfl, by rw [ht, List.append_nil]⟩
  | cons c cols ih =>
    obtain ⟨q, hq, hlq, hlen, hm⟩ := addColumn_layout h ht (hc c (List.mem_cons_self _ _))
    obtain ⟨p', hp', hl', hlen', hm'⟩ := ih hlq hm fun c' h' => hc c' (List.mem_cons_of_mem _ h')
    refine ⟨p', ?_, hl', ?_, ?_⟩
    · rw [List.map_cons, runCalls_cons_ok fixedFormat (show callPrinter fixedFormat p (.addColumn c) = _ from hq)]
      exact hp'
    · rw [hlen', hlen, List.length_cons]; omega
    · rw [hm', List.append_assoc, List.singleton_append]

/-- The `append_data` calls of one row, on a last row with room for them. -/
theorem runCalls_cells {p : TablePrinter} (h : Layout p) {last : List String}
    (hlast : p.matrixData.getLast? = some last) (cells : List Cell)
    (hroom : last.length + cells.length ≤ p.maxColWidth.length)
    (hc : ∀ c ∈ cells, Fits (cellText fixedFormat c)) :
    ∃ p', runCalls fixedFormat p (cells.map .appendData) = .ok p' ∧ Layout p' ∧
      p'.maxColWidth.length = p.maxColWidth.length ∧
      p'.matrixData = p.matrixData.dropLast ++ [last ++ cells.map (cellText fixedFormat)] := by
  induction cells generalizing p last with
  | nil => exact ⟨p, rfl, h, rfl, by rw [List.map_nil, List.append_nil, List.dropLast_append_getLast? _ hlast]⟩
  | cons c cells ih =>
    rw [List.length_cons] at hroom
    obtain ⟨q, hq, hlq, hlen, hm⟩ :=
      appendData_layout h hlast (by omega) (hc c (List.mem_cons_self _ _))
    have hlast' : q.matrixData.getLast? = some (last ++ [cellText fixedFormat c]) := by
      rw [hm]; exact List.getLast?_concat _
    obtain ⟨p', hp', hl', hlen', hm'⟩ := ih hlq hlast' (by rw [hlen, List.length_append]; simp; omega)
      fun c' h' => hc c' (List.mem_cons_of_mem _ h')
    refine ⟨p', ?_, hl', hlen'.trans hlen, ?_⟩
    · rw [List.map_cons, runCalls_cons_ok fixedFormat (by rw [callPrinter_appendData]; exact hq)]
      exact hp'
    · rw [hm', hm, List.dropLast_concat, List.map_cons, List.append_assoc, List.singleton_append]

/-- The calls of one data row: `add_row`, then an `append_data` per cell. -/
def rowCalls (r : String × List Cell) : List PrinterCall := .addRow r.1 :: r.2.map .appendData

/-- The row those calls fill. -/
def rowText (r : String × List Cell) : List String := r.1 :: r.2.map (cellText fixedFormat)

/-- **DATA ROWS KEEP THE LAYOUT**: rows of names and cells that fit, each with at most as
    many cells as there are columns after its name. -/
theorem runCalls_rows {p : TablePrinter} (h : Layout p) (rows : List (String × List Cell))
    (hroom : ∀ r ∈ rows, r.2.length + 1 ≤ p.maxColWidth.length)
    (hfit : ∀ r ∈ rows, ∀ cell ∈ rowText fixedFormat r, Fits cell) :
    ∃ p', runCalls fixedFormat p (rows.flatMap rowCalls) = .ok p' ∧ Layout p' ∧
      p'.maxColWidth.length = p.maxColWidth.length ∧
      p'.matrixData = p.matrixData ++ rows.map (rowText fixedFormat) := by
  induction rows generalizing p with
  | nil => exact ⟨p, rfl, h, rfl, by rw [List.map_nil, List.append_nil]⟩
  | cons r rows ih =>
    have hr := hfit r (List.mem_cons_self _ _)
    obtain ⟨q, hq, hlq, hlen, hm⟩ := addRow_layout h (hr r.1 (List.mem_cons_self _ _))
    have hlast : q.matrixData.getLast? = some [r.1] := by rw [hm]; exact List.getLast?_concat _
    obtain ⟨q', hq', hlq', hlen', hm'⟩ := runCalls_cells fixedFormat hlq hlast r.2
      (by rw [hlen]; have := hroom r (List.mem_cons_self _ _); simp; omega)
      fun c hc => hr _ (List.mem_cons_of_mem _ (List.mem_map_of_mem _ hc))
    obtain ⟨p', hp', hl', hlen3, hm3⟩ := ih hlq'
      (fun r' h' => by rw [hlen', hlen]; exact hroom r' (List.mem_cons_of_mem _ h'))
      fun r' h' => hfit r' (List.mem_cons_of_mem _ h')
    have hrun : runCalls fixedFormat p (rowCalls r) = .ok q' := by
      rw [rowCalls, runCalls_cons_ok fixedFormat (show callPrinter fixedFormat p (.addRow r.1) = _ from hq)]
      exact hq'
    refine ⟨p', ?_, hl', hlen3.trans (hlen'.trans hlen), ?_⟩
    · rw [List.flatMap_cons, runCalls_append fixedFormat hrun]; exact hp'
    · rw [hm3, hm', hm, List.dropLast_concat, List.map_cons, List.append_assoc]; rfl

end Runs

-- ── What `output` prints ─────────────────────────────────────────────────────────────

/-- A cell of column `j` in a field of width `w j`: left-aligned in the first column, which
    holds the row's name, right-aligned in the others. -/
def field (w : Nat → Int) (j : Nat) (cell : String) : String :=
  if j = 0 then setwLeft (w j) cell else setwRight (w j) cell

/-- A row's cells from column `j`, each in its field. -/
def renderCells (w : Nat → Int) : Nat → List String → String
  | _, [] => ""
  | j, cell :: cells => field w j cell ++ renderCells w (j + 1) cells

/-- The table as it should print: every row's cells in their fields, a line per row. -/
def renderTable (w : Nat → Int) : List (List String) → String
  | [] => ""
  | row :: rows => renderCells w 0 row ++ "\n" ++ renderTable w rows

/-- A field is as wide as its width, or as the cell where the cell is wider. -/
theorem length_field (w : Nat → Int) (j : Nat) (cell : String) :
    (field w j cell).length = max (w j).toNat cell.length := by
  unfold field setwLeft setwRight
  split_ifs <;> simp only [String.length_append, String.length_pushn, String.length_empty] <;> omega

/-- With the layout, `max_col_width[j] + space_width` is the column's longest cell plus
    `space_width`, and fits an `int`. -/
theorem fieldWidth_layout {p : TablePrinter} (h : Layout p) {j : Nat} (hj : j < p.maxColWidth.length) :
    fieldWidth p.maxColWidth j = .ok (columnWidth p.matrixData j + spaceWidth) := by
  have hw := columnWidth_fits h.cellsFit j
  simp only [fieldWidth, h.widths j hj]
  rw [if_pos ⟨by unfold spaceWidth; omega, hw⟩]

section Output

variable {p : TablePrinter} (h : Layout p)
include h

theorem outputCells_layout (cells : List String) {i : Nat} (hi : 0 < i)
    (hroom : i + cells.length ≤ p.maxColWidth.length) :
    outputCells p.maxColWidth i cells =
      .ok (renderCells (fun j => columnWidth p.matrixData j + spaceWidth) i cells) := by
  induction cells generalizing i with
  | nil => rfl
  | cons c cells ih =>
    rw [List.length_cons] at hroom
    rw [outputCells, fieldWidth_layout h (by omega), ih (by omega) (by omega), renderCells, field,
      if_neg (by omega)]
    rfl

theorem outputRows_layout (rows : List (List String)) (hrows : ∀ row ∈ rows, row ∈ p.matrixData) :
    outputRows p.maxColWidth rows =
      .ok (renderTable (fun j => columnWidth p.matrixData j + spaceWidth) rows) := by
  induction rows with
  | nil => rfl
  | cons row rows ih =>
    obtain ⟨hne, hlen⟩ := h.rowsFit row (hrows row (List.mem_cons_self _ _))
    obtain ⟨name, cells, rfl⟩ := List.exists_cons_of_ne_nil hne
    rw [List.length_cons] at hlen
    rw [outputRows, outputRow, fieldWidth_layout h h.width_pos, outputCells_layout h cells Nat.one_pos (by omega),
      ih fun r hr => hrows r (List.mem_cons_of_mem _ hr)]
    rfl

/-- **`output` PRINTS THE TABLE.**  With the layout, `output` runs to its end and prints every
    row with each column `j` in a field of width `columnWidth j + space_width`. -/
theorem output_layout :
    output p = .ok (renderTable (fun j => columnWidth p.matrixData j + spaceWidth) p.matrixData) := by
  rw [output, if_neg (List.ne_nil_of_length_pos h.width_pos)]
  exact outputRows_layout h _ fun _ hr => hr

end Output

-- ── A whole table ───────────────────────────────────────────────────────────────────

/-- The calls that print a table: `add_title`, an `add_column` per further column, then each
    data row's `add_row` and `append_data` calls. -/
def tableScript (title : String) (cols : List String) (rows : List (String × List Cell)) :
    List PrinterCall :=
  .addTitle title :: (cols.map .addColumn ++ rows.flatMap rowCalls)

/-- The table those calls fill. -/
def tableOf (fixedFormat : Nat → Float → String) (title : String) (cols : List String)
    (rows : List (String × List Cell)) : List (List String) :=
  (title :: cols) :: rows.map (rowText fixedFormat)

/-- **THE WIDTHS ARE THE COLUMN MAXIMA.**  Call `add_title`, `add_column` for each further
    column, then for each data row `add_row` and at most as many `append_data` as there are
    columns after its name, every text short enough that its length plus `space_width`
    fits an `int`.  Every call returns, so no index into `max_col_width` leaves its range;
    the printer holds the table, every row fits the title row, and `max_col_width[j]` is the
    longest cell of column `j`; `output` runs to its end and prints every cell in a field at
    least `space_width` longer than the cell. -/
theorem table_printer_widths (fixedFormat : Nat → Float → String) (title : String)
    (cols : List String) (rows : List (String × List Cell))
    (hcells : ∀ r ∈ rows, r.2.length ≤ cols.length)
    (hfit : ∀ row ∈ tableOf fixedFormat title cols rows, ∀ cell ∈ row, Fits cell) :
    ∃ p, runCalls fixedFormat .empty (tableScript title cols rows) = .ok p ∧
      p.matrixData = tableOf fixedFormat title cols rows ∧
      p.maxColWidth.length = cols.length + 1 ∧
      (∀ row ∈ p.matrixData, row.length ≤ p.maxColWidth.length) ∧
      Widths p.maxColWidth p.matrixData ∧
      output p = .ok (renderTable (fun j => columnWidth p.matrixData j + spaceWidth) p.matrixData) ∧
      ∀ row ∈ p.matrixData, ∀ j cell, row[j]? = some cell →
        (cell.length : Int) + spaceWidth ≤
          (field (fun j => columnWidth p.matrixData j + spaceWidth) j cell).length := by
  have h0 := hfit _ (List.mem_cons_self _ _)
  obtain ⟨ht, hl⟩ := addTitle_layout (h0 title (List.mem_cons_self _ _))
  obtain ⟨p1, hp1, hl1, hlen1, hm1⟩ := runCalls_columns fixedFormat hl rfl cols
    fun c hc => h0 c (List.mem_cons_of_mem _ hc)
  obtain ⟨p2, hp2, hl2, hlen2, hm2⟩ := runCalls_rows fixedFormat hl1 rows
    (fun r hr => by rw [hlen1, List.length_singleton]; have := hcells r hr; omega)
    fun r hr => hfit _ (List.mem_cons_of_mem _ (List.mem_map_of_mem _ hr))
  refine ⟨p2, ?_, by rw [hm2, hm1]; rfl, by rw [hlen2, hlen1, List.length_singleton]; omega,
    fun row hrow => (hl2.rowsFit row hrow).2, hl2.widths, output_layout hl2, ?_⟩
  · rw [tableScript, runCalls_cons_ok fixedFormat (show callPrinter _ _ (.addTitle title) = _ from ht),
      runCalls_append fixedFormat hp1]
    exact hp2
  · -- a field is at least as wide as its column's longest cell plus `space_width`
    intro row hrow j cell hcell
    rw [length_field]
    have := le_columnWidth hrow hcell
    unfold spaceWidth
    omega

/-- A title, one column, and two rows, the second without a cell. -/
def sampleRows : List (String × List Cell) := [("t1", [.uint64 12]), ("t2", [])]

theorem table_printer_widths_sample :
    (∀ r ∈ sampleRows, r.2.length ≤ ["qps"].length) ∧
      (∀ row ∈ tableOf (fun _ x => x.toString) "app" ["qps"] sampleRows, ∀ cell ∈ row, Fits cell) ∧
      ∃ p, runCalls (fun _ x => x.toString) .empty (tableScript "app" ["qps"] sampleRows) = .ok p ∧
        p.matrixData = tableOf (fun _ x => x.toString) "app" ["qps"] sampleRows ∧
        p.maxColWidth.length = ["qps"].length + 1 ∧
        (∀ row ∈ p.matrixData, row.length ≤ p.maxColWidth.length) ∧
        Widths p.maxColWidth p.matrixData ∧
        output p = .ok (renderTable (fun j => columnWidth p.matrixData j + spaceWidth) p.matrixData) ∧
        ∀ row ∈ p.matrixData, ∀ j cell, row[j]? = some cell →
          (cell.length : Int) + spaceWidth ≤
            (field (fun j => columnWidth p.matrixData j + spaceWidth) j cell).length :=
  ⟨by decide, by decide,
    table_printer_widths (fun _ x => x.toString) "app" ["qps"] sampleRows (by decide) (by decide)⟩

example : runCalls (fun _ x => x.toString) .empty (tableScript "app" ["qps"] sampleRows) =
    .ok ⟨[3, 3], [["app", "qps"], ["t1", "12"], ["t2"]]⟩ := rfl

example : output ⟨[3, 3], [["app", "qps"], ["t1", "12"], ["t2"]]⟩ =
    .ok "app    qps\nt1      12\nt2   \n" := rfl

-- ── Reading the table back ──────────────────────────────────────────────────────────

/-- The pieces of a text between occurrences of `sep`, empty pieces dropped; `acc` is the
    piece read so far, reversed. -/
def splitDropAux (sep : Char) : List Char → List Char → List (List Char)
  | acc, [] => if acc = [] then [] else [acc.reverse]
  | acc, c :: cs =>
    if c = sep then (if acc = [] then splitDropAux sep [] cs else acc.reverse :: splitDropAux sep [] cs)
    else splitDropAux sep (c :: acc) cs

/-- The pieces of a text between occurrences of `sep`, empty pieces dropped: with `' '`,
    the fields a shell script's `awk` or `read` sees in a line. -/
def splitDrop (sep : Char) (l : List Char) : List (List Char) := splitDropAux sep [] l

/-- A printed table read back: its lines, each split into its fields at the spaces. -/
def readTable (text : String) : List (List String) :=
  (splitDrop '\n' text.data).map fun line => (splitDrop ' ' line).map String.mk

section Read

variable {sep : Char}

/-- Characters other than `sep` only grow the piece being read. -/
theorem splitDropAux_chunk (w : List Char) (hw : ∀ c ∈ w, c ≠ sep) (acc t : List Char) :
    splitDropAux sep acc (w ++ t) = splitDropAux sep (w.reverse ++ acc) t := by
  induction w generalizing acc with
  | nil => rfl
  | cons c w ih =>
    rw [List.cons_append, splitDropAux, if_neg (hw c (List.mem_cons_self _ _)),
      ih (fun d hd => hw d (List.mem_cons_of_mem _ hd))]
    simp

/-- A separator before any piece is dropped. -/
theorem splitDrop_sep_cons (t : List Char) : splitDrop sep (sep :: t) = splitDrop sep t := by
  rw [splitDrop, splitDropAux, if_pos rfl, if_pos rfl]
  rfl

theorem splitDrop_replicate (n : Nat) (t : List Char) :
    splitDrop sep (List.replicate n sep ++ t) = splitDrop sep t := by
  induction n with
  | zero => rfl
  | succ n ih => rw [List.replicate_succ, List.cons_append, splitDrop_sep_cons, ih]

/-- A piece ended by a separator, or by the end of the text, is read whole. -/
theorem splitDrop_piece {w : List Char} (hne : w ≠ []) (hw : ∀ c ∈ w, c ≠ sep) {t : List Char}
    (ht : t = [] ∨ ∃ t', t = sep :: t') : splitDrop sep (w ++ t) = w :: splitDrop sep t := by
  have hrev : w.reverse ≠ [] := by simpa using hne
  rw [splitDrop, splitDropAux_chunk w hw, List.append_nil]
  rcases ht with rfl | ⟨t', rfl⟩
  · simp [splitDropAux, hrev, splitDrop]
  · rw [splitDropAux, if_pos rfl, if_neg hrev, List.reverse_reverse, splitDrop_sep_cons]
    rfl

end Read

theorem data_pushn (c : Char) (n : Nat) : ("".pushn c n).data = List.replicate n c := by
  induction n with
  | zero => rfl
  | succ n ih =>
    show (("".pushn c n).push c).data = _
    rw [String.data_push, ih, List.replicate_succ']

/-- A field's characters are padding or the cell's. -/
theorem mem_field {w : Nat → Int} {j : Nat} {cell : String} {ch : Char}
    (h : ch ∈ (field w j cell).data) : ch = ' ' ∨ ch ∈ cell.data := by
  unfold field setwLeft setwRight at h
  split_ifs at h <;> simp only [String.data_append, data_pushn, List.mem_append,
    List.mem_replicate] at h <;> tauto

/-- A line's characters are padding or characters of its cells. -/
theorem mem_renderCells {w : Nat → Int} {ch : Char} :
    ∀ {j : Nat} {cells : List String}, ch ∈ (renderCells w j cells).data →
      ch = ' ' ∨ ∃ cell ∈ cells, ch ∈ cell.data
  | _, [], h => by simp [renderCells] at h
  | _, cell :: _, h => by
    rw [renderCells, String.data_append, List.mem_append] at h
    rcases h with h | h
    · exact (mem_field h).imp_right fun h => ⟨cell, List.mem_cons_self _ _, h⟩
    · exact (mem_renderCells h).imp_right fun ⟨c, hc, h⟩ => ⟨c, List.mem_cons_of_mem _ hc, h⟩

/-- The cells from column `j ≥ 1` read back, when every cell is a nonempty word narrower than
    its field; the text is empty or starts with padding. -/
theorem splitDrop_renderCells (w : Nat → Int) :
    ∀ (cells : List String) (j : Nat), 0 < j → (∀ c ∈ cells, c.data ≠ [] ∧ ' ' ∉ c.data) →
      (∀ k c, cells[k]? = some c → c.length < (w (j + k)).toNat) →
      splitDrop ' ' (renderCells w j cells).data = cells.map String.data ∧
        ((renderCells w j cells).data = [] ∨ ∃ t, (renderCells w j cells).data = ' ' :: t)
  | [], _, _, _, _ => ⟨rfl, .inl rfl⟩
  | c :: cells, j, hj, hc, hw => by
    obtain ⟨ih, hstart⟩ := splitDrop_renderCells w cells (j + 1) (by omega)
      (fun d hd => hc d (List.mem_cons_of_mem _ hd))
      (fun k d hd => by
        rw [show j + 1 + k = j + (k + 1) by omega]
        exact hw (k + 1) d (by rwa [List.getElem?_cons_succ]))
    have hpad : 0 < (w j).toNat - c.length := by
      have := hw 0 c List.getElem?_cons_zero
      rw [Nat.add_zero] at this
      omega
    obtain ⟨hne, hsp⟩ := hc c (List.mem_cons_self _ _)
    have hdata : (renderCells w j (c :: cells)).data =
        List.replicate ((w j).toNat - c.length) ' ' ++ (c.data ++ (renderCells w (j + 1) cells).data) := by
      simp [renderCells, field, setwRight, Nat.pos_iff_ne_zero.mp hj, data_pushn]
    obtain ⟨n, hn⟩ := Nat.exists_eq_succ_of_ne_zero hpad.ne'
    refine ⟨?_, .inr ⟨_, by rw [hdata, hn, List.replicate_succ, List.cons_append]⟩⟩
    rw [hdata, splitDrop_replicate, splitDrop_piece hne (fun d hd h => by subst h; exact hsp hd) hstart,
      ih]
    rfl

/-- One printed row reads back as its cells. -/
theorem splitDrop_row (w : Nat → Int) {row : List String} (hrow : row ≠ [])
    (hc : ∀ c ∈ row, c.data ≠ [] ∧ ' ' ∉ c.data)
    (hw : ∀ k c, row[k]? = some c → c.length < (w k).toNat) :
    splitDrop ' ' (renderCells w 0 row).data = row.map String.data := by
  obtain ⟨name, cells, rfl⟩ := List.exists_cons_of_ne_nil hrow
  obtain ⟨hrest, hstart⟩ := splitDrop_renderCells w cells 1 Nat.one_pos
    (fun d hd => hc d (List.mem_cons_of_mem _ hd))
    (fun k d hd => by
      rw [Nat.add_comm]
      exact hw (k + 1) d (by rwa [List.getElem?_cons_succ]))
  have hpad : 0 < (w 0).toNat - name.length := by
    have := hw 0 name List.getElem?_cons_zero
    omega
  obtain ⟨hne, hsp⟩ := hc name (List.mem_cons_self _ _)
  obtain ⟨n, hn⟩ := Nat.exists_eq_succ_of_ne_zero hpad.ne'
  have hdata : (renderCells w 0 (name :: cells)).data =
      name.data ++ (' ' :: (List.replicate n ' ' ++ (renderCells w 1 cells).data)) := by
    simp [renderCells, field, setwLeft, data_pushn, hn, List.replicate_succ]
  rw [hdata, splitDrop_piece hne (fun d hd h => by subst h; exact hsp hd) (.inr ⟨_, rfl⟩),
    splitDrop_sep_cons, splitDrop_replicate, hrest]
  rfl

/-- A printed table reads back as its rows, when every cell is a nonempty word without a
    line break, narrower than its field. -/
theorem readTable_renderTable (w : Nat → Int) :
    ∀ rows : List (List String), (∀ row ∈ rows, row ≠ [] ∧
        (∀ c ∈ row, c.data ≠ [] ∧ ' ' ∉ c.data ∧ '\n' ∉ c.data) ∧
        ∀ k c, row[k]? = some c → c.length < (w k).toNat) →
      readTable (renderTable w rows) = rows
  | [], _ => rfl
  | row :: rows, h => by
    obtain ⟨hne, hc, hw⟩ := h row (List.mem_cons_self _ _)
    have hline : (renderCells w 0 row).data ≠ [] := by
      obtain ⟨name, cells, rfl⟩ := List.exists_cons_of_ne_nil hne
      have := (hc name (List.mem_cons_self _ _)).1
      simp only [renderCells, field, setwLeft, if_pos rfl, String.data_append]
      simp [this]
    have hnl : ∀ ch ∈ (renderCells w 0 row).data, ch ≠ '\n' := fun ch hch hnl => by
      rcases mem_renderCells hch with h | ⟨c, hc', h⟩
      · rw [hnl] at h; cases h
      · exact (hc c hc').2.2 (hnl ▸ h)
    have ih := readTable_renderTable w rows fun r hr => h r (List.mem_cons_of_mem _ hr)
    have hdata : (renderTable w (row :: rows)).data =
        (renderCells w 0 row).data ++ ('\n' :: (renderTable w rows).data) := by
      simp [renderTable]
    rw [readTable, hdata, splitDrop_piece hline hnl (.inr ⟨_, rfl⟩), splitDrop_sep_cons, List.map_cons,
      ← readTable, ih,
      splitDrop_row w hne (fun c hc' => ⟨(hc c hc').1, (hc c hc').2.1⟩) hw, List.map_map,
      List.map_id'' (f := String.mk ∘ String.data) (fun _ => rfl)]

/-- **THE PRINTED TABLE READS BACK.**  With the layout, when every cell is nonempty and has
    no space and no line break, `output` prints a text whose lines, split at their spaces,
    are exactly the table's rows: every column is separated from the next by at least one
    space, and no field runs into another. -/
theorem output_reads_back {p : TablePrinter} (h : Layout p)
    (hcells : ∀ row ∈ p.matrixData, ∀ cell ∈ row, cell ≠ "" ∧ ' ' ∉ cell.data ∧ '\n' ∉ cell.data) :
    ∃ text, output p = .ok text ∧ readTable text = p.matrixData := by
  refine ⟨_, output_layout h, readTable_renderTable _ _ fun row hrow => ⟨(h.rowsFit row hrow).1,
    fun c hc => ?_, fun k c hk => ?_⟩⟩
  · obtain ⟨hne, hsp, hnl⟩ := hcells row hrow c hc
    exact ⟨fun hd => hne (by cases c; simp_all), hsp, hnl⟩
  · have := le_columnWidth hrow hk
    unfold spaceWidth
    omega

/-- The printer that the sample calls fill: a title, one column, two rows. -/
def samplePrinter : TablePrinter := ⟨[3, 3], [["app", "qps"], ["t1", "12"], ["t2"]]⟩

theorem output_reads_back_sample :
    Layout samplePrinter ∧
      (∀ row ∈ samplePrinter.matrixData, ∀ cell ∈ row,
        cell ≠ "" ∧ ' ' ∉ cell.data ∧ '\n' ∉ cell.data) ∧
      ∃ text, output samplePrinter = .ok text ∧ readTable text = samplePrinter.matrixData :=
  let h : Layout samplePrinter := ⟨⟨_, _, rfl, rfl⟩, by decide, by unfold Widths; decide, by decide⟩
  ⟨h, by decide, output_reads_back h (by decide)⟩

/-- A title of `2³¹` characters: `add_title` stores `-2³¹` as its width, and `output`
    prints it with no padding. -/
theorem addTitle_of_length {title : String} (h : title.length = 2 ^ 31) :
    addTitle .empty title = .ok ⟨[-2 ^ 31], [[title]]⟩ ∧
      output ⟨[-2 ^ 31], [[title]]⟩ = .ok (title ++ "\n") := by
  have h32 : toInt32 ((2 ^ 31 : Nat) : Int) = -2 ^ 31 := by decide
  have hs : ¬ toSizeT (-2 ^ 31) < 2 ^ 31 := by decide
  have hw : fieldWidth [-2 ^ 31] 0 = .ok (-2 ^ 31 + 2) := rfl
  have hpad : setwLeft (-2 ^ 31 + 2) title = title := by
    rw [setwLeft, show (-2 ^ 31 + 2 : Int).toNat = 0 from rfl, Nat.zero_sub]
    exact String.append_empty _
  constructor
  · simp only [addTitle, TablePrinter.empty, addRow, appendData, List.nil_append, List.getLast?_singleton,
      List.length_nil, h, h32]
    rw [if_pos ⟨trivial, trivial⟩]
    simp only [List.getElem?_cons_zero, hs, if_false]
    rfl
  · rw [output, if_neg (List.cons_ne_nil _ _)]
    simp only [outputRows, outputRow, outputCells, hw]
    show Except.ok (setwLeft (-2 ^ 31 + 2) title ++ "" ++ "\n" ++ "") = _
    rw [hpad, String.append_empty, String.append_empty]

/-- **A TITLE OF `2³¹` CHARACTERS.**  `add_title` stores its length in the `int` vector as
    `-2³¹`; compared as a `size_t` that is larger than the title, so `append_data` keeps it.
    The column's longest cell has `2³¹` characters, and `output` prints the title with no
    padding at all. -/
theorem add_title_truncates_long_title :
    ∃ title : String, title.length = 2 ^ 31 ∧ columnWidth [[title]] 0 = 2 ^ 31 ∧
      addTitle .empty title = .ok ⟨[-2 ^ 31], [[title]]⟩ ∧
      output ⟨[-2 ^ 31], [[title]]⟩ = .ok (title ++ "\n") := by
  obtain ⟨title, hlen⟩ : ∃ t : String, t.length = 2 ^ 31 :=
    ⟨⟨List.replicate (2 ^ 31) 'x'⟩, List.length_replicate _ _⟩
  exact ⟨title, hlen, by simp [columnWidth, cellWidth, hlen], addTitle_of_length hlen⟩

end PegasusTablePrinter
