import Mathlib.Algebra.Order.Field.Rat
import Mathlib.Algebra.Order.Floor.Ring
import Mathlib.Algebra.Order.Floor.Semiring
import Mathlib.Data.List.Infix
import Mathlib.Data.Rat.Floor
import Mathlib.Tactic.Linarith
import MempoolObserver.Library.Comparison

/-!
# Tables

A table view filters the rows by a query, sorts what is left by a column, clamps the
requested page and slices it out. Ties are broken by a key of the row that stays the
same while a live feed reorders the input.

Numbers are exact. For a whole page size the runtime's doubles compute the same ends of
a page; for a fractional one their roundings can lose a row between two pages, so the
main result speaks of whole sizes only.

## Main definitions

* `filterRows`, `sortRows`, `clampPage`, `tableView` — the pipeline
* `Matches` — what it is for a row to be found by the query

## Main results

* `flatten_pages` — the pages put together are the sorted rows
* `page_ne_nil_iff` — no page is empty exactly when a page holds at least one row
-/

namespace MempoolObserver

open Comparison

/-! ### Values -/

inductive Cell
  | text (value : String)
  | number (value : ℚ)
  deriving DecidableEq, Repr

/-- A number as the caller may pass it. -/
inductive JsNumber
  | finite (value : ℚ)
  | posInfinity | negInfinity | nan
  deriving DecidableEq, Repr

/-- The text operations of the runtime. -/
structure TextOps where
  trim : String → String
  toLowerCase : String → String
  ofNumber : ℚ → String
  localeCompare : String → String → ℚ

variable {T K : Type}

/-- What the pipeline reads of a column. -/
structure Column (T K : Type) where
  key : K
  value : T → Cell
  /-- Display text; the value as a string when there is none. -/
  text : Option (T → String)
  searchable : Bool

inductive SortDir
  | asc | desc
  deriving DecidableEq, Repr

structure SortState (K : Type) where
  key : K
  dir : SortDir

structure TableViewInput (T K : Type) where
  rows : List T
  columns : List (Column T K)
  sort : SortState K
  page : JsNumber
  pageSize : JsNumber
  query : Option String
  searchExtra : Option (T → List String)
  tiebreak : Option (T → Cell)

structure TableView (T : Type) where
  rows : List T
  page : ℤ
  pageCount : ℤ
  matched : ℕ
  total : ℕ

/-! ### The pipeline -/

section Pipeline

variable (ops : TextOps)

def TextOps.string : Cell → String
  | .text value => value
  | .number value => ops.ofNumber value

def includes (text query : String) : Bool := query.toList <:+: text.toList

def Column.display (column : Column T K) (row : T) : String :=
  match column.text with
  | some text => text row
  | none => ops.string (column.value row)

/-- Rows whose searchable columns, or whose extra strings, contain the query. -/
def filterRows (rows : List T) (columns : List (Column T K)) (query : Option String)
    (searchExtra : Option (T → List String)) : List T :=
  let q := ops.toLowerCase (ops.trim (query.getD ""))
  if q = "" then rows
  else rows.filter fun row =>
    columns.any (fun column => column.searchable &&
      (includes (ops.toLowerCase (ops.string (column.value row))) q ||
        includes (ops.toLowerCase (column.display ops row)) q)) ||
    (searchExtra.elim [] (· row)).any fun extra => includes (ops.toLowerCase extra) q

def compareValues : Cell → Cell → ℚ
  | .number a, .number b => a - b
  | a, b => ops.localeCompare (ops.string a) (ops.string b)

def SortDir.sign : SortDir → ℚ
  | .asc => 1
  | .desc => -1

/-- The comparison of the sort: by the column, then by the tiebreak. -/
def compareRows (column : Column T K) (dir : SortDir) (tiebreak : Option (T → Cell))
    (a b : T) : ℚ :=
  let cmp := compareValues ops (column.value a) (column.value b)
  if cmp ≠ 0 then cmp * dir.sign
  else
    match tiebreak with
    | some tiebreak => compareValues ops (tiebreak a) (tiebreak b)
    | none => 0

variable [DecidableEq K]

/-- Sorts by the column of the key; a key that no column has leaves the order untouched. -/
def sortRows (rows : List T) (columns : List (Column T K)) (sort : SortState K)
    (tiebreak : Option (T → Cell)) : List T :=
  match columns.find? (·.key = sort.key) with
  | none => rows
  | some column => Comparison.sort (compareRows ops column sort.dir tiebreak) rows

/-- At least one page, and just one for a size that is not a positive number. -/
def pageCount (matched : ℕ) : JsNumber → ℤ
  | .finite pageSize => if pageSize ≤ 0 then 1 else max 1 ⌈(matched : ℚ) / pageSize⌉
  | _ => 1

def clampPage (page : JsNumber) (matched : ℕ) (pageSize : JsNumber) : ℤ :=
  let count := pageCount matched pageSize
  let floored := match page with
    | .finite page => ⌊page⌋
    | _ => 1
  min (max floored 1) count

/-- An end of a slice: rounded towards zero, counted from the back when negative. -/
def relativeIndex (length : ℕ) (index : ℚ) : ℕ :=
  let whole := if index < 0 then ⌈index⌉ else ⌊index⌋
  if whole < 0 then (length + whole).toNat else min whole.toNat length

def slice (list : List T) (start stop : ℚ) : List T :=
  (list.drop (relativeIndex list.length start)).take
    (relativeIndex list.length stop - relativeIndex list.length start)

/-- Filter, sort, clamp the page, slice. -/
def tableView (input : TableViewInput T K) : TableView T :=
  let filtered := filterRows ops input.rows input.columns input.query input.searchExtra
  let sorted := sortRows ops filtered input.columns input.sort input.tiebreak
  let matched := sorted.length
  let clampedPage := clampPage input.page matched input.pageSize
  -- a size that is not a positive number means one page containing everything
  let size : ℚ := match input.pageSize with
    | .finite pageSize => if 0 < pageSize then pageSize else matched
    | _ => matched
  let start := (clampedPage - 1) * size
  ⟨slice sorted start (start + size), clampedPage, pageCount matched input.pageSize, matched,
    input.rows.length⟩

end Pipeline

/-! ### The query -/

section Query

variable (ops : TextOps)

/-- The query as it is searched for. -/
def needle (query : Option String) : String := ops.toLowerCase (ops.trim (query.getD ""))

/-- The row is found by the query: by the value or the display text of a searchable column, or
by one of its extra strings. An empty query finds every row. -/
def Matches (columns : List (Column T K)) (query : Option String)
    (searchExtra : Option (T → List String)) (row : T) : Prop :=
  needle ops query = "" ∨
    (∃ column ∈ columns, column.searchable = true ∧
      (includes (ops.toLowerCase (ops.string (column.value row))) (needle ops query) = true ∨
        includes (ops.toLowerCase (column.display ops row)) (needle ops query) = true)) ∨
    ∃ extra ∈ searchExtra.elim [] (· row),
      includes (ops.toLowerCase extra) (needle ops query) = true

instance (columns : List (Column T K)) (query : Option String)
    (searchExtra : Option (T → List String)) :
    DecidablePred (Matches ops columns query searchExtra) :=
  fun _ => inferInstanceAs (Decidable (_ ∨ _ ∨ _))

theorem filterRows_eq (rows : List T) (columns : List (Column T K)) (query : Option String)
    (searchExtra : Option (T → List String)) :
    filterRows ops rows columns query searchExtra =
      rows.filter fun row => Matches ops columns query searchExtra row := by
  by_cases empty : ops.toLowerCase (ops.trim (query.getD "")) = ""
  · simp [filterRows, Matches, needle, empty]
  · rw [filterRows, if_neg empty]
    apply List.filter_congr
    intro row _
    rw [Bool.eq_iff_iff]
    simp [Matches, needle, empty]

end Query

/-! ### The order of the rows -/

section Order

variable {ops : TextOps} {column : Column T K} {dir : SortDir} {tiebreak : Option (T → Cell)}

/-- The values of a key are ordered by `compareValues`. -/
def OrderedBy (ops : TextOps) (key : T → Cell) : Prop :=
  Orders fun a b => compareValues ops (key a) (key b)

/-- The row comes first by the column, or they tie and it comes first by the tiebreak. -/
def Before (ops : TextOps) (column : Column T K) (dir : SortDir) (tiebreak : Option (T → Cell))
    (a b : T) : Prop :=
  compareValues ops (column.value a) (column.value b) * dir.sign < 0 ∨
    compareValues ops (column.value a) (column.value b) = 0 ∧
      ∀ key, tiebreak = some key → compareValues ops (key a) (key b) ≤ 0

theorem SortDir.sign_cases (dir : SortDir) : dir.sign = 1 ∨ dir.sign = -1 := by
  cases dir with
  | asc => exact .inl rfl
  | desc => exact .inr rfl

theorem SortDir.sign_ne_zero (dir : SortDir) : dir.sign ≠ 0 := by
  cases dir <;> norm_num [SortDir.sign]

/-- The comparison among rows that tie in the column. -/
def compareTies (ops : TextOps) (tiebreak : Option (T → Cell)) (a b : T) : ℚ :=
  match tiebreak with
  | some key => compareValues ops (key a) (key b)
  | none => 0

theorem compareRows_eq_lex : compareRows ops column dir tiebreak =
    lex (fun a b => compareValues ops (column.value a) (column.value b) * dir.sign)
      (compareTies ops tiebreak) := by
  funext a b
  unfold compareRows lex
  simp only [ne_eq, mul_eq_zero, dir.sign_ne_zero, or_false]
  rfl

theorem orders_compareTies (ordered : ∀ key, tiebreak = some key → OrderedBy ops key) :
    Orders (compareTies ops tiebreak) := by
  cases tiebreak with
  | none => exact Orders.zero
  | some key => exact ordered key rfl

theorem orders_compareRows (ordered : OrderedBy ops column.value)
    (ties : ∀ key, tiebreak = some key → OrderedBy ops key) :
    Orders (compareRows ops column dir tiebreak) := by
  rw [compareRows_eq_lex]
  exact (Orders.mul_sign ordered dir.sign_cases).lex (orders_compareTies ties)

theorem before_of_compareRows_nonpos {a b : T}
    (first : compareRows ops column dir tiebreak a b ≤ 0) : Before ops column dir tiebreak a b := by
  rw [compareRows_eq_lex, lex_nonpos_iff] at first
  rcases first with before | ⟨tie, before⟩
  · exact .inl before
  · right
    refine ⟨by simpa [dir.sign_ne_zero] using tie, ?_⟩
    intro key given
    subst given
    exact before

theorem eq_of_compareRows_eq_zero {key : T → Cell} (given : tiebreak = some key)
    (apart : ∀ a b, compareValues ops (key a) (key b) = 0 → a = b) {a b : T}
    (tie : compareRows ops column dir tiebreak a b = 0) : a = b := by
  rw [compareRows_eq_lex, lex_eq_zero_iff] at tie
  subst given
  exact apart a b tie.2

end Order

/-! ### Slices -/

section Slices

variable {list : List T} {size : ℚ}

/-- Slices between ascending marks are neighbours. -/
theorem flatten_between (list : List T) {mark : ℕ → ℕ} (ascending : Monotone mark)
    (start : mark 0 = 0) (n : ℕ) :
    ((List.range n).map fun i => (list.drop (mark i)).take (mark (i + 1) - mark i)).flatten =
      list.take (mark n) := by
  induction n with
  | zero => simp [start]
  | succ n ih =>
    rw [List.range_succ, List.map_append, List.flatten_append, ih, List.map_singleton,
      List.flatten_singleton, ← List.take_add, Nat.add_sub_cancel' (ascending n.le_succ)]

/-- Where the page of this number begins. -/
def mark (list : List T) (size : ℚ) (i : ℕ) : ℕ := min ⌊(i : ℚ) * size⌋₊ list.length

theorem relativeIndex_eq {length : ℕ} {index : ℚ} (nonneg : 0 ≤ index) :
    relativeIndex length index = min ⌊index⌋₊ length := by
  unfold relativeIndex
  have whole : ¬ ⌊index⌋ < 0 := not_lt.mpr (Int.floor_nonneg.mpr nonneg)
  rw [if_neg nonneg.not_gt, if_neg whole, Int.floor_toNat]

theorem mark_mono (positive : 0 < size) : Monotone (mark list size) := by
  intro i j before
  apply min_le_min_right
  apply Nat.floor_mono
  exact mul_le_mul_of_nonneg_right (by exact_mod_cast before) positive.le

theorem slice_eq (positive : 0 < size) (i : ℕ) :
    slice list (i * size) (i * size + size) =
      (list.drop (mark list size i)).take (mark list size (i + 1) - mark list size i) := by
  have start : (0 : ℚ) ≤ i * size := by positivity
  have next : (i : ℚ) * size + size = ((i + 1 : ℕ) : ℚ) * size := by push_cast; ring
  rw [slice, relativeIndex_eq start, next, relativeIndex_eq (by positivity), mark, mark]

/-- The first slices together are the list up to where the next one begins. -/
theorem flatten_slices (positive : 0 < size) (n : ℕ) :
    ((List.range n).map fun i : ℕ => slice list (i * size) (i * size + size)).flatten =
      list.take (mark list size n) := by
  simp only [slice_eq positive]
  exact flatten_between list (mark_mono positive) (by simp [mark]) n

/-- With room for a row on each page, a page that begins before the end is not empty. -/
theorem slice_ne_nil (room : 1 ≤ size) {i : ℕ} (inside : i * size < list.length) :
    slice list (i * size) (i * size + size) ≠ [] := by
  have positive : 0 < size := by linarith
  have start : (0 : ℚ) ≤ i * size := by positivity
  have before : ⌊(i : ℚ) * size⌋₊ < list.length := (Nat.floor_lt start).mpr inside
  have grows : ⌊(i : ℚ) * size⌋₊ + 1 ≤ ⌊((i + 1 : ℕ) : ℚ) * size⌋₊ := by
    rw [← Nat.floor_add_one start]
    apply Nat.floor_mono
    push_cast
    linarith
  rw [slice_eq positive, mark, mark, min_eq_left before.le]
  intro empty
  rw [← List.length_eq_zero_iff, List.length_take, List.length_drop] at empty
  omega

/-- With room for less than a row, the first page is empty. -/
theorem slice_eq_nil (positive : 0 < size) (narrow : size < 1) : slice list 0 size = [] := by
  have none : ⌊size⌋₊ = 0 := Nat.floor_eq_zero.mpr narrow
  simp [slice, relativeIndex_eq le_rfl, relativeIndex_eq positive.le, none]

end Slices

/-! ### The pages -/

section Pages

variable [DecidableEq K] {ops : TextOps} {input : TableViewInput T K} {size : ℚ}

/-- The same table at another page. -/
def TableViewInput.atPage (input : TableViewInput T K) (page : JsNumber) : TableViewInput T K :=
  { input with page := page }

/-- The rows that are cut into pages. -/
def TableViewInput.sorted (ops : TextOps) (input : TableViewInput T K) : List T :=
  sortRows ops (filterRows ops input.rows input.columns input.query input.searchExtra)
    input.columns input.sort input.tiebreak

theorem one_le_pageCount (matched : ℕ) (pageSize : JsNumber) : 1 ≤ pageCount matched pageSize := by
  unfold pageCount
  split
  · split_ifs
    · exact le_rfl
    · exact le_max_left ..
  · exact le_rfl

theorem clampPage_mem (page : JsNumber) (matched : ℕ) (pageSize : JsNumber) :
    1 ≤ clampPage page matched pageSize ∧
      clampPage page matched pageSize ≤ pageCount matched pageSize :=
  ⟨le_min (le_max_right ..) (one_le_pageCount ..), min_le_right ..⟩

/-- A page in range is not moved. -/
theorem clampPage_of_mem {page : ℤ} {matched : ℕ} {pageSize : JsNumber} (first : 1 ≤ page)
    (last : page ≤ pageCount matched pageSize) :
    clampPage (.finite page) matched pageSize = page := by
  simp [clampPage, first, last]

variable (ops input) in
theorem tableView_rows (given : input.pageSize = .finite size) (positive : 0 < size) :
    (tableView ops input).rows = slice (input.sorted ops)
      (((tableView ops input).page - 1) * size)
        (((tableView ops input).page - 1) * size + size) := by
  simp only [tableView, given, if_pos positive]
  rfl

/-- A page number from the range begins before the end of the rows. -/
theorem begins_before {matched i : ℕ} (positive : 0 < size)
    (inRange : (i : ℤ) + 1 ≤ pageCount matched (.finite size)) (some : matched ≠ 0) :
    (i : ℚ) * size < matched := by
  rw [pageCount, if_neg positive.not_ge] at inRange
  have filled : (0 : ℚ) < matched / size := by positivity
  have least : 1 ≤ ⌈(matched : ℚ) / size⌉ := Int.one_le_ceil_iff.mpr filled
  rw [max_eq_right least] at inRange
  have below : (i : ℚ) < matched / size := by
    have := Int.lt_ceil.mp (Int.lt_of_add_one_le inRange)
    exact_mod_cast this
  exact (lt_div_iff₀ positive).mp below

/-- The last page reaches the end of the rows. -/
theorem mark_pageCount (positive : 0 < size) (list : List T) :
    mark list size (pageCount list.length (.finite size)).toNat = list.length := by
  have enough : (list.length : ℚ) ≤ ((pageCount list.length (.finite size)).toNat : ℚ) * size := by
    rw [← div_le_iff₀ positive]
    have count : ((pageCount list.length (.finite size)).toNat : ℤ) =
        pageCount list.length (.finite size) :=
      Int.toNat_of_nonneg (zero_le_one.trans (one_le_pageCount ..))
    have cast : ((pageCount list.length (.finite size)).toNat : ℚ) =
        (pageCount list.length (.finite size) : ℤ) := by
          exact_mod_cast congrArg (Int.cast (R := ℚ)) count
    rw [cast, pageCount, if_neg positive.not_ge]
    exact (Int.le_ceil _).trans (by exact_mod_cast le_max_right ..)
  rw [mark, min_eq_right]
  exact Nat.le_floor enough

/-- What the views of a table show, one page at a time, of the rows `all`. -/
structure Pages (ops : TextOps) (input : TableViewInput T K) (all : List T) : Prop where
  found : all.Perm (input.rows.filter fun row =>
    Matches ops input.columns input.query input.searchExtra row)
  ordered : ∀ column, input.columns.find? (·.key = input.sort.key) = some column →
    all.Pairwise (Before ops column input.sort.dir input.tiebreak)
  unordered : input.columns.find? (·.key = input.sort.key) = none →
    all = input.rows.filter fun row => Matches ops input.columns input.query input.searchExtra row
  whole : ((List.range (tableView ops input).pageCount.toNat).map fun i : ℕ =>
    (tableView ops (input.atPage (.finite (i + 1)))).rows).flatten = all
  inRange : ∀ page, 1 ≤ (tableView ops (input.atPage page)).page ∧
    (tableView ops (input.atPage page)).page ≤ (tableView ops input).pageCount
  answered : ∀ page, (tableView ops (input.atPage page)).rows =
    (tableView ops (input.atPage (.finite (tableView ops (input.atPage page)).page))).rows
  filled : all ≠ [] → ∀ page : ℤ, 1 ≤ page → page ≤ (tableView ops input).pageCount →
    (tableView ops (input.atPage (.finite page))).rows ≠ []

/-- The view of a page by its number. -/
theorem rows_of_mem (given : input.pageSize = .finite size) (positive : 0 < size) {i : ℕ}
    (inRange : (i : ℤ) + 1 ≤ (tableView ops input).pageCount) :
    (tableView ops (input.atPage (.finite (i + 1)))).rows =
      slice (input.sorted ops) (i * size) (i * size + size) := by
  have page : (tableView ops (input.atPage (.finite (i + 1)))).page = (i : ℤ) + 1 := by
    have kept := @clampPage_of_mem (i + 1) _ _ (by omega) inRange
    push_cast at kept
    exact kept
  have rows := tableView_rows ops (input.atPage (.finite (i + 1))) given positive
  rw [page] at rows
  push_cast at rows
  rw [add_sub_cancel_right] at rows
  exact rows

theorem flatten_pages (given : input.pageSize = .finite size) (positive : 0 < size) :
    ((List.range (tableView ops input).pageCount.toNat).map fun i : ℕ =>
      (tableView ops (input.atPage (.finite (i + 1)))).rows).flatten = input.sorted ops := by
  have pages : ((List.range (tableView ops input).pageCount.toNat).map fun i : ℕ =>
      (tableView ops (input.atPage (.finite (i + 1)))).rows) =
      (List.range (tableView ops input).pageCount.toNat).map fun i : ℕ =>
        slice (input.sorted ops) (i * size) (i * size + size) := by
    -- Each page is a slice of the sorted rows, and the slices join up to the last mark.
    apply List.map_congr_left
    intro i member
    have before := List.mem_range.mp member
    exact rows_of_mem given positive (by omega)
  have last : (tableView ops input).pageCount =
    pageCount (input.sorted ops).length (.finite size) := by
    rw [← given]
    rfl
  rw [pages, flatten_slices positive, last, mark_pageCount positive, List.take_length]

/-- No page is empty exactly when a page has room for a row. -/
theorem page_ne_nil_iff (given : input.pageSize = .finite size) (positive : 0 < size)
    (some : input.sorted ops ≠ []) :
    (∀ page : ℤ, 1 ≤ page → page ≤ (tableView ops input).pageCount →
      (tableView ops (input.atPage (.finite page))).rows ≠ []) ↔ 1 ≤ size := by
  have last : (tableView ops input).pageCount =
    pageCount (input.sorted ops).length (.finite size) := by
    rw [← given]
    rfl
  constructor
  -- A page size below one asks for an empty first slice.
  · intro filled
    by_contra narrow
    have first := filled 1 le_rfl (one_le_pageCount ..)
    have rows := @rows_of_mem _ _ _ ops _ _ given positive 0 (by
      rw [Nat.cast_zero, zero_add]
      exact one_le_pageCount ..)
    simp only [Nat.cast_zero, zero_mul, zero_add] at rows
    rw [Int.cast_one, rows] at first
    exact first (slice_eq_nil positive (not_le.mp narrow))
  -- With room for a row, the page begins before the last row and so holds one.
  · intro room page first inRange
    obtain ⟨i, rfl⟩ : ∃ i : ℕ, page = i + 1 := ⟨(page - 1).toNat, by omega⟩
    have rows := @rows_of_mem _ _ _ ops _ _ given positive i inRange
    rw [last] at inRange
    push_cast
    rw [rows]
    apply slice_ne_nil room
    exact begins_before positive inRange (by simpa using some)

/-- The rows of the views, page by page. -/
theorem pages_tableView (given : input.pageSize = .finite size) (room : 1 ≤ size)
    (ordered : ∀ column ∈ input.columns, OrderedBy ops column.value)
    (ties : ∀ key, input.tiebreak = some key → OrderedBy ops key) :
    Pages ops input (input.sorted ops) where
  found := by
    rw [← filterRows_eq]
    -- Without a known sort column the filtered rows are returned as they are.
    unfold TableViewInput.sorted sortRows
    split
    · exact List.Perm.refl _
    · exact sort_perm ..
  ordered column sorting := by
    rw [TableViewInput.sorted, sortRows, sorting]
    have orders : Orders (compareRows ops column input.sort.dir input.tiebreak) :=
      orders_compareRows (ordered column (List.mem_of_find?_eq_some sorting)) ties
    exact (pairwise_sort orders _).imp before_of_compareRows_nonpos
  unordered missing := by
    rw [TableViewInput.sorted, sortRows, missing, filterRows_eq]
  whole := flatten_pages given (zero_lt_one.trans_le room)
  inRange page := clampPage_mem ..
  -- Asking for the clamped page again is answered by the same slice.
  answered page := by
    have mem := clampPage_mem page (input.sorted ops).length input.pageSize
    have same : (tableView ops (input.atPage (.finite
        (tableView ops (input.atPage page)).page))).page =
          (tableView ops (input.atPage page)).page :=
      clampPage_of_mem mem.1 mem.2
    have positive : 0 < size := zero_lt_one.trans_le room
    have asked := tableView_rows ops (input.atPage page) given positive
    have again := tableView_rows ops
      (input.atPage (.finite (tableView ops (input.atPage page)).page)) given positive
    rw [asked, again, same]
    rfl
  filled some := (page_ne_nil_iff given (zero_lt_one.trans_le room) some).mpr room

/-- With a tiebreak that tells any two rows apart, the order of the input does not show. -/
theorem tableView_perm {column : Column T K} {key : T → Cell} {others : List T}
    (ordered : OrderedBy ops column.value) (ties : OrderedBy ops key)
    (sorting : input.columns.find? (·.key = input.sort.key) = some column)
    (given : input.tiebreak = some key)
    (apart : ∀ a b, compareValues ops (key a) (key b) = 0 → a = b) (perm : others.Perm input.rows) :
    tableView ops { input with rows := others } = tableView ops input := by
  have orders : Orders (compareRows ops column input.sort.dir input.tiebreak) :=
    orders_compareRows ordered fun other same => by
      rw [given] at same
      exact Option.some.inj same ▸ ties
  -- The sort is a function of the multiset once the comparison identifies no two rows.
  have sorted : TableViewInput.sorted ops { input with rows := others } = input.sorted ops := by
    simp only [TableViewInput.sorted, sortRows, sorting]
    apply sort_eq_of_perm orders
    · intro a b
      exact eq_of_compareRows_eq_zero given apart
    · rw [filterRows_eq, filterRows_eq]
      exact perm.filter _
  have total : others.length = input.rows.length := perm.length_eq
  simp only [TableViewInput.sorted] at sorted
  simp only [tableView, sorted, total]

/-- Paging loses nothing: with a whole number of rows to a page, the pages put together are
the rows the query finds, in the order of the column, none of them is empty unless nothing is
found, and for a tiebreak that tells rows apart they do not depend on the order of the input. -/
theorem table_pages {size : ℕ} (given : input.pageSize = .finite size) (positive : 0 < size)
    (ordered : ∀ column ∈ input.columns, OrderedBy ops column.value)
    (ties : ∀ key, input.tiebreak = some key → OrderedBy ops key) :
    (∃ all, Pages ops input all) ∧
      ∀ (column : Column T K) (key : T → Cell),
        input.columns.find? (·.key = input.sort.key) = some column →
          input.tiebreak = some key → Function.Injective key →
            (∀ a b, compareValues ops (key a) (key b) = 0 → key a = key b) →
              ∀ others, others.Perm input.rows →
                tableView ops { input with rows := others } = tableView ops input := by
  have room : (1 : ℚ) ≤ size := by exact_mod_cast positive
  refine ⟨⟨input.sorted ops, pages_tableView given room ordered ties⟩, ?_⟩
  intro column key sorting tiebreak injective apart others perm
  exact tableView_perm (ordered column (List.mem_of_find?_eq_some sorting)) (ties key tiebreak)
    sorting tiebreak (fun a b tie => injective (apart a b tie)) perm

/-! A table of numbers, with the number as its own tiebreak. -/

/-- Text operations that leave numbers alone. -/
def plainText : TextOps := ⟨fun s => s, fun s => s, fun _ => "", fun _ _ => 0⟩

def numberColumn : Column ℚ ℕ := ⟨0, .number, none, false⟩

def numbers (rows : List ℚ) (pageSize : ℚ) (sortKey : ℕ) : TableViewInput ℚ ℕ :=
  ⟨rows, [numberColumn], ⟨sortKey, .desc⟩, .finite 1, .finite pageSize, none, none, some .number⟩

theorem orderedBy_number : OrderedBy plainText (Cell.number : ℚ → Cell) where
  swap a b := by
    simp [compareValues]
  trans a b c first second := by
    simp only [compareValues, sub_nonpos] at first second ⊢
    exact first.trans second

theorem numbers_pages :
    (∃ all, Pages plainText (numbers [1, 2, 3] 2 0) all) ∧
      tableView plainText (numbers [3, 1, 2] 2 0) =
        tableView plainText (numbers [1, 2, 3] 2 0) := by
  have paged := @table_pages _ _ _ plainText (numbers [1, 2, 3] 2 0) 2 rfl (by norm_num)
    (by
      intro column member
      rw [List.mem_singleton.mp member]
      exact orderedBy_number)
    (by
      intro key given
      rw [← Option.some.inj given]
      exact orderedBy_number)
  refine ⟨paged.1, paged.2 numberColumn .number rfl rfl ?_ ?_ [3, 1, 2] ?_⟩
  · intro a b same
    exact Cell.number.inj same
  · intro a b tie
    exact congrArg Cell.number (sub_eq_zero.mp tie)
  · decide

/-- With pages of half a row the first one is empty although there is a row to show, and a key
that no column has leaves the rows in the order they came in. -/
theorem half_row_page_empty :
    ((tableView plainText (numbers [1] (1 / 2) 0)).rows = [] ∧
      (tableView plainText (numbers [1] (1 / 2) 0)).page = 1 ∧
      (tableView plainText (numbers [1] (1 / 2) 0)).matched = 1) ∧
    (tableView plainText (numbers [2, 1] 5 1)).rows ≠
    (tableView plainText (numbers [1, 2] 5 1)).rows := by
  decide +kernel

end Pages

end MempoolObserver
