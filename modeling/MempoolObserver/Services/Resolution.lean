import MempoolObserver.Library.Grouping
import MempoolObserver.Services.FlushDelay

/-!
# The resolution of a series

A range is divided by the smallest rung of a ladder that fits its span into
`MAX_POINTS` steps. A series has one point for each interval of that rung, aligned to
the epoch, that holds a sample. The range is closed at both ends and need not be
aligned, so that it can meet two intervals more than its span has steps.

## Main definitions

* `pickResolution`
* `CounterSampleRepository.range`, `GaugeSampleRepository.range` — the stored series
* `CounterPoints` — what the points of a bucketed series are

## Main results

* `series_capped_iff` — the cap holds exactly for ranges that meet few enough intervals
-/

namespace MempoolObserver

open Grouping

def nativeResolutionSecs : Int := 60

/-- Bucket sizes the read path may choose, smallest first. -/
def resolutionLadderSecs : List Int :=
  [nativeResolutionSecs, 5 * 60, 10 * 60, 30 * 60, 60 * 60, 6 * 60 * 60, 24 * 60 * 60]

/-- Points a series may hold. -/
def maxPoints : Int := 2000

/-- Times are in microseconds. -/
def microsPerSec : Int := 10 ^ 6

def defaultRange : Int := 24 * 60 * 60 * microsPerSec

/-- Smallest rung that keeps the span within `maxPoints` steps, or the widest. -/
def pickResolution (span : Int) : Int :=
  let spanSecs := span.tdiv microsPerSec
  (resolutionLadderSecs.find? fun res => spanSecs.tdiv res ≤ maxPoints).getD
    (resolutionLadderSecs.getLast (by decide))

/-- The interval of the resolution that the time lies in, counted from the epoch. -/
def intervalOf (resolutionSecs : Int) (time : OffsetDateTime) : Int :=
  time / (resolutionSecs * microsPerSec)

/-- `to_timestamp(floor(extract(epoch FROM sampled_at) / $1) * $1)`. -/
def bucket (resolutionSecs : Int) (time : OffsetDateTime) : OffsetDateTime :=
  intervalOf resolutionSecs time * (resolutionSecs * microsPerSec)

/-- The rows with `sampled_at >= $2 AND sampled_at <= $3`. -/
def sampledIn {α : Type*} (sampledAt : α → OffsetDateTime) (fromAt toAt : OffsetDateTime)
    (rows : List α) : List α :=
  rows.filter fun row => fromAt ≤ sampledAt row ∧ sampledAt row ≤ toAt

/-! ### The two tables -/

namespace MempoolCounterSampleRow

def isNull (row : MempoolCounterSampleRow) : Bool :=
  row.addedTxs.isNone || row.confirmedTxs.isNone || row.evictedTxs.isNone

/-- `CASE WHEN bool_or(...) THEN NULL ELSE sum(...) END`. -/
def total (count : MempoolCounterSampleRow → Option ℕ) (rows : List MempoolCounterSampleRow) :
    Option ℕ :=
  if rows.any isNull then none else some (rows.filterMap count).sum

/-- The point of one bucket. -/
def ofBucket (resolutionSecs : Int) (rows : List MempoolCounterSampleRow) :
    MempoolCounterSampleRow :=
  ⟨(rows.map sampledAt).max?.getD 0, resolutionSecs, total addedTxs rows, total confirmedTxs rows,
    total evictedTxs rows⟩

/-- The casts of the sums to `bigint` go through. -/
def fitsBigint (row : MempoolCounterSampleRow) : Bool :=
  row.addedTxs.all (· < 2 ^ 63) && row.confirmedTxs.all (· < 2 ^ 63) &&
    row.evictedTxs.all (· < 2 ^ 63)

end MempoolCounterSampleRow

structure MempoolGaugeSampleRow where
  sampledAt : OffsetDateTime
  clusterCount : Int32
  clusteredTxCount : Int32
  mempoolTxCount : Int32
  totalWeight : Int64
  totalFee : Int64
  deriving DecidableEq

/-- `ORDER BY sampled_at ASC` of what is in the range, without further ado. -/
def rangeNative {α : Type*} (sampledAt : α → OffsetDateTime) (fromAt toAt : OffsetDateTime)
    (rows : List α) : List α :=
  (sampledIn sampledAt fromAt toAt rows).insertionSort fun first second =>
    sampledAt first ≤ sampledAt second

namespace CounterSampleRepository

open MempoolCounterSampleRow

/-- One point per bucket, with the sums of its samples; `none` when a sum does not fit. -/
def rangeBucketed (fromAt toAt : OffsetDateTime) (resolutionSecs : Int)
    (samples : List MempoolCounterSampleRow) : Option (List MempoolCounterSampleRow) :=
  let rows := sampledIn sampledAt fromAt toAt samples
  let key (row : MempoolCounterSampleRow) := bucket resolutionSecs row.sampledAt
  let points := (keys key rows).map fun k => ofBucket resolutionSecs (group key rows k)
  if points.all fitsBigint then some points else none

def range (fromAt toAt : OffsetDateTime) (resolutionSecs : Int)
    (samples : List MempoolCounterSampleRow) : Option (List MempoolCounterSampleRow) :=
  if resolutionSecs = nativeResolutionSecs then some (rangeNative sampledAt fromAt toAt samples)
  else rangeBucketed fromAt toAt resolutionSecs samples

end CounterSampleRepository

namespace GaugeSampleRepository

open MempoolGaugeSampleRow

/-- The last row of each bucket. -/
def rangeBucketed (fromAt toAt : OffsetDateTime) (resolutionSecs : Int)
    (samples : List MempoolGaugeSampleRow) : List MempoolGaugeSampleRow :=
  let rows := rangeNative sampledAt fromAt toAt samples
  let key (row : MempoolGaugeSampleRow) := bucket resolutionSecs row.sampledAt
  ((keys key rows).filterMap fun k => (group key rows k).getLast?).insertionSort
    fun first second => first.sampledAt ≤ second.sampledAt

def range (fromAt toAt : OffsetDateTime) (resolutionSecs : Int)
    (samples : List MempoolGaugeSampleRow) : Option (List MempoolGaugeSampleRow) :=
  if resolutionSecs = nativeResolutionSecs then some (rangeNative sampledAt fromAt toAt samples)
  else some (rangeBucketed fromAt toAt resolutionSecs samples)

end GaugeSampleRepository

/-! ### The range of a request -/

inductive ApiError where
  | badRequest (message : String)
  /-- The query failed. -/
  | repo
  deriving DecidableEq, Repr

/-- The rows of a request, with their resolution: `fetch_range` of either service. -/
def fetchRange {α : Type*} (now : OffsetDateTime)
    (range : OffsetDateTime → OffsetDateTime → Int → Option (List α))
    (fromAt toAt : Option OffsetDateTime) : Except ApiError (Int × List α) :=
  let toAt := toAt.getD now
  let fromAt := fromAt.getD (toAt - defaultRange)
  if toAt ≤ fromAt then .error (.badRequest "`from` must be earlier than `to`")
  else
    let resolutionSecs := pickResolution (toAt - fromAt)
    match range fromAt toAt resolutionSecs with
    | some rows => .ok (resolutionSecs, rows)
    | none => .error .repo

def CounterSampleService.fetchRange (now : OffsetDateTime) (fromAt toAt : Option OffsetDateTime)
    (samples : List MempoolCounterSampleRow) :
    Except ApiError (Int × List MempoolCounterSampleRow) :=
  MempoolObserver.fetchRange now (fun fromAt toAt resolutionSecs =>
    CounterSampleRepository.range fromAt toAt resolutionSecs samples) fromAt toAt

def GaugeSampleService.fetchRange (now : OffsetDateTime) (fromAt toAt : Option OffsetDateTime)
    (samples : List MempoolGaugeSampleRow) : Except ApiError (Int × List MempoolGaugeSampleRow) :=
  MempoolObserver.fetchRange now (fun fromAt toAt resolutionSecs =>
    GaugeSampleRepository.range fromAt toAt resolutionSecs samples) fromAt toAt

/-! ### Intervals -/

/-- At most one sample in each aligned native interval. -/
def OnePerInterval {α : Type*} (sampledAt : α → OffsetDateTime) (rows : List α) : Prop :=
  (rows.map fun row => intervalOf nativeResolutionSecs (sampledAt row)).Nodup

/-- A rung is so many native intervals. -/
theorem exists_mul_of_mem_ladder {res : Int} (rung : res ∈ resolutionLadderSecs) :
    ∃ k : Int, 0 < k ∧ res = nativeResolutionSecs * k := by
  have each : ∀ res ∈ resolutionLadderSecs,
      0 < res / nativeResolutionSecs ∧
        res = nativeResolutionSecs * (res / nativeResolutionSecs) := by
    decide
  exact ⟨_, each res rung⟩

theorem pos_of_mem_ladder {res : Int} (rung : res ∈ resolutionLadderSecs) : 0 < res := by
  have each : ∀ res ∈ resolutionLadderSecs, 0 < res := by decide
  exact each res rung

theorem pickResolution_mem (span : Int) : pickResolution span ∈ resolutionLadderSecs := by
  simp only [pickResolution]
  cases found : resolutionLadderSecs.find? fun res =>
    (span.tdiv microsPerSec).tdiv res ≤ maxPoints with
  | some res => exact List.mem_of_find?_eq_some found
  | none => exact List.getLast_mem (by decide)

section Intervals

variable {res : Int} {time other : OffsetDateTime}

theorem width_pos (positive : 0 < res) : 0 < res * microsPerSec :=
  Int.mul_pos positive (by decide)

theorem intervalOf_mono (positive : 0 < res) (le : time ≤ other) :
    intervalOf res time ≤ intervalOf res other :=
  Int.ediv_le_ediv (width_pos positive) le

@[simp] theorem intervalOf_mul (positive : 0 < res) (k : Int) :
    intervalOf res (k * (res * microsPerSec)) = k :=
  Int.mul_ediv_cancel k (width_pos positive).ne'

theorem bucket_eq_bucket_iff (positive : 0 < res) :
    bucket res time = bucket res other ↔ intervalOf res time = intervalOf res other := by
  unfold bucket
  constructor
  · intro same
    exact Int.eq_of_mul_eq_mul_right (width_pos positive).ne' same
  · intro same
    rw [same]

/-- The intervals of a wider rung are made of native ones. -/
theorem intervalOf_congr (rung : res ∈ resolutionLadderSecs)
    (same : intervalOf nativeResolutionSecs time = intervalOf nativeResolutionSecs other) :
    intervalOf res time = intervalOf res other := by
  obtain ⟨k, positive, rfl⟩ := exists_mul_of_mem_ladder rung
  have split (moment : OffsetDateTime) : intervalOf (nativeResolutionSecs * k) moment =
      intervalOf nativeResolutionSecs moment / k := by
    unfold intervalOf
    rw [Int.ediv_ediv_of_nonneg (by decide)]
    congr 1
    ring
  rw [split, split, same]

end Intervals

/-! ### How many points there are at most -/

section Cap

variable {α : Type*} {sampledAt : α → OffsetDateTime} {rows : List α} {res : Int}
  {fromAt toAt : OffsetDateTime}

theorem mem_sampledIn {row : α} : row ∈ sampledIn sampledAt fromAt toAt rows ↔
    row ∈ rows ∧ fromAt ≤ sampledAt row ∧ sampledAt row ≤ toAt := by
  simp [sampledIn]

/-- Times of different intervals that the range meets are no more than these intervals. -/
theorem length_le_of_intervals (positive : 0 < res)
    (few : intervalOf res toAt - intervalOf res fromAt < maxPoints) {times : List OffsetDateTime}
    (distinct : (times.map (intervalOf res)).Nodup)
    (met : ∀ time ∈ times, ∃ moment, fromAt ≤ moment ∧ moment ≤ toAt ∧
      intervalOf res moment = intervalOf res time) :
    (times.length : Int) ≤ maxPoints := by
  have inside : ∀ k ∈ times.map (intervalOf res),
      intervalOf res fromAt ≤ k ∧ k ≤ intervalOf res toAt := by
    intro k listed
    obtain ⟨time, member, rfl⟩ := List.mem_map.mp listed
    obtain ⟨moment, after, before, same⟩ := met time member
    rw [← same]
    exact ⟨intervalOf_mono positive after, intervalOf_mono positive before⟩
  have counted := length_le_card_Icc distinct inside
  rw [List.length_map, Int.card_Icc] at counted
  have small : (0 : Int) ≤ maxPoints := by decide
  omega

theorem length_rangeNative_le (few : intervalOf nativeResolutionSecs toAt -
      intervalOf nativeResolutionSecs fromAt < maxPoints) (onePer : OnePerInterval sampledAt rows) :
    ((rangeNative sampledAt fromAt toAt rows).length : Int) ≤ maxPoints := by
  rw [rangeNative, List.length_insertionSort, ← List.length_map sampledAt]
  apply length_le_of_intervals (by decide) few
  · rw [List.map_map]
    exact List.Nodup.sublist (List.filter_sublist.map _) onePer
  · intro time member
    obtain ⟨row, inRange, rfl⟩ := List.mem_map.mp member
    exact ⟨sampledAt row, (mem_sampledIn.mp inRange).2.1, (mem_sampledIn.mp inRange).2.2, rfl⟩

/-- There are no more buckets than the range meets intervals. -/
theorem length_buckets_le (positive : 0 < res)
    (few : intervalOf res toAt - intervalOf res fromAt < maxPoints)
    (inside : ∀ row ∈ rows, fromAt ≤ sampledAt row ∧ sampledAt row ≤ toAt) :
    ((keys (fun row => bucket res (sampledAt row)) rows).length : Int) ≤ maxPoints := by
  apply length_le_of_intervals positive few
  · apply List.Nodup.map_on ?_ (nodup_keys _ _)
    intro first firstListed second secondListed same
    obtain ⟨row, -, rfl⟩ := mem_keys.mp firstListed
    obtain ⟨other, -, rfl⟩ := mem_keys.mp secondListed
    rw [bucket, bucket, intervalOf_mul positive, intervalOf_mul positive] at same
    exact (bucket_eq_bucket_iff positive).mpr same
  · intro time listed
    obtain ⟨row, member, rfl⟩ := mem_keys.mp listed
    refine ⟨sampledAt row, (inside row member).1, (inside row member).2, ?_⟩
    rw [bucket, intervalOf_mul positive]

end Cap

/-! ### What the points are -/

open MempoolCounterSampleRow

/-- The point's count is null if a sample of its bucket is, and otherwise their sum. -/
def Totals (count : MempoolCounterSampleRow → Option ℕ) (point : MempoolCounterSampleRow)
    (samples : List MempoolCounterSampleRow) : Prop :=
  (count point = none ↔ ∃ sample ∈ samples, sample.isNull = true) ∧
    ∀ n, count point = some n → n = (samples.map fun sample => (count sample).getD 0).sum

/-- The samples of the range in the bucket of the point. -/
def samplesOf (res : Int) (fromAt toAt : OffsetDateTime) (samples : List MempoolCounterSampleRow)
    (point : MempoolCounterSampleRow) : List MempoolCounterSampleRow :=
  (sampledIn sampledAt fromAt toAt samples).filter fun sample =>
    bucket res sample.sampledAt = bucket res point.sampledAt

/-- What the points of a bucketed series are. -/
structure CounterPoints (res : Int) (fromAt toAt : OffsetDateTime)
    (samples points : List MempoolCounterSampleRow) : Prop where
  ascending : points.Pairwise fun first second =>
    bucket res first.sampledAt < bucket res second.sampledAt
  /-- A sample in the range is in the bucket of one point. -/
  covers : ∀ sample ∈ sampledIn sampledAt fromAt toAt samples,
    ∃! point, point ∈ points ∧ bucket res point.sampledAt = bucket res sample.sampledAt
  held : ∀ point ∈ points, samplesOf res fromAt toAt samples point ≠ []
  totals : ∀ point ∈ points, ∀ count ∈ [addedTxs, confirmedTxs, evictedTxs],
    Totals count point (samplesOf res fromAt toAt samples point)

theorem MempoolCounterSampleRow.totals_total {rows : List MempoolCounterSampleRow}
    (count : MempoolCounterSampleRow → Option ℕ) :
    (total count rows = none ↔ ∃ sample ∈ rows, sample.isNull = true) ∧
      ∀ n, total count rows = some n → n = (rows.map fun sample => (count sample).getD 0).sum := by
  unfold total
  split_ifs with null
  · simpa using null
  · refine ⟨by simpa using null, fun n same => ?_⟩
    rw [← Option.some.inj same]
    clear same null
    induction rows with
    | nil => rfl
    | cons row rows ih =>
      rw [List.map_cons, List.sum_cons, List.filterMap_cons]
      cases count row with
      | none => simpa using ih
      | some value => simp [ih]

/-- The time of a point is one of its bucket. -/
theorem MempoolCounterSampleRow.bucket_ofBucket {res : Int} {k : OffsetDateTime}
    {rows : List MempoolCounterSampleRow} (some_ : rows ≠ [])
    (all : ∀ row ∈ rows, bucket res row.sampledAt = k) :
    bucket res (ofBucket res rows).sampledAt = k := by
  cases latest : (rows.map sampledAt).max? with
  | none =>
    rw [List.max?_eq_none_iff, List.map_eq_nil_iff] at latest
    exact absurd latest some_
  | some time =>
    obtain ⟨row, member, rfl⟩ := List.mem_map.mp (List.max?_mem latest)
    simp only [ofBucket, latest, Option.getD_some]
    exact all row member

/-- A bucketed series has the points it should have. -/
theorem CounterSampleRepository.rangeBucketed_points {res : Int} {fromAt toAt : OffsetDateTime}
    {samples points : List MempoolCounterSampleRow}
    (read : rangeBucketed fromAt toAt res samples = some points) :
    CounterPoints res fromAt toAt samples points := by
  let rows := sampledIn sampledAt fromAt toAt samples
  let key (row : MempoolCounterSampleRow) := bucket res row.sampledAt
  have buckets (k : OffsetDateTime) (listed : k ∈ keys key rows) :
      bucket res (ofBucket res (group key rows k)).sampledAt = k :=
    bucket_ofBucket (group_ne_nil listed) fun row member => (mem_group.mp member).2
  -- The answer is one point for each bucket that holds a sample, in the order of the buckets.
  have mapped : points = (keys key rows).map fun k => ofBucket res (group key rows k) := by
    simp only [rangeBucketed] at read
    split_ifs at read
    exact (Option.some.inj read).symm
  have own (k : OffsetDateTime) (listed : k ∈ keys key rows) :
      samplesOf res fromAt toAt samples (ofBucket res (group key rows k)) = group key rows k := by
    unfold samplesOf
    rw [buckets k listed]
    rfl
  refine ⟨?_, ?_, ?_, ?_⟩
  · rw [mapped, List.pairwise_map]
    apply (pairwise_keys key rows).imp_of_mem
    intro first second firstListed secondListed lt
    rwa [buckets first firstListed, buckets second secondListed]
  · intro sample member
    have listed : key sample ∈ keys key rows := mem_keys.mpr ⟨sample, member, rfl⟩
    -- A sample's point is the one of its own bucket, and no other bucket yields it.
    refine ⟨ofBucket res (group key rows (key sample)), ⟨?_, buckets _ listed⟩, ?_⟩
    · rw [mapped]
      exact List.mem_map.mpr ⟨_, listed, rfl⟩
    · rintro point ⟨inSeries, same⟩
      rw [mapped] at inSeries
      obtain ⟨k, other, rfl⟩ := List.mem_map.mp inSeries
      rw [buckets k other] at same
      rw [same]
  · intro point inSeries
    rw [mapped] at inSeries
    obtain ⟨k, listed, rfl⟩ := List.mem_map.mp inSeries
    rw [own k listed]
    exact group_ne_nil listed
  · intro point inSeries count counted
    rw [mapped] at inSeries
    obtain ⟨k, listed, rfl⟩ := List.mem_map.mp inSeries
    rw [own k listed]
    simp only [List.mem_cons, List.not_mem_nil, or_false] at counted
    -- The three counters are summed in the same way.
    rcases counted with rfl | rfl | rfl
    · exact totals_total addedTxs
    · exact totals_total confirmedTxs
    · exact totals_total evictedTxs

/-! ### The cap -/

section Series

variable {res : Int} {fromAt toAt : OffsetDateTime}

theorem CounterSampleRepository.length_range_le (rung : res ∈ resolutionLadderSecs)
    (few : intervalOf res toAt - intervalOf res fromAt < maxPoints)
    {samples points : List MempoolCounterSampleRow} (onePer : OnePerInterval sampledAt samples)
    (read : range fromAt toAt res samples = some points) : (points.length : Int) ≤ maxPoints := by
  simp only [range, rangeBucketed] at read
  split_ifs at read with native fits
  · subst native
    rw [← Option.some.inj read]
    exact length_rangeNative_le few onePer
  · rw [← Option.some.inj read, List.length_map]
    exact length_buckets_le (pos_of_mem_ladder rung) few fun row member =>
      (mem_sampledIn.mp member).2

theorem GaugeSampleRepository.length_range_le (rung : res ∈ resolutionLadderSecs)
    (few : intervalOf res toAt - intervalOf res fromAt < maxPoints)
    {samples points : List MempoolGaugeSampleRow}
    (onePer : OnePerInterval MempoolGaugeSampleRow.sampledAt samples)
    (read : range fromAt toAt res samples = some points) : (points.length : Int) ≤ maxPoints := by
  simp only [range, rangeBucketed] at read
  split_ifs at read with native
  · subst native
    rw [← Option.some.inj read]
    exact length_rangeNative_le few onePer
  · rw [← Option.some.inj read, List.length_insertionSort]
    apply (Int.ofNat_le.mpr (List.length_filterMap_le _ _)).trans
    apply length_buckets_le (pos_of_mem_ladder rung) few
    intro row member
    exact (mem_sampledIn.mp (List.mem_insertionSort _ |>.mp member)).2

/-- A null sample in each interval that the range meets. -/
def fullSamples (res : Int) (fromAt toAt : OffsetDateTime) : List MempoolCounterSampleRow :=
  (List.range (intervalOf res toAt - intervalOf res fromAt + 1).toNat).map fun i : ℕ =>
    ⟨max fromAt ((intervalOf res fromAt + i) * (res * microsPerSec)), nativeResolutionSecs, none,
      none, none⟩

theorem intervals_fullSamples (positive : 0 < res) (fromAt toAt : OffsetDateTime) :
    ((fullSamples res fromAt toAt).map fun row => intervalOf res row.sampledAt) =
      (List.range (intervalOf res toAt - intervalOf res fromAt + 1).toNat).map fun i : ℕ =>
        intervalOf res fromAt + i := by
  have mono : Monotone (intervalOf res) := fun _ _ => intervalOf_mono positive
  unfold fullSamples
  rw [List.map_map]
  apply List.map_congr_left
  intro i _
  -- the first interval begins before the range does
  simp only [Function.comp_apply]
  rw [mono.map_max, intervalOf_mul positive]
  omega

theorem nodup_intervals_fullSamples (positive : 0 < res) (fromAt toAt : OffsetDateTime) :
    ((fullSamples res fromAt toAt).map fun row => intervalOf res row.sampledAt).Nodup := by
  rw [intervals_fullSamples positive]
  apply List.Nodup.map ?_ List.nodup_range
  intro first second same
  simpa using same

theorem sampledIn_fullSamples (positive : 0 < res) (earlier : fromAt ≤ toAt) :
    sampledIn sampledAt fromAt toAt (fullSamples res fromAt toAt) =
      fullSamples res fromAt toAt := by
  unfold sampledIn
  rw [List.filter_eq_self]
  intro row member
  obtain ⟨i, small, rfl⟩ := List.mem_map.mp member
  have last : intervalOf res fromAt + i ≤ intervalOf res toAt := by
    have := List.mem_range.mp small
    omega
  have before : (intervalOf res fromAt + i) * (res * microsPerSec) ≤ toAt :=
    calc (intervalOf res fromAt + i) * (res * microsPerSec)
        ≤ intervalOf res toAt * (res * microsPerSec) :=
          Int.mul_le_mul_of_nonneg_right last (width_pos positive).le
      _ ≤ toAt := Int.ediv_mul_le _ (width_pos positive).ne'
  simp [earlier, before]

theorem length_fullSamples (positive : 0 < res) (earlier : fromAt ≤ toAt) :
    ((fullSamples res fromAt toAt).length : Int) =
      intervalOf res toAt - intervalOf res fromAt + 1 := by
  have := intervalOf_mono positive earlier
  rw [fullSamples, List.length_map, List.length_range]
  omega

/-- A bucket of null samples is a null point. -/
theorem MempoolCounterSampleRow.fitsBigint_ofBucket {rows : List MempoolCounterSampleRow}
    (some_ : rows ≠ []) (null : ∀ row ∈ rows, row.isNull = true) :
    (ofBucket res rows).fitsBigint = true := by
  obtain ⟨row, member⟩ := List.exists_mem_of_ne_nil rows some_
  have any : rows.any isNull = true := List.any_eq_true.mpr ⟨row, member, null row member⟩
  simp [ofBucket, total, any, fitsBigint]

/-- With a sample in each interval, the series has a point for each. -/
theorem exists_full_series (rung : res ∈ resolutionLadderSecs) (earlier : fromAt ≤ toAt) :
    OnePerInterval sampledAt (fullSamples res fromAt toAt) ∧
    ∃ points, CounterSampleRepository.range fromAt toAt res (fullSamples res fromAt toAt) =
      some points ∧ (points.length : Int) = intervalOf res toAt - intervalOf res fromAt + 1 := by
  have positive := pos_of_mem_ladder rung
  have distinct := nodup_intervals_fullSamples positive fromAt toAt
  have all := sampledIn_fullSamples positive earlier
  let key (row : MempoolCounterSampleRow) := bucket res row.sampledAt
  constructor
  -- One sample for each interval, since no two samples share a bucket.
  · rw [OnePerInterval, List.nodup_iff_pairwise_ne, List.pairwise_map]
    rw [List.nodup_iff_pairwise_ne, List.pairwise_map] at distinct
    exact distinct.imp fun different same => different (intervalOf_congr rung same)
  · rw [← length_fullSamples positive earlier]
    unfold CounterSampleRepository.range
    split_ifs
    · exact ⟨_, rfl, by rw [rangeNative, List.length_insertionSort, all]⟩
    · have fits : ((keys key (fullSamples res fromAt toAt)).map fun k =>
          ofBucket res (group key (fullSamples res fromAt toAt) k)).all fitsBigint = true := by
        rw [List.all_eq_true]
        intro point listed
        obtain ⟨k, isKey, rfl⟩ := List.mem_map.mp listed
        apply fitsBigint_ofBucket (group_ne_nil isKey)
        intro row member
        obtain ⟨i, -, rfl⟩ := List.mem_map.mp (mem_group.mp member).1
        rfl
      -- The samples are spaced by the resolution, so each of them is a bucket of its own.
      have separate : ((fullSamples res fromAt toAt).map key).Nodup := by
        rw [List.nodup_iff_pairwise_ne, List.pairwise_map]
        rw [List.nodup_iff_pairwise_ne, List.pairwise_map] at distinct
        exact distinct.imp fun different same =>
          different ((bucket_eq_bucket_iff positive).mp same)
      refine ⟨(keys key (fullSamples res fromAt toAt)).map fun k =>
        ofBucket res (group key (fullSamples res fromAt toAt) k), ?_, ?_⟩
      · simp only [CounterSampleRepository.rangeBucketed, all]
        rw [if_pos fits]
      · rw [List.length_map, length_keys separate]

end Series

/-- The series of a request are capped, and the points of a bucketed one are right. -/
def SeriesCapped (now fromAt toAt : OffsetDateTime) : Prop :=
  (∀ samples res points, OnePerInterval sampledAt samples →
    CounterSampleService.fetchRange now (some fromAt) (some toAt) samples = .ok (res, points) →
      (points.length : Int) ≤ maxPoints ∧
        (res ≠ nativeResolutionSecs → CounterPoints res fromAt toAt samples points)) ∧
  ∀ samples res points, OnePerInterval MempoolGaugeSampleRow.sampledAt samples →
    GaugeSampleService.fetchRange now (some fromAt) (some toAt) samples = .ok (res, points) →
      (points.length : Int) ≤ maxPoints

/-- A request is answered at the resolution its span picks. -/
theorem fetchRange_eq_ok {α : Type*} {now fromAt toAt : OffsetDateTime} (earlier : fromAt < toAt)
    {range : OffsetDateTime → OffsetDateTime → Int → Option (List α)} {res : Int} {rows : List α} :
    fetchRange now range (some fromAt) (some toAt) = .ok (res, rows) ↔
      res = pickResolution (toAt - fromAt) ∧ range fromAt toAt res = some rows := by
  simp only [fetchRange, Option.getD_some]
  rw [if_neg (not_le.mpr earlier)]
  constructor
  · intro answered
    split at answered
    · next read =>
      cases answered
      exact ⟨rfl, read⟩
    · cases answered
  · rintro ⟨rfl, read⟩
    rw [read]

/-- **Series size cap.** A request gets at most `MAX_POINTS` points whatever is
sampled exactly if its range meets at most so many intervals of the resolution. -/
theorem series_capped_iff (now : OffsetDateTime) {fromAt toAt : OffsetDateTime}
    (earlier : fromAt < toAt) :
    SeriesCapped now fromAt toAt ↔
      intervalOf (pickResolution (toAt - fromAt)) toAt -
        intervalOf (pickResolution (toAt - fromAt)) fromAt < maxPoints := by
  have rung := pickResolution_mem (toAt - fromAt)
  constructor
  -- A full series has a point for each interval, so the cap must leave room for all of them.
  · intro capped
    obtain ⟨onePer, points, read, length_eq⟩ := exists_full_series rung earlier.le
    have answered : CounterSampleService.fetchRange now (some fromAt) (some toAt)
        (fullSamples (pickResolution (toAt - fromAt)) fromAt toAt) =
          .ok (pickResolution (toAt - fromAt), points) :=
      (fetchRange_eq_ok earlier).mpr ⟨rfl, read⟩
    have := (capped.1 _ _ _ onePer answered).1
    omega
  -- A sparser series has at most a point for each interval.
  · intro few
    constructor
    · intro samples res points onePer answered
      obtain ⟨rfl, read⟩ := (fetchRange_eq_ok earlier).mp answered
      refine ⟨CounterSampleRepository.length_range_le rung few onePer read, fun bucketed => ?_⟩
      unfold CounterSampleRepository.range at read
      rw [if_neg bucketed] at read
      exact CounterSampleRepository.rangeBucketed_points read
    · intro samples res points onePer answered
      obtain ⟨rfl, read⟩ := (fetchRange_eq_ok earlier).mp answered
      exact GaugeSampleRepository.length_range_le rung few onePer read

/-- An hour has few minutes. -/
theorem hour_capped : SeriesCapped 0 0 (60 * 60 * microsPerSec) :=
  (series_capped_iff 0 (by decide)).mpr (by decide)

/-- Two thousand minutes, with a sample in each minute from the first to the last. -/
theorem two_thousand_minutes_exceed_cap :
    (2000 * 60 * microsPerSec ≤ maxPoints * (24 * 60 * 60 * microsPerSec)) ∧
    ∃ samples points, OnePerInterval sampledAt samples ∧
      CounterSampleService.fetchRange 0 (some 0) (some (2000 * 60 * microsPerSec)) samples =
        .ok (60, points) ∧
      points.length = 2001 := by
  have rung : (60 : Int) ∈ resolutionLadderSecs := by decide
  have earlier : (0 : OffsetDateTime) ≤ 2000 * 60 * microsPerSec := by decide
  obtain ⟨onePer, points, read, length_eq⟩ := exists_full_series rung earlier
  refine ⟨by decide, _, points, onePer, (fetchRange_eq_ok (by decide)).mpr ⟨by decide, read⟩, ?_⟩
  have : intervalOf 60 (2000 * 60 * microsPerSec) - intervalOf 60 0 + 1 = 2001 := by decide
  omega

end MempoolObserver
