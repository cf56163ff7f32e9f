import Mathlib.Algebra.Order.BigOperators.Group.List
import Mathlib.Data.List.Dedup
import Mathlib.Data.List.Perm.Subperm
import Mathlib.Algebra.Order.Ring.Int
import MyCursor.Keyed

/-!
# The overview of recorded calls

`store/overview.rs`: the totals over a range of time and the series of buckets beside
them. Times are the integers of an `i64`; where the code adds, subtracts or
multiplies without saturation a result outside this range is no result. The sums of
the database are taken to fit.
-/
namespace MyCursor.Overviews

def i64Min : Int := -2 ^ 63
def i64Max : Int := 2 ^ 63 - 1
def InI64 (value : Int) : Prop := i64Min ≤ value ∧ value ≤ i64Max
instance (value : Int) : Decidable (InI64 value) := inferInstanceAs (Decidable (_ ∧ _))

def checked (value : Int) : Option Int := if InI64 value then some value else none
def saturated (value : Int) : Int := max i64Min (min i64Max value)

def OVERVIEW_DAYS : Int := 365
def MAX_RANGE_BUCKETS : Int := 60
def MAX_EXPLICIT_BUCKETS : Int := 1440
def MINUTE_MS : Int := 60000
def HOUR_MS : Int := 60 * MINUTE_MS
def DAY_MS : Int := 24 * HOUR_MS

inductive TokenUsageGranularity where
  | Minute
  | Hour
  | Day
deriving DecidableEq

/-- The size of the buckets of a range when none is asked for. -/
def automatic (duration_ms : Int) : Int :=
  if duration_ms ≤ HOUR_MS then MINUTE_MS else if duration_ms ≤ MAX_RANGE_BUCKETS * HOUR_MS then HOUR_MS else DAY_MS
def granularityOf (bucket_ms : Int) : TokenUsageGranularity :=
  if bucket_ms < HOUR_MS then .Minute else if bucket_ms < DAY_MS then .Hour else .Day
def explicitBucket (requested_bucket_ms : Option Int) : Option Int := requested_bucket_ms.filter (MINUTE_MS ≤ ·)

/-- The granularity, the size of a bucket, the start of the series and the number of
    buckets. `today_start_ms` is the time at which the current day began. -/
def token_usage_buckets (today_start_ms : Int) (start_ms end_ms requested_bucket_ms : Option Int) :
    Option (TokenUsageGranularity × Int × Int × Int) :=
  match start_ms, end_ms with
  | some start_ms, some end_ms => do
    let duration_ms := max (saturated (end_ms - start_ms)) 1
    let explicit_bucket_ms := explicitBucket requested_bucket_ms
    let bucket_ms := explicit_bucket_ms.getD (automatic duration_ms)
    let max_buckets := if explicit_bucket_ms.isSome then MAX_EXPLICIT_BUCKETS else MAX_RANGE_BUCKETS
    let last_bucket_ms ← checked (saturated (end_ms - 1) / bucket_ms * bucket_ms)
    let first_bucket_ms ← checked (start_ms / bucket_ms * bucket_ms)
    let span_ms ← checked (last_bucket_ms - first_bucket_ms)
    let buckets ← checked (span_ms / bucket_ms + 1)
    let bucket_count := max 1 (min max_buckets buckets)
    let series_start_ms := saturated (last_bucket_ms - saturated ((bucket_count - 1) * bucket_ms))
    some (granularityOf bucket_ms,bucket_ms,series_start_ms,bucket_count)
  | _, _ => some (.Day,DAY_MS,saturated (today_start_ms - saturated ((OVERVIEW_DAYS - 1) * DAY_MS)),OVERVIEW_DAYS)

/-- A row of `llm_calls`. -/
structure LlmCall where
  created_at_ms : Int
  status : String
  request_type : String
  model_hash : Option String
  input_tokens : Option Int
  output_tokens : Option Int
  cache_read_tokens : Option Int
  cache_write_tokens : Option Int
deriving DecidableEq

inductive Kind where
  | Input
  | CacheRead
  | CacheWrite
  | Output
deriving DecidableEq

/-- `fresh_input_sql`. -/
def fresh_input (call : LlmCall) : Int :=
  if call.request_type = "anthropic" then max 0 (call.input_tokens.getD 0)
  else max 0 (call.input_tokens.getD 0 - call.cache_read_tokens.getD 0 - call.cache_write_tokens.getD 0)
def LlmCall.tokens (call : LlmCall) : Kind → Int
  | .Input => fresh_input call
  | .CacheRead => call.cache_read_tokens.getD 0
  | .CacheWrite => call.cache_write_tokens.getD 0
  | .Output => call.output_tokens.getD 0

/-- `SUM` over the rows. -/
def total (kind : Kind) (calls : List LlmCall) : Int := (calls.map (·.tokens kind)).sum

def notBefore (start_ms : Option Int) (call : LlmCall) : Bool := start_ms.all (· ≤ call.created_at_ms)
def isBefore (end_ms : Option Int) (call : LlmCall) : Bool := end_ms.all (call.created_at_ms < ·)
def ofModels (model_hashes : Option (List String)) (call : LlmCall) : Bool :=
  match model_hashes with
  | none => true
  | some hashes => call.model_hash.any (· ∈ hashes)
/-- The rows that the `WHERE` of the queries leaves. -/
def rows (calls : List LlmCall) (start_ms end_ms : Option Int) (model_hashes : Option (List String)) : List LlmCall :=
  calls.filter fun call => notBefore start_ms call && isBefore end_ms call && ofModels model_hashes call

structure OverviewMetrics where
  llm_calls : Nat
  successful_calls : Nat
  failed_calls : Nat
  token_usage : Int
  prompt_tokens : Int
  input_tokens : Int
  cache_read_tokens : Int
  cache_write_tokens : Int
  output_tokens : Int
deriving DecidableEq

structure TokenUsageBucket where
  bucket_start_ms : Int
  input_tokens : Int
  cache_read_tokens : Int
  cache_write_tokens : Int
  output_tokens : Int
deriving DecidableEq

structure Overview where
  metrics : OverviewMetrics
  token_usage_granularity : TokenUsageGranularity
  token_usage_series : List TokenUsageBucket
deriving DecidableEq

def OverviewMetrics.tokens (metrics : OverviewMetrics) : Kind → Int
  | .Input => metrics.input_tokens
  | .CacheRead => metrics.cache_read_tokens
  | .CacheWrite => metrics.cache_write_tokens
  | .Output => metrics.output_tokens
def TokenUsageBucket.tokens (bucket : TokenUsageBucket) : Kind → Int
  | .Input => bucket.input_tokens
  | .CacheRead => bucket.cache_read_tokens
  | .CacheWrite => bucket.cache_write_tokens
  | .Output => bucket.output_tokens

def non_negative (value : Int) : Int := max value 0
def saturating_sum (values : List Int) : Int := values.foldl (fun total value => saturated (total + value)) 0

def metricsOf (ended ranged : List LlmCall) : OverviewMetrics :=
  let input_tokens := non_negative (total .Input ranged)
  let cache_read_tokens := non_negative (total .CacheRead ranged)
  let cache_write_tokens := non_negative (total .CacheWrite ranged)
  let output_tokens := non_negative (total .Output ranged)
  let prompt_tokens := saturating_sum [input_tokens,cache_read_tokens,cache_write_tokens]
  { llm_calls := ended.length
    successful_calls := ended.countP (·.status = "completed")
    failed_calls := ended.countP (·.status ≠ "completed")
    token_usage := saturated (prompt_tokens + output_tokens)
    prompt_tokens, input_tokens, cache_read_tokens, cache_write_tokens, output_tokens }

/-- The time at which the bucket of a call starts; the database rounds a quotient to zero. -/
def bucketStart (bucket_ms : Int) (call : LlmCall) : Int := call.created_at_ms.tdiv bucket_ms * bucket_ms
def bucketOf (start : Int) (calls : List LlmCall) : TokenUsageBucket :=
  ⟨start,non_negative (total .Input calls),non_negative (total .CacheRead calls),non_negative (total .CacheWrite calls),
    non_negative (total .Output calls)⟩
/-- The rows of the grouped query, by the starts of their buckets. -/
def recorded (bucket_ms : Int) (calls : List LlmCall) : List (Int × TokenUsageBucket) :=
  (calls.map (bucketStart bucket_ms)).dedup.map fun start => (start,bucketOf start (calls.filter (bucketStart bucket_ms · = start)))
def emptyBucket (start : Int) : TokenUsageBucket := ⟨start,0,0,0,0⟩
/-- The recorded buckets, each taken out once, and empty ones between them. -/
def seriesOf (recorded : List (Int × TokenUsageBucket)) : List Int → List TokenUsageBucket
  | [] => []
  | start :: rest =>
    (Keyed.lookup recorded start).getD (emptyBucket start) :: seriesOf (recorded.filter (·.1 ≠ start)) rest

def starts (series_start_ms bucket_ms : Int) (bucket_count : Nat) : List Int :=
  (List.range bucket_count).map fun offset : Nat => saturated (series_start_ms + saturated (offset * bucket_ms))

/-- `Store::overview`. -/
def overview (calls : List LlmCall) (today_start_ms : Int) (start_ms end_ms : Option Int) (model_hashes : Option (List String))
    (bucket_ms : Option Int) : Option Overview := do
  let ended := (rows calls start_ms end_ms model_hashes).filter (·.status ≠ "running")
  let metrics := metricsOf ended (rows calls start_ms end_ms model_hashes)
  let (token_usage_granularity,bucket_ms,series_start_ms,bucket_count) ← token_usage_buckets today_start_ms start_ms end_ms bucket_ms
  let shown := rows calls (some (max (start_ms.getD series_start_ms) series_start_ms)) end_ms model_hashes
  let token_usage_series := seriesOf (recorded bucket_ms shown) (starts series_start_ms bucket_ms bucket_count.toNat)
  some { metrics, token_usage_granularity, token_usage_series }

/-- No time and no count of a recorded call is negative. -/
structure Recorded (call : LlmCall) : Prop where
  created : 0 ≤ call.created_at_ms
  input : 0 ≤ call.input_tokens.getD 0
  output : 0 ≤ call.output_tokens.getD 0
  cacheRead : 0 ≤ call.cache_read_tokens.getD 0
  cacheWrite : 0 ≤ call.cache_write_tokens.getD 0

/-- The buckets follow one another from a border on, and add up to the totals. -/
structure AddsUp (bucket_ms : Int) (o : Overview) : Prop where
  consecutive : ∃ first, bucket_ms ∣ first ∧ o.token_usage_series.map (·.bucket_start_ms) =
      (List.range o.token_usage_series.length).map fun offset : Nat => first + offset * bucket_ms
  sums : ∀ kind, (o.token_usage_series.map (·.tokens kind)).sum = o.metrics.tokens kind

def bucketSize (start_ms end_ms : Int) (requested_bucket_ms : Option Int) : Int :=
  (explicitBucket requested_bucket_ms).getD (automatic (max (saturated (end_ms - start_ms)) 1))

/-- The borders below both ends of the range and the distance between them are in the
    range of an `i64`. -/
structure NoOverflow (start_ms end_ms bucket_ms : Int) : Prop where
  last : i64Min ≤ saturated (end_ms - 1) / bucket_ms * bucket_ms
  first : i64Min ≤ start_ms / bucket_ms * bucket_ms
  span : InI64 (saturated (end_ms - 1) / bucket_ms * bucket_ms - start_ms / bucket_ms * bucket_ms)

theorem saturated_bounds (value : Int) : InI64 (saturated value) := by
  unfold InI64 saturated i64Min i64Max
  omega
theorem saturated_eq {value : Int} (fits : InI64 value) : saturated value = value := by
  unfold InI64 at fits
  unfold saturated
  omega
theorem checked_eq {value : Int} (fits : InI64 value) : checked value = some value := if_pos fits

theorem automatic_cases (duration_ms : Int) :
    automatic duration_ms = 60000 ∨ automatic duration_ms = 3600000 ∨ automatic duration_ms = 86400000 := by
  unfold automatic
  split_ifs
  · exact .inl rfl
  · exact .inr (.inl rfl)
  · exact .inr (.inr rfl)
theorem bucketSize_large (start_ms end_ms : Int) (requested : Option Int) : 60000 ≤ bucketSize start_ms end_ms requested := by
  unfold bucketSize
  cases explicit_ : explicitBucket requested with
  | none =>
    rw [Option.getD_none]
    rcases automatic_cases (max (saturated (end_ms - start_ms)) 1) with same | same | same <;> omega
  | some bucket =>
    have large := Option.filter_eq_some_iff.mp explicit_
    exact of_decide_eq_true large.2

theorem border {bucket_ms : Int} (positive : 0 < bucket_ms) (value : Int) :
    value / bucket_ms * bucket_ms ≤ value ∧ value < value / bucket_ms * bucket_ms + bucket_ms := by
  have rest := Int.emod_add_mul_ediv value bucket_ms
  have low := Int.emod_nonneg value (ne_of_gt positive)
  have high := Int.emod_lt_of_pos value positive
  rw [mul_comm] at rest
  constructor <;> omega

section Buckets
variable {start_ms end_ms : Int} {requested : Option Int}

def maxBuckets (requested : Option Int) : Int := if (explicitBucket requested).isSome then MAX_EXPLICIT_BUCKETS else MAX_RANGE_BUCKETS
/-- The buckets of the whole range, before their number is limited. -/
def allBuckets (start_ms end_ms bucket_ms : Int) : Int :=
  (saturated (end_ms - 1) / bucket_ms * bucket_ms - start_ms / bucket_ms * bucket_ms) / bucket_ms + 1
def shownBuckets (start_ms end_ms bucket_ms : Int) (requested : Option Int) : Int :=
  max 1 (min (maxBuckets requested) (allBuckets start_ms end_ms bucket_ms))

theorem allBuckets_fits {bucket_ms : Int} (large : 60000 ≤ bucket_ms) (fits : NoOverflow start_ms end_ms bucket_ms) :
    InI64 (allBuckets start_ms end_ms bucket_ms) := by
  have span := fits.span
  have below := border (by omega : 0 < bucket_ms)
    (saturated (end_ms - 1) / bucket_ms * bucket_ms - start_ms / bucket_ms * bucket_ms)
  unfold allBuckets
  generalize saturated (end_ms - 1) / bucket_ms * bucket_ms - start_ms / bucket_ms * bucket_ms = distance at *
  generalize distance / bucket_ms = quotient at *
  obtain ⟨low,high⟩ := span
  unfold InI64 i64Min i64Max at *
  by_cases sign : 0 ≤ quotient
  · have bound : quotient * 60000 ≤ quotient * bucket_ms := Int.mul_le_mul_of_nonneg_left large sign
    omega
  · have bound : (quotient + 1) * bucket_ms ≤ (quotient + 1) * 60000 := Int.mul_le_mul_of_nonpos_left (by omega) large
    rw [add_mul,one_mul] at bound
    omega

theorem token_usage_buckets_eq (today : Int) (fits : NoOverflow start_ms end_ms (bucketSize start_ms end_ms requested))
    (startIn : InI64 start_ms) :
    token_usage_buckets today (some start_ms) (some end_ms) requested =
      some (granularityOf (bucketSize start_ms end_ms requested),bucketSize start_ms end_ms requested,
        saturated (saturated (end_ms - 1) / bucketSize start_ms end_ms requested * bucketSize start_ms end_ms requested -
          saturated ((shownBuckets start_ms end_ms
            (bucketSize start_ms end_ms requested) requested - 1) * bucketSize start_ms end_ms requested)),
        shownBuckets start_ms end_ms (bucketSize start_ms end_ms requested) requested) := by
  have large := bucketSize_large start_ms end_ms requested
  have count := allBuckets_fits large fits
  have positive : 0 < bucketSize start_ms end_ms requested := by omega
  have last : InI64 (saturated (end_ms - 1) / bucketSize start_ms end_ms requested * bucketSize start_ms end_ms requested) :=
    ⟨fits.last,((border positive _).1).trans (saturated_bounds (end_ms - 1)).2⟩
  have first : InI64 (start_ms / bucketSize start_ms end_ms requested * bucketSize start_ms end_ms requested) :=
    ⟨fits.first,((border positive _).1).trans startIn.2⟩
  have span := fits.span
  unfold token_usage_buckets
  dsimp only
  simp only [Option.bind_eq_bind]
  rw [← bucketSize,checked_eq last,Option.bind_some,checked_eq first,Option.bind_some,checked_eq span,Option.bind_some,← allBuckets,
    checked_eq count,Option.bind_some]
  rfl

theorem fits_of_buckets {today : Int} {result : TokenUsageGranularity × Int × Int × Int}
    (computed : token_usage_buckets today (some start_ms) (some end_ms) requested = some result) :
    NoOverflow start_ms end_ms (bucketSize start_ms end_ms requested) := by
  unfold token_usage_buckets at computed
  dsimp only at computed
  rw [← bucketSize] at computed
  simp only [Option.bind_eq_bind,Option.bind_eq_some_iff] at computed
  obtain ⟨last,isLast,first,isFirst,span,isSpan,-⟩ := computed
  have fits : ∀ {value result : Int}, checked value = some result → InI64 value ∧ value = result := by
    intro value result same
    rw [checked] at same
    split_ifs at same with inside
    exact ⟨inside,Option.some.inj same⟩
  obtain ⟨lastIn,rfl⟩ := fits isLast
  obtain ⟨firstIn,rfl⟩ := fits isFirst
  exact ⟨lastIn.1,firstIn.1,(fits isSpan).1⟩

theorem token_usage_buckets_iff (today : Int) (startIn : InI64 start_ms) :
    (∃ granularity bucket_ms series_start_ms bucket_count, token_usage_buckets today (some start_ms) (some end_ms) requested =
      some (granularity,bucket_ms,series_start_ms,bucket_count) ∧ 1 ≤ bucket_count) ↔
    NoOverflow start_ms end_ms (bucketSize start_ms end_ms requested) := by
  constructor
  · rintro ⟨granularity,bucket_ms,series_start_ms,bucket_count,computed,-⟩
    exact fits_of_buckets computed
  · intro fits
    exact ⟨_,_,_,_,token_usage_buckets_eq today fits startIn,le_max_left _ _⟩

end Buckets

section Totals
variable {calls : List LlmCall} {kind : Kind}

theorem Recorded.tokens {call : LlmCall} (isRecorded : Recorded call) : 0 ≤ call.tokens kind := by
  cases kind with
  | Input =>
    rw [LlmCall.tokens,fresh_input]
    split_ifs <;> exact le_max_left _ _
  | CacheRead => exact isRecorded.cacheRead
  | CacheWrite => exact isRecorded.cacheWrite
  | Output => exact isRecorded.output
theorem total_nonneg (isRecorded : ∀ call ∈ calls, Recorded call) : 0 ≤ total kind calls := by
  refine List.sum_nonneg fun value member => ?_
  obtain ⟨call,isCall,rfl⟩ := List.mem_map.mp member
  exact (isRecorded call isCall).tokens
theorem total_zero (isRecorded : ∀ call ∈ calls, Recorded call) : total kind calls = 0 ↔ ∀ call ∈ calls, call.tokens kind = 0 := by
  induction calls with
  | nil => simp [total]
  | cons call rest ih =>
    obtain ⟨one,others⟩ := List.forall_mem_cons.mp isRecorded
    have later : 0 ≤ total kind rest := total_nonneg others
    have here : 0 ≤ call.tokens kind := one.tokens
    rw [total,List.map_cons,List.sum_cons,← total,List.forall_mem_cons,← ih others]
    omega
theorem total_split (part : LlmCall → Bool) (calls : List LlmCall) :
    total kind calls = total kind (calls.filter part) + total kind (calls.filter (! part ·)) := by
  induction calls with
  | nil => rfl
  | cons call rest ih =>
    simp only [total,List.map_cons,List.sum_cons,List.filter_cons] at ih ⊢
    cases part call <;> simp <;> omega
theorem metrics_tokens (ended : List LlmCall) (isRecorded : ∀ call ∈ calls, Recorded call) :
    (metricsOf ended calls).tokens kind = total kind calls := by
  cases kind <;> exact max_eq_left (total_nonneg isRecorded)
theorem bucketOf_tokens (start : Int) (isRecorded : ∀ call ∈ calls, Recorded call) :
    (bucketOf start calls).tokens kind = total kind calls := by
  cases kind <;> exact max_eq_left (total_nonneg isRecorded)

end Totals

section Series
variable {bucket_ms : Int} {calls : List LlmCall} {kind : Kind}

theorem lookup_tabulated {σ : Type} (keys : List Int) (value : Int → σ) (key : Int) :
    Keyed.lookup (keys.map fun key => (key,value key)) key = if key ∈ keys then some (value key) else none := by
  induction keys with
  | nil => rfl
  | cons first rest ih =>
    rw [List.map_cons,Keyed.lookup_cons,ih]
    by_cases here : first = key
    · simp [here]
    · simp [here,Ne.symm here]
theorem lookup_others {σ : Type} (entries : List (Int × σ)) {key other : Int} (apart : other ≠ key) :
    Keyed.lookup (entries.filter (·.1 ≠ key)) other = Keyed.lookup entries other := by
  induction entries with
  | nil => rfl
  | cons first rest ih =>
    by_cases here : first.1 = key
    · rw [List.filter_cons_of_neg (by simp [here]),Keyed.lookup_cons,if_neg (here ▸ Ne.symm apart),ih]
    · rw [List.filter_cons_of_pos (by simp [here]),Keyed.lookup_cons,Keyed.lookup_cons,ih]

theorem seriesOf_eq {starts : List Int} (nodup : starts.Nodup) : ∀ entries : List (Int × TokenUsageBucket),
    seriesOf entries starts = starts.map fun start => (Keyed.lookup entries start).getD (emptyBucket start) := by
  induction starts with
  | nil => intro entries; rfl
  | cons start rest ih =>
    intro entries
    obtain ⟨apart,others⟩ := List.nodup_cons.mp nodup
    rw [seriesOf,List.map_cons,ih others]
    refine congrArg _ (List.map_congr_left fun other member => ?_)
    rw [lookup_others entries fun same : other = start => apart (same ▸ member)]
theorem recorded_start (start : Int) :
    ((Keyed.lookup (recorded bucket_ms calls) start).getD (emptyBucket start)).bucket_start_ms = start := by
  rw [recorded,lookup_tabulated]
  split_ifs <;> rfl
theorem recorded_tokens (isRecorded : ∀ call ∈ calls, Recorded call) (start : Int) :
    ((Keyed.lookup (recorded bucket_ms calls) start).getD (emptyBucket start)).tokens kind =
      total kind (calls.filter (bucketStart bucket_ms · = start)) := by
  rw [recorded,lookup_tabulated]
  split_ifs with found
  · exact bucketOf_tokens start fun call member => isRecorded call (List.mem_filter.mp member).1
  · have none_ : calls.filter (bucketStart bucket_ms · = start) = [] := by
      refine List.filter_eq_nil_iff.mpr fun call member same => found ?_
      rw [List.mem_dedup,← of_decide_eq_true same]
      exact List.mem_map_of_mem member
    rw [none_]
    cases kind <;> rfl
theorem sum_buckets {starts : List Int} (nodup : starts.Nodup) :
    (starts.map fun start => total kind (calls.filter (bucketStart bucket_ms · = start))).sum =
      total kind (calls.filter (bucketStart bucket_ms · ∈ starts)) := by
  induction starts with
  | nil => simp [total]
  | cons start rest ih =>
    obtain ⟨apart,others⟩ := List.nodup_cons.mp nodup
    rw [List.map_cons,List.sum_cons,ih others,
      total_split (bucketStart bucket_ms · = start) (calls.filter (bucketStart bucket_ms · ∈ start :: rest)),
      List.filter_filter,List.filter_filter]
    congr 2
    · refine List.filter_congr fun call _ => ?_
      by_cases here : bucketStart bucket_ms call = start <;> simp [here]
    · refine List.filter_congr fun call _ => ?_
      by_cases here : bucketStart bucket_ms call = start
      · simp [here,apart]
      · simp [here]

end Series

/-! ## Ranges of at most sixty days -/

/-- A series that ends with the bucket of the last millisecond of the range: it has sixty
    buckets, or fewer and begins with the bucket of the first millisecond. -/
structure Covers (start_ms end_ms bucket_ms series_start_ms bucket_count : Int) : Prop where
  size : 60000 ≤ bucket_ms ∧ bucket_ms ≤ 86400000
  aligned : bucket_ms ∣ series_start_ms
  last : series_start_ms + (bucket_count - 1) * bucket_ms = (end_ms - 1) / bucket_ms * bucket_ms
  count : 1 ≤ bucket_count ∧ bucket_count ≤ 60
  first : start_ms / bucket_ms * bucket_ms ≤ series_start_ms
  full : bucket_count = 60 ∨ series_start_ms = start_ms / bucket_ms * bucket_ms

section Range
variable {start_ms end_ms : Int}

theorem bucketSize_range (before : start_ms < end_ms) (short : end_ms - start_ms ≤ 60 * DAY_MS) :
    bucketSize start_ms end_ms none = automatic (end_ms - start_ms) := by
  have fits : saturated (end_ms - start_ms) = end_ms - start_ms := by
    refine saturated_eq ?_
    unfold InI64 i64Min i64Max DAY_MS HOUR_MS MINUTE_MS at *
    omega
  have positive : max (end_ms - start_ms) 1 = end_ms - start_ms := max_eq_left (by omega)
  rw [bucketSize,fits,positive]
  rfl
theorem bucketSize_enough (short : end_ms - start_ms ≤ 60 * DAY_MS) : end_ms - start_ms ≤ 60 * automatic (end_ms - start_ms) := by
  unfold automatic MAX_RANGE_BUCKETS DAY_MS HOUR_MS MINUTE_MS at *
  split_ifs <;> omega

variable (startIn : InI64 start_ms) (endIn : InI64 end_ms) (before : start_ms < end_ms) (short : end_ms - start_ms ≤ 60 * DAY_MS)
include startIn endIn before short

theorem noOverflow_iff : NoOverflow start_ms end_ms (automatic (end_ms - start_ms)) ↔
    i64Min ≤ start_ms / automatic (end_ms - start_ms) * automatic (end_ms - start_ms) := by
  refine ⟨fun fits => fits.first,fun first => ?_⟩
  have enough := bucketSize_enough short
  have last : saturated (end_ms - 1) = end_ms - 1 := by
    refine saturated_eq ?_
    unfold InI64 at *
    omega
  have size := automatic_cases (end_ms - start_ms)
  generalize automatic (end_ms - start_ms) = bucket_ms at *
  refine ⟨?_,first,?_⟩
  · rw [last]
    rcases size with rfl | rfl | rfl <;> omega
  · rw [last]
    unfold InI64 i64Min i64Max at *
    rcases size with rfl | rfl | rfl <;> omega

theorem series_covers (fits : NoOverflow start_ms end_ms (automatic (end_ms - start_ms))) (today : Int) :
    ∃ granularity series_start_ms bucket_count, token_usage_buckets today (some start_ms) (some end_ms) none =
      some (granularity,automatic (end_ms - start_ms),series_start_ms,bucket_count) ∧
      Covers start_ms end_ms (automatic (end_ms - start_ms)) series_start_ms bucket_count := by
  have same := bucketSize_range before short
  have enough := bucketSize_enough short
  have size := automatic_cases (end_ms - start_ms)
  have computed := @token_usage_buckets_eq start_ms end_ms none today (same ▸ fits) startIn
  rw [same] at computed
  refine ⟨_,_,_,computed,?_⟩
  have first := fits.first
  have last : saturated (end_ms - 1) = end_ms - 1 := by
    refine saturated_eq ?_
    unfold InI64 at *
    omega
  have count : shownBuckets start_ms end_ms (automatic (end_ms - start_ms)) none =
      max 1 (min 60 (allBuckets start_ms end_ms (automatic (end_ms - start_ms)))) := rfl
  rw [count,allBuckets,last]
  clear computed same fits count
  generalize automatic (end_ms - start_ms) = bucket_ms at *
  unfold InI64 i64Min i64Max at *
  rcases size with rfl | rfl | rfl
  all_goals
    unfold saturated i64Min i64Max
    constructor
    all_goals omega

end Range

section Covered
variable {start_ms end_ms bucket_ms series_start_ms bucket_count : Int}
  (covers : Covers start_ms end_ms bucket_ms series_start_ms bucket_count)
include covers

theorem starts_eq (startIn : i64Min ≤ start_ms / bucket_ms * bucket_ms) (endIn : end_ms ≤ i64Max) :
    starts series_start_ms bucket_ms bucket_count.toNat =
      (List.range bucket_count.toNat).map fun offset : Nat => series_start_ms + offset * bucket_ms := by
  obtain ⟨low,high⟩ := covers.count
  obtain ⟨small,large⟩ := covers.size
  have last := covers.last
  have first := covers.first
  have below := (border (by omega : 0 < bucket_ms) (end_ms - 1)).1
  refine List.map_congr_left fun offset member => ?_
  have within : (offset : Int) ≤ bucket_count - 1 := by
    have := List.mem_range.mp member
    omega
  have step : (offset : Int) * bucket_ms ≤ (bucket_count - 1) * bucket_ms := Int.mul_le_mul_of_nonneg_right within (by omega)
  have bound : (bucket_count - 1) * bucket_ms ≤ 59 * bucket_ms := Int.mul_le_mul_of_nonneg_right (by omega) (by omega)
  have nonneg : 0 ≤ (offset : Int) * bucket_ms := Int.mul_nonneg (by omega) (by omega)
  have shift : saturated ((offset : Int) * bucket_ms) = offset * bucket_ms := by
    refine saturated_eq ?_
    unfold InI64 i64Min i64Max
    omega
  rw [shift]
  refine saturated_eq ?_
  unfold InI64
  omega
theorem starts_nodup : ((List.range bucket_count.toNat).map fun offset : Nat => series_start_ms + offset * bucket_ms).Nodup := by
  obtain ⟨small,-⟩ := covers.size
  refine List.Nodup.map (fun a b same => ?_) List.nodup_range
  have times : (a : Int) * bucket_ms = b * bucket_ms := Int.add_left_cancel same
  exact_mod_cast Int.eq_of_mul_eq_mul_right (by omega) times

theorem bucket_shown {call : LlmCall} (created : 0 ≤ call.created_at_ms) (notEarly : series_start_ms ≤ call.created_at_ms)
    (early : call.created_at_ms < end_ms) :
    bucketStart bucket_ms call ∈ (List.range bucket_count.toNat).map fun offset : Nat => series_start_ms + offset * bucket_ms := by
  obtain ⟨small,-⟩ := covers.size
  obtain ⟨border_,rfl⟩ := covers.aligned
  have positive : 0 < bucket_ms := by omega
  have quotient : call.created_at_ms.tdiv bucket_ms = call.created_at_ms / bucket_ms := Int.tdiv_eq_ediv_of_nonneg created
  have low : border_ ≤ call.created_at_ms / bucket_ms := (Int.le_ediv_iff_mul_le positive).mpr (by rw [mul_comm]; exact notEarly)
  have high : call.created_at_ms / bucket_ms ≤ (end_ms - 1) / bucket_ms := Int.ediv_le_ediv positive (by omega)
  have last : border_ + (bucket_count - 1) = (end_ms - 1) / bucket_ms := by
    refine Int.eq_of_mul_eq_mul_right (ne_of_gt positive) ?_
    rw [← covers.last,add_mul,mul_comm border_]
  refine List.mem_map.mpr ⟨(call.created_at_ms / bucket_ms - border_).toNat,List.mem_range.mpr (by omega),?_⟩
  have offset : ((call.created_at_ms / bucket_ms - border_).toNat : Int) = call.created_at_ms / bucket_ms - border_ :=
    Int.toNat_of_nonneg (by omega)
  rw [bucketStart,quotient,offset,sub_mul,mul_comm bucket_ms]
  omega

/-- A call of the range is before the series exactly when it is before the last sixty
    buckets. -/
theorem before_series {call : LlmCall} (notEarly : start_ms ≤ call.created_at_ms) :
    call.created_at_ms < series_start_ms ↔ call.created_at_ms < (end_ms - 1) / bucket_ms * bucket_ms - 59 * bucket_ms := by
  obtain ⟨small,-⟩ := covers.size
  obtain ⟨low,high⟩ := covers.count
  have last := covers.last
  have below := (border (by omega : 0 < bucket_ms) start_ms).1
  rcases covers.full with full | full
  · rw [full] at last
    omega
  · have bound : (bucket_count - 1) * bucket_ms ≤ 59 * bucket_ms := Int.mul_le_mul_of_nonneg_right (by omega) (by omega)
    omega

end Covered

section Overview
variable {calls : List LlmCall} {start_ms end_ms : Int} {model_hashes : Option (List String)} {kind : Kind}

/-- Every call of the range that is older than its last sixty buckets has no tokens. -/
def OlderEmpty (calls : List LlmCall) (start_ms end_ms : Int) (model_hashes : Option (List String)) : Prop :=
  ∀ call ∈ rows calls (some start_ms) (some end_ms) model_hashes,
    call.created_at_ms < (end_ms - 1) / automatic (end_ms - start_ms) * automatic (end_ms - start_ms) - 59 * automatic (end_ms - start_ms) →
      ∀ kind, call.tokens kind = 0

def inSeries (series_start_ms : Int) (call : LlmCall) : Bool := series_start_ms ≤ call.created_at_ms

theorem rows_recorded (start end_ : Option Int) (isRecorded : ∀ call ∈ calls, Recorded call) :
    ∀ call ∈ rows calls start end_ model_hashes, Recorded call := fun call member => isRecorded call (List.mem_filter.mp member).1
theorem rows_later (series_start_ms : Int) : rows calls (some (max start_ms series_start_ms)) (some end_ms) model_hashes =
    (rows calls (some start_ms) (some end_ms) model_hashes).filter (inSeries series_start_ms) := by
  rw [rows,rows,List.filter_filter]
  refine List.filter_congr fun call _ => ?_
  have both : decide (max start_ms series_start_ms ≤ call.created_at_ms) =
      (decide (series_start_ms ≤ call.created_at_ms) && decide (start_ms ≤ call.created_at_ms)) := by
    rw [← Bool.decide_and]
    exact decide_eq_decide.mpr (max_le_iff.trans and_comm)
  simp only [notBefore,inSeries,Option.all_some,both,Bool.and_assoc]

theorem mem_rows {call : LlmCall} (member : call ∈ rows calls (some start_ms) (some end_ms) model_hashes) :
    start_ms ≤ call.created_at_ms ∧ call.created_at_ms < end_ms := by
  have kept := (List.mem_filter.mp member).2
  simp only [notBefore,isBefore,Option.all_some,Bool.and_eq_true,decide_eq_true_eq] at kept
  exact kept.1

theorem series_sum {bucket_ms series_start_ms bucket_count : Int}
    (covers : Covers start_ms end_ms bucket_ms series_start_ms bucket_count) (startIn : i64Min ≤ start_ms / bucket_ms * bucket_ms)
    (endIn : end_ms ≤ i64Max) (isRecorded : ∀ call ∈ calls, Recorded call) :
    ((seriesOf (recorded bucket_ms (rows calls (some (max start_ms series_start_ms)) (some end_ms) model_hashes))
      (starts series_start_ms bucket_ms bucket_count.toNat)).map (·.tokens kind)).sum =
    total kind ((rows calls (some start_ms) (some end_ms) model_hashes).filter (inSeries series_start_ms)) := by
  have nodup := starts_nodup covers
  have shown := @rows_recorded _ model_hashes (some (max start_ms series_start_ms)) (some end_ms) isRecorded
  have each : (TokenUsageBucket.tokens · kind) ∘ (fun start =>
      (Keyed.lookup (recorded bucket_ms (rows calls (some (max start_ms series_start_ms)) (some end_ms) model_hashes)) start).getD
        (emptyBucket start)) = fun start =>
      total kind ((rows calls (some (max start_ms series_start_ms)) (some end_ms) model_hashes).filter (bucketStart bucket_ms · = start)) :=
    funext (recorded_tokens shown)
  rw [starts_eq covers startIn endIn,seriesOf_eq nodup,List.map_map,each,sum_buckets nodup]
  rw [List.filter_eq_self.mpr,rows_later]
  intro call member
  obtain ⟨notEarly,early⟩ := mem_rows member
  exact decide_eq_true (bucket_shown covers (shown call member).created ((le_max_right _ _).trans notEarly) early)

/-- The overview of a range of at most sixty days adds up exactly when the border below its
    start is an `i64` and nothing older than the last sixty buckets has tokens. -/
theorem addsUp_iff (startIn : InI64 start_ms) (endIn : InI64 end_ms) (before : start_ms < end_ms) (short : end_ms - start_ms ≤ 60 * DAY_MS)
    (isRecorded : ∀ call ∈ calls, Recorded call) (today : Int) :
    (∃ o, overview calls today (some start_ms) (some end_ms) model_hashes none = some o ∧ AddsUp (automatic (end_ms - start_ms)) o) ↔
    i64Min ≤ start_ms / automatic (end_ms - start_ms) * automatic (end_ms - start_ms) ∧
      OlderEmpty calls start_ms end_ms model_hashes := by
  by_cases border_ : i64Min ≤ start_ms / automatic (end_ms - start_ms) * automatic (end_ms - start_ms)
  · have fits := (noOverflow_iff startIn endIn before short).mpr border_
    obtain ⟨granularity,series_start_ms,bucket_count,computed,covers⟩ := series_covers startIn endIn before short fits today
    have ranged := @rows_recorded _ model_hashes (some start_ms) (some end_ms) isRecorded
    have parts : ∀ kind, total kind (rows calls (some start_ms) (some end_ms) model_hashes) =
        total kind ((rows calls (some start_ms) (some end_ms) model_hashes).filter (inSeries series_start_ms)) +
        total kind ((rows calls (some start_ms) (some end_ms) model_hashes).filter (! inSeries series_start_ms ·)) :=
      fun kind => total_split _ _
    have older : OlderEmpty calls start_ms end_ms model_hashes ↔ ∀ kind,
        total kind ((rows calls (some start_ms) (some end_ms) model_hashes).filter (! inSeries series_start_ms ·)) = 0 := by
      constructor
      · intro empty kind
        refine (total_zero fun call member => ranged call (List.mem_filter.mp member).1).mpr fun call member => ?_
        obtain ⟨isRow,early⟩ := List.mem_filter.mp member
        exact empty call isRow ((before_series covers (mem_rows isRow).1).mp (by simpa [inSeries] using early)) kind
      · intro none_ call isRow early kind
        have all := (total_zero fun call member => ranged call (List.mem_filter.mp member).1).mp (none_ kind)
        exact all call (List.mem_filter.mpr ⟨isRow,by simpa [inSeries] using (before_series covers (mem_rows isRow).1).mpr early⟩)
    have o : overview calls today (some start_ms) (some end_ms) model_hashes none = some {
        metrics := metricsOf ((rows calls (some start_ms) (some end_ms) model_hashes).filter (·.status ≠ "running"))
          (rows calls (some start_ms) (some end_ms) model_hashes)
        token_usage_granularity := granularity
        token_usage_series := seriesOf (recorded (automatic (end_ms - start_ms))
          (rows calls (some (max start_ms series_start_ms)) (some end_ms) model_hashes))
          (starts series_start_ms (automatic (end_ms - start_ms)) bucket_count.toNat) } := by
      rw [overview,computed]
      rfl
    rw [o,older]
    simp only [border_,true_and,Option.some.injEq,exists_eq_left']
    constructor
    · intro adds kind
      have sum := adds.sums kind
      rw [series_sum covers border_ endIn.2 isRecorded,metrics_tokens _ ranged,parts kind] at sum
      omega
    · intro none_
      refine ⟨⟨series_start_ms,covers.aligned,?_⟩,fun kind => ?_⟩
      · rw [starts_eq covers border_ endIn.2,seriesOf_eq (starts_nodup covers),List.map_map,List.length_map,List.length_map,
        List.length_range]
        exact (List.map_congr_left fun start _ => recorded_start start).trans (List.map_id _)
      · rw [series_sum covers border_ endIn.2 isRecorded,metrics_tokens _ ranged,parts kind,none_ kind,add_zero]
  · refine iff_of_false ?_ fun both => border_ both.1
    rintro ⟨o,isOverview,-⟩
    rw [overview,Option.bind_eq_bind,Option.bind_eq_some_iff] at isOverview
    obtain ⟨result,computed,-⟩ := isOverview
    have fits := fits_of_buckets computed
    rw [bucketSize_range before short] at fits
    exact border_ fits.first

/-- Ranges of at most sixty days add up exactly when nothing older than their last sixty
    buckets has tokens, and any range has its buckets exactly when the borders below its
    ends fit in an `i64`. -/
theorem overview_exact (today : Int) :
    (∀ (calls : List LlmCall) (start_ms end_ms : Int) (model_hashes : Option (List String)), InI64 start_ms → InI64 end_ms →
      start_ms < end_ms → end_ms - start_ms ≤ 60 * DAY_MS → (∀ call ∈ calls, Recorded call) →
      ((∃ o, overview calls today (some start_ms) (some end_ms) model_hashes none = some o ∧ AddsUp (automatic (end_ms - start_ms)) o) ↔
        i64Min ≤ start_ms / automatic (end_ms - start_ms) * automatic (end_ms - start_ms) ∧
          OlderEmpty calls start_ms end_ms model_hashes)) ∧
    ∀ (start_ms end_ms : Int) (requested_bucket_ms : Option Int), InI64 start_ms → InI64 end_ms →
      ((∃ granularity bucket_ms series_start_ms bucket_count,
        token_usage_buckets today (some start_ms) (some end_ms) requested_bucket_ms =
          some (granularity,bucket_ms,series_start_ms,bucket_count) ∧ 1 ≤ bucket_count) ↔
        NoOverflow start_ms end_ms (bucketSize start_ms end_ms requested_bucket_ms)) :=
  ⟨fun _ _ _ _ startIn endIn before short isRecorded => addsUp_iff startIn endIn before short isRecorded today,
    fun _ _ _ startIn _ => token_usage_buckets_iff today startIn⟩

end Overview

def early : LlmCall := ⟨40000,"completed","openai-chat",none,some 5,none,none,none⟩

theorem early_recorded : ∀ call ∈ [early], Recorded call := by
  intro call member
  rw [List.mem_singleton.mp member]
  exact ⟨by decide,by decide,by decide,by decide,by decide⟩

/-- The hour touches sixty-one minutes, and the first of them is not shown. -/
theorem first_minute_lost : ¬ ∀ (calls : List LlmCall) (today start_ms end_ms : Int) (model_hashes : Option (List String)),
    InI64 start_ms → InI64 end_ms → start_ms < end_ms → end_ms - start_ms ≤ 60 * DAY_MS → (∀ call ∈ calls, Recorded call) →
      ∃ o, overview calls today (some start_ms) (some end_ms) model_hashes none = some o ∧ AddsUp (automatic (end_ms - start_ms)) o := by
  intro always
  have startIn : InI64 30000 := by decide
  have endIn : InI64 3630000 := by decide
  have adds := always [early] 0 30000 3630000 none startIn endIn (by decide) (by decide) early_recorded
  have older := ((addsUp_iff startIn endIn (by decide) (by decide) early_recorded 0).mp adds).2
  exact absurd (older early (by decide) (by decide) .Input) (by decide)

/-- The hour that begins with a minute, and a day at the least time of an `i64`. -/
theorem hour_adds_up : ((∃ o, overview [early] 0 (some 0) (some 3600000) none none = some o ∧ AddsUp (automatic (3600000 - 0)) o) ↔
      i64Min ≤ 0 / automatic (3600000 - 0) * automatic (3600000 - 0) ∧ OlderEmpty [early] 0 3600000 none) ∧
    ((∃ granularity bucket_ms series_start_ms bucket_count, token_usage_buckets 0 (some i64Min) (some 0) none =
        some (granularity,bucket_ms,series_start_ms,bucket_count) ∧ 1 ≤ bucket_count) ↔
      NoOverflow i64Min 0 (bucketSize i64Min 0 none)) :=
  ⟨(overview_exact 0).1 [early] 0 3600000 none (by decide) (by decide) (by decide) (by decide) early_recorded,
    (overview_exact 0).2 i64Min 0 none (by decide) (by decide)⟩

end MyCursor.Overviews
