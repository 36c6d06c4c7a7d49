/-
# Where the analysis finds a packet delayed

`compute_peaks` (`analysis/large-eval/lib.py`) looks at the differences between
each row of a timestamp file and the row before, and reports for each of the
three segments of a round, to the server, at the server and back, the rows where
the differences at its two ends are apart by more than a threshold.

The two ends of a segment on the wire are read on different hosts, whose clocks
have origins of their own; a difference of differences does not contain them.
For every program, every run and every pair of origins the columns that
`compute_peaks` tests are the changes of the true durations from one record to
the next, and a row is reported exactly if its change is above the threshold; with
fewer than two records `compute_peaks` raises (`peaks_of_run`).

A threshold that is not positive is replaced by an estimate from the standard
deviations of the three columns, in doubles.  The test against that estimate is
a parameter, a function of the columns.
-/

import DetBypass.Delays

namespace DetBypass

open Lib

/-! ### In Python -/

namespace Analysis

/-- `np.abs` of an `int64`. -/
def abs (d : Int64) : Int64 := if d < 0 then -d else d

/-- `np.argwhere (…).flatten ()`: the indices of the elements that pass a test. -/
def argwhere (test : Int64 → Bool) (l : List Int64) : List ℕ :=
  (List.range l.length).filter fun i => l[i]?.any test

/-- `diffs[:, phase + 1] - diffs[:, phase]`, with the phases counted from 0. -/
def change (diffs : List (Fin 5 → Int64)) (phase : Fin 3) : List Int64 :=
  diffs.map fun row => row phase.succ.succ - row phase.castSucc.succ

/-- `… > threshold`, for the absolute value of a change. -/
def above (aboveEstimate : (Fin 3 → List Int64) → Int64 → Bool)
    (diffs : List (Fin 5 → Int64)) (threshold : ℤ) (d : Int64) : Bool :=
  if threshold ≤ 0 then aboveEstimate (change diffs) d else decide (threshold < d.toInt)

/-- `compute_peaks`: the three arrays of indices, `none` where `diffs[:, phase + 1]` raises
an `IndexError`: an array of no rows has only one dimension. -/
def computePeaks (aboveEstimate : (Fin 3 → List Int64) → Int64 → Bool)
    (diffs : List (Fin 5 → Int64)) (threshold : ℤ) : Option (Fin 3 → List ℕ) :=
  if diffs = [] then none
  else some fun phase =>
    argwhere (fun d => above aboveEstimate diffs threshold (abs d)) (change diffs phase)

/-- The indices are those of the elements that pass. -/
theorem mem_argwhere {test : Int64 → Bool} {l : List Int64} {i : ℕ} :
    i ∈ argwhere test l ↔ ∃ d, l[i]? = some d ∧ test d = true := by
  rw [argwhere, List.mem_filter, List.mem_range, Option.any_eq_true]
  constructor
  · rintro ⟨-, h⟩
    exact h
  · rintro ⟨d, hd, htest⟩
    exact ⟨(List.getElem?_eq_some_iff.1 hd).1, d, hd, htest⟩

/-- Two rows are needed. -/
theorem computePeaks_computeDiffs (aboveEstimate : (Fin 3 → List Int64) → Int64 → Bool)
    (rows : List (Fin 5 → Int64)) (threshold : ℤ) :
    computePeaks aboveEstimate (computeDiffs rows) threshold =
      if rows.length < 2 then none
      else some fun phase =>
        argwhere (fun d => above aboveEstimate (computeDiffs rows) threshold (abs d))
          (change (computeDiffs rows) phase) := by
  have hnil : computeDiffs rows = [] ↔ rows.length < 2 := by
    rw [← List.length_eq_zero_iff, computeDiffs, List.length_zipWith, List.length_tail]
    omega
  simp only [computePeaks, hnil]

/-- The absolute value, of any number but the least. -/
theorem abs_toInt {d : Int64} (h : d.toInt ≠ -2 ^ 63) : (abs d).toInt = |d.toInt| := by
  have hmin := d.le_toInt
  have hmax := d.toInt_lt
  unfold abs
  split_ifs with hneg
  · have hlt : d.toInt < 0 := Int64.lt_iff_toInt_lt.1 hneg
    rw [Int64.toInt_neg, Int.bmod_eq_of_le (by omega) (by omega), abs_of_neg hlt]
  · have hle : 0 ≤ d.toInt := not_lt.1 fun h => hneg (Int64.lt_iff_toInt_lt.2 h)
    rw [abs_of_nonneg hle]

/-- The changes of the rows of a list, one for each row but the first. -/
theorem change_computeDiffs {α : Type*} (row : α → Fin 5 → Int64) (l : List α) (phase : Fin 3) :
    change (computeDiffs (l.map row)) phase = List.zipWith (fun x y =>
      (row y - row x) phase.succ.succ - (row y - row x) phase.castSucc.succ) l l.tail := by
  rw [change, computeDiffs, ← List.map_tail, List.zipWith_map, List.map_zipWith]
  rfl

end Analysis

/-! ### The records of a run -/

namespace Delays

open Analysis

/-- The times of a round. -/
def time (x : Trip PingpongPayload) : Fin 4 → ℕ := ![x.t₀, x.t₁, x.t₂, x.t₃]

/-- How long a round was in a segment of its path: to the server, there, and back. -/
def duration (phase : Fin 3) (x : Trip PingpongPayload) : ℤ :=
  time x phase.succ - time x phase.castSucc

variable {program : Delays.Program} {origin origin' : ℕ} {iters : UInt64}
  {s : Rounds.State program.Message PingpongPayload} {x y : Trip PingpongPayload}

/-- The origin of the clock of each reading. -/
def originOf (origin origin' : ℕ) : Fin 4 → ℕ := ![origin, origin', origin', origin]

/-- Each time stamp is a reading of the clock of its host. -/
theorem IsRound.ts_eq (h : IsRound origin origin' iters x) (i : Fin 4) :
    x.val.ts i = clock (originOf origin origin' i) (time x i) := by
  rw [h.readings]
  fin_cases i <;> rfl

/-- A segment ends no earlier than it begins. -/
theorem IsRound.duration_bounds (h : IsRound origin origin' iters x) (phase : Fin 3) :
    0 ≤ duration phase x ∧ duration phase x ≤ x.t₃ := by
  obtain ⟨h₀₁, h₁₂, h₂₃⟩ := h.inOrder
  fin_cases phase <;> simp [duration, time] <;> omega

/-- As an `int64` a reading is the time since the origin, wrapped. -/
theorem clock_toInt64 (origin t : ℕ) : (clock origin t).toInt64 = Int64.ofInt (origin + t) := by
  rw [clock, UInt64.toInt64_ofNat', ← Int64.ofInt_eq_ofNat]
  rfl

/-- **The origins are not in the change of a segment** from one round to another. -/
theorem change_of_rounds (hx : IsRound origin origin' iters x)
    (hy : IsRound origin origin' iters y) (phase : Fin 3) :
    (payloadRow y.val - payloadRow x.val) phase.succ.succ -
        (payloadRow y.val - payloadRow x.val) phase.castSucc.succ =
      Int64.ofInt (duration phase y - duration phase x) := by
  simp only [Pi.sub_apply, payloadRow, Fin.cons_succ, hx.ts_eq, hy.ts_eq, clock_toInt64,
    ← Int64.ofInt_sub]
  refine congrArg Int64.ofInt ?_
  simp only [duration]
  omega

/-- The change of a segment from each record to the next. -/
def changes (records : List (Trip PingpongPayload)) (phase : Fin 3) : List Int64 :=
  List.zipWith (fun x y => Int64.ofInt (duration phase y - duration phase x)) records records.tail

/-- The columns of the analysis are the changes, record by record. -/
theorem change_eq_changes {records : List (Trip PingpongPayload)}
    (h : ∀ x ∈ records, IsRound origin origin' iters x) :
    change (computeDiffs (records.map fun x => payloadRow x.val)) = changes records := by
  funext phase
  rw [change_computeDiffs, changes]
  refine List.ext_getElem? fun i => ?_
  rw [List.getElem?_zipWith, List.getElem?_zipWith]
  cases hx : records[i]? with
  | none => rfl
  | some x =>
      cases hy : records.tail[i]? with
      | none => rfl
      | some y =>
          have hround := h x (List.mem_of_getElem? hx)
          have hnext := h y (List.mem_of_mem_tail (List.mem_of_getElem? hy))
          exact congrArg some (change_of_rounds hround hnext phase)

/-- A change that `np.abs` and the test see as it is. -/
theorem abs_ofInt {d : ℤ} (h : |d| < 2 ^ 63) :
    Analysis.abs (Int64.ofInt d) = Int64.ofInt |d| ∧ (Int64.ofInt |d|).toInt = |d| := by
  obtain ⟨hlow, hhigh⟩ := abs_lt.1 h
  have hd : (Int64.ofInt d).toInt = d := Int64.toInt_ofInt_of_le (by omega) hhigh
  have habs : (Int64.ofInt |d|).toInt = |d| :=
    Int64.toInt_ofInt_of_le (le_trans (by decide) (abs_nonneg d)) h
  refine ⟨Int64.toInt_inj.1 ?_, habs⟩
  rw [abs_toInt (by omega), hd, habs]

/-- The test of a change. -/
theorem above_iff {aboveEstimate : (Fin 3 → List Int64) → Int64 → Bool}
    {diffs : List (Fin 5 → Int64)} {threshold d : ℤ} (h : |d| < 2 ^ 63) :
    above aboveEstimate diffs threshold (Analysis.abs (Int64.ofInt d)) = true ↔
      if threshold ≤ 0 then aboveEstimate (change diffs) (Int64.ofInt |d|) = true
      else threshold < |d| := by
  obtain ⟨habs, hval⟩ := abs_ofInt h
  rw [habs, above]
  split_ifs
  · exact Iff.rfl
  · rw [hval, decide_eq_true_eq]

/-- The durations of two rounds before a time are no further apart than that. -/
theorem abs_duration_lt (hx : IsRound origin origin' iters x) (hy : IsRound origin origin' iters y)
    {t : ℕ} (hxt : x.t₃ ≤ t) (hyt : y.t₃ ≤ t) (ht : t < 2 ^ 63) (phase : Fin 3) :
    |duration phase y - duration phase x| < 2 ^ 63 := by
  have hdx := hx.duration_bounds phase
  have hdy := hy.duration_bounds phase
  rw [abs_lt]
  omega

/-- **The peaks of a run.**  The timestamp file is read back, the columns that are
tested are the changes of the true durations of the segments, and a row is
reported for a segment exactly if there the change from its record to the next is
above the threshold, whatever the origins of the clocks.  Without two records
`compute_peaks` raises. -/
theorem peaks_of_run {fromfile : List Char → List Int64} (hfile : ReadsDecimals fromfile)
    (h : (program.runs origin origin' iters).Reachable s) (hiters : iters.toNat < 2 ^ 63)
    (hclient : origin + s.now < 2 ^ 63) (hserver : origin' + s.now < 2 ^ 63) :
    ∃ text rows, timestampFile (s.records.map Trip.val) = some text ∧
      parseTimestamps fromfile text = some rows ∧
      ∀ aboveEstimate threshold,
        (computePeaks aboveEstimate (computeDiffs rows) threshold = none ↔
          s.records.length < 2) ∧
        ∀ peaks, computePeaks aboveEstimate (computeDiffs rows) threshold = some peaks →
          ∀ phase i, i ∈ peaks phase ↔
            ∃ x y, s.records[i]? = some x ∧ s.records[i + 1]? = some y ∧
              if threshold ≤ 0 then aboveEstimate (changes s.records)
                (Int64.ofInt |duration phase y - duration phase x|) = true
              else threshold < |duration phase y - duration phase x| := by
  have hround : ∀ x ∈ s.records, IsRound origin origin' iters x := fun x hx =>
    latency_eq_meanDelay h (by omega) hx
  have hnow : ∀ x ∈ s.records, x.t₃ ≤ s.now := fun x hx =>
    (Rounds.completed_of_reachable h hx).2.2
  have hfit : ∀ p ∈ s.records.map Trip.val, FitsInt64 p := by
    intro p hp
    obtain ⟨x, hx, rfl⟩ := List.mem_map.1 hp
    obtain ⟨-, hid, hval⟩ := (hround x hx).number
    exact ⟨by omega, (inOrder_of_isRound (hround x hx) (hnow x hx) hclient hserver).2⟩
  obtain ⟨text, htext, hrows⟩ := parseTimestamps_of_file hfile hfit
  refine ⟨text, _, htext, hrows, fun aboveEstimate threshold => ?_⟩
  have hcolumns := change_eq_changes hround
  rw [List.map_map, Function.comp_def, computePeaks_computeDiffs, List.length_map]
  refine ⟨by split_ifs with htwo <;> simp [htwo], fun peaks hpeaks phase i => ?_⟩
  obtain ⟨-, hpeaks⟩ := Option.ite_none_left_eq_some.1 hpeaks
  cases hpeaks
  rw [mem_argwhere, hcolumns, changes]
  simp only [List.getElem?_zipWith_eq_some, List.getElem?_tail]
  have hsmall : ∀ x y, s.records[i]? = some x → s.records[i + 1]? = some y →
      |duration phase y - duration phase x| < 2 ^ 63 := fun x y hx hy =>
    abs_duration_lt (hround x (List.mem_of_getElem? hx)) (hround y (List.mem_of_getElem? hy))
      (hnow x (List.mem_of_getElem? hx)) (hnow y (List.mem_of_getElem? hy)) (by omega) phase
  constructor
  · rintro ⟨_, ⟨x, y, hx, hy, rfl⟩, hpeak⟩
    rw [above_iff (hsmall x y hx hy), hcolumns] at hpeak
    exact ⟨x, y, hx, hy, hpeak⟩
  · rintro ⟨x, y, hx, hy, hpeak⟩
    refine ⟨_, ⟨x, y, hx, hy, rfl⟩, ?_⟩
    rw [above_iff (hsmall x y hx hy), hcolumns]
    exact hpeak

/-- Two rounds, the second of which takes 90 ns more on its way to the server. -/
theorem exists_peak : ∃ text rows,
    parseTimestamps (fun text => (readDecimals text).map Int64.ofNat) text = some rows ∧
      ∃ peaks, computePeaks (fun _ _ => false) (computeDiffs rows) 50 = some peaks ∧
        0 ∈ peaks 0 ∧ 0 ∉ peaks 2 := by
  have hexec : ((Program.noBypass.runs 900 40 2).exec Rounds.initial
      [.ping, .wait 5, .arrive 0 false, .wait 3, .pong 0, .wait 7, .take 0 false,
        .ping, .wait 95, .arrive 0 false, .wait 3, .pong 0, .wait 7, .take 0 false]).map
      (fun s => (s.now, s.records.map fun x => (x.t₀, x.t₁, x.t₂, x.t₃))) =
      some (120, [(0, 5, 8, 15), (15, 110, 113, 120)]) := rfl
  obtain ⟨s, hs, he⟩ := Option.map_eq_some_iff.1 hexec
  obtain ⟨hnow, hrecords⟩ := Prod.mk.inj he
  obtain ⟨x, l, hxl, hx, hl⟩ := List.map_eq_cons_iff.1 hrecords
  obtain ⟨y, rfl, hy⟩ := List.map_eq_singleton_iff.1 hl
  obtain ⟨text, rows, -, hrows, hpeaks⟩ := peaks_of_run readsDecimals_readDecimals
    (System.reachable_of_exec hs) (by decide) (by rw [hnow]; decide) (by rw [hnow]; decide)
  simp only [Prod.mk.injEq] at hx hy
  obtain ⟨hx₀, hx₁, hx₂, hx₃⟩ := hx
  obtain ⟨hy₀, hy₁, hy₂, hy₃⟩ := hy
  have hthere : duration 0 y - duration 0 x = 90 := by
    simp [duration, time, hx₀, hx₁, hy₀, hy₁]
  have hback : duration 2 y - duration 2 x = 0 := by
    simp [duration, time, hx₂, hx₃, hy₂, hy₃]
  obtain ⟨hnone, hpeaks⟩ := hpeaks (fun _ _ => false) 50
  obtain ⟨peaks, hsome⟩ := Option.ne_none_iff_exists'.1 fun h =>
    absurd (hnone.1 h) (by rw [hxl]; simp)
  refine ⟨text, rows, hrows, peaks, hsome, ?_, ?_⟩
  · rw [hpeaks peaks hsome, hxl]
    exact ⟨x, y, rfl, rfl, by rw [hthere]; decide⟩
  · rw [hpeaks peaks hsome, hxl]
    rintro ⟨x', y', hx', hy', h⟩
    cases hx'
    cases hy'
    rw [hback] at h
    exact absurd h (by decide)

end Delays
end DetBypass
