/-
# The timestamp file and its analysis

`persistence_write_all_timestamps` (`common/persistence.c`) appends one line of
five decimals for each payload.  `parse_timestamps` (`analysis/large-eval/lib.py`)
reads the file with `numpy.fromfile (…, sep=" ", dtype=int)` and reshapes it to
rows of five; `compute_diffs` subtracts each row from the next but keeps the
packet id.  The rows are `int64`.

`numpy.fromfile` is a parameter, with what its documentation says of decimals
below `2^63` separated by whitespace as a hypothesis (`ReadsDecimals`).  Then
the rows of a file are the payloads written to it (`parseTimestamps_of_file`),
and a column of the differences is the column of `uint64_t` differences of
consecutive payloads (`column_computeDiffs`).
-/

import DetBypass.Lib.Decimal
import DetBypass.Common.Payload

namespace DetBypass

open Lib

variable {fromfile : List Char → List Int64} {ps : List PingpongPayload}

/-! ### Writing -/

/-- The numbers of a line of the file and what follows each,
`"%llu %llu %llu %llu %llu\n"`. -/
def timestampItems (payload : PingpongPayload) : List (ℕ × List Char) :=
  [(payload.id.toNat, [' ']), ((payload.ts 0).toNat, [' ']), ((payload.ts 1).toNat, [' ']),
    ((payload.ts 2).toNat, [' ']), ((payload.ts 3).toNat, ['\n'])]

/-- `persistence_write_all_timestamps`: the return value and the file, `none`
while the agent has none. -/
def persistenceWriteAllTimestamps (file : Option (List Char)) (payload : PingpongPayload) :
    ℤ × Option (List Char) :=
  match file with
  | none => (-1, none)
  | some text => (0, some (text ++ printDecimals (timestampItems payload)))

/-- The file after a sequence of payloads. -/
def timestampFile (ps : List PingpongPayload) : Option (List Char) :=
  ps.foldl (fun file payload => (persistenceWriteAllTimestamps file payload).2) (some [])

/-- The file has one line for each payload, in order. -/
theorem timestampFile_eq (ps : List PingpongPayload) :
    timestampFile ps = some (printDecimals (ps.flatMap timestampItems)) := by
  have h : ∀ text, ps.foldl (fun file payload => (persistenceWriteAllTimestamps file payload).2)
      (some text) = some (text ++ printDecimals (ps.flatMap timestampItems)) := by
    induction ps with
    | nil => simp
    | cons p ps ih =>
        intro text
        rw [List.foldl_cons, persistenceWriteAllTimestamps, ih, List.flatMap_cons,
          printDecimals_append, List.append_assoc]
  rw [timestampFile, h, List.nil_append]

/-! ### Reading -/

/-- `np.reshape (data, (len (data) // 5, 5))`, `none` where numpy raises. -/
def reshape5 : List Int64 → Option (List (Fin 5 → Int64))
  | [] => some []
  | a :: b :: c :: d :: e :: data => (reshape5 data).map (![a, b, c, d, e] :: ·)
  | _ => none

/-- `parse_timestamps` on the text of a file. -/
def parseTimestamps (fromfile : List Char → List Int64) (text : List Char) :
    Option (List (Fin 5 → Int64)) :=
  reshape5 (fromfile text)

/-- `compute_diffs`: of each row but the first, the packet id and the
differences to the row before. -/
def computeDiffs (timestamps : List (Fin 5 → Int64)) : List (Fin 5 → Int64) :=
  List.zipWith (fun prev row => Fin.cons (row 0) fun i => (row - prev) i.succ)
    timestamps timestamps.tail

/-- Column `i` of the time stamps. -/
def column (rows : List (Fin 5 → Int64)) (i : Fin 4) : List Int64 :=
  rows.map fun row => row i.succ

/-- What `numpy.fromfile` documents of a text of decimals separated by
whitespace. -/
def ReadsDecimals (fromfile : List Char → List Int64) : Prop :=
  ∀ items : List (ℕ × List Char), (∀ item ∈ items, item.1 < 2 ^ 63 ∧ Blank item.2) →
    fromfile (printDecimals items) = items.map fun item => Int64.ofNat item.1

/-- A reader that reads the decimals does. -/
theorem readsDecimals_readDecimals :
    ReadsDecimals fun text => (readDecimals text).map Int64.ofNat := by
  intro items h
  change (readDecimals (printDecimals items)).map Int64.ofNat = _
  rw [readDecimals_printDecimals fun item hitem => (h item hitem).2, List.map_map]
  rfl

/-! ### The rows of a file -/

/-- All fields fit an `int64`. -/
def FitsInt64 (payload : PingpongPayload) : Prop :=
  payload.id.toNat < 2 ^ 63 ∧ ∀ i, (payload.ts i).toNat < 2 ^ 63

/-- The row of a payload. -/
def payloadRow (payload : PingpongPayload) : Fin 5 → Int64 :=
  Fin.cons payload.id.toInt64 fun i => (payload.ts i).toInt64

/-- Five entries for each element are one row for each. -/
theorem reshape5_flatMap {α : Type*} {f : α → List Int64} {row : α → Fin 5 → Int64}
    (h : ∀ x, f x = List.ofFn (row x)) (l : List α) :
    reshape5 (l.flatMap f) = some (l.map row) := by
  induction l with
  | nil => rfl
  | cons x l ih =>
      have hrow : ![row x 0, row x 1, row x 2, row x 3, row x 4] = row x := by
        funext j
        fin_cases j <;> rfl
      rw [List.flatMap_cons, h, List.map_cons]
      show (reshape5 (l.flatMap f)).map (![row x 0, row x 1, row x 2, row x 3, row x 4] :: ·) = _
      rw [ih, hrow, Option.map_some]

/-- **Reading a timestamp file** gives one row for each payload, in order. -/
theorem parseTimestamps_of_file (hfile : ReadsDecimals fromfile) (hfit : ∀ p ∈ ps, FitsInt64 p) :
    ∃ text, timestampFile ps = some text ∧
      parseTimestamps fromfile text = some (ps.map payloadRow) := by
  refine ⟨_, timestampFile_eq ps, ?_⟩
  have hrow : ∀ p, (timestampItems p).map (fun item => Int64.ofNat item.1) =
      List.ofFn (payloadRow p) := fun p => by
    simp only [timestampItems, List.map_cons, List.map_nil, ← UInt64.toInt64_ofNat',
      UInt64.ofNat_toNat]
    rfl
  rw [parseTimestamps, hfile, List.map_flatMap, reshape5_flatMap hrow]
  intro item hitem
  obtain ⟨p, hp, hitem⟩ := List.mem_flatMap.1 hitem
  obtain ⟨hid, hts⟩ := hfit p hp
  have hspace : Blank [' '] := by simp [Blank]
  have hnewline : Blank ['\n'] := by simp [Blank]
  simp only [timestampItems, List.mem_cons, List.not_mem_nil, or_false] at hitem
  rcases hitem with rfl | rfl | rfl | rfl | rfl
  · exact ⟨hid, hspace⟩
  · exact ⟨hts 0, hspace⟩
  · exact ⟨hts 1, hspace⟩
  · exact ⟨hts 2, hspace⟩
  · exact ⟨hts 3, hnewline⟩

/-! ### The differences of consecutive payloads -/

/-- The differences of column `i` from the payload `q` on. -/
def tsDiffs (i : Fin 4) : PingpongPayload → List PingpongPayload → List UInt64
  | _, [] => []
  | q, p :: ps => (p.ts i - q.ts i) :: tsDiffs i p ps

/-- There is a difference for each payload after the first. -/
@[simp] theorem length_tsDiffs (i : Fin 4) (q : PingpongPayload) (ps : List PingpongPayload) :
    (tsDiffs i q ps).length = ps.length := by
  induction ps generalizing q with
  | nil => rfl
  | cons p ps ih => rw [tsDiffs, List.length_cons, ih, List.length_cons]

/-- The differences computed in Python are those computed in C. -/
theorem column_computeDiffs (i : Fin 4) (q : PingpongPayload) (ps : List PingpongPayload) :
    column (computeDiffs ((q :: ps).map payloadRow)) i =
      (tsDiffs i q ps).map UInt64.toInt64 := by
  induction ps generalizing q with
  | nil => rfl
  | cons p ps ih =>
      have ih := ih p
      simp only [column, computeDiffs, List.map_cons, List.tail_cons] at ih ⊢
      simp only [List.zipWith_cons_cons, List.map_cons, ih, tsDiffs]
      refine congrArg (· :: _) ?_
      rw [Fin.cons_succ, Pi.sub_apply, payloadRow, payloadRow, Fin.cons_succ, Fin.cons_succ,
        UInt64.toInt64_sub]

/-- The differences of columns that do not decrease are below `2^63`. -/
theorem tsDiffs_lt {i : Fin 4} {q : PingpongPayload} (hfit : ∀ p ∈ q :: ps, FitsInt64 p)
    (hmono : (q :: ps).Pairwise fun p p' => p.ts i ≤ p'.ts i) :
    ∀ d ∈ tsDiffs i q ps, d.toNat < 2 ^ 63 := by
  induction ps generalizing q with
  | nil => intro d hd; cases hd
  | cons p ps ih =>
      intro d hd
      obtain ⟨hq, hps⟩ := List.pairwise_cons.1 hmono
      rcases List.mem_cons.1 hd with rfl | hd
      · have hle := hq p (List.mem_cons_self ..)
        have hlt := (hfit p (List.mem_cons_of_mem _ (List.mem_cons_self ..))).2 i
        rw [UInt64.toNat_sub_of_le _ _ hle]
        omega
      · exact ih (fun p' hp' => hfit p' (List.mem_cons_of_mem _ hp')) hps d hd

end DetBypass
