/-
# Loading and removing the XDP programs

`attach_xdp` and `detach_xdp` of `xdp/src/xdp-loading.c`, as `main` calls them in
`pp_poll`, `pp_sock` and `pp_pure`.  Each tool has one program, which it pins at its
`pinpath` and attaches to an interface; the maps declared `LIBBPF_PIN_BY_NAME` are pinned
when the object is loaded, unless a map is pinned under the name, which is taken then.
Pins and programs outlive the processes.  So the state is what is pinned and what is
attached, and a run is any sequence of starts and removals of the tools on any interfaces,
with other programs that come and go.  Every call may fail by itself, without an effect.

`detach_xdp` gives up if the program is not pinned, and if it is, takes off the interface
whatever native program is there, of a tool or not.  It leaves a generic one, which
`bpf_xdp_detach` does not look for, and one that a BPF link holds, which it may not take;
beside either no other program can be attached (`Program.Stays`).  A start therefore
succeeds if the interface is free, or the tool is pinned and what is there can be taken
off, and pins it in any case: a start that has failed succeeds when it is repeated, unless
such a program stands in its way (`start_again`).  With one tool on one interface every
start succeeds, and `-r` frees the interface (`startable_of_reachable`).  The map of a
program that is started has never been in use, as long as the maps can be unpinned
(`fresh_of_start`).
-/

import DetBypass.Lib.Transition
import Mathlib.Data.Int.Notation
import Mathlib.Data.Nat.Notation
import Mathlib.Logic.Function.Basic
import Mathlib.Tactic.SplitIfs

namespace DetBypass
namespace Xdp
namespace Loading

open Lib

/-- The tools. -/
inductive Tool
  | ppPoll
  | ppSock
  | ppPure
deriving DecidableEq

/-- Whether the object of a tool has a map that is pinned by its name: `last_payload` and
`xsk_map`. -/
def Tool.pinsMap : Tool → Bool
  | .ppPoll | .ppSock => true
  | .ppPure => false

/-- How another program is attached: like those of the tools in native mode, in generic
mode (`XDP_FLAGS_SKB_MODE`), or in native mode by a BPF link. -/
inductive Attachment
  | native
  | generic
  | link
deriving DecidableEq

/-- What is attached to an interface: the program of a tool, with its map, or another. -/
inductive Program
  | of (tool : Tool) (map : Option ℕ)
  | foreign (mode : Attachment)
deriving DecidableEq

/-- What there is of a tool under `/sys/fs/bpf`, the number of its maps so far, and those
that a program had that was attached. -/
structure Pins where
  program : Bool
  map : Option ℕ
  created : ℕ
  used : List ℕ

/-- What a tool works on: its pins, and the interface. -/
structure View where
  pins : Pins
  xdp : Option Program

/-- The calls that may fail. -/
inductive Call
  | openFile
  | load
  | find
  | pin
  | attach
  | unpin
  | unpinMap
  | detach
deriving DecidableEq

/-- Those that fail by themselves. -/
abbrev Faults := Call → Bool

/-- No call does. -/
def noFaults : Faults := fun _ => false

/-- `bpf_object__load`: the map of the object, and the pins. -/
def Pins.load (p : Pins) (tool : Tool) : Option ℕ × Pins :=
  if tool.pinsMap then
    match p.map with
    | some map => (some map, p)
    | none => (some p.created, { p with map := some p.created, created := p.created + 1 })
  else (none, p)

/-- `bpf_program__pin`. -/
def Pins.pin (p : Pins) : Pins := { p with program := true }

/-- `bpf_program__unpin`, and `bpf_map__unpin`, whose result is not looked at. -/
def Pins.unpin (p : Pins) (failed : Bool) : Pins :=
  { p with program := false, map := if failed then p.map else none }

/-- The program is attached. -/
def Pins.use (p : Pins) (map : Option ℕ) : Pins := { p with used := map.toList ++ p.used }

/-- `bpf_xdp_detach` with `XDP_FLAGS_DRV_MODE`, and what is left on the interface: it does
not see a generic program, and fails with `EBUSY` on a link. -/
def bpfXdpDetach : Option Program → ℤ × Option Program
  | some (.foreign .generic) => (0, some (.foreign .generic))
  | some (.foreign .link) => (-1, some (.foreign .link))
  | some (.foreign .native) | some (.of ..) | none => (0, none)

/-- `attach_xdp`, with `XDP_FLAGS_UPDATE_IF_NOEXIST`. -/
def attachXdp (tool : Tool) (faults : Faults) (v : View) : ℤ × View :=
  if faults .load then (-1, v)
  else
    let (map, pins) := v.pins.load tool
    if faults .find then (-1, ⟨pins, v.xdp⟩)
    else if pins.program || faults .pin then (-1, ⟨pins, v.xdp⟩)
    else if v.xdp.isSome || faults .attach then (-1, ⟨pins.pin, v.xdp⟩)
    else (0, ⟨pins.pin.use map, some (.of tool map)⟩)

/-- `detach_xdp`. -/
def detachXdp (tool : Tool) (faults : Faults) (v : View) : ℤ × View :=
  if faults .load then (-1, v)
  else
    let pins := (v.pins.load tool).2
    if faults .find then (-1, ⟨pins, v.xdp⟩)
    else if !pins.program || faults .unpin then (-1, ⟨pins, v.xdp⟩)
    else if faults .detach then (-1, ⟨pins.unpin (faults .unpinMap), v.xdp⟩)
    else
      let (ret, xdp) := bpfXdpDetach v.xdp
      (ret, ⟨pins.unpin (faults .unpinMap), xdp⟩)

/-- `detach_pingpong_xdp`, written out in `main` of `pp_sock` and `pp_pure`. -/
def detachPingpongXdp (tool : Tool) (faults : Faults) (v : View) : ℤ × View :=
  if faults .openFile then (-1, v) else detachXdp tool faults v

/-- `attach_pingpong_xdp`; an object that could not be opened is not loaded. -/
def attachPingpongXdp (tool : Tool) (faults : Faults) (v : View) : ℤ × View :=
  if faults .openFile then (-1, v) else attachXdp tool faults v

/-- `main` without `-r`, to the result of `attach_xdp`: `faults` are those of the first
half, `faults'` of the second.  `pp_sock` and `pp_pure` end if the file cannot be opened
in the first. -/
def start (tool : Tool) (faults faults' : Faults) (v : View) : ℤ × View :=
  if faults .openFile && tool ≠ .ppPoll then (-1, v)
  else attachPingpongXdp tool faults' (detachPingpongXdp tool faults v).2

/-- `main` with `-r`: the exit status, which in `pp_sock` does not tell whether the
program was detached. -/
def remove (tool : Tool) (faults : Faults) (v : View) : ℤ × View :=
  if faults .openFile then (1, v)
  else
    let (ret, v) := detachXdp tool faults v
    match tool with
    | .ppPoll => (if ret = 0 then 0 else 1, v)
    | .ppSock => (0, v)
    | .ppPure => (ret, v)

/-- The pins of all tools, and the interfaces. -/
structure Kernel (ι : Type*) where
  pins : Tool → Pins
  xdp : ι → Option Program

variable {ι : Type*} [DecidableEq ι]

/-- A tool runs on an interface. -/
def Kernel.run (k : Kernel ι) (tool : Tool) (i : ι) (main : View → ℤ × View) : ℤ × Kernel ι :=
  let (ret, v) := main ⟨k.pins tool, k.xdp i⟩
  (ret, ⟨Function.update k.pins tool v.pins, Function.update k.xdp i v.xdp⟩)

/-- A run of a tool, the `bpf_xdp_detach` at the end of `pp_sock`, a program of somebody
else, or the removal of what is attached by hand. -/
inductive Action (ι : Type*)
  | start (tool : Tool) (i : ι) (faults faults' : Faults)
  | remove (tool : Tool) (i : ι) (faults : Faults)
  | finish (i : ι)
  | foreign (i : ι) (mode : Attachment)
  | clear (i : ι)

def step (k : Kernel ι) : Action ι → Option (Kernel ι)
  | .start tool i faults faults' => some (k.run tool i (start tool faults faults')).2
  | .remove tool i faults => some (k.run tool i (remove tool faults)).2
  | .finish i => some { k with xdp := Function.update k.xdp i (bpfXdpDetach (k.xdp i)).2 }
  | .foreign i mode =>
    if k.xdp i = none then some { k with xdp := Function.update k.xdp i (some (.foreign mode)) }
    else none
  | .clear i => some { k with xdp := Function.update k.xdp i none }

/-- Nothing pinned, nothing attached. -/
def initial : Kernel ι := ⟨fun _ => ⟨false, none, 0, []⟩, fun _ => none⟩

/-- The runs of the tools. -/
def loading (ι : Type*) [DecidableEq ι] : System (Kernel ι) (Action ι) := ⟨initial, step⟩

variable {tool tool' : Tool} {i j : ι} {k k' : Kernel ι} {v v' : View} {p : Pins}
  {faults faults' : Faults}

/-- A program that a tool cannot take off the interface. -/
def Program.Stays : Program → Prop
  | .foreign .generic | .foreign .link => True
  | .foreign .native | .of .. => False

/-- Nothing stands in the way of a tool that is pinned. -/
def View.Free (v : View) : Prop := ∀ prog, v.xdp = some prog → ¬ prog.Stays

/-- Nothing is left attached exactly where the interface can be freed. -/
theorem bpfXdpDetach_eq_none_iff : (bpfXdpDetach v.xdp).2 = none ↔ v.Free := by
  unfold View.Free
  rcases v.xdp with _ | ⟨tool, map⟩ | ⟨_ | _ | _⟩ <;> simp [bpfXdpDetach, Program.Stays]

/-! ### The map of a program -/

/-- Loading does not pin the program. -/
@[simp] theorem load_program (p : Pins) (tool : Tool) : (p.load tool).2.program = p.program := by
  unfold Pins.load
  split
  · split <;> rfl
  · rfl

/-- Nor does it use a map. -/
@[simp] theorem load_used (p : Pins) (tool : Tool) : (p.load tool).2.used = p.used := by
  unfold Pins.load
  split
  · split <;> rfl
  · rfl

/-- A map that was used and is pinned has its program pinned beside it. -/
structure Pins.Clean (p : Pins) : Prop where
  map_lt : ∀ map, p.map = some map → map < p.created
  used_lt : ∀ map ∈ p.used, map < p.created
  pinned : ∀ map, p.map = some map → map ∈ p.used → p.program = true

/-- The map of an object is pinned, and was made before. -/
theorem load_map (h : p.Clean) (hpins : tool.pinsMap = true) : ∃ map,
    (p.load tool).1 = some map ∧ (p.load tool).2.map = some map ∧
      map < (p.load tool).2.created ∧ (map ∈ p.used → p.program = true) := by
  unfold Pins.load
  rw [if_pos hpins]
  cases hmap : p.map with
  | some map => exact ⟨map, rfl, hmap, h.map_lt map hmap, h.pinned map hmap⟩
  | none =>
      refine ⟨p.created, rfl, rfl, Nat.lt_succ_self _, fun hused => ?_⟩
      exact absurd (h.used_lt _ hused) (Nat.lt_irrefl _)

/-- Loading leaves the pins clean. -/
theorem Pins.Clean.load (h : p.Clean) (tool : Tool) : (p.load tool).2.Clean := by
  unfold Pins.load
  split
  · cases hmap : p.map with
    | some map => exact h
    | none =>
        refine ⟨fun map he => ?_, fun map hused => Nat.lt_succ_of_lt (h.used_lt map hused),
          fun map he hused => ?_⟩
        · obtain rfl := Option.some.inj he
          exact Nat.lt_succ_self _
        · obtain rfl := Option.some.inj he
          exact absurd (h.used_lt _ hused) (Nat.lt_irrefl _)
  · exact h

/-! ### The two calls -/

/-- No call fails. -/
@[simp] theorem noFaults_apply (call : Call) : noFaults call = false := rfl

/-- **What `attach_xdp` has done when it returns 0.** -/
theorem attachXdp_of_ok (h : attachXdp tool faults v = (0, v')) :
    v.pins.program = false ∧ v.xdp = none ∧
      v' = ⟨(v.pins.load tool).2.pin.use (v.pins.load tool).1,
        some (.of tool (v.pins.load tool).1)⟩ := by
  unfold attachXdp at h
  dsimp only at h
  split_ifs at h with hload hfind hpin hattach
  any_goals cases h
  simp only [load_program, Bool.or_eq_true, not_or, Bool.not_eq_true] at hpin hattach
  exact ⟨hpin.1, by simpa using hattach.1, rfl⟩

/-- Otherwise the interface is as it was, and the program is pinned at most. -/
theorem attachXdp_of_error {ret : ℤ} (h : attachXdp tool faults v = (ret, v')) (hret : ret ≠ 0) :
    v'.xdp = v.xdp ∧ (v'.pins = v.pins ∨ v'.pins = (v.pins.load tool).2 ∨
      v'.pins = (v.pins.load tool).2.pin) := by
  unfold attachXdp at h
  dsimp only at h
  split_ifs at h with hload hfind hpin hattach
  all_goals obtain ⟨rfl, rfl⟩ := Prod.mk.inj h
  · exact ⟨rfl, Or.inl rfl⟩
  · exact ⟨rfl, Or.inr (Or.inl rfl)⟩
  · exact ⟨rfl, Or.inr (Or.inl rfl)⟩
  · exact ⟨rfl, Or.inr (Or.inr rfl)⟩
  · exact absurd rfl hret

/-- If nothing else fails, it needs a free interface and a free `pinpath`. -/
theorem attachXdp_noFaults (tool : Tool) (v : View) :
    ((attachXdp tool noFaults v).1 = 0 ↔ v.pins.program = false ∧ v.xdp = none) ∧
      (attachXdp tool noFaults v).2.pins.program = true := by
  simp only [attachXdp, noFaults_apply, load_program, Bool.or_false, Bool.false_eq_true, if_false]
  cases hprogram : v.pins.program <;> cases hxdp : v.xdp <;> simp [hprogram, Pins.pin, Pins.use]

/-- **What `detach_xdp` does**: nothing to the interface unless the program is pinned. -/
theorem detachXdp_cases {ret : ℤ} (h : detachXdp tool faults v = (ret, v')) :
    (ret = -1 ∧ v'.xdp = v.xdp ∧ (v'.pins = v.pins ∨ v'.pins = (v.pins.load tool).2)) ∨
      (v.pins.program = true ∧ v'.pins = (v.pins.load tool).2.unpin (faults .unpinMap) ∧
        (v'.xdp = v.xdp ∨ v'.xdp = (bpfXdpDetach v.xdp).2)) := by
  unfold detachXdp at h
  dsimp only at h
  split_ifs at h with hload hfind hunpin hdetach
  all_goals obtain ⟨rfl, rfl⟩ := Prod.mk.inj h
  · exact Or.inl ⟨rfl, rfl, Or.inl rfl⟩
  · exact Or.inl ⟨rfl, rfl, Or.inr rfl⟩
  · exact Or.inl ⟨rfl, rfl, Or.inr rfl⟩
  all_goals
    simp only [load_program, Bool.or_eq_true, not_or, Bool.not_eq_true', Bool.not_eq_false]
      at hunpin
  · exact Or.inr ⟨hunpin.1, rfl, Or.inl rfl⟩
  · exact Or.inr ⟨hunpin.1, rfl, Or.inr rfl⟩

/-- If nothing else fails, it needs the program pinned. -/
theorem detachXdp_noFaults (tool : Tool) (v : View) : (detachXdp tool noFaults v).2 =
    if v.pins.program then ⟨(v.pins.load tool).2.unpin false, (bpfXdpDetach v.xdp).2⟩
    else ⟨(v.pins.load tool).2, v.xdp⟩ := by
  simp only [detachXdp, noFaults_apply, load_program, Bool.or_false, Bool.false_eq_true, if_false]
  cases v.pins.program <;> rfl

/-- What the tools have attached is taken off. -/
theorem bpfXdpDetach_of_own {xdp : Option Program} (h : ∀ mode, xdp ≠ some (.foreign mode)) :
    (bpfXdpDetach xdp).2 = none := by
  rcases xdp with _ | ⟨tool, map⟩ | mode
  · rfl
  · rfl
  · exact absurd rfl (h mode)

/-! ### The map of a program that is started -/

/-- So does pinning. -/
theorem Pins.Clean.pin (h : p.Clean) : p.pin.Clean :=
  ⟨h.map_lt, h.used_lt, fun _ _ _ => rfl⟩

/-- And unpinning, where the map can be unpinned. -/
theorem Pins.Clean.unpin (h : p.Clean) : (p.unpin false).Clean where
  map_lt map he := absurd he (by simp [Pins.unpin])
  used_lt := h.used_lt
  pinned map he := absurd he (by simp [Pins.unpin])

/-- `attach_xdp` leaves the pins clean, whatever fails. -/
theorem Pins.Clean.attachXdp (h : v.pins.Clean) (tool : Tool) (faults : Faults) :
    (attachXdp tool faults v).2.pins.Clean := by
  rcases hattach : Loading.attachXdp tool faults v with ⟨ret, v'⟩
  by_cases hret : ret = 0
  · obtain ⟨-, -, rfl⟩ := attachXdp_of_ok (hret ▸ hattach)
    refine ⟨(h.load tool).map_lt, fun map hused => ?_, fun _ _ _ => rfl⟩
    rcases List.mem_append.1 hused with hmap | hused
    · cases hpins : tool.pinsMap with
      | true =>
          obtain ⟨m, hm, -, hlt, -⟩ := load_map h hpins
          rw [hm] at hmap
          obtain rfl := List.mem_singleton.1 hmap
          exact hlt
      | false => simp [Pins.load, hpins] at hmap
    · exact (h.load tool).used_lt map hused
  · obtain ⟨-, hpins | hpins | hpins⟩ := attachXdp_of_error hattach hret
    · exact hpins ▸ h
    · exact hpins ▸ h.load tool
    · exact hpins ▸ (h.load tool).pin

/-- `detach_xdp` does where the map can be unpinned. -/
theorem Pins.Clean.detachXdp (h : v.pins.Clean) (tool : Tool) (hmap : faults .unpinMap = false) :
    (detachXdp tool faults v).2.pins.Clean := by
  rcases hdetach : Loading.detachXdp tool faults v with ⟨ret, v'⟩
  rcases detachXdp_cases hdetach with ⟨-, -, hpins | hpins⟩ | ⟨-, hpins, -⟩
  · exact hpins ▸ h
  · exact hpins ▸ h.load tool
  · rw [hmap] at hpins
    exact hpins ▸ (h.load tool).unpin

/-- A detached program has the maps that it had. -/
theorem detachXdp_used (tool : Tool) (faults : Faults) (v : View) :
    (detachXdp tool faults v).2.pins.used = v.pins.used := by
  rcases hdetach : detachXdp tool faults v with ⟨ret, v'⟩
  rcases detachXdp_cases hdetach with ⟨-, -, hpins | hpins⟩ | ⟨-, hpins, -⟩
  · exact congrArg Pins.used hpins
  · rw [hpins, load_used]
  · rw [hpins]
    exact load_used ..

/-- A program is attached with a map that is new, or was never in use. -/
theorem fresh_of_attachXdp (h : v.pins.Clean) (hattach : attachXdp tool faults v = (0, v')) :
    ∃ map, v'.xdp = some (.of tool map) ∧
      (tool.pinsMap = true → ∃ m, map = some m ∧ m ∉ v.pins.used) := by
  obtain ⟨hprogram, -, rfl⟩ := attachXdp_of_ok hattach
  refine ⟨_, rfl, fun hpins => ?_⟩
  obtain ⟨m, hm, -, -, hpinned⟩ := load_map h hpins
  exact ⟨m, hm, fun hused => Bool.false_ne_true (hprogram.symm.trans (hpinned hused))⟩

/-! ### A run of a tool -/

/-- So does the `detach` of a tool. -/
theorem Pins.Clean.detach (h : v.pins.Clean) (tool : Tool) (hmap : faults .unpinMap = false) :
    (detachPingpongXdp tool faults v).2.pins.Clean := by
  unfold detachPingpongXdp
  split_ifs
  · exact h
  · exact h.detachXdp tool hmap

/-- And its `attach`. -/
theorem Pins.Clean.attach (h : v.pins.Clean) (tool : Tool) (faults : Faults) :
    (attachPingpongXdp tool faults v).2.pins.Clean := by
  unfold attachPingpongXdp
  split_ifs
  · exact h
  · exact h.attachXdp tool faults

/-- So a start leaves them clean. -/
theorem Pins.Clean.start (h : v.pins.Clean) (tool : Tool) (hmap : faults .unpinMap = false)
    (faults' : Faults) : (start tool faults faults' v).2.pins.Clean := by
  unfold Loading.start
  split_ifs
  · exact h
  · exact (h.detach tool hmap).attach tool faults'

/-- Detaching uses no map. -/
theorem detachPingpongXdp_used (tool : Tool) (faults : Faults) (v : View) :
    (detachPingpongXdp tool faults v).2.pins.used = v.pins.used := by
  unfold detachPingpongXdp
  split_ifs
  · rfl
  · exact detachXdp_used tool faults v

/-- `-r` does what `detach` does. -/
theorem remove_snd (tool : Tool) (faults : Faults) (v : View) :
    (remove tool faults v).2 = (detachPingpongXdp tool faults v).2 := by
  unfold remove detachPingpongXdp
  split_ifs
  · rfl
  · cases tool <;> rfl

/-- **A start needs a free interface, or the program pinned** and nothing there that
stays, if nothing else fails, and pins it. -/
theorem start_noFaults (tool : Tool) (v : View) :
    ((start tool noFaults noFaults v).1 = 0 ↔ v.pins.program = true ∧ v.Free ∨ v.xdp = none) ∧
      (start tool noFaults noFaults v).2.pins.program = true := by
  have hstart : start tool noFaults noFaults v =
      attachXdp tool noFaults (detachXdp tool noFaults v).2 := rfl
  obtain ⟨hok, hpinned⟩ := attachXdp_noFaults tool (detachXdp tool noFaults v).2
  rw [hstart]
  refine ⟨hok.trans ?_, hpinned⟩
  rw [detachXdp_noFaults]
  cases hprogram : v.pins.program with
  | true =>
      have hnone (hxdp : v.xdp = none) : v.Free := fun prog he => by
        rw [hxdp] at he
        cases he
      simp only [if_true, Pins.unpin, true_and, bpfXdpDetach_eq_none_iff]
      exact ⟨Or.inl, fun h => h.elim id hnone⟩
  | false => simp [hprogram]

/-- A start that succeeds has a map that was not in use. -/
theorem fresh_of_start_view (h : v.pins.Clean) (hmap : faults .unpinMap = false)
    (hstart : start tool faults faults' v = (0, v')) :
    ∃ map, v'.xdp = some (.of tool map) ∧
      (tool.pinsMap = true → ∃ m, map = some m ∧ m ∉ v.pins.used) := by
  unfold start attachPingpongXdp at hstart
  split_ifs at hstart
  any_goals cases hstart
  have hfresh := fresh_of_attachXdp (h.detach tool hmap) hstart
  rwa [detachPingpongXdp_used] at hfresh

/-! ### The runs of the tools -/

/-- A run of a tool changes its pins. -/
@[simp] theorem run_pins_self (k : Kernel ι) (tool : Tool) (i : ι) (main : View → ℤ × View) :
    (k.run tool i main).2.pins tool = (main ⟨k.pins tool, k.xdp i⟩).2.pins :=
  Function.update_self ..

/-- It leaves those of the others. -/
theorem run_pins_of_ne (h : tool' ≠ tool) (main : View → ℤ × View) :
    (k.run tool i main).2.pins tool' = k.pins tool' :=
  Function.update_of_ne h ..

/-- And the other interfaces. -/
theorem run_xdp_of_ne (h : j ≠ i) (main : View → ℤ × View) :
    (k.run tool i main).2.xdp j = k.xdp j :=
  Function.update_of_ne h ..

/-- What is attached to its own. -/
@[simp] theorem run_xdp_self (k : Kernel ι) (tool : Tool) (i : ι) (main : View → ℤ × View) :
    (k.run tool i main).2.xdp i = (main ⟨k.pins tool, k.xdp i⟩).2.xdp :=
  Function.update_self ..

/-- No map stays pinned when its program is unpinned. -/
def MapsUnpinned (_ : Kernel ι) : Action ι → Prop
  | .start _ _ faults _ | .remove _ _ faults => faults .unpinMap = false
  | .finish _ | .foreign .. | .clear _ => True

/-- What every run of a tool keeps of its pins. -/
theorem forall_pins_of_run {P : Pins → Prop} {main : View → ℤ × View}
    (h : ∀ tool, P (k.pins tool))
    (hmain : ∀ v : View, P v.pins → P (main v).2.pins) (tool' : Tool) :
    P ((k.run tool i main).2.pins tool') := by
  by_cases htool : tool' = tool
  · subst htool
    rw [run_pins_self]
    exact hmain _ (h tool')
  · rw [run_pins_of_ne htool]
    exact h tool'

/-- **A pinned map is in use only beside its program**, in every run. -/
theorem clean_of_reachable (h : (loading ι).ReachableIf MapsUnpinned k) (tool : Tool) :
    (k.pins tool).Clean := by
  refine System.Invariant.holds (I := fun k : Kernel ι => ∀ tool, (k.pins tool).Clean)
    ⟨fun tool => ⟨fun map he => (by cases he), fun map hused => (by cases hused),
      fun map he => (by cases he)⟩, ?_⟩ h tool
  rintro k (⟨tool, i, faults, faults'⟩ | ⟨tool, i, faults⟩ | i | ⟨i, mode⟩ | i) t hk hmap hstep
  · obtain rfl := Option.some.inj hstep
    exact forall_pins_of_run hk fun v hv => hv.start tool hmap faults'
  · obtain rfl := Option.some.inj hstep
    refine forall_pins_of_run hk fun v hv => ?_
    rw [remove_snd]
    exact hv.detach tool hmap
  · obtain rfl := Option.some.inj hstep
    exact hk
  · have hstep : step k (.foreign i mode) = some t := hstep
    unfold step at hstep
    dsimp only at hstep
    split_ifs at hstep
    obtain rfl := Option.some.inj hstep
    exact hk
  · obtain rfl := Option.some.inj hstep
    exact hk

/-- **A tool starts with a map that was never in use**, whatever was run before. -/
theorem fresh_of_start (h : (loading ι).ReachableIf MapsUnpinned k)
    (hmap : faults .unpinMap = false)
    (hstart : k.run tool i (start tool faults faults') = (0, k')) :
    ∃ map, k'.xdp i = some (.of tool map) ∧
      (tool.pinsMap = true → ∃ m, map = some m ∧ m ∉ (k.pins tool).used) := by
  obtain ⟨hret, rfl⟩ := Prod.mk.inj hstart
  obtain ⟨map, hxdp, hfresh⟩ := fresh_of_start_view (v := ⟨k.pins tool, k.xdp i⟩)
    (clean_of_reachable h tool) hmap (Prod.ext hret rfl)
  exact ⟨map, (Function.update_self ..).trans hxdp, hfresh⟩

/-- `pp_poll` is started twice. -/
theorem exists_fresh : ∃ k k' : Kernel Unit,
    k.run .ppPoll () (start .ppPoll noFaults noFaults) = (0, k') ∧
      (k.pins .ppPoll).used = [0] ∧ ∃ m ≠ 0, k'.xdp () = some (.of .ppPoll (some m)) := by
  have hrun : (loading Unit).ReachableIf MapsUnpinned
      ((initial : Kernel Unit).run .ppPoll () (start .ppPoll noFaults noFaults)).2 :=
    System.RunIf.tail System.RunIf.refl (a := .start .ppPoll () noFaults noFaults) rfl rfl
  have hstart : ((initial : Kernel Unit).run .ppPoll () (start .ppPoll noFaults noFaults)).2.run
      .ppPoll () (start .ppPoll noFaults noFaults) = (0, _) := rfl
  obtain ⟨map, hxdp, hfresh⟩ := fresh_of_start hrun rfl hstart
  obtain ⟨m, rfl, hm⟩ := hfresh rfl
  exact ⟨_, _, hstart, rfl, m, fun he => hm (he ▸ List.mem_singleton_self 0), hxdp⟩

-- a map that cannot be unpinned is in use again
example : let k := ((initial : Kernel Unit).run .ppPoll () (start .ppPoll noFaults noFaults)).2
    let k' := k.run .ppPoll () (start .ppPoll (· = .unpinMap) noFaults)
    k'.1 = 0 ∧ k'.2.xdp () = some (.of .ppPoll (some 0)) ∧ (k.pins .ppPoll).used = [0] := by
  decide

/-! ### A start that is repeated -/

/-- The tool is not removed, and its starts have no faults; other tools and other programs
do what they will. -/
def Keeps (tool : Tool) (_ : Kernel ι) : Action ι → Prop
  | .start tool' _ faults faults' => tool' = tool → faults = noFaults ∧ faults' = noFaults
  | .remove tool' _ _ => tool' ≠ tool
  | .finish _ | .foreign .. | .clear _ => True

/-- The program stays pinned. -/
theorem pinned_of_step {a : Action ι} (h : (k.pins tool).program = true) (ha : Keeps tool k a)
    (hstep : step k a = some k') : (k'.pins tool).program = true := by
  rcases a with ⟨tool', i, faults, faults'⟩ | ⟨tool', i, faults⟩ | i | ⟨i, mode⟩ | i
  · obtain rfl := Option.some.inj hstep
    by_cases htool : tool' = tool
    · obtain ⟨rfl, rfl⟩ := ha htool
      subst htool
      rw [run_pins_self]
      exact (start_noFaults tool' _).2
    · rwa [run_pins_of_ne (Ne.symm htool)]
  · obtain rfl := Option.some.inj hstep
    rwa [run_pins_of_ne (Ne.symm ha)]
  · obtain rfl := Option.some.inj hstep
    exact h
  · have hstep : step k (.foreign i mode) = some k' := hstep
    unfold step at hstep
    dsimp only at hstep
    split_ifs at hstep
    obtain rfl := Option.some.inj hstep
    exact h
  · obtain rfl := Option.some.inj hstep
    exact h

/-- **The second start succeeds**, on any interface and whatever is done with the other
tools in between, unless a program is attached there in generic mode or by a link. -/
theorem start_again (k : Kernel ι) (tool : Tool) (i j : ι)
    (hrun : (loading ι).RunIf (Keeps tool) (k.run tool i (start tool noFaults noFaults)).2 k') :
    (k'.run tool j (start tool noFaults noFaults)).1 = 0 ↔
      ∀ prog, k'.xdp j = some prog → ¬ prog.Stays := by
  have hpinned : (k'.pins tool).program = true := by
    refine System.RunIf.preserves (I := fun k : Kernel ι => (k.pins tool).program = true) hrun
      pinned_of_step ?_
    rw [run_pins_self]
    exact (start_noFaults tool _).2
  refine (start_noFaults tool ⟨k'.pins tool, k'.xdp j⟩).1.trans ⟨?_, fun h => Or.inl ⟨hpinned, h⟩⟩
  rintro (⟨-, hfree⟩ | hnone)
  · exact hfree
  · intro prog hprog
    cases hnone.symm.trans hprog

/-- The first start of `pp_sock` finds the program of `pp_poll` attached. -/
theorem exists_start_again : ∃ k : Kernel Unit,
    (k.run .ppSock () (start .ppSock noFaults noFaults)).1 = -1 ∧
      ((k.run .ppSock () (start .ppSock noFaults noFaults)).2.run .ppSock ()
        (start .ppSock noFaults noFaults)).1 = 0 :=
  ⟨((initial : Kernel Unit).run .ppPoll () (start .ppPoll noFaults noFaults)).2, by decide,
    (start_again _ .ppSock () () System.RunIf.refl).2 fun prog hprog hstays => by
      cases prog with
      | of => exact hstays
      | foreign mode => exact absurd hprog (by cases mode <;> decide)⟩

/-! ### One tool on one interface -/

/-- The tool runs on this interface only, without faults, and nothing else is attached
there. -/
def Only (tool : Tool) (i : ι) (_ : Kernel ι) : Action ι → Prop
  | .start tool' j faults faults' =>
    tool' = tool ∧ j = i ∧ faults = noFaults ∧ faults' = noFaults ∨ tool' ≠ tool ∧ j ≠ i
  | .remove tool' j faults => tool' = tool ∧ j = i ∧ faults = noFaults ∨ tool' ≠ tool ∧ j ≠ i
  | .finish _ | .clear _ => True
  | .foreign j _ => j ≠ i

/-- A start attaches no program of somebody else. -/
theorem start_ne_foreign (h : ∀ mode, v.xdp ≠ some (.foreign mode)) (mode : Attachment) :
    (start tool noFaults noFaults v).2.xdp ≠ some (.foreign mode) := by
  have hdetach : ∀ mode, (detachXdp tool noFaults v).2.xdp ≠ some (.foreign mode) := by
    intro mode he
    rw [detachXdp_noFaults] at he
    split_ifs at he
    · cases (bpfXdpDetach_of_own h).symm.trans he
    · exact h mode he
  have hstart : start tool noFaults noFaults v =
      attachXdp tool noFaults (detachXdp tool noFaults v).2 := rfl
  rw [hstart]
  rcases hattach : attachXdp tool noFaults (detachXdp tool noFaults v).2 with ⟨ret, v'⟩
  by_cases hret : ret = 0
  · obtain ⟨-, -, rfl⟩ := attachXdp_of_ok (hret ▸ hattach)
    simp
  · rw [(attachXdp_of_error hattach hret).1]
    exact hdetach mode

/-- A removal. -/
theorem detach_noFaults (tool : Tool) (v : View) : (detachPingpongXdp tool noFaults v).2 =
    if v.pins.program then ⟨(v.pins.load tool).2.unpin false, (bpfXdpDetach v.xdp).2⟩
    else ⟨(v.pins.load tool).2, v.xdp⟩ := by
  rw [detachPingpongXdp, noFaults_apply, if_neg Bool.false_ne_true, detachXdp_noFaults]

/-- What is attached is pinned, and can be taken off. -/
theorem pinned_of_attached (h : (loading ι).ReachableIf (Only tool i) k) :
    (k.xdp i ≠ none → (k.pins tool).program = true) ∧ ∀ mode, k.xdp i ≠ some (.foreign mode) := by
  refine System.Invariant.holds (I := fun k : Kernel ι =>
      (k.xdp i ≠ none → (k.pins tool).program = true) ∧ ∀ mode, k.xdp i ≠ some (.foreign mode))
    ⟨⟨fun hne => absurd rfl hne, fun _ he => by cases he⟩, ?_⟩ h
  -- an interface that is freed
  have hnone {k : Kernel ι} (hxdp : k.xdp i = none) :
      (k.xdp i ≠ none → (k.pins tool).program = true) ∧ ∀ mode, k.xdp i ≠ some (.foreign mode) :=
    ⟨fun hne => absurd hxdp hne, fun _ he => by cases hxdp.symm.trans he⟩
  rintro k (⟨tool', j, faults, faults'⟩ | ⟨tool', j, faults⟩ | j | ⟨j, mode⟩ | j) t ⟨hk, hown⟩ ha
    hstep
  · obtain rfl := Option.some.inj hstep
    rcases ha with ⟨rfl, rfl, rfl, rfl⟩ | ⟨htool, hj⟩
    · rw [run_pins_self, run_xdp_self]
      exact ⟨fun _ => (start_noFaults tool' _).2, start_ne_foreign hown⟩
    · rw [run_pins_of_ne htool.symm, run_xdp_of_ne hj.symm]
      exact ⟨hk, hown⟩
  · obtain rfl := Option.some.inj hstep
    rcases ha with ⟨rfl, rfl, rfl⟩ | ⟨htool, hj⟩
    · rw [run_pins_self, run_xdp_self, remove_snd, detach_noFaults]
      split_ifs with hprogram
      · exact ⟨fun hne => absurd (bpfXdpDetach_of_own hown) hne, fun mode he => by
          cases (bpfXdpDetach_of_own hown).symm.trans he⟩
      · exact ⟨fun hne => absurd (hk hne) hprogram, hown⟩
    · rw [run_pins_of_ne htool.symm, run_xdp_of_ne hj.symm]
      exact ⟨hk, hown⟩
  · obtain rfl := Option.some.inj hstep
    by_cases hj : i = j
    · subst hj
      exact hnone ((Function.update_self ..).trans (bpfXdpDetach_of_own hown))
    · simp only [Function.update_of_ne hj]
      exact ⟨hk, hown⟩
  · have hstep : step k (.foreign j mode) = some t := hstep
    unfold step at hstep
    dsimp only at hstep
    split_ifs at hstep
    obtain rfl := Option.some.inj hstep
    simp only [Function.update_of_ne (Ne.symm ha)]
    exact ⟨hk, hown⟩
  · obtain rfl := Option.some.inj hstep
    by_cases hj : i = j
    · subst hj
      exact hnone (Function.update_self ..)
    · simp only [Function.update_of_ne hj]
      exact ⟨hk, hown⟩

/-- **A tool that keeps to its interface** can always be started there, and `-r` always
frees the interface; it leaves a map pinned where the program was not. -/
theorem startable_of_reachable (h : (loading ι).ReachableIf (Only tool i) k) :
    (k.run tool i (start tool noFaults noFaults)).1 = 0 ∧
      (k.run tool i (remove tool noFaults)).2.xdp i = none ∧
      ((k.run tool i (remove tool noFaults)).2.pins tool).program = false ∧
      (tool.pinsMap = true → (((k.run tool i (remove tool noFaults)).2.pins tool).map = none ↔
        (k.pins tool).program = true)) := by
  obtain ⟨hpinned, hown⟩ := pinned_of_attached h
  have hdetached : (bpfXdpDetach (k.xdp i)).2 = none := bpfXdpDetach_of_own hown
  refine ⟨(start_noFaults tool ⟨k.pins tool, k.xdp i⟩).1.2 ?_, ?_, ?_, fun hpins => ?_⟩
  · by_cases hxdp : k.xdp i = none
    · exact Or.inr hxdp
    · exact Or.inl ⟨hpinned hxdp,
        (bpfXdpDetach_eq_none_iff (v := ⟨k.pins tool, k.xdp i⟩)).1 hdetached⟩
  · rw [run_xdp_self, remove_snd, detach_noFaults]
    split_ifs with hprogram
    · exact hdetached
    · by_contra hxdp
      exact hprogram (hpinned hxdp)
  · rw [run_pins_self, remove_snd, detach_noFaults]
    split_ifs with hprogram
    · rfl
    · rw [load_program]
      simpa using hprogram
  · rw [run_pins_self, remove_snd, detach_noFaults]
    split_ifs with hprogram
    · exact iff_of_true rfl hprogram
    · refine iff_of_false (fun hmap => ?_) hprogram
      unfold Pins.load at hmap
      rw [if_pos hpins] at hmap
      cases hm : (k.pins tool).map <;> simp [hm] at hmap

/-- `pp_pure` is started where it is attached. -/
theorem exists_startable : ∃ k : Kernel Unit, k.xdp () ≠ none ∧
    (k.run .ppPure () (start .ppPure noFaults noFaults)).1 = 0 := by
  have hrun : (loading Unit).ReachableIf (Only .ppPure ())
      ((initial : Kernel Unit).run .ppPure () (start .ppPure noFaults noFaults)).2 :=
    System.RunIf.tail System.RunIf.refl (a := .start .ppPure () noFaults noFaults)
      (Or.inl ⟨rfl, rfl, rfl, rfl⟩) rfl
  exact ⟨_, by decide, (startable_of_reachable hrun).1⟩

-- on a second interface the pin is missing after one removal
example : let run (k : Kernel Bool) (i : Bool) (main : View → ℤ × View) := k.run .ppPoll i main
    let k := (run (run initial false (start .ppPoll noFaults noFaults)).2 true
      (start .ppPoll noFaults noFaults)).2
    let k' := (run k false (remove .ppPoll noFaults)).2
    (run k' true (remove .ppPoll noFaults)).1 = 1 ∧
      (run k' true (remove .ppPoll noFaults)).2.xdp true = some (.of .ppPoll (some 1)) := by
  decide

end Loading
end Xdp
end DetBypass
