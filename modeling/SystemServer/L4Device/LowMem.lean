import Mathlib.Tactic.Common
import SystemServer.Core.LTS

/-!
# Low memory levels and the OOM timer (`ss_lowmem_handler.c`)

The kernel reports memory levels. `lowmem_cb` looks the pair (current level,
new level) up in the table `lpe`, runs the row's action and makes the new
level the current one, whether there was a row or not. The action of the
critical rows is also the callback of a timer, which goes on killing victims
until the timer is deleted.

* `timers_step`: in every run at most one timer is live, and `oom_timer`
  denotes it.
* The table has no row from CRITICAL to LOW or REBOOT, so the timer is not
  deleted there; none out of REBOOT, so the timer is not set and the
  published level is not corrected there. `level_along_iff`: the timer and
  the published level follow the readings of a run if and only if it takes
  none of these steps (`Covered`).

The names of the published levels come from a header of another package;
publishing and setting a timer succeed.
-/
namespace SystemServer.L4.LowMem

/-- mirrors ss_lowmem_handler.c:36-39 -/
inductive MemState where
  | NORMAL | LOW | CRITICAL | REBOOT
  deriving DecidableEq, Repr

/-- The values of `VCONFKEY_SYSMAN_LOW_MEMORY`. -/
inductive Level where
  | NORMAL | SOFT_WARNING | HARD_WARNING
  deriving DecidableEq, Repr

/-- The actions of the table. -/
inductive Act where
  | low | oom | normal
  deriving DecidableEq, Repr

/-- mirrors ss_lowmem_handler.c:47-51 -/
structure LowmemProcessEntry where
  curMemState : MemState
  newMemState : MemState
  action : Act

/-- mirrors ss_lowmem_handler.c:63-71 -/
def lpe : List LowmemProcessEntry :=
  [⟨.NORMAL, .LOW, .low⟩,
    ⟨.NORMAL, .CRITICAL, .oom⟩,
    ⟨.LOW, .CRITICAL, .oom⟩,
    ⟨.CRITICAL, .CRITICAL, .oom⟩,
    ⟨.LOW, .NORMAL, .normal⟩,
    ⟨.CRITICAL, .NORMAL, .normal⟩]

/-- What an action does besides publishing. -/
inductive Effect where
  | removeShm
  | resCleanup
  | lowMemAct
  | oomMemAct
  deriving DecidableEq, Repr

structure Handler where
  curMemState : MemState
  oomTimer : Option Nat
  /-- the timers Ecore has, with their callbacks -/
  live : List (Nat × Act)
  nextTimer : Nat
  oomDeleteSmTime : UInt32
  published : Option Level
  effects : List Effect

def Handler.publish (v : Level) (s : Handler) : Handler := { s with published := some v }

def Handler.emit (es : List Effect) (s : Handler) : Handler := { s with effects := s.effects ++ es }

/-! ## The actions -/

/-- mirrors ss_lowmem_handler.c:128-143 -/
def memoryLowAct (s : Handler) : Int × Handler :=
  (0, (s.emit [.removeShm, .resCleanup]).publish .SOFT_WARNING |>.emit [.lowMemAct])

/-- `now` is `time(NULL)`; the difference is unsigned.
mirrors ss_lowmem_handler.c:145-168 -/
def memoryOomAct (now : UInt32) (s : Handler) : Int × Handler :=
  let s := if now - s.oomDeleteSmTime > 15 then
    { s.emit [.removeShm, .resCleanup] with oomDeleteSmTime := now } else s
  (1, (s.publish .HARD_WARNING).emit [.oomMemAct])

/-- mirrors ss_lowmem_handler.c:170-176 -/
def memoryNormalAct (s : Handler) : Int × Handler := (0, s.publish .NORMAL)

def Act.run (now : UInt32) : Act → Handler → Int × Handler
  | .low => memoryLowAct
  | .oom => memoryOomAct now
  | .normal => memoryNormalAct

/-! ## Timers -/

def ecoreTimerAdd (a : Act) (s : Handler) : Nat × Handler :=
  (s.nextTimer, { s with live := (s.nextTimer, a) :: s.live, nextTimer := s.nextTimer + 1 })

def ecoreTimerDel (t : Nat) (s : Handler) : Handler := { s with live := s.live.filter (·.1 ≠ t) }

/-- A timer whose callback returns 0 is deleted. -/
def tick (now : UInt32) (t : Nat) (s : Handler) : Option Handler :=
  match s.live.find? (·.1 = t) with
  | none => none
  | some (_, a) =>
    let r := a.run now s
    some (if r.1 = 0 then ecoreTimerDel t r.2 else r.2)

/-! ## Readings -/

/-- The switch of `convert_to_str`, whose default is `assert(0)`.
mirrors ss_lowmem_handler.c:100-120 -/
def convert (v : UInt32) : Option MemState :=
  if v = 0x0000 then some .NORMAL
  else if v = 0xfaac then some .LOW
  else if v = 0xdead then some .CRITICAL
  else if v = 0xb00f then some .REBOOT
  else none

def delOomTimer (s : Handler) : Handler :=
  match s.oomTimer with
  | some t => { ecoreTimerDel t s with oomTimer := none }
  | none => s

/-- mirrors ss_lowmem_handler.c:178-196 -/
def lowmemProcess (now : UInt32) (memState : MemState) (s : Handler) : Handler :=
  match lpe.find? fun e => s.curMemState = e.curMemState ∧ memState = e.newMemState with
  | none => s
  | some e =>
    let s := (e.action.run now (delOomTimer s)).2
    if memState = .CRITICAL then
      let r := ecoreTimerAdd e.action s
      { r.2 with oomTimer := some r.1 }
    else s

/-- `v` is what `lowmem_read` got; `none` is the assertion failing.
mirrors ss_lowmem_handler.c:205-225 -/
def lowmemCb (now : UInt32) (v : UInt32) (s : Handler) : Option Handler :=
  (convert v).map fun memState => { lowmemProcess now memState s with curMemState := memState }

/-! ## Runs -/

inductive Lbl where
  | reading (now v : UInt32)
  | tick (now : UInt32) (t : Nat)

structure St where
  handler : Handler
  /-- ghost: a LOW or CRITICAL reading has occurred -/
  warned : Bool

/-- `memState` is a level that warns. -/
def MemState.warns (m : MemState) : Bool := m = .LOW || m = .CRITICAL

def step (s : St) : Lbl → Option St
  | .reading now v =>
    (convert v).bind fun m => (lowmemCb now v s.handler).map fun h => ⟨h, s.warned || m.warns⟩
  | .tick now t => (tick now t s.handler).map fun h => { s with handler := h }

structure Init (s : St) : Prop where
  normal : s.handler.curMemState = .NORMAL
  timer : s.handler.oomTimer = none
  live : s.handler.live = []
  warned : s.warned = false

def lts : LTS St Lbl := ⟨Init, step⟩

/-! ## One timer -/

/-- `oom_timer` denotes the one live timer, which runs `memory_oom_act`. -/
def Timers (s : Handler) : Prop := s.live = (s.oomTimer.map fun t => (t, Act.oom)).toList

theorem timers_delOomTimer {s : Handler} (h : Timers s) :
    (delOomTimer s).live = [] ∧ (delOomTimer s).oomTimer = none := by
  unfold Timers at h
  cases ht : s.oomTimer with
  | none => simp only [ht, Option.map_none, Option.toList_none] at h; simp [delOomTimer, ht, h]
  | some t =>
    simp only [ht, Option.map_some, Option.toList_some] at h
    simp [delOomTimer, ht, ecoreTimerDel, h]

/-- An action leaves the timers and the level alone. -/
theorem run_frame (now : UInt32) (a : Act) (s : Handler) :
    (a.run now s).2.live = s.live ∧ (a.run now s).2.oomTimer = s.oomTimer ∧
      (a.run now s).2.curMemState = s.curMemState := by
  cases a with
  | low => exact ⟨rfl, rfl, rfl⟩
  | normal => exact ⟨rfl, rfl, rfl⟩
  | oom => simp only [Act.run, memoryOomAct]; split <;> exact ⟨rfl, rfl, rfl⟩

/-- What an action publishes. -/
def Act.level : Act → Level
  | .low => .SOFT_WARNING
  | .oom => .HARD_WARNING
  | .normal => .NORMAL

theorem run_published (now : UInt32) (a : Act) (s : Handler) :
    (a.run now s).2.published = some a.level := by
  cases a <;> rfl

/-- The row of the table for a change of level. -/
def row (cur new : MemState) : Option Act :=
  (lpe.find? fun e => cur = e.curMemState ∧ new = e.newMemState).map LowmemProcessEntry.action

theorem lowmemProcess_none {now : UInt32} {m : MemState} {s : Handler}
    (h : row s.curMemState m = none) : lowmemProcess now m s = s := by
  simp only [row, Option.map_eq_none_iff] at h
  simp only [lowmemProcess, h]

/-- With a row, the old timer goes, the row's level is published, and there
is a new timer exactly when the level is CRITICAL. -/
theorem lowmemProcess_some {now : UInt32} {m : MemState} {s : Handler} {a : Act} (hs : Timers s)
    (h : row s.curMemState m = some a) (ha : a = .oom ↔ m = .CRITICAL) :
    Timers (lowmemProcess now m s) ∧ (lowmemProcess now m s).published = some a.level ∧
      ((lowmemProcess now m s).live ≠ [] ↔ m = .CRITICAL) := by
  obtain ⟨e, he, rfl⟩ := Option.map_eq_some_iff.mp h
  obtain ⟨hlive, htimer⟩ := timers_delOomTimer hs
  obtain ⟨hl, ht, -⟩ := run_frame now e.action (delOomTimer s)
  have hp := run_published now e.action (delOomTimer s)
  rw [hlive] at hl
  rw [htimer] at ht
  simp only [lowmemProcess, he]
  by_cases hm : m = .CRITICAL
  · rw [if_pos hm]
    have hoom := ha.mpr hm
    rw [hoom] at hl hp ⊢
    exact ⟨by simp [Timers, ecoreTimerAdd, hl], hp, by simp [ecoreTimerAdd, hm]⟩
  · rw [if_neg hm]
    exact ⟨by rw [Timers, hl, ht]; rfl, hp, by simp [hl, hm]⟩

/-- The timer's callback returns 1, so a tick publishes and keeps the timer. -/
theorem tick_eq {now : UInt32} {t : Nat} {s s' : Handler} (hs : Timers s)
    (h : tick now t s = some s') : s.live ≠ [] ∧ s' = (memoryOomAct now s).2 := by
  unfold Timers at hs
  simp only [tick] at h
  cases ht : s.oomTimer with
  | none => rw [hs, ht] at h; cases h
  | some t₀ =>
    rw [ht, Option.map_some, Option.toList_some] at hs
    rw [hs] at h ⊢
    simp only [List.find?_cons] at h
    split at h
    · cases h
    · rename_i a hfind
      split at hfind
      · cases hfind
        simp only [Act.run, memoryOomAct] at h ⊢
        rw [if_neg (by decide)] at h
        exact ⟨List.cons_ne_nil _ _, (Option.some.inj h).symm⟩
      · cases hfind

theorem timers_tick {now : UInt32} {t : Nat} {s s' : Handler} (hs : Timers s)
    (h : tick now t s = some s') : Timers s' := by
  obtain ⟨-, rfl⟩ := tick_eq hs h
  obtain ⟨hl, ht, -⟩ := run_frame now .oom s
  simp only [Act.run] at hl ht
  rw [Timers, hl, ht]; exact hs

theorem step_reading {s s' : St} {now v : UInt32} (h : step s (.reading now v) = some s') :
    ∃ m, convert v = some m ∧ s' =
      ⟨{ lowmemProcess now m s.handler with curMemState := m }, s.warned || m.warns⟩ := by
  simp only [step, lowmemCb] at h
  cases hv : convert v with
  | none => rw [hv] at h; cases h
  | some m =>
    rw [hv] at h
    exact ⟨m, rfl, (Option.some.inj h).symm⟩

theorem row_oom_iff {cur m : MemState} {a : Act} (h : row cur m = some a) :
    a = .oom ↔ m = .CRITICAL := by
  cases cur <;> cases m <;> cases h <;> decide

/-- **One OOM timer.** Every step keeps `oom_timer` denoting the one live
timer. -/
theorem timers_step {s s' : St} {l : Lbl} (h : Timers s.handler) (hst : step s l = some s') :
    Timers s'.handler := by
  cases l with
  | reading now v =>
    obtain ⟨m, -, rfl⟩ := step_reading hst
    cases hrow : row s.handler.curMemState m with
    | none => rw [lowmemProcess_none hrow]; exact h
    | some a => exact (lowmemProcess_some h hrow (row_oom_iff hrow)).1
  | tick now t =>
    obtain ⟨h', hh', rfl⟩ := Option.map_eq_some_iff.mp hst
    exact timers_tick h hh'

/-! ## Timer and level follow the readings -/

/-- The level a reading calls for. -/
def MemState.level : MemState → Option Level
  | .NORMAL => some .NORMAL
  | .LOW => some .SOFT_WARNING
  | .CRITICAL => some .HARD_WARNING
  | .REBOOT => none

/-- The timer is armed exactly at CRITICAL, and after a warning the published
level is that of `m`, unless `m` is REBOOT. -/
def Follows (m : MemState) (s : St) : Prop :=
  (s.handler.live ≠ [] ↔ m = .CRITICAL) ∧
    (s.warned = true → m ≠ .REBOOT → s.handler.published = m.level)

/-- After a reading, timer and published level follow it. -/
def LevelOk (_ : St) (l : Lbl) (s' : St) : Prop :=
  ∀ now v m, l = .reading now v → convert v = some m → Follows m s'

/-- The table has what the change to `m` needs, or nothing is needed. -/
def CoveredChange (s : St) (m : MemState) : Prop :=
  match s.handler.curMemState, m with
  | .CRITICAL, .LOW => False
  | .CRITICAL, .REBOOT => False
  | .REBOOT, .CRITICAL => False
  | .REBOOT, .LOW => s.handler.published = some .SOFT_WARNING
  | .REBOOT, .NORMAL => s.warned = true → s.handler.published = some .NORMAL
  | _, _ => True

def Covered (s : St) (l : Lbl) : Prop :=
  ∀ now v m, l = .reading now v → convert v = some m → CoveredChange s m

structure Good (s : St) : Prop where
  timers : Timers s.handler
  follows : Follows s.handler.curMemState s
  warned : s.handler.curMemState.warns = true → s.warned = true

theorem row_level {cur m : MemState} {a : Act} (h : row cur m = some a) :
    m.level = some a.level := by
  cases cur <;> cases m <;> cases h <;> rfl

/-- The changes without a row. -/
theorem row_none {cur m : MemState} (h : row cur m = none) :
    (cur = m ∧ m ≠ .CRITICAL) ∨ (cur ≠ .REBOOT ∧ m = .REBOOT) ∨ (cur = .REBOOT ∧ m ≠ .REBOOT) ∨
      (cur = .CRITICAL ∧ m = .LOW) := by
  cases cur <;> cases m <;> first | exact absurd h (by decide) | decide

theorem follows_none {s : St} (h : Good s) {m : MemState}
    (hrow : row s.handler.curMemState m = none) :
    Follows m ⟨{ s.handler with curMemState := m }, s.warned || m.warns⟩ ↔ CoveredChange s m := by
  obtain ⟨harm, hlev⟩ := h.follows
  have hw := h.warned
  unfold Follows CoveredChange
  rcases row_none hrow with ⟨hcur, hm⟩ | ⟨hcur, rfl⟩ | ⟨hcur, hm⟩ | ⟨hcur, rfl⟩
  · -- the same level again
    rw [hcur] at harm hlev hw ⊢
    have hsame : (s.warned || m.warns) = s.warned := by
      cases hc : m.warns with
      | false => simp
      | true => simp [hw hc]
    rw [hsame]
    refine iff_of_true ⟨harm, hlev⟩ ?_
    cases m <;> trivial
  · -- REBOOT: the timer must not have been armed
    simp only [harm, reduceCtorEq, iff_false, ne_eq, not_true_eq_false, false_imp_iff, implies_true,
      and_true]
    cases hc : s.handler.curMemState <;> simp
  · -- out of REBOOT nothing is done
    rw [hcur] at harm ⊢
    rw [harm]
    cases m with
    | REBOOT => exact absurd rfl hm
    | NORMAL | LOW | CRITICAL => simp [MemState.level, MemState.warns]
  · -- the timer stays armed
    rw [hcur] at harm ⊢
    rw [harm]
    simp

theorem coveredChange_of_row {s : St} {m : MemState} {a : Act}
    (h : row s.handler.curMemState m = some a) : CoveredChange s m := by
  unfold CoveredChange
  cases hcur : s.handler.curMemState <;> rw [hcur] at h <;> cases m <;> trivial

/-- A property of the one level a reading stands for. -/
theorem forall_reading (P : MemState → Prop) (now : UInt32) {v : UInt32} {m : MemState}
    (hv : convert v = some m) :
    (∀ now' v' m', Lbl.reading now v = .reading now' v' → convert v' = some m' → P m') ↔ P m := by
  refine ⟨fun hp => hp now v m rfl hv, fun hp now' v' m' heq hv' => ?_⟩
  cases heq
  rw [hv] at hv'; cases hv'
  exact hp

theorem levelOk_iff {s s' : St} {l : Lbl} (h : Good s) (hst : step s l = some s') :
    LevelOk s l s' ↔ Covered s l := by
  cases l with
  | tick now t =>
    exact iff_of_true (fun _ _ _ hl => nomatch hl) (fun _ _ _ hl => nomatch hl)
  | reading now v =>
    obtain ⟨m, hv, rfl⟩ := step_reading hst
    unfold LevelOk Covered
    rw [forall_reading (fun m' => Follows m' _) now hv, forall_reading (CoveredChange s) now hv]
    cases hrow : row s.handler.curMemState m with
    | none => rw [lowmemProcess_none hrow]; exact follows_none h hrow
    | some a =>
      obtain ⟨-, hp, hl⟩ := lowmemProcess_some h.timers hrow (row_oom_iff hrow)
      refine iff_of_true ⟨hl, fun _ _ => hp.trans (row_level hrow).symm⟩ ?_
      exact coveredChange_of_row hrow

theorem good_step : lts.Guarded Covered Good := by
  intro s l s' h hc hst
  have hst : step s l = some s' := hst
  have ht := timers_step h.timers hst
  cases l with
  | reading now v =>
    have hok := (levelOk_iff h hst).mpr hc
    obtain ⟨m, hv, rfl⟩ := step_reading hst
    refine ⟨ht, hok now v m rfl hv, fun hm => ?_⟩
    simp only at hm
    simp [hm]
  | tick now t =>
    obtain ⟨h', hh', rfl⟩ := Option.map_eq_some_iff.mp hst
    obtain ⟨hne, rfl⟩ := tick_eq h.timers hh'
    obtain ⟨hl, -, hcur⟩ := run_frame now .oom s.handler
    have hp := run_published now .oom s.handler
    simp only [Act.run] at hl hcur hp
    -- the timer is live, so the level is CRITICAL, which is what the tick publishes
    have hcrit := h.follows.1.mp hne
    refine ⟨ht, ?_, ?_⟩
    · simp only [Follows, hl, hcur, hp]
      refine ⟨h.follows.1, fun _ _ => ?_⟩
      rw [hcrit]; rfl
    · simp only [hcur]; exact h.warned

theorem good_init {s : St} (h : Init s) : Good s := by
  obtain ⟨hn, ht, hl, hw⟩ := h
  refine ⟨by rw [Timers, hl, ht]; rfl, ⟨?_, ?_⟩, ?_⟩
  · rw [hl, hn]; simp
  · rw [hw]; exact fun hf => nomatch hf
  · rw [hn]; exact fun hf => nomatch hf

/-- **Timer and level of a run.** After every reading of a run from NORMAL,
the OOM timer is armed exactly when the reading is CRITICAL, and the
published level is that of the reading once there was a warning and the
reading is not REBOOT, if and only if the run takes none of the changes the
table does not cover. -/
theorem level_along_iff (s₀ : St) (h₀ : Init s₀) (ls : List Lbl) :
    lts.Along LevelOk s₀ ls ↔ lts.Meets Covered s₀ ls :=
  LTS.along_iff (fun _ _ _ => levelOk_iff) good_step (good_init h₀) ls

def started : St := ⟨⟨.NORMAL, none, [], 0, 0, none, []⟩, false⟩

theorem init_started : Init started := ⟨rfl, rfl, rfl, rfl⟩

/-- Memory runs out and recovers. -/
def recovery : List Lbl :=
  [.reading 100 0xfaac, .reading 110 0xdead, .tick 115 0, .reading 120 0x0000]

theorem level_recovery : lts.Along LevelOk started recovery ∧
    (lts.run started recovery).map (fun s => (s.handler.live.length, s.handler.published)) =
      some (0, some .NORMAL) := by
  refine ⟨(level_along_iff started init_started recovery).mpr ?_, by decide⟩
  have hread : ∀ s now v m, convert v = some m → CoveredChange s m → Covered s (.reading now v) :=
    fun s now v m hv hm => (forall_reading (CoveredChange s) now hv).mpr hm
  unfold recovery
  rw [LTS.meets_cons rfl, LTS.meets_cons rfl, LTS.meets_cons rfl, LTS.meets_cons rfl]
  refine ⟨?_, ?_, ?_, ?_, trivial⟩
  · exact hread _ _ _ .LOW (by decide) trivial
  · exact hread _ _ _ .CRITICAL (by decide) trivial
  · exact fun _ _ _ h => nomatch h
  · exact hread _ _ _ .NORMAL (by decide) trivial

/-- From CRITICAL to LOW. -/
def relief : List Lbl := [.reading 100 0xdead, .reading 110 0xfaac]

/-- The timer stays armed and the level published is still the hard warning. -/
theorem level_relief : (lts.run started relief).map (fun s => (s.handler.live.length,
      s.handler.published)) = some (1, some .HARD_WARNING) ∧ ¬ lts.Along LevelOk started relief := by
  refine ⟨by decide, fun h => ?_⟩
  have hf := ((h _ rfl).2 _ rfl).1 110 0xfaac .LOW rfl (by decide)
  exact absurd hf.1 (by decide)

end SystemServer.L4.LowMem
