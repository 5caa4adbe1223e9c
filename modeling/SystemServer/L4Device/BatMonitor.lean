import SystemServer.Core.LTS
import SystemServer.L4Device.LowBat

/-!
# Battery monitoring (`ss_lowbat_handler.c`, `ss_device_change_handler.c`)

`ss_lowbat_monitor` reads the battery and hands the reading to
`lowbat_process`. It is the callback of the timer `lowbat_timer`, and it is
called when the display goes off, when a USB cable or a charger is plugged or
unplugged and when the charging state changes. Whoever calls it, it sets the
timer's interval, and a read that fails is counted in `bat_err_count`; after
MAX_BATTERY_ERROR of them it returns 0, and Ecore deletes a timer whose
callback returns 0.

The count is never set back, so what is counted is not a lasting failure but
all failures since the start (`timer_kept_iff`); and the handle is not set
back either, so the next caller sets the interval of a deleted timer
(`no_stale_interval_iff`).

Ghost state: `timer` says whether Ecore still has the timer, `intervals` what
was set and whether there was a timer to set it for. What the callbacks do
after their call of the monitor has no part in this, the PREDEF_LOWBAT request
of `charge_cb` apart.
-/
namespace SystemServer.L4.BatMonitor

open SystemServer.L4.LowBat

/-! ## The source -/

/-- mirrors ss_lowbat_handler.c:32-33,44 -/
def BAT_MON_INTERVAL : Int := 30
def BAT_MON_INTERVAL_MIN : Int := 2
def MAX_BATTERY_ERROR : Nat := 10

/-- mirrors include/ss_data.h:63 -/
def CHARGE_ERROR_ACT : String := "charge_error_act"

structure Monitor where
  handler : Handler
  batErrCount : Nat
  timer : Bool
  intervals : List (Int × Bool)

/-- The values of `VCONFKEY_PM_STATE`. -/
inductive PmState where
  | NORMAL | LCDDIM | LCDOFF | SLEEP
  deriving DecidableEq, Repr

/-- `ecore_timer_interval_set` on `lowbat_timer`. -/
def intervalSet (v : Int) (m : Monitor) : Monitor :=
  { m with intervals := m.intervals ++ [(v, m.timer)] }

/-- `c.capacity` is what `lowbat_read` returns.
mirrors ss_lowbat_handler.c:236-270 -/
def ssLowbatMonitor (c : Call) (m : Monitor) : Int × Monitor :=
  if c.capacity < 0 then
    let m := intervalSet BAT_MON_INTERVAL_MIN m
    let m := { m with batErrCount := m.batErrCount + 1 }
    if m.batErrCount > MAX_BATTERY_ERROR then (0, m) else (1, m)
  else
    let batPercent := if c.capacity > 100 then 100 else c.capacity
    let r := lowbatProcess c.env batPercent m.handler
    let m := { m with handler := r.2 }
    (1, intervalSet (if r.1 < 0 then BAT_MON_INTERVAL_MIN else BAT_MON_INTERVAL) m)

/-- mirrors ss_lowbat_handler.c:272-281 -/
def wakeupCb (pmState : PmState) (c : Call) (m : Monitor) : Monitor :=
  if pmState = .LCDOFF then (ssLowbatMonitor c m).2 else m

/-- The charger first, then the level. -/
def chgdetCb (charger : Env) (c : Call) (m : Monitor) : Monitor :=
  (ssLowbatMonitor c { m with handler := (ssLowbatIsChargeInNow charger m.handler).2 }).2

/-- mirrors ss_device_change_handler.c:64-73 -/
def usbChgdetCb : Env → Call → Monitor → Monitor := chgdetCb

/-- mirrors ss_device_change_handler.c:85-92 -/
def taChgdetCb : Env → Call → Monitor → Monitor := chgdetCb

/-- `badHealth`: the battery is read to be overheated or cold.
mirrors ss_device_change_handler.c:373-384 -/
def chargeCb (badHealth : Bool) (c : Call) (m : Monitor) : Monitor :=
  let m := (ssLowbatMonitor c m).2
  if badHealth then
    { m with handler := { m.handler with requests := m.handler.requests ++ [CHARGE_ERROR_ACT] } }
  else m

/-! ## Runs -/

inductive Lbl where
  | tick (c : Call)
  | wakeup (pmState : PmState) (c : Call)
  | usb (charger : Env) (c : Call)
  | ta (charger : Env) (c : Call)
  | charge (badHealth : Bool) (c : Call)

/-- Ecore calls a timer it still has, and deletes it when it returns 0. -/
def tick (c : Call) (m : Monitor) : Option Monitor :=
  if m.timer then
    let r := ssLowbatMonitor c m
    some (if r.1 = 0 then { r.2 with timer := false } else r.2)
  else none

def step (m : Monitor) : Lbl → Option Monitor
  | .tick c => tick c m
  | .wakeup pmState c => some (wakeupCb pmState c m)
  | .usb charger c => some (usbChgdetCb charger c m)
  | .ta charger c => some (taChgdetCb charger c m)
  | .charge badHealth c => some (chargeCb badHealth c m)

/-- The state after `ss_lowbat_init`.
mirrors ss_lowbat_handler.c:71,297-309 -/
structure Init (m : Monitor) : Prop where
  batErrCount : m.batErrCount = 0
  timer : m.timer = true
  intervals : m.intervals = []

def lts : LTS Monitor Lbl := ⟨Init, step⟩

/-- The call of `ss_lowbat_monitor` an event makes. -/
def Lbl.call : Lbl → Option Call
  | .tick c => some c
  | .wakeup pmState c => if pmState = .LCDOFF then some c else none
  | .usb _ c => some c
  | .ta _ c => some c
  | .charge _ c => some c

/-- The event reads the battery, and the read fails. -/
def Lbl.fails (l : Lbl) : Bool := l.call.any (·.capacity < 0)

/-- How many reads failed. -/
def failed (ls : List Lbl) : Nat := ls.countP Lbl.fails

/-! ## One event -/

theorem monitor_spec (c : Call) (m : Monitor) :
    (ssLowbatMonitor c m).2.batErrCount = m.batErrCount + (if c.capacity < 0 then 1 else 0) ∧
      (ssLowbatMonitor c m).2.timer = m.timer ∧
      (∃ v, (ssLowbatMonitor c m).2.intervals = m.intervals ++ [(v, m.timer)]) ∧
      ((ssLowbatMonitor c m).1 = 0 ↔ c.capacity < 0 ∧ MAX_BATTERY_ERROR ≤ m.batErrCount) := by
  unfold ssLowbatMonitor
  by_cases hneg : c.capacity < 0
  · simp only [if_pos hneg]
    by_cases hmax : m.batErrCount + 1 > MAX_BATTERY_ERROR
    · rw [if_pos (show (intervalSet BAT_MON_INTERVAL_MIN m).batErrCount + 1 > _ from hmax)]
      exact ⟨rfl, rfl, ⟨_, rfl⟩, iff_of_true rfl ⟨hneg, Nat.le_of_lt_succ hmax⟩⟩
    · rw [if_neg (show ¬ (intervalSet BAT_MON_INTERVAL_MIN m).batErrCount + 1 > _ from hmax)]
      exact ⟨rfl, rfl, ⟨_, rfl⟩, iff_of_false Int.one_ne_zero fun h => hmax (Nat.lt_succ_of_le h.2)⟩
  · simp only [if_neg hneg]
    exact ⟨rfl, rfl, ⟨_, rfl⟩, iff_of_false Int.one_ne_zero fun h => hneg h.1⟩

/-- A step that calls the monitor, or does not. -/
structure Served (m : Monitor) (l : Lbl) (m' : Monitor) : Prop where
  count : m'.batErrCount = m.batErrCount + (if l.fails then 1 else 0)
  intervals : if l.call.isSome then ∃ v, m'.intervals = m.intervals ++ [(v, m.timer)]
    else m'.intervals = m.intervals
  /-- only the timer's own call can cancel it -/
  timer : m'.timer = true ↔ m.timer = true ∧
    ∀ c, l = .tick c → ¬ (c.capacity < 0 ∧ MAX_BATTERY_ERROR ≤ m.batErrCount)

theorem fails_of_call {l : Lbl} {c : Call} (h : l.call = some c) :
    (if l.fails then 1 else 0) = if c.capacity < 0 then 1 else 0 := by
  simp [Lbl.fails, h]

/-- A call by an event that is not the timer's. -/
theorem served_call {m : Monitor} (l : Lbl) {c : Call} (hl : l.call = some c)
    (hn : ∀ c, l ≠ .tick c) (h : Handler) :
    Served m l (ssLowbatMonitor c { m with handler := h }).2 := by
  obtain ⟨hcount, htimer, ⟨v, hv⟩, -⟩ := monitor_spec c { m with handler := h }
  refine ⟨?_, ?_, ?_⟩
  · rw [hcount, fails_of_call hl]
  · rw [hl, Option.isSome_some, if_pos rfl]
    exact ⟨v, hv⟩
  · rw [htimer]
    exact ⟨fun h => ⟨h, fun c he => absurd he (hn c)⟩, fun h => h.1⟩

theorem served_step {m m' : Monitor} {l : Lbl} (h : step m l = some m') : Served m l m' := by
  cases l with
  | tick c =>
    simp only [step, tick] at h
    split at h
    · rename_i halive
      obtain ⟨hcount, htimer, ⟨v, hv⟩, hret⟩ := monitor_spec c m
      have htick : ∀ c', Lbl.tick c = .tick c' → c' = c := fun c' he => (Lbl.tick.inj he).symm
      split at h
      · rename_i hzero
        obtain rfl := Option.some.inj h
        refine ⟨hcount.trans (by rw [fails_of_call rfl]), ⟨v, hv⟩, iff_of_false nofun fun hk => ?_⟩
        exact hk.2 c rfl (hret.mp hzero)
      · rename_i hzero
        obtain rfl := Option.some.inj h
        refine ⟨hcount.trans (by rw [fails_of_call rfl]), ⟨v, hv⟩, iff_of_true (htimer.trans halive) ?_⟩
        refine ⟨halive, fun c' he hk => ?_⟩
        rw [htick c' he] at hk
        exact hzero (hret.mpr hk)
    · cases h
  | wakeup pmState c =>
    obtain rfl := Option.some.inj h
    by_cases hpm : pmState = .LCDOFF
    · rw [wakeupCb, if_pos hpm]
      exact served_call (.wakeup pmState c) (if_pos hpm) (fun _ he => by cases he) m.handler
    · have hcall : (Lbl.wakeup pmState c).call = none := if_neg hpm
      rw [wakeupCb, if_neg hpm]
      refine ⟨by simp [Lbl.fails, hcall], by rw [hcall]; rfl, ?_⟩
      exact ⟨fun hk => ⟨hk, fun _ he => by cases he⟩, fun hk => hk.1⟩
  | usb charger c =>
    obtain rfl := Option.some.inj h
    unfold usbChgdetCb chgdetCb
    exact served_call (.usb charger c) rfl (fun _ he => by cases he) _
  | ta charger c =>
    obtain rfl := Option.some.inj h
    unfold taChgdetCb chgdetCb
    exact served_call (.ta charger c) rfl (fun _ he => by cases he) _
  | charge badHealth c =>
    obtain rfl := Option.some.inj h
    have hserved : Served m (.charge badHealth c) (ssLowbatMonitor c m).2 :=
      served_call (.charge badHealth c) rfl (fun _ he => by cases he) m.handler
    unfold chargeCb
    cases badHealth with
    | false => exact hserved
    | true => exact ⟨hserved.count, hserved.intervals, hserved.timer⟩

/-! ## Runs from the start -/

/-- The count is that of all reads that failed so far. -/
theorem run_count {m m' : Monitor} {ls : List Lbl} (h : lts.run m ls = some m') :
    m'.batErrCount = m.batErrCount + failed ls := by
  induction ls generalizing m with
  | nil =>
    obtain rfl := Option.some.inj h
    rfl
  | cons l ls ih =>
    obtain ⟨m₁, hst, h⟩ := LTS.run_cons.mp h
    have hcons : failed (l :: ls) = failed ls + if l.fails then 1 else 0 := List.countP_cons
    rw [ih h, (served_step hst).count, hcons]
    omega

/-- The timer's own call, if it is one, does not return 0. -/
def Survives (m : Monitor) (l : Lbl) (_ : Monitor) : Prop :=
  ∀ c, l = .tick c → (ssLowbatMonitor c m).1 ≠ 0

theorem timer_of_survives {m m' : Monitor} {l : Lbl} (hst : step m l = some m') :
    m'.timer = true ↔ m.timer = true ∧ Survives m l m' := by
  refine (served_step hst).timer.trans (and_congr_right fun _ => forall₂_congr fun c _ => ?_)
  rw [← (monitor_spec c m).2.2.2]

/-- Ecore still has the timer as long as no call of it returned 0. -/
theorem run_timer {m m' : Monitor} {ls : List Lbl} (h : lts.run m ls = some m') :
    m'.timer = true ↔ m.timer = true ∧ lts.Along Survives m ls := by
  have hstep : ∀ m l m', lts.step m l = some m' →
      (m'.timer = true ↔ m.timer = true ∧ Survives m l m') :=
    fun _ _ _ hst => timer_of_survives hst
  exact LTS.run_iff_along hstep h

/-- A tick whose read fails after `ls₁`. -/
def GivesUp (ls₁ : List Lbl) (l : Lbl) : Prop :=
  ∃ c, l = .tick c ∧ c.capacity < 0 ∧ MAX_BATTERY_ERROR ≤ failed ls₁

theorem survives_iff {m₀ m : Monitor} (h₀ : Init m₀) {ls : List Lbl} (hr : lts.run m₀ ls = some m) :
    lts.Along Survives m₀ ls ↔ ∀ ls₁ l ls₂, ls = ls₁ ++ l :: ls₂ → ¬ GivesUp ls₁ l := by
  rw [LTS.along_iff_split]
  refine forall₄_congr fun ls₁ l ls₂ hls => ?_
  subst hls
  obtain ⟨m₁, m₂, h₁, hst, -⟩ := LTS.run_split.mp hr
  have hcount : m₁.batErrCount = failed ls₁ := by
    rw [run_count h₁, h₀.batErrCount, Nat.zero_add]
  constructor
  · rintro h ⟨c, hl, hneg, hmax⟩
    refine h m₁ m₂ h₁ hst c hl ((monitor_spec c m₁).2.2.2.mpr ⟨hneg, ?_⟩)
    rw [hcount]
    exact hmax
  · rintro h m₁' m₂' h₁' - c hl hzero
    obtain rfl := Option.some.inj (h₁.symm.trans h₁')
    obtain ⟨hneg, hmax⟩ := (monitor_spec c m₁).2.2.2.mp hzero
    exact h ⟨c, hl, hneg, by rw [← hcount]; exact hmax⟩

/-- A call sets an interval, for a timer if there is one. -/
theorem intervals_step {m m' : Monitor} {l : Lbl} (hst : step m l = some m') :
    (∀ x ∈ m'.intervals, x.2 = true) ↔
      (∀ x ∈ m.intervals, x.2 = true) ∧ (l.call.isSome → m.timer = true) := by
  have hset := (served_step hst).intervals
  split at hset
  · rename_i hcall
    obtain ⟨v, hv⟩ := hset
    rw [hv]
    simp [hcall, or_imp, forall_and]
  · rename_i hcall
    rw [hset]
    simp [hcall]

/-- Every interval set in the run was set for a timer. -/
theorem run_intervals {m m' : Monitor} {ls : List Lbl} (h : lts.run m ls = some m') :
    (∀ x ∈ m'.intervals, x.2 = true) ↔ (∀ x ∈ m.intervals, x.2 = true) ∧
      lts.Meets (fun m l => l.call.isSome → m.timer = true) m ls := by
  have hstep : ∀ m l m', lts.step m l = some m' → ((∀ x ∈ m'.intervals, x.2 = true) ↔
      (∀ x ∈ m.intervals, x.2 = true) ∧ (l.call.isSome → m.timer = true)) :=
    fun _ _ _ hst => intervals_step hst
  exact LTS.run_iff_along hstep h

/-- **When monitoring gives up.** In every run no call by the timer returns
0 if and only if every tick whose read fails has fewer than MAX_BATTERY_ERROR
failed reads before it, whoever made them and however long ago. -/
theorem timer_kept_iff (m₀ m : Monitor) (h₀ : Init m₀) (ls : List Lbl)
    (hr : lts.run m₀ ls = some m) : lts.Along Survives m₀ ls ↔
      ∀ ls₁ l ls₂, ls = ls₁ ++ l :: ls₂ → ¬ GivesUp ls₁ l :=
  survives_iff h₀ hr

/-- **The cancelled timer.** In every run no interval is set for a deleted
timer if and only if no event that reads the battery comes after a tick whose
read failed with MAX_BATTERY_ERROR failed reads before it. -/
theorem no_stale_interval_iff (m₀ m : Monitor) (h₀ : Init m₀) (ls : List Lbl)
    (hr : lts.run m₀ ls = some m) : (∀ x ∈ m.intervals, x.2 = true) ↔
      ∀ ls₁ l ls₂ l' ls₃, ls = ls₁ ++ l :: ls₂ ++ l' :: ls₃ → GivesUp ls₁ l → l'.call = none := by
  have hnil : ∀ x ∈ m₀.intervals, x.2 = true := by
    rw [h₀.intervals]
    exact fun _ hx => absurd hx List.not_mem_nil
  rw [run_intervals hr, and_iff_right hnil, LTS.Meets, LTS.along_iff_split]
  -- the timer is there after a prefix that did not give up
  have htimer : ∀ {ls m}, lts.run m₀ ls = some m →
      (m.timer = true ↔ ∀ ls₁ l ls₂, ls = ls₁ ++ l :: ls₂ → ¬ GivesUp ls₁ l) := fun h => by
    rw [run_timer h, and_iff_right h₀.timer, survives_iff h₀ h]
  constructor
  · intro h ls₁ l ls₂ l' ls₃ hls hup
    subst hls
    obtain ⟨m₁, m₂, h₁, hst, -⟩ := LTS.run_split.mp hr
    by_contra hcall
    have halive := h _ l' ls₃ rfl m₁ m₂ h₁ hst (Option.isSome_iff_ne_none.mpr hcall)
    exact (htimer h₁).mp halive ls₁ l ls₂ rfl hup
  · intro h pre l' ls₃ hls m₁ m₂ h₁ hst hcall
    refine (htimer h₁).mpr fun ls₁ l ls₂ hpre hup => ?_
    rw [h ls₁ l ls₂ l' ls₃ (by rw [hls, hpre]) hup] at hcall
    cases hcall

/-! ## Sporadic failures -/

/-- At no point more than `n` reads in a row fail. -/
def NeverMoreInARow (n : Nat) (ls : List Lbl) : Prop :=
  ¬ List.replicate (n + 1) true <:+: ls.filterMap fun l => l.call.map fun c => decide (c.capacity < 0)

instance (n : Nat) (ls : List Lbl) : Decidable (NeverMoreInARow n ls) :=
  inferInstanceAs (Decidable (¬ _))

def started : Monitor := ⟨static, 0, true, []⟩

theorem init_started : Init started := ⟨rfl, rfl, rfl⟩

/-- A tick that reads the battery, or fails to. -/
def reading (capacity : Int) : Lbl := .tick ⟨env true, capacity⟩

/-- One read in two fails. -/
def sporadic : List Lbl := (List.replicate 10 [reading (-1), reading 50]).flatten

/-- A run with no more failures than that. -/
theorem not_givesUp_of_failed {ls : List Lbl} (h : failed ls ≤ MAX_BATTERY_ERROR) (ls₁ : List Lbl)
    (l : Lbl) (ls₂ : List Lbl) (hls : ls = ls₁ ++ l :: ls₂) : ¬ GivesUp ls₁ l := by
  rintro ⟨c, rfl, hneg, hmax⟩
  have hfails : (Lbl.tick c).fails = true := by simpa [Lbl.fails, Lbl.call] using hneg
  have hsum : failed ls = failed ls₁ + (failed ls₂ + 1) := by
    rw [hls, failed, List.countP_append, List.countP_cons_of_pos hfails]
    rfl
  omega

/-- The tenth failure is one too few to give up. -/
theorem timer_kept_sporadic : ∃ m, lts.run started sporadic = some m ∧ failed sporadic = 10 ∧
    lts.Along Survives started sporadic := by
  obtain ⟨m, hm⟩ := Option.isSome_iff_exists.mp
    (show (lts.run started sporadic).isSome = true by decide)
  have hfailed : failed sporadic = 10 := by decide
  exact ⟨m, hm, hfailed, (timer_kept_iff started m init_started sporadic hm).mpr
    (not_givesUp_of_failed (Nat.le_of_eq hfailed))⟩

/-- One more failure, between two reads that succeed. -/
def oneMore : List Lbl := sporadic ++ [reading (-1)]

/-- No two reads in a row failed, and the timer is gone. -/
theorem gives_up_sporadic : NeverMoreInARow 1 oneMore ∧ (lts.run started oneMore).isSome ∧
    ¬ lts.Along Survives started oneMore := by
  have hrun : (lts.run started oneMore).isSome = true := by decide
  obtain ⟨m, hm⟩ := Option.isSome_iff_exists.mp hrun
  refine ⟨by decide, hrun, fun h => ?_⟩
  exact (survives_iff init_started hm).mp h sporadic _ [] rfl ⟨_, rfl, by decide, by decide⟩

theorem no_stale_interval_sporadic : ∃ m, lts.run started sporadic = some m ∧
    m.intervals.length = 20 ∧ ∀ x ∈ m.intervals, x.2 = true := by
  obtain ⟨n, hn, hlen⟩ := Option.map_eq_some_iff.mp
    (show (lts.run started sporadic).map (fun m => m.intervals.length) = some 20 by decide)
  refine ⟨n, hn, hlen, (no_stale_interval_iff started n init_started sporadic hn).mpr ?_⟩
  intro ls₁ l ls₂ l' ls₃ hls hup
  rw [List.append_assoc] at hls
  exact absurd hup (not_givesUp_of_failed (by decide) ls₁ l _ hls)

/-- The timer is gone, and then the display goes off. -/
def displayOff : List Lbl := oneMore ++ [.wakeup .LCDOFF ⟨env true, 50⟩]

theorem stale_displayOff : ((lts.run started displayOff).map fun m => m.intervals.getLast?) =
      some (some (BAT_MON_INTERVAL, false)) ∧
    ¬ ∀ m, lts.run started displayOff = some m → ∀ x ∈ m.intervals, x.2 = true := by
  have hlast : ((lts.run started displayOff).map fun m => m.intervals.getLast?) =
      some (some (BAT_MON_INTERVAL, false)) := by decide
  obtain ⟨m, hm, hstale⟩ := Option.map_eq_some_iff.mp hlast
  exact ⟨hlast, fun h => Bool.noConfusion (h m hm _ (List.mem_of_getLast? hstale))⟩

end SystemServer.L4.BatMonitor
