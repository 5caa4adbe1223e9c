import SystemServer.L4Device.LowMem

/-!
# Deletions of the OOM timer (`ss_lowmem_handler.c`)

A row of the table deletes the OOM timer before its action and, at CRITICAL,
sets a new one behind it; a change without a row leaves the timer alone. Here
`ecore_timer_add` may fail as well, and every call of `ecore_timer_del` is
noted, with whether the timer it was given was live.

* `lowmemCb_handler`: where the timer can be set, the callback does to the
  handler what it does in `LowMem`.
* `oom_timer_single`: in every reachable state `oom_timer` denotes the one
  live timer, if there is one, and no deletion was of a timer that was gone.

Deleting a timer whose callback returned 0 is up to Ecore, and is not noted.
-/
namespace SystemServer.L4.OomTimer

open SystemServer.L4.LowMem (Handler Act MemState lpe convert Timers run_frame row_oom_iff)

structure Noted where
  handler : Handler
  /-- ghost: what `ecore_timer_del` was given, and whether it was live -/
  dels : List (Nat × Bool)

/-! ## The source -/

def ecoreTimerDel (t : Nat) (s : Noted) : Noted :=
  ⟨LowMem.ecoreTimerDel t s.handler, s.dels ++ [(t, s.handler.live.any (·.1 = t))]⟩

/-- `none` is NULL. -/
def ecoreTimerAdd (ok : Bool) (a : Act) (h : Handler) : Option Nat × Handler :=
  if ok then
    let r := LowMem.ecoreTimerAdd a h
    (some r.1, r.2)
  else (none, h)

/-- mirrors ss_lowmem_handler.c:185-188 -/
def delOomTimer (s : Noted) : Noted :=
  match s.handler.oomTimer with
  | some t =>
    let s := ecoreTimerDel t s
    { s with handler := { s.handler with oomTimer := none } }
  | none => s

/-- mirrors ss_lowmem_handler.c:178-196 -/
def lowmemProcess (now : UInt32) (ok : Bool) (memState : MemState) (s : Noted) : Noted :=
  match lpe.find? fun e => s.handler.curMemState = e.curMemState ∧ memState = e.newMemState with
  | none => s
  | some e =>
    let s := delOomTimer s
    let h := (e.action.run now s.handler).2
    if memState = .CRITICAL then
      let r := ecoreTimerAdd ok e.action h
      { s with handler := { r.2 with oomTimer := r.1 } }
    else { s with handler := h }

/-- mirrors ss_lowmem_handler.c:205-225 -/
def lowmemCb (now v : UInt32) (ok : Bool) (s : Noted) : Option Noted :=
  (convert v).map fun memState =>
    let s := lowmemProcess now ok memState s
    { s with handler := { s.handler with curMemState := memState } }

/-! ## Runs -/

/-- A reading, with whether a timer can be set, or a tick of a live timer. -/
inductive Lbl where
  | reading (now v : UInt32) (ok : Bool)
  | tick (now : UInt32) (t : Nat)

def step (s : Noted) : Lbl → Option Noted
  | .reading now v ok => lowmemCb now v ok s
  | .tick now t => (LowMem.tick now t s.handler).map fun h => { s with handler := h }

structure Init (s : Noted) : Prop where
  normal : s.handler.curMemState = .NORMAL
  timer : s.handler.oomTimer = none
  live : s.handler.live = []
  dels : s.dels = []

def lts : LTS Noted Lbl := ⟨Init, step⟩

/-! ## The same callback -/

theorem delOomTimer_handler (s : Noted) :
    (delOomTimer s).handler = LowMem.delOomTimer s.handler := by
  unfold delOomTimer LowMem.delOomTimer
  cases s.handler.oomTimer <;> rfl

theorem lowmemProcess_handler (now : UInt32) (m : MemState) (s : Noted) :
    (lowmemProcess now true m s).handler = LowMem.lowmemProcess now m s.handler := by
  unfold lowmemProcess LowMem.lowmemProcess
  cases lpe.find? fun e => s.handler.curMemState = e.curMemState ∧ m = e.newMemState with
  | none => rfl
  | some e =>
    simp only [delOomTimer_handler]
    split <;> rfl

/-- Where the timer can be set. -/
theorem lowmemCb_handler (now v : UInt32) (s : Noted) :
    (lowmemCb now v true s).map Noted.handler = LowMem.lowmemCb now v s.handler := by
  simp only [lowmemCb, LowMem.lowmemCb, Option.map_map]
  congr 1
  funext m
  simp only [Function.comp, lowmemProcess_handler]

/-! ## One timer, and no deletion but of it -/

/-- No deletion was of a timer that was gone. -/
def NoStale (s : Noted) : Prop := ∀ d ∈ s.dels, d.2 = true

structure Good (s : Noted) : Prop where
  timers : Timers s.handler
  dels : NoStale s

/-- What `oom_timer` denotes is live when it is deleted. -/
theorem noStale_delOomTimer {s : Noted} (h : Good s) : NoStale (delOomTimer s) := by
  have hlive := h.timers
  unfold LowMem.Timers at hlive
  unfold delOomTimer
  cases ht : s.handler.oomTimer with
  | none => exact h.dels
  | some t =>
    rw [ht, Option.map_some, Option.toList_some] at hlive
    intro d hd
    simp only [ecoreTimerDel, hlive, List.mem_append, List.mem_singleton] at hd
    rcases hd with hd | rfl
    · exact h.dels d hd
    · simp

/-- A timer that is set after an action is the only one. -/
theorem timers_add {h : Handler} (hlive : h.live = []) (ok : Bool) :
    Timers { (ecoreTimerAdd ok .oom h).2 with oomTimer := (ecoreTimerAdd ok .oom h).1 } := by
  cases ok <;> simp [LowMem.Timers, ecoreTimerAdd, LowMem.ecoreTimerAdd, hlive]

theorem good_lowmemProcess (now : UInt32) (ok : Bool) (m : MemState) {s : Noted} (h : Good s) :
    Good (lowmemProcess now ok m s) := by
  unfold lowmemProcess
  split
  · exact h
  · rename_i e he
    obtain ⟨hlive, htimer⟩ := LowMem.timers_delOomTimer h.timers
    rw [← delOomTimer_handler] at hlive htimer
    obtain ⟨hl, ht, -⟩ := run_frame now e.action (delOomTimer s).handler
    rw [hlive] at hl
    rw [htimer] at ht
    have hdels := noStale_delOomTimer h
    have hrow : LowMem.row s.handler.curMemState m = some e.action :=
      Option.map_eq_some_iff.mpr ⟨e, he, rfl⟩
    by_cases hm : m = .CRITICAL
    · have hoom : e.action = .oom := (row_oom_iff hrow).mpr hm
      simp only [if_pos hm]
      rw [hoom] at hl ⊢
      exact ⟨timers_add hl ok, hdels⟩
    · simp only [if_neg hm]
      exact ⟨by rw [LowMem.Timers, hl, ht]; rfl, hdels⟩

theorem good_step {s s' : Noted} {l : Lbl} (h : Good s) (hst : step s l = some s') : Good s' := by
  cases l with
  | reading now v ok =>
    obtain ⟨m, -, rfl⟩ := Option.map_eq_some_iff.mp hst
    obtain ⟨htimers, hdels⟩ := good_lowmemProcess now ok m h
    exact ⟨htimers, hdels⟩
  | tick now t =>
    obtain ⟨h', hh', rfl⟩ := Option.map_eq_some_iff.mp hst
    exact ⟨LowMem.timers_tick h.timers hh', h.dels⟩

theorem good_init {s : Noted} (h : Init s) : Good s := by
  refine ⟨?_, fun d hd => ?_⟩
  · rw [LowMem.Timers, h.live, h.timer]; rfl
  · rw [h.dels] at hd
    exact absurd hd List.not_mem_nil

theorem good_reachable {s : Noted} (h : lts.Reachable s) : Good s := by
  have hind : lts.Inductive Good :=
    ⟨fun _ hs => good_init hs, fun _ _ _ hs hst => good_step hs hst⟩
  exact hind.reachable h

/-- At most one timer is live; `oom_timer` is NULL exactly when there is none,
and denotes it otherwise. -/
structure Single (h : Handler) : Prop where
  atMostOne : h.live.length ≤ 1
  null : h.oomTimer = none ↔ h.live = []
  denotes : ∀ t, h.oomTimer = some t → h.live.map Prod.fst = [t]

theorem single_of_timers {h : Handler} (hs : Timers h) : Single h := by
  unfold LowMem.Timers at hs
  cases ht : h.oomTimer with
  | none =>
    rw [ht, Option.map_none, Option.toList_none] at hs
    refine ⟨by simp [hs], by simp [hs, ht], fun t htt => ?_⟩
    cases ht.symm.trans htt
  | some t₀ =>
    rw [ht, Option.map_some, Option.toList_some] at hs
    refine ⟨by simp [hs], by simp [hs, ht], fun t htt => ?_⟩
    cases ht.symm.trans htt
    simp [hs]

/-- **A single OOM timer.** After any readings and ticks, `oom_timer` denotes
the one live timer, or is NULL and there is none, and `ecore_timer_del` was
given live timers only. -/
theorem oom_timer_single {s : Noted} (h : lts.Reachable s) : Single s.handler ∧ NoStale s :=
  ⟨single_of_timers (good_reachable h).timers, (good_reachable h).dels⟩

def started : Noted := ⟨⟨.NORMAL, none, [], 0, 0, none, []⟩, []⟩

/-- To CRITICAL and back, with a second reading of it, and once by way of LOW. -/
def history : List Lbl :=
  [.reading 100 0xdead true, .tick 105 0, .reading 110 0xdead true, .tick 115 1,
    .reading 120 0xfaac true, .tick 125 1, .reading 130 0x0000 true, .reading 140 0xdead false,
    .reading 150 0xb00f true]

def ended : Noted := (lts.run started history).getD started

theorem oom_timer_history : ended.dels = [(0, true), (1, true)] ∧ Single ended.handler ∧
    NoStale ended :=
  ⟨by decide, oom_timer_single ⟨started, history, ⟨rfl, rfl, rfl, rfl⟩, rfl⟩⟩

end SystemServer.L4.OomTimer
