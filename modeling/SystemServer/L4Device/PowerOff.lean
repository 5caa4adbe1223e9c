import SystemServer.Core.CString
import SystemServer.Core.LTS

/-!
# Powering off and restarting (`ss_predefine.c`)

A request to power off or to restart asks the modem to go down, and arms a
timer for the case that it never answers; when the modem is off, or when the
timer fires, the device goes down. `poweroff_timer_id` is the timer of either
request. The modem event deletes it, a request overwrites it: the timer of an
earlier request stays, and nothing denotes it any more.

`oneTimer_iff`: in a run up to the modem event or the first timer that fires
there is at most one power timer and `poweroff_timer_id` denotes it after
every request, and none is left when the modem event begins its transition,
exactly when no request finds a power timer that is live.

The runs are those in which telephony succeeds; `reboot` does not return, so
after the first transition nothing happens. What a request tells other
processes (`heynoti_publish`, `rc.shutdown`, the display) is left out.
-/
namespace SystemServer.L4.PowerOff

/-! ## The source -/

/-- mirrors ss_predefine.c:61 -/
def POWEROFF_DURATION : Int := 2

/-- The two requests. -/
inductive Request where
  | poweroff | restart
  deriving DecidableEq, Repr

/-- The commands of `reboot`. -/
inductive RebootCmd where
  | RB_POWER_OFF | RB_AUTOBOOT
  deriving DecidableEq, Repr

/-- An Ecore timer, with the request whose callback it has. -/
structure Timer where
  id : Nat
  request : Request
  deriving DecidableEq, Repr

/-- The device goes down, not before `notBefore`. -/
structure Transition where
  cmd : RebootCmd
  notBefore : Int
  deriving DecidableEq, Repr

/-- `tvStart` is the second of `tv_start_poweroff`; `registered` are the
requests whose callback waits for TAPI_NOTI_MODEM_POWER. -/
structure Power where
  timerId : Option Nat
  tapiHandle : Bool
  tvStart : Int
  live : List Timer
  nextTimer : Nat
  registered : List Request
  down : Option Transition
  deriving DecidableEq, Repr

/-- What a call meets: the time in seconds, whether the two telephony calls
succeed and whether Ecore makes the timer, and PWROFF_DUR. -/
structure Env where
  now : Int
  register : Bool
  command : Bool
  timerAdd : Bool
  pwroffDur : Option Bytes

/-- mirrors ss_predefine.c:347-352,387-392,511-515,546-550 -/
def poweroffDuration (pwroffDur : Option Bytes) : Int :=
  let d := match pwroffDur with
    | none => POWEROFF_DURATION
    | some buf => if (cstr buf).length < 1024 then atoi buf else POWEROFF_DURATION
  if d < 0 ∨ d > 60 then POWEROFF_DURATION else d

/-- The wait for the duration, and `reboot`; how much longer `sleep` and `sync`
make it is in `PowerClock`. -/
def reboot (cmd : RebootCmd) (e : Env) (s : Power) : Power :=
  { s with down := some ⟨cmd, s.tvStart + poweroffDuration e.pwroffDur⟩ }

/-- mirrors ss_predefine.c:376-379,495-498,531-534 -/
def delTimer (s : Power) : Power :=
  match s.timerId with
  | none => s
  | some t => { s with live := s.live.filter (·.id ≠ t), timerId := none }

/-- mirrors ss_predefine.c:342-346,537-541 -/
def telDeinit (s : Power) : Power := { s with tapiHandle := false }

/-- mirrors ss_predefine.c:380-384,501-506 -/
def telDeregister (s : Power) : Power :=
  if s.tapiHandle then telDeinit { s with registered := [] } else s

/-- mirrors ss_predefine.c:336-368 -/
def powerdownApByForce (e : Env) (s : Power) : Power := reboot .RB_POWER_OFF e (telDeinit s)

/-- mirrors ss_predefine.c:370-406 -/
def powerdownAp (e : Env) (s : Power) : Power :=
  reboot .RB_POWER_OFF e (telDeregister (delTimer s))

/-- mirrors ss_predefine.c:489-523 -/
def restartAp (e : Env) (s : Power) : Power := reboot .RB_AUTOBOOT e (telDeregister (delTimer s))

/-- mirrors ss_predefine.c:483-487 -/
def restartApEcore (e : Env) (s : Power) : Power := restartAp e s

/-- mirrors ss_predefine.c:525-558 -/
def restartApByForce (e : Env) (s : Power) : Power :=
  reboot .RB_AUTOBOOT e (telDeinit (delTimer s))

/-- The timer goes into `poweroff_timer_id`, or NULL does. -/
def ecoreTimerAdd (r : Request) (e : Env) (s : Power) : Power :=
  if e.timerAdd then
    { s with
      live := ⟨s.nextTimer, r⟩ :: s.live
      nextTimer := s.nextTimer + 1
      timerId := some s.nextTimer }
  else { s with timerId := none }

/-- What both requests do; `byForce` is for a failure of telephony. -/
def defPredefineAction (r : Request) (byForce : Env → Power → Power) (e : Env) (s : Power) :
    Int × Power :=
  let s := { s with tvStart := e.now }
  if e.register = false then (0, byForce e s)
  else
    let s := { s with registered := s.registered ++ [r] }
    if e.command = false then (0, byForce e s) else (0, ecoreTimerAdd r e s)

/-- mirrors ss_predefine.c:411-440 -/
def poweroffDefPredefineAction : Env → Power → Int × Power :=
  defPredefineAction .poweroff powerdownApByForce

/-- mirrors ss_predefine.c:560-589 -/
def restartDefPredefineAction : Env → Power → Int × Power :=
  defPredefineAction .restart restartApByForce

/-! ## Runs -/

/-- A request, the callback of one when the modem is off, or a timer that
fires. -/
inductive Lbl where
  | request (r : Request) (e : Env)
  | modem (r : Request) (e : Env)
  | fire (t : Timer) (e : Env)

/-- Telephony succeeds. -/
def request (r : Request) (e : Env) (s : Power) : Option Power :=
  if e.register = true ∧ e.command = true then
    some (match r with
      | .poweroff => (poweroffDefPredefineAction e s).2
      | .restart => (restartDefPredefineAction e s).2)
  else none

def modem (r : Request) (e : Env) (s : Power) : Option Power :=
  if r ∈ s.registered then
    some (match r with
      | .poweroff => powerdownAp e s
      | .restart => restartAp e s)
  else none

def fire (t : Timer) (e : Env) (s : Power) : Option Power :=
  if t ∈ s.live then
    some (match t.request with
      | .poweroff => powerdownApByForce e s
      | .restart => restartApEcore e s)
  else none

def step (s : Power) (l : Lbl) : Option Power :=
  if s.down = none then
    match l with
    | .request r e => request r e s
    | .modem r e => modem r e s
    | .fire t e => fire t e s
  else none

/-- At the start there is no timer, and nothing was asked for. -/
structure Init (s : Power) : Prop where
  timerId : s.timerId = none
  live : s.live = []
  registered : s.registered = []
  down : s.down = none

def lts : LTS Power Lbl := ⟨Init, step⟩

/-- At most one timer, and `poweroff_timer_id` denotes it. -/
structure OneTimer (s : Power) : Prop where
  atMostOne : s.live.length ≤ 1
  stored : s.live.map Timer.id = s.timerId.toList

/-- After a request there is one timer at most; the modem event leaves none. -/
def Right : Power → Lbl → Power → Prop
  | _, .request _ _, s' => OneTimer s'
  | _, .modem _ _, s' => s'.live = []
  | _, .fire _ _, _ => True

/-- A request finds no timer. -/
def FindsNone (s : Power) : Lbl → Prop
  | .request _ _ => s.live = []
  | _ => True

/-! ## The timers -/

/-- The wait is a minute at most. -/
theorem duration_bounds (pwroffDur : Option Bytes) :
    0 ≤ poweroffDuration pwroffDur ∧ poweroffDuration pwroffDur ≤ 60 := by
  have hrange : ∀ d : Int, 0 ≤ (if d < 0 ∨ d > 60 then POWEROFF_DURATION else d) ∧
      (if d < 0 ∨ d > 60 then POWEROFF_DURATION else d) ≤ 60 := by
    intro d
    unfold POWEROFF_DURATION
    split <;> omega
  exact hrange _

/-- Deleting what `poweroff_timer_id` denotes leaves none. -/
theorem live_delTimer {s : Power} (h : OneTimer s) : (delTimer s).live = [] := by
  have hstored := h.stored
  unfold delTimer
  cases hid : s.timerId with
  | none =>
    rw [hid] at hstored
    exact List.map_eq_nil_iff.mp hstored
  | some t =>
    rw [hid] at hstored
    rw [List.filter_eq_nil_iff]
    intro x hx
    have hmem : x.id ∈ s.live.map Timer.id := List.mem_map_of_mem hx
    rw [hstored, Option.mem_toList] at hmem
    simpa using hmem.symm

@[simp] theorem live_telDeregister (s : Power) : (telDeregister s).live = s.live := by
  unfold telDeregister
  split <;> rfl

/-- The modem event leaves no timer, whichever request it is for. -/
theorem live_modem {s s' : Power} {r : Request} {e : Env} (h : OneTimer s)
    (hst : modem r e s = some s') : s'.live = [] := by
  obtain ⟨-, rfl⟩ := Option.ite_some_none_eq_some.mp hst
  cases r <;> simp [powerdownAp, restartAp, reboot, live_delTimer h]

/-- A request adds its timer, or clears `poweroff_timer_id`, and leaves those
there are. -/
theorem request_cases {s s' : Power} {r : Request} {e : Env} (hst : request r e s = some s') :
    (∃ t, s'.live = t :: s.live ∧ s'.timerId = some t.id) ∨ s'.live = s.live ∧ s'.timerId = none := by
  obtain ⟨hok, hs'⟩ := Option.ite_some_none_eq_some.mp hst
  have hboth : s' = ecoreTimerAdd r e
      { s with tvStart := e.now, registered := s.registered ++ [r] } := by
    rw [← hs']
    cases r <;> simp [poweroffDefPredefineAction, restartDefPredefineAction, defPredefineAction, hok]
  rw [hboth]
  unfold ecoreTimerAdd
  split
  · exact .inl ⟨⟨s.nextTimer, r⟩, rfl, rfl⟩
  · exact .inr ⟨rfl, rfl⟩

/-- A request leaves one timer at most exactly when it finds none. -/
theorem oneTimer_request {s s' : Power} {r : Request} {e : Env}
    (hst : request r e s = some s') : OneTimer s' ↔ s.live = [] := by
  obtain ⟨t, hlive, hid⟩ | ⟨hlive, hid⟩ := request_cases hst
  · constructor
    · intro h
      have hone := h.atMostOne
      rw [hlive, List.length_cons] at hone
      exact List.length_eq_zero_iff.mp (by omega)
    · intro h
      rw [h] at hlive
      exact ⟨by rw [hlive, List.length_singleton], by rw [hlive, hid]; rfl⟩
  · constructor
    · intro h
      have hstored := h.stored
      rw [hlive, hid] at hstored
      exact List.map_eq_nil_iff.mp hstored
    · intro h
      rw [h] at hlive
      exact ⟨by simp [hlive], by rw [hlive, hid]; rfl⟩

/-- Up to the transition there is one timer at most. -/
def Inv (s : Power) : Prop := s.down = none → OneTimer s

theorem right_iff (s : Power) (l : Lbl) (s' : Power) (h : Inv s) (hst : lts.step s l = some s') :
    Right s l s' ↔ FindsNone s l := by
  obtain ⟨hdown, hst⟩ := Option.ite_none_right_eq_some.mp hst
  cases l with
  | request r e => exact oneTimer_request hst
  | modem r e => exact iff_of_true (live_modem (h hdown) hst) trivial
  | fire t e => exact Iff.rfl

/-- The modem event and a timer begin the transition. -/
theorem down_modem {s s' : Power} {r : Request} {e : Env} (hst : modem r e s = some s') :
    s'.down ≠ none := by
  obtain ⟨-, rfl⟩ := Option.ite_some_none_eq_some.mp hst
  cases r <;> simp [powerdownAp, restartAp, reboot]

theorem down_fire {s s' : Power} {t : Timer} {e : Env} (hst : fire t e s = some s') :
    s'.down ≠ none := by
  obtain ⟨-, rfl⟩ := Option.ite_some_none_eq_some.mp hst
  split <;> simp [powerdownApByForce, restartApEcore, restartAp, reboot]

theorem inv_guarded : lts.Guarded FindsNone Inv := by
  intro s l s' h hc hst hdown'
  have hright := (right_iff s l s' h hst).mpr hc
  obtain ⟨-, hst⟩ := Option.ite_none_right_eq_some.mp hst
  cases l with
  | request r e => exact hright
  | modem r e => exact absurd hdown' (down_modem hst)
  | fire t e => exact absurd hdown' (down_fire hst)

/-- **One power timer.** In every run from the start there is at most one
power timer after each request, and `poweroff_timer_id` denotes it, and the
modem event leaves none, if and only if no request finds a live one. -/
theorem oneTimer_iff (s₀ : Power) (h₀ : lts.init s₀) (ls : List Lbl) :
    lts.Along Right s₀ ls ↔ lts.Meets FindsNone s₀ ls := by
  have hinit : Inv s₀ := fun _ => ⟨by simp [h₀.live], by rw [h₀.live, h₀.timerId]; rfl⟩
  exact LTS.along_iff right_iff inv_guarded hinit ls

def atStart : Power := ⟨none, true, 0, [], 0, [], none⟩

/-- Telephony succeeds, and Ecore makes the timer. -/
def goesWell : Env := ⟨100, true, true, true, none⟩

/-- The device is powered off once. -/
theorem oneTimer_once : ((lts.run atStart [.request .poweroff goesWell, .modem .poweroff goesWell]).map
      fun s => (s.live, s.down)) = some ([], some ⟨.RB_POWER_OFF, 102⟩) ∧
    lts.Along Right atStart [.request .poweroff goesWell, .modem .poweroff goesWell] :=
  ⟨by decide, (oneTimer_iff atStart ⟨rfl, rfl, rfl, rfl⟩ _).mpr
    fun _ _ => ⟨rfl, fun _ _ => ⟨trivial, trivial⟩⟩⟩

/-- Two requests before the modem answers: two timers, of which the modem
event leaves the first. -/
theorem oneTimer_lost :
    ((lts.run atStart [.request .poweroff goesWell, .request .restart goesWell]).map
      fun s => (s.live, s.timerId)) = some ([⟨1, .restart⟩, ⟨0, .poweroff⟩], some 1) ∧
    ((lts.run atStart [.request .poweroff goesWell, .request .restart goesWell,
        .modem .poweroff goesWell]).map fun s => (s.live, s.down)) =
      some ([⟨0, .poweroff⟩], some ⟨.RB_POWER_OFF, 102⟩) ∧
    ¬ lts.Along Right atStart [.request .poweroff goesWell, .request .restart goesWell,
      .modem .poweroff goesWell] := by
  have hfirst : lts.step atStart (.request .poweroff goesWell) =
      some ⟨some 0, true, 100, [⟨0, .poweroff⟩], 1, [.poweroff], none⟩ := rfl
  have hsecond : lts.step ⟨some 0, true, 100, [⟨0, .poweroff⟩], 1, [.poweroff], none⟩
      (.request .restart goesWell) = some ⟨some 1, true, 100, [⟨1, .restart⟩, ⟨0, .poweroff⟩], 2,
        [.poweroff, .restart], none⟩ := rfl
  refine ⟨by decide, by decide, fun h => ?_⟩
  have htwo := ((h _ hfirst).2 _ hsecond).1.atMostOne
  exact absurd htwo (by decide)

end SystemServer.L4.PowerOff
