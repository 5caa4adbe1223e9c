import SystemServer.L4Device.PowerOff

/-!
# How long after a request the device goes down (`ss_predefine.c`)

`PowerOff` is untimed: it says which timers there are, not when they fire.
Here its functions run against a clock (one `tick` is a second of
`gettimeofday`). A power timer is due 15 seconds after it was made, and the
main loop serves it no more than `lag` seconds late. A request counts from where
it reads the time, after a `sync` of its own. Whoever begins the transition waits
until the duration of the request is over. Before a restart the file systems are
synced, and then comes the wait; before power goes off the processes have a second
more after it, and then the file systems are synced.

* `down_in_time_iff`: after a request the transition begins within 15 seconds
  and the lag, whatever the modem and later requests do, and the device is down
  a minute, a second and the time of `sync` later at most, exactly when the
  request makes a timer, or telephony fails at once, or a timer of an earlier
  request is live.

A later request overwrites `poweroff_timer_id`, which hurts nobody here: the
earlier timer still fires.
-/
namespace SystemServer.L4.PowerClock

open SystemServer.L4.PowerOff

/-- The seconds of `ecore_timer_add`.
mirrors ss_predefine.c:438,587 -/
def POWER_TIMER : Int := 15

/-- The longest duration that PWROFF_DUR can ask for.
mirrors ss_predefine.c:351,391,514,549 -/
def MAX_DURATION : Int := 60

/-- `due` says when the timer with that id fires. -/
structure Clocked where
  power : Power
  now : Int
  due : Nat → Int

inductive Lbl where
  | tick
  | request (r : Request) (e : Env)
  | modem (r : Request) (e : Env)
  | fire (t : Timer) (e : Env)

/-- A call reads the time. -/
def Clocked.env (s : Clocked) (e : Env) : Env := { e with now := s.now }

/-- A request, whether telephony succeeds or not. -/
def Clocked.request (s : Clocked) (r : Request) (e : Env) : Clocked where
  power := match r with
    | .poweroff => (poweroffDefPredefineAction (s.env e) s.power).2
    | .restart => (restartDefPredefineAction (s.env e) s.power).2
  now := s.now
  due := Function.update s.due s.power.nextTimer (s.now + POWER_TIMER)

/-- Time does not pass while a timer is `lag` seconds late, and not once the
device goes down. -/
def step (lag : Nat) (s : Clocked) (l : Lbl) : Option Clocked :=
  if s.power.down = none then
    match l with
    | .tick =>
      if ∀ t ∈ s.power.live, s.now < s.due t.id + lag then some { s with now := s.now + 1 } else none
    | .request r e => some (s.request r e)
    | .modem r e => (PowerOff.modem r (s.env e) s.power).map fun p => { s with power := p }
    | .fire t e =>
      if s.due t.id ≤ s.now then
        (PowerOff.fire t (s.env e) s.power).map fun p => { s with power := p }
      else none
  else none

def lts (lag : Nat) : LTS Clocked Lbl := ⟨fun s => Init s.power, step lag⟩

/-- When `reboot` is called for a transition that begins now, `sync` being the
seconds that the call of that name takes.
mirrors ss_predefine.c:353-366,393-405,509-522,544-557 -/
def Clocked.downAt (s : Clocked) (sync : Nat) (tr : Transition) : Int :=
  match tr.cmd with
  | .RB_POWER_OFF => max s.now tr.notBefore + 1 + sync
  | .RB_AUTOBOOT => max (s.now + sync) tr.notBefore

/-- The request leads to a timer, or to the transition at once. -/
def Arms (e : Env) : Prop := e.register = false ∨ e.command = false ∨ e.timerAdd = true

instance (e : Env) : Decidable (Arms e) :=
  inferInstanceAs (Decidable (e.register = false ∨ e.command = false ∨ e.timerAdd = true))

/-! ## What a request does -/

@[simp] theorem tvStart_delTimer (s : Power) : (delTimer s).tvStart = s.tvStart := by
  unfold delTimer
  split <;> rfl

/-- Going down by force waits for the duration from `tv_start_poweroff` on. -/
def Forces (byForce : Env → Power → Power) : Prop :=
  ∀ e s, (byForce e s).tvStart = s.tvStart ∧
    ∃ cmd, (byForce e s).down = some ⟨cmd, s.tvStart + poweroffDuration e.pwroffDur⟩

theorem forces_powerdownApByForce : Forces powerdownApByForce :=
  fun _ _ => ⟨rfl, .RB_POWER_OFF, rfl⟩

theorem forces_restartApByForce : Forces restartApByForce := by
  intro e s
  refine ⟨tvStart_delTimer s, .RB_AUTOBOOT, ?_⟩
  simp only [restartApByForce, reboot, telDeinit, tvStart_delTimer]

/-- What a request leads to: the transition when telephony fails, or a timer,
or nothing. -/
inductive Requested (e : Env) (s s' : Power) : Prop where
  | forced (hfail : e.register = false ∨ e.command = false) (tr : Transition)
      (hdown : s'.down = some tr) (hwait : tr.notBefore ≤ e.now + MAX_DURATION)
  | timer (ht : e.timerAdd = true) (r : Request) (hdown : s'.down = s.down)
      (hlive : s'.live = ⟨s.nextTimer, r⟩ :: s.live) (hnext : s'.nextTimer = s.nextTimer + 1)
  | none (hno : ¬ Arms e) (hdown : s'.down = s.down) (hlive : s'.live = s.live)
      (hnext : s'.nextTimer = s.nextTimer)

theorem Forces.requested {byForce : Env → Power → Power} (hf : Forces byForce) {e : Env}
    (hfail : e.register = false ∨ e.command = false) {s s₁ : Power} (hs₁ : s₁.tvStart = e.now) :
    Requested e s (byForce e s₁) ∧ (byForce e s₁).tvStart = e.now := by
  obtain ⟨hstart, cmd, hdown⟩ := hf e s₁
  have hdur := (duration_bounds e.pwroffDur).2
  refine ⟨.forced hfail _ hdown ?_, hstart.trans hs₁⟩
  unfold MAX_DURATION
  dsimp only
  omega

theorem requested_ecoreTimerAdd {e : Env} (hok : e.register = true ∧ e.command = true) {s s₁ : Power}
    (r : Request) (hs₁ : s₁ = { s with tvStart := e.now, registered := s₁.registered }) :
    Requested e s (ecoreTimerAdd r e s₁) ∧ (ecoreTimerAdd r e s₁).tvStart = e.now := by
  rw [hs₁]
  unfold ecoreTimerAdd
  split
  case isTrue ht => exact ⟨.timer ht r rfl rfl rfl, rfl⟩
  case isFalse ht =>
    refine ⟨.none ?_ rfl rfl rfl, rfl⟩
    unfold Arms
    simp [hok, ht]

theorem requested_defPredefineAction (r : Request) {byForce : Env → Power → Power}
    (hf : Forces byForce) (e : Env) (s : Power) :
    Requested e s (defPredefineAction r byForce e s).2 ∧
      (defPredefineAction r byForce e s).2.tvStart = e.now := by
  unfold defPredefineAction
  dsimp only
  split
  case isTrue hr => exact hf.requested (.inl hr) rfl
  case isFalse hr =>
    split
    case isTrue hc => exact hf.requested (.inr hc) rfl
    case isFalse hc =>
      rw [Bool.not_eq_false] at hr hc
      exact requested_ecoreTimerAdd ⟨hr, hc⟩ r rfl

theorem requested (s : Clocked) (r : Request) (e : Env) :
    Requested (s.env e) s.power (s.request r e).power ∧ (s.request r e).power.tvStart = s.now := by
  cases r with
  | poweroff => exact requested_defPredefineAction .poweroff forces_powerdownApByForce (s.env e) s.power
  | restart => exact requested_defPredefineAction .restart forces_restartApByForce (s.env e) s.power

/-- The modem event and a timer begin the transition, which waits for the
duration from `tv_start_poweroff` on. -/
theorem down_reboot {s s₁ : Power} {e : Env} {cmd : RebootCmd} (hs₁ : s₁.tvStart = s.tvStart) :
    ∃ tr, (reboot cmd e s₁).down = some tr ∧ tr.notBefore ≤ s.tvStart + MAX_DURATION := by
  have hdur := (duration_bounds e.pwroffDur).2
  refine ⟨_, rfl, ?_⟩
  unfold MAX_DURATION
  dsimp only
  omega

@[simp] theorem tvStart_telDeregister (s : Power) : (telDeregister s).tvStart = s.tvStart := by
  unfold telDeregister
  split <;> rfl

theorem wait_modem {s s' : Power} {r : Request} {e : Env} (hst : modem r e s = some s') :
    ∃ tr, s'.down = some tr ∧ tr.notBefore ≤ s.tvStart + MAX_DURATION := by
  obtain ⟨-, rfl⟩ := Option.ite_some_none_eq_some.mp hst
  cases r <;> exact down_reboot (by rw [tvStart_telDeregister, tvStart_delTimer])

theorem wait_fire {s s' : Power} {t : Timer} {e : Env} (hst : fire t e s = some s') :
    ∃ tr, s'.down = some tr ∧ tr.notBefore ≤ s.tvStart + MAX_DURATION := by
  obtain ⟨-, rfl⟩ := Option.ite_some_none_eq_some.mp hst
  split
  · exact down_reboot rfl
  · exact down_reboot (by rw [tvStart_telDeregister, tvStart_delTimer])

/-! ## From the start on -/

/-- The timers were made at most now, with ids of their own. -/
structure Timers (s : Clocked) : Prop where
  fresh : ∀ t ∈ s.power.live, t.id < s.power.nextTimer
  soon : ∀ t ∈ s.power.live, s.due t.id ≤ s.now + POWER_TIMER

/-- As long as the device is up. -/
def Inv (s : Clocked) : Prop := s.power.down = none → Timers s

/-- The timer of a request has its own due time, and those there are keep
theirs. -/
theorem due_request {s : Clocked} (h : Timers s) (r : Request) (e : Env) :
    (s.request r e).due s.power.nextTimer = s.now + POWER_TIMER ∧
      ∀ t ∈ s.power.live, (s.request r e).due t.id = s.due t.id := by
  refine ⟨Function.update_self .., fun t ht => ?_⟩
  have hne : t.id ≠ s.power.nextTimer := Nat.ne_of_lt (h.fresh t ht)
  exact Function.update_of_ne hne ..

theorem timers_request {s : Clocked} (h : Timers s) (r : Request) (e : Env)
    (hdown : (s.request r e).power.down = none) : Timers (s.request r e) := by
  obtain ⟨hnew, hold⟩ := due_request h r e
  have hnow : (s.request r e).now = s.now := rfl
  cases (requested s r e).1 with
  | forced hfail tr hd hwait => exact absurd (hd.symm.trans hdown) (Option.some_ne_none tr)
  | timer ht r' hd hlive hnext =>
    constructor
    · rw [hlive, hnext]
      rintro t (_ | ⟨_, ht'⟩)
      · exact Nat.lt_succ_self _
      · exact Nat.lt_succ_of_lt (h.fresh t ht')
    · rw [hlive, hnow]
      rintro t (_ | ⟨_, ht'⟩)
      · exact hnew.le
      · rw [hold t ht']
        exact h.soon t ht'
  | none hno hd hlive hnext =>
    constructor
    · rw [hlive, hnext]
      exact h.fresh
    · rw [hlive, hnow]
      intro t ht'
      rw [hold t ht']
      exact h.soon t ht'

/-- What one step is. -/
theorem step_cases {lag : Nat} {s s' : Clocked} {l : Lbl} (hst : step lag s l = some s') :
    s.power.down = none ∧
      ((l = .tick ∧ (∀ t ∈ s.power.live, s.now < s.due t.id + lag) ∧ s' = { s with now := s.now + 1 }) ∨
      (∃ r e, l = .request r e ∧ s' = s.request r e) ∨
      (s'.now = s.now ∧ s'.due = s.due ∧ ∃ tr, s'.power.down = some tr ∧
        tr.notBefore ≤ s.power.tvStart + MAX_DURATION)) := by
  obtain ⟨hup, hst⟩ := Option.ite_none_right_eq_some.mp hst
  refine ⟨hup, ?_⟩
  cases l with
  | tick =>
    obtain ⟨hlag, rfl⟩ := Option.ite_some_none_eq_some.mp hst
    exact .inl ⟨rfl, hlag, rfl⟩
  | request r e => exact .inr (.inl ⟨r, e, rfl, (Option.some.inj hst).symm⟩)
  | modem r e =>
    obtain ⟨p, hp, rfl⟩ := Option.map_eq_some_iff.mp hst
    exact .inr (.inr ⟨rfl, rfl, wait_modem hp⟩)
  | fire t e =>
    obtain ⟨-, hst⟩ := Option.ite_none_right_eq_some.mp hst
    obtain ⟨p, hp, rfl⟩ := Option.map_eq_some_iff.mp hst
    exact .inr (.inr ⟨rfl, rfl, wait_fire hp⟩)

theorem inv_inductive (lag : Nat) : (lts lag).Inductive Inv where
  init s h₀ := by
    intro _
    constructor <;> (rw [h₀.live]; exact fun t ht => absurd ht List.not_mem_nil)
  step s l s' h hst hdown' := by
    obtain ⟨hup, ⟨-, -, rfl⟩ | ⟨r, e, -, rfl⟩ | ⟨-, -, tr, htr, -⟩⟩ := step_cases hst
    · have ht := h hup
      refine ⟨ht.fresh, fun t hmem => ?_⟩
      have hsoon := ht.soon t hmem
      dsimp only
      omega
    · exact timers_request (h hup) r e hdown'
    · exact absurd (htr.symm.trans hdown') (Option.some_ne_none tr)

/-! ## From the request on -/

/-- A timer is due at `T` at the latest, as long as the device is up. -/
structure Armed (lag : Nat) (T : Int) (s : Clocked) : Prop where
  started : s.power.down = none → s.power.tvStart ≤ s.now
  inTime : s.now ≤ T + lag
  pending : s.power.down = none → Timers s ∧ ∃ t ∈ s.power.live, s.due t.id ≤ T
  wait : ∀ tr, s.power.down = some tr → tr.notBefore ≤ s.now + MAX_DURATION

/-- A timer that is live before the request is so after it, when the device is
up. -/
theorem pending_request {s : Clocked} (h : Timers s) {T : Int} (hp : ∃ t ∈ s.power.live, s.due t.id ≤ T)
    (r : Request) (e : Env) (hdown : (s.request r e).power.down = none) :
    ∃ t ∈ (s.request r e).power.live, (s.request r e).due t.id ≤ T := by
  obtain ⟨t, hmem, hdue⟩ := hp
  have hold := (due_request h r e).2 t hmem
  refine ⟨t, ?_, hold.trans_le hdue⟩
  cases (requested s r e).1 with
  | forced hfail tr hd hwait => exact absurd (hd.symm.trans hdown) (Option.some_ne_none tr)
  | timer ht r' hd hlive hnext =>
    rw [hlive]
    exact List.mem_cons_of_mem _ hmem
  | none hno hd hlive hnext =>
    rw [hlive]
    exact hmem

/-- A request waits a minute at most when it goes down at once. -/
theorem wait_request {s : Clocked} (hup : s.power.down = none) (r : Request) (e : Env) (tr : Transition)
    (hdown : (s.request r e).power.down = some tr) : tr.notBefore ≤ s.now + MAX_DURATION := by
  cases (requested s r e).1 with
  | forced hfail tr' hd hwait =>
    obtain rfl := Option.some.inj (hd.symm.trans hdown)
    exact hwait
  | timer ht r' hd hlive hnext => simp [hd, hup] at hdown
  | none hno hd hlive hnext => simp [hd, hup] at hdown

/-- Every step keeps it. -/
theorem armed_step {lag : Nat} {T : Int} {s s' : Clocked} {l : Lbl} (h : Armed lag T s)
    (hst : step lag s l = some s') : Armed lag T s' := by
  obtain ⟨hup, ⟨-, hlag, rfl⟩ | ⟨r, e, -, rfl⟩ | ⟨hnow, -, tr, htr, hwait⟩⟩ := step_cases hst
  · obtain ⟨ht, t, hmem, hdue⟩ := h.pending hup
    have hlate := hlag t hmem
    have hstarted := h.started hup
    refine ⟨fun _ => ?_, ?_, fun _ => ⟨⟨ht.fresh, fun t hmem => ?_⟩, t, hmem, hdue⟩, ?_⟩
    · dsimp only
      omega
    · dsimp only
      omega
    · have hsoon := ht.soon t hmem
      dsimp only
      omega
    · intro tr htr
      exact absurd (htr.symm.trans hup) (Option.some_ne_none tr)
  · obtain ⟨ht, hp⟩ := h.pending hup
    refine ⟨fun _ => (requested s r e).2.le, h.inTime, fun hdown => ?_, wait_request hup r e⟩
    exact ⟨timers_request ht r e hdown, pending_request ht hp r e hdown⟩
  · have hstarted := h.started hup
    have hgone : s'.power.down ≠ none := fun hnone => Option.some_ne_none tr (htr.symm.trans hnone)
    refine ⟨fun hnone => absurd hnone hgone, hnow ▸ h.inTime, fun hnone => absurd hnone hgone, ?_⟩
    intro tr' htr'
    obtain rfl := Option.some.inj (htr.symm.trans htr')
    omega

theorem armed_run {lag : Nat} {T : Int} {s s' : Clocked} {ls : List Lbl} (h : Armed lag T s)
    (hrun : (lts lag).run s ls = some s') : Armed lag T s' := by
  induction ls generalizing s with
  | nil => exact Option.some.inj hrun ▸ h
  | cons l ls ih =>
    obtain ⟨s₁, hst, hrun⟩ := LTS.run_cons.mp hrun
    exact ih (armed_step h hst) hrun

/-- The request brings about that a timer is due within 15 seconds: its own, or
that of an earlier request. -/
theorem armed_request (lag : Nat) {s : Clocked} (h : Timers s) (hup : s.power.down = none)
    (r : Request) (e : Env) (harms : Arms e ∨ s.power.live ≠ []) :
    Armed lag (s.now + POWER_TIMER) (s.request r e) := by
  refine ⟨fun _ => (requested s r e).2.le, ?_, fun hdown => ?_, wait_request hup r e⟩
  · show s.now ≤ s.now + POWER_TIMER + lag
    unfold POWER_TIMER
    omega
  · refine ⟨timers_request h r e hdown, ?_⟩
    have hold : s.power.live ≠ [] → ∃ t ∈ (s.request r e).power.live,
        (s.request r e).due t.id ≤ s.now + POWER_TIMER := by
      intro hne
      obtain ⟨t, hmem⟩ := List.exists_mem_of_ne_nil _ hne
      exact pending_request h ⟨t, hmem, h.soon t hmem⟩ r e hdown
    cases (requested s r e).1 with
    | forced hfail tr hd hwait => exact absurd (hd.symm.trans hdown) (Option.some_ne_none tr)
    | timer ht r' hd hlive hnext =>
      refine ⟨⟨s.power.nextTimer, r'⟩, ?_, (due_request h r e).1.le⟩
      rw [hlive]
      exact List.mem_cons_self
    | none hno hd hlive hnext => exact hold (harms.resolve_left hno)

/-- While the device is up, time passes or a timer fires. -/
theorem progress (lag : Nat) {s : Clocked} (hup : s.power.down = none) (e : Env) :
    ∃ l, (l = .tick ∨ ∃ t, l = .fire t e) ∧ (step lag s l).isSome := by
  by_cases hlag : ∀ t ∈ s.power.live, s.now < s.due t.id + lag
  · refine ⟨.tick, .inl rfl, ?_⟩
    simp only [step, hup, ↓reduceIte]
    rw [if_pos hlag]
    rfl
  · push Not at hlag
    obtain ⟨t, hmem, hlate⟩ := hlag
    have hdue : s.due t.id ≤ s.now := by omega
    refine ⟨.fire t e, .inr ⟨t, rfl⟩, ?_⟩
    simp only [step, hup, hdue, ↓reduceIte, PowerOff.fire, hmem, Option.map_some, Option.isSome_some]

/-- Without a timer time passes, and nothing happens. -/
theorem ticks (lag n : Nat) {s : Clocked} (hup : s.power.down = none) (hnil : s.power.live = []) :
    (lts lag).run s (List.replicate n .tick) = some { s with now := s.now + n } := by
  induction n generalizing s with
  | zero => simp
  | succ n ih =>
    have htick : step lag s .tick = some { s with now := s.now + 1 } := by
      simp [step, hup, hnil]
    rw [List.replicate_succ]
    refine LTS.run_cons.mpr ⟨_, htick, ?_⟩
    rw [ih (s := { s with now := s.now + 1 }) hup hnil]
    congr 2
    push_cast
    omega

/-! ## The bound -/

/-- The transition begins by `T`, some step is possible until then, and the
device is down by `T'`. -/
structure DownInTime (lag sync : Nat) (T T' : Int) (s : Clocked) : Prop where
  begins : s.power.down = none → s.now ≤ T ∧
    ∀ e, ∃ l, (l = .tick ∨ ∃ t, l = .fire t e) ∧ (step lag s l).isSome
  isDown : ∀ tr, s.power.down = some tr → s.downAt sync tr ≤ T'

/-- A transition that waits a minute at most. -/
theorem downAt_le {s : Clocked} {tr : Transition} {T : Int} (hnow : s.now ≤ T)
    (hwait : tr.notBefore ≤ s.now + MAX_DURATION) (sync : Nat) :
    s.downAt sync tr ≤ T + MAX_DURATION + 1 + sync := by
  unfold Clocked.downAt MAX_DURATION at *
  cases tr.cmd with
  | RB_POWER_OFF =>
    have hmax : max s.now tr.notBefore ≤ T + 60 := max_le (by omega) (by omega)
    dsimp only
    omega
  | RB_AUTOBOOT => exact max_le (by omega) (by omega)

/-- **Down in time.** After a request, at any time, the device is down 76
seconds, the lag and the time of `sync` later at most, whatever comes in between,
if and only if the request arms a timer or fails to reach telephony, or a timer
of an earlier request is live. -/
theorem down_in_time_iff (lag sync : Nat) (s₁ : Clocked) (hr : (lts lag).Reachable s₁)
    (r : Request) (e : Env) (s₂ : Clocked) (hst : (lts lag).step s₁ (.request r e) = some s₂) :
    (∀ ls s, (lts lag).run s₂ ls = some s →
      DownInTime lag sync (s₁.now + POWER_TIMER + lag)
        (s₁.now + POWER_TIMER + lag + MAX_DURATION + 1 + sync) s) ↔
    Arms e ∨ s₁.power.live ≠ [] := by
  obtain ⟨hup, hst⟩ := Option.ite_none_right_eq_some.mp hst
  obtain rfl := Option.some.inj hst
  have htimers : Timers s₁ := (inv_inductive lag).reachable hr hup
  constructor
  · intro h
    by_contra hno
    push Not at hno
    obtain ⟨hno, hnil⟩ := hno
    have hquiet : (s₁.request r e).power.down = none ∧ (s₁.request r e).power.live = [] := by
      cases (requested s₁ r e).1 with
      | forced hfail tr hd hwait => exact absurd (hfail.elim .inl fun hc => .inr (.inl hc)) hno
      | timer ht r' hd hlive hnext => exact absurd (.inr (.inr ht)) hno
      | none hno' hd hlive hnext => exact ⟨hd.trans hup, hlive.trans hnil⟩
    have hrun := ticks lag (16 + lag) hquiet.1 hquiet.2
    have hlate := ((h _ _ hrun).begins hquiet.1).1
    have hnow : (s₁.request r e).now = s₁.now := rfl
    unfold POWER_TIMER at hlate
    rw [hnow] at hlate
    push_cast at hlate
    omega
  · intro harms ls s hrun
    have harmed := armed_run (armed_request lag htimers hup r e harms) hrun
    refine ⟨fun hdown => ⟨harmed.inTime, fun e => progress lag hdown e⟩, fun tr hdown => ?_⟩
    exact downAt_le harmed.inTime (harmed.wait tr hdown) sync

def atStart : Clocked := ⟨PowerOff.atStart, 100, fun _ => 0⟩

/-- The modem never answers: the timer fires after 15 seconds, and the device
goes down by force, synced in 3 seconds. -/
theorem down_in_time_silent :
    (∀ ls s, (lts 2).run (atStart.request .poweroff goesWell) ls = some s →
      DownInTime 2 3 117 181 s) ∧
    ((lts 2).run atStart (.request .poweroff goesWell :: (List.replicate 15 .tick ++
      [.fire ⟨0, .poweroff⟩ goesWell]))).map (fun s => (s.now, s.power.down.map (s.downAt 3))) =
        some (115, some 119) := by
  refine ⟨?_, by decide⟩
  exact (down_in_time_iff 2 3 atStart (.init ⟨rfl, rfl, rfl, rfl⟩) .poweroff goesWell _ rfl).mpr
    (.inl (.inr (.inr rfl)))

end SystemServer.L4.PowerClock
