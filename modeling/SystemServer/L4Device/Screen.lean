import Mathlib.Data.List.Infix
import SystemServer.Core.Shared
import SystemServer.L4Device.Cables
import SystemServer.L4Device.TimeMgr

/-!
# The screen locks

USB and the charger share the LCD_OFF lock (`Cables`), HDMI has LCD_NORMAL for
itself, and a date or timezone request takes the lock of the state the display
is in, and gives it up again (`TimeMgr`). The locks are one for each state of
the display, the whole daemon is one holder of them, and it does not count.

Start-up reads USB and the charger, then subscribes the three callbacks, then
reads HDMI (`startUp`). The cables change meanwhile, and a change before the
subscription, or after one that failed, is told to nobody; events of a cable that
wait may become one. The main loop begins after start-up, so they wait until then.

`held_iff`: in a run from before start-up, with readings that may fail and events
that wait, the locks are right from the end of start-up on, whenever no event is
waiting, exactly when every step that may be the last to matter meets its
condition (`Orderly`): start-up leaves them right; a handler's own cable is
online, or none of that lock's is; a cable whose change is told to nobody leaves
its lock right; and no time request meets a lock that is wanted. The argument is
that of `Shared`, with `abs`.
-/
namespace SystemServer.L4.Screen

open SystemServer.L4.Cables SystemServer.L4.TimeMgr

/-! ## The source -/

inductive Lock where
  | LCD_NORMAL | LCD_DIM | LCD_OFF
  deriving DecidableEq, Repr

inductive Cable where
  | usb | ta | hdmi
  deriving DecidableEq, Repr

instance : Fintype Lock := ⟨{.LCD_NORMAL, .LCD_DIM, .LCD_OFF}, fun k => by cases k <;> decide⟩

instance : Fintype Cable := ⟨{.usb, .ta, .hdmi}, fun c => by cases c <;> decide⟩

/-- The lock its handler takes. -/
def lockOf : Cable → Lock
  | .usb | .ta => .LCD_OFF
  | .hdmi => .LCD_NORMAL

/-- The state of the display with that number. -/
def lockNamed (state : Nat) : Lock :=
  if state = 0x1 then .LCD_NORMAL else if state = 0x2 then .LCD_DIM else .LCD_OFF

/-- A statement of start-up. -/
inductive Startup where
  | usbInit
  | taInit
  | subscribe (c : Cable)
  | hdmiInit
  deriving DecidableEq, Repr

/-- mirrors ss_main.c:79-82 and ss_device_change_handler.c:424-425,429,456 -/
def startUp : List Startup :=
  [.usbInit, .taInit, .subscribe .usb, .subscribe .ta, .subscribe .hdmi, .hdmiInit]

/-- The cables, whose callbacks are subscribed, the events their handlers have
not run for, the daemon, and what is left of start-up. -/
structure Sys where
  online : Cable → Bool
  subscribed : Cable → Bool
  pending : Cable → Nat
  daemon : Daemon
  lcdNormal : Bool
  lcdDim : Bool
  clock : Clock
  startup : List Startup

def Sys.held (s : Sys) : Lock → Bool
  | .LCD_NORMAL => s.lcdNormal
  | .LCD_DIM => s.lcdDim
  | .LCD_OFF => s.daemon.lcdOff

/-- `pm_lock_state` or `pm_unlock_state`. -/
def Sys.set (s : Sys) : Lock → Bool → Sys
  | .LCD_NORMAL, b => { s with lcdNormal := b }
  | .LCD_DIM, b => { s with lcdDim := b }
  | .LCD_OFF, b => { s with daemon := { s.daemon with lcdOff := b } }

/-- The calls an action made. -/
def Sys.calls (s : Sys) (pm : List (Bool × Nat)) : Sys :=
  pm.foldl (fun s c => s.set (lockNamed c.2) c.1) s

/-- mirrors ss_device_change_handler.c:148-158 -/
def hdmiChgdetCb (online : Option Int) (s : Sys) : Sys :=
  match online with
  | none => s
  | some val => if val = 1 then s.set .LCD_NORMAL true else s.set .LCD_NORMAL false

/-- What a handler reads of its cable. -/
def reading (seen online : Bool) : Option Int := if seen then some (jack online) else none

/-- A cable is plugged or unplugged, two of its events become one, start-up goes on
by a statement, the handler of an earlier event runs, or a time request is served.
`ok` says that the statement's own call succeeds; `usbLost` is an event of USB for
whose request there is no memory. -/
inductive Lbl where
  | plug (c : Cable) (online : Bool)
  | merge (c : Cable)
  | init (ok : Bool) (c : Call)
  | usbLost
  | usbcon (seen : Bool) (c : Call)
  | taChgdet (seen : Bool) (c : Call)
  | hdmiChgdet (seen : Bool)
  | datetime (ret argc : Int) (argv : List CPtr)
  | timezone (fs : Fs) (ret argc : Int) (argv : List CPtr)

/-- An event of the cable is done with. -/
def Sys.done (s : Sys) (c : Cable) : Sys :=
  { s with pending := Function.update s.pending c (s.pending c - 1) }

/-- After an action of `ss_timemgr.c`. -/
def Sys.timed (s : Sys) (clock : Clock) : Sys :=
  { s with clock := clock }.calls (clock.pm.drop s.clock.pm.length)

/-- A statement of start-up runs. -/
def Sys.begin (s : Sys) (ok : Bool) (c : Call) : Startup → Sys
  | .usbInit => { s with daemon := (ssUsbInit (reading ok (s.online .usb)) c s.daemon).2 }
  | .taInit => { s with daemon := (ssTaInit (reading ok (s.online .ta)) s.daemon).2 }
  | .subscribe c => { s with subscribed := Function.update s.subscribed c ok }
  | .hdmiInit => hdmiChgdetCb (reading ok (s.online .hdmi)) s

/-- What the main loop does with an event of the cable. -/
def Sys.served (s : Sys) (c : Cable) (f : Sys → Sys) : Option Sys :=
  if s.startup ≠ [] ∨ s.pending c = 0 then none else some (f (s.done c))

def step (s : Sys) : Lbl → Option Sys
  | .plug c online => some { s with
      online := Function.update s.online c online
      pending := if s.subscribed c then Function.update s.pending c (s.pending c + 1)
        else s.pending }
  | .merge c => if 2 ≤ s.pending c then some (s.done c) else none
  | .init ok c =>
    match s.startup with
    | [] => none
    | st :: rest => some { s.begin ok c st with startup := rest }
  | .usbLost => s.served .usb id
  | .usbcon seen c => s.served .usb fun s => { s with
      daemon := (usbconDefPredefineAction (reading seen (s.online .usb)) c s.daemon).2 }
  | .taChgdet seen c => s.served .ta fun s => { s with
      daemon := taChgdetCb (reading seen (s.online .ta)) c s.daemon }
  | .hdmiChgdet seen => s.served .hdmi (hdmiChgdetCb (reading seen (s.online .hdmi)))
  | .datetime ret argc argv =>
    if s.startup = [] then some (s.timed (setDatetimeAction ret argc argv s.clock).2) else none
  | .timezone fs ret argc argv =>
    if s.startup = [] then some (s.timed (setTimezoneAction fs ret argc argv s.clock).2) else none

/-- Before start-up nothing is subscribed and no lock is held. -/
structure Init (s : Sys) : Prop where
  subscribed : ∀ c, s.subscribed c = false
  pending : ∀ c, s.pending c = 0
  lcdOff : s.daemon.lcdOff = false
  lcdNormal : s.lcdNormal = false
  lcdDim : s.lcdDim = false
  startup : s.startup = startUp

def lts : LTS Sys Lbl := ⟨Init, step⟩

/-! ## The locks as shared locks -/

def abs (s : Sys) : Shared.State Cable Lock := ⟨s.online, s.pending, s.held⟩

/-- What a step after start-up is to the locks. -/
def absLbl (s : Sys) : Lbl → Option (Shared.Lbl Cable Lock)
  | .plug c online => some (if s.subscribed c then .change c online else .silent c online)
  | .merge c => some (.merge c)
  | .init _ _ => none
  | .usbLost => some (.serve .usb false)
  | .usbcon seen _ => some (.serve .usb seen)
  | .taChgdet seen _ => some (.serve .ta seen)
  | .hdmiChgdet seen => some (.serve .hdmi seen)
  | .datetime ret argc _ | .timezone _ ret argc _ =>
    if argc < 1 then none else some (.passing (lockNamed (pmState ret)))

/-- While no event of a lock's cables is waiting, it is held if and only if one
of them is online. -/
def Settled (s : Sys) : Prop := Shared.Settled lockOf (abs s)

/-- The last statement of start-up finds LCD_OFF right, unless an event of its
cables is waiting, and HDMI offline if it cannot read it. -/
def EndsRight (s : Sys) (ok : Bool) : Prop :=
  (Shared.Quiet lockOf (abs s) .LCD_OFF → Shared.Right lockOf (abs s) .LCD_OFF) ∧
    (ok = false → s.pending .hdmi = 0 → s.online .hdmi = false)

def Orderly (s : Sys) : Lbl → Prop
  | .init ok _ => s.startup = [.hdmiInit] → EndsRight s ok
  | l => s.startup = [] → ∀ l' ∈ absLbl s l, Shared.Keeps lockOf (abs s) l'

instance (s : Sys) : Decidable (Settled s) := inferInstanceAs (Decidable (Shared.Settled _ _))

instance (s : Sys) (ok : Bool) : Decidable (EndsRight s ok) := inferInstanceAs (Decidable (_ ∧ _))

instance (s : Sys) : ∀ l, Decidable (Orderly s l)
  | .init ok _ => inferInstanceAs (Decidable (s.startup = [.hdmiInit] → EndsRight s ok))
  | .plug _ _ | .merge _ | .usbLost | .usbcon _ _ | .taChgdet _ _ | .hdmiChgdet _ | .datetime _ _ _
  | .timezone _ _ _ _ =>
    inferInstanceAs (Decidable (s.startup = [] → ∀ l' ∈ absLbl s _, Shared.Keeps lockOf (abs s) l'))

@[simp] theorem held_set (s : Sys) (k : Lock) (b : Bool) :
    (s.set k b).held = Function.update s.held k b := by
  funext k'
  cases k <;> cases k' <;> rfl

theorem online_set (s : Sys) (k : Lock) (b : Bool) :
    (s.set k b).online = s.online ∧ (s.set k b).pending = s.pending := by
  cases k <;> exact ⟨rfl, rfl⟩

/-- A lock that is taken and given up is given up. -/
theorem abs_calls (s : Sys) (state : Nat) : abs (s.calls [(true, state), (false, state)]) =
    ⟨s.online, s.pending, Function.update s.held (lockNamed state) false⟩ := by
  obtain ⟨h₁, h₂⟩ := online_set s (lockNamed state) true
  obtain ⟨h₃, h₄⟩ := online_set (s.set (lockNamed state) true) (lockNamed state) false
  simp only [Sys.calls, List.foldl_cons, List.foldl_nil, abs, h₁, h₂, h₃, h₄, held_set,
    Function.update_idem]

/-- The calls of a time request. -/
theorem pm_datetime (ret argc : Int) (argv : List CPtr) (s : Clock) :
    (setDatetimeAction ret argc argv s).2.pm =
      s.pm ++ if argc < 1 then [] else [(true, pmState ret), (false, pmState ret)] := by
  unfold setDatetimeAction
  split
  · exact (List.append_nil _).symm
  · unfold handleDate
    split <;> simp

theorem pm_timezone (fs : Fs) (ret argc : Int) (argv : List CPtr) (s : Clock) :
    (setTimezoneAction fs ret argc argv s).2.pm =
      s.pm ++ if argc < 1 then [] else [(true, pmState ret), (false, pmState ret)] := by
  unfold setTimezoneAction
  split
  · exact (List.append_nil _).symm
  · rfl

theorem abs_timed {s : Sys} {clock : Clock} {ret argc : Int} (h : clock.pm =
      s.clock.pm ++ if argc < 1 then [] else [(true, pmState ret), (false, pmState ret)]) :
    abs (s.timed clock) = if argc < 1 then abs s
      else ⟨s.online, s.pending, Function.update s.held (lockNamed (pmState ret)) false⟩ := by
  rw [Sys.timed, h, List.drop_left]
  split
  · rfl
  · exact abs_calls _ _

theorem lcdOff_usbcon (seen online : Bool) (c : Call) (d : Daemon) :
    (usbconDefPredefineAction (reading seen online) c d).2.lcdOff =
      if seen then online else d.lcdOff := by
  cases seen with
  | false => rfl
  | true => exact Cables.lcdOff_usbcon online c d

theorem lcdOff_taChgdet (seen online : Bool) (c : Call) (d : Daemon) :
    (taChgdetCb (reading seen online) c d).lcdOff = if seen then online else d.lcdOff := by
  cases seen with
  | false => rfl
  | true => exact Cables.lcdOff_taChgdet online c d

theorem hdmi_seen (seen online : Bool) (s : Sys) :
    hdmiChgdetCb (reading seen online) s = if seen then s.set .LCD_NORMAL online else s := by
  cases seen <;> cases online <;> rfl

/-- The daemon of a handler of `Cables` has the LCD_OFF lock. -/
theorem held_daemon (s : Sys) {d : Daemon} {seen online : Bool}
    (h : d.lcdOff = if seen then online else s.daemon.lcdOff) :
    ({ s with daemon := d } : Sys).held =
      if seen then Function.update s.held .LCD_OFF online else s.held := by
  cases seen <;> funext k <;> cases k <;> first | rfl | exact h

/-- A handler that ran serves its cable. -/
theorem abs_served {s s' : Sys} {c : Cable} {seen : Bool} (hdue : ¬ s.pending c = 0)
    (honline : s'.online = s.online) (hpending : s'.pending = (s.done c).pending)
    (hheld : s'.held = if seen then Function.update s.held (lockOf c) (s.online c) else s.held) :
    Shared.step lockOf (abs s) (.serve c seen) = some (abs s') := by
  have habs : abs s' = ⟨s.online, (s.done c).pending,
      if seen then Function.update s.held (lockOf c) (s.online c) else s.held⟩ := by
    rw [abs, honline, hpending, hheld]
  rw [habs]
  exact if_neg hdue

theorem abs_time {s : Sys} {clock : Clock} {ret argc : Int} (h : clock.pm =
      s.clock.pm ++ if argc < 1 then [] else [(true, pmState ret), (false, pmState ret)]) :
    (if argc < 1 then none else some (Shared.Lbl.passing (lockNamed (pmState ret)))) =
        (none : Option (Shared.Lbl Cable Lock)) ∧ abs (s.timed clock) = abs s ∨
      ∃ l', (if argc < 1 then none else some (Shared.Lbl.passing (lockNamed (pmState ret)))) =
        some l' ∧ Shared.step lockOf (abs s) l' = some (abs (s.timed clock)) := by
  rw [abs_timed h]
  by_cases hargc : argc < 1
  · rw [if_pos hargc, if_pos hargc]
    exact .inl ⟨rfl, rfl⟩
  · rw [if_neg hargc, if_neg hargc]
    exact .inr ⟨_, rfl, rfl⟩

/-- A change of a cable is told if its callback is subscribed. -/
theorem abs_plug (s : Sys) (c : Cable) (online : Bool) : Shared.step lockOf (abs s)
      (if s.subscribed c then .change c online else .silent c online) =
    some ⟨Function.update s.online c online, if s.subscribed c then
      Function.update s.pending c (s.pending c + 1) else s.pending, s.held⟩ := by
  cases s.subscribed c <;> rfl

/-- Every step after start-up is one of the shared locks, or does not touch
them. -/
theorem step_abs {s s' : Sys} {l : Lbl} (hstart : s.startup = []) (hst : step s l = some s') :
    absLbl s l = none ∧ abs s' = abs s ∨
      ∃ l', absLbl s l = some l' ∧ Shared.step lockOf (abs s) l' = some (abs s') := by
  cases l with
  | plug c online =>
    obtain rfl := Option.some.inj hst
    exact .inr ⟨_, rfl, abs_plug s c online⟩
  | merge c =>
    obtain ⟨htwo, rfl⟩ := Option.ite_some_none_eq_some.mp hst
    exact .inr ⟨_, rfl, if_pos htwo⟩
  | init ok c =>
    simp only [step, hstart] at hst
    cases hst
  | usbLost =>
    obtain ⟨hdue, h⟩ := Option.ite_none_left_eq_some.mp hst
    obtain rfl := Option.some.inj h
    exact .inr ⟨_, rfl, abs_served (not_or.mp hdue).2 rfl rfl rfl⟩
  | usbcon seen c =>
    obtain ⟨hdue, h⟩ := Option.ite_none_left_eq_some.mp hst
    obtain rfl := Option.some.inj h
    have hlcd := lcdOff_usbcon seen (s.online .usb) c s.daemon
    exact .inr ⟨_, rfl, abs_served (not_or.mp hdue).2 rfl rfl (held_daemon (s.done .usb) hlcd)⟩
  | taChgdet seen c =>
    obtain ⟨hdue, h⟩ := Option.ite_none_left_eq_some.mp hst
    obtain rfl := Option.some.inj h
    have hlcd := lcdOff_taChgdet seen (s.online .ta) c s.daemon
    exact .inr ⟨_, rfl, abs_served (not_or.mp hdue).2 rfl rfl (held_daemon (s.done .ta) hlcd)⟩
  | hdmiChgdet seen =>
    obtain ⟨hdue, h⟩ := Option.ite_none_left_eq_some.mp hst
    obtain rfl := Option.some.inj h
    rw [hdmi_seen]
    refine .inr ⟨_, rfl, abs_served (not_or.mp hdue).2 ?_ ?_ ?_⟩
    · cases seen <;> rfl
    · cases seen <;> rfl
    · cases seen with
      | false => rfl
      | true => exact held_set (s.done .hdmi) _ _
  | datetime ret argc argv =>
    obtain ⟨-, rfl⟩ := Option.ite_some_none_eq_some.mp hst
    exact abs_time (pm_datetime ret argc argv s.clock)
  | timezone fs ret argc argv =>
    obtain ⟨-, rfl⟩ := Option.ite_some_none_eq_some.mp hst
    exact abs_time (pm_timezone fs ret argc argv s.clock)

/-! ## Start-up -/

@[simp] theorem startup_set (s : Sys) (k : Lock) (b : Bool) : (s.set k b).startup = s.startup := by
  cases k <;> rfl

theorem startup_calls (s : Sys) (pm : List (Bool × Nat)) : (s.calls pm).startup = s.startup := by
  induction pm generalizing s with
  | nil => rfl
  | cons call pm ih => exact (ih _).trans (startup_set s _ _)

/-- A step runs a statement of start-up, or it leaves start-up as it is; during
start-up it does not take or give up a lock then. -/
theorem step_startup {s s' : Sys} {l : Lbl} (hst : step s l = some s') :
    (∃ ok c st rest, l = .init ok c ∧ s.startup = st :: rest ∧
      s' = { s.begin ok c st with startup := rest }) ∨
    (s'.startup = s.startup ∧
      (s.startup ≠ [] → s'.lcdNormal = s.lcdNormal ∧ s'.lcdDim = s.lcdDim) ∧
      (Orderly s l ↔ (s.startup = [] → ∀ l' ∈ absLbl s l, Shared.Keeps lockOf (abs s) l'))) := by
  cases l with
  | plug c online =>
    obtain rfl := Option.some.inj hst
    exact .inr ⟨rfl, fun _ => ⟨rfl, rfl⟩, Iff.rfl⟩
  | merge c =>
    obtain ⟨-, rfl⟩ := Option.ite_some_none_eq_some.mp hst
    exact .inr ⟨rfl, fun _ => ⟨rfl, rfl⟩, Iff.rfl⟩
  | init ok c =>
    simp only [step] at hst
    split at hst
    · cases hst
    · rename_i st rest hs
      obtain rfl := Option.some.inj hst
      exact .inl ⟨ok, c, st, rest, rfl, hs, rfl⟩
  | usbLost | usbcon seen c | taChgdet seen c =>
    obtain ⟨hdue, h⟩ := Option.ite_none_left_eq_some.mp hst
    obtain rfl := Option.some.inj h
    exact .inr ⟨rfl, fun hne => absurd hne (not_or.mp hdue).1, Iff.rfl⟩
  | hdmiChgdet seen =>
    obtain ⟨hdue, h⟩ := Option.ite_none_left_eq_some.mp hst
    obtain rfl := Option.some.inj h
    refine .inr ⟨?_, fun hne => absurd hne (not_or.mp hdue).1, Iff.rfl⟩
    rw [hdmi_seen]
    cases seen <;> rfl
  | datetime ret argc argv | timezone fs ret argc argv =>
    obtain ⟨hstart, rfl⟩ := Option.ite_some_none_eq_some.mp hst
    exact .inr ⟨startup_calls _ _, fun hne => absurd hstart hne, Iff.rfl⟩

/-- What holds until start-up is over. -/
structure Early (s : Sys) : Prop where
  rest : s.startup <:+ startUp
  lcdNormal : s.startup ≠ [] → s.lcdNormal = false
  lcdDim : s.startup ≠ [] → s.lcdDim = false

/-- Start-up ends with the first reading of HDMI, and nowhere else. -/
theorem last_statement {st : Startup} {rest : List Startup} (h : st :: rest <:+ startUp) :
    rest = [] ↔ st = .hdmiInit := by
  have hall : ∀ l ∈ startUp.tails, l ≠ [] → (l.tail = [] ↔ l.head? = some .hdmiInit) := by decide
  simpa using hall _ ((List.mem_tails _ _).mpr h) (List.cons_ne_nil _ _)

theorem early_init {s : Sys} (h : Init s) : Early s := by
  refine ⟨?_, fun _ => h.lcdNormal, fun _ => h.lcdDim⟩
  rw [h.startup]

theorem early_step {s s' : Sys} {l : Lbl} (h : Early s) (hst : step s l = some s') : Early s' := by
  rcases step_startup hst with ⟨ok, c, st, rest, rfl, hs, rfl⟩ | ⟨hstart, hlocks, -⟩
  · have hrest := h.rest
    have hne : s.startup ≠ [] := by simp [hs]
    rw [hs] at hrest
    -- a statement before the last one takes LCD_OFF at most
    have hkeep : rest ≠ [] → (s.begin ok c st).lcdNormal = s.lcdNormal ∧
        (s.begin ok c st).lcdDim = s.lcdDim := by
      intro hmore
      cases st with
      | hdmiInit => exact absurd ((last_statement hrest).mpr rfl) hmore
      | usbInit | taInit | subscribe => exact ⟨rfl, rfl⟩
    exact ⟨(List.suffix_cons st rest).trans hrest,
      fun hmore => (hkeep hmore).1.trans (h.lcdNormal hne),
      fun hmore => (hkeep hmore).2.trans (h.lcdDim hne)⟩
  · refine ⟨hstart ▸ h.rest, fun hne => ?_, fun hne => ?_⟩
    · rw [hstart] at hne
      exact (hlocks hne).1.trans (h.lcdNormal hne)
    · rw [hstart] at hne
      exact (hlocks hne).2.trans (h.lcdDim hne)

/-! ## When they are right -/

theorem settled_iff {s s' : Sys} {l : Lbl} (hstart : s.startup = []) (h : Settled s)
    (hst : step s l = some s') :
    Settled s' ↔ ∀ l' ∈ absLbl s l, Shared.Keeps lockOf (abs s) l' := by
  obtain ⟨hnone, habs⟩ | ⟨l', hl', hst'⟩ := step_abs hstart hst
  · rw [Settled, habs]
    refine iff_of_true h fun l' hl' => ?_
    rw [hnone] at hl'
    cases hl'
  · have hiff : Settled s' ↔ Shared.Keeps lockOf (abs s) l' := Shared.settled_iff h hst'
    rw [hiff]
    constructor
    · intro hkeeps l'' hl''
      obtain rfl := Option.some.inj (hl'.symm.trans hl'')
      exact hkeeps
    · exact fun horderly => horderly l' hl'

theorem wanted_normal (s : Sys) :
    Shared.Wanted lockOf (abs s) .LCD_NORMAL ↔ s.online .hdmi = true := by
  refine ⟨fun h => ?_, fun h => ⟨.hdmi, rfl, h⟩⟩
  obtain ⟨o, ho, hw⟩ := h
  cases o with
  | hdmi => exact hw
  | usb | ta => cases ho

theorem wanted_dim (s : Sys) : ¬ Shared.Wanted lockOf (abs s) .LCD_DIM := by
  intro h
  obtain ⟨o, ho, -⟩ := h
  cases o <;> cases ho

theorem wanted_off (s : Sys) : Shared.Wanted lockOf (abs s) .LCD_OFF ↔
    s.online .usb = true ∨ s.online .ta = true := by
  constructor
  · intro h
    obtain ⟨o, ho, hw⟩ := h
    cases o with
    | usb => exact .inl hw
    | ta => exact .inr hw
    | hdmi => cases ho
  · intro h
    rcases h with h | h
    · exact ⟨.usb, rfl, h⟩
    · exact ⟨.ta, rfl, h⟩

theorem quiet_normal (s : Sys) :
    Shared.Quiet lockOf (abs s) .LCD_NORMAL ↔ s.pending .hdmi = 0 := by
  refine ⟨fun h => h .hdmi rfl, fun h o ho => ?_⟩
  cases o with
  | hdmi => exact h
  | usb | ta => cases ho

/-- What the first reading of HDMI leaves, LCD_NORMAL and LCD_DIM not held before
it. -/
theorem settled_hdmiInit {s : Sys} (hnormal : s.lcdNormal = false) (hdim : s.lcdDim = false)
    (ok : Bool) (c : Call) (rest : List Startup) :
    Settled { s.begin ok c .hdmiInit with startup := rest } ↔ EndsRight s ok := by
  generalize hs' : ({ s.begin ok c .hdmiInit with startup := rest } : Sys) = s'
  have hread : s.begin ok c .hdmiInit = if ok then s.set .LCD_NORMAL (s.online .hdmi) else s :=
    hdmi_seen ok (s.online .hdmi) s
  rw [hread] at hs'
  have honline : s'.online = s.online := by subst hs'; cases ok <;> rfl
  have hpending : s'.pending = s.pending := by subst hs'; cases ok <;> rfl
  have hoff : s'.daemon.lcdOff = s.daemon.lcdOff := by subst hs'; cases ok <;> rfl
  have hdim' : s'.lcdDim = false := by subst hs'; cases ok <;> exact hdim
  have hnormal' : s'.lcdNormal = if ok then s.online .hdmi else false := by
    subst hs'
    cases ok with
    | false => exact hnormal
    | true => rfl
  have hheld_off : (Shared.Quiet lockOf (abs s') .LCD_OFF → Shared.Right lockOf (abs s') .LCD_OFF) ↔
      (Shared.Quiet lockOf (abs s) .LCD_OFF → Shared.Right lockOf (abs s) .LCD_OFF) := by
    refine imp_congr ?_ (iff_congr ?_ ?_)
    · simp only [Shared.Quiet, abs, hpending]
    · simp only [abs, Sys.held, hoff]
    · rw [wanted_off, wanted_off, honline]
  have hheld_normal : (Shared.Quiet lockOf (abs s') .LCD_NORMAL →
      Shared.Right lockOf (abs s') .LCD_NORMAL) ↔
        (ok = false → s.pending .hdmi = 0 → s.online .hdmi = false) := by
    rw [quiet_normal, Shared.Right, wanted_normal, hpending, honline]
    change (_ → (s'.lcdNormal = true ↔ _)) ↔ _
    rw [hnormal']
    cases ok <;> simp
  constructor
  · exact fun h => ⟨hheld_off.mp (h .LCD_OFF), hheld_normal.mp (h .LCD_NORMAL)⟩
  · intro h k
    cases k with
    | LCD_NORMAL => exact hheld_normal.mpr h.2
    | LCD_DIM => exact fun _ => iff_of_false (Bool.eq_false_iff.mp hdim') (wanted_dim s')
    | LCD_OFF => exact hheld_off.mpr h.1

/-- **One step.** The locks are settled after it, if start-up is over then, exactly
when it is orderly. -/
theorem orderly_iff {s s' : Sys} {l : Lbl} (hearly : Early s) (h : s.startup = [] → Settled s)
    (hst : step s l = some s') : (s'.startup = [] → Settled s') ↔ Orderly s l := by
  rcases step_startup hst with ⟨ok, c, st, rest, rfl, hs, rfl⟩ | ⟨hstart, -, horderly⟩
  · have hrest := hearly.rest
    have hne : s.startup ≠ [] := by simp [hs]
    rw [hs] at hrest
    have hlast : s.startup = [.hdmiInit] ↔ rest = [] := by
      rw [hs, List.cons.injEq, ← last_statement hrest, and_self_iff]
    change (rest = [] → _) ↔ (s.startup = [.hdmiInit] → EndsRight s ok)
    rw [hlast]
    refine imp_congr_right fun hnil => ?_
    obtain rfl := (last_statement hrest).mp hnil
    exact settled_hdmiInit (hearly.lcdNormal hne) (hearly.lcdDim hne) ok c rest
  · rw [hstart, horderly]
    exact imp_congr_right fun hover => settled_iff hover (h hover) hst

/-- The locks of the cables that are online, and no other. -/
def Right (s : Sys) : Prop :=
  (s.daemon.lcdOff = true ↔ s.online .usb = true ∨ s.online .ta = true) ∧
    (s.lcdNormal = true ↔ s.online .hdmi = true) ∧ s.lcdDim = false

theorem right_iff (s : Sys) : Right s ↔ ∀ k, Shared.Right lockOf (abs s) k := by
  constructor
  · intro h k
    cases k with
    | LCD_NORMAL => exact h.2.1.trans (wanted_normal s).symm
    | LCD_DIM => exact iff_of_false (Bool.eq_false_iff.mp h.2.2) (wanted_dim s)
    | LCD_OFF => exact h.1.trans (wanted_off s).symm
  · intro h
    refine ⟨(h .LCD_OFF).trans (wanted_off s), (h .LCD_NORMAL).trans (wanted_normal s), ?_⟩
    exact Bool.eq_false_iff.mpr fun hdim => wanted_dim s ((h .LCD_DIM).mp hdim)

/-- Only the charger is online. -/
def charging : Sys :=
  ⟨fun c => decide (c = .ta), fun _ => false, fun _ => 0, stopped, false, false, ⟨none, none, []⟩,
    startUp⟩

theorem init_charging : lts.init charging :=
  ⟨fun _ => rfl, fun _ => rfl, rfl, rfl, rfl, rfl⟩

/-- USB comes while start-up subscribes the callbacks. -/
def someStart : List Lbl := [.init true quiet, .init true quiet, .init true quiet, .plug .usb true,
  .init true quiet, .init true quiet, .init true quiet]

/-- HDMI comes, the date is set while the display is dimmed, the cables go. -/
def someDay : List Lbl := [.plug .hdmi true, .hdmiChgdet true, .usbcon true quiet,
  .datetime 2 1 [some ⟨0, lit "0"⟩], .plug .ta false, .plug .usb false, .usbcon true quiet,
  .taChgdet true quiet]

/-- The charger is unplugged after start-up has read it and before its callback is
subscribed: the lock stays. -/
example : ¬ lts.Meets Orderly charging ([.init true quiet, .init true quiet, .plug .ta false] ++
    List.replicate 4 (.init true quiet)) := by
  decide

/-- The timezone is set while the display is off and the charger in. -/
example : ¬ lts.Meets Orderly charging (List.replicate 6 (.init true quiet) ++
    [.timezone ⟨fun _ => .enoent, true, true⟩ 3 1 [none]]) := by
  decide

end SystemServer.L4.Screen
