import SystemServer.Core.LTS
import SystemServer.L4Device.Launch

/-!
# The power cables and the LCD_OFF lock (`ss_predefine.c`, `ss_device_change_handler.c`)

USB and the charger each have a start-up function and a handler that runs
after their events. Both handlers take the LCD_OFF lock when their own cable
is online and give it up when it is not; neither looks at the other cable,
and the lock is one per process, not counted.

`lcdOff_iff`: in a run from any start the lock is right after every handler
exactly when no handler runs for an offline cable while the other is online.

An event changes a cable and leaves its handler to run (`usbPending`,
`taPending`); the handler reads the cable as it is then. What `ta_chgdet_cb`
does before it reads the charger is in `BatMonitor`. The published USB and
charger status are left out, nothing here reads them.
-/
namespace SystemServer.L4.Cables

open SystemServer.L4.Launch

/-! ## The source -/

/-- mirrors ss_usb_handler.c:27, with the PREFIX of the package -/
def USBCON_EXEC_PATH : Bytes := lit "/usr/bin/usb-server"

def SYS_DEVICE_NOTI : Bytes := lit "/usr/bin/sys_device_noti"

/-- The LCD_OFF lock, the low battery popups shown and what was launched. -/
structure Daemon where
  lcdOff : Bool
  popups : Nat
  launched : List Launched

def pmLockState (d : Daemon) : Daemon := { d with lcdOff := true }

def pmUnlockState (d : Daemon) : Daemon := { d with lcdOff := false }

/-- What a handler meets: the battery status is below NORMAL, the outcome of a
launch, and the processes that run. -/
structure Call where
  batLow : Bool
  launch : Env
  sysmanGetPid : Bytes → Int
  params : Bytes

/-- The unlock, and the popup of a low battery.
mirrors ss_predefine.c:212-226 and ss_device_change_handler.c:102-115 -/
def unplugged (c : Call) (d : Daemon) : Daemon :=
  let d := pmUnlockState d
  if c.batLow then { d with popups := d.popups + 1 } else d

def launchIfNoexist (c : Call) (execpath : Bytes) (arg : Option Bytes) (d : Daemon) : Int × Daemon :=
  let l := ssLaunchIfNoexist c.launch c.sysmanGetPid (some execpath) arg
  (l.ret, { d with launched := d.launched ++ [l] })

/-- `online` is what `OEM_sys_get_jack_usb_online` reads, if it can.
mirrors ss_predefine.c:201-241 -/
def usbconDefPredefineAction (online : Option Int) (c : Call) (d : Daemon) : Int × Daemon :=
  match online with
  | none => (-1, d)
  | some val =>
    if val = 0 then (0, unplugged c d)
    else
      let r := launchIfNoexist c USBCON_EXEC_PATH none (pmLockState d)
      if r.1 < 0 then (-1, r.2) else r

/-- From the reading of the charger on.
mirrors ss_device_change_handler.c:94-125 -/
def taChgdetCb (online : Option Int) (c : Call) (d : Daemon) : Daemon :=
  match online with
  | none => d
  | some val =>
    if val = 0 then unplugged c d
    else (launchIfNoexist c SYS_DEVICE_NOTI (some c.params) (pmLockState d)).2

/-- The first call of `pm_lock_state` succeeds, so there is no retry.
mirrors ss_usb_handler.c:30-56 -/
def ssUsbInit (online : Option Int) (c : Call) (d : Daemon) : Int × Daemon :=
  match online with
  | none => (0, d)
  | some val =>
    if val = 1 then
      let r := launchIfNoexist c USBCON_EXEC_PATH none (pmLockState d)
      if r.1 < 0 then (-1, r.2) else (0, r.2)
    else (0, d)

/-- mirrors ss_ta_handler.c:28-50 -/
def ssTaInit (online : Option Int) (d : Daemon) : Int × Daemon :=
  match online with
  | none => (0, d)
  | some val => if val = 1 then (0, pmLockState d) else (0, d)

/-! ## Events -/

structure Power where
  usb : Bool
  ta : Bool
  usbPending : Nat
  taPending : Nat
  daemon : Daemon

/-- What a cable is read to be. -/
def jack (online : Bool) : Int := if online then 1 else 0

/-- A cable is plugged or unplugged, or the handler of an earlier event runs. -/
inductive Lbl where
  | usb (online : Bool)
  | ta (online : Bool)
  | usbcon (c : Call)
  | taChgdet (c : Call)

def step (s : Power) : Lbl → Option Power
  | .usb online => some { s with usb := online, usbPending := s.usbPending + 1 }
  | .ta online => some { s with ta := online, taPending := s.taPending + 1 }
  | .usbcon c =>
    if s.usbPending = 0 then none
    else some { s with
      usbPending := s.usbPending - 1
      daemon := (usbconDefPredefineAction (some (jack s.usb)) c s.daemon).2 }
  | .taChgdet c =>
    if s.taPending = 0 then none
    else some { s with
      taPending := s.taPending - 1
      daemon := taChgdetCb (some (jack s.ta)) c s.daemon }

def stopped : Daemon := ⟨false, 0, []⟩

/-- After the start with the cables as they are.
mirrors ss_main.c:79-80 -/
def started (usb ta : Bool) (c : Call) : Power :=
  ⟨usb, ta, 0, 0, (ssTaInit (some (jack ta)) (ssUsbInit (some (jack usb)) c stopped).2).2⟩

def lts : LTS Power Lbl := ⟨fun s => ∃ usb ta c, s = started usb ta c, step⟩

/-- The lock is held if and only if a cable is online. -/
def Follows (s : Power) : Prop := s.daemon.lcdOff = true ↔ s.usb = true ∨ s.ta = true

instance (s : Power) : Decidable (Follows s) :=
  inferInstanceAs (Decidable (s.daemon.lcdOff = true ↔ s.usb = true ∨ s.ta = true))

/-- A handler leaves the lock right. -/
def Right : Power → Lbl → Power → Prop
  | _, .usbcon _, s' => Follows s'
  | _, .taChgdet _, s' => Follows s'
  | _, _, _ => True

instance : ∀ s l s', Decidable (Right s l s')
  | _, .usbcon _, s' => inferInstanceAs (Decidable (Follows s'))
  | _, .taChgdet _, s' => inferInstanceAs (Decidable (Follows s'))
  | _, .usb _, _ => .isTrue trivial
  | _, .ta _, _ => .isTrue trivial

/-- The handler's own cable is online, or the other one is not. -/
def OwnOrNone (s : Power) : Lbl → Prop
  | .usbcon _ => s.usb = true ∨ s.ta = false
  | .taChgdet _ => s.ta = true ∨ s.usb = false
  | _ => True

instance (s : Power) : ∀ l, Decidable (OwnOrNone s l)
  | .usbcon _ => inferInstanceAs (Decidable (s.usb = true ∨ s.ta = false))
  | .taChgdet _ => inferInstanceAs (Decidable (s.ta = true ∨ s.usb = false))
  | .usb _ => .isTrue trivial
  | .ta _ => .isTrue trivial

/-! ## The lock -/

@[simp] theorem lcdOff_unplugged (c : Call) (d : Daemon) : (unplugged c d).lcdOff = false := by
  unfold unplugged
  cases c.batLow <;> rfl

@[simp] theorem lcdOff_launch (c : Call) (path : Bytes) (arg : Option Bytes) (d : Daemon) :
    (launchIfNoexist c path arg d).2.lcdOff = d.lcdOff := rfl

/-- The launch of usb-server. -/
def usbLaunch (c : Call) : Launched :=
  ssLaunchIfNoexist c.launch c.sysmanGetPid (some USBCON_EXEC_PATH) none

/-- The USB handler with the cable online: the lock, and the launch. -/
theorem usbcon_online (c : Call) (d : Daemon) : usbconDefPredefineAction (some (jack true)) c d =
    (if (usbLaunch c).ret < 0 then -1 else (usbLaunch c).ret,
      ⟨true, d.popups, d.launched ++ [usbLaunch c]⟩) := by
  simp only [usbconDefPredefineAction, jack, if_true, one_ne_zero, if_false]
  split
  · rename_i hneg
    rw [if_pos (show (usbLaunch c).ret < 0 from hneg)]
    rfl
  · rename_i hneg
    rw [if_neg (show ¬ (usbLaunch c).ret < 0 from hneg)]
    rfl

theorem usbcon_offline (c : Call) (d : Daemon) :
    usbconDefPredefineAction (some (jack false)) c d = (0, unplugged c d) := by
  simp [usbconDefPredefineAction, jack]

/-- After a handler the lock says what the handler's own cable is. -/
theorem lcdOff_usbcon (online : Bool) (c : Call) (d : Daemon) :
    (usbconDefPredefineAction (some (jack online)) c d).2.lcdOff = online := by
  cases online with
  | false => rw [usbcon_offline, lcdOff_unplugged]
  | true => rw [usbcon_online]

theorem lcdOff_taChgdet (online : Bool) (c : Call) (d : Daemon) :
    (taChgdetCb (some (jack online)) c d).lcdOff = online := by
  cases online <;> simp [taChgdetCb, jack, pmLockState]

theorem lcdOff_usbInit (online : Bool) (c : Call) (d : Daemon) :
    (ssUsbInit (some (jack online)) c d).2.lcdOff = (online || d.lcdOff) := by
  cases online with
  | false => simp [ssUsbInit, jack]
  | true =>
    simp only [ssUsbInit, jack, if_true, Bool.true_or]
    split <;> simp [pmLockState]

theorem lcdOff_taInit (online : Bool) (d : Daemon) :
    (ssTaInit (some (jack online)) d).2.lcdOff = (online || d.lcdOff) := by
  cases online <;> simp [ssTaInit, jack, pmLockState]

/-- The start-up functions only ever take the lock, so after them it is right. -/
theorem follows_started (usb ta : Bool) (c : Call) : Follows (started usb ta c) := by
  simp [Follows, started, lcdOff_taInit, lcdOff_usbInit, stopped, or_comm]

/-- A handler leaves the lock right exactly under the condition. -/
theorem right_iff {s s' : Power} {l : Lbl} (hst : step s l = some s') :
    Right s l s' ↔ OwnOrNone s l := by
  cases l with
  | usb online => exact Iff.rfl
  | ta online => exact Iff.rfl
  | usbcon c =>
    obtain ⟨-, hst⟩ := Option.ite_none_left_eq_some.mp hst
    obtain rfl := Option.some.inj hst
    simp only [Right, Follows, OwnOrNone, lcdOff_usbcon]
    cases s.usb <;> simp
  | taChgdet c =>
    obtain ⟨-, hst⟩ := Option.ite_none_left_eq_some.mp hst
    obtain rfl := Option.some.inj hst
    simp only [Right, Follows, OwnOrNone, lcdOff_taChgdet]
    cases s.ta <;> simp

theorem along_right_iff (s : Power) (ls : List Lbl) :
    lts.Along Right s ls ↔ lts.Meets OwnOrNone s ls := by
  have hok : ∀ s l s', True → lts.step s l = some s' → (Right s l s' ↔ OwnOrNone s l) :=
    fun _ _ _ _ hst => right_iff hst
  exact LTS.along_iff hok (fun _ _ _ _ _ _ => trivial) trivial ls

/-- **The LCD_OFF lock.** After the start-up it is held if and only if a cable
is online; in every run from there it is so after every handler exactly when
no handler runs for an offline cable while the other one is online. -/
theorem lcdOff_iff (s₀ : Power) (h₀ : lts.init s₀) (ls : List Lbl) :
    Follows s₀ ∧ (lts.Along Right s₀ ls ↔ lts.Meets OwnOrNone s₀ ls) := by
  obtain ⟨usb, ta, c, rfl⟩ := h₀
  exact ⟨follows_started usb ta c, along_right_iff _ ls⟩

/-- A call with nothing out of the ordinary. -/
def quiet : Call :=
  ⟨false, ⟨fun _ => true, some fun _ => 0, some fun _ => 0, fun _ => true, 7, .inr (by decide), true⟩,
    fun _ => 0, lit "1"⟩

/-- The charger comes and goes with USB offline. -/
theorem lcdOff_charger : (lts.run (started false false quiet)
      [.ta true, .taChgdet quiet, .ta false, .taChgdet quiet]).isSome ∧
    lts.Along Right (started false false quiet)
      [.ta true, .taChgdet quiet, .ta false, .taChgdet quiet] :=
  ⟨by decide, (lcdOff_iff _ ⟨false, false, quiet, rfl⟩ _).2.mpr (by decide)⟩

/-- USB is unplugged while the charger stays. -/
theorem lcdOff_lost : ((lts.run (started true true quiet) [.usb false, .usbcon quiet]).map
      fun s => (s.usb, s.ta, s.daemon.lcdOff)) = some (false, true, false) ∧
    ¬ lts.Along Right (started true true quiet) [.usb false, .usbcon quiet] := by decide

end SystemServer.L4.Cables
