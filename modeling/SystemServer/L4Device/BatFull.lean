import SystemServer.Core.LTS
import SystemServer.L4Device.Cables

/-!
# The battery full notification (`ss_device_change_handler.c`, `sys_device_noti.c`)

`charge_cb` has the helper sys_device_noti put up the battery full
notification and take it down again. `bat_full_noti` is to say which of the
two was asked for last. It is set next to the launch and not by it, and
`ss_launch_if_noexist` starts nothing while any sys_device_noti runs: one that
plays the sound of a cable that was plugged is enough.

`batFull_iff`: in a run from the start the flag agrees with the last battery
full command that a helper was started with, after every `charge_cb`, exactly
when every command that falls due meets no helper and a launch that nothing
stops.

A helper counts as running from its launch, or from a start by somebody else,
to its exit. The call of the battery monitor and the PREDEF_LOWBAT request are
in `BatMonitor`; the readings a callback makes come with its label.
-/
namespace SystemServer.L4.BatFull

open SystemServer.L4.Launch
open SystemServer.L4.Cables (Call Daemon SYS_DEVICE_NOTI launchIfNoexist)

/-! ## The source -/

/-- mirrors sys_device_noti/sys_device_noti.h:19-28 -/
def CB_NOTI_BATT_CHARGE : Nat := 0
def CB_NOTI_BATT_FULL : Nat := 2
def CB_NOTI_OFF : Nat := 0
def CB_NOTI_ON : Nat := 1

/-- The health values that the platform's headers define. -/
structure Platform where
  BATTERY_OVERHEAT : Int
  BATTERY_COLD : Int

/-- What a `charge_cb` reads: the return value of `OEM_sys_get_battery_health`,
and what `val` holds after it and after `OEM_sys_get_battery_charge_full`. -/
structure Reading where
  healthRet : Int
  health : Int
  full : Int

/-- The flag, what was launched, and the helpers that run, by their pids. -/
structure Battery where
  batFullNoti : Int
  daemon : Daemon
  running : List Int

/-- The helper of a launch; a child that cannot become one is none. -/
def child (l : Launched) : Option Int := if l.image.isSome then some l.ret else none

/-- The state after a callback has launched what `d` says. -/
def Battery.launch (s : Battery) (d : Daemon) : Battery :=
  { s with
    daemon := d
    running := s.running ++ (d.launched.drop s.daemon.launched.length).filterMap child }

/-- `ss_launch_if_noexist("/usr/bin/sys_device_noti", params)` -/
def noti (c : Call) (params : Bytes) (s : Battery) : Battery :=
  s.launch (launchIfNoexist c SYS_DEVICE_NOTI (some params) s.daemon).2

/-- `"%d"` of CB_NOTI_BATT_CHARGE. -/
def chargeParams : Bytes := lit (toString CB_NOTI_BATT_CHARGE)

/-- `"%d %d"` of CB_NOTI_BATT_FULL and `on`. -/
def fullParams (on : Nat) : Bytes := lit (toString CB_NOTI_BATT_FULL ++ " " ++ toString on)

/-- mirrors ss_device_change_handler.c:379-402 -/
def chargeCb (P : Platform) (r : Reading) (c : Call) (s : Battery) : Battery :=
  if r.healthRet = 0 ∧ (r.health = P.BATTERY_OVERHEAT ∨ r.health = P.BATTERY_COLD) then s
  else if r.full = 0 then
    let s := if s.batFullNoti = 1 then noti c (fullParams CB_NOTI_OFF) s else s
    { s with batFullNoti := 0 }
  else if r.full = 1 ∧ s.batFullNoti = 0 then
    noti c (fullParams CB_NOTI_ON) { s with batFullNoti := 1 }
  else s

/-- `online` is what `OEM_sys_get_jack_usb_online` reads, if it can.
mirrors ss_device_change_handler.c:76-82 -/
def usbChgdetCb (online : Option Int) (c : Call) (s : Battery) : Battery :=
  if online = some 1 then noti c chargeParams s else s

/-- mirrors ss_device_change_handler.c:94-125 -/
def taChgdetCb (online : Option Int) (c : Call) (s : Battery) : Battery :=
  s.launch (Cables.taChgdetCb online { c with params := chargeParams } s.daemon)

/-- `argc` and `argv` of a process: the vector up to the first NULL. -/
def processArgs : List (Option Bytes) → List Bytes
  | some a :: rest => a :: processArgs rest
  | _ => []

/-- What `main` of sys_device_noti hands `battery_full_noti`, if it calls it.
mirrors sys_device_noti/sys_device_noti.c:142-168 -/
def main (argv : List Bytes) : Option Int :=
  let bNoti := if argv.length = 3 then atoi (argv[2]?.getD []) else -1
  match argv[1]? with
  | none => none
  | some cbType => if atoi cbType = CB_NOTI_BATT_FULL then some bNoti else none

/-- The battery full command of a launch. -/
def command (l : Launched) : Option Int := l.image.bind fun x => main (processArgs x.2)

/-- The last battery full command that was launched. -/
def lastCommand (launched : List Launched) : Option Int := (launched.filterMap command).getLast?

/-! ## Runs -/

inductive Lbl where
  | charge (r : Reading) (c : Call)
  | usb (online : Option Int) (c : Call)
  | ta (online : Option Int) (c : Call)
  | start (pid : Int)
  | exit (pid : Int)

/-- `sysman_get_pid` finds a helper while one runs. -/
def Finds (s : Battery) (c : Call) : Prop := 0 < c.sysmanGetPid SYS_DEVICE_NOTI ↔ s.running ≠ []

instance (s : Battery) (c : Call) : Decidable (Finds s c) :=
  inferInstanceAs (Decidable (_ ↔ _))

def step (P : Platform) (s : Battery) : Lbl → Option Battery
  | .charge r c => if Finds s c then some (chargeCb P r c s) else none
  | .usb online c => if Finds s c then some (usbChgdetCb online c s) else none
  | .ta online c => if Finds s c then some (taChgdetCb online c s) else none
  | .start pid => some { s with running := s.running ++ [pid] }
  | .exit pid => if pid ∈ s.running then some { s with running := s.running.erase pid } else none

/-- At the start the flag is 0 and nothing was launched. -/
structure Init (s : Battery) : Prop where
  batFullNoti : s.batFullNoti = 0
  launched : s.daemon.launched = []

def lts (P : Platform) : LTS Battery Lbl := ⟨Init, step P⟩

/-- The flag is 1 if and only if the last command was ON. -/
def Agrees (s : Battery) : Prop :=
  s.batFullNoti = 1 ↔ lastCommand s.daemon.launched = some (CB_NOTI_ON : Int)

/-- A `charge_cb` leaves the flag right. -/
def Right : Battery → Lbl → Battery → Prop
  | _, .charge _ _, s' => Agrees s'
  | _, _, _ => True

instance (s : Battery) : Decidable (Agrees s) :=
  inferInstanceAs (Decidable (s.batFullNoti = 1 ↔ lastCommand s.daemon.launched = some (CB_NOTI_ON : Int)))

instance : ∀ s l s', Decidable (Right s l s')
  | _, .charge _ _, s' => inferInstanceAs (Decidable (Agrees s'))
  | _, .usb _ _, _ => .isTrue trivial
  | _, .ta _ _, _ => .isTrue trivial
  | _, .start _, _ => .isTrue trivial
  | _, .exit _, _ => .isTrue trivial

/-- The health is good or cannot be read. -/
def Reading.Healthy (P : Platform) (r : Reading) : Prop :=
  ¬ (r.healthRet = 0 ∧ (r.health = P.BATTERY_OVERHEAT ∨ r.health = P.BATTERY_COLD))

/-- The command that falls due, by the flag and the reading. -/
def Due (P : Platform) (s : Battery) (r : Reading) (on : Nat) : Prop :=
  r.Healthy P ∧
    (on = CB_NOTI_OFF ∧ r.full = 0 ∧ s.batFullNoti = 1 ∨
      on = CB_NOTI_ON ∧ r.full = 1 ∧ s.batFullNoti = 0)

/-- Nothing stops the launch of the helper with the first `n` words. -/
structure Goes (E : Env) (n : Nat) : Prop where
  access : E.access SYS_DEVICE_NOTI = true
  lineMalloc : E.lineMalloc.isSome
  tokenMalloc : E.tokenMalloc.isSome
  strdup : ∀ i < n, E.strdup i = true
  fork : E.fork ≠ -1
  exec : E.exec = true

/-- A command that falls due meets no helper, and its launch is not stopped;
OFF is understood without its second word. -/
def Unhindered (P : Platform) (s : Battery) : Lbl → Prop
  | .charge r c => ∀ on, Due P s r on → s.running = [] ∧ Goes c.launch (2 + on)
  | _ => True

/-! ## What a launch comes to -/

/-- The launch of the helper with some parameters. -/
def launchOf (c : Call) (params : Bytes) : Launched :=
  ssLaunchIfNoexist c.launch c.sysmanGetPid (some SYS_DEVICE_NOTI) (some params)

/-- The file is the first slot of the vector. -/
theorem slots_head (strdup : Nat → Bool) (t : Bytes) (ws : List Bytes) :
    (slots strdup (MAX_ARGS + 1) (t :: ws) ++ [none])[0]?.join = dup strdup 0 t := by
  simp [slots]

theorem launchApp_iff (E : Env) (argv : List (Option Bytes)) (x : Bytes × List (Option Bytes)) :
    (launchAppWithNice E (dup E.strdup 0 SYS_DEVICE_NOTI) argv).image = some x ↔
      E.access SYS_DEVICE_NOTI = true ∧ E.fork ≠ -1 ∧ E.exec = true ∧ E.strdup 0 = true ∧
        x = (SYS_DEVICE_NOTI, argv) := by
  cases hdup : E.strdup 0 with
  | false => simp [dup, hdup, launchAppWithNice, Launched.failed, Launched.image]
  | true =>
    cases haccess : E.access SYS_DEVICE_NOTI with
    | false => simp [dup, hdup, launchAppWithNice, haccess, Launched.failed, Launched.image]
    | true =>
      by_cases hfork : E.fork = -1
      · simp [dup, hdup, launchAppWithNice, haccess, hfork, Launched.failed, Launched.image]
      · cases hexec : E.exec with
        | false => simp [dup, hdup, launchAppWithNice, haccess, hfork, hexec, Launched.image]
        | true => simp [dup, hdup, launchAppWithNice, haccess, hfork, hexec, Launched.image, eq_comm]

/-- Where no helper is found the child becomes one if nothing stops it. -/
theorem image_iff {c : Call} {params : Bytes} {ws : List Bytes}
    (hws : words (commandLine SYS_DEVICE_NOTI params) = SYS_DEVICE_NOTI :: ws)
    (x : Bytes × List (Option Bytes)) :
    (launchOf c params).image = some x ↔
      c.sysmanGetPid SYS_DEVICE_NOTI ≤ 0 ∧ Goes c.launch 1 ∧
        x = (SYS_DEVICE_NOTI, slots c.launch.strdup (MAX_ARGS + 1) (SYS_DEVICE_NOTI :: ws) ++ [none]) := by
  have hne : cstr (commandLine SYS_DEVICE_NOTI params) ≠ [] := by
    rw [cstr_commandLine, commandLine_eq]
    simp
  by_cases hpid : c.sysmanGetPid SYS_DEVICE_NOTI > 0
  · rw [launchOf, ssLaunchIfNoexist, if_pos hpid]
    refine iff_of_false (by simp [Launched.image]) fun h => ?_
    omega
  rw [launchOf, ssLaunchIfNoexist, if_neg hpid]
  simp only [ssLaunchEvenifExist, Option.getD_some]
  cases hline : c.launch.lineMalloc with
  | none =>
    refine iff_of_false (by simp [malloc, Launched.failed, Launched.image]) fun h => ?_
    have := h.2.1.lineMalloc
    rw [hline] at this
    cases this
  | some junk₁ =>
    cases htoken : c.launch.tokenMalloc with
    | none =>
      refine iff_of_false ?_ fun h => ?_
      · simp [malloc, launchAppCmdWithNice, htoken, parseCmd, Launched.failed, Launched.image]
      · have := h.2.1.tokenMalloc
        rw [htoken] at this
        cases this
    | some junk₂ =>
      simp only [malloc, Option.map_some, launchAppCmdWithNice, htoken,
        parseCmd_eq junk₂ c.launch.strdup hne, cstr_commandLine, hws]
      rw [if_neg (by omega), slots_head]
      refine (launchApp_iff c.launch _ x).trans ⟨fun h => ?_, fun h => ?_⟩
      · obtain ⟨haccess, hfork, hexec, hdup, rfl⟩ := h
        refine ⟨by omega, ⟨haccess, by simp [hline], by simp [htoken], fun i hi => ?_, hfork, hexec⟩,
          rfl⟩
        obtain rfl : i = 0 := by omega
        exact hdup
      · obtain ⟨-, hgoes, rfl⟩ := h
        exact ⟨hgoes.access, hgoes.fork, hgoes.exec, hgoes.strdup 0 (by omega), rfl⟩

/-- The command of a launch is what `main` makes of the words. -/
theorem command_iff {c : Call} {params : Bytes} {ws : List Bytes}
    (hws : words (commandLine SYS_DEVICE_NOTI params) = SYS_DEVICE_NOTI :: ws) (bNoti : Int) :
    command (launchOf c params) = some bNoti ↔
      c.sysmanGetPid SYS_DEVICE_NOTI ≤ 0 ∧ Goes c.launch 1 ∧
        main (processArgs (slots c.launch.strdup (MAX_ARGS + 1) (SYS_DEVICE_NOTI :: ws) ++ [none])) =
          some bNoti := by
  rw [command, Option.bind_eq_some_iff]
  constructor
  · intro h
    obtain ⟨x, hx, hmain⟩ := h
    obtain ⟨hpid, hgoes, rfl⟩ := (image_iff hws x).mp hx
    exact ⟨hpid, hgoes, hmain⟩
  · intro h
    exact ⟨_, (image_iff hws _).mpr ⟨h.1, h.2.1, rfl⟩, h.2.2⟩

theorem words_charge : words (commandLine SYS_DEVICE_NOTI chargeParams) = [SYS_DEVICE_NOTI, lit "0"] := by
  decide

/-- The two words, whichever the command is. -/
theorem words_full {on : Nat} (hon : on = CB_NOTI_OFF ∨ on = CB_NOTI_ON) :
    ∃ b, words (commandLine SYS_DEVICE_NOTI (fullParams on)) = [SYS_DEVICE_NOTI, lit "2", b] ∧
      atoi b = on := by
  obtain rfl | rfl := hon
  · exact ⟨lit "0", by decide, by decide⟩
  · exact ⟨lit "1", by decide, by decide⟩

theorem goes_succ {E : Env} {n : Nat} : Goes E (n + 1) ↔ Goes E n ∧ E.strdup n = true := by
  constructor
  · intro h
    exact ⟨⟨h.access, h.lineMalloc, h.tokenMalloc, fun i hi => h.strdup i (by omega), h.fork,
      h.exec⟩, h.strdup n (by omega)⟩
  · intro h
    refine ⟨h.1.access, h.1.lineMalloc, h.1.tokenMalloc, fun i hi => ?_, h.1.fork, h.1.exec⟩
    by_cases hn : i = n
    · rw [hn]
      exact h.2
    · exact h.1.strdup i (by omega)

/-- The arguments end before the first copy that failed. -/
theorem processArgs_slots (strdup : Nat → Bool) (h : strdup 0 = true) (a : Bytes) (ws : List Bytes)
    (hws : ws.length ≤ 1) :
    processArgs (slots strdup (MAX_ARGS + 1) (SYS_DEVICE_NOTI :: a :: ws) ++ [none]) =
      SYS_DEVICE_NOTI :: if strdup 1 then a :: (if strdup 2 then ws else []) else [] := by
  cases h₁ : strdup 1 with
  | false => simp [slots, MAX_ARGS, dup, h, h₁, processArgs]
  | true =>
    cases ws with
    | nil => cases strdup 2 <;> simp [slots, MAX_ARGS, dup, h, h₁, processArgs]
    | cons b ws =>
      obtain rfl : ws = [] := List.length_eq_zero_iff.mp (by simpa using hws)
      cases h₂ : strdup 2 <;> simp [slots, MAX_ARGS, dup, h, h₁, h₂, processArgs]

/-- A cable's helper is given no battery full command. -/
theorem command_charge (c : Call) : command (launchOf c chargeParams) = none := by
  refine Option.eq_none_iff_forall_ne_some.mpr fun bNoti h => ?_
  obtain ⟨-, hgoes, hmain⟩ := (command_iff words_charge bNoti).mp h
  rw [processArgs_slots _ (hgoes.strdup 0 (by omega)) _ _ (by simp)] at hmain
  cases h₁ : c.launch.strdup 1 with
  | false =>
    rw [h₁] at hmain
    cases hmain
  | true =>
    rw [h₁, if_pos rfl, ite_self] at hmain
    cases hmain

/-- A battery full command needs two words; without the third one it is taken
for -1. -/
theorem command_full {on : Nat} (hon : on = CB_NOTI_OFF ∨ on = CB_NOTI_ON) (c : Call) (bNoti : Int) :
    command (launchOf c (fullParams on)) = some bNoti ↔
      c.sysmanGetPid SYS_DEVICE_NOTI ≤ 0 ∧ Goes c.launch 2 ∧
        bNoti = if c.launch.strdup 2 then (on : Int) else -1 := by
  obtain ⟨b, hws, hb⟩ := words_full hon
  rw [command_iff hws, goes_succ (n := 1), and_assoc (a := Goes c.launch 1)]
  refine and_congr_right fun _ => and_congr_right fun hgoes => ?_
  rw [processArgs_slots _ (hgoes.strdup 0 (by omega)) _ _ (by simp)]
  have htype : atoi (lit "2") = (CB_NOTI_BATT_FULL : Int) := by decide
  cases c.launch.strdup 1 with
  | false => simp [main]
  | true => cases c.launch.strdup 2 <;> simp [main, htype, hb, eq_comm]

/-- What is understood as ON was ON, and all of it arrived. -/
theorem command_on {on : Nat} (hon : on = CB_NOTI_OFF ∨ on = CB_NOTI_ON) (c : Call) :
    command (launchOf c (fullParams on)) = some (CB_NOTI_ON : Int) ↔
      on = CB_NOTI_ON ∧ c.sysmanGetPid SYS_DEVICE_NOTI ≤ 0 ∧ Goes c.launch 3 := by
  rw [command_full hon, goes_succ (n := 2)]
  cases c.launch.strdup 2 with
  | false => simp [CB_NOTI_ON]
  | true =>
    rw [if_pos rfl, Nat.cast_inj]
    tauto

/-- The launch leaves a command if no helper is found and two words arrive. -/
theorem command_isSome {on : Nat} (hon : on = CB_NOTI_OFF ∨ on = CB_NOTI_ON) (c : Call) :
    (command (launchOf c (fullParams on))).isSome ↔
      c.sysmanGetPid SYS_DEVICE_NOTI ≤ 0 ∧ Goes c.launch 2 := by
  rw [Option.isSome_iff_exists]
  constructor
  · intro h
    obtain ⟨bNoti, h⟩ := h
    obtain ⟨hpid, hgoes, -⟩ := (command_full hon c bNoti).mp h
    exact ⟨hpid, hgoes⟩
  · intro h
    exact ⟨_, (command_full hon c _).mpr ⟨h.1, h.2, rfl⟩⟩

/-! ## The flag -/

theorem launched_noti (c : Call) (params : Bytes) (s : Battery) :
    (noti c params s).daemon.launched = s.daemon.launched ++ [launchOf c params] := rfl

/-- A launch without a command changes nothing. -/
theorem lastCommand_concat (launched : List Launched) (l : Launched) :
    lastCommand (launched ++ [l]) = (command l).or (lastCommand launched) := by
  unfold lastCommand
  rw [List.filterMap_append]
  cases h : command l with
  | none => simp [h]
  | some bNoti => simp [h]

/-- What a cable has launched is no command. -/
theorem lastCommand_charge (launched : List Launched) (c : Call) :
    lastCommand (launched ++ [launchOf c chargeParams]) = lastCommand launched := by
  rw [lastCommand_concat, command_charge]
  rfl

theorem agrees_usb (online : Option Int) (c : Call) (s : Battery) :
    Agrees (usbChgdetCb online c s) ↔ Agrees s := by
  unfold usbChgdetCb
  split
  · unfold Agrees
    rw [launched_noti, lastCommand_charge]
    exact Iff.rfl
  · exact Iff.rfl

theorem agrees_ta (online : Option Int) (c : Call) (s : Battery) :
    Agrees (taChgdetCb online c s) ↔ Agrees s := by
  have hlast : lastCommand (taChgdetCb online c s).daemon.launched =
      lastCommand s.daemon.launched := by
    show lastCommand (Cables.taChgdetCb online { c with params := chargeParams } s.daemon).launched =
      lastCommand s.daemon.launched
    unfold Cables.taChgdetCb
    cases online with
    | none => rfl
    | some val =>
      by_cases hval : val = 0
      · simp only [if_pos hval, Cables.unplugged]
        split <;> rfl
      · simp only [if_neg hval]
        exact lastCommand_charge s.daemon.launched { c with params := chargeParams }
  unfold Agrees
  rw [hlast]
  exact Iff.rfl

theorem due_unique {P : Platform} {s : Battery} {r : Reading} {on on' : Nat} (h : Due P s r on)
    (h' : Due P s r on') : on = on' := by
  obtain ⟨rfl, hfull, -⟩ | ⟨rfl, hfull, -⟩ := h.2 <;>
    obtain ⟨rfl, hfull', -⟩ | ⟨rfl, hfull', -⟩ := h'.2 <;> first | rfl | omega

/-- Where no command falls due, both stay as they are. -/
theorem agrees_idle {P : Platform} {r : Reading} {s : Battery} (c : Call) (hs : Agrees s)
    (h : ∀ on, ¬ Due P s r on) : Agrees (chargeCb P r c s) := by
  unfold chargeCb
  by_cases hhealth : r.healthRet = 0 ∧ (r.health = P.BATTERY_OVERHEAT ∨ r.health = P.BATTERY_COLD)
  · rw [if_pos hhealth]
    exact hs
  rw [if_neg hhealth]
  by_cases hzero : r.full = 0
  · have hflag : s.batFullNoti ≠ 1 := fun hflag => h _ ⟨hhealth, .inl ⟨rfl, hzero, hflag⟩⟩
    rw [if_pos hzero, if_neg hflag]
    exact iff_of_false (by simp) fun hlast => hflag (hs.mpr hlast)
  · rw [if_neg hzero, if_neg fun hone => h _ ⟨hhealth, .inr ⟨rfl, hone.1, hone.2⟩⟩]
    exact hs

/-- A command that falls due. -/
theorem chargeCb_due {P : Platform} {r : Reading} {s : Battery} {on : Nat} (c : Call)
    (h : Due P s r on) :
    (chargeCb P r c s).batFullNoti = on ∧
      (chargeCb P r c s).daemon.launched = s.daemon.launched ++ [launchOf c (fullParams on)] := by
  unfold chargeCb
  rw [if_neg h.1]
  obtain ⟨rfl, hzero, hflag⟩ | ⟨rfl, hone, hflag⟩ := h.2
  · rw [if_pos hzero, if_pos hflag]
    exact ⟨rfl, launched_noti c _ s⟩
  · rw [if_neg (by omega), if_pos ⟨hone, hflag⟩]
    exact ⟨rfl, launched_noti c _ _⟩

theorem agrees_due {P : Platform} {r : Reading} {s : Battery} {on : Nat} (c : Call) (hs : Agrees s)
    (h : Due P s r on) : Agrees (chargeCb P r c s) ↔
      c.sysmanGetPid SYS_DEVICE_NOTI ≤ 0 ∧ Goes c.launch (2 + on) := by
  obtain ⟨hflag', hlaunched⟩ := chargeCb_due c h
  rw [Agrees, hflag', hlaunched, lastCommand_concat]
  obtain ⟨rfl, -, hflag⟩ | ⟨rfl, -, hflag⟩ := h.2
  · rw [hs.mp hflag]
    refine Iff.trans ?_ (command_isSome (.inl rfl) c)
    have hoff := command_on (.inl rfl) c
    cases hcommand : command (launchOf c (fullParams CB_NOTI_OFF)) with
    | none => simp [CB_NOTI_OFF]
    | some bNoti =>
      have hne : bNoti ≠ CB_NOTI_ON := by
        intro hbNoti
        rw [hbNoti] at hcommand
        exact absurd (hoff.mp hcommand).1 (by decide)
      simp [CB_NOTI_OFF, hne]
  · refine Iff.trans ?_ ((command_on (.inr rfl) c).trans (and_iff_right rfl))
    have hlast : lastCommand s.daemon.launched ≠ some (CB_NOTI_ON : Int) := by
      intro hlast
      have := hs.mpr hlast
      omega
    cases hcommand : command (launchOf c (fullParams CB_NOTI_ON)) with
    | none => simpa [CB_NOTI_ON] using hlast
    | some bNoti => simp [CB_NOTI_ON]

/-- A step under the invariant leaves the flag right exactly when a command
that falls due is launched. -/
theorem right_iff {P : Platform} (s : Battery) (l : Lbl) (s' : Battery) (hs : Agrees s)
    (hst : (lts P).step s l = some s') : Right s l s' ↔ Unhindered P s l := by
  cases l with
  | usb online c => exact Iff.rfl
  | ta online c => exact Iff.rfl
  | start pid => exact Iff.rfl
  | exit pid => exact Iff.rfl
  | charge r c =>
    obtain ⟨hfinds, rfl⟩ := Option.ite_some_none_eq_some.mp hst
    have hfree : s.running = [] ↔ c.sysmanGetPid SYS_DEVICE_NOTI ≤ 0 := by
      rw [← not_lt, ← not_iff_not, not_not]
      exact hfinds.symm
    by_cases hdue : ∃ on, Due P s r on
    · obtain ⟨on, hdue⟩ := hdue
      refine (agrees_due c hs hdue).trans ⟨fun h on' hdue' => ?_, fun h => ?_⟩
      · obtain rfl : on = on' := due_unique hdue hdue'
        exact ⟨hfree.mpr h.1, h.2⟩
      · exact ⟨hfree.mp (h on hdue).1, (h on hdue).2⟩
    · exact iff_of_true (agrees_idle c hs fun on h => hdue ⟨on, h⟩) fun on h => absurd ⟨on, h⟩ hdue

theorem agrees_guarded (P : Platform) : (lts P).Guarded (Unhindered P) Agrees := by
  intro s l s' hs hc hst
  cases l with
  | charge r c => exact (right_iff s (.charge r c) s' hs hst).mpr hc
  | usb online c =>
    obtain ⟨-, rfl⟩ := Option.ite_some_none_eq_some.mp hst
    exact (agrees_usb online c s).mpr hs
  | ta online c =>
    obtain ⟨-, rfl⟩ := Option.ite_some_none_eq_some.mp hst
    exact (agrees_ta online c s).mpr hs
  | start pid =>
    obtain rfl := Option.some.inj hst
    exact hs
  | exit pid =>
    obtain ⟨-, rfl⟩ := Option.ite_some_none_eq_some.mp hst
    exact hs

/-- **The battery full notification.** In every run from the start
`bat_full_noti` is 1 after each `charge_cb` if and only if the last battery
full command that a helper was launched with was ON, exactly when no helper
runs and nothing stops the launch whenever a command falls due. -/
theorem batFull_iff (P : Platform) (s₀ : Battery) (h₀ : (lts P).init s₀) (ls : List Lbl) :
    (lts P).Along Right s₀ ls ↔ (lts P).Meets (Unhindered P) s₀ ls := by
  have hinit : Agrees s₀ := by
    rw [Agrees, h₀.batFullNoti, h₀.launched]
    simp [lastCommand]
  exact LTS.along_iff right_iff (agrees_guarded P) hinit ls

/-- Overheated is 5 and cold 6. -/
def someHealth : Platform := ⟨5, 6⟩

/-- A good battery that is full, and one that is not. -/
def isFull : Reading := ⟨0, 1, 1⟩

def notFull : Reading := ⟨0, 1, 0⟩

/-- A call that can launch, while the helpers of `pid` run. -/
def callWith (pid : Int) : Call := { Cables.quiet with sysmanGetPid := fun _ => pid }

def atStart : Battery := ⟨0, Cables.stopped, []⟩

theorem goes_callWith (pid : Int) (n : Nat) : Goes (callWith pid).launch n :=
  ⟨rfl, rfl, rfl, fun _ _ => rfl, by simp [callWith, Cables.quiet], rfl⟩

/-- The battery gets full and is used again, with the helper gone in between. -/
theorem batFull_twice :
    (((lts someHealth).run atStart [.charge isFull (callWith 0), .exit 7,
        .charge notFull (callWith 0)]).map fun s => s.daemon.launched.map command) =
      some [some 1, some 0] ∧
    (lts someHealth).Along Right atStart
      [.charge isFull (callWith 0), .exit 7, .charge notFull (callWith 0)] := by
  refine ⟨by decide +kernel, (batFull_iff someHealth atStart ⟨rfl, rfl⟩ _).mpr ?_⟩
  intro s₁ h₁
  refine ⟨fun on _ => ⟨rfl, goes_callWith 0 _⟩, fun s₂ h₂ => ⟨trivial, fun s₃ _ => ?_⟩⟩
  have hrun : (lts someHealth).run atStart [.charge isFull (callWith 0), .exit 7] = some s₂ :=
    LTS.run_cons.mpr ⟨s₁, h₁, LTS.run_cons.mpr ⟨s₂, h₂, rfl⟩⟩
  have hgone : ((lts someHealth).run atStart [.charge isFull (callWith 0), .exit 7]).map
      Battery.running = some [] := by decide +kernel
  rw [hrun] at hgone
  exact ⟨fun on _ => ⟨Option.some.inj hgone, goes_callWith 0 _⟩, trivial⟩

/-- The helper of the charger still runs when the battery gets full: the flag
is set, and there is no notification. -/
theorem batFull_lost :
    (((lts someHealth).run atStart [.ta (some 1) (callWith 0), .charge isFull (callWith 7)]).map
      fun s => (s.batFullNoti, s.daemon.launched.map command)) = some (1, [none, none]) ∧
    ¬ (lts someHealth).Along Right atStart
      [.ta (some 1) (callWith 0), .charge isFull (callWith 7)] := by
  decide +kernel

end SystemServer.L4.BatFull
