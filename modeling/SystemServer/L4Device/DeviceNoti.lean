import Mathlib.Data.List.Perm.Basic
import SystemServer.Core.Bracket
import SystemServer.Core.Decimal
import SystemServer.L4Device.BatFull

/-!
# The helper sys_device_noti (`sys_device_noti.c`)

The daemon has the notifications of the battery shown by a process of its own.
What it wants said is printed into a command line, taken apart by the launch,
and read as numbers by the `main` of the helper; the helper then makes, fills,
inserts and frees a notification, call by call, while the daemon goes on.

* `noti_args`: whatever numbers are printed, the helper reads these numbers.
* `noti_balanced`: the notification is freed once if it was made, whatever
  fails.
* `tray_right`: over runs of the daemon and its helpers, with their calls
  interleaved, the tray shows the battery full notification once if
  `bat_full_noti` is set and not at all otherwise, whenever no helper has calls
  left; this for runs in which commands meet no helper, calls do not fail, and
  nobody else sends such a command.

The tray is the number of notifications of this package.
-/
namespace SystemServer.L4.DeviceNoti

open SystemServer.Bracket SystemServer.L4.Launch SystemServer.L4.BatFull
open SystemServer.L4.Cables (Call SYS_DEVICE_NOTI)

/-! ## The command line -/

/-- `"%d %d ... %d"` -/
def params (vs : List Int) (v : Int) : Bytes := joined (vs.map dec) ++ dec v

theorem plain_dec (v : Int) : ∀ c ∈ dec v, Plain c ∧ c ≠ 0 := by
  intro c hc
  rcases mem_dec hc with hdigit | rfl
  · simp only [isdigit, Bool.and_eq_true, decide_eq_true_eq, UInt8.le_iff_toNat_le] at hdigit
    simp only [Plain, Special, ne_eq, ← UInt8.toNat_inj, UInt8.reduceToNat] at hdigit ⊢
    omega
  · decide

/-- Words without special characters, one blank between each two. -/
theorem words_spaced {ws : List Bytes} {w : Bytes} (hplain : ∀ a ∈ ws ++ [w], ∀ c ∈ a, Plain c)
    (hw : w ≠ []) : words (joined ws ++ w) = ws ++ [w] := by
  have hws : ∀ a ∈ ws, ∀ c ∈ a, Plain c := fun a ha => hplain a (List.mem_append_left _ ha)
  have hlast : ∀ c ∈ w, Plain c := hplain w (List.mem_append_right _ List.mem_cons_self)
  have hrun : (joined ws ++ w).foldl Words.feed .none = ⟨ws, w, .none⟩ := by
    rw [List.foldl_append]
    have hfirst := run_plain hws []
    rw [List.nil_append] at hfirst
    rw [Words.none, hfirst, feed_plain hlast _ rfl, List.nil_append]
  rw [words, hrun, Words.all, if_pos hw]

theorem processArgs_map (ws : List Bytes) : processArgs (ws.map some ++ [none]) = ws := by
  induction ws with
  | nil => rfl
  | cons w ws ih => rw [List.map_cons, List.cons_append, processArgs, ih]

/-- The words of the helper's command line. -/
theorem words_params (vs : List Int) (v : Int) :
    words (commandLine SYS_DEVICE_NOTI (params vs v)) = SYS_DEVICE_NOTI :: vs.map dec ++ [dec v] := by
  have hfile : ∀ c ∈ SYS_DEVICE_NOTI, Plain c ∧ c ≠ 0 := by decide +kernel
  have hparams : (0 : UInt8) ∉ params vs v := by
    intro h
    rcases List.mem_append.mp h with h | h
    · obtain ⟨a, ha, h0⟩ := List.mem_flatMap.mp h
      obtain ⟨x, -, rfl⟩ := List.mem_map.mp ha
      rcases List.mem_append.mp h0 with h0 | h0
      · exact (plain_dec x 0 h0).2 rfl
      · simp at h0
    · exact (plain_dec v 0 h).2 rfl
  rw [commandLine_eq, cstr_of_notMem fun h => (hfile 0 h).2 rfl, cstr_of_notMem hparams, params,
    ← List.cons_append, ← List.append_assoc, ← joined_cons]
  refine words_spaced (fun a ha => ?_) (dec_ne_nil v)
  simp only [List.mem_append, List.mem_cons, List.mem_map, List.not_mem_nil, or_false] at ha
  rcases ha with (rfl | ⟨x, -, rfl⟩) | rfl
  · exact fun c hc => (hfile c hc).1
  · exact fun c hc => (plain_dec x c hc).1
  · exact fun c hc => (plain_dec v c hc).1

/-- **Numbers on a command line.** Let a launch of the helper meet none that
runs, and let nothing stop it. Whatever `int`s are printed with a blank between
each two, as many as the vector has room for with its NULL, the helper is
started with, and its `atoi` reads these numbers. -/
theorem noti_args (c : Call) (vs : List Int) (v : Int) (hfree : c.sysmanGetPid SYS_DEVICE_NOTI ≤ 0)
    (hgoes : c.launch.Goes SYS_DEVICE_NOTI) (hexec : c.launch.exec = true)
    (hint : ∀ x ∈ vs ++ [v], IsInt x) (hlen : vs.length + 2 ≤ MAX_ARGS) :
    ∃ argv, (launchOf c (params vs v)).image = some (SYS_DEVICE_NOTI, argv) ∧
      (processArgs argv).head? = some SYS_DEVICE_NOTI ∧
      (processArgs argv).tail.map atoi = vs ++ [v] := by
  have hwords := words_params vs v
  have htake : (words (commandLine SYS_DEVICE_NOTI (params vs v))).take (MAX_ARGS + 1) =
      SYS_DEVICE_NOTI :: (vs.map dec ++ [dec v]) := by
    rw [hwords, List.cons_append]
    refine List.take_of_length_le ?_
    simp only [List.length_cons, List.length_append, List.length_map, List.length_nil]
    omega
  have hlaunch := launch_goes hgoes htake
  refine ⟨(SYS_DEVICE_NOTI :: (vs.map dec ++ [dec v])).map some ++ [none], ?_, ?_, ?_⟩
  · rw [launchOf, ssLaunchIfNoexist, if_neg (by omega), hlaunch, Launched.image, if_pos hexec]
  · rw [processArgs_map]
    rfl
  · rw [processArgs_map, List.tail_cons]
    have hdec : vs.map dec ++ [dec v] = (vs ++ [v]).map dec := by simp
    rw [hdec, List.map_map]
    refine (List.map_congr_left fun x hx => ?_).trans (List.map_id _)
    exact atoi_dec (hint x hx)

/-- A call that meets no helper and that nothing stops. -/
theorem noti_args_full : ∃ argv, (launchOf (callWith 0) (params [2] (-2147483648))).image =
      some (SYS_DEVICE_NOTI, argv) ∧ (processArgs argv).head? = some SYS_DEVICE_NOTI ∧
    (processArgs argv).tail.map atoi = [2, -2147483648] :=
  noti_args (callWith 0) [2] (-2147483648) (by decide)
    ⟨rfl, rfl, rfl, fun _ => rfl, by simp [callWith, Cables.quiet]⟩ rfl
    (by simp [IsInt, INT_MIN, INT_MAX]) (by decide)

/-! ## The calls of a helper -/

/-- The calls of `battery_full_noti`. -/
inductive NotiCall where
  | deleteAllByType | new | setTitle | setContent | setContentOff | setTime | setImage
  | setProperty | setDisplayApplist | insert | free | pmChangeState
  deriving DecidableEq, Repr

def NotiCall.sets : List NotiCall :=
  [.setTitle, .setContent, .setContentOff, .setTime, .setImage, .setProperty, .setDisplayApplist]

/-- The value returned, and the calls made; `ok` says which succeed.
mirrors sys_device_noti/sys_device_noti.c:26-141 -/
def batteryFullNoti (ok : NotiCall → Bool) (bNoti : Int) : Int × List NotiCall :=
  if bNoti = 1 then
    let calls := .deleteAllByType :: bracket ok .new .free (NotiCall.sets ++ [.insert]) []
    if ok .new ∧ (attempt ok (NotiCall.sets ++ [.insert])).2 ∧ ok .free then
      (0, calls ++ [.pmChangeState])
    else (-1, calls)
  else (0, [.deleteAllByType])

/-- What is played: nothing (-1), or the tone of a plugged charger or of a full
battery. -/
inductive Tone where
  | none | chargerConn | fullCharged
  deriving DecidableEq, Repr

inductive SviCall where
  | init
  | play (tone : Tone)
  | fini
  deriving DecidableEq, Repr

/-- mirrors sys_device_noti/sys_device_noti.c:172-183 -/
def sviPlay (sviInit : Bool) (tone : Tone) : List SviCall :=
  if sviInit then [.init, .play tone, .fini] else [.init]

/-- The calls a helper makes; `none` when `atoi` is handed a NULL pointer.
mirrors sys_device_noti/sys_device_noti.c:142-185 -/
def run (ok : NotiCall → Bool) (sviInit : Bool) (argv : List Bytes) :
    Option (List NotiCall × List SviCall) :=
  let bNoti := if argv.length = 3 then atoi (argv[2]?.getD []) else -1
  match argv[1]? with
  | none => none
  | some cbType =>
    if atoi cbType = CB_NOTI_BATT_CHARGE then some ([], sviPlay sviInit .chargerConn)
    else if atoi cbType = CB_NOTI_BATT_FULL then
      if bNoti = 1 then some ((batteryFullNoti ok bNoti).2, sviPlay sviInit .fullCharged)
      else some ((batteryFullNoti ok bNoti).2, [])
    else some ([], sviPlay sviInit .none)

/-- The notification calls, if any. -/
def notiCalls (ok : NotiCall → Bool) (sviInit : Bool) (argv : List Bytes) : List NotiCall :=
  ((run ok sviInit argv).map Prod.fst).getD []

/-- What a call leaves in the tray. -/
def onTray (ok : NotiCall → Bool) (tray : Nat) : NotiCall → Nat
  | .deleteAllByType => if ok .deleteAllByType then 0 else tray
  | .insert => if ok .insert then tray + 1 else tray
  | _ => tray

/-- They are those of the command that is understood. -/
theorem notiCalls_eq (ok : NotiCall → Bool) (sviInit : Bool) (argv : List Bytes) :
    notiCalls ok sviInit argv =
      ((main argv).map fun bNoti => (batteryFullNoti ok bNoti).2).getD [] := by
  unfold notiCalls run main
  generalize (if argv.length = 3 then atoi (argv[2]?.getD []) else -1) = bNoti
  cases argv[1]? with
  | none => rfl
  | some cbType =>
    have hdiffer : (CB_NOTI_BATT_CHARGE : Int) ≠ CB_NOTI_BATT_FULL := by decide
    by_cases hfull : atoi cbType = CB_NOTI_BATT_FULL
    · simp only [hfull, hdiffer.symm, if_false, if_true]
      split <;> rfl
    · simp only [hfull, if_false]
      split <;> rfl

/-- The notification is freed once if it was made, and used only until then,
whatever fails. -/
theorem noti_balanced (ok : NotiCall → Bool) :
    Bracket.lts.run false ((bracket ok .new .free (NotiCall.sets ++ [.insert]) []).map
      (ev ok .new .free)) = some false :=
  bracket_run ok (by decide) (by decide) (by decide)

/-- A command whose calls succeed leaves one notification or none. -/
theorem tray_of_ok {ok : NotiCall → Bool} (hok : ∀ call, ok call = true) (bNoti : Int) (tray : Nat) :
    (batteryFullNoti ok bNoti).2.foldl (onTray ok) tray = if bNoti = 1 then 1 else 0 := by
  have hall : (attempt ok (NotiCall.sets ++ [.insert])).1 = NotiCall.sets ++ [.insert] :=
    attempt_of_all fun e _ => hok e
  unfold batteryFullNoti bracket
  by_cases h : bNoti = 1
  · simp only [if_pos h, hok, hall, (attempt_all ok _).mpr fun e _ => hok e]
    simp [NotiCall.sets, onTray, hok]
  · simp [if_neg h, onTray, hok]

/-! ## The daemon and its helpers -/

/-- A helper that runs, with the outcomes of its calls and those still to be
made. -/
structure Helper where
  pid : Int
  ok : NotiCall → Bool
  calls : List NotiCall

/-- The helper of a launch. -/
def helperOf (ok : NotiCall → Bool) (sviInit : Bool) (l : Launched) : Option Helper :=
  l.image.map fun x => ⟨l.ret, ok, notiCalls ok sviInit (processArgs x.2)⟩

structure Desk where
  battery : Battery
  helpers : List Helper
  tray : Nat

/-- A callback of the daemon, a helper somebody else starts, the next call of a
helper, and its exit. -/
inductive Lbl where
  | charge (r : Reading) (c : Call) (ok : NotiCall → Bool) (sviInit : Bool)
  | usb (online : Option Int) (c : Call) (ok : NotiCall → Bool) (sviInit : Bool)
  | ta (online : Option Int) (c : Call) (ok : NotiCall → Bool) (sviInit : Bool)
  | start (pid : Int) (argv : List Bytes) (ok : NotiCall → Bool) (sviInit : Bool)
  | work (i : Nat)
  | exit (i : Nat)

/-- The state after a callback. -/
def Desk.after (s : Desk) (ok : NotiCall → Bool) (sviInit : Bool) (b : Battery) : Desk :=
  { s with
    battery := b
    helpers := s.helpers ++
      (b.daemon.launched.drop s.battery.daemon.launched.length).filterMap (helperOf ok sviInit) }

def step (P : Platform) (s : Desk) : Lbl → Option Desk
  | .charge r c ok sviInit =>
    (BatFull.step P s.battery (.charge r c)).map (s.after ok sviInit)
  | .usb online c ok sviInit =>
    (BatFull.step P s.battery (.usb online c)).map (s.after ok sviInit)
  | .ta online c ok sviInit => (BatFull.step P s.battery (.ta online c)).map (s.after ok sviInit)
  | .start pid argv ok sviInit =>
    (BatFull.step P s.battery (.start pid)).map fun b =>
      { s with battery := b, helpers := s.helpers ++ [⟨pid, ok, notiCalls ok sviInit argv⟩] }
  | .work i =>
    match s.helpers[i]? with
    | some ⟨pid, ok, call :: calls⟩ =>
      some { s with helpers := s.helpers.set i ⟨pid, ok, calls⟩, tray := onTray ok s.tray call }
    | _ => none
  | .exit i =>
    s.helpers[i]?.bind fun h => (BatFull.step P s.battery (.exit h.pid)).map fun b =>
      { s with battery := b, helpers := s.helpers.eraseIdx i }

/-- The daemon starts with an empty tray. -/
structure Init (s : Desk) : Prop where
  battery : BatFull.Init s.battery
  running : (s.helpers.map Helper.pid).Perm s.battery.running
  calls : ∀ h ∈ s.helpers, h.calls = []
  tray : s.tray = 0

def lts (P : Platform) : LTS Desk Lbl := ⟨Init, step P⟩

/-- Commands meet no helper and are not stopped, their calls succeed, nobody else
sends one, and a helper makes all of its calls. -/
def Orderly (P : Platform) (s : Desk) : Lbl → Prop
  | .charge r c ok _ => Unhindered P s.battery (.charge r c) ∧ ∀ call, ok call = true
  | .start _ argv ok sviInit => notiCalls ok sviInit argv = []
  | .exit i => ∀ h, s.helpers[i]? = some h → h.calls = []
  | .usb _ _ _ _ | .ta _ _ _ _ | .work _ => True

/-- The notifications there should be. -/
def Battery.due (b : Battery) : Nat := if b.batFullNoti = 1 then 1 else 0

/-- The tray is right, or one helper is about to make it right. -/
inductive Working (due : Nat) (tray : Nat) : List Helper → Prop where
  | done (hs) (hcalls : ∀ h ∈ hs, h.calls = []) (htray : tray = due) : Working due tray hs
  | one (hs₁ h hs₂) (hcalls : ∀ x ∈ hs₁ ++ hs₂, x.calls = [])
      (htray : h.calls.foldl (onTray h.ok) tray = due) : Working due tray (hs₁ ++ h :: hs₂)

structure Good (s : Desk) : Prop where
  flag : s.battery.batFullNoti = 0 ∨ s.battery.batFullNoti = 1
  running : (s.helpers.map Helper.pid).Perm s.battery.running
  working : Working (Battery.due s.battery) s.tray s.helpers

/-- Helpers without calls change nothing. -/
theorem Working.append {due tray : Nat} {hs hs' : List Helper} (h : Working due tray hs)
    (hcalls : ∀ x ∈ hs', x.calls = []) : Working due tray (hs ++ hs') := by
  cases h with
  | done hs hold htray =>
    refine .done _ (fun x hx => ?_) htray
    rcases List.mem_append.mp hx with hx | hx
    · exact hold x hx
    · exact hcalls x hx
  | one hs₁ h hs₂ hold htray =>
    rw [List.append_assoc, List.cons_append]
    refine .one _ _ _ (fun x hx => ?_) htray
    rw [← List.append_assoc] at hx
    rcases List.mem_append.mp hx with hx | hx
    · exact hold x hx
    · exact hcalls x hx

/-- The one helper makes its next call. -/
theorem Working.work {due tray : Nat} {hs : List Helper} {i : Nat} {pid : Int}
    {ok : NotiCall → Bool} {call : NotiCall} {calls : List NotiCall} (h : Working due tray hs)
    (hi : hs[i]? = some ⟨pid, ok, call :: calls⟩) :
    Working due (onTray ok tray call) (hs.set i ⟨pid, ok, calls⟩) := by
  cases h with
  | done hs hold htray => cases hold _ (List.mem_of_getElem? hi)
  | one hs₁ h hs₂ hold htray =>
    obtain hlt | rfl | hgt := Nat.lt_trichotomy i hs₁.length
    · rw [List.getElem?_append_left hlt] at hi
      cases hold _ (List.mem_append_left _ (List.mem_of_getElem? hi))
    · rw [List.getElem?_append_right (Nat.le_refl _), Nat.sub_self, List.getElem?_cons_zero] at hi
      obtain rfl := Option.some.inj hi
      rw [List.set_append_right _ _ (Nat.le_refl _), Nat.sub_self, List.set_cons_zero]
      exact .one _ _ _ hold htray
    · obtain ⟨k, hk⟩ := Nat.exists_eq_add_of_lt hgt
      rw [List.getElem?_append_right (Nat.le_of_lt hgt), hk,
        show hs₁.length + k + 1 - hs₁.length = k + 1 by omega, List.getElem?_cons_succ] at hi
      cases hold _ (List.mem_append_right _ (List.mem_of_getElem? hi))

/-- A helper without calls exits. -/
theorem Working.exit {due tray : Nat} {hs : List Helper} {i : Nat} {x : Helper}
    (h : Working due tray hs) (hi : hs[i]? = some x) (hx : x.calls = []) :
    Working due tray (hs.eraseIdx i) := by
  cases h with
  | done hs hold htray =>
    exact .done _ (fun y hy => hold y (List.mem_of_mem_eraseIdx hy)) htray
  | one hs₁ h hs₂ hold htray =>
    obtain hlt | rfl | hgt := Nat.lt_trichotomy i hs₁.length
    · rw [List.eraseIdx_append_of_lt_length hlt]
      refine .one _ _ _ (fun y hy => hold y ?_) htray
      rcases List.mem_append.mp hy with hy | hy
      · exact List.mem_append_left _ (List.mem_of_mem_eraseIdx hy)
      · exact List.mem_append_right _ hy
    · rw [List.getElem?_append_right (Nat.le_refl _), Nat.sub_self, List.getElem?_cons_zero] at hi
      obtain rfl := Option.some.inj hi
      rw [List.eraseIdx_append_of_length_le (Nat.le_refl _), Nat.sub_self, List.eraseIdx_cons_zero]
      rw [hx, List.foldl_nil] at htray
      exact .done _ hold htray
    · obtain ⟨k, hk⟩ := Nat.exists_eq_add_of_lt hgt
      rw [List.eraseIdx_append_of_length_le (Nat.le_of_lt hgt), hk,
        show hs₁.length + k + 1 - hs₁.length = k + 1 by omega, List.eraseIdx_cons_succ]
      refine .one _ _ _ (fun y hy => hold y ?_) htray
      rcases List.mem_append.mp hy with hy | hy
      · exact List.mem_append_left _ hy
      · exact List.mem_append_right _ (List.mem_of_mem_eraseIdx hy)

/-! ## What a callback launches -/

/-- A callback launches `ls`, and the processes among them run. -/
structure Launches (s b : Battery) (ls : List Launched) : Prop where
  launched : b.daemon.launched = s.daemon.launched ++ ls
  running : b.running = s.running ++ ls.filterMap child

theorem launches_noti (c : Call) (ps : Bytes) (s : Battery) :
    Launches s (noti c ps s) [launchOf c ps] := by
  refine ⟨launched_noti c ps s, ?_⟩
  have hdrop : (noti c ps s).daemon.launched.drop s.daemon.launched.length = [launchOf c ps] := by
    rw [launched_noti, List.drop_left]
  rw [← hdrop]
  rfl

theorem launches_usb (online : Option Int) (c : Call) (s : Battery) :
    ∃ ls, Launches s (usbChgdetCb online c s) ls ∧ ∀ l ∈ ls, command l = none := by
  unfold usbChgdetCb
  split
  · refine ⟨_, launches_noti c chargeParams s, fun l hl => ?_⟩
    rw [List.mem_singleton.mp hl, command_charge]
  · exact ⟨[], ⟨by simp, by simp⟩, fun l hl => absurd hl List.not_mem_nil⟩

theorem launches_ta (online : Option Int) (c : Call) (s : Battery) :
    ∃ ls, Launches s (taChgdetCb online c s) ls ∧ ∀ l ∈ ls, command l = none := by
  have hlaunch : ∀ (d : Cables.Daemon) (ls : List Launched),
      d.launched = s.daemon.launched ++ ls → Launches s (s.launch d) ls := by
    intro d ls hd
    refine ⟨hd, ?_⟩
    simp only [Battery.launch, hd, List.drop_left]
  have hnone : ∀ d : Cables.Daemon, d.launched = s.daemon.launched →
      ∃ ls, Launches s (s.launch d) ls ∧ ∀ l ∈ ls, command l = none := by
    intro d hd
    exact ⟨[], hlaunch d [] (by rw [hd, List.append_nil]), fun l hl => absurd hl List.not_mem_nil⟩
  unfold taChgdetCb Cables.taChgdetCb
  cases online with
  | none => exact hnone _ rfl
  | some val =>
    by_cases hval : val = 0
    · simp only [if_pos hval]
      refine hnone _ ?_
      unfold Cables.unplugged
      split <;> rfl
    · simp only [if_neg hval]
      refine ⟨[launchOf { c with params := chargeParams } chargeParams], hlaunch _ _ rfl, ?_⟩
      intro l hl
      rw [List.mem_singleton.mp hl, command_charge]

/-- Where no command falls due, a `charge_cb` does nothing. -/
theorem chargeCb_idle {P : Platform} {r : Reading} {s : Battery} (c : Call)
    (hflag : s.batFullNoti = 0 ∨ s.batFullNoti = 1) (h : ∀ on, ¬ Due P s r on) :
    chargeCb P r c s = s := by
  unfold chargeCb
  by_cases hhealth : r.healthRet = 0 ∧ (r.health = P.BATTERY_OVERHEAT ∨ r.health = P.BATTERY_COLD)
  · rw [if_pos hhealth]
  rw [if_neg hhealth]
  by_cases hzero : r.full = 0
  · have hoff : s.batFullNoti ≠ 1 := fun hone => h _ ⟨hhealth, .inl ⟨rfl, hzero, hone⟩⟩
    rw [if_pos hzero, if_neg hoff, ← hflag.resolve_right hoff]
  · rw [if_neg hzero, if_neg fun hone => h _ ⟨hhealth, .inr ⟨rfl, hone.1, hone.2⟩⟩]

theorem launches_due {P : Platform} {r : Reading} {s : Battery} {on : Nat} (c : Call)
    (h : Due P s r on) : Launches s (chargeCb P r c s) [launchOf c (fullParams on)] := by
  refine ⟨(chargeCb_due c h).2, ?_⟩
  unfold chargeCb
  rw [if_neg h.1]
  obtain ⟨rfl, hzero, hflag⟩ | ⟨rfl, hone, hflag⟩ := h.2
  · rw [if_pos hzero, if_pos hflag]
    exact (launches_noti c _ s).running
  · rw [if_neg (by omega), if_pos ⟨hone, hflag⟩]
    exact (launches_noti c _ { s with batFullNoti := 1 }).running

/-- The helpers of some launches are their processes. -/
theorem pids_helpers (ok : NotiCall → Bool) (sviInit : Bool) (ls : List Launched) :
    (ls.filterMap (helperOf ok sviInit)).map Helper.pid = ls.filterMap child := by
  rw [List.map_filterMap]
  refine List.filterMap_congr fun l _ => ?_
  unfold helperOf child
  cases l.image <;> rfl

/-- What a helper has to do is the command of its launch. -/
theorem calls_helperOf {ok : NotiCall → Bool} {sviInit : Bool} {l : Launched} {h : Helper}
    (hl : helperOf ok sviInit l = some h) :
    h.ok = ok ∧ h.calls = ((command l).map fun bNoti => (batteryFullNoti ok bNoti).2).getD [] := by
  obtain ⟨x, hx, rfl⟩ := Option.map_eq_some_iff.mp hl
  rw [command, hx, Option.bind_some]
  exact ⟨rfl, notiCalls_eq ok sviInit _⟩

/-- The desk after a callback that launches `ls`. -/
theorem after_eq (s : Desk) (ok : NotiCall → Bool) (sviInit : Bool) {b : Battery}
    {ls : List Launched} (h : Launches s.battery b ls) : s.after ok sviInit b =
      ⟨b, s.helpers ++ ls.filterMap (helperOf ok sviInit), s.tray⟩ := by
  rw [Desk.after, h.launched, List.drop_left]

/-- A callback that launches no command. -/
theorem good_quiet {s : Desk} {b : Battery} {ls : List Launched} (ok : NotiCall → Bool)
    (sviInit : Bool) (h : Good s) (hb : Launches s.battery b ls)
    (hflag : b.batFullNoti = s.battery.batFullNoti) (hls : ∀ l ∈ ls, command l = none) :
    Good (s.after ok sviInit b) := by
  rw [after_eq s ok sviInit hb]
  refine ⟨by simpa only [hflag] using h.flag, ?_, ?_⟩
  · rw [List.map_append, pids_helpers, hb.running]
    exact h.running.append_right _
  · rw [show Battery.due b = Battery.due s.battery by rw [Battery.due, hflag]; rfl]
    refine h.working.append fun x hx => ?_
    obtain ⟨l, hl, hlx⟩ := List.mem_filterMap.mp hx
    rw [(calls_helperOf hlx).2, hls l hl]
    rfl

/-- A command that falls due is handed to a helper that is alone. -/
theorem good_due {P : Platform} {s : Desk} {r : Reading} {on : Nat} {c : Call}
    {ok : NotiCall → Bool} (sviInit : Bool) (h : Good s) (hdue : Due P s.battery r on)
    (hfinds : Finds s.battery c) (hfree : s.battery.running = []) (hgoes : Goes c.launch (2 + on))
    (hok : ∀ call, ok call = true) : Good (s.after ok sviInit (chargeCb P r c s.battery)) := by
  have hon : on = CB_NOTI_OFF ∨ on = CB_NOTI_ON := by
    rcases hdue.2 with ⟨hon, -⟩ | ⟨hon, -⟩
    · exact .inl hon
    · exact .inr hon
  have hhelpers : s.helpers = [] := by
    have hperm := h.running
    rw [hfree] at hperm
    exact List.map_eq_nil_iff.mp hperm.eq_nil
  have hpid : c.sysmanGetPid SYS_DEVICE_NOTI ≤ 0 := by
    by_contra hpos
    exact hfinds.mp (by omega) hfree
  have hflag := (chargeCb_due c hdue).1
  have hlaunches := launches_due c hdue
  rw [after_eq s ok sviInit hlaunches, hhelpers, List.nil_append]
  -- the command the helper understands
  have hgoes₂ : Goes c.launch 2 := ⟨hgoes.access, hgoes.lineMalloc, hgoes.tokenMalloc,
    fun i hi => hgoes.strdup i (by omega), hgoes.fork, hgoes.exec⟩
  have hcommand := (command_full hon c _).mpr ⟨hpid, hgoes₂, rfl⟩
  have hone : ((if c.launch.strdup 2 then (on : Int) else -1) = 1) ↔ on = 1 := by
    rcases hon with rfl | rfl
    · split <;> simp [CB_NOTI_OFF]
    · rw [if_pos (hgoes.strdup 2 (by simp [CB_NOTI_ON]))]
      simp [CB_NOTI_ON]
  obtain ⟨x, hx⟩ : ∃ x, helperOf ok sviInit (launchOf c (fullParams on)) = some x := by
    rw [command] at hcommand
    obtain ⟨y, hy, -⟩ := Option.bind_eq_some_iff.mp hcommand
    exact ⟨_, by rw [helperOf, hy]; rfl⟩
  obtain ⟨hxok, hxcalls⟩ := calls_helperOf hx
  rw [hcommand, Option.map_some, Option.getD_some] at hxcalls
  refine ⟨?_, ?_, ?_⟩
  · show (chargeCb P r c s.battery).batFullNoti = 0 ∨ (chargeCb P r c s.battery).batFullNoti = 1
    rw [hflag]
    rcases hon with rfl | rfl <;> simp [CB_NOTI_OFF, CB_NOTI_ON]
  · show (List.map Helper.pid _).Perm (chargeCb P r c s.battery).running
    rw [pids_helpers, hlaunches.running, hfree, List.nil_append]
  · have htray : x.calls.foldl (onTray x.ok) s.tray = Battery.due (chargeCb P r c s.battery) := by
      rw [hxok, hxcalls, tray_of_ok hok, Battery.due, hflag]
      simp only [hone]
      norm_cast
    simp only [List.filterMap_cons, hx, List.filterMap_nil]
    exact .one [] x [] (fun y hy => absurd hy List.not_mem_nil) htray

/-! ## The tray -/

theorem good_step {P : Platform} {s s' : Desk} {l : Lbl} (h : Good s) (hc : Orderly P s l)
    (hst : step P s l = some s') : Good s' := by
  cases l with
  | charge r c ok sviInit =>
    obtain ⟨b, hb, rfl⟩ := Option.map_eq_some_iff.mp hst
    obtain ⟨hfinds, rfl⟩ := Option.ite_some_none_eq_some.mp hb
    obtain ⟨hfree, hok⟩ := hc
    by_cases hdue : ∃ on, Due P s.battery r on
    · obtain ⟨on, hdue⟩ := hdue
      obtain ⟨hnone, hgoes⟩ := hfree on hdue
      exact good_due sviInit h hdue hfinds hnone hgoes hok
    · have hidle := chargeCb_idle c h.flag fun on hon => hdue ⟨on, hon⟩
      have hnone : ∀ l ∈ ([] : List Launched), command l = none := fun l hl =>
        absurd hl List.not_mem_nil
      refine good_quiet ok sviInit h ⟨?_, ?_⟩ ?_ hnone
      · rw [hidle, List.append_nil]
      · rw [hidle, List.filterMap_nil, List.append_nil]
      · rw [hidle]
  | usb online c ok sviInit =>
    obtain ⟨b, hb, rfl⟩ := Option.map_eq_some_iff.mp hst
    obtain ⟨-, rfl⟩ := Option.ite_some_none_eq_some.mp hb
    obtain ⟨ls, hls, hnone⟩ := launches_usb online c s.battery
    refine good_quiet ok sviInit h hls ?_ hnone
    unfold usbChgdetCb
    split <;> rfl
  | ta online c ok sviInit =>
    obtain ⟨b, hb, rfl⟩ := Option.map_eq_some_iff.mp hst
    obtain ⟨-, rfl⟩ := Option.ite_some_none_eq_some.mp hb
    obtain ⟨ls, hls, hnone⟩ := launches_ta online c s.battery
    exact good_quiet ok sviInit h hls rfl hnone
  | start pid argv ok sviInit =>
    obtain rfl := Option.some.inj hst
    refine ⟨h.flag, ?_, h.working.append fun x hx => ?_⟩
    · rw [List.map_append]
      exact h.running.append_right [pid]
    · rw [List.mem_singleton.mp hx]
      exact hc
  | work i =>
    simp only [step] at hst
    split at hst
    · rename_i pid ok call calls hi
      obtain rfl := Option.some.inj hst
      refine ⟨h.flag, ?_, h.working.work hi⟩
      have hpids : (s.helpers.set i ⟨pid, ok, calls⟩).map Helper.pid = s.helpers.map Helper.pid := by
        obtain ⟨hlt, hget⟩ := List.getElem?_eq_some_iff.mp hi
        refine List.ext_getElem (by simp) fun j _ _ => ?_
        rw [List.getElem_map, List.getElem_map, List.getElem_set]
        split
        · rename_i hij
          subst hij
          rw [hget]
        · rfl
      rw [hpids]
      exact h.running
    · cases hst
  | exit i =>
    obtain ⟨x, hx, hst⟩ := Option.bind_eq_some_iff.mp hst
    obtain ⟨b, hb, rfl⟩ := Option.map_eq_some_iff.mp hst
    obtain ⟨-, rfl⟩ := Option.ite_some_none_eq_some.mp hb
    refine ⟨h.flag, ?_, h.working.exit hx (hc x hx)⟩
    obtain ⟨hlt, hget⟩ := List.getElem?_eq_some_iff.mp hx
    have hperm := (List.getElem_cons_eraseIdx_perm hlt).map Helper.pid
    rw [hget, List.map_cons] at hperm
    have herase := (hperm.trans h.running).erase x.pid
    rwa [List.erase_cons_head] at herase

/-- **The tray.** In every run from the start in which commands meet no helper
and are not stopped, their calls succeed and nobody else sends one, the tray
shows the battery full notification, once, if `bat_full_noti` is set, and does
not if it is not, whenever no helper has calls left. -/
theorem tray_right (P : Platform) (s₀ s : Desk) (ls : List Lbl) (h₀ : Init s₀)
    (hr : (lts P).run s₀ ls = some s) (hls : (lts P).Meets (Orderly P) s₀ ls)
    (hidle : ∀ h ∈ s.helpers, h.calls = []) :
    s.tray = if s.battery.batFullNoti = 1 then 1 else 0 := by
  have hinit : Good s₀ := by
    refine ⟨.inl h₀.battery.batFullNoti, h₀.running, .done _ h₀.calls ?_⟩
    rw [h₀.tray, Battery.due, h₀.battery.batFullNoti]
    rfl
  have hguarded : (lts P).Guarded (Orderly P) Good := fun _ _ _ h hc hst => good_step h hc hst
  have hgood := (hguarded.run hinit hls hr).working
  generalize s.helpers = hs at hgood hidle
  cases hgood with
  | done _ _ htray => exact htray
  | one hs₁ h hs₂ _ htray =>
    rwa [hidle h (List.mem_append_right _ List.mem_cons_self)] at htray

def atRest : Desk := ⟨atStart, [], 0⟩

/-- All calls of a helper succeed. -/
def allOk : NotiCall → Bool := fun _ => true

/-- The battery gets full, and the helper makes its twelve calls. -/
def filled : List Lbl :=
  .charge isFull (callWith 0) allOk true :: List.replicate 12 (.work 0)

theorem tray_filled : ∃ s, (lts someHealth).run atRest filled = some s ∧
    s.battery.batFullNoti = 1 ∧ s.tray = 1 := by
  have hsome : ((lts someHealth).run atRest filled).isSome = true := by decide +kernel
  obtain ⟨s, hs⟩ := Option.isSome_iff_exists.mp hsome
  have hend : ((lts someHealth).run atRest filled).map
      (fun s => (s.battery.batFullNoti, s.helpers.map Helper.calls)) = some (1, [[]]) := by
    decide +kernel
  rw [hs, Option.map_some, Option.some.injEq, Prod.mk.injEq] at hend
  obtain ⟨hflag, hcalls⟩ := hend
  have hmeets : (lts someHealth).Meets (Orderly someHealth) atRest filled := by
    refine fun s₁ _ => ⟨⟨fun on _ => ⟨rfl, goes_callWith 0 _⟩, fun _ => rfl⟩, ?_⟩
    refine LTS.meets_of_labels (fun l hl s => ?_) s₁
    rw [(List.mem_replicate.mp hl).2]
    trivial
  have hidle : ∀ h ∈ s.helpers, h.calls = [] := by
    intro h hh
    have hmem := List.mem_map_of_mem (f := Helper.calls) hh
    rw [hcalls] at hmem
    exact List.mem_singleton.mp hmem
  have htray := tray_right someHealth atRest s filled
    ⟨⟨rfl, rfl⟩, List.Perm.refl _, fun h hh => absurd hh List.not_mem_nil, rfl⟩ hs hmeets hidle
  rw [hflag] at htray
  exact ⟨s, hs, hflag, htray⟩

end SystemServer.L4.DeviceNoti
