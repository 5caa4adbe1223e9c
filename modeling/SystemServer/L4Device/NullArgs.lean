import SystemServer.L3Daemon.Sysnoti
import SystemServer.L2Queue.ExactlyOnce
import SystemServer.L4Device.LowBatPopup
import SystemServer.L4Device.Mmc
import SystemServer.L4Device.Predefine
import SystemServer.L4Device.TimeMgr
import SystemServer.L4Device.UsbStorage
import SystemServer.L4Device.CpuFreq

/-!
# Strings that are not there (`ss_queue.c` and the handlers)

A string whose length is not positive is decoded as a NULL pointer, the type
of a request as well as any of its arguments. The dispatch and most handlers
hand them to `strcmp` or `atoi` unchecked, and the daemon is gone.

* `run_isSome_iff`: what each handler reads, whatever state it finds.
* `added_run_iff`: an entry brings its handler the arguments of its request,
  however long it waits.
* `null_free_iff`: a request does no harm exactly when its type is there and
  so is every argument its handler reads.

The other actions of the registry (`none`) take no arguments, or are
plug-ins.
-/
namespace SystemServer.L4.NullArgs

open SystemServer.L1.Recv SystemServer.L2.RunQueue SystemServer.L2.ExactlyOnce
open SystemServer.L3.Sysnoti (zeroMem conn)

/-! ## The handlers -/

inductive Handler where
  | lowmem | lowbat | launching
  | setForegrd | setBackgrd | setActive | setInactive | setOomadj
  | setDatetime | setTimezone
  | setMaxFrequency | setMinFrequency | releaseMaxFrequency | releaseMinFrequency
  | mmcInserted | mmcUnmounted | mmcFormat
  | usbStorageAdded | usbStorageRemoved
  deriving DecidableEq, Repr

/-- What the handlers work on; `formats` counts the cards formatted. -/
structure World where
  cpu : CpuFreq.Cpu
  daemon : Predefine.Daemon
  popup : LowBatPopup.Popup
  clock : TimeMgr.Clock
  card : Mmc.Card
  usb : UsbStorage.Usb
  formats : Nat

/-- What a run of a handler meets; `pmState` is what VCONFKEY_PM_STATE is read
to be. -/
structure Env where
  cpu : CpuFreq.Env
  predefine : Predefine.Env
  access : ProcMgr.Access
  lowbat : LowBatPopup.Env
  fs : TimeMgr.Fs
  pmState : Int
  insert : Mmc.Insert
  umount : Bool
  add : UsbStorage.Add
  remove : UsbStorage.Remove

/-- A handler on its part of the state. -/
def World.onCpu (w : World) (r : Option (Int × CpuFreq.Cpu)) : Option (Int × World) :=
  r.map fun r => (r.1, { w with cpu := r.2 })

def World.onProc (w : World) (r : Option (Int × ProcMgr.State)) : Option (Int × World) :=
  r.map fun r => (r.1, { w with daemon := { w.daemon with proc := r.2 } })

def World.onDaemon (w : World) (r : Option (Int × Predefine.Daemon)) : Option (Int × World) :=
  r.map fun r => (r.1, { w with daemon := r.2 })

def World.onClock (w : World) (r : Int × TimeMgr.Clock) : Int × World := (r.1, { w with clock := r.2 })

def World.onUsb (w : World) (r : Int × UsbStorage.Usb) : Int × World := (r.1, { w with usb := r.2 })

variable (K : Mmc.Keys)

/-- `none` where `strcmp` or `atoi` is handed a NULL pointer. -/
def Handler.run (E : Env) (argc : Int) (argv : List CPtr) (w : World) :
    Handler → Option (Int × World)
  | .lowmem => w.onDaemon (Predefine.lowmemDefPredefineAction E.predefine argc argv w.daemon)
  | .lowbat => (LowBatPopup.lowbatDefPredefineAction E.lowbat argc argv w.popup).map fun r =>
      (r.1, { w with popup := r.2 })
  | .launching => w.onDaemon (some (Predefine.launchingPredefineAction E.predefine argc w.daemon))
  | .setForegrd => w.onProc (ProcMgr.setForegrdAction E.access argc argv w.daemon.proc)
  | .setBackgrd => w.onProc (ProcMgr.setBackgrdAction E.access argc argv w.daemon.proc)
  | .setActive => w.onProc (ProcMgr.setActiveAction E.access argc argv w.daemon.proc)
  | .setInactive => w.onProc (ProcMgr.setInactiveAction E.access argc argv w.daemon.proc)
  | .setOomadj => w.onProc (ProcMgr.setOomadjAction E.access argc argv w.daemon.proc)
  | .setDatetime => some (w.onClock (TimeMgr.setDatetimeAction E.pmState argc argv w.clock))
  | .setTimezone => some (w.onClock (TimeMgr.setTimezoneAction E.fs E.pmState argc argv w.clock))
  | .setMaxFrequency => w.onCpu (CpuFreq.setMaxFrequencyAction E.cpu argc argv w.cpu)
  | .setMinFrequency => w.onCpu (CpuFreq.setMinFrequencyAction E.cpu argc argv w.cpu)
  | .releaseMaxFrequency => w.onCpu (CpuFreq.releaseMaxFrequencyAction E.cpu argc argv w.cpu)
  | .releaseMinFrequency => w.onCpu (CpuFreq.releaseMinFrequencyAction E.cpu argc argv w.cpu)
  | .mmcInserted =>
    let r := Mmc.ssMmcInserted K E.insert w.card
    some (r.1, { w with card := r.2 })
  | .mmcUnmounted => (Mmc.ssMmcUnmounted K E.umount argc argv w.card).map fun r =>
      (r.1, { w with card := r.2 })
  -- `ss_mmc_format`, ss_mmc_handler.c:97-103
  | .mmcFormat => some (0, { w with formats := w.formats + 1 })
  | .usbStorageAdded => some (w.onUsb (UsbStorage.ssUsbStorageAdded E.add argc argv w.usb))
  | .usbStorageRemoved => some (w.onUsb (UsbStorage.ssUsbStorageRemoved E.remove argc argv w.usb))

/-- The registrations of `system_server_init` in their order.
mirrors ss_main.c:69-85, ss_predefine.c:659-673, ss_procmgr.c:361-373,
ss_timemgr.c:154-161, ss_cpu_handler.c:216-219, ss_mmc_handler.c:135-146 and
ss_usb_storage_handler.c:262-268 -/
def builtin : List (String × Option Handler) :=
  [("lowmem", some .lowmem), ("lowbat", some .lowbat), ("usbcon", none),
    ("earjack_predef_internal", none), ("poweroff", none), ("pwroff-popup", some .launching),
    ("reboot", none), ("foregrd", some .setForegrd), ("backgrd", some .setBackgrd),
    ("active", some .setActive), ("inactive", some .setInactive), ("oomadj_set", some .setOomadj),
    ("set_datetime", some .setDatetime), ("set_timezone", some .setTimezone),
    ("set_max_frequency", some .setMaxFrequency), ("set_min_frequency", some .setMinFrequency),
    ("release_max_frequency", some .releaseMaxFrequency),
    ("release_min_frequency", some .releaseMinFrequency), ("mountmmc", some .mmcInserted),
    ("unmountmmc", some .mmcUnmounted), ("formatmmc", some .mmcFormat),
    ("usbstorage-add", some .usbStorageAdded), ("usbstorage-remove", some .usbStorageRemoved)]

/-- A registration puts its entry in front. -/
def registry (pid : Int) : List (ActionEntry (Option Handler)) :=
  builtin.reverse.map fun (type, handler) => ⟨pid, lit type, [], handler, none⟩

/-- The arguments a handler hands to `strcmp` or `atoi` are there. -/
def Handler.Reads (argc : Int) (argv : List CPtr) : Handler → Prop
  | .setMaxFrequency | .setMinFrequency => argc < 2 ∨ (arg argv 0).isSome ∧ (arg argv 1).isSome
  | .setOomadj =>
    argc < 2 ∨ ∃ pid, atoiP (arg argv 0) = some pid ∧ (pid < 0 ∨ (arg argv 1).isSome)
  | .lowmem | .lowbat | .setForegrd | .setBackgrd | .setActive | .setInactive
  | .releaseMaxFrequency | .releaseMinFrequency | .mmcUnmounted => argc < 1 ∨ (arg argv 0).isSome
  | .launching | .setDatetime | .setTimezone | .mmcInserted | .mmcFormat | .usbStorageAdded
  | .usbStorageRemoved => True

theorem run_isSome_iff (E : Env) (argc : Int) (argv : List CPtr) (w : World) (h : Handler) :
    (h.run K E argc argv w).isSome ↔ h.Reads argc argv := by
  cases h with
  | lowmem =>
    simp only [Handler.run, World.onDaemon, Option.isSome_map, Predefine.lowmem_isSome_iff,
      Handler.Reads]
  | lowbat =>
    simp only [Handler.run, Option.isSome_map, LowBatPopup.lowbat_isSome_iff, Handler.Reads]
  | setForegrd | setBackgrd | setActive | setInactive =>
    simp only [Handler.run, World.onProc, Option.isSome_map, ProcMgr.setForegrdAction,
      ProcMgr.setBackgrdAction, ProcMgr.setActiveAction, ProcMgr.setInactiveAction,
      ProcMgr.oomAction_isSome_iff, Handler.Reads]
  | setOomadj =>
    simp only [Handler.run, World.onProc, Option.isSome_map, ProcMgr.setOomadj_isSome_iff,
      Handler.Reads]
  | setMaxFrequency | setMinFrequency =>
    simp only [Handler.run, World.onCpu, Option.isSome_map, CpuFreq.setMaxFrequencyAction,
      CpuFreq.setMinFrequencyAction, CpuFreq.setFrequency_isSome_iff, Handler.Reads]
  | releaseMaxFrequency | releaseMinFrequency =>
    simp only [Handler.run, World.onCpu, Option.isSome_map, CpuFreq.releaseMaxFrequencyAction,
      CpuFreq.releaseMinFrequencyAction, CpuFreq.releaseFrequency_isSome_iff, Handler.Reads]
  | mmcUnmounted =>
    simp only [Handler.run, Option.isSome_map, Mmc.unmounted_isSome_iff, Handler.Reads]
  | launching | setDatetime | setTimezone | mmcInserted | mmcFormat | usbStorageAdded
  | usbStorageRemoved => exact iff_of_true rfl trivial

variable {H : Type}

/-! ## Requests -/

/-- The dispatch of the message hands no NULL pointer to `strcmp`, nor does
the handler of an entry made for it to `strcmp` or `atoi`, whenever it is
run. -/
def NullFree (E : Env) (w : World) (mem : AddMem) (msg : Sysnoti) (s : Core (Option Handler)) : Prop :=
  ∃ r, ssActionEntryCall mem msg msg.argc msg.argv s = some r ∧
    ∀ e₀ ∈ r.2.runQueue, e₀ ∉ s.runQueue →
      ∀ ls s' e, (lts (Option Handler)).run r.2 ls = some s' → e ∈ s'.runQueue → e.id = e₀.id →
        ∀ h, e.actionEntry.predefineAction = some h → (h.run K E e.argc e.argv w).isSome

/-- The type is there, or there is no action to compare it with; and where an
entry is made, what its handler reads is there. -/
def Given (mem : AddMem) (msg : Sysnoti) (s : Core (Option Handler)) : Prop :=
  (msg.type = none → s.predefActList = []) ∧
    ∀ d h, ssActionEntryFind msg.type s.predefActList = some (some d) → ¬ Denied d msg.pid →
      mem = .both → d.predefineAction = some h → h.Reads msg.argc msg.argv

/-- The entry a message adds is the new one. -/
theorem new_entry {s : Core H} (hs : Inv s) {d : ActionEntry H} {msg : Sysnoti}
    (hargv : msg.argv.length = msg.argc.toNat) {e₀ : Entry H} :
    e₀ ∈ (added d msg.argc msg.argv s).runQueue ∧ e₀ ∉ s.runQueue ↔
      e₀ = ⟨s.nextId, .INIT, d, 0, msg.argc, msg.argv⟩ := by
  have hqueue : (added d msg.argc msg.argv s).runQueue =
      ⟨s.nextId, .INIT, d, 0, msg.argc, msg.argv⟩ :: s.runQueue := by
    simp only [added, ssRunQueueAdd, ssCoreActionRun, ← hargv, List.take_length]
  rw [hqueue]
  constructor
  · intro hadded
    exact (List.mem_cons.mp hadded.1).resolve_right hadded.2
  · intro heq
    rw [heq]
    exact ⟨List.mem_cons_self, fun hold => Nat.lt_irrefl _ (hs.lt _ hold)⟩

/-- The entry a message adds brings its handler the arguments of the message,
whenever it is run. -/
theorem added_run_iff (E : Env) (w : World) {s : Core (Option Handler)} (hs : Inv s)
    (hcode : s.pc.InCode) (d : ActionEntry (Option Handler)) {msg : Sysnoti}
    (hargv : msg.argv.length = msg.argc.toNat) :
    (∀ e₀ ∈ (added d msg.argc msg.argv s).runQueue, e₀ ∉ s.runQueue →
      ∀ ls s' e, (lts (Option Handler)).run (added d msg.argc msg.argv s) ls = some s' →
        e ∈ s'.runQueue → e.id = e₀.id →
        ∀ h, e.actionEntry.predefineAction = some h → (h.run K E e.argc e.argv w).isSome) ↔
      ∀ h, d.predefineAction = some h → h.Reads msg.argc msg.argv := by
  have hnew : Inv (added d msg.argc msg.argv s) := inv_added hs hcode d msg.argc msg.argv
  constructor
  · intro hall h hh
    obtain ⟨hin, hnot⟩ := (new_entry hs hargv).mpr rfl
    exact (run_isSome_iff K E _ _ w h).mp (hall _ hin hnot [] _ _ rfl hin rfl h hh)
  · intro hreads e₀ he₀ hnot ls s' e hr he hid h hh
    have hsame := run_data hnew he₀ hr he hid
    obtain rfl := (new_entry hs hargv).mp ⟨he₀, hnot⟩
    rw [hsame.actionEntry] at hh
    rw [run_isSome_iff, hsame.argc, hsame.argv]
    exact hreads h hh

/-- **Strings that are not there.** A decoded request hands no NULL pointer to
`strcmp` or `atoi`, neither in its dispatch nor in the run of the handler it
selects, if and only if its type is there (or no action is registered) and, an
entry being made for it, so are the arguments its handler reads. -/
theorem null_free_iff (s : Core (Option Handler)) (hs : (lts (Option Handler)).Reachable s)
    (hpc : s.pc = .idle) (M : Mem) (c : Conn) (msg : Sysnoti)
    (hmsg : (readMessage M c).1 = some msg) (mem : AddMem) (E : Env) (w : World) :
    NullFree K E w mem msg s ↔ Given mem msg s := by
  have hinv := inv_reachable hs
  have hargv := (readMessage_argc hmsg).2.1
  have hd := call_dispatched mem msg s
  unfold NullFree
  generalize ssActionEntryCall mem msg msg.argc msg.argv s = o at hd ⊢
  cases hd with
  | crash htype hacts =>
    refine iff_of_false (fun h => ?_) fun h => hacts (h.1 htype)
    obtain ⟨r, hr, -⟩ := h
    cases hr
  | refused found hfind hnone =>
    refine iff_of_true ⟨_, rfl, fun e₀ he₀ hnot => absurd he₀ hnot⟩ ⟨type_of_found hfind, ?_⟩
    intro d h hfound hdenied _ _
    obtain rfl := Option.some.inj (hfind.symm.trans hfound)
    exact absurd (hnone d rfl) hdenied
  | lost d hfind _ hmem =>
    refine iff_of_true ⟨_, rfl, fun e₀ he₀ hnot => absurd he₀ hnot⟩ ⟨type_of_found hfind, ?_⟩
    exact fun d h _ _ hboth _ => absurd hboth hmem
  | entry d hfind hdenied hmem =>
    have hrun := added_run_iff K E w hinv (by rw [hpc]; trivial) d hargv
    constructor
    · intro hfree
      obtain ⟨r, hr, hall⟩ := hfree
      obtain rfl := Option.some.inj hr
      refine ⟨type_of_found hfind, fun d' h hfind' _ _ hh => ?_⟩
      obtain rfl := Option.some.inj (Option.some.inj (hfind.symm.trans hfind'))
      exact hrun.mp hall h hh
    · intro hgiven
      exact ⟨_, rfl, hrun.mpr fun h hh => hgiven.2 d h hfind hdenied hmem hh⟩

/-- A call of "active" by a client, with one argument. -/
def active (argument : Bytes) : Bytes :=
  intBytes 7 ++ intBytes 1 ++ intBytes 6 ++ lit "active" ++ intBytes 1 ++ lit "p" ++ intBytes 1 ++
    argument

theorem find_active : ssActionEntryFind (some ⟨0, lit "active"⟩) (registry 1) =
    some (some ⟨1, lit "active", [], some .setActive, none⟩) := rfl

theorem null_free_active : ∃ msg,
    (readMessage zeroMem (conn (active (intBytes 1 ++ lit "5")))).1 = some msg ∧
      ∀ E w, NullFree Mmc.someKeys E w .both msg (boot (registry 1)) := by
  refine ⟨⟨7, 1, some ⟨0, lit "active"⟩, some ⟨1, lit "p"⟩, 1, [some ⟨2, lit "5"⟩]⟩, by decide,
    fun E w => ?_⟩
  refine (null_free_iff Mmc.someKeys (boot (registry 1)) (.init (init_boot _)) rfl zeroMem
    (conn (active (intBytes 1 ++ lit "5"))) _ (by decide) .both E w).mpr ⟨nofun, ?_⟩
  intro d h hfind _ _ hh
  obtain rfl := Option.some.inj (Option.some.inj (find_active.symm.trans hfind))
  obtain rfl := Option.some.inj hh
  exact .inr rfl

/-- The same call with an argument of length 0. -/
theorem null_argument : ∃ msg, (readMessage zeroMem (conn (active (intBytes 0)))).1 = some msg ∧
    msg.argc = 1 ∧ ∀ E w, ¬ NullFree Mmc.someKeys E w .both msg (boot (registry 1)) := by
  refine ⟨⟨7, 1, some ⟨0, lit "active"⟩, some ⟨1, lit "p"⟩, 1, [none]⟩, by decide, rfl, ?_⟩
  intro E w hfree
  obtain ⟨r, hr, hall⟩ := hfree
  obtain rfl := Option.some.inj hr
  have hrun := hall _ List.mem_cons_self List.not_mem_nil [] _ _ rfl List.mem_cons_self rfl
    .setActive rfl
  rcases (run_isSome_iff Mmc.someKeys E _ _ w .setActive).mp hrun with hargc | harg
  · exact absurd hargc (by decide)
  · cases harg

end SystemServer.L4.NullArgs
