import SystemServer.L4Device.Launch
import SystemServer.L4Device.ProcMgr

/-!
# Low memory and the power-off popup (`ss_predefine.c`)

`lowmem_def_predefine_action` logs the memory, and on OOM_MEM_ACT kills the
task the memory notifier names and says so in a popup. It compares its first
argument without a look at whether it is there (`lowmem_isSome_iff`).
`launching_predefine_action` shows the power-off popup and looks at no
argument.

Time, the names of the processes and the pid that `syspopup_launch` returns
are given by what the calls come to (`Env`).
-/
namespace SystemServer.L4.Predefine

open SystemServer.L4.Launch
open SystemServer.L4.ProcMgr (Access getAppOomadj setAppOomadj OOMADJ_BACKGRD_UNLOCKED OOMADJ_SU)

/-- mirrors include/ss_data.h:56 -/
def OOM_MEM_ACT : String := "oom_mem_act"

/-- mirrors ss_predefine.c:46,51, with the PREFIX of the package -/
def LOWMEM_EXEC_PATH : Bytes := lit "/usr/bin/lowmem-popup"
def MEMPS_EXEC_PATH : Bytes := lit "/usr/bin/memps"

/-- mirrors ss_predefine.c:58 -/
def MEMPS_LOG_FILE : Bytes := lit "/var/log/memps"

def NAME_MAX : Nat := 255

/-- The processes, `old_pid` of `make_memps_log`, what was launched and the
popups shown. -/
structure Daemon where
  proc : ProcMgr.State
  oldPid : Int
  launched : List Launched
  popups : List Bytes

/-- What a call meets. `now` is the time as it is written into the name of a
log, if there is memory for it; `oomAdj` is what the local holds where
`get_app_oomadj` fails. -/
structure Env where
  victim : Option Int
  sysmanGetPid : Bytes → Int
  cmdlineName : Option Bytes
  now : Option Bytes
  launch : Launch.Env
  opened : Bool
  access : Access
  oomAdj : Int
  popup : Int

/-- `snprintf(new_log, sizeof(new_log), "%s_%s_%d_...", ...)`, and the argument
made of it.
mirrors ss_predefine.c:112-118 -/
def logParams (file victimName : Bytes) (pid : Int) (now : Bytes) : Bytes :=
  lit "-f " ++ (file ++ lit "_" ++ victimName ++ lit ("_" ++ toString pid ++ "_") ++ now ++
    lit ".log").take (NAME_MAX - 1)

/-- mirrors ss_predefine.c:83-131 -/
def makeMempsLog (e : Env) (file : Bytes) (pid : Int) (victimName : Bytes) (s : Daemon) : Daemon :=
  if s.oldPid = pid then s
  else
    let s := { s with oldPid := pid }
    match e.now with
    | none => s
    | some now =>
      let l := ssLaunchEvenifExist e.launch (some MEMPS_EXEC_PATH)
        (some (logParams file victimName pid now))
      let s := { s with launched := s.launched ++ [l] }
      if l.ret > 0 ∧ e.opened = true then { s with proc := s.proc.write l.ret (-17) } else s

/-- The victim is killed, and unless it was in the background the popup is
shown.
mirrors ss_predefine.c:156-192 -/
def killVictim (e : Env) (s : Daemon) : Int × Daemon :=
  let pid := e.victim.getD (-1)
  if pid > 0 ∧ pid ≠ e.sysmanGetPid LOWMEM_EXEC_PATH ∧ pid ≠ e.sysmanGetPid MEMPS_EXEC_PATH then
    match e.cmdlineName with
    | none => (0, s)
    | some appname =>
      let s := makeMempsLog e MEMPS_LOG_FILE pid appname s
      let oomAdj := (getAppOomadj e.access pid s.proc).getD e.oomAdj
      let s := { s with proc := s.proc.update (·.oomAdj) [.sigterm pid] }
      if oomAdj ≥ OOMADJ_BACKGRD_UNLOCKED then (0, s)
      else if e.popup < 0 then (-1, s)
      else
        (0, { s with
          popups := s.popups ++ [appname]
          proc := (setAppOomadj e.access e.popup OOMADJ_SU s.proc).2 })
  else (0, s)

/-- `none` where `strcmp` is handed a NULL pointer.
mirrors ss_predefine.c:147-199 -/
def lowmemDefPredefineAction (e : Env) (argc : Int) (argv : List CPtr) (s : Daemon) :
    Option (Int × Daemon) :=
  if argc < 1 then some (-1, s)
  else
    (arg argv 0).map fun act =>
      if strcmp act.bytes (lit OOM_MEM_ACT) = 0 then killVictim e s
      else (0, makeMempsLog e MEMPS_LOG_FILE 1 (lit "LOWMEM_WARNING") s)

/-- mirrors ss_predefine.c:591-605 -/
def launchingPredefineAction (e : Env) (argc : Int) (s : Daemon) : Int × Daemon :=
  if argc < 0 then (-1, s)
  else if e.popup < 0 then (-1, s)
  else (0, { s with popups := s.popups ++ [lit "poweroff-syspopup"] })

/-- Where there are arguments, the first one is compared. -/
theorem lowmem_isSome_iff (e : Env) (argc : Int) (argv : List CPtr) (s : Daemon) :
    (lowmemDefPredefineAction e argc argv s).isSome ↔ argc < 1 ∨ (arg argv 0).isSome := by
  rw [lowmemDefPredefineAction, isSome_guarded, Option.isSome_map]

end SystemServer.L4.Predefine
