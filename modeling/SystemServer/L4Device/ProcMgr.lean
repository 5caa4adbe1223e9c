import Mathlib.Data.List.Nodup
import Mathlib.Tactic.Common
import SystemServer.Core.CString
import SystemServer.Core.LTS

/-!
# Process manager (`ss_procmgr.c`)

Four requests tell the daemon that a process came to the foreground, went to
the background, became active or became inactive. The daemon remembers
nothing: it reads the process's `oom_adj`, and its switch turns the value
into the next one. A process that goes to the unlocked background first
makes the older ones there a little more likely to be killed
(`check_and_set_old_backgrd`).

The purpose, in its own terms: a process is in a place and locked or not
(`Meaning`), and a request changes one of the two. `two_bit_meaning`: while
`/proc` is accessible, in every run with processes starting and exiting and
any number of ageing passes, the value of a process that started at
OOMADJ_INIT stands for its last place and its last lock.

A process that gets SIGTERM exits in a step of its own, if it does. The text
of an `oom_adj` file is the number it stands for; traces are left out.
-/
namespace SystemServer.L4.ProcMgr

/-! ## The source's constants -/

/-- mirrors include/ss_data.h:79-86 -/
def OOMADJ_SU : Int := -17
def OOMADJ_INIT : Int := -16
def OOMADJ_FOREGRD_LOCKED : Int := -15
def OOMADJ_FOREGRD_UNLOCKED : Int := -10
def OOMADJ_BACKGRD_LOCKED : Int := -5
def OOMADJ_BACKGRD_UNLOCKED : Int := 1
def OOMADJ_APP_LIMIT : Int := -16

/-- mirrors ss_procmgr.c:29 -/
def LIMITED_PROCESS_OOMADJ : Int := 15

/-! ## Processes -/

structure Proc where
  pid : Int
  oomAdj : Int
  deriving DecidableEq, Repr

/-- What is done to a process. -/
inductive Effect where
  | write (pid oomAdj : Int)
  | sigterm (pid : Int)
  deriving DecidableEq, Repr

structure State where
  /-- in the order `readdir` finds them -/
  procs : List Proc
  /-- oldest first -/
  log : List Effect
  nodup : (procs.map Proc.pid).Nodup
  pos : ∀ q ∈ procs, 0 < q.pid

/-- The content of `/proc/<pid>/oom_adj`. -/
def State.oomAdj (s : State) (pid : Int) : Option Int :=
  (s.procs.find? (·.pid = pid)).map Proc.oomAdj

/-- Every process keeps its pid. -/
def State.update (s : State) (f : Proc → Int) (es : List Effect) : State where
  procs := s.procs.map fun q => { q with oomAdj := f q }
  log := s.log ++ es
  nodup := by simpa only [List.map_map, Function.comp_def] using s.nodup
  pos := by
    intro q' hq'
    obtain ⟨q, hq, rfl⟩ := List.mem_map.mp hq'
    exact s.pos q hq

def State.write (s : State) (pid v : Int) : State :=
  s.update (fun q => if q.pid = pid then v else q.oomAdj) [.write pid v]

/-- A pid is taken by one process at a time. -/
def State.start (s : State) (pid v : Int) : Option State :=
  if h : 0 < pid ∧ pid ∉ s.procs.map Proc.pid then
    some {
      procs := s.procs ++ [⟨pid, v⟩]
      log := s.log
      nodup := by
        rw [List.map_append]
        exact s.nodup.append (List.nodup_singleton _) (List.disjoint_singleton.mpr h.2)
      pos := by
        intro q hq
        rcases List.mem_append.mp hq with hq | hq
        · exact s.pos q hq
        · rw [List.mem_singleton.mp hq]; exact h.1 }
  else none

def State.exit (s : State) (pid : Int) : State where
  procs := s.procs.filter (·.pid ≠ pid)
  log := s.log
  nodup := s.nodup.sublist (List.filter_sublist.map _)
  pos := fun q hq => s.pos q (List.mem_of_mem_filter hq)

/-! ## Reading and writing `oom_adj` -/

/-- The outcomes of the `/proc` accesses of one request: which of them
succeed. An entry that `readdir` does not get to is one that cannot be read. -/
structure Access where
  /-- `get_app_oomadj`, opening and reading -/
  get : Bool
  /-- `set_app_oomadj`, opening and reading, opening to write, writing -/
  setRead : Bool
  setOpen : Bool
  setWrite : Bool
  /-- `opendir` of the first and of the second scan -/
  lookDir : Bool
  ageDir : Bool
  /-- opening and reading the entry of a pid in the first and in the second
  scan, and writing it -/
  look : Int → Bool
  age : Int → Bool
  ageWrite : Int → Bool

/-- `none` is the return value -1.
mirrors ss_procmgr.c:31-50 -/
def getAppOomadj (a : Access) (pid : Int) (s : State) : Option Int :=
  if pid < 0 then none else if a.get then s.oomAdj pid else none

/-- mirrors ss_procmgr.c:52-89 -/
def setAppOomadj (a : Access) (pid newOomadj : Int) (s : State) : Int × State :=
  match if a.setRead then s.oomAdj pid else none with
  | none => (-1, s)
  | some oldOomadj =>
    if oldOomadj < OOMADJ_APP_LIMIT then (0, s)
    else if a.setOpen = false then (-1, s)
    else (0, if a.setWrite then s.write pid newOomadj else s)

/-! ## Ageing -/

/-- The first scan: whether it stops at a process.
mirrors ss_procmgr.c:130-151 -/
def lookOldBackgrd (a : Access) : List Proc → Bool
  | [] => false
  | q :: qs =>
    if a.look q.pid = false then lookOldBackgrd a qs
    else if q.oomAdj = OOMADJ_BACKGRD_UNLOCKED then true
    else lookOldBackgrd a qs

/-- One round of the second scan: the entry's value after it, and what is
done to the process.
mirrors ss_procmgr.c:162-184 -/
def ageEntry (a : Access) (q : Proc) : Int × List Effect :=
  if a.age q.pid = false then (q.oomAdj, [])
  else if q.oomAdj ≥ LIMITED_PROCESS_OOMADJ then (q.oomAdj, [.sigterm q.pid])
  else if q.oomAdj ≥ OOMADJ_BACKGRD_UNLOCKED then
    if a.ageWrite q.pid then (q.oomAdj + 1, [.write q.pid (q.oomAdj + 1)]) else (q.oomAdj, [])
  else (q.oomAdj, [])

/-- The second scan: a round reads and writes nothing but its own entry. -/
def State.age (a : Access) (s : State) : State :=
  s.update (fun q => (ageEntry a q).1) (s.procs.flatMap fun q => (ageEntry a q).2)

/-- mirrors ss_procmgr.c:115-189 -/
def checkAndSetOldBackgrd (a : Access) (s : State) : Int × State :=
  if a.lookDir = false then (-1, s)
  else if lookOldBackgrd a s.procs then
    if a.ageDir = false then (-1, s) else (0, s.age a)
  else (0, s)

/-! ## The four actions -/

/-- What a case of one of the switches does. -/
inductive Case where
  | keep
  | set (v : Int)
  /-- `check_and_set_old_backgrd` first -/
  | ageSet (v : Int)
  | unknown
  deriving DecidableEq, Repr

def Case.perform (a : Access) (pid : Int) (s : State) : Case → Int × State
  | .keep => (0, s)
  | .set v => setAppOomadj a pid v s
  | .ageSet v => setAppOomadj a pid v (checkAndSetOldBackgrd a s).2
  | .unknown => (-1, s)

/-- The four actions are the same code around their switches. `none` where
`atoi` is handed a NULL pointer. -/
def oomAction (switch : Int → Case) (a : Access) (argc : Int) (argv : List CPtr) (s : State) :
    Option (Int × State) :=
  if argc < 1 then some (-1, s)
  else match atoiP (arg argv 0) with
    | none => none
    | some pid =>
      if pid < 0 then some (-1, s)
      else match getAppOomadj a pid s with
        | none => some (-1, s)
        | some oomadj => some ((switch oomadj).perform a pid s)

theorem oomAction_isSome_iff (switch : Int → Case) (a : Access) (argc : Int) (argv : List CPtr)
    (s : State) : (oomAction switch a argc argv s).isSome ↔ argc < 1 ∨ (arg argv 0).isSome := by
  rw [oomAction, isSome_guarded, ← isSome_atoiP]
  cases atoiP (arg argv 0) with
  | none => simp
  | some pid =>
    simp only [Option.isSome_some]
    split
    · simp
    · split <;> simp

/-- mirrors ss_procmgr.c:205-228 -/
def activeSwitch (oomadj : Int) : Case :=
  if oomadj = OOMADJ_FOREGRD_LOCKED ∨ oomadj = OOMADJ_BACKGRD_LOCKED ∨ oomadj = OOMADJ_SU then .keep
  else if oomadj = OOMADJ_FOREGRD_UNLOCKED then .set OOMADJ_FOREGRD_LOCKED
  else if oomadj = OOMADJ_BACKGRD_UNLOCKED then .set OOMADJ_BACKGRD_LOCKED
  else if oomadj = OOMADJ_INIT then .set OOMADJ_BACKGRD_LOCKED
  else if oomadj > OOMADJ_BACKGRD_UNLOCKED then .set OOMADJ_BACKGRD_LOCKED
  else .unknown

/-- mirrors ss_procmgr.c:246-272 -/
def inactiveSwitch (oomadj : Int) : Case :=
  if oomadj = OOMADJ_FOREGRD_UNLOCKED ∨ oomadj = OOMADJ_BACKGRD_UNLOCKED ∨ oomadj = OOMADJ_SU then
    .keep
  else if oomadj = OOMADJ_FOREGRD_LOCKED then .set OOMADJ_FOREGRD_UNLOCKED
  else if oomadj = OOMADJ_BACKGRD_LOCKED then .ageSet OOMADJ_BACKGRD_UNLOCKED
  else if oomadj = OOMADJ_INIT then .ageSet OOMADJ_BACKGRD_UNLOCKED
  else if oomadj > OOMADJ_BACKGRD_UNLOCKED then .keep
  else .unknown

/-- mirrors ss_procmgr.c:290-314 -/
def foregrdSwitch (oomadj : Int) : Case :=
  if oomadj = OOMADJ_FOREGRD_LOCKED ∨ oomadj = OOMADJ_FOREGRD_UNLOCKED ∨ oomadj = OOMADJ_SU then
    .keep
  else if oomadj = OOMADJ_BACKGRD_LOCKED then .set OOMADJ_FOREGRD_LOCKED
  else if oomadj = OOMADJ_BACKGRD_UNLOCKED then .set OOMADJ_FOREGRD_UNLOCKED
  else if oomadj = OOMADJ_INIT then .set OOMADJ_FOREGRD_UNLOCKED
  else if oomadj > OOMADJ_BACKGRD_UNLOCKED then .set OOMADJ_FOREGRD_UNLOCKED
  else .unknown

/-- mirrors ss_procmgr.c:332-357 -/
def backgrdSwitch (oomadj : Int) : Case :=
  if oomadj = OOMADJ_BACKGRD_LOCKED ∨ oomadj = OOMADJ_BACKGRD_UNLOCKED ∨ oomadj = OOMADJ_SU then
    .keep
  else if oomadj = OOMADJ_FOREGRD_LOCKED then .set OOMADJ_BACKGRD_LOCKED
  else if oomadj = OOMADJ_FOREGRD_UNLOCKED then .ageSet OOMADJ_BACKGRD_UNLOCKED
  else if oomadj = OOMADJ_INIT then .ageSet OOMADJ_BACKGRD_UNLOCKED
  else if oomadj > OOMADJ_BACKGRD_UNLOCKED then .keep
  else .unknown

/-- mirrors ss_procmgr.c:191-230 -/
def setActiveAction : Access → Int → List CPtr → State → Option (Int × State) :=
  oomAction activeSwitch

/-- mirrors ss_procmgr.c:232-274 -/
def setInactiveAction : Access → Int → List CPtr → State → Option (Int × State) :=
  oomAction inactiveSwitch

/-- mirrors ss_procmgr.c:276-316 -/
def setForegrdAction : Access → Int → List CPtr → State → Option (Int × State) :=
  oomAction foregrdSwitch

/-- mirrors ss_procmgr.c:318-359 -/
def setBackgrdAction : Access → Int → List CPtr → State → Option (Int × State) :=
  oomAction backgrdSwitch

/-- The second argument is read only where the first is a pid.
mirrors ss_procmgr.c:91-113 -/
def setOomadjAction (a : Access) (argc : Int) (argv : List CPtr) (s : State) : Option (Int × State) :=
  if argc < 2 then some (-1, s)
  else match atoiP (arg argv 0) with
    | none => none
    | some pid =>
      if pid < 0 then some (-1, s)
      else match atoiP (arg argv 1) with
        | none => none
        | some newOomadj =>
          if newOomadj ≤ -20 then some (-1, s)
          else if a.setOpen = false ∨ s.oomAdj pid = none then some (-1, s)
          else some (0, if a.setWrite then s.write pid newOomadj else s)

theorem setOomadj_isSome_iff (a : Access) (argc : Int) (argv : List CPtr) (s : State) :
    (setOomadjAction a argc argv s).isSome ↔
      argc < 2 ∨ ∃ pid, atoiP (arg argv 0) = some pid ∧ (pid < 0 ∨ (arg argv 1).isSome) := by
  rw [setOomadjAction, isSome_guarded, ← isSome_atoiP (arg argv 1)]
  cases atoiP (arg argv 0) with
  | none => simp
  | some pid =>
    simp only [isSome_guarded, Option.some.injEq, exists_eq_left']
    cases atoiP (arg argv 1) with
    | none => simp
    | some newOomadj =>
      simp only [Option.isSome_some, or_true, iff_true]
      split
      · simp
      · split <;> simp

inductive Request where
  | foregrd | backgrd | active | inactive
  deriving DecidableEq, Repr

def Request.switch : Request → Int → Case
  | .foregrd => foregrdSwitch
  | .backgrd => backgrdSwitch
  | .active => activeSwitch
  | .inactive => inactiveSwitch

/-- The actions as they are registered.
mirrors ss_procmgr.c:361-373 -/
def Request.action : Request → Access → Int → List CPtr → State → Option (Int × State)
  | .foregrd => setForegrdAction
  | .backgrd => setBackgrdAction
  | .active => setActiveAction
  | .inactive => setInactiveAction

/-! ## Places and locks -/

inductive Place where
  | foregrd | backgrd
  deriving DecidableEq, Repr

inductive Lock where
  | locked | unlocked
  deriving DecidableEq, Repr

structure Meaning where
  place : Place
  lock : Lock
  deriving DecidableEq, Repr

/-- What a value stands for. -/
def meaning (v : Int) : Option Meaning :=
  if v = OOMADJ_FOREGRD_LOCKED then some ⟨.foregrd, .locked⟩
  else if v = OOMADJ_FOREGRD_UNLOCKED then some ⟨.foregrd, .unlocked⟩
  else if v = OOMADJ_BACKGRD_LOCKED then some ⟨.backgrd, .locked⟩
  else if v ≥ OOMADJ_BACKGRD_UNLOCKED then some ⟨.backgrd, .unlocked⟩
  else none

/-- The place a request puts a process in. -/
def Request.place : Request → Option Place
  | .foregrd => some .foregrd
  | .backgrd => some .backgrd
  | _ => none

def Request.lock : Request → Option Lock
  | .active => some .locked
  | .inactive => some .unlocked
  | _ => none

/-- The place of the last request that has one, the background if none has. -/
def lastPlace (rs : List Request) : Place := (rs.filterMap Request.place).getLast?.getD .backgrd

def lastLock (rs : List Request) : Lock := (rs.filterMap Request.lock).getLast?.getD .unlocked

/-! ## Runs -/

/-- A process's time: the value it started at and the requests that named it. -/
structure Life where
  entered : Int
  /-- oldest first -/
  received : List Request

inductive Lbl where
  | start (pid oomAdj : Int)
  | exit (pid : Int)
  | request (r : Request) (a : Access) (argc : Int) (argv : List CPtr)

structure St where
  os : State
  /-- ghost: the present life of a pid -/
  lives : Int → Life

/-- The process a request names. -/
def named (argc : Int) (argv : List CPtr) : Option Int :=
  if argc < 1 then none else atoiP (arg argv 0)

def step (s : St) : Lbl → Option St
  | .start pid v => (s.os.start pid v).map fun os =>
    ⟨os, fun p => if p = pid then ⟨v, []⟩ else s.lives p⟩
  | .exit pid => some { s with os := s.os.exit pid }
  | .request r a argc argv => (r.action a argc argv s.os).map fun o =>
    ⟨o.2, fun p => if named argc argv = some p then
      { s.lives p with received := (s.lives p).received ++ [r] } else s.lives p⟩

/-- Any processes with any values, and no request yet. -/
def Init (s : St) : Prop := ∀ q ∈ s.os.procs, s.lives q.pid = ⟨q.oomAdj, []⟩

def lts : LTS St Lbl := ⟨Init, step⟩

/-- Every access succeeds. -/
def Access.ok : Access :=
  ⟨true, true, true, true, true, true, fun _ => true, fun _ => true, fun _ => true⟩

def Accessible (_ : St) : Lbl → Prop
  | .request _ a _ _ => a = .ok
  | _ => True

/-! ## The process table -/

theorem oomAdj_eq_some {s : State} {pid v : Int} : s.oomAdj pid = some v ↔ ⟨pid, v⟩ ∈ s.procs := by
  unfold State.oomAdj
  constructor
  · intro h
    obtain ⟨q, hq, rfl⟩ := Option.map_eq_some_iff.mp h
    have hpid : q.pid = pid := by simpa using List.find?_some hq
    exact hpid ▸ List.mem_of_find?_eq_some hq
  · intro h
    cases hq : s.procs.find? (·.pid = pid) with
    | none => exact absurd (List.find?_eq_none.mp hq _ h) (by simp)
    | some q =>
      have hpid : q.pid = pid := by simpa using List.find?_some hq
      have hmem := List.mem_of_find?_eq_some hq
      rw [List.inj_on_of_nodup_map s.nodup hmem h hpid]
      rfl

theorem mem_update {s : State} {f : Proc → Int} {es : List Effect} {q' : Proc} :
    q' ∈ (s.update f es).procs ↔ ∃ q ∈ s.procs, { q with oomAdj := f q } = q' :=
  List.mem_map

/-! ## What a request does -/

theorem ageEntry_of_lt (a : Access) {q : Proc} (h : q.oomAdj < OOMADJ_BACKGRD_UNLOCKED) :
    ageEntry a q = (q.oomAdj, []) := by
  have hlim : ¬ q.oomAdj ≥ LIMITED_PROCESS_OOMADJ := by
    unfold OOMADJ_BACKGRD_UNLOCKED at h
    unfold LIMITED_PROCESS_OOMADJ
    omega
  unfold ageEntry
  rw [if_neg hlim, if_neg (Int.not_le.mpr h), ite_self]

theorem le_ageEntry (a : Access) (q : Proc) : q.oomAdj ≤ (ageEntry a q).1 := by
  unfold ageEntry
  split
  · exact Int.le_refl _
  · split
    · exact Int.le_refl _
    · split
      · split
        · show q.oomAdj ≤ q.oomAdj + 1
          omega
        · exact Int.le_refl _
      · exact Int.le_refl _

theorem meaning_unlocked {v : Int} (h : v ≥ OOMADJ_BACKGRD_UNLOCKED) :
    meaning v = some ⟨.backgrd, .unlocked⟩ := by
  unfold OOMADJ_BACKGRD_UNLOCKED at h
  unfold meaning OOMADJ_FOREGRD_LOCKED OOMADJ_FOREGRD_UNLOCKED OOMADJ_BACKGRD_LOCKED
    OOMADJ_BACKGRD_UNLOCKED
  rw [if_neg (by omega), if_neg (by omega), if_neg (by omega), if_pos h]

/-- Ageing changes no meaning. -/
theorem meaning_ageEntry (a : Access) (q : Proc) : meaning (ageEntry a q).1 = meaning q.oomAdj := by
  by_cases h : q.oomAdj < OOMADJ_BACKGRD_UNLOCKED
  · rw [ageEntry_of_lt a h]
  · have hge := Int.not_lt.mp h
    rw [meaning_unlocked (Int.le_trans hge (le_ageEntry a q)), meaning_unlocked hge]

theorem checkAndSetOldBackgrd_cases (a : Access) (s : State) :
    (checkAndSetOldBackgrd a s).2 = s ∨ (checkAndSetOldBackgrd a s).2 = s.age a := by
  unfold checkAndSetOldBackgrd
  split
  · exact .inl rfl
  · split
    · split
      · exact .inl rfl
      · exact .inr rfl
    · exact .inl rfl

theorem action_eq (r : Request) : r.action = oomAction r.switch := by
  cases r <;> rfl

/-- An action does nothing, or what its switch says of a process that is there. -/
theorem oomAction_cases {switch : Int → Case} {a : Access} {argc : Int} {argv : List CPtr}
    {s : State} {o : Int × State} (h : oomAction switch a argc argv s = some o) :
    (o.2 = s ∧ ∀ pid, named argc argv = some pid → a.get = true → s.oomAdj pid = none) ∨
    ∃ pid v, named argc argv = some pid ∧ s.oomAdj pid = some v ∧ o = (switch v).perform a pid s := by
  unfold oomAction at h
  by_cases hargc : argc < 1
  · rw [if_pos hargc] at h
    obtain rfl := Option.some.inj h
    refine .inl ⟨rfl, fun pid hn => ?_⟩
    rw [named, if_pos hargc] at hn
    cases hn
  rw [if_neg hargc] at h
  have hnamed : named argc argv = atoiP (arg argv 0) := if_neg hargc
  rw [hnamed]
  cases hpid : atoiP (arg argv 0) with
  | none => rw [hpid] at h; cases h
  | some pid =>
    simp only [hpid] at h
    have habsent : pid < 0 → s.oomAdj pid = none := by
      intro hneg
      refine Option.eq_none_iff_forall_ne_some.mpr fun v hv => ?_
      have hpos : 0 < pid := s.pos _ (oomAdj_eq_some.mp hv)
      omega
    by_cases hneg : pid < 0
    · rw [if_pos hneg] at h
      obtain rfl := Option.some.inj h
      refine .inl ⟨rfl, fun p hp _ => ?_⟩
      rw [← Option.some.inj hp]; exact habsent hneg
    rw [if_neg hneg] at h
    have hget : getAppOomadj a pid s = if a.get then s.oomAdj pid else none := if_neg hneg
    rw [hget] at h
    by_cases hacc : a.get = true
    · rw [if_pos hacc] at h
      cases hv : s.oomAdj pid with
      | none =>
        rw [hv] at h
        obtain rfl := Option.some.inj h
        refine .inl ⟨rfl, fun p hp _ => ?_⟩
        rw [← Option.some.inj hp]; exact hv
      | some v =>
        rw [hv] at h
        exact .inr ⟨pid, v, rfl, hv, (Option.some.inj h).symm⟩
    · rw [if_neg hacc] at h
      obtain rfl := Option.some.inj h
      exact .inl ⟨rfl, fun p _ hok => absurd hok hacc⟩

/-- A case of a switch leaves its process at this value. -/
def Case.value (v : Int) : Case → Int
  | .keep => v
  | .set w => w
  | .ageSet w => w
  | .unknown => v

/-- A switch never asks for a write to a process below the limit. -/
theorem switch_guard (r : Request) {v : Int} (h : v < OOMADJ_APP_LIMIT) :
    r.switch v = .keep ∨ r.switch v = .unknown := by
  have hconst : OOMADJ_APP_LIMIT = -16 := rfl
  have hne : ∀ w : Int, -16 ≤ w → v ≠ w := by
    intro w hw
    omega
  have hle : ¬ v > OOMADJ_BACKGRD_UNLOCKED := by
    unfold OOMADJ_BACKGRD_UNLOCKED
    omega
  cases r <;>
  · simp only [Request.switch, foregrdSwitch, backgrdSwitch, activeSwitch, inactiveSwitch,
      if_neg (hne OOMADJ_FOREGRD_LOCKED (by decide)), if_neg (hne OOMADJ_FOREGRD_UNLOCKED (by decide)),
      if_neg (hne OOMADJ_BACKGRD_LOCKED (by decide)), if_neg (hne OOMADJ_BACKGRD_UNLOCKED (by decide)),
      if_neg (hne OOMADJ_INIT (by decide)), if_neg hle]
    split
    · exact .inl rfl
    · exact .inr rfl

theorem setAppOomadj_ok {s : State} {pid v : Int} (h : s.oomAdj pid = some v)
    (hv : OOMADJ_APP_LIMIT ≤ v) (w : Int) : setAppOomadj .ok pid w s = (0, s.write pid w) := by
  simp only [setAppOomadj, Access.ok, if_true, h, if_neg (Int.not_lt.mpr hv), Bool.true_eq_false,
    if_false]

theorem mem_write {s : State} {pid w : Int} {q' : Proc} (h : q' ∈ (s.write pid w).procs) :
    if q'.pid = pid then q'.oomAdj = w else q' ∈ s.procs := by
  obtain ⟨q, hq, rfl⟩ := mem_update.mp h
  by_cases hpid : q.pid = pid
  · rw [if_pos hpid, if_pos hpid]
  · rw [if_neg hpid, if_neg hpid]; exact hq

theorem oomAdj_age {s : State} {pid v : Int} (h : s.oomAdj pid = some v) (a : Access) :
    (s.age a).oomAdj pid = some (ageEntry a ⟨pid, v⟩).1 :=
  oomAdj_eq_some.mpr (mem_update.mpr ⟨⟨pid, v⟩, oomAdj_eq_some.mp h, rfl⟩)

/-- The others are aged or left alone. -/
def Others (s : State) (q' : Proc) : Prop :=
  ∃ q ∈ s.procs, q.pid = q'.pid ∧ (q'.oomAdj = q.oomAdj ∨ q'.oomAdj = (ageEntry .ok q).1)

/-- The setter, after a pass that did nothing worse than ageing. -/
theorem setAppOomadj_others {s s₁ : State} {pid v : Int} (h : s₁.oomAdj pid = some v)
    (hv : OOMADJ_APP_LIMIT ≤ v) (hs : ∀ q ∈ s₁.procs, Others s q) (w : Int) {q' : Proc}
    (hq' : q' ∈ (setAppOomadj .ok pid w s₁).2.procs) :
    if q'.pid = pid then q'.oomAdj = w else Others s q' := by
  rw [setAppOomadj_ok h hv] at hq'
  have hw := mem_write hq'
  by_cases hpid : q'.pid = pid
  · rw [if_pos hpid] at hw
    rw [if_pos hpid]; exact hw
  · rw [if_neg hpid] at hw
    rw [if_neg hpid]; exact hs q' hw

/-- What a request changes while `/proc` is accessible: its process takes
the value of its case. -/
theorem perform_ok {s : State} {pid v : Int} (h : s.oomAdj pid = some v) (r : Request) {q' : Proc}
    (hq' : q' ∈ ((r.switch v).perform .ok pid s).2.procs) :
    if q'.pid = pid then q'.oomAdj = (r.switch v).value v else Others s q' := by
  have hother : ∀ q ∈ s.procs, Others s q := fun q hq => ⟨q, hq, rfl, .inl rfl⟩
  have hsame : q' ∈ s.procs → if q'.pid = pid then q'.oomAdj = v else Others s q' := by
    intro hmem
    by_cases hpid : q'.pid = pid
    · have hv : s.oomAdj pid = some q'.oomAdj := oomAdj_eq_some.mpr (hpid ▸ hmem)
      rw [if_pos hpid]; exact Option.some.inj (hv.symm.trans h)
    · rw [if_neg hpid]; exact hother q' hmem
  have hlim : r.switch v ≠ .keep ∧ r.switch v ≠ .unknown → OOMADJ_APP_LIMIT ≤ v := fun hc =>
    Int.not_lt.mp fun hlt => (switch_guard r hlt).elim hc.1 hc.2
  cases hc : r.switch v with
  | keep => rw [hc] at hq'; exact hsame hq'
  | unknown => rw [hc] at hq'; exact hsame hq'
  | set w =>
    have hv := hlim (by rw [hc]; exact ⟨nofun, nofun⟩)
    rw [hc] at hq'
    exact setAppOomadj_others h hv hother w hq'
  | ageSet w =>
    have hv := hlim (by rw [hc]; exact ⟨nofun, nofun⟩)
    rw [hc, Case.perform] at hq'
    rcases checkAndSetOldBackgrd_cases .ok s with hs | hs
    · rw [hs] at hq'
      exact setAppOomadj_others h hv hother w hq'
    · -- the process itself may have been aged; it is written over
      rw [hs] at hq'
      refine setAppOomadj_others (oomAdj_age h .ok) (Int.le_trans hv (le_ageEntry _ _)) ?_ w hq'
      intro q₁ hq₁
      obtain ⟨q, hq, rfl⟩ := mem_update.mp hq₁
      exact ⟨q, hq, rfl, .inr rfl⟩

/-! ## One life -/

/-- The value of a process stands for its last requests. -/
def Life.Agrees (l : Life) (v : Int) : Prop :=
  l.entered = OOMADJ_INIT →
    if l.received = [] then v = OOMADJ_INIT
    else meaning v = some ⟨lastPlace l.received, lastLock l.received⟩

/-- What a request makes of a place and a lock. -/
def Request.apply (r : Request) (m : Meaning) : Meaning :=
  ⟨r.place.getD m.place, r.lock.getD m.lock⟩

theorem last_append (rs : List Request) (r : Request) :
    (⟨lastPlace (rs ++ [r]), lastLock (rs ++ [r])⟩ : Meaning) =
      r.apply ⟨lastPlace rs, lastLock rs⟩ := by
  unfold lastPlace lastLock Request.apply
  cases r <;> simp [Request.place, Request.lock, List.filterMap_append]

theorem meaning_cases {v : Int} {m : Meaning} (h : meaning v = some m) :
    v = OOMADJ_FOREGRD_LOCKED ∨ v = OOMADJ_FOREGRD_UNLOCKED ∨ v = OOMADJ_BACKGRD_LOCKED ∨
      v = OOMADJ_BACKGRD_UNLOCKED ∨ v > OOMADJ_BACKGRD_UNLOCKED := by
  by_cases hge : v ≥ OOMADJ_BACKGRD_UNLOCKED
  · omega
  · unfold meaning at h
    rw [if_neg hge] at h
    grind

/-- The default of a switch: an aged process. -/
theorem switch_aged (r : Request) {v : Int} (h : v > OOMADJ_BACKGRD_UNLOCKED) :
    r.switch v = match r with
      | .foregrd => .set OOMADJ_FOREGRD_UNLOCKED
      | .active => .set OOMADJ_BACKGRD_LOCKED
      | .backgrd => .keep
      | .inactive => .keep := by
  have hne : ∀ w : Int, w ≤ 1 → v ≠ w := by
    unfold OOMADJ_BACKGRD_UNLOCKED at h
    intro w hw
    omega
  cases r <;>
  simp only [Request.switch, foregrdSwitch, backgrdSwitch, activeSwitch, inactiveSwitch,
    hne OOMADJ_FOREGRD_LOCKED (by decide), hne OOMADJ_FOREGRD_UNLOCKED (by decide),
    hne OOMADJ_BACKGRD_LOCKED (by decide), hne OOMADJ_BACKGRD_UNLOCKED (by decide),
    hne OOMADJ_INIT (by decide), hne OOMADJ_SU (by decide), or_self, if_false, if_pos h]

/-- The switches compute on values what the requests do to meanings. -/
theorem switch_meaning (r : Request) {v : Int} {m : Meaning} (h : meaning v = some m) :
    meaning ((r.switch v).value v) = some (r.apply m) := by
  rcases meaning_cases h with rfl | rfl | rfl | rfl | hgt
  · obtain rfl := Option.some.inj h
    cases r <;> decide
  · obtain rfl := Option.some.inj h
    cases r <;> decide
  · obtain rfl := Option.some.inj h
    cases r <;> decide
  · obtain rfl := Option.some.inj h
    cases r <;> decide
  · have hm := meaning_unlocked (Int.le_of_lt hgt)
    obtain rfl := Option.some.inj (hm.symm.trans h)
    rw [switch_aged r hgt]
    cases r with
    | foregrd => rfl
    | active => rfl
    | backgrd => exact h
    | inactive => exact h

theorem switch_init (r : Request) : meaning ((r.switch OOMADJ_INIT).value OOMADJ_INIT) =
    some (r.apply ⟨.backgrd, .unlocked⟩) := by
  cases r <;> decide

theorem agrees_receive (r : Request) {l : Life} {v : Int} (h : l.Agrees v) :
    Life.Agrees { l with received := l.received ++ [r] } ((r.switch v).value v) := by
  intro hin
  have hv := h hin
  rw [if_neg (List.append_ne_nil_of_right_ne_nil _ (List.cons_ne_nil r [])), last_append]
  by_cases hnil : l.received = []
  · rw [if_pos hnil] at hv
    rw [hv, hnil]
    exact switch_init r
  · rw [if_neg hnil] at hv
    exact switch_meaning r hv

theorem agrees_ageEntry (a : Access) {l : Life} {q : Proc} (h : l.Agrees q.oomAdj) :
    l.Agrees (ageEntry a q).1 := by
  intro hin
  have hv := h hin
  by_cases hnil : l.received = []
  · rw [if_pos hnil] at hv
    rw [if_pos hnil, ageEntry_of_lt a (by rw [hv]; decide)]
    exact hv
  · rw [if_neg hnil] at hv
    rw [if_neg hnil, meaning_ageEntry]
    exact hv

/-! ## Runs of requests -/

/-- Every process's value stands for its last requests. -/
def Good (s : St) : Prop := ∀ q ∈ s.os.procs, (s.lives q.pid).Agrees q.oomAdj

theorem good_request {s : St} (hg : Good s) {r : Request} {argc : Int} {argv : List CPtr} {s' : St}
    (h : step s (.request r .ok argc argv) = some s') : Good s' := by
  obtain ⟨o, ho, rfl⟩ := Option.map_eq_some_iff.mp h
  rw [action_eq] at ho
  rcases oomAction_cases ho with ⟨hs, habsent⟩ | ⟨pid, v, hpid, hv, rfl⟩
  · intro q hq
    rw [hs] at hq
    have hq' : s.os.oomAdj q.pid = some q.oomAdj := oomAdj_eq_some.mpr hq
    have hn : named argc argv ≠ some q.pid := by
      intro hn
      rw [habsent q.pid hn rfl] at hq'
      cases hq'
    simp only [if_neg hn]
    exact hg q hq
  · intro q' hq'
    have hq := perform_ok hv r hq'
    by_cases hp : q'.pid = pid
    · rw [if_pos hp] at hq
      simp only [hpid, hp, if_true]
      rw [hq]
      exact agrees_receive r (hg ⟨pid, v⟩ (oomAdj_eq_some.mp hv))
    · rw [if_neg hp] at hq
      obtain ⟨q, hmem, hqpid, hval⟩ := hq
      have hn : named argc argv ≠ some q'.pid := by
        rw [hpid]
        exact fun he => hp (Option.some.inj he).symm
      simp only [if_neg hn]
      have hlife := hg q hmem
      rw [hqpid] at hlife
      rcases hval with hval | hval
      · rw [hval]; exact hlife
      · rw [hval]; exact agrees_ageEntry .ok hlife

theorem good_start {s : St} (hg : Good s) {pid v : Int} {s' : St}
    (h : step s (.start pid v) = some s') : Good s' := by
  obtain ⟨os, hos, rfl⟩ := Option.map_eq_some_iff.mp h
  unfold State.start at hos
  split at hos
  · rename_i hfresh
    obtain rfl := Option.some.inj hos
    intro q hq
    rcases List.mem_append.mp hq with hq | hq
    · have hne : q.pid ≠ pid := fun he => hfresh.2 (he ▸ List.mem_map_of_mem hq)
      simp only [if_neg hne]
      exact hg q hq
    · obtain rfl := List.mem_singleton.mp hq
      simp only [if_true]
      exact fun hin => hin
  · cases hos

theorem good_step : lts.Guarded Accessible Good := by
  intro s l s' hg hacc hst
  cases l with
  | start pid v => exact good_start hg hst
  | exit pid =>
    obtain rfl := Option.some.inj hst
    exact fun q hq => hg q (List.mem_of_mem_filter hq)
  | request r a argc argv =>
    obtain rfl : a = .ok := hacc
    exact good_request hg hst

theorem good_init {s : St} (h : Init s) : Good s := by
  intro q hq
  rw [h q hq]
  exact fun hin => hin

/-- **The two bits of `oom_adj`.** While `/proc` is accessible, in every run
of requests, starts and exits from any processes, the value of a living
process that started at OOMADJ_INIT and has been named since stands for its
last foregrd or backgrd request (background if there was none) and its last
active or inactive request (unlocked if there was none). -/
theorem two_bit_meaning {s₀ s : St} (h₀ : Init s₀) {ls : List Lbl} (hacc : lts.Meets Accessible s₀ ls)
    (hr : lts.run s₀ ls = some s) : ∀ q ∈ s.os.procs,
      (s.lives q.pid).entered = OOMADJ_INIT → (s.lives q.pid).received ≠ [] →
        meaning q.oomAdj =
          some ⟨lastPlace (s.lives q.pid).received, lastLock (s.lives q.pid).received⟩ := by
  intro q hq hin hne
  have h := good_step.run (good_init h₀) hacc hr q hq hin
  rw [if_neg hne] at h
  exact h

def boot : St := ⟨⟨[], [], List.nodup_nil, List.forall_mem_nil _⟩, fun _ => ⟨0, []⟩⟩

def req (r : Request) (pid : String) : Lbl := .request r .ok 1 [some ⟨0, lit pid⟩]

/-- The second process to go to the background ages the first. -/
def session : List Lbl :=
  [.start 5 OOMADJ_INIT, .start 6 OOMADJ_INIT, .start 7 OOMADJ_INIT, req .backgrd "5",
    req .foregrd "6", req .active "6", req .inactive "7"]

theorem two_bit_meaning_session : ∃ s, lts.run boot session = some s ∧
    s.os.procs = [⟨5, 2⟩, ⟨6, -15⟩, ⟨7, 1⟩] ∧
    meaning 2 = some ⟨lastPlace (s.lives 5).received, lastLock (s.lives 5).received⟩ := by
  have h₀ : Init boot := fun _ hq => absurd hq List.not_mem_nil
  have hacc : lts.Meets Accessible boot session :=
    LTS.meets_of_labels (by simp [session, req, Accessible]) boot
  refine ⟨_, rfl, rfl, ?_⟩
  exact two_bit_meaning h₀ hacc rfl ⟨5, 2⟩ List.mem_cons_self rfl nofun

end SystemServer.L4.ProcMgr
