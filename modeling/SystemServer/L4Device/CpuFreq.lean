import SystemServer.Core.LTS
import SystemServer.Core.CString

/-!
# CPU frequency caps and floors (`ss_cpu_handler.c`)

Clients ask for a maximum (minimum) CPU frequency on behalf of a pid; the
power-saving settings ask for a maximum on behalf of the daemon itself. The
requests are kept in a list, the tightest one is cached in
`cur_max_cpu_freq` (`cur_min_cpu_freq`) and written to the hardware.

The two sides are the same code with the comparison the other way, so they
are one definition over `Dir`. `INT_MAX` (`INT_MIN`) stands in the cache for
"no request"; each caller that removes a request replaces it by the
hardware's limit before it writes, each in its own code:

* `release_max_frequency_action` and `power_saving_cpu_cb` compare the cache
  with `INT_MAX`, which is right (`translate_capped`);
* `power_saving_cb` compares it with `INT_MIN`, which is the other side's
  sentinel, and where nothing is added or removed it writes the cache as it
  stands.

A run keeps a second account of the requests, per pid, that says nothing of
lists and caches (`Ask.apply`). `cap_along_iff`: the values written in a run
are the tightest of that account, or the limit when it is empty, if and only
if no `power_saving_cb` of the run is taken in a state where one of its two
shortcuts shows (`CapSafe`).
-/
namespace SystemServer.L4.CpuFreq

/-! ## The two sides -/

inductive Dir where
  | max | min
  deriving DecidableEq, Repr

/-- The cache of an empty list. -/
def Dir.sentinel : Dir → Int
  | .max => INT_MAX
  | .min => INT_MIN

/-- `f` restricts more than `g`. -/
def Dir.Tighter : Dir → Int → Int → Prop
  | .max, f, g => f < g
  | .min, f, g => f > g

instance (d : Dir) (f g : Int) : Decidable (d.Tighter f g) := by
  cases d <;> simp only [Dir.Tighter] <;> infer_instance

/-- mirrors ss_cpu_handler.c:37-40 -/
structure CpuFreqEntry where
  pid : Int
  freq : Int
  deriving DecidableEq, Repr

/-- The list, the cache and the limit of one side.
mirrors ss_cpu_handler.c:29-35 -/
structure Side where
  list : List CpuFreqEntry
  cur : Int
  limit : Int
  deriving DecidableEq, Repr

/-- What an operation meets: which pids `/proc` has when the list is scanned,
whether `malloc` grants the entry, whether the plugin accepts the value. -/
structure Env where
  alive : Int → Bool
  mem : Bool
  oem : Bool

/-- The loop over the list: entries of `pid` and of dead pids go, the cache
becomes the tightest of the rest. -/
def scan (d : Dir) (e : Env) (pid : Int) : List CpuFreqEntry → Int → List CpuFreqEntry × Int
  | [], cur => ([], cur)
  | x :: xs, cur =>
    if e.alive x.pid = false ∨ x.pid = pid then scan d e pid xs cur
    else
      let r := scan d e pid xs (if d.Tighter x.freq cur then x.freq else cur)
      (x :: r.1, r.2)

def removeEntry (d : Dir) (e : Env) (pid : Int) (x : Side) : Side :=
  let r := scan d e pid x.list d.sentinel
  { x with list := r.1, cur := r.2 }

/-- The cache is updated before the allocation that can fail. A list node is
always allocated. -/
def addEntry (d : Dir) (e : Env) (pid freq : Int) (x : Side) : Int × Side :=
  let x := removeEntry d e pid x
  let x := { x with cur := if d.Tighter freq x.cur then freq else x.cur }
  if e.mem = false then (-1, x) else (0, { x with list := ⟨pid, freq⟩ :: x.list })

/-- mirrors ss_cpu_handler.c:275-298 -/
def removeEntryFromMaxCpuFreqList : Env → Int → Side → Side := removeEntry .max

/-- mirrors ss_cpu_handler.c:300-324 -/
def removeEntryFromMinCpuFreqList : Env → Int → Side → Side := removeEntry .min

/-- mirrors ss_cpu_handler.c:326-356 -/
def addEntryToMaxCpuFreqList : Env → Int → Int → Side → Int × Side := addEntry .max

/-- mirrors ss_cpu_handler.c:358-388 -/
def addEntryToMinCpuFreqList : Env → Int → Int → Side → Int × Side := addEntry .min

/-! ## The handler's state -/

structure Cpu where
  max : Side
  min : Side
  /-- `getpid()` -/
  self : Int
  /-- the values passed to the plugin, oldest first -/
  maxWrites : List Int
  minWrites : List Int
  deriving DecidableEq, Repr

def Cpu.side (c : Cpu) : Dir → Side
  | .max => c.max
  | .min => c.min

def Cpu.setSide (c : Cpu) : Dir → Side → Cpu
  | .max, x => { c with max := x }
  | .min, x => { c with min := x }

def Cpu.writes (c : Cpu) : Dir → List Int
  | .max => c.maxWrites
  | .min => c.minWrites

/-- mirrors ss_cpu_handler.c:390-401 -/
def writeMaxCpuFreq (e : Env) (freq : Int) (c : Cpu) : Int × Cpu :=
  (if e.oem then 0 else -1, { c with maxWrites := c.maxWrites ++ [freq] })

/-- mirrors ss_cpu_handler.c:403-414 -/
def writeMinCpuFreq (e : Env) (freq : Int) (c : Cpu) : Int × Cpu :=
  (if e.oem then 0 else -1, { c with minWrites := c.minWrites ++ [freq] })

def writeCpuFreq : Dir → Env → Int → Cpu → Int × Cpu
  | .max => writeMaxCpuFreq
  | .min => writeMinCpuFreq

@[simp] theorem side_setSide (c : Cpu) (d : Dir) (x : Side) : (c.setSide d x).side d = x := by
  cases d <;> rfl

@[simp] theorem writes_setSide (c : Cpu) (d d' : Dir) (x : Side) :
    (c.setSide d x).writes d' = c.writes d' := by
  cases d <;> cases d' <;> rfl

theorem side_setSide_ne {d d' : Dir} (h : d ≠ d') (c : Cpu) (x : Side) :
    (c.setSide d x).side d' = c.side d' := by
  cases d <;> cases d' <;> first | rfl | exact absurd rfl h

@[simp] theorem side_write (d d' : Dir) (e : Env) (freq : Int) (c : Cpu) :
    (writeCpuFreq d e freq c).2.side d' = c.side d' := by
  cases d <;> cases d' <;> rfl

@[simp] theorem writes_write (d : Dir) (e : Env) (freq : Int) (c : Cpu) :
    (writeCpuFreq d e freq c).2.writes d = c.writes d ++ [freq] := by
  cases d <;> rfl

theorem writes_write_ne {d d' : Dir} (h : d ≠ d') (e : Env) (freq : Int) (c : Cpu) :
    (writeCpuFreq d e freq c).2.writes d' = c.writes d' := by
  cases d <;> cases d' <;> first | rfl | exact absurd rfl h

/-! ## The actions -/

/-- `none` where `atoi` is handed a NULL pointer. -/
def setFrequencyAction (d : Dir) (e : Env) (argc : Int) (argv : List CPtr) (c : Cpu) :
    Option (Int × Cpu) :=
  if argc < 2 then some (-1, c)
  else match atoiP (arg argv 0), atoiP (arg argv 1) with
    | some pid, some freq =>
      let r := addEntry d e pid freq (c.side d)
      let c := c.setSide d r.2
      if r.1 < 0 then some (-1, c) else some (writeCpuFreq d e (c.side d).cur c)
    | _, _ => none

/-- The sentinel is replaced by the limit. -/
def Side.translate (d : Dir) (x : Side) : Side :=
  if x.cur = d.sentinel then { x with cur := x.limit } else x

def releaseFrequencyAction (d : Dir) (e : Env) (argc : Int) (argv : List CPtr) (c : Cpu) :
    Option (Int × Cpu) :=
  if argc < 1 then some (-1, c)
  else match atoiP (arg argv 0) with
    | some pid =>
      let c := c.setSide d ((removeEntry d e pid (c.side d)).translate d)
      some (writeCpuFreq d e (c.side d).cur c)
    | none => none

theorem setFrequency_isSome_iff (d : Dir) (e : Env) (argc : Int) (argv : List CPtr) (c : Cpu) :
    (setFrequencyAction d e argc argv c).isSome ↔
      argc < 2 ∨ (arg argv 0).isSome ∧ (arg argv 1).isSome := by
  rw [setFrequencyAction, isSome_guarded, ← isSome_atoiP, ← isSome_atoiP (arg argv 1)]
  cases atoiP (arg argv 0) <;> cases atoiP (arg argv 1) <;> simp
  split <;> simp

theorem releaseFrequency_isSome_iff (d : Dir) (e : Env) (argc : Int) (argv : List CPtr) (c : Cpu) :
    (releaseFrequencyAction d e argc argv c).isSome ↔ argc < 1 ∨ (arg argv 0).isSome := by
  rw [releaseFrequencyAction, isSome_guarded, ← isSome_atoiP]
  cases atoiP (arg argv 0) <;> simp

/-- mirrors ss_cpu_handler.c:51-71 -/
def setMaxFrequencyAction : Env → Int → List CPtr → Cpu → Option (Int × Cpu) :=
  setFrequencyAction .max

/-- mirrors ss_cpu_handler.c:73-93 -/
def setMinFrequencyAction : Env → Int → List CPtr → Cpu → Option (Int × Cpu) :=
  setFrequencyAction .min

/-- mirrors ss_cpu_handler.c:95-117 -/
def releaseMaxFrequencyAction : Env → Int → List CPtr → Cpu → Option (Int × Cpu) :=
  releaseFrequencyAction .max

/-- mirrors ss_cpu_handler.c:119-142 -/
def releaseMinFrequencyAction : Env → Int → List CPtr → Cpu → Option (Int × Cpu) :=
  releaseFrequencyAction .min

/-- mirrors ss_cpu_handler.c:27 -/
def POWER_SAVING_CPUFREQ : Int := 800000

/-- The request of the power-saving code, then the write. -/
def capSelf (e : Env) (c : Cpu) : Int × Cpu :=
  let r := addEntryToMaxCpuFreqList e c.self POWER_SAVING_CPUFREQ c.max
  let c := { c with max := r.2 }
  if r.1 < 0 then (-1, c) else writeMaxCpuFreq e c.max.cur c

/-- `stat` is the setting that changed, `cpuStat` the other one as read. The
cache is compared with `INT_MIN`.
mirrors ss_cpu_handler.c:144-176 -/
def powerSavingCb (e : Env) (stat cpuStat : Int) (c : Cpu) : Int × Cpu :=
  if stat = 1 then
    if cpuStat = 1 then capSelf e c else writeMaxCpuFreq e c.max.cur c
  else
    let x := removeEntryFromMaxCpuFreqList e c.self c.max
    let x := if x.cur = INT_MIN then { x with cur := x.limit } else x
    writeMaxCpuFreq e x.cur { c with max := x }

/-- mirrors ss_cpu_handler.c:178-210 -/
def powerSavingCpuCb (e : Env) (cpuStat stat : Int) (c : Cpu) : Int × Cpu :=
  if stat = 1 then
    if cpuStat = 1 then capSelf e c
    else
      let x := (removeEntryFromMaxCpuFreqList e c.self c.max).translate .max
      writeMaxCpuFreq e x.cur { c with max := x }
  else (0, c)

/-- mirrors ss_cpu_handler.c:25-26 -/
def DEFAULT_MAX_CPU_FREQ : Int := 1200000
def DEFAULT_MIN_CPU_FREQ : Int := 100000

/-- The variables as the program starts.
mirrors ss_cpu_handler.c:29-35 -/
def static (self : Int) : Cpu := ⟨⟨[], INT_MAX, -1⟩, ⟨[], INT_MIN, -1⟩, self, [], []⟩

/-- `hwMax` and `hwMin` are what the plugin reports, if it does.
mirrors ss_cpu_handler.c:227-261 -/
def setFreqLimit (e : Env) (hwMax hwMin : Option Int) (stat cpuStat : Int) (c : Cpu) : Cpu :=
  let c := { c with
    max := { c.max with limit := hwMax.getD DEFAULT_MAX_CPU_FREQ }
    min := { c.min with limit := hwMin.getD DEFAULT_MIN_CPU_FREQ } }
  if stat = 1 ∧ cpuStat = 1 then (capSelf e c).2 else c

/-! ## The requests in force -/

/-- A pid's request, if it has one. -/
abbrev Requests := Int → Option Int

inductive Ask where
  | nothing
  | set (pid freq : Int)
  | release (pid : Int)

/-- A set or a release looks at every other pid and forgets the dead. -/
def Ask.apply (alive : Int → Bool) : Ask → Requests → Requests
  | .nothing, m => m
  | .set pid freq, m => fun p => if p = pid then some freq else if alive p then m p else none
  | .release pid, m => fun p => if p = pid then none else if alive p then m p else none

/-- `v` is the tightest request, or the limit if there is none. -/
def Capped (d : Dir) (limit : Int) (m : Requests) (v : Int) : Prop :=
  ((∀ p, m p = none) ∧ v = limit) ∨
    ((∃ p, m p = some v) ∧ ∀ p f, m p = some f → ¬ d.Tighter f v)

/-! ## Runs -/

inductive Op where
  | setFrequency (d : Dir) (argc : Int) (argv : List CPtr)
  | releaseFrequency (d : Dir) (argc : Int) (argv : List CPtr)
  | powerSavingCb (stat cpuStat : Int)
  | powerSavingCpuCb (cpuStat stat : Int)

def Op.exec (e : Env) (c : Cpu) : Op → Option (Int × Cpu)
  | .setFrequency .max argc argv => setMaxFrequencyAction e argc argv c
  | .setFrequency .min argc argv => setMinFrequencyAction e argc argv c
  | .releaseFrequency .max argc argv => releaseMaxFrequencyAction e argc argv c
  | .releaseFrequency .min argc argv => releaseMinFrequencyAction e argc argv c
  | .powerSavingCb stat cpuStat => some (CpuFreq.powerSavingCb e stat cpuStat c)
  | .powerSavingCpuCb cpuStat stat => some (CpuFreq.powerSavingCpuCb e cpuStat stat c)

/-- What an operation asks for on one side. -/
def Op.ask (self : Int) (d : Dir) : Op → Ask
  | .setFrequency d' argc argv =>
    if d' = d ∧ ¬ argc < 2 then
      match atoiP (arg argv 0), atoiP (arg argv 1) with
      | some pid, some freq => .set pid freq
      | _, _ => .nothing
    else .nothing
  | .releaseFrequency d' argc argv =>
    if d' = d ∧ ¬ argc < 1 then
      match atoiP (arg argv 0) with
      | some pid => .release pid
      | none => .nothing
    else .nothing
  | .powerSavingCb stat cpuStat =>
    if d = .max then
      if stat = 1 then if cpuStat = 1 then .set self POWER_SAVING_CPUFREQ else .nothing
      else .release self
    else .nothing
  | .powerSavingCpuCb cpuStat stat =>
    if d = .max then
      if stat = 1 then
        if cpuStat = 1 then .set self POWER_SAVING_CPUFREQ else .release self
      else .nothing
    else .nothing

structure Lbl where
  env : Env
  op : Op

structure St where
  cpu : Cpu
  maxReqs : Requests
  minReqs : Requests

def St.reqs (s : St) : Dir → Requests
  | .max => s.maxReqs
  | .min => s.minReqs

/-- The frequency asked for is not the sentinel. -/
def Ask.Proper (d : Dir) : Ask → Prop
  | .set _ freq => d.Tighter freq d.sentinel
  | _ => True

instance (d : Dir) (a : Ask) : Decidable (a.Proper d) := by
  cases a <;> simp only [Ask.Proper] <;> infer_instance

/-- Allocations succeed, and no request asks for a sentinel. -/
def Assumed (self : Int) (l : Lbl) : Prop :=
  l.env.mem = true ∧ (l.op.ask self .max).Proper .max ∧ (l.op.ask self .min).Proper .min

instance (self : Int) (l : Lbl) : Decidable (Assumed self l) :=
  inferInstanceAs (Decidable (_ ∧ _ ∧ _))

def step (s : St) (l : Lbl) : Option St :=
  if Assumed s.cpu.self l then
    (l.op.exec l.env s.cpu).map fun r =>
      { cpu := r.2
        maxReqs := (l.op.ask s.cpu.self .max).apply l.env.alive s.maxReqs
        minReqs := (l.op.ask s.cpu.self .min).apply l.env.alive s.minReqs }
  else none

/-- The state after `__set_freq_limit`. -/
def Init (s : St) : Prop :=
  ∃ self e hwMax hwMin stat cpuStat, e.mem = true ∧
    s.cpu = setFreqLimit e hwMax hwMin stat cpuStat (static self) ∧
    s.maxReqs = (if stat = 1 ∧ cpuStat = 1 then (Ask.set self POWER_SAVING_CPUFREQ).apply e.alive
      fun _ => none else fun _ => none) ∧
    s.minReqs = fun _ => none

def lts : LTS St Lbl := ⟨Init, step⟩

/-! ## The list and the account -/

/-- The entry is neither of `pid` nor of a dead pid. -/
def Keeps (e : Env) (pid : Int) (x : CpuFreqEntry) : Bool := e.alive x.pid && x.pid ≠ pid

/-- The tighter of the two. -/
def Dir.pick (d : Dir) (cur freq : Int) : Int := if d.Tighter freq cur then freq else cur

theorem Dir.pick_spec (d : Dir) (cur freq : Int) :
    (d.pick cur freq = cur ∨ d.pick cur freq = freq) ∧ ¬ d.Tighter cur (d.pick cur freq) ∧
      ¬ d.Tighter freq (d.pick cur freq) := by
  unfold Dir.pick
  split
  · rename_i h
    refine ⟨.inr rfl, ?_, ?_⟩ <;> cases d <;> simp only [Dir.Tighter] at h ⊢ <;> omega
  · rename_i h
    refine ⟨.inl rfl, ?_, h⟩
    cases d <;> simp only [Dir.Tighter] <;> omega

theorem Dir.not_tighter_trans (d : Dir) {f g h : Int} (hfg : ¬ d.Tighter f g)
    (hgh : ¬ d.Tighter g h) : ¬ d.Tighter f h := by
  cases d <;> simp only [Dir.Tighter] at hfg hgh ⊢ <;> omega

theorem scan_eq (d : Dir) (e : Env) (pid : Int) (xs : List CpuFreqEntry) (cur : Int) :
    scan d e pid xs cur = (xs.filter (Keeps e pid),
      (xs.filter (Keeps e pid)).foldl (fun cur x => d.pick cur x.freq) cur) := by
  induction xs generalizing cur with
  | nil => rfl
  | cons x xs ih =>
    simp only [scan]
    by_cases h : e.alive x.pid = false ∨ x.pid = pid
    · have hk : Keeps e pid x = false := by
        rcases h with h | h <;> simp [Keeps, h]
      rw [if_pos h, ih, List.filter_cons_of_neg (by simp [hk])]
    · have hk : Keeps e pid x = true := by
        obtain ⟨ha, hp⟩ := not_or.mp h
        simp [Keeps, ha, hp]
      rw [if_neg h, ih, List.filter_cons_of_pos hk]
      rfl

/-- The fold ends with the start value or a frequency of the list, and
nothing in sight is tighter. -/
theorem foldl_pick (d : Dir) (xs : List CpuFreqEntry) (cur : Int) :
    let v := xs.foldl (fun cur x => d.pick cur x.freq) cur
    (v = cur ∨ ∃ x ∈ xs, x.freq = v) ∧ ¬ d.Tighter cur v ∧ ∀ x ∈ xs, ¬ d.Tighter x.freq v := by
  induction xs generalizing cur with
  | nil => cases d <;> simp [Dir.Tighter]
  | cons x xs ih =>
    obtain ⟨hv, hcur, hall⟩ := ih (d.pick cur x.freq)
    simp only [List.foldl_cons]
    obtain ⟨hpick, hpc, hpf⟩ := d.pick_spec cur x.freq
    refine ⟨?_, d.not_tighter_trans hpc hcur, ?_⟩
    · rcases hv with hv | ⟨y, hy, hv⟩
      · rcases hpick with hp | hp
        · exact .inl (hv.trans hp)
        · exact .inr ⟨x, List.mem_cons_self, (hv.trans hp).symm⟩
      · exact .inr ⟨y, List.mem_cons_of_mem _ hy, hv⟩
    · intro y hy
      rcases List.mem_cons.mp hy with rfl | hy
      · exact d.not_tighter_trans hpf hcur
      · exact hall y hy

/-- The cache holds the tightest frequency of the list. -/
def Extreme (d : Dir) (xs : List CpuFreqEntry) (v : Int) : Prop :=
  (∃ x ∈ xs, x.freq = v) ∧ ∀ x ∈ xs, ¬ d.Tighter x.freq v

/-- The list is the account, one entry a pid, and the cache is up to date;
for an empty list it may hold the sentinel or the limit. -/
structure Sound (d : Dir) (x : Side) (m : Requests) : Prop where
  nodup : (x.list.map CpuFreqEntry.pid).Nodup
  reqs : ∀ p f, m p = some f ↔ ⟨p, f⟩ ∈ x.list
  proper : ∀ y ∈ x.list, d.Tighter y.freq d.sentinel ∧ IsInt y.freq
  cur : x.list ≠ [] → Extreme d x.list x.cur
  idle : x.list = [] → x.cur = d.sentinel ∨ x.cur = x.limit

theorem Sound.reqs_nil {d : Dir} {x : Side} {m : Requests} (h : Sound d x m) :
    (∀ p, m p = none) ↔ x.list = [] := by
  constructor
  · intro hm
    refine List.eq_nil_iff_forall_not_mem.mpr fun y hy => ?_
    have := (h.reqs y.pid y.freq).mpr hy
    rw [hm] at this; cases this
  · intro hl p
    refine Option.eq_none_iff_forall_ne_some.mpr fun f hf => ?_
    have := (h.reqs p f).mp hf
    rw [hl] at this; cases this

theorem Sound.capped_iff {d : Dir} {x : Side} {m : Requests} (h : Sound d x m) (limit v : Int) :
    Capped d limit m v ↔ (x.list = [] ∧ v = limit) ∨ (x.list ≠ [] ∧ Extreme d x.list v) := by
  have hext : ((∃ p, m p = some v) ∧ ∀ p f, m p = some f → ¬ d.Tighter f v) ↔
      Extreme d x.list v := by
    constructor
    · rintro ⟨⟨p, hp⟩, hall⟩
      exact ⟨⟨⟨p, v⟩, (h.reqs p v).mp hp, rfl⟩, fun y hy => hall y.pid y.freq ((h.reqs _ _).mpr hy)⟩
    · rintro ⟨⟨y, hy, rfl⟩, hall⟩
      exact ⟨⟨y.pid, (h.reqs _ _).mpr hy⟩, fun p f hf => hall _ ((h.reqs p f).mp hf)⟩
  have hne : Extreme d x.list v → x.list ≠ [] := by
    rintro ⟨⟨y, hy, -⟩, -⟩ hl
    rw [hl] at hy; cases hy
  rw [Capped, h.reqs_nil, hext]
  exact or_congr Iff.rfl ⟨fun he => ⟨hne he, he⟩, fun he => he.2⟩

/-! ## What the list operations do -/

/-- Over proper frequencies the scan of a non-empty list loses the sentinel. -/
theorem extreme_fold (d : Dir) {xs : List CpuFreqEntry} (hne : xs ≠ [])
    (hp : ∀ y ∈ xs, d.Tighter y.freq d.sentinel) :
    Extreme d xs (xs.foldl (fun cur x => d.pick cur x.freq) d.sentinel) := by
  obtain ⟨hv, -, hall⟩ := foldl_pick d xs d.sentinel
  refine ⟨hv.resolve_left fun hs => ?_, hall⟩
  obtain ⟨y, hy⟩ := List.exists_mem_of_ne_nil xs hne
  exact hall y hy (by rw [hs]; exact hp y hy)

theorem removeEntry_list (d : Dir) (e : Env) (pid : Int) (x : Side) :
    (removeEntry d e pid x).list = x.list.filter (Keeps e pid) := by
  simp only [removeEntry, scan_eq]

theorem removeEntry_cur (d : Dir) (e : Env) (pid : Int) (x : Side) :
    (removeEntry d e pid x).cur =
      (x.list.filter (Keeps e pid)).foldl (fun cur x => d.pick cur x.freq) d.sentinel := by
  simp only [removeEntry, scan_eq]

theorem removeEntry_nil {d : Dir} {e : Env} {pid : Int} {x : Side}
    (h : (removeEntry d e pid x).list = []) : (removeEntry d e pid x).cur = d.sentinel := by
  rw [removeEntry_list] at h
  rw [removeEntry_cur, h]
  rfl

theorem sound_remove {d : Dir} {x : Side} {m : Requests} (h : Sound d x m) (e : Env) (pid : Int) :
    Sound d (removeEntry d e pid x) ((Ask.release pid).apply e.alive m) := by
  have hproper : ∀ y ∈ x.list.filter (Keeps e pid), d.Tighter y.freq d.sentinel ∧ IsInt y.freq :=
    fun y hy => h.proper y (List.mem_of_mem_filter hy)
  refine ⟨?_, ?_, ?_, ?_, fun hnil => .inl (removeEntry_nil hnil)⟩
  · rw [removeEntry_list]
    exact h.nodup.sublist (List.filter_sublist.map _)
  · intro p f
    rw [removeEntry_list, List.mem_filter, ← h.reqs]
    by_cases hp : p = pid
    · simp [Ask.apply, Keeps, hp]
    · cases ha : e.alive p <;> simp [Ask.apply, Keeps, hp, ha]
  · rw [removeEntry_list]; exact hproper
  · rw [removeEntry_list, removeEntry_cur]
    exact fun hne => extreme_fold d hne fun y hy => (hproper y hy).1

theorem sound_add {d : Dir} {x : Side} {m : Requests} (h : Sound d x m) (e : Env) (pid freq : Int)
    (hmem : e.mem = true) (hf : d.Tighter freq d.sentinel) (hi : IsInt freq) :
    Sound d (addEntry d e pid freq x).2 ((Ask.set pid freq).apply e.alive m) ∧
      (addEntry d e pid freq x).2.list ≠ [] := by
  have hr := sound_remove h e pid
  obtain ⟨hcase, hcur, hfreq⟩ := d.pick_spec (removeEntry d e pid x).cur freq
  have hadd : (addEntry d e pid freq x).2 =
      ⟨⟨pid, freq⟩ :: (removeEntry d e pid x).list, d.pick (removeEntry d e pid x).cur freq,
        x.limit⟩ := by
    simp only [addEntry, hmem, Bool.true_eq_false, if_false, removeEntry, Dir.pick]
  rw [hadd]
  have hnot : ∀ y ∈ (removeEntry d e pid x).list, y.pid ≠ pid := by
    intro y hy
    rw [removeEntry_list] at hy
    have := (List.mem_filter.mp hy).2
    simp only [Keeps, Bool.and_eq_true, decide_eq_true_eq] at this
    exact this.2
  refine ⟨⟨?_, ?_, ?_, fun _ => ⟨?_, ?_⟩, fun hnil => nomatch hnil⟩, fun hnil => nomatch hnil⟩
  · refine List.nodup_cons.mpr ⟨fun hin => ?_, hr.nodup⟩
    obtain ⟨y, hy, hpid⟩ := List.mem_map.mp hin
    exact hnot y hy hpid
  · intro p f
    by_cases hp : p = pid
    · subst hp
      simp only [Ask.apply, if_true, Option.some.injEq, List.mem_cons, CpuFreqEntry.mk.injEq,
        true_and]
      refine ⟨fun heq => .inl heq.symm, fun hin => ?_⟩
      rcases hin with rfl | hin
      · rfl
      · exact absurd rfl (hnot _ hin)
    · have := hr.reqs p f
      simp only [Ask.apply, if_neg hp] at this ⊢
      simp [this, hp]
  · intro y hy
    rcases List.mem_cons.mp hy with rfl | hy
    · exact ⟨hf, hi⟩
    · exact hr.proper y hy
  · rcases hcase with hc | hc
    · -- the cache was tighter already, so it is not the sentinel
      have hne : (removeEntry d e pid x).list ≠ [] := by
        intro hnil
        rw [hc, removeEntry_nil hnil] at hfreq; exact hfreq hf
      obtain ⟨⟨y, hy, hv⟩, -⟩ := hr.cur hne
      exact ⟨y, List.mem_cons_of_mem _ hy, hv.trans hc.symm⟩
    · exact ⟨_, List.mem_cons_self, hc.symm⟩
  · intro y hy
    rcases List.mem_cons.mp hy with rfl | hy
    · exact hfreq
    · have hne : (removeEntry d e pid x).list ≠ [] := List.ne_nil_of_mem hy
      exact d.not_tighter_trans ((hr.cur hne).2 y hy) hcur

theorem translate_list (d : Dir) (x : Side) : (x.translate d).list = x.list := by
  unfold Side.translate; split <;> rfl

theorem translate_limit (d : Dir) (x : Side) : (x.translate d).limit = x.limit := by
  unfold Side.translate; split <;> rfl

/-- After a removal the sentinel stands for the empty list only, and the
translated cache is right. -/
theorem translate_capped {d : Dir} {x : Side} {m : Requests} (h : Sound d x m) :
    Sound d (x.translate d) m ∧ Capped d x.limit m (x.translate d).cur := by
  by_cases hl : x.list = []
  · have hcur : (x.translate d).cur = x.limit := by
      unfold Side.translate
      split
      · rfl
      · rename_i hs; exact (h.idle hl).resolve_left hs
    refine ⟨⟨?_, ?_, ?_, ?_, fun _ => .inr (by rw [hcur, translate_limit])⟩,
      (h.capped_iff _ _).mpr (.inl ⟨hl, hcur⟩)⟩
    · rw [translate_list]; exact h.nodup
    · rw [translate_list]; exact h.reqs
    · rw [translate_list]; exact h.proper
    · rw [translate_list]; exact fun hne => absurd hl hne
  · have hsame : x.translate d = x := by
      obtain ⟨⟨y, hy, hv⟩, -⟩ := h.cur hl
      refine if_neg fun hs => ?_
      have := (h.proper y hy).1
      rw [hv, hs] at this
      cases d <;> exact Int.lt_irrefl _ this
    rw [hsame]
    exact ⟨h, (h.capped_iff _ _).mpr (.inr ⟨hl, h.cur hl⟩)⟩

/-! ## What a step does to one side -/

/-- `power_saving_cb` does something other than add the daemon's request. -/
def Op.Shortcut : Op → Prop
  | .powerSavingCb stat cpuStat => ¬ (stat = 1 ∧ cpuStat = 1)
  | _ => False

inductive SideEffect (s : St) (l : Lbl) (s' : St) : Dir → Prop where
  | same (d) (hn : d = .max → ¬ l.op.Shortcut) (hside : s'.cpu.side d = s.cpu.side d)
      (hreqs : s'.reqs d = s.reqs d) (hw : s'.cpu.writes d = s.cpu.writes d) : SideEffect s l s' d
  | set (d pid freq) (hn : d = .max → ¬ l.op.Shortcut) (hf : d.Tighter freq d.sentinel)
      (hi : IsInt freq) (hmem : l.env.mem = true)
      (hside : s'.cpu.side d = (addEntry d l.env pid freq (s.cpu.side d)).2)
      (hreqs : s'.reqs d = (Ask.set pid freq).apply l.env.alive (s.reqs d))
      (hw : s'.cpu.writes d = s.cpu.writes d ++ [(s'.cpu.side d).cur]) : SideEffect s l s' d
  | release (d pid) (hn : d = .max → ¬ l.op.Shortcut)
      (hside : s'.cpu.side d = (removeEntry d l.env pid (s.cpu.side d)).translate d)
      (hreqs : s'.reqs d = (Ask.release pid).apply l.env.alive (s.reqs d))
      (hw : s'.cpu.writes d = s.cpu.writes d ++ [(s'.cpu.side d).cur]) : SideEffect s l s' d
  /-- `power_saving_cb` writes the cache as it stands -/
  | rewrite (stat cpuStat) (hop : l.op = .powerSavingCb stat cpuStat) (hs : stat = 1)
      (hc : cpuStat ≠ 1) (hside : s'.cpu.max = s.cpu.max) (hreqs : s'.maxReqs = s.maxReqs)
      (hw : s'.cpu.maxWrites = s.cpu.maxWrites ++ [s'.cpu.max.cur]) : SideEffect s l s' .max
  /-- `power_saving_cb` removes and compares with the wrong sentinel -/
  | slip (stat cpuStat) (hop : l.op = .powerSavingCb stat cpuStat) (hs : stat ≠ 1)
      (hside : s'.cpu.max =
        if (removeEntry .max l.env s.cpu.self s.cpu.max).cur = INT_MIN then
          { removeEntry .max l.env s.cpu.self s.cpu.max with cur := s.cpu.max.limit }
        else removeEntry .max l.env s.cpu.self s.cpu.max)
      (hreqs : s'.maxReqs = (Ask.release s.cpu.self).apply l.env.alive s.maxReqs)
      (hw : s'.cpu.maxWrites = s.cpu.maxWrites ++ [s'.cpu.max.cur]) : SideEffect s l s' .max

theorem isInt_atoiP {p : CPtr} {v : Int} (h : atoiP p = some v) : IsInt v := by
  obtain ⟨b, -, rfl⟩ := Option.map_eq_some_iff.mp h
  exact isInt_atoi _

theorem capSelf_eq {e : Env} (hmem : e.mem = true) (c : Cpu) :
    (capSelf e c).2 = { c with
      max := (addEntry .max e c.self POWER_SAVING_CPUFREQ c.max).2
      maxWrites := c.maxWrites ++ [(addEntry .max e c.self POWER_SAVING_CPUFREQ c.max).2.cur] } := by
  simp [capSelf, addEntryToMaxCpuFreqList, addEntry, hmem, writeMaxCpuFreq]

theorem capSelf_min (e : Env) (c : Cpu) :
    (capSelf e c).2.min = c.min ∧ (capSelf e c).2.minWrites = c.minWrites := by
  simp only [capSelf]
  split
  · exact ⟨rfl, rfl⟩
  · exact ⟨rfl, rfl⟩

/-- The power-saving code leaves the minimum side alone. -/
theorem powerSavingCb_min (e : Env) (stat cpuStat : Int) (c : Cpu) :
    (powerSavingCb e stat cpuStat c).2.min = c.min ∧
      (powerSavingCb e stat cpuStat c).2.minWrites = c.minWrites := by
  unfold powerSavingCb
  split
  · split
    · exact capSelf_min e c
    · exact ⟨rfl, rfl⟩
  · exact ⟨rfl, rfl⟩

theorem powerSavingCpuCb_min (e : Env) (cpuStat stat : Int) (c : Cpu) :
    (powerSavingCpuCb e cpuStat stat c).2.min = c.min ∧
      (powerSavingCpuCb e cpuStat stat c).2.minWrites = c.minWrites := by
  unfold powerSavingCpuCb
  split
  · split
    · exact capSelf_min e c
    · exact ⟨rfl, rfl⟩
  · exact ⟨rfl, rfl⟩

/-- An action that is refused does nothing. -/
theorem refused_effect {s s' : St} {l : Lbl} {d : Dir} {r : Int}
    (hn : d = .max → ¬ l.op.Shortcut) (hr : some (-1, s.cpu) = some (r, s'.cpu))
    (hreqs : s'.reqs d = s.reqs d) : SideEffect s l s' d := by
  have hcpu : s'.cpu = s.cpu := (congrArg Prod.snd (Option.some.inj hr)).symm
  exact .same d hn (by rw [hcpu]) hreqs (by rw [hcpu])

/-- An action on one side leaves the other alone. -/
theorem other_effect {s s' : St} {l : Lbl} {d d' : Dir} {freq : Int} {x : Side} (hd : d' ≠ d)
    (hn : d = .max → ¬ l.op.Shortcut)
    (hcpu : s'.cpu = (writeCpuFreq d' l.env freq (s.cpu.setSide d' x)).2)
    (hreqs : s'.reqs d = s.reqs d) : SideEffect s l s' d := by
  refine .same d hn ?_ hreqs ?_
  · rw [hcpu, side_write, side_setSide_ne hd]
  · rw [hcpu, writes_write_ne hd, writes_setSide]

theorem set_effect {s s' : St} {l : Lbl} {d' : Dir} {argc : Int} {argv : List CPtr} {r : Int}
    (hop : l.op = .setFrequency d' argc argv) (hmem : l.env.mem = true)
    (hr : setFrequencyAction d' l.env argc argv s.cpu = some (r, s'.cpu)) (d : Dir)
    (hask : (l.op.ask s.cpu.self d).Proper d)
    (hreqs : s'.reqs d = (l.op.ask s.cpu.self d).apply l.env.alive (s.reqs d)) :
    SideEffect s l s' d := by
  have hn : d = .max → ¬ l.op.Shortcut := by rw [hop]; exact fun _ h => h
  rw [hop] at hask hreqs
  simp only [setFrequencyAction] at hr
  split at hr
  · rename_i hargc
    refine refused_effect hn hr ?_
    rw [hreqs, Op.ask, if_neg fun h => h.2 hargc]; rfl
  · rename_i hargc
    split at hr
    · rename_i pid freq hpid hfreq
      rw [if_neg (by simp [addEntry, hmem])] at hr
      have hcpu : s'.cpu = _ := (congrArg Prod.snd (Option.some.inj hr)).symm
      by_cases hd : d' = d
      · subst hd
        rw [Op.ask, if_pos ⟨rfl, hargc⟩, hpid, hfreq] at hask hreqs
        refine .set d' pid freq hn hask (isInt_atoiP hfreq) hmem ?_ hreqs ?_
        · rw [hcpu]; simp
        · rw [hcpu]; simp
      · refine other_effect hd hn hcpu ?_
        rw [hreqs, Op.ask, if_neg fun h => hd h.1]; rfl
    · cases hr

theorem release_effect {s s' : St} {l : Lbl} {d' : Dir} {argc : Int} {argv : List CPtr} {r : Int}
    (hop : l.op = .releaseFrequency d' argc argv)
    (hr : releaseFrequencyAction d' l.env argc argv s.cpu = some (r, s'.cpu)) (d : Dir)
    (hreqs : s'.reqs d = (l.op.ask s.cpu.self d).apply l.env.alive (s.reqs d)) :
    SideEffect s l s' d := by
  have hn : d = .max → ¬ l.op.Shortcut := by rw [hop]; exact fun _ h => h
  rw [hop] at hreqs
  simp only [releaseFrequencyAction] at hr
  split at hr
  · rename_i hargc
    refine refused_effect hn hr ?_
    rw [hreqs, Op.ask, if_neg fun h => h.2 hargc]; rfl
  · rename_i hargc
    split at hr
    · rename_i pid hpid
      have hcpu : s'.cpu = _ := (congrArg Prod.snd (Option.some.inj hr)).symm
      by_cases hd : d' = d
      · subst hd
        rw [Op.ask, if_pos ⟨rfl, hargc⟩, hpid] at hreqs
        refine .release d' pid hn ?_ hreqs ?_
        · rw [hcpu]; simp
        · rw [hcpu]; simp
      · refine other_effect hd hn hcpu ?_
        rw [hreqs, Op.ask, if_neg fun h => hd h.1]; rfl
    · cases hr

theorem proper_capSelf : Dir.max.Tighter POWER_SAVING_CPUFREQ Dir.max.sentinel ∧
    IsInt POWER_SAVING_CPUFREQ := ⟨by decide, by decide, by decide⟩

theorem side_effect {s s' : St} {l : Lbl} (h : step s l = some s') (d : Dir) :
    SideEffect s l s' d := by
  simp only [step] at h
  split at h
  swap
  · cases h
  rename_i has
  obtain ⟨hmem, hmax, hmin⟩ := has
  obtain ⟨⟨ret, cpu⟩, hr, rfl⟩ := Option.map_eq_some_iff.mp h
  cases hop : l.op with
  | setFrequency d' argc argv =>
    rw [hop] at hr
    refine set_effect hop hmem (r := ret) ?_ d ?_ ?_
    · cases d' <;> exact hr
    · cases d <;> assumption
    · cases d <;> rw [hop] <;> rfl
  | releaseFrequency d' argc argv =>
    rw [hop] at hr
    refine release_effect hop (r := ret) ?_ d ?_
    · cases d' <;> exact hr
    · cases d <;> rw [hop] <;> rfl
  | powerSavingCb stat cpuStat =>
    rw [hop] at hr
    obtain rfl := congrArg Prod.snd (Option.some.inj hr)
    cases d with
    | min =>
      obtain ⟨hside, hw⟩ := powerSavingCb_min l.env stat cpuStat s.cpu
      exact .same .min (fun h => nomatch h) hside rfl hw
    | max =>
      by_cases hs : stat = 1
      · by_cases hc : cpuStat = 1
        · subst hs; subst hc
          have hcap := capSelf_eq hmem s.cpu
          refine .set .max s.cpu.self POWER_SAVING_CPUFREQ (fun _ h => ?_) proper_capSelf.1
            proper_capSelf.2 hmem ?_ rfl ?_
          · rw [hop] at h; exact h ⟨rfl, rfl⟩
          · simp [CpuFreq.powerSavingCb, hcap, Cpu.side]
          · simp [CpuFreq.powerSavingCb, hcap, Cpu.side, Cpu.writes]
        · refine .rewrite stat cpuStat hop hs hc ?_ ?_ ?_ <;>
            simp [CpuFreq.powerSavingCb, hs, hc, writeMaxCpuFreq, Op.ask, Ask.apply]
      · refine .slip stat cpuStat hop hs ?_ ?_ ?_
        · simp only [CpuFreq.powerSavingCb, if_neg hs]; rfl
        · simp only [Op.ask, if_true, if_neg hs]
        · simp only [CpuFreq.powerSavingCb, if_neg hs, writeMaxCpuFreq]
  | powerSavingCpuCb cpuStat stat =>
    rw [hop] at hr
    obtain rfl := congrArg Prod.snd (Option.some.inj hr)
    cases d with
    | min =>
      obtain ⟨hside, hw⟩ := powerSavingCpuCb_min l.env cpuStat stat s.cpu
      exact .same .min (fun h => nomatch h) hside rfl hw
    | max =>
      have hn : Dir.max = .max → ¬ l.op.Shortcut := by rw [hop]; exact fun _ h => h
      by_cases hs : stat = 1
      · by_cases hc : cpuStat = 1
        · subst hs; subst hc
          have hcap := capSelf_eq hmem s.cpu
          refine .set .max s.cpu.self POWER_SAVING_CPUFREQ hn proper_capSelf.1 proper_capSelf.2 hmem
            ?_ rfl ?_
          · simp [CpuFreq.powerSavingCpuCb, hcap, Cpu.side]
          · simp [CpuFreq.powerSavingCpuCb, hcap, Cpu.side, Cpu.writes]
        · refine .release .max s.cpu.self hn ?_ ?_ ?_ <;>
            simp [CpuFreq.powerSavingCpuCb, hs, hc, writeMaxCpuFreq, Op.ask, Cpu.side, Cpu.writes,
              St.reqs, removeEntryFromMaxCpuFreqList]
      · refine .same .max hn ?_ ?_ ?_ <;>
          simp [CpuFreq.powerSavingCpuCb, hs, Op.ask, Ask.apply, St.reqs]

/-! ## Runs whose writes are right -/

/-- The values written on the maximum side in a step are the tightest of the
requests then in force. -/
def CapWritten (s : St) (_ : Lbl) (s' : St) : Prop :=
  ∀ v ∈ s'.cpu.maxWrites.drop s.cpu.maxWrites.length,
    Capped .max s'.cpu.max.limit s'.maxReqs v

/-- The shortcuts of `power_saving_cb` do not show. When the mode is switched
off, some request is left (or the limit is the sentinel it writes) and none
of those left is `INT_MIN`; when it is switched on with the CPU option off,
some request is in force, or the cache is not the sentinel. -/
def CapSafe (s : St) (l : Lbl) : Prop :=
  match l.op with
  | .powerSavingCb stat cpuStat =>
    if stat = 1 then
      cpuStat ≠ 1 → (∀ p, s.maxReqs p = none) → s.cpu.max.cur = INT_MAX → s.cpu.max.limit = INT_MAX
    else
      let left := (Ask.release s.cpu.self).apply l.env.alive s.maxReqs
      ((∀ p, left p = none) → s.cpu.max.limit = INT_MAX) ∧
        ((∃ p, left p = some INT_MIN) → s.cpu.max.limit = INT_MIN)
  | _ => True

structure Good (s : St) : Prop where
  max : Sound .max s.cpu.max s.maxReqs
  min : Sound .min s.cpu.min s.minReqs

/-- Removal with the wrong sentinel. -/
theorem slip_capped {x : Side} {m : Requests} (h : Sound .max x m)
    (hs : x.list = [] → x.cur = INT_MAX) {y : Side}
    (hy : y = if x.cur = INT_MIN then { x with cur := x.limit } else x) :
    Capped .max x.limit m y.cur ↔
      ((∀ p, m p = none) → x.limit = INT_MAX) ∧ ((∃ p, m p = some INT_MIN) → x.limit = INT_MIN) := by
  rw [h.capped_iff]
  by_cases hl : x.list = []
  · have hcur : y.cur = INT_MAX := by
      rw [hy, if_neg (by rw [hs hl]; decide)]; exact hs hl
    have hnone := h.reqs_nil.mpr hl
    simp [hl, hcur, hnone, eq_comm]
  · have hsome : ¬ ∀ p, m p = none := fun hn => hl (h.reqs_nil.mp hn)
    obtain ⟨⟨z, hz, hcur⟩, hall⟩ := h.cur hl
    simp only [hl, false_and, not_false_eq_true, true_and, false_or, hsome, false_imp_iff, ne_eq]
    have hmin : (∃ p, m p = some INT_MIN) ↔ x.cur = INT_MIN := by
      constructor
      · rintro ⟨p, hp⟩
        have hle := hall _ ((h.reqs p INT_MIN).mp hp)
        have hge := (h.proper z hz).2.1
        simp only [Dir.Tighter] at hle; omega
      · intro hm
        exact ⟨z.pid, (h.reqs _ _).mpr (by rw [← hm, ← hcur]; exact hz)⟩
    rw [hmin]
    by_cases hc : x.cur = INT_MIN
    · rw [hy, if_pos hc]
      refine ⟨fun ⟨⟨w, hw, hwl⟩, hwall⟩ _ => ?_, fun hlim => ?_⟩
      · have hle := hwall z hz
        have hge := (h.proper w hw).2.1
        simp only [Dir.Tighter] at hle hwl; omega
      · rw [hlim hc, ← hc]; exact h.cur hl
    · rw [hy, if_neg hc]
      exact ⟨fun _ hm => absurd hm hc, fun _ => h.cur hl⟩

theorem Sound.of_capped {d : Dir} {x y : Side} {m : Requests} (h : Sound d x m)
    (hlist : y.list = x.list) (hlimit : y.limit = x.limit) (hc : Capped d x.limit m y.cur) :
    Sound d y m := by
  rw [h.capped_iff, ← hlist, ← hlimit] at hc
  refine ⟨by rw [hlist]; exact h.nodup, by rw [hlist]; exact h.reqs,
    by rw [hlist]; exact h.proper, fun hne => ?_, fun hl => ?_⟩
  · exact (hc.resolve_left fun h => hne h.1).2
  · exact .inr (hc.resolve_right fun h => h.1 hl).2

theorem capSafe_of_not_shortcut {s : St} {l : Lbl} (h : ¬ l.op.Shortcut) : CapSafe s l := by
  unfold CapSafe
  split
  · rename_i stat cpuStat hop
    have h11 : stat = 1 ∧ cpuStat = 1 := by
      rw [hop] at h; exact not_not.mp h
    rw [if_pos h11.1]
    exact fun hc => absurd h11.2 hc
  · trivial

theorem drop_write {s s' : St} {v : Int} (hw : s'.cpu.maxWrites = s.cpu.maxWrites ++ [v]) :
    s'.cpu.maxWrites.drop s.cpu.maxWrites.length = [v] := by
  rw [hw, List.drop_left]

/-- A step keeps the limit, and writes the right value exactly when it is
safe. -/
theorem capWritten_iff {s s' : St} {l : Lbl} (h : Good s) (hst : step s l = some s') :
    CapWritten s l s' ↔ CapSafe s l := by
  unfold CapWritten
  have hmax := h.max
  cases side_effect hst .max with
  | same _ hn _ _ hw =>
    refine iff_of_true (fun v hv => ?_) (capSafe_of_not_shortcut (hn rfl))
    rw [show s'.cpu.maxWrites = s.cpu.maxWrites from hw, List.drop_length] at hv
    cases hv
  | set _ pid freq hn hf hi hmem hside hreqs hw =>
    refine iff_of_true (fun v hv => ?_) (capSafe_of_not_shortcut (hn rfl))
    rw [drop_write hw, List.mem_singleton] at hv
    obtain ⟨hsound, hne⟩ := sound_add hmax l.env pid freq hmem hf hi
    rw [hv, show s'.maxReqs = _ from hreqs, show s'.cpu.max = _ from hside,
      show s'.cpu.side .max = _ from hside]
    exact (hsound.capped_iff _ _).mpr (.inr ⟨hne, hsound.cur hne⟩)
  | release _ pid hn hside hreqs hw =>
    refine iff_of_true (fun v hv => ?_) (capSafe_of_not_shortcut (hn rfl))
    rw [drop_write hw, List.mem_singleton] at hv
    have hcap := (translate_capped (sound_remove hmax l.env pid)).2
    rw [hv, show s'.maxReqs = _ from hreqs, show s'.cpu.max = _ from hside,
      show s'.cpu.side .max = _ from hside, translate_limit]
    exact hcap
  | rewrite stat cpuStat hop hs hc hside hreqs hw =>
    rw [drop_write hw]
    simp only [List.mem_singleton, forall_eq, CapSafe, hop, hs, if_true, ne_eq, hc,
      not_false_eq_true, true_imp_iff, hreqs, hside, hmax.capped_iff, hmax.reqs_nil]
    constructor
    · rintro (⟨-, hcur⟩ | ⟨hne, -⟩) hl hmx
      · rw [← hcur, hmx]
      · exact absurd hl hne
    · intro hlim
      by_cases hl : s.cpu.max.list = []
      · refine .inl ⟨hl, ?_⟩
        rcases hmax.idle hl with hcur | hcur
        · exact hcur.trans (hlim hl hcur).symm
        · exact hcur
      · exact .inr ⟨hl, hmax.cur hl⟩
  | slip stat cpuStat hop hs hside hreqs hw =>
    rw [drop_write hw]
    have hlim : s'.cpu.max.limit = s.cpu.max.limit := by
      rw [hside]; split <;> rfl
    simp only [List.mem_singleton, forall_eq, CapSafe, hop, if_neg hs, hreqs, hlim]
    exact slip_capped (sound_remove hmax l.env s.cpu.self) (fun hl => removeEntry_nil hl) hside

theorem good_step : lts.Guarded CapSafe Good := by
  intro s l s' h hc hst
  constructor
  · have hcap := (capWritten_iff h hst).mpr hc
    unfold CapWritten at hcap
    cases side_effect hst .max with
    | same _ _ hside hreqs _ =>
      rw [show s'.cpu.max = _ from hside, show s'.maxReqs = _ from hreqs]; exact h.max
    | set _ pid freq _ hf hi hmem hside hreqs _ =>
      rw [show s'.cpu.max = _ from hside, show s'.maxReqs = _ from hreqs]
      exact (sound_add h.max l.env pid freq hmem hf hi).1
    | release _ pid _ hside hreqs _ =>
      rw [show s'.cpu.max = _ from hside, show s'.maxReqs = _ from hreqs]
      exact (translate_capped (sound_remove h.max l.env pid)).1
    | rewrite _ _ _ _ _ hside hreqs _ =>
      rw [hside, hreqs]; exact h.max
    | slip _ _ _ _ hside hreqs hw =>
      rw [drop_write hw] at hcap
      have hcap := hcap _ (List.mem_singleton.mpr rfl)
      have hr := sound_remove h.max l.env s.cpu.self
      have hlist : s'.cpu.max.list = (removeEntry .max l.env s.cpu.self s.cpu.max).list := by
        rw [hside]; split <;> rfl
      have hlim : s'.cpu.max.limit = (removeEntry .max l.env s.cpu.self s.cpu.max).limit := by
        rw [hside]; split <;> rfl
      rw [hreqs, hlim] at hcap
      rw [hreqs]
      exact hr.of_capped hlist hlim hcap
  · cases side_effect hst .min with
    | same _ _ hside hreqs _ =>
      rw [show s'.cpu.min = _ from hside, show s'.minReqs = _ from hreqs]; exact h.min
    | set _ pid freq _ hf hi hmem hside hreqs _ =>
      rw [show s'.cpu.min = _ from hside, show s'.minReqs = _ from hreqs]
      exact (sound_add h.min l.env pid freq hmem hf hi).1
    | release _ pid _ hside hreqs _ =>
      rw [show s'.cpu.min = _ from hside, show s'.minReqs = _ from hreqs]
      exact (translate_capped (sound_remove h.min l.env pid)).1

/-! ## Runs -/

theorem sound_nil (d : Dir) (limit : Int) : Sound d ⟨[], d.sentinel, limit⟩ fun _ => none :=
  ⟨List.nodup_nil, by simp, by simp, fun h => absurd rfl h, fun _ => .inl rfl⟩

theorem good_init {s : St} (h : Init s) : Good s := by
  obtain ⟨self, e, hwMax, hwMin, stat, cpuStat, hmem, hcpu, hmax, hmin⟩ := h
  have h₀ := sound_nil .max (hwMax.getD DEFAULT_MAX_CPU_FREQ)
  constructor
  · rw [hcpu, hmax]
    by_cases hs : stat = 1 ∧ cpuStat = 1
    · simp only [setFreqLimit, if_pos hs, capSelf_eq hmem]
      exact (sound_add h₀ e self POWER_SAVING_CPUFREQ hmem proper_capSelf.1 proper_capSelf.2).1
    · simp only [setFreqLimit, if_neg hs]
      exact h₀
  · have hside : s.cpu.min = ⟨[], INT_MIN, hwMin.getD DEFAULT_MIN_CPU_FREQ⟩ := by
      rw [hcpu, setFreqLimit]
      split
      · rw [capSelf_eq hmem]; rfl
      · rfl
    rw [hside, hmin]
    exact sound_nil .min _

/-- **The maximum cap of a run.** After `__set_freq_limit`, every value
written as the maximum frequency is the tightest of the requests in force,
or the limit when none is, if and only if no `power_saving_cb` of the run
takes a shortcut that shows. -/
theorem cap_along_iff (s₀ : St) (h₀ : Init s₀) (ls : List Lbl) :
    lts.Along CapWritten s₀ ls ↔ lts.Meets CapSafe s₀ ls :=
  LTS.along_iff (fun _ _ _ => capWritten_iff) good_step (good_init h₀) ls

/-- A run in which `power_saving_cb` only adds the daemon's request. -/
theorem meets_of_no_shortcut {ls : List Lbl} (h : ∀ l ∈ ls, ¬ l.op.Shortcut) (s : St) :
    lts.Meets CapSafe s ls :=
  LTS.meets_of_labels (fun l hl _ => capSafe_of_not_shortcut (h l hl)) s

/-- Every pid is alive and every call succeeds. -/
def calm : Env := ⟨fun _ => true, true, true⟩

/-- The daemon has pid 1, the hardware 100000 to 1200000, and power saving is
off. -/
def started : St :=
  ⟨setFreqLimit calm (some 1200000) (some 100000) 0 0 (static 1), fun _ => none, fun _ => none⟩

theorem init_started : Init started :=
  ⟨1, calm, some 1200000, some 100000, 0, 0, rfl, rfl, rfl, rfl⟩

/-- Pid 5 sets and releases a cap. -/
def setAndRelease : List Lbl :=
  [⟨calm, .setFrequency .max 2 [some ⟨0, lit "5"⟩, some ⟨1, lit "500000"⟩]⟩,
    ⟨calm, .releaseFrequency .max 1 [some ⟨2, lit "5"⟩]⟩]

theorem cap_setAndRelease : lts.Along CapWritten started setAndRelease ∧
    (lts.run started setAndRelease).map (fun s => s.cpu.maxWrites) = some [500000, 1200000] := by
  refine ⟨(cap_along_iff started init_started setAndRelease).mpr (meets_of_no_shortcut ?_ _), by decide⟩
  intro l hl
  rcases List.mem_cons.mp hl with rfl | hl
  · exact fun h => h
  · rw [List.mem_singleton.mp hl]; exact fun h => h

/-- Power saving is switched off, and nobody asks for anything. -/
def switchOff : List Lbl := [⟨calm, .powerSavingCb 0 0⟩]

/-- The sentinel itself is written. -/
theorem cap_switchOff :
    (lts.run started switchOff).map (fun s => s.cpu.maxWrites) = some [INT_MAX] ∧
    ¬ lts.Along CapWritten started switchOff := by
  refine ⟨by decide, fun h => ?_⟩
  have hw := (h _ rfl).1 INT_MAX (List.mem_singleton.mpr rfl)
  rcases hw with ⟨-, hlim⟩ | ⟨⟨p, hp⟩, -⟩
  · exact absurd hlim (by decide)
  · simp [started, Op.ask, Ask.apply] at hp

end SystemServer.L4.CpuFreq
