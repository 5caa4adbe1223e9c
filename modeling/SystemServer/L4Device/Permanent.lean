import SystemServer.Core.LTS
import SystemServer.L4Device.Launch

/-!
# Permanent processes (`ss_pmon_handler.c`)

Each permanent process has a file under PMON_PERMANENT_DIR, named by its pid,
that holds its command line. When one dies, `pmon_process` launches it again
by that record and copies the record to a file for the new pid.

* `relaunch_iff`: the arguments go through a command line of blanks, so they
  arrive as they were exactly when none of them holds a blank, a quote or a
  backslash.
* `handOver_iff`: the copy is at most PATH_MAX bytes, and it is written over
  the start of whatever file the new pid has, so it is exact on a condition on
  the record and that file (`Fits`), in every run of deaths.

A `Dir` is the directory, by pid. The pid's place among the monitored ones and
its oom_adj value are written after the copy and left out, the `fopen` that
can stop the hand-over apart; so is the `mkdir` of the directory, which is
there when a record was read from it.
-/
namespace SystemServer.L4.Permanent

open SystemServer.L4.Launch

/-! ## The source -/

/-- The value of limits.h. -/
def PATH_MAX : Nat := 4096

/-- PMON_PERMANENT_DIR: what the file of each pid holds. -/
abbrev Dir := Int → Option Bytes

def Dir.set (dir : Dir) (pid : Int) (file : Option Bytes) : Dir :=
  fun p => if p = pid then file else dir p

/-- What one call of `pmon_process` meets. A read or a write moves at most the
given number of bytes; `none` is the return value -1. -/
structure Io where
  vip : Bool
  hibernation : Bool
  openName : Bool
  fstat : Bool
  malloc : Bool
  readName : Nat
  launch : Env
  openOld : Bool
  readOld : Option Nat
  openNew : Bool
  write : Option Nat
  fopen : Bool
  unlink : Bool

/-- The first `size` bytes.
mirrors ss_pmon_handler.c:34-43 -/
def replaceChar : Nat → Bytes → Bytes
  | 0, t => t
  | _, [] => []
  | size + 1, c :: t => (if c = 0 then 32 else c) :: replaceChar size t

/-- The block is zeroed, and one byte longer than the file.
mirrors ss_pmon_handler.c:45-79 -/
def pmonGetPermanentPname (io : Io) (pid : Int) (dir : Dir) : Option Bytes :=
  match dir pid with
  | none => none
  | some file =>
    if io.openName && io.fstat && io.malloc then
      let got := file.take io.readName
      let cmdline := got ++ List.replicate (file.length + 1 - got.length) 0
      some (replaceChar (file.length - 1) cmdline)
    else none

/-- mirrors ss_pmon_handler.c:101-105 -/
def relaunch (io : Io) (pid : Int) (dir : Dir) : Option Launched :=
  (pmonGetPermanentPname io pid dir).map fun cmdline =>
    ssLaunchEvenifExist io.launch (some cmdline) (some [])

/-- `open` without O_TRUNC, then `write`: the bytes behind stay. -/
def overwrite (old buf : Bytes) : Bytes := buf ++ old.drop buf.length

/-- Returns the value and the directory. A read that fails is not noticed
(`cnt` is a size_t), but then the write of SIZE_MAX bytes fails.
mirrors ss_pmon_handler.c:106-166 -/
def handOver (io : Io) (pid newPid : Int) (dir : Dir) : Int × Dir :=
  match dir pid with
  | none => (-1, dir)
  | some file =>
    if ¬ io.openOld then (-1, dir)
    else
      let buf := io.readOld.map fun n => (file.take PATH_MAX).take n
      if buf = some [] then (-1, dir)
      else if ¬ io.openNew then (-1, dir)
      else
        let old := (dir newPid).getD []
        match buf, io.write with
        | some buf, some n =>
          let dir := dir.set newPid (some (overwrite old (buf.take n)))
          if ¬ io.fopen then (-1, dir)
          else (0, if io.unlink then dir.set pid none else dir)
        | _, _ => (-1, dir.set newPid (some old))

/-- mirrors ss_pmon_handler.c:86-174 -/
def pmonProcess (io : Io) (pid : Int) (dir : Dir) : Int × Dir :=
  if io.vip then (0, dir)
  else if io.hibernation then (0, dir)
  else
    match relaunch io pid dir with
    | none => (0, dir)
    | some l => if l.ret > 0 then handOver io pid l.ret dir else (0, dir)

/-! ## The command line of a record -/

/-- The record of a process: each argument with its NUL. -/
def record (args : List Bytes) : Bytes := args.flatMap fun a => a ++ [0]

/-- The record is read, and in full. -/
structure Io.Reads (io : Io) (file : Bytes) : Prop where
  openName : io.openName = true
  fstat : io.fstat = true
  malloc : io.malloc = true
  readName : file.length ≤ io.readName

/-- NUL to blank. -/
def blank (c : UInt8) : UInt8 := if c = 0 then 32 else c

theorem replaceChar_append (t rest : Bytes) :
    replaceChar t.length (t ++ rest) = t.map blank ++ rest := by
  induction t with
  | nil => cases rest <;> rfl
  | cons c t ih => simp [replaceChar, blank, ih]

theorem zero_notMem_blank (t : Bytes) : (0 : UInt8) ∉ t.map blank := by
  intro h
  obtain ⟨c, -, hc⟩ := List.mem_map.mp h
  unfold blank at hc
  split at hc
  · exact absurd hc (by decide)
  · contradiction

theorem blank_id {a : Bytes} (h : (0 : UInt8) ∉ a) : a.map blank = a := by
  induction a with
  | nil => rfl
  | cons c a ih =>
    simp only [List.mem_cons, not_or] at h
    simp [blank, Ne.symm h.1, ih h.2]

theorem record_cons (a : Bytes) (args : List Bytes) :
    record (a :: args) = a ++ 0 :: record args := by
  simp [record]

/-- A record with its NULs turned to blanks. -/
theorem map_blank_record {args : List Bytes} (h : ∀ a ∈ args, (0 : UInt8) ∉ a) :
    (record args).map blank = joined args := by
  induction args with
  | nil => rfl
  | cons a args ih =>
    rw [record_cons, joined_cons, List.map_append, blank_id (h a List.mem_cons_self),
      List.map_cons, ih fun b hb => h b (List.mem_cons_of_mem _ hb)]
    rfl

theorem record_ne_nil {args : List Bytes} (h : args ≠ []) : record args ≠ [] := by
  cases args with
  | nil => contradiction
  | cons a args => rw [record_cons]; simp

/-- The last byte of a record is a NUL. -/
theorem record_eq_concat {args : List Bytes} (h : args ≠ []) : ∃ t, record args = t ++ [0] := by
  induction args with
  | nil => contradiction
  | cons a args ih =>
    by_cases hargs : args = []
    · exact ⟨a, by simp [hargs, record]⟩
    · obtain ⟨t, ht⟩ := ih hargs
      exact ⟨a ++ 0 :: t, by rw [record_cons, ht]; simp⟩

/-- What `pmon_get_permanent_pname` returns, and the line that is launched. -/
theorem pname_record {io : Io} {pid : Int} {dir : Dir} {args : List Bytes} (hne : args ≠ [])
    (hnul : ∀ a ∈ args, (0 : UInt8) ∉ a) (hfile : dir pid = some (record args))
    (hio : io.Reads (record args)) : ∃ cmdline, pmonGetPermanentPname io pid dir = some cmdline ∧
      commandLine cmdline [] = joined args := by
  obtain ⟨t, ht⟩ := record_eq_concat hne
  have hline : t.map blank ++ [32] = joined args := by
    rw [← map_blank_record hnul, ht]
    simp [blank]
  have hpname : pmonGetPermanentPname io pid dir = some (t.map blank ++ [0, 0]) := by
    have hshort : (record args).length - 1 = t.length := by rw [ht]; simp
    simp only [pmonGetPermanentPname, hfile, hio.openName, hio.fstat, hio.malloc, Bool.and_true,
      if_true, List.take_of_length_le hio.readName, hshort, Nat.add_sub_cancel_left]
    rw [ht, List.append_assoc]
    exact congrArg some (replaceChar_append t [0, 0])
  refine ⟨_, hpname, ?_⟩
  rw [commandLine_eq, cstr_append_nul (zero_notMem_blank t)]
  exact hline

/-- **The command line of a permanent process.** Its arguments reach `execvp`
as they were if and only if none of them holds a blank, a quote or a
backslash. -/
theorem relaunch_iff (io : Io) (pid : Int) (dir : Dir) (prog : Bytes) (args : List Bytes)
    (hlen : (prog :: args).length ≤ 200) (hnul : ∀ a ∈ prog :: args, (0 : UInt8) ∉ a)
    (hfile : dir pid = some (record (prog :: args)))
    (hio : io.Reads (record (prog :: args))) (hgo : io.launch.Goes prog) :
    (∃ l, relaunch io pid dir = some l ∧
        l.execvp = some (prog, (prog :: args).map some ++ [none])) ↔
      ∀ a ∈ prog :: args, ∀ c ∈ a, Plain c := by
  obtain ⟨cmdline, hpname, hline⟩ := pname_record (List.cons_ne_nil _ _) hnul hfile hio
  have hrelaunch : relaunch io pid dir =
      some (ssLaunchEvenifExist io.launch (some cmdline) (some [])) := by
    rw [relaunch, hpname]
    rfl
  rw [← words_joined_iff, ← hline]
  constructor
  · intro hexact
    obtain ⟨l, hl, hexec⟩ := hexact
    obtain rfl := Option.some.inj (hrelaunch.symm.trans hl)
    have hargv := List.append_cancel_right (execvp_launch hexec)
    rw [slots_of_dup hgo.strdup] at hargv
    have htake := List.map_injective_iff.mpr (Option.some_injective _) hargv
    -- fewer words than slots, so none was cut off
    rw [List.take_of_length_le] at htake
    · exact htake.symm
    · have := congrArg List.length htake
      rw [List.length_take] at this
      unfold MAX_ARGS at *
      omega
  · intro hwords
    refine ⟨_, hrelaunch, ?_⟩
    have hshort : (prog :: args).length ≤ MAX_ARGS + 1 := Nat.le_trans hlen (by decide)
    rw [@launch_goes io.launch cmdline [] prog args hgo]
    rw [hwords, List.take_of_length_le hshort]

theorem forked_seven : (7 : Int) = -1 ∨ (0 : Int) < 7 := by omega

/-- Everything goes well, and the child gets pid 7. -/
def goes : Env :=
  ⟨fun _ => true, some fun _ => 0, some fun _ => 0, fun _ => true, 7, forked_seven, true⟩

theorem goes_goes (file : Bytes) : goes.Goes file := ⟨rfl, rfl, rfl, fun _ => rfl, by decide⟩

def fullIo : Io :=
  ⟨false, false, true, true, true, 4096, goes, true, some 4096, true, some 4096, true, true⟩

/-- One file, of pid 5. -/
def dirOf (args : List Bytes) : Dir := fun p => if p = 5 then some (record args) else none

/-- Arguments may be empty. -/
theorem relaunch_plain : ∃ l, relaunch fullIo 5 (dirOf [lit "/bin/x", [], lit "-d"]) = some l ∧
    l.execvp = some (lit "/bin/x", [lit "/bin/x", [], lit "-d"].map some ++ [none]) := by
  have hplain : [lit "/bin/x", [], lit "-d"].all (fun a => a.all (Plain ·)) = true := by decide
  refine (relaunch_iff fullIo 5 _ (lit "/bin/x") [[], lit "-d"] (by decide) (by decide) rfl
    ⟨rfl, rfl, rfl, by decide⟩ (goes_goes _)).mpr fun a ha c hc => ?_
  simpa using List.all_eq_true.mp (List.all_eq_true.mp hplain a ha) c hc

/-- A blank in an argument: it arrives as two. -/
theorem relaunch_blank :
    (relaunch fullIo 5 (dirOf [lit "/bin/x", lit "a b"])).map Launched.execvp =
        some (some (lit "/bin/x", [lit "/bin/x", lit "a", lit "b"].map some ++ [none])) ∧
      ¬ ∃ l, relaunch fullIo 5 (dirOf [lit "/bin/x", lit "a b"]) = some l ∧
        l.execvp = some (lit "/bin/x", [lit "/bin/x", lit "a b"].map some ++ [none]) := by
  have hargs : (relaunch fullIo 5 (dirOf [lit "/bin/x", lit "a b"])).map Launched.execvp =
      some (some (lit "/bin/x", [lit "/bin/x", lit "a", lit "b"].map some ++ [none])) := by
    decide
  refine ⟨hargs, ?_⟩
  intro hexact
  obtain ⟨l, hl, hexec⟩ := hexact
  rw [hl, Option.map_some, hexec] at hargs
  exact absurd hargs (by decide)

/-! ## The hand-over -/

/-- Everything succeeds, and every read and write moves what it is asked for. -/
def Io.succeeds (io : Io) (file : Bytes) : Bool :=
  !io.vip && !io.hibernation && io.openName && io.fstat && io.malloc &&
    decide (file.length ≤ io.readName) && io.openOld && io.readOld.any (PATH_MAX ≤ ·) &&
    io.openNew && io.write.any (PATH_MAX ≤ ·) && io.fopen && io.unlink

/-- The record moves from `pid` to `newPid`, and no other changes. -/
structure Exact (pid newPid : Int) (dir dir' : Dir) : Prop where
  record : dir' newPid = dir pid
  gone : dir' pid = none
  others : ∀ p, p ≠ pid → p ≠ newPid → dir' p = dir p

/-- What an older file for the new pid holds behind the bytes that are copied
is what the record holds there. Without an older file: the record has at most
PATH_MAX bytes. -/
def Fits (file older : Bytes) : Prop := older.drop (min PATH_MAX file.length) = file.drop PATH_MAX

instance (file older : Bytes) : Decidable (Fits file older) :=
  inferInstanceAs (Decidable (older.drop (min PATH_MAX file.length) = file.drop PATH_MAX))

/-- A record of at most PATH_MAX bytes fits an older file that is not longer,
and no other. -/
theorem fits_iff_of_short {file older : Bytes} (h : file.length ≤ PATH_MAX) :
    Fits file older ↔ older.length ≤ file.length := by
  rw [Fits, Nat.min_eq_right h, List.drop_eq_nil_of_le h, List.drop_eq_nil_iff]

theorem overwrite_eq_iff (file older : Bytes) :
    overwrite older (file.take PATH_MAX) = file ↔ Fits file older := by
  rw [overwrite, Fits, List.length_take]
  conv_lhs => rhs; rw [← List.take_append_drop PATH_MAX file]
  exact List.append_right_inj _

/-- The directory after a hand-over. -/
theorem pmonProcess_relaunched {io : Io} {pid : Int} {dir : Dir} {file : Bytes} {l : Launched}
    (hfile : dir pid = some file) (hne : file ≠ []) (hio : io.succeeds file = true)
    (hl : relaunch io pid dir = some l) (hpos : 0 < l.ret) :
    pmonProcess io pid dir = (0, (dir.set l.ret
      (some (overwrite ((dir l.ret).getD []) (file.take PATH_MAX)))).set pid none) := by
  simp only [Io.succeeds, Bool.and_eq_true, Bool.not_eq_true', decide_eq_true_eq,
    Option.any_eq_true] at hio
  obtain ⟨⟨⟨⟨⟨⟨⟨⟨⟨⟨⟨hvip, hhib⟩, -⟩, -⟩, -⟩, -⟩, hold⟩, n, hn, hread⟩, hnew⟩, m, hm, hwrite⟩, hfopen⟩,
    hunlink⟩ := hio
  have hshort : (file.take PATH_MAX).length ≤ PATH_MAX := List.length_take_le _ _
  have hbuf : (file.take PATH_MAX).take n = file.take PATH_MAX :=
    List.take_of_length_le (Nat.le_trans hshort hread)
  have hall : (file.take PATH_MAX).take m = file.take PATH_MAX :=
    List.take_of_length_le (Nat.le_trans hshort hwrite)
  have hsome : file.take PATH_MAX ≠ [] := by
    cases file with
    | nil => contradiction
    | cons c file => simp [PATH_MAX]
  simp [pmonProcess, hvip, hhib, hl, hpos, handOver, hfile, hold, hn, hbuf, hsome, hnew, hm, hall,
    hfopen, hunlink]

/-- One hand-over. -/
theorem exact_iff {io : Io} {pid : Int} {dir : Dir} {file : Bytes} {l : Launched}
    (hfile : dir pid = some file) (hne : file ≠ []) (hio : io.succeeds file = true)
    (hl : relaunch io pid dir = some l) (hpos : 0 < l.ret) (hpid : pid ≠ l.ret) :
    Exact pid l.ret dir (pmonProcess io pid dir).2 ↔ Fits file ((dir l.ret).getD []) := by
  rw [pmonProcess_relaunched hfile hne hio hl hpos, ← overwrite_eq_iff]
  constructor
  · intro h
    have hrecord := h.record
    simp only [Dir.set, if_neg (Ne.symm hpid), if_true, hfile] at hrecord
    exact Option.some.inj hrecord
  · intro h
    refine ⟨?_, by simp [Dir.set], fun p hp hp' => by simp [Dir.set, hp, hp']⟩
    simp [Dir.set, Ne.symm hpid, hfile, h]

/-! ## Deaths and relaunches -/

/-- A permanent process and the record it started with. -/
structure Proc where
  pid : Int
  orig : Bytes

structure Sys where
  dir : Dir
  procs : List Proc

def Sys.pid (s : Sys) (i : Nat) : Int := ((s.procs[i]?).map Proc.pid).getD 0

/-- The `i`-th process dies and is launched again, all file operations
succeeding, or a file that is no live process's record comes, goes or changes. -/
inductive Lbl where
  | die (i : Nat) (io : Io)
  | file (pid : Int) (file : Option Bytes)

/-- The pid of the relaunched process. -/
def newPid (io : Io) (pid : Int) (dir : Dir) : Int := ((relaunch io pid dir).getD .failed).ret

def step (s : Sys) : Lbl → Option Sys
  | .die i io =>
    match s.procs[i]? with
    | none => none
    | some p =>
      let new := newPid io p.pid s.dir
      if io.succeeds ((s.dir p.pid).getD []) ∧ 0 < new ∧ ∀ q ∈ s.procs, q.pid ≠ new then
        some ⟨(pmonProcess io p.pid s.dir).2, s.procs.set i { p with pid := new }⟩
      else none
  | .file pid file =>
    if ∀ q ∈ s.procs, q.pid ≠ pid then some { s with dir := s.dir.set pid file } else none

/-- Every process has its own pid, and its record there. -/
structure Recorded (s : Sys) : Prop where
  distinct : ∀ (i j : Nat) (p q : Proc), s.procs[i]? = some p → s.procs[j]? = some q → p.pid = q.pid → i = j
  record : ∀ p ∈ s.procs, s.dir p.pid = some p.orig
  nonempty : ∀ p ∈ s.procs, p.orig ≠ []

def lts : LTS Sys Lbl := ⟨Recorded, step⟩

/-- The death of a process hands its record over exactly. -/
def Handed (s : Sys) : Lbl → Sys → Prop
  | .die i _, s' => Exact (s.pid i) (s'.pid i) s.dir s'.dir
  | .file _ _, _ => True

/-- The record of a process that dies fits the older file of its new pid. -/
def FitsHere (s : Sys) : Lbl → Prop
  | .die i io => Fits ((s.dir (s.pid i)).getD []) ((s.dir io.launch.fork).getD [])
  | .file _ _ => True

instance (s : Sys) : ∀ l, Decidable (FitsHere s l)
  | .die i io => inferInstanceAs (Decidable (Fits ((s.dir (s.pid i)).getD [])
      ((s.dir io.launch.fork).getD [])))
  | .file _ _ => .isTrue trivial

theorem pid_of {s : Sys} {i : Nat} {p : Proc} (h : s.procs[i]? = some p) : s.pid i = p.pid := by
  simp [Sys.pid, h]

/-- What a death that is handed over amounts to. -/
structure Died (i : Nat) (io : Io) (p : Proc) (l : Launched) (s s' : Sys) : Prop where
  proc : s.procs[i]? = some p
  succeeds : io.succeeds ((s.dir p.pid).getD []) = true
  launched : relaunch io p.pid s.dir = some l
  pos : 0 < l.ret
  fresh : ∀ q ∈ s.procs, q.pid ≠ l.ret
  dir : s'.dir = (pmonProcess io p.pid s.dir).2
  procs : s'.procs = s.procs.set i { p with pid := l.ret }

theorem die_cases {s s' : Sys} {i : Nat} {io : Io} (h : step s (.die i io) = some s') :
    ∃ p l, Died i io p l s s' := by
  simp only [step] at h
  cases hp : s.procs[i]? with
  | none => simp [hp] at h
  | some p =>
    simp only [hp] at h
    split at h
    · rename_i hif
      obtain rfl := Option.some.inj h
      obtain ⟨hio, hpos, hfresh⟩ := hif
      cases hl : relaunch io p.pid s.dir with
      | none => simp [newPid, hl, Launched.failed] at hpos
      | some l =>
        have hnew : newPid io p.pid s.dir = l.ret := by simp [newPid, hl]
        rw [hnew] at hpos hfresh ⊢
        exact ⟨p, l, hp, hio, hl, hpos, hfresh, rfl, rfl⟩
    · cases h

theorem Died.fork {i : Nat} {io : Io} {p : Proc} {l : Launched} {s s' : Sys}
    (h : Died i io p l s s') : io.launch.fork = l.ret := by
  obtain ⟨cmdline, -, hl⟩ := Option.map_eq_some_iff.mp h.launched
  rcases launch_cases io.launch (some cmdline) (some []) with hfail | ⟨-, x, hx⟩
  · have hpos := h.pos
    rw [← hl, hfail] at hpos
    exact absurd hpos (by decide)
  · rw [← hl, hx]

theorem Died.pid {i : Nat} {io : Io} {p : Proc} {l : Launched} {s s' : Sys}
    (h : Died i io p l s s') : s'.pid i = l.ret := by
  have hlt : i < s.procs.length := (List.getElem?_eq_some_iff.mp h.proc).1
  simp [Sys.pid, h.procs, List.getElem?_set_self hlt]

/-- A death is handed over exactly if and only if the record fits. -/
theorem handed_iff {s s' : Sys} {l : Lbl} (hs : Recorded s) (hst : step s l = some s') :
    Handed s l s' ↔ FitsHere s l := by
  cases l with
  | file pid file => exact Iff.rfl
  | die i io =>
    obtain ⟨p, l, h⟩ := die_cases hst
    have hmem : p ∈ s.procs := List.mem_of_getElem? h.proc
    have hfile := hs.record p hmem
    have hio : io.succeeds p.orig = true := by simpa [hfile] using h.succeeds
    rw [Handed, FitsHere, pid_of h.proc, h.pid, h.fork, h.dir, hfile]
    exact exact_iff hfile (hs.nonempty p hmem) hio h.launched h.pos (h.fresh p hmem)

theorem recorded_step {s s' : Sys} {l : Lbl} (hs : Recorded s) (hfits : FitsHere s l)
    (hst : step s l = some s') : Recorded s' := by
  have hhanded := (handed_iff hs hst).mpr hfits
  cases l with
  | file pid file =>
    obtain ⟨hother, rfl⟩ := Option.ite_some_none_eq_some.mp hst
    refine ⟨hs.distinct, fun p hp => ?_, hs.nonempty⟩
    simp [Dir.set, hother p hp, hs.record p hp]
  | die i io =>
    obtain ⟨p, l, h⟩ := die_cases hst
    have hmem : p ∈ s.procs := List.mem_of_getElem? h.proc
    have hlt : i < s.procs.length := (List.getElem?_eq_some_iff.mp h.proc).1
    rw [Handed, pid_of h.proc, h.pid] at hhanded
    -- a process is the one that died, or was there before
    have hget : ∀ j q, s'.procs[j]? = some q → j = i ∧ q = { p with pid := l.ret } ∨
        j ≠ i ∧ s.procs[j]? = some q := by
      intro j q hq
      rw [h.procs] at hq
      by_cases hj : j = i
      · subst hj
        rw [List.getElem?_set_self hlt] at hq
        exact .inl ⟨rfl, (Option.some.inj hq).symm⟩
      · rw [List.getElem?_set_ne (Ne.symm hj)] at hq
        exact .inr ⟨hj, hq⟩
    have hcases : ∀ q ∈ s'.procs, q = { p with pid := l.ret } ∨ q ∈ s.procs ∧ q.pid ≠ p.pid := by
      intro q hq
      obtain ⟨j, hj⟩ := List.mem_iff_getElem?.mp hq
      rcases hget j q hj with ⟨-, rfl⟩ | ⟨hne, hold⟩
      · exact .inl rfl
      · exact .inr ⟨List.mem_of_getElem? hold, fun he => hne (hs.distinct j i q p hold h.proc he)⟩
    refine ⟨fun j k q r hj hk he => ?_, fun q hq => ?_, fun q hq => ?_⟩
    · rcases hget j q hj with ⟨rfl, rfl⟩ | ⟨hji, hq⟩ <;> rcases hget k r hk with ⟨rfl, rfl⟩ | ⟨hki, hr⟩
      · rfl
      · exact absurd he.symm (h.fresh r (List.mem_of_getElem? hr))
      · exact absurd he (h.fresh q (List.mem_of_getElem? hq))
      · exact hs.distinct j k q r hq hr he
    · rcases hcases q hq with rfl | ⟨hq, hne⟩
      · exact hhanded.record.trans (hs.record p hmem)
      · rw [hhanded.others q.pid hne (h.fresh q hq)]
        exact hs.record q hq
    · rcases hcases q hq with rfl | ⟨hq, -⟩
      · exact hs.nonempty p hmem
      · exact hs.nonempty q hq

theorem recorded_guarded : lts.Guarded FitsHere Recorded := fun _ _ _ hs hfits hst =>
  recorded_step hs hfits hst

theorem along_handed_iff {s₀ : Sys} (h₀ : Recorded s₀) (ls : List Lbl) :
    lts.Along Handed s₀ ls ↔ lts.Meets FitsHere s₀ ls := by
  have hok : ∀ s l s', Recorded s → lts.step s l = some s' → (Handed s l s' ↔ FitsHere s l) :=
    fun _ _ _ hs hst => handed_iff hs hst
  exact LTS.along_iff hok recorded_guarded h₀ ls

/-- **Hand-over.** In every run of deaths and relaunches every record is
handed over exactly if and only if it fits the older file of the new pid at
each of them; and then every process still has the record it started with. -/
theorem handOver_iff (s₀ : Sys) (h₀ : Recorded s₀) (ls : List Lbl) :
    (lts.Along Handed s₀ ls ↔ lts.Meets FitsHere s₀ ls) ∧
      (lts.Meets FitsHere s₀ ls → ∀ s, lts.run s₀ ls = some s →
        ∀ p ∈ s.procs, s.dir p.pid = some p.orig) :=
  ⟨along_handed_iff h₀ ls, fun hmeets _ hr => (recorded_guarded.run h₀ hmeets hr).record⟩

/-- A process with pid 5, and a file left behind by an earlier pid 7. -/
def left (older : Option Bytes) : Sys :=
  ⟨fun p => if p = 5 then some (record [lit "/bin/x"]) else if p = 7 then older else none,
    [⟨5, record [lit "/bin/x"]⟩]⟩

theorem recorded_left (older : Option Bytes) : Recorded (left older) := by
  refine ⟨fun i j p q hi hj _ => ?_, fun p hp => ?_, fun p hp => ?_⟩
  · have hi := (List.getElem?_eq_some_iff.mp hi).1
    have hj := (List.getElem?_eq_some_iff.mp hj).1
    simp only [left, List.length_singleton] at hi hj
    omega
  · obtain rfl := List.mem_singleton.mp hp
    rfl
  · obtain rfl := List.mem_singleton.mp hp
    exact record_ne_nil (List.cons_ne_nil _ _)

/-- A shorter file is overwritten. -/
theorem handOver_shorter :
    (lts.run (left (some (record [lit "/y"]))) [.die 0 fullIo]).isSome ∧
      lts.Along Handed (left (some (record [lit "/y"]))) [.die 0 fullIo] :=
  ⟨by decide, (handOver_iff _ (recorded_left _) _).1.mpr (by decide)⟩

/-- Of a longer file the end is left. -/
theorem handOver_longer :
    (lts.run (left (some (record [lit "/sbin/yy"]))) [.die 0 fullIo]).map (fun s => s.dir 7) =
        some (some (lit "/bin/x" ++ 0 :: lit "y" ++ [0])) ∧
      ¬ lts.Along Handed (left (some (record [lit "/sbin/yy"]))) [.die 0 fullIo] := by
  have hrun : (lts.run (left (some (record [lit "/sbin/yy"]))) [.die 0 fullIo]).map
      (fun s => s.dir 7) = some (some (lit "/bin/x" ++ 0 :: lit "y" ++ [0])) := by decide
  refine ⟨hrun, fun h => ?_⟩
  exact absurd ((along_handed_iff (recorded_left _) _).mp h) (by decide)

end SystemServer.L4.Permanent
