import SystemServer.L4Device.Permanent

/-!
# The generations of a permanent process (`ss_pmon_handler.c`, `ss_launch.c`)

`Permanent` looks at one relaunch, and at the records over a run of deaths.
Together: each generation of a process is launched by a record that was copied
from generation to generation, through a command line that is made and taken
apart each time.

`generations_iff`: in every run in which the records fit, every relaunch gives
execvp the program and the arguments of the first generation, exactly when no
process has an argument with a blank, a quote or a backslash. One that has is
launched with others at its first death.
-/
namespace SystemServer.L4.Permanent

open SystemServer.L4.Launch

/-! ## A launch that succeeds -/

theorem failed_ret : ¬ 0 < Launched.failed.ret := by decide

/-- The words of a launch that succeeds, when all of them are copied. -/
theorem goes_of_launched {E : Env} {path arg : Bytes} (hdup : ∀ n, E.strdup n = true)
    (h : 0 < (ssLaunchEvenifExist E (some path) (some arg)).ret) :
    ∃ file ws, (words (commandLine path arg)).take (MAX_ARGS + 1) = file :: ws ∧ E.Goes file := by
  simp only [ssLaunchEvenifExist, Option.getD_some] at h
  cases h₁ : malloc E.lineMalloc ((cstr path).length + (cstr arg).length + 10) with
  | none =>
    rw [h₁] at h
    exact absurd h failed_ret
  | some buf =>
    simp only [h₁, launchAppCmdWithNice] at h
    cases h₂ : E.tokenMalloc with
    | none =>
      rw [h₂] at h
      simp [parseCmd, malloc, Launched.failed] at h
    | some junk =>
      have hne : cstr (commandLine path arg) ≠ [] := by
        rw [cstr_commandLine, commandLine_eq]
        simp
      rw [h₂, parseCmd_eq junk E.strdup hne, cstr_commandLine, if_neg (by omega),
        slots_of_dup hdup] at h
      have hline : E.lineMalloc.isSome := by
        rw [malloc, Option.map_eq_some_iff] at h₁
        obtain ⟨junk', hjunk', -⟩ := h₁
        rw [hjunk']
        rfl
      cases hws : (words (commandLine path arg)).take (MAX_ARGS + 1) with
      | nil =>
        rw [hws] at h
        exact absurd h failed_ret
      | cons file ws =>
        rw [hws] at h
        refine ⟨file, ws, rfl, ?_⟩
        unfold launchAppWithNice at h
        simp only [List.map_cons, List.cons_append, List.getElem?_cons_zero, Option.join_some] at h
        split at h
        · exact absurd h failed_ret
        · split at h
          · exact absurd h failed_ret
          · rename_i haccess hfork
            exact ⟨by simpa using haccess, hline, by rw [h₂]; rfl, hdup, hfork⟩

/-- A line that ends in a blank has a word. -/
theorem words_concat_blank (line : Bytes) : words (line ++ [32]) ≠ [] := by
  unfold words
  rw [List.foldl_append]
  generalize line.foldl Words.feed .none = w
  rw [List.foldl_cons, List.foldl_nil, Words.feed]
  cases hreact : react w.flags 32 with
  | put f => simp [Words.all]
  | drop f =>
    unfold react at hreact
    split at hreact
    · cases hreact
    · rw [if_neg (by decide), if_neg (by decide), if_neg (by decide)] at hreact
      split at hreact
      · cases hreact
      · cases hreact
  | cut =>
    simp only [Words.all]
    split <;> simp

/-! ## The generations -/

/-- The `i`-th process was started with the command `cmd i`. -/
structure Starts (cmd : Nat → List Bytes) (s : Sys) : Prop where
  orig : ∀ i p, s.procs[i]? = some p → p.orig = record (cmd i)
  text : ∀ i, i < s.procs.length → ∀ a ∈ cmd i, (0 : UInt8) ∉ a
  few : ∀ i, i < s.procs.length → (cmd i).length ≤ 200

/-- The relaunch of a process that died gives execvp the command, when every
word is copied. -/
def LikeFirst (cmd : Nat → List Bytes) (s : Sys) : Lbl → Sys → Prop
  | .die i io, _ => (∀ n, io.launch.strdup n = true) → ∃ prog args l, cmd i = prog :: args ∧
      relaunch io (s.pid i) s.dir = some l ∧ l.execvp = some (prog, (cmd i).map some ++ [none])
  | .file _ _, _ => True

/-- Nothing in it means anything to `parse_cmd`. -/
def PlainCommand (cmd : List Bytes) : Prop := ∀ a ∈ cmd, ∀ c ∈ a, Plain c

instance (cmd : List Bytes) : Decidable (PlainCommand cmd) :=
  inferInstanceAs (Decidable (∀ a ∈ cmd, ∀ c ∈ a, Plain c))

theorem record_nil : record [] = [] := rfl

/-- A process that is there has a command. -/
theorem Starts.cons {cmd : Nat → List Bytes} {s : Sys} (h : Starts cmd s) (hs : Recorded s) {i : Nat}
    {p : Proc} (hp : s.procs[i]? = some p) : ∃ prog args, cmd i = prog :: args := by
  have hne := hs.nonempty p (List.mem_of_getElem? hp)
  rw [h.orig i p hp] at hne
  cases hcmd : cmd i with
  | nil =>
    rw [hcmd] at hne
    exact absurd record_nil hne
  | cons prog args => exact ⟨prog, args, rfl⟩

theorem starts_step {cmd : Nat → List Bytes} {s s' : Sys} {l : Lbl} (h : Starts cmd s)
    (hst : step s l = some s') : Starts cmd s' := by
  cases l with
  | file pid file =>
    obtain ⟨-, rfl⟩ := Option.ite_some_none_eq_some.mp hst
    exact ⟨h.orig, h.text, h.few⟩
  | die i io =>
    obtain ⟨p, l, hd⟩ := die_cases hst
    have hlen : s'.procs.length = s.procs.length := by rw [hd.procs, List.length_set]
    refine ⟨fun j q hq => ?_, hlen ▸ h.text, hlen ▸ h.few⟩
    rw [hd.procs] at hq
    by_cases hj : j = i
    · subst hj
      have hlt := (List.getElem?_eq_some_iff.mp hd.proc).1
      rw [List.getElem?_set_self hlt] at hq
      obtain rfl := Option.some.inj hq
      exact h.orig j p hd.proc
    · rw [List.getElem?_set_ne (Ne.symm hj)] at hq
      exact h.orig j q hq

/-- The read of a record by a death that is handed over. -/
theorem reads_of_succeeds {io : Io} {file : Bytes} (h : io.succeeds file = true) : io.Reads file := by
  simp only [Io.succeeds, Bool.and_eq_true, decide_eq_true_eq] at h
  obtain ⟨⟨⟨⟨⟨⟨⟨⟨⟨⟨-, hopen⟩, hfstat⟩, hmalloc⟩, hread⟩, -⟩, -⟩, -⟩, -⟩, -⟩, -⟩ := h
  exact ⟨hopen, hfstat, hmalloc, hread⟩

/-- One death. -/
theorem likeFirst_die {cmd : Nat → List Bytes} {s s' : Sys} {i : Nat} {io : Io} (hs : Recorded s)
    (h : Starts cmd s) (hplain : ∀ i, i < s.procs.length → PlainCommand (cmd i))
    (hst : step s (.die i io) = some s') : LikeFirst cmd s (.die i io) s' := by
  intro hdup
  obtain ⟨p, l, hd⟩ := die_cases hst
  have hlt := (List.getElem?_eq_some_iff.mp hd.proc).1
  obtain ⟨prog, args, hcmd⟩ := h.cons hs hd.proc
  have hfile : s.dir p.pid = some (record (prog :: args)) := by
    rw [hs.record p (List.mem_of_getElem? hd.proc), h.orig i p hd.proc, hcmd]
  have hnul : ∀ a ∈ prog :: args, (0 : UInt8) ∉ a := hcmd ▸ h.text i hlt
  have hfew : (prog :: args).length ≤ 200 := hcmd ▸ h.few i hlt
  have hwords : ∀ a ∈ prog :: args, ∀ c ∈ a, Plain c := hcmd ▸ hplain i hlt
  have hio : io.Reads (record (prog :: args)) := by
    have hsucceeds := hd.succeeds
    rw [hfile, Option.getD_some] at hsucceeds
    exact reads_of_succeeds hsucceeds
  -- the launch succeeded, so nothing stops the first word, which is the program
  have hgo : io.launch.Goes prog := by
    obtain ⟨cmdline, hpname, hline⟩ := pname_record (List.cons_ne_nil _ _) hnul hfile hio
    obtain ⟨cmdline', hpname', hl⟩ := Option.map_eq_some_iff.mp hd.launched
    obtain rfl := Option.some.inj (hpname.symm.trans hpname')
    have hpos := hd.pos
    rw [← hl] at hpos
    obtain ⟨file, ws, htake, hgoes⟩ := goes_of_launched hdup hpos
    rw [hline, (words_joined_iff _).mpr hwords] at htake
    obtain rfl : prog = file := (List.cons.inj htake).1
    exact hgoes
  obtain ⟨l', hl', hexec⟩ :=
    (relaunch_iff io p.pid s.dir prog args hfew hnul hfile hio hgo).mpr hwords
  rw [pid_of hd.proc, hcmd]
  exact ⟨prog, args, l', rfl, hl', hexec⟩

theorem likeFirst_run {cmd : Nat → List Bytes} {s : Sys} (hs : Recorded s) (h : Starts cmd s)
    (hplain : ∀ i, i < s.procs.length → PlainCommand (cmd i)) (ls : List Lbl)
    (hls : lts.Meets FitsHere s ls) : lts.Along (LikeFirst cmd) s ls := by
  induction ls generalizing s with
  | nil => trivial
  | cons l ls ih =>
    intro s' hst
    obtain ⟨hl, hls⟩ := hls s' hst
    have hlen : s'.procs.length = s.procs.length := by
      cases l with
      | file pid file =>
        obtain ⟨-, rfl⟩ := Option.ite_some_none_eq_some.mp hst
        rfl
      | die i io =>
        obtain ⟨p, l, hd⟩ := die_cases hst
        rw [hd.procs, List.length_set]
    refine ⟨?_, ih (recorded_step hs hl hst) (starts_step h hst) (hlen ▸ hplain) hls⟩
    cases l with
    | file pid file => trivial
    | die i io => exact likeFirst_die hs h hplain hst

/-! ## A command that is not plain -/

theorem exists_fresh (procs : List Proc) : ∃ n : Int, 0 < n ∧ ∀ q ∈ procs, q.pid < n := by
  induction procs with
  | nil => exact ⟨1, by omega, fun q hq => absurd hq List.not_mem_nil⟩
  | cons p procs ih =>
    obtain ⟨n, hpos, hn⟩ := ih
    refine ⟨max n (p.pid + 1), by omega, fun q hq => ?_⟩
    rcases List.mem_cons.mp hq with rfl | hq
    · omega
    · have hlt := hn q hq
      omega

/-- Everything succeeds, and the child gets the pid `n`. -/
def fullIoWith (file : Bytes) (n : Int) (hn : n = -1 ∨ 0 < n) : Io :=
  { fullIo with readName := file.length, launch := { goes with fork := n, forked := hn } }

theorem fits_self (file : Bytes) : Fits file file := by
  unfold Fits
  by_cases h : file.length ≤ PATH_MAX
  · rw [Nat.min_eq_right h, List.drop_length, List.drop_eq_nil_of_le h]
  · rw [Nat.min_eq_left (by omega)]

theorem joined_concat {args : List Bytes} (hne : args ≠ []) : ∃ line, joined args = line ++ [32] := by
  rcases List.eq_nil_or_concat args with rfl | ⟨before, a, rfl⟩
  · exact absurd rfl hne
  · refine ⟨joined before ++ a, ?_⟩
    rw [joined, joined, List.concat_eq_append, List.flatMap_append, List.flatMap_singleton,
      List.append_assoc]

theorem goes_with (file : Bytes) (n : Int) (hn : n = -1 ∨ 0 < n) (hpos : 0 < n) (prog : Bytes) :
    (fullIoWith file n hn).launch.Goes prog :=
  ⟨rfl, rfl, rfl, fun _ => rfl, fun h => absurd hpos (by rw [show n = -1 from h]; omega)⟩

theorem succeeds_with (file : Bytes) (n : Int) (hn : n = -1 ∨ 0 < n) :
    (fullIoWith file n hn).succeeds file = true := by
  simp [Io.succeeds, fullIoWith, fullIo, PATH_MAX]

/-- The next generation of a process that dies gets the pid of the child. -/
theorem newPid_with {dir : Dir} {pid n : Int} {args : List Bytes} (hne : args ≠ [])
    (hnul : ∀ a ∈ args, (0 : UInt8) ∉ a) (hfile : dir pid = some (record args))
    (hn : n = -1 ∨ 0 < n) (hpos : 0 < n) :
    newPid (fullIoWith (record args) n hn) pid dir = n := by
  have hio := reads_of_succeeds (succeeds_with (record args) n hn)
  obtain ⟨cmdline, hpname, hline⟩ := pname_record hne hnul hfile hio
  obtain ⟨line, hconcat⟩ := joined_concat hne
  cases hws : (words (commandLine cmdline [])).take (MAX_ARGS + 1) with
  | nil =>
    rw [hline, hconcat, List.take_eq_nil_iff] at hws
    exact absurd (hws.resolve_left (by decide)) (words_concat_blank line)
  | cons file ws =>
    have hlaunch := launch_goes (goes_with (record args) n hn hpos file) hws
    rw [newPid, relaunch, hpname, Option.map_some, Option.getD_some, hlaunch]
    rfl

/-- A process whose command is not plain is relaunched with another one the
first time it dies. -/
theorem likeFirst_fails {cmd : Nat → List Bytes} {s : Sys} (hs : Recorded s) (h : Starts cmd s)
    {i : Nat} (hlt : i < s.procs.length) (hnot : ¬ PlainCommand (cmd i)) :
    ∃ ls s', lts.run s ls = some s' ∧ lts.Meets FitsHere s ls ∧ ¬ lts.Along (LikeFirst cmd) s ls := by
  obtain ⟨n, hpos, hfresh⟩ := exists_fresh s.procs
  have hn : n = -1 ∨ 0 < n := .inr hpos
  have hp : s.procs[i]? = some s.procs[i] := List.getElem?_eq_getElem hlt
  generalize s.procs[i] = p at hp
  obtain ⟨prog, args, hcmd⟩ := h.cons hs hp
  have hnul : ∀ a ∈ prog :: args, (0 : UInt8) ∉ a := hcmd ▸ h.text i hlt
  have hfew : (prog :: args).length ≤ 200 := hcmd ▸ h.few i hlt
  -- a file that the record fits comes up for the pid of the next generation
  have hfirst : step s (.file n (some (record (prog :: args)))) =
      some { s with dir := s.dir.set n (some (record (prog :: args))) } :=
    if_pos fun q hq => Int.ne_of_lt (hfresh q hq)
  generalize hs₁ : ({ s with dir := s.dir.set n (some (record (prog :: args))) } : Sys) = s₁ at hfirst
  have hprocs : s₁.procs = s.procs := by rw [← hs₁]
  have hrec := recorded_step (l := .file n (some (record (prog :: args)))) hs trivial hfirst
  have hp₁ : s₁.procs[i]? = some p := hprocs ▸ hp
  have hfile : s₁.dir p.pid = some (record (prog :: args)) := by
    rw [hrec.record p (List.mem_of_getElem? hp₁), h.orig i p hp, hcmd]
  have hold : s₁.dir n = some (record (prog :: args)) := by
    rw [← hs₁]
    exact if_pos rfl
  have hnew := newPid_with (List.cons_ne_nil prog args) hnul hfile hn hpos
  have hok := succeeds_with (record (prog :: args)) n hn
  generalize hio : fullIoWith (record (prog :: args)) n hn = io at hnew hok
  have hgo : io.launch.Goes prog := hio ▸ goes_with (record (prog :: args)) n hn hpos prog
  have hfork : io.launch.fork = n := by rw [← hio]; rfl
  have hdies : ∃ s₂, step s₁ (.die i io) = some s₂ := by
    refine ⟨⟨(pmonProcess io p.pid s₁.dir).2, s₁.procs.set i { p with pid := n }⟩, ?_⟩
    have hif : io.succeeds ((s₁.dir p.pid).getD []) = true ∧ 0 < newPid io p.pid s₁.dir ∧
        ∀ q ∈ s₁.procs, q.pid ≠ newPid io p.pid s₁.dir := by
      rw [hfile, Option.getD_some, hnew, hprocs]
      exact ⟨hok, hpos, fun q hq => Int.ne_of_lt (hfresh q hq)⟩
    simp only [step, hp₁]
    rw [if_pos hif, hnew]
  obtain ⟨s₂, hdie⟩ := hdies
  have hfits : FitsHere s₁ (.die i io) := by
    rw [FitsHere, pid_of hp₁, hfork, hfile, hold]
    exact fits_self _
  refine ⟨[.file n (some (record (prog :: args))), .die i io], s₂,
    LTS.run_cons.mpr ⟨s₁, hfirst, LTS.run_cons.mpr ⟨s₂, hdie, rfl⟩⟩, ?_, fun halong => hnot ?_⟩
  · refine (LTS.meets_cons hfirst).mpr ⟨trivial, (LTS.meets_cons hdie).mpr ⟨hfits, trivial⟩⟩
  · have hlike := ((LTS.along_cons hdie).mp ((LTS.along_cons hfirst).mp halong).2).1
    obtain ⟨prog', args', l, hcmd', hl, hexec⟩ := hlike hgo.strdup
    rw [pid_of hp₁] at hl
    rw [hcmd'] at hcmd hexec
    obtain ⟨rfl, rfl⟩ := List.cons.inj hcmd
    rw [hcmd']
    exact (relaunch_iff io p.pid s₁.dir prog' args' hfew hnul hfile (reads_of_succeeds hok) hgo).mp
      ⟨l, hl, hexec⟩

/-- **The generations of a permanent process.** In every run of deaths in which
the records fit, every relaunch gives execvp the command the process was started
with, if and only if no process has a word with a blank, a quote or a backslash
in its command. -/
theorem generations_iff (cmd : Nat → List Bytes) (s₀ : Sys) (hs : Recorded s₀) (h : Starts cmd s₀) :
    (∀ ls, lts.Meets FitsHere s₀ ls → lts.Along (LikeFirst cmd) s₀ ls) ↔
      ∀ i, i < s₀.procs.length → PlainCommand (cmd i) := by
  constructor
  · intro hall i hlt
    by_contra hnot
    obtain ⟨ls, s', -, hfits, hfails⟩ := likeFirst_fails hs h hlt hnot
    exact hfails (hall ls hfits)
  · intro hplain ls hls
    exact likeFirst_run hs h hplain ls hls

/-- Two generations, with the pids 7 and 8. -/
def twoDeaths : List Lbl :=
  [.die 0 fullIo, .die 0 (fullIoWith (record [lit "/bin/x"]) 8 (by decide))]

theorem generations_two :
    ((lts.run (left none) twoDeaths).map fun s => (s.pid 0, s.dir 8)) =
      some (8, some (record [lit "/bin/x"])) ∧
    lts.Along (LikeFirst fun _ => [lit "/bin/x"]) (left none) twoDeaths := by
  have hstarts : Starts (fun _ => [lit "/bin/x"]) (left none) := by
    refine ⟨fun i p hp => ?_, fun i _ => by decide, fun i _ => by decide⟩
    obtain rfl := List.mem_singleton.mp (List.mem_of_getElem? hp)
    rfl
  have hplain : PlainCommand [lit "/bin/x"] := by decide +kernel
  refine ⟨by decide, ?_⟩
  exact (generations_iff _ (left none) (recorded_left none) hstarts).mpr (fun _ _ => hplain)
    twoDeaths (by decide)

end SystemServer.L4.Permanent
