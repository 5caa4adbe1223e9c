import SystemServer.L3Daemon.Sigchld
import SystemServer.L4Device.Cables

/-!
# USB events and usb-server (`ss_predefine.c`, `ss_launch.c`, `ss_core.c`)

A USB event queues PREDEF_USBCON. Its handler starts usb-server when the cable
is online, unless one is running, and returns the pid; the entry stays on the
queue with that `forked_pid` until the pid is reported. With a server running
`ss_launch_if_noexist` returns the value of a comparison, 1, and nobody ever
reports pid 1.

`server_iff`: in a state a run reaches with an empty pipe and no usb-server,
the queue holds no entry (but for those of a pass under way) exactly when no
handler of the run found the cable online and a server running.

The queue is that of `RunQueue`, with this one handler. A usb-server is a
child of the daemon; its exit and the CLEAR its SIGCHLD leads to are one step.
It may end before the handler returns (`early`). Other children end as well
(`sigchld`). `sysman_get_pid` returns the pid of a running server or a value
that is not positive. Pid 1 always runs.
-/
namespace SystemServer.L4.UsbServer

open SystemServer.L2 SystemServer.L2.RunQueue SystemServer.L2.ExactlyOnce
open SystemServer.L3.Sigchld (Shape shape_step held_step sent_step returned_step stays_step UnderWay
  not_underWay)
open SystemServer.L4.Launch SystemServer.L4.Cables

structure Sys where
  core : Core Unit
  usb : Bool
  servers : List Int
  daemon : Daemon

/-- mirrors include/ss_data.h:43 -/
def PREDEF_USBCON : Bytes := lit "usbcon"

inductive Lbl where
  /-- the cable is plugged or unplugged -/
  | cable (online : Bool)
  /-- `usb_chgdet_cb` queues its request -/
  | chgdet (mem : AddMem)
  | deliver
  | visit
  /-- the handler runs and returns; `read`: the plugin can read the cable -/
  | usbcon (read : Bool) (c : Call) (early : Bool)
  | exit (pid : Int)
  | sigchld (pid : Int)

/-- The pid `sysman_get_pid` returns is that of a running server; a pid `fork`
returns is that of no running process. -/
def Real (s : Sys) (c : Call) : Prop :=
  (0 < c.sysmanGetPid USBCON_EXEC_PATH → c.sysmanGetPid USBCON_EXEC_PATH ∈ s.servers) ∧
    (c.launch.fork ≠ -1 → 1 < c.launch.fork ∧ c.launch.fork ∉ s.servers)

instance (s : Sys) (c : Call) : Decidable (Real s c) := inferInstanceAs (Decidable (_ ∧ _))

/-- The child a handler forked, a server until it exits; one whose `execvp`
fails exits at once. -/
def child (d d' : Daemon) : Option Int :=
  (d'.launched.drop d.launched.length).findSome? fun l => l.execvp.map fun _ => l.ret

/-- What the handler meets and returns. -/
def handled (s : Sys) (read : Bool) (c : Call) : Int × Daemon :=
  usbconDefPredefineAction (if read then some (jack s.usb) else none) c s.daemon

/-- The servers after the handler ran. -/
def serversAfter (s : Sys) (read : Bool) (c : Call) (early : Bool) : List Int :=
  if early then s.servers else (child s.daemon (handled s read c).2).toList ++ s.servers

/-- The queue when the handler returns: a child that has ended is reported. -/
def coreAfter (s : Sys) (read : Bool) (c : Call) (early : Bool) : Core Unit :=
  match early, child s.daemon (handled s read c).2 with
  | true, some pid => ssCoreActionClear pid s.core
  | _, _ => s.core

def step (s : Sys) : Lbl → Option Sys
  | .cable online => some { s with usb := online }
  | .chgdet mem =>
    if s.core.pc = .idle then
      (RunQueue.step s.core (.callInternal mem (some ⟨0, PREDEF_USBCON⟩) 0 [])).map
        fun core => { s with core := core }
    else none
  | .deliver => (RunQueue.step s.core .deliver).map fun core => { s with core := core }
  | .visit => (RunQueue.step s.core .visit).map fun core => { s with core := core }
  | .usbcon read c early =>
    if Real s c then
      let r := handled s read c
      let servers := serversAfter s read c early
      (RunQueue.step (coreAfter s read c early)
          (.ret r.1 (decide (r.1 = 1 ∨ r.1 ∈ servers)))).map
        fun core => { s with core := core, servers := servers, daemon := r.2 }
    else none
  | .exit pid =>
    if pid ∈ s.servers then
      some { s with servers := s.servers.filter (· ≠ pid), core := ssCoreActionClear pid s.core }
    else none
  | .sigchld pid =>
    if 1 < pid ∧ pid ∉ s.servers then some { s with core := ssCoreActionClear pid s.core } else none

/-- The start: `ss_usb_init` may have started a server. -/
structure Init (s : Sys) : Prop where
  core : RunQueue.Init s.core
  servers : ∀ pid ∈ s.servers, 1 < pid

def lts : LTS Sys Lbl := ⟨Init, step⟩

/-- The handler does not find the cable online and a server running. -/
def FindsNone (s : Sys) : Lbl → Prop
  | .usbcon read c _ => ¬ (read = true ∧ s.usb = true ∧ 0 < c.sysmanGetPid USBCON_EXEC_PATH)
  | _ => True

instance (s : Sys) : ∀ l, Decidable (FindsNone s l)
  | .usbcon read c _ => inferInstanceAs (Decidable
      (¬ (read = true ∧ s.usb = true ∧ 0 < c.sysmanGetPid USBCON_EXEC_PATH)))
  | .cable _ => .isTrue trivial
  | .chgdet _ => .isTrue trivial
  | .deliver => .isTrue trivial
  | .visit => .isTrue trivial
  | .exit _ => .isTrue trivial
  | .sigchld _ => .isTrue trivial

/-! ## The handler -/

/-- The handler returns nothing to wait for, 1 for a server that runs, or the
child it forked. -/
inductive Outcome (s : Sys) (read : Bool) (c : Call) : Prop where
  | none (hret : (handled s read c).1 ≤ 0) (hchild : child s.daemon (handled s read c).2 = none)
      (hfinds : FindsNone s (.usbcon read c false))
  | running (hret : (handled s read c).1 = 1)
      (hchild : child s.daemon (handled s read c).2 = none)
      (hfinds : ¬ FindsNone s (.usbcon read c false))
  | forked (hret : (handled s read c).1 = c.launch.fork) (hfork : c.launch.fork ≠ -1)
      (hchild : child s.daemon (handled s read c).2 = some c.launch.fork)
      (hfinds : FindsNone s (.usbcon read c false))

theorem child_self (d : Daemon) : child d d = none := by simp [child]

theorem child_launched {d d' : Daemon} {l : Launched} (h : d'.launched = d.launched ++ [l]) :
    child d d' = l.execvp.map fun _ => l.ret := by
  simp only [child, h, List.drop_left, List.findSome?_cons, List.findSome?_nil]
  cases l.execvp <;> rfl

theorem handled_outcome (s : Sys) (read : Bool) (c : Call) : Outcome s read c := by
  cases read with
  | false =>
    exact .none (show (-1 : Int) ≤ 0 by decide) (child_self _) (by simp [FindsNone])
  | true =>
    cases husb : s.usb with
    | false =>
      have hun : handled s true c = (0, unplugged c s.daemon) := by
        rw [handled, if_pos rfl, husb, usbcon_offline]
      have hsame : (unplugged c s.daemon).launched = s.daemon.launched := by
        unfold unplugged
        cases c.batLow <;> rfl
      refine .none (by rw [hun]) ?_ (by simp [FindsNone, husb])
      rw [hun]
      simp [child, hsame]
    | true =>
      have hun := usbcon_online c s.daemon
      have hret : (handled s true c).1 = if (usbLaunch c).ret < 0 then -1 else (usbLaunch c).ret := by
        rw [handled, if_pos rfl, husb, hun]
      have hchild : child s.daemon (handled s true c).2 =
          (usbLaunch c).execvp.map fun _ => (usbLaunch c).ret := by
        rw [handled, if_pos rfl, husb, hun]
        exact child_launched rfl
      by_cases hpid : c.sysmanGetPid USBCON_EXEC_PATH > 0
      · have hl : usbLaunch c = ⟨1, none, false⟩ := if_pos hpid
        exact .running (by rw [hret, hl]; rfl) (by rw [hchild, hl]; rfl)
          (by simp [FindsNone, husb, hpid])
      · have hfinds : FindsNone s (.usbcon true c false) := fun h => hpid h.2.2
        have hl : usbLaunch c = ssLaunchEvenifExist c.launch (some USBCON_EXEC_PATH) none :=
          if_neg hpid
        rcases launch_cases c.launch (some USBCON_EXEC_PATH) none with hfail | ⟨hfork, x, hx⟩
        · refine .none ?_ (by rw [hchild, hl, hfail]; rfl) hfinds
          rw [hret, hl, hfail]
          decide
        · have hpos : 0 < c.launch.fork := c.launch.forked.resolve_left hfork
          refine .forked ?_ hfork (by rw [hchild, hl, hx]; rfl) hfinds
          rw [hret, hl, hx]
          exact if_neg (Int.not_lt.mpr (Int.le_of_lt hpos))

/-! ## What every run keeps -/

/-- The queue is that of `RunQueue`, nobody reports pid 1, and it is no
server. -/
structure Sane (s : Sys) : Prop where
  core : Inv s.core
  shape : ∀ e ∈ s.core.runQueue, Shape s.core e
  clear : (⟨.CLEAR, 1⟩ : PipeMsg) ∉ s.core.pipe
  servers : ∀ pid ∈ s.servers, 1 < pid

/-- The pid an entry holds is that of a running server, or is reported. -/
def Tracked (s : Sys) : Prop :=
  ∀ e ∈ s.core.runQueue, 0 < e.forkedPid →
    e.forkedPid ∈ s.servers ∨ ⟨.CLEAR, e.forkedPid⟩ ∈ s.core.pipe

/-- An entry holds pid 1. -/
def Stuck (s : Sys) : Prop := ∃ e ∈ s.core.runQueue, e.forkedPid = 1

variable {s s' : Sys} {l : Lbl} {core : Core Unit} {k : RunQueue.Lbl}

theorem Sane.main (h : Sane s) (hk : k ≠ .sigchld 1) (hcore : RunQueue.step s.core k = some core) :
    Sane { s with core := core } := by
  refine ⟨inv_step h.core hcore, shape_step h.core h.shape hcore, fun hm => ?_, h.servers⟩
  exact (sent_step hcore Int.one_pos hm).elim h.clear hk

theorem Tracked.main (h : Tracked s) (hk : ∀ r, k ≠ .ret r true)
    (hcore : RunQueue.step s.core k = some core) : Tracked { s with core := core } := by
  intro e he hpos
  rcases held_step hcore he hpos with ⟨e₀, he₀, hpid, hpipe⟩ | hret
  · rw [← hpid] at hpos hpipe ⊢
    exact (h e₀ he₀ hpos).imp_right hpipe
  · exact absurd hret (hk _)

theorem Stuck.main (h : Stuck s) (hs : Sane s) (hcore : RunQueue.step s.core k = some core) :
    Stuck { s with core := core } := by
  obtain ⟨e, he, hone⟩ := h
  obtain ⟨e', he', hpid⟩ := stays_step hs.core hcore he (hone ▸ Int.one_pos) (hone ▸ hs.clear)
  exact ⟨e', he', hpid.trans hone⟩

/-- A report is a step of the queue. -/
theorem step_sigchld {pid : Int} (h : 1 < pid) (core : Core Unit) :
    RunQueue.step core (.sigchld pid) = some (ssCoreActionClear pid core) :=
  if_pos (show 0 < pid by omega)

theorem Sane.report (h : Sane s) {pid : Int} (hpid : 1 < pid) :
    Sane { s with core := ssCoreActionClear pid s.core } := by
  refine h.main (fun hk => ?_) (step_sigchld hpid s.core)
  have := RunQueue.Lbl.sigchld.inj hk
  omega

theorem Tracked.report (h : Tracked s) {pid : Int} (hpid : 1 < pid) :
    Tracked { s with core := ssCoreActionClear pid s.core } :=
  h.main (fun _ hk => by cases hk) (step_sigchld hpid s.core)

theorem Stuck.report (h : Stuck s) (hs : Sane s) {pid : Int} (hpid : 1 < pid) :
    Stuck { s with core := ssCoreActionClear pid s.core } :=
  h.main hs (step_sigchld hpid s.core)

/-- A child that ended before its handler returned is reported, and nothing
else happens until the handler returns. -/
theorem coreAfter_keeps {P : Sys → Prop} (read : Bool) {c : Call} (hc : Real s c) (early : Bool)
    (h : P s) (hreport : ∀ {pid : Int}, 1 < pid → P { s with core := ssCoreActionClear pid s.core }) :
    P { s with core := coreAfter s read c early } := by
  unfold coreAfter
  split
  · rename_i pid hchild
    cases handled_outcome s read c with
    | none _ hnone => cases hchild.symm.trans hnone
    | running _ hnone => cases hchild.symm.trans hnone
    | forked _ hfork hsome =>
      obtain rfl := Option.some.inj (hchild.symm.trans hsome)
      exact hreport (hc.2 hfork).1
  · exact h

theorem servers_sub {read : Bool} {c : Call} {early : Bool} {pid : Int} (h : pid ∈ s.servers) :
    pid ∈ serversAfter s read c early := by
  unfold serversAfter
  cases early with
  | true => exact h
  | false => exact List.mem_append_right _ h

theorem servers_pos (h : Sane s) {read : Bool} {c : Call} (hc : Real s c) {early : Bool} {pid : Int}
    (hpid : pid ∈ serversAfter s read c early) : 1 < pid := by
  unfold serversAfter at hpid
  cases early with
  | true => exact h.servers pid hpid
  | false =>
    rcases List.mem_append.mp hpid with hnew | hold
    · cases handled_outcome s read c with
      | none _ hnone => simp [hnone] at hnew
      | running _ hnone => simp [hnone] at hnew
      | forked _ hfork hsome =>
        simp only [hsome, Option.toList_some, List.mem_singleton] at hnew
        exact hnew ▸ (hc.2 hfork).1
    · exact h.servers pid hold

/-! ## What a step can do -/

/-- A step changes the cable, is a step of the queue, lets a handler run, or
ends a child. -/
inductive Move (s : Sys) : Lbl → Sys → Prop where
  | cable (online : Bool) : Move s (.cable online) { s with usb := online }
  | main (l : Lbl) (k : RunQueue.Lbl) (core : Core Unit) (hl : FindsNone s l)
      (hk : ∀ pid, k ≠ .sigchld pid) (hret : ∀ r p, k ≠ .ret r p)
      (hcore : RunQueue.step s.core k = some core) : Move s l { s with core := core }
  | usbcon (read : Bool) (c : Call) (early : Bool) (core : Core Unit) (hc : Real s c)
      (hcore : RunQueue.step (coreAfter s read c early) (.ret (handled s read c).1
        (decide ((handled s read c).1 = 1 ∨ (handled s read c).1 ∈ serversAfter s read c early))) =
          some core) :
      Move s (.usbcon read c early) ⟨core, s.usb, serversAfter s read c early, (handled s read c).2⟩
  | exit (pid : Int) (hpid : pid ∈ s.servers) : Move s (.exit pid) { s with
      servers := s.servers.filter (· ≠ pid), core := ssCoreActionClear pid s.core }
  | sigchld (pid : Int) (hpid : 1 < pid) :
      Move s (.sigchld pid) { s with core := ssCoreActionClear pid s.core }

theorem step_move (hst : step s l = some s') : Move s l s' := by
  cases l with
  | cable online =>
    obtain rfl := Option.some.inj hst
    exact .cable online
  | chgdet mem =>
    obtain ⟨-, hst⟩ := Option.ite_none_right_eq_some.mp hst
    obtain ⟨core, hcore, rfl⟩ := Option.map_eq_some_iff.mp hst
    exact .main _ _ core trivial (fun _ hk => by cases hk) (fun _ _ hk => by cases hk) hcore
  | deliver | visit =>
    obtain ⟨core, hcore, rfl⟩ := Option.map_eq_some_iff.mp hst
    exact .main _ _ core trivial (fun _ hk => by cases hk) (fun _ _ hk => by cases hk) hcore
  | usbcon read c early =>
    obtain ⟨hc, hst⟩ := Option.ite_none_right_eq_some.mp hst
    obtain ⟨core, hcore, rfl⟩ := Option.map_eq_some_iff.mp hst
    exact .usbcon read c early core hc hcore
  | exit pid =>
    obtain ⟨hpid, rfl⟩ := Option.ite_some_none_eq_some.mp hst
    exact .exit pid hpid
  | sigchld pid =>
    obtain ⟨hpid, rfl⟩ := Option.ite_some_none_eq_some.mp hst
    exact .sigchld pid hpid.1

theorem sane_step (h : Sane s) (hst : step s l = some s') : Sane s' := by
  cases step_move hst with
  | cable online => exact ⟨h.core, h.shape, h.clear, h.servers⟩
  | main _ k core _ hk _ hcore => exact h.main (hk 1) hcore
  | usbcon read c early core hc hcore =>
    have hbefore := coreAfter_keeps read hc early h h.report
    have hs := hbefore.main (fun hk => by cases hk) hcore
    exact ⟨hs.core, hs.shape, hs.clear, fun pid hpid => servers_pos h hc hpid⟩
  | exit pid hpid =>
    have hs := h.report (h.servers pid hpid)
    exact ⟨hs.core, hs.shape, hs.clear, fun p hp => h.servers p (List.mem_of_mem_filter hp)⟩
  | sigchld pid hpid => exact h.report hpid

/-- A handler's entry holds the server it started. -/
theorem tracked_step (h : Tracked s) (hfinds : FindsNone s l)
    (hst : step s l = some s') : Tracked s' := by
  cases step_move hst with
  | cable online => exact h
  | main _ k core _ _ hret hcore => exact h.main (fun r => hret r true) hcore
  | usbcon read c early core hc hcore =>
    have hbefore := coreAfter_keeps (P := Tracked) read hc early h h.report
    intro e he hpos
    rcases held_step hcore he hpos with ⟨e₀, he₀, hpid, hpipe⟩ | hret
    · rw [← hpid] at hpos hpipe ⊢
      exact (hbefore e₀ he₀ hpos).imp servers_sub hpipe
    · obtain ⟨hr, hpresent⟩ := RunQueue.Lbl.ret.inj hret
      rw [hr, decide_eq_true_eq] at hpresent
      refine .inl (hpresent.resolve_left fun hone => ?_)
      -- only a server that was found running gives pid 1
      cases handled_outcome s read c with
      | none hle => omega
      | running _ _ hnot => exact hnot hfinds
      | forked hfork hne =>
        have := (hc.2 hne).1
        omega
  | exit pid hpid =>
    intro e he hpos
    rcases h e he hpos with hlive | hm
    · by_cases hp : e.forkedPid = pid
      · rw [hp]
        exact .inr (List.mem_append_right _ List.mem_cons_self)
      · exact .inl (List.mem_filter.mpr ⟨hlive, by simpa using hp⟩)
    · exact .inr (List.mem_append_left _ hm)
  | sigchld pid hpid => exact h.report hpid

theorem stuck_step (hs : Sane s) (h : Stuck s) (hst : step s l = some s') : Stuck s' := by
  cases step_move hst with
  | cable online => exact h
  | main _ k core _ _ _ hcore => exact h.main hs hcore
  | usbcon read c early core hc hcore =>
    have hsane := coreAfter_keeps read hc early hs hs.report
    have hstuck := coreAfter_keeps read hc early h (h.report hs)
    exact hstuck.main hsane hcore
  | exit pid hpid => exact h.report hs (hs.servers pid hpid)
  | sigchld pid hpid => exact h.report hs hpid

/-- Where a server was found, the entry holds pid 1. -/
theorem stuck_of_found (hs : Sane s) (hfinds : ¬ FindsNone s l) (hst : step s l = some s') :
    Stuck s' := by
  cases step_move hst with
  | cable | sigchld | exit => exact absurd trivial hfinds
  | main _ k core hl => exact absurd hl hfinds
  | usbcon read c early core hc hcore =>
    cases handled_outcome s read c with
    | none _ _ hnot | forked _ _ _ hnot => exact absurd hnot hfinds
    | running hone =>
      simp only [hone, true_or, decide_true] at hcore
      have hsane := coreAfter_keeps read hc early hs hs.report
      exact returned_step hsane.core hcore Int.one_pos

/-! ## Runs -/

theorem sane_init (h : Init s) : Sane s := by
  refine ⟨inv_init h.core, ?_, ?_, h.servers⟩
  · simp [h.core.runQueue]
  · simp [h.core.pipe]

theorem sane_run {s₀ : Sys} {ls : List Lbl} (h₀ : Init s₀) (hr : lts.run s₀ ls = some s) : Sane s :=
  LTS.Inductive.run (T := lts) ⟨fun _ => sane_init, fun _ _ _ => sane_step⟩ (sane_init h₀) hr

/-- With nothing in the pipe and no server running, an entry is one of the
pass under way. -/
theorem underWay_of_tracked (hs : Sane s) (h : Tracked s) (hpipe : s.core.pipe = [])
    (hservers : s.servers = []) {e : Entry Unit} (he : e ∈ s.core.runQueue) :
    UnderWay s.core e := by
  rcases hs.shape e he with ⟨hst, -⟩ | hrun | ⟨-, hpos⟩ | ⟨-, -, hm⟩
  · rcases hs.core.announced he hst with ⟨m, hm, -⟩ | htodo
    · rw [hpipe] at hm
      cases hm
    · exact .inr ⟨hst, htodo⟩
  · exact .inl hrun
  · rcases h e he hpos with hlive | hm
    · rw [hservers] at hlive
      cases hlive
    · rw [hpipe] at hm
      cases hm
  · rw [hpipe] at hm
    cases hm

theorem not_underWay_of_stuck (hs : Sane s) (h : Stuck s) :
    ¬ ∀ e ∈ s.core.runQueue, UnderWay s.core e := by
  obtain ⟨e, he, hone⟩ := h
  intro hall
  rcases hall e he with ⟨-, hzero, -⟩ | ⟨hst, -⟩
  · omega
  · have := (hs.core.fresh e he hst).2
    omega

/-- **USB entries end with usb-server.** In a state a run reaches with the pipe
empty and no usb-server running, the queue holds no entry, those of a pass
under way apart, if and only if no handler of the run found the cable online
and a server running. -/
theorem server_iff (s₀ s : Sys) (ls : List Lbl) (h₀ : Init s₀) (hr : lts.run s₀ ls = some s)
    (hpipe : s.core.pipe = []) (hservers : s.servers = []) :
    (∀ e ∈ s.core.runQueue, UnderWay s.core e) ↔ lts.Meets FindsNone s₀ ls := by
  have hs := sane_run h₀ hr
  constructor
  · intro hall
    exact LTS.meets_of_run (T := lts) (I := Sane) (D := Stuck) (fun _ _ _ => sane_step)
      (fun _ _ _ => stuck_of_found) (fun _ _ _ => stuck_step) (sane_init h₀) hr
      fun hd => not_underWay_of_stuck hs hd hall
  · intro hmeets
    have hkept : lts.Guarded FindsNone fun s => Sane s ∧ Tracked s := fun _ _ _ h hfinds hst =>
      ⟨sane_step h.1 hst, tracked_step h.2 hfinds hst⟩
    have htracked : Tracked s₀ := by
      intro e he
      rw [h₀.core.runQueue] at he
      cases he
    exact fun e he =>
      underWay_of_tracked hs (hkept.run ⟨sane_init h₀, htracked⟩ hmeets hr).2 hpipe hservers he

def unused : Sys := ⟨boot [anAction "usbcon"], false, [], stopped⟩

theorem init_unused : Init unused := ⟨init_boot _, fun _ hpid => by cases hpid⟩

/-- The cable changes, and the handler runs. -/
def event (online : Bool) (c : Call) : List Lbl :=
  [.cable online, .chgdet .both, .deliver, .visit, .usbcon true c false]

/-- The handler starts usb-server with pid 7. -/
def plugged : List Lbl := event true quiet ++ [.visit]

theorem server_started : ∃ s, lts.run unused (plugged ++ [.exit 7, .deliver]) = some s ∧
    ((∀ e ∈ s.core.runQueue, UnderWay s.core e) ↔
      lts.Meets FindsNone unused (plugged ++ [.exit 7, .deliver])) :=
  ⟨_, rfl, server_iff unused _ _ init_unused rfl rfl rfl⟩

/-- Server 7 is found, and nothing is forked. -/
def found : Call :=
  ⟨false, ⟨fun _ => true, none, none, fun _ => true, -1, .inl rfl, false⟩, fun _ => 7, lit "1"⟩

/-- The cable is unplugged and plugged again while server 7 runs. -/
def pluggedTwice : List Lbl :=
  plugged ++ event false found ++ [.visit, .visit, .deliver] ++
    event true found ++ [.visit, .visit, .exit 7, .deliver]

theorem server_found : ∃ s, lts.run unused pluggedTwice = some s ∧ s.core.pc = .idle ∧
    s.core.pipe = [] ∧ s.servers = [] ∧ s.core.runQueue.map Entry.forkedPid = [1] ∧
    ¬ ∀ e ∈ s.core.runQueue, UnderWay s.core e := by
  refine ⟨_, rfl, rfl, rfl, rfl, rfl, fun hall => ?_⟩
  exact not_underWay rfl _ (hall _ (List.mem_singleton.mpr rfl))

end SystemServer.L4.UsbServer
