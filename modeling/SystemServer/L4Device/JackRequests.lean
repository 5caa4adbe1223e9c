import SystemServer.L2Queue.Refine
import SystemServer.L4Device.Jacks

/-!
# Jacks that are read by a request (`ss_device_change_handler.c`, `ss_predefine.c`)

The callbacks of the earphone jack and of USB read nothing themselves. They
make a request, and the handler of its action reads the jack and sets the key
when the run queue comes to it. Between the two lies the whole main loop:
other requests, clients that ask for the same action, children that exit.

The looks that are due are the events and the jobs of that handler in the pool
the run queue is (`L2Queue/Refine`); so the key is a mirror of the jack
(`simulates`), through any interleaving. `requested_iff`: in a run from any
start the key is right whenever no event and no such job is left exactly when
every step that may be the last to matter sets the right value; it then holds
the state of the jack whenever the daemon has nothing left to do.

The handler reads the jack first thing, so the reading is part of the call; it
sets the key when it returns, and the jack can change in between. Start-up
reads and sets in one step, with no event it could miss in between.
-/
namespace SystemServer.L4.JackRequests

open SystemServer.L1.Recv
open SystemServer.L2.RunQueue (AddMem Core ActionEntry ssActionEntryFind ssActionEntryCallInternal added
  anAction boot init_boot)
open SystemServer.L2.ExactlyOnce SystemServer.L2.Refine
open SystemServer.L4.Jacks (Startup outcome reaction)

variable {H : Type} [DecidableEq H]

/-! ## The source -/

structure Platform where
  USB_AVAILABLE : Int
  USB_DISCONNECTED : Int

/-- What the key is set to.
mirrors ss_predefine.c:243-253 -/
def earjackconDefPredefineAction : Option Int → Option Int := reaction (fun val => val) none

/-- mirrors ss_predefine.c:208-211,229-230,239-240 -/
def usbconDefPredefineAction (P : Platform) : Option Int → Option Int :=
  reaction (fun val => if val = 0 then P.USB_DISCONNECTED else P.USB_AVAILABLE) none

/-- mirrors ss_usb_handler.c:35-38,51-52 -/
def ssUsbInit (P : Platform) : Option Int → Option Int
  | some val =>
    if val = 1 then some P.USB_AVAILABLE
    else if val = 0 then some P.USB_DISCONNECTED
    else none
  | none => none

/-- A jack that the handler of an action reads. -/
structure Watch (H : Type) where
  type : Bytes
  handler : H
  first : Option Int → Option Int
  react : Option Int → Option Int
  view : Int → Int
  sets : ∀ val, react (some val) = some (view val)

/-- mirrors ss_device_change_handler.c:127-131 and ss_predefine.c:665-667,678 -/
def earjack (handler : H) : Watch H where
  type := lit "earjack_predef_internal"
  handler := handler
  first := earjackconDefPredefineAction
  react := earjackconDefPredefineAction
  view val := val
  sets _ := rfl

/-- mirrors ss_device_change_handler.c:74 and ss_predefine.c:663-664 -/
def usb (P : Platform) (handler : H) : Watch H where
  type := lit "usbcon"
  handler := handler
  first := ssUsbInit P
  react := usbconDefPredefineAction P
  view val := if val = 0 then P.USB_DISCONNECTED else P.USB_AVAILABLE
  sets _ := rfl

/-! ## Runs -/

/-- The jack, its key, the events no callback has seen yet and what the handler
that runs has read, with the core. -/
structure Sys (H : Type) where
  core : Core H
  jack : Int
  key : Int
  events : Nat
  val : Option Int
  subscribed : Bool
  startup : List Startup

/-- As in `Jacks`; the callback of an event makes its request, and the core
takes a step. -/
inductive Lbl where
  | jack (v : Int)
  | merge
  | subscribe (ok : Bool)
  | first (read set : Bool)
  | event (mem : AddMem)
  | core (read set : Bool) (l : L2.RunQueue.Lbl)

/-- The main loop begins after start-up. -/
def Waits : L2.RunQueue.Lbl → Bool
  | .deliver => true
  | _ => false

def Returns : L2.RunQueue.Lbl → Bool
  | .ret _ _ => true
  | _ => false

variable (W : Watch H)

/-- A job that reads the jack. -/
def Mine (j : Job H) : Prop := j.actionEntry.predefineAction = W.handler

instance : DecidablePred (Mine W) := fun j =>
  inferInstanceAs (Decidable (j.actionEntry.predefineAction = W.handler))

/-- The handler is called. -/
def Calls : Pool.Ev (Job H) → Bool
  | .perform j => Mine W j
  | .accept _ => false

/-- What the key is, or is about to be. -/
def Sys.coming (s : Sys H) : Int := s.val.getD s.key

/-- The state after a step of the core; `out` is what the handler reads. -/
def Sys.after (s : Sys H) (l : L2.RunQueue.Lbl) (out : Option Int) (core' : Core H) : Sys H :=
  if Returns l then { s with core := core', key := s.coming, val := none }
  else
    { s with
      core := core'
      val := if (L2.Refine.events s.core l core').any (Calls W) then out else s.val }

def step (s : Sys H) : Lbl → Option (Sys H)
  | .jack v => some { s with jack := v, events := if s.subscribed then s.events + 1 else s.events }
  | .merge => if 2 ≤ s.events then some { s with events := s.events - 1 } else none
  | .subscribe ok =>
    if s.startup.head? = some .subscribe then
      some { s with subscribed := s.subscribed || ok, startup := s.startup.tail }
    else none
  | .first read set =>
    if s.startup.head? = some .read then
      some { s with
        key := (outcome W.first read set s.jack).getD s.key
        startup := s.startup.tail }
    else none
  | .event mem =>
    if s.startup = [] ∧ 0 < s.events ∧ s.core.pc = .idle then
      some { s with
        events := s.events - 1
        core := (ssActionEntryCallInternal mem (some ⟨0, W.type⟩) 0 [] s.core).2 }
    else none
  | .core read set l =>
    if Waits l = true ∧ s.startup ≠ [] then none
    else (L2.RunQueue.step s.core l).map (s.after W l (outcome W.react read set s.jack))

/-- The action is the daemon's own. -/
def Registered (acts : List (ActionEntry H)) : Prop :=
  ∃ d, ssActionEntryFind (some ⟨0, W.type⟩) acts = some (some d) ∧ d.predefineAction = W.handler

/-- Start-up reads the jack, and later subscribes the callback. -/
structure Init (s : Sys H) : Prop where
  core : L2.RunQueue.Init s.core
  registered : Registered W s.core.predefActList
  events : s.events = 0
  val : s.val = none
  subscribed : s.subscribed = false
  startup : s.startup = [.read, .subscribe]

def lts : LTS (Sys H) Lbl := ⟨Init W, step W⟩

/-- The looks at the jack that are due. -/
def Sys.due (s : Sys H) : Nat := s.events + (pending s.core).countP (Mine W)

/-- With start-up over and no look due, the key is right. -/
def Right (s : Sys H) : Prop := s.startup = [] → s.due W = 0 → s.coming = W.view s.jack

instance (s : Sys H) : Decidable (Right W s) :=
  inferInstanceAs (Decidable (s.startup = [] → s.due W = 0 → s.coming = W.view s.jack))

/-- The daemon has nothing left to do. -/
def AtRest (s : Sys H) : Prop :=
  s.startup = [] ∧ s.events = 0 ∧ s.core.pc = .idle ∧ s.core.pipe = []

/-- The last statement of start-up and the last look lead to the right value,
the last event to a request, and a change without an event does not show. -/
def Conclusive (s : Sys H) : Lbl → Prop
  | .jack v => s.startup = [] → s.subscribed = false → s.due W = 0 → s.coming = W.view v
  | .subscribe _ => s.startup.tail = [] → s.due W = 0 → s.coming = W.view s.jack
  | .first read set => s.startup.tail = [] → s.due W = 0 →
      (outcome W.first read set s.jack).getD s.key = W.view s.jack
  | .event mem => mem ≠ .both → s.due W = 1 → s.coming = W.view s.jack
  | .core read set l => s.startup = [] → ∀ core', L2.RunQueue.step s.core l = some core' →
      (events s.core l core').any (Calls W) = true → s.due W = 1 →
      (outcome W.react read set s.jack).getD s.key = W.view s.jack
  | .merge => True

/-! ## What the core does to the jobs -/

omit [DecidableEq H] in
/-- A handler that returns accepts and performs nothing. -/
theorem events_ret {s s' : Core H} {l : L2.RunQueue.Lbl} (hi : Inv s) (hl : Returns l = true)
    (hst : L2.RunQueue.step s l = some s') : events s l s' = [] := by
  cases l with
  | ret r present =>
    have hcalled : s'.invoked = s.invoked := by
      cases L2.RunQueue.step_effect hst <;> rfl
    rw [events, newEntries_own hi id hst, calledEntries_nil hcalled]
    rfl
  | call | callInternal | sigchld | deliver | visit => cases hl

omit [DecidableEq H] in
/-- A handler is called from the pass over the queue. -/
theorem pc_of_performs {s s' : Core H} {l : L2.RunQueue.Lbl} {j : Job H}
    (hst : L2.RunQueue.step s l = some s') (hev : events s l s' = [.perform j]) :
    (∀ id todo, s.pc ≠ .handler id todo) ∧ ∃ id todo, s'.pc = .handler id todo := by
  have hcalled : s'.invoked ≠ s.invoked := by
    intro heq
    rw [events, calledEntries_nil heq, List.map_nil, List.append_nil] at hev
    have hmem : Pool.Ev.perform j ∈ (newEntries s s').map fun e => .accept (Entry.job e) := by
      rw [hev]
      exact List.mem_cons_self
    obtain ⟨e, -, he⟩ := List.mem_map.mp hmem
    cases he
  cases L2.RunQueue.step_effect hst with
  | none | announce | add | sigchld | run | clear | passEnd | skip | done | forked =>
    exact absurd rfl hcalled
  | invoke e todo hpc =>
    refine ⟨fun id todo' h => ?_, e.id, todo, rfl⟩
    rw [hpc] at h
    cases h

omit [DecidableEq H] in
/-- A handler that runs stays until it returns. -/
theorem pc_stays {s s' : Core H} {l : L2.RunQueue.Lbl} {id : Nat} {todo : List Nat}
    (hst : L2.RunQueue.step s l = some s') (hl : Returns l = false) (hpc : s.pc = .handler id todo) :
    s'.pc = .handler id todo := by
  cases L2.RunQueue.step_effect hst with
  | none | announce | add | sigchld => exact hpc
  | run _ _ h | clear _ _ h | passEnd h | invoke _ _ h | skip _ _ h =>
    rw [hpc] at h
    cases h
  | done | forked => cases hl

/-! ## The key is a mirror of the jack -/

def abs (s : Sys H) : Mirror.State Int Int := ⟨s.jack, s.key, s.due W, s.val⟩

/-- What a job accepted or performed is to the mirror. -/
def seen (out : Option Int) : Pool.Ev (Job H) → Option (Mirror.Lbl Int Int)
  | .accept j => if Mine W j then some .ask else none
  | .perform j => if Mine W j then some ((out.map .look).getD .lose) else none

/-- What a step is to the mirror. -/
def shown (s : Sys H) : Lbl → Sys H → List (Mirror.Lbl Int Int)
  | .jack v, _ => [if s.subscribed then .change v else .silent v]
  | .merge, _ => [.lose]
  | .subscribe _, _ => []
  | .first read set, _ =>
    ((outcome W.first read set s.jack).map fun b => [.ask, .look b, .write]).getD []
  | .event mem, _ => if mem = .both then [.ask, .lose] else [.lose]
  | .core read set l, s' =>
    if Returns l then (s.val.map fun _ => [.write]).getD []
    else (events s.core l s'.core).filterMap (seen W (outcome W.react read set s.jack))

/-- What holds in every reachable state. -/
structure Good (s : Sys H) : Prop where
  core : Inv s.core
  registered : Registered W s.core.predefActList
  busy : s.val ≠ none → ∃ id todo, s.core.pc = .handler id todo
  early : s.startup ≠ [] → s.core.pc = .idle

variable {W}

omit [DecidableEq H] in
/-- During start-up no handler runs. -/
theorem Good.val_early {s : Sys H} (h : Good W s) (hne : s.startup ≠ []) : s.val = none := by
  by_contra hval
  obtain ⟨id, todo, hpc⟩ := h.busy hval
  cases (h.early hne).symm.trans hpc

omit [DecidableEq H] in
/-- What the callback's request comes to. -/
theorem request_eq (mem : AddMem) {c : Core H} (h : Registered W c.predefActList) :
    ∃ d, d.predefineAction = W.handler ∧
      (ssActionEntryCallInternal mem (some ⟨0, W.type⟩) 0 [] c).2 =
        if mem = .both then added d 0 [] c else L2.RunQueue.ssCoreActionRun c := by
  obtain ⟨d, hfind, hd⟩ := h
  refine ⟨d, hd, ?_⟩
  have hargc : ¬ ((0 : Int) > SYSMAN_MAXARG ∨ (some ⟨0, W.type⟩ : CPtr) = none) := by
    simp [SYSMAN_MAXARG]
  simp only [ssActionEntryCallInternal, if_neg hargc, hfind]
  cases mem <;> rfl

/-- A step of the core in which no handler returns. -/
theorem abs_core {s : Sys H} {c' : Core H} {l : L2.RunQueue.Lbl} (h : Good W s)
    (hst : L2.RunQueue.step s.core l = some c') (hl : Returns l = false) (out : Option Int) :
    (Mirror.lts Int Int).run (abs W s) ((events s.core l c').filterMap (seen W out)) =
      some (abs W (s.after W l out c')) := by
  have hshows := step_shows h.core hst
  have hfree : ∀ j, events s.core l c' = [.perform j] → s.val = none := by
    intro j hev
    by_contra hval
    obtain ⟨id, todo, hpc⟩ := h.busy hval
    exact (pc_of_performs hst hev).1 id todo hpc
  simp only [Sys.after, hl, Bool.false_eq_true, if_false]
  generalize events s.core l c' = es at hshows hfree ⊢
  cases hshows with
  | quiet hpending => simp [abs, Sys.due, hpending]
  | accepts j hpending =>
    by_cases hj : Mine W j
    · simp [abs, Sys.due, hpending, seen, Calls, hj, Mirror.lts, Mirror.step, LTS.run,
        Nat.add_assoc]
    · simp [abs, Sys.due, hpending, seen, Calls, hj]
  | performs j hpending =>
    have hval := hfree j rfl
    by_cases hj : Mine W j
    · cases out <;> simp [abs, Sys.due, hpending, seen, Calls, hj, hval, Mirror.lts, Mirror.step,
        LTS.run]
    · simp [abs, Sys.due, hpending, seen, Calls, hj]

theorem abs_step {s s' : Sys H} {l : Lbl} (h : Good W s) (hst : step W s l = some s') :
    (Mirror.lts Int Int).run (abs W s) (shown W s l s') = some (abs W s') := by
  cases l with
  | jack v =>
    obtain rfl := Option.some.inj hst
    cases hsub : s.subscribed <;>
      simp [shown, abs, Sys.due, Mirror.lts, Mirror.step, LTS.run, hsub, Nat.add_right_comm]
  | merge =>
    obtain ⟨htwo, rfl⟩ := Option.ite_some_none_eq_some.mp hst
    have hdue : s.events + (pending s.core).countP (Mine W) - 1 =
        s.events - 1 + (pending s.core).countP (Mine W) := by omega
    have hpos : 0 < s.events + (pending s.core).countP (Mine W) := by omega
    simp [shown, abs, Sys.due, Mirror.lts, Mirror.step, LTS.run, hpos, hdue]
  | subscribe ok =>
    obtain ⟨-, rfl⟩ := Option.ite_some_none_eq_some.mp hst
    rfl
  | first read set =>
    obtain ⟨hhead, rfl⟩ := Option.ite_some_none_eq_some.mp hst
    have hval := h.val_early fun hnil => by simp [hnil] at hhead
    cases hout : outcome W.first read set s.jack with
    | none => simp [shown, abs, Sys.due, hout]
    | some b => simp [shown, abs, Sys.due, Mirror.lts, Mirror.step, LTS.run, hout, hval]
  | event mem =>
    obtain ⟨⟨-, hpos, -⟩, rfl⟩ := Option.ite_some_none_eq_some.mp hst
    obtain ⟨d, hd, hreq⟩ := request_eq mem h.registered
    have hdue : s.events + (pending s.core).countP (Mine W) - 1 =
        s.events - 1 + (pending s.core).countP (Mine W) := by omega
    by_cases hmem : mem = .both
    · subst hmem
      have hpending : pending (added d 0 [] s.core) = ⟨d, 0, []⟩ ::ₘ pending s.core := rfl
      have hmine : Mine W ⟨d, 0, []⟩ := hd
      have hsame : s.events + (pending s.core).countP (Mine W) =
          s.events - 1 + ((pending s.core).countP (Mine W) + 1) := by omega
      simp [shown, abs, Sys.due, hreq, hpending, hmine, Mirror.lts, Mirror.step, LTS.run, hsame]
    · have hpending : pending (L2.RunQueue.ssCoreActionRun s.core) = pending s.core := rfl
      have hdpos : 0 < s.events + (pending s.core).countP (Mine W) := by omega
      simp [shown, abs, Sys.due, hreq, hmem, hpending, Mirror.lts, Mirror.step, LTS.run, hdpos, hdue]
  | core read set l =>
    obtain ⟨-, hmap⟩ := Option.ite_none_left_eq_some.mp hst
    obtain ⟨c', hcst, rfl⟩ := Option.map_eq_some_iff.mp hmap
    cases hl : Returns l with
    | false =>
      have habs := abs_core h hcst hl (outcome W.react read set s.jack)
      have hcore : (s.after W l (outcome W.react read set s.jack) c').core = c' := by
        simp [Sys.after, hl]
      simpa only [shown, hl, hcore, Bool.false_eq_true, if_false] using habs
    | true =>
      have hshows := step_shows h.core hcst
      rw [events_ret h.core hl hcst] at hshows
      cases hshows with
      | quiet hpending =>
        cases hval : s.val with
        | none => simp [shown, Sys.after, Sys.coming, abs, Sys.due, hl, hval, hpending]
        | some v =>
          simp [shown, Sys.after, Sys.coming, abs, Sys.due, hl, hval, hpending, Mirror.lts,
            Mirror.step, LTS.run]

omit [DecidableEq H] in
/-- No handler is called before the main loop begins. -/
theorem pc_early {s s' : Core H} {l : L2.RunQueue.Lbl} (hst : L2.RunQueue.step s l = some s')
    (hl : Waits l = false) (hpc : s.pc = .idle) : s'.pc = .idle := by
  cases L2.RunQueue.step_effect hst with
  | none | announce | add | sigchld => exact hpc
  | run | clear => cases hl
  | passEnd h | invoke _ _ h | skip _ _ h | done _ _ _ _ h | forked _ _ _ h =>
    cases hpc.symm.trans h

omit [DecidableEq H] in
theorem good_init {s : Sys H} (h : Init W s) : Good W s where
  core := inv_init h.core
  registered := h.registered
  busy hval := absurd h.val hval
  early _ := h.core.pc

omit [DecidableEq H] in
/-- No step of the core registers an action. -/
theorem actions_core {s s' : Core H} {l : L2.RunQueue.Lbl} (hst : L2.RunQueue.step s l = some s') :
    s'.predefActList = s.predefActList := by
  cases L2.RunQueue.step_effect hst <;> rfl

theorem good_step {s s' : Sys H} {l : Lbl} (h : Good W s) (hst : step W s l = some s') :
    Good W s' := by
  cases l with
  | jack v =>
    obtain rfl := Option.some.inj hst
    exact ⟨h.core, h.registered, h.busy, h.early⟩
  | merge =>
    obtain ⟨-, rfl⟩ := Option.ite_some_none_eq_some.mp hst
    exact ⟨h.core, h.registered, h.busy, h.early⟩
  | subscribe ok =>
    obtain ⟨hhead, rfl⟩ := Option.ite_some_none_eq_some.mp hst
    exact ⟨h.core, h.registered, h.busy, fun _ => h.early fun hnil => by simp [hnil] at hhead⟩
  | first read set =>
    obtain ⟨hhead, rfl⟩ := Option.ite_some_none_eq_some.mp hst
    exact ⟨h.core, h.registered, h.busy, fun _ => h.early fun hnil => by simp [hnil] at hhead⟩
  | event mem =>
    obtain ⟨⟨hstart, -, hpc⟩, rfl⟩ := Option.ite_some_none_eq_some.mp hst
    have hcall : L2.RunQueue.step s.core (.callInternal mem (some ⟨0, W.type⟩) 0 []) =
        some (ssActionEntryCallInternal mem (some ⟨0, W.type⟩) 0 [] s.core).2 := by
      simp [L2.RunQueue.step, hpc, L2.RunQueue.Pc.InCode]
    refine ⟨inv_step h.core hcall, ?_, fun hval => ?_, fun hne => absurd hstart hne⟩
    · exact (actions_core hcall).symm ▸ h.registered
    · obtain ⟨id, todo, hhandler⟩ := h.busy hval
      exact ⟨id, todo, pc_stays hcall rfl hhandler⟩
  | core read set l =>
    obtain ⟨hwaits, hmap⟩ := Option.ite_none_left_eq_some.mp hst
    obtain ⟨c', hcst, rfl⟩ := Option.map_eq_some_iff.mp hmap
    have hreg : Registered W c'.predefActList := (actions_core hcst).symm ▸ h.registered
    have hearly : s.startup ≠ [] → c'.pc = .idle := by
      intro hne
      cases hw : Waits l with
      | false => exact pc_early hcst hw (h.early hne)
      | true => exact absurd ⟨hw, hne⟩ hwaits
    cases hl : Returns l with
    | true =>
      simp only [Sys.after, hl, if_true]
      exact ⟨inv_step h.core hcst, hreg, fun hval => absurd rfl hval, hearly⟩
    | false =>
      have hshows := step_shows h.core hcst
      have hperforms : ∀ j, events s.core l c' = [.perform j] →
          ∃ id todo, c'.pc = .handler id todo := fun j hev => (pc_of_performs hcst hev).2
      simp only [Sys.after, hl, Bool.false_eq_true, if_false]
      refine ⟨inv_step h.core hcst, hreg, fun hval => ?_, hearly⟩
      generalize events s.core l c' = es at hshows hperforms hval
      cases hshows with
      | quiet | accepts =>
        obtain ⟨id, todo, hpc⟩ := h.busy (by simpa [Calls] using hval)
        exact ⟨id, todo, pc_stays hcst hl hpc⟩
      | performs j => exact hperforms j rfl

/-- **A jack that is read by a request is a mirror too.** -/
theorem simulates (W : Watch H) : (lts W).Simulates (shown W) (Mirror.lts Int Int)
    fun s a => Good W s ∧ a = abs W s where
  init s hs := ⟨abs W s, trivial, good_init hs, rfl⟩
  step s a l s' h hst := by
    obtain ⟨hgood, rfl⟩ := h
    exact ⟨abs W s', abs_step hgood hst, good_step hgood hst, rfl⟩

/-! ## Failures -/

/-- A step that is one of the mirror's. -/
theorem settled_single {s s' : Sys H} {l : Lbl} {m : Mirror.Lbl Int Int} (h : Good W s)
    (hst : step W s l = some s') (hshown : shown W s l s' = [m]) :
    Mirror.Settled W.view (abs W s') ↔ Mirror.Keeps W.view (abs W s) m := by
  have hr := abs_step h hst
  rw [hshown] at hr
  obtain ⟨a, ha, hnil⟩ := LTS.run_cons.mp hr
  obtain rfl := Option.some.inj hnil
  exact Mirror.settled_iff W.view ha

/-- Of the core, only a call of the handler can leave the key wrong. -/
theorem settled_core {s : Sys H} {c' : Core H} {l : L2.RunQueue.Lbl} {out : Option Int}
    (h : Good W s) (hsettled : Mirror.Settled W.view (abs W s))
    (hst : L2.RunQueue.step s.core l = some c') (hl : Returns l = false) :
    Mirror.Settled W.view (abs W (s.after W l out c')) ↔
      ((events s.core l c').any (Calls W) = true → s.due W = 1 →
        out.getD s.key = W.view s.jack) := by
  have hr := abs_core h hst hl out
  have hshows := step_shows h.core hst
  have hfree : ∀ j, events s.core l c' = [.perform j] → s.val = none := by
    intro j hev
    by_contra hval
    obtain ⟨id, todo, hpc⟩ := h.busy hval
    exact (pc_of_performs hst hev).1 id todo hpc
  generalize abs W (s.after W l out c') = a' at hr ⊢
  generalize events s.core l c' = es at hr hshows hfree ⊢
  have hstays : ∀ e, es = [e] → seen W out e = none → Calls W e = false → a' = abs W s := by
    intro e he hseen _
    rw [he, List.filterMap_cons_none hseen] at hr
    exact (Option.some.inj hr).symm
  cases hshows with
  | quiet =>
    obtain rfl := Option.some.inj hr
    exact iff_of_true hsettled (by simp)
  | accepts j =>
    refine iff_of_true ?_ (by simp [Calls])
    by_cases hj : Mine W j
    · simp only [List.filterMap_cons, seen, if_pos hj, List.filterMap_nil] at hr
      obtain ⟨a, ha, hnil⟩ := LTS.run_cons.mp hr
      obtain rfl := Option.some.inj hnil
      exact (Mirror.settled_iff W.view ha).mpr trivial
    · rw [hstays _ rfl (if_neg hj) rfl]
      exact hsettled
  | performs j =>
    by_cases hj : Mine W j
    · simp only [List.filterMap_cons, seen, if_pos hj, List.filterMap_nil] at hr
      obtain ⟨a, ha, hnil⟩ := LTS.run_cons.mp hr
      obtain rfl := Option.some.inj hnil
      rw [Mirror.settled_iff W.view ha]
      cases out <;> simp [Mirror.Keeps, Mirror.State.coming, abs, Calls, hj, hfree j rfl]
    · rw [hstays _ rfl (if_neg hj) (by simp [Calls, hj])]
      exact iff_of_true hsettled (by simp [Calls, hj])

/-- A handler that returns sets the key to what is coming. -/
theorem settled_ret {s : Sys H} {c' : Core H} {l : L2.RunQueue.Lbl} {out : Option Int}
    (h : Good W s) (hsettled : Mirror.Settled W.view (abs W s))
    (hst : L2.RunQueue.step s.core l = some c') (hl : Returns l = true) :
    Mirror.Settled W.view (abs W (s.after W l out c')) := by
  have hshows := step_shows h.core hst
  rw [events_ret h.core hl hst] at hshows
  cases hshows with
  | quiet hpending =>
    intro hdue
    simp only [Sys.after, hl, if_true, abs, Sys.due, hpending] at hdue ⊢
    exact hsettled hdue

/-- A step leaves the key right exactly if it is conclusive. -/
theorem right_iff {s s' : Sys H} {l : Lbl} (h : Good W s) (hright : Right W s)
    (hst : step W s l = some s') : Right W s' ↔ Conclusive W s l := by
  cases l with
  | jack v =>
    have hsettled := settled_single h hst rfl
    obtain rfl := Option.some.inj hst
    refine (imp_congr_right fun _ => hsettled).trans ?_
    cases hsub : s.subscribed with
    | true => simp [Conclusive, Mirror.Keeps, hsub]
    | false => simp [Conclusive, Mirror.Keeps, hsub, abs, Sys.coming, Mirror.State.coming]
  | merge =>
    obtain ⟨htwo, rfl⟩ := Option.ite_some_none_eq_some.mp hst
    refine iff_of_true (fun _ hnone => ?_) trivial
    have hsum : s.events - 1 + (pending s.core).countP (Mine W) = 0 := hnone
    omega
  | subscribe ok =>
    obtain ⟨-, rfl⟩ := Option.ite_some_none_eq_some.mp hst
    rfl
  | first read set =>
    obtain ⟨hhead, rfl⟩ := Option.ite_some_none_eq_some.mp hst
    have hval := h.val_early fun hnil => by simp [hnil] at hhead
    simp [Right, Conclusive, Sys.coming, Sys.due, hval]
  | event mem =>
    by_cases hmem : mem = .both
    · subst hmem
      have hr := abs_step h hst
      obtain ⟨a, hask, hr⟩ := LTS.run_cons.mp hr
      obtain ⟨a', hlose, hnil⟩ := LTS.run_cons.mp hr
      obtain rfl := Option.some.inj hnil
      obtain rfl := Option.some.inj hask
      obtain ⟨⟨-, hpos, -⟩, -⟩ := Option.ite_some_none_eq_some.mp hst
      refine iff_of_true (fun _ => (Mirror.settled_iff W.view hlose).mpr fun hdue => ?_)
        fun hshort => absurd rfl hshort
      simp only [abs, Sys.due] at hdue
      omega
    · have hsettled := settled_single h hst (if_neg hmem)
      obtain ⟨⟨hstart, -, -⟩, rfl⟩ := Option.ite_some_none_eq_some.mp hst
      refine (imp_congr_right fun _ => hsettled).trans ?_
      simp [Conclusive, Mirror.Keeps, hstart, hmem, abs, Sys.coming, Mirror.State.coming]
  | core read set l =>
    obtain ⟨-, hmap⟩ := Option.ite_none_left_eq_some.mp hst
    obtain ⟨c', hcst, rfl⟩ := Option.map_eq_some_iff.mp hmap
    have hstart : (s.after W l (outcome W.react read set s.jack) c').startup = s.startup := by
      simp only [Sys.after]
      split <;> rfl
    rw [Right, hstart]
    refine imp_congr_right fun hnil => ?_
    have hone : (∀ core', L2.RunQueue.step s.core l = some core' →
        (events s.core l core').any (Calls W) = true → s.due W = 1 →
          (outcome W.react read set s.jack).getD s.key = W.view s.jack) ↔
        ((events s.core l c').any (Calls W) = true → s.due W = 1 →
          (outcome W.react read set s.jack).getD s.key = W.view s.jack) := by
      simp [hcst]
    rw [hone]
    cases hl : Returns l with
    | true => exact iff_of_true (settled_ret h (hright hnil) hcst hl) (by
        simp [events_ret h.core hl hcst])
    | false => exact settled_core h (hright hnil) hcst hl

theorem right_init {s : Sys H} (h : Init W s) : Right W s := by
  intro hstart
  cases h.startup.symm.trans hstart

/-- A key that is right when the daemon is at rest holds the state of the jack. -/
theorem Right.key {s : Sys H} (hgood : Good W s) (h : Right W s) (hrest : AtRest s) :
    s.key = W.view s.jack := by
  obtain ⟨hstart, hev, hpc, hpipe⟩ := hrest
  have hdue : s.due W = 0 := by
    rw [Sys.due, pending_settled hgood.core hpc hpipe, hev]
    rfl
  have hval : s.val = none := by
    by_contra hval
    obtain ⟨id, todo, hhandler⟩ := hgood.busy hval
    cases hpc.symm.trans hhandler
  exact Mirror.Settled.right (s := abs W s) (h hstart) hdue hval

/-- **The published state of a jack that is read by a request.** In a run from any
start, through any interleaving with the main loop and what else it does, the
key is right at every moment at which start-up is over and no look is due
exactly when every step is conclusive; and then it holds the state of the jack
whenever the daemon has nothing left to do. -/
theorem requested_iff (W : Watch H) (s₀ : Sys H) (h₀ : Init W s₀) (ls : List Lbl) :
    ((lts W).Along (fun _ _ s' => Right W s') s₀ ls ↔ (lts W).Meets (Conclusive W) s₀ ls) ∧
    ∀ s, (lts W).run s₀ ls = some s → (lts W).Meets (Conclusive W) s₀ ls → AtRest s →
      s.key = W.view s.jack := by
  have hok : ∀ s l s', Good W s ∧ Right W s → (lts W).step s l = some s' →
      (Right W s' ↔ Conclusive W s l) := fun _ _ _ h hst => right_iff h.1 h.2 hst
  have hguarded : (lts W).Guarded (Conclusive W) fun s => Good W s ∧ Right W s :=
    fun s l s' h hc hst => ⟨good_step h.1 hst, (right_iff h.1 h.2 hst).mpr hc⟩
  have hinit : Good W s₀ ∧ Right W s₀ := ⟨good_init h₀, right_init h₀⟩
  refine ⟨LTS.along_iff hok hguarded hinit ls, fun s hr hmeets hrest => ?_⟩
  obtain ⟨hgood, hright⟩ := hguarded.run hinit hmeets hr
  exact hright.key hgood hrest

/-- The earphone jack with its action registered. -/
def plugged : Sys Bool :=
  ⟨boot [⟨1, lit "earjack_predef_internal", [], true, none⟩], 0, 7, 0, none, false,
    [.read, .subscribe]⟩

/-- Earphones are plugged, and unplugged again while the handler runs. -/
def unplugged : List Lbl := [.first true true, .subscribe true, .jack 1, .event .both,
  .core true true .deliver, .core true true .visit, .jack 0, .core true true (.ret 0 false),
  .core true true .visit, .event .both, .core true true .deliver, .core true true .deliver,
  .core true true .visit, .core true true (.ret 0 false), .core true true .visit,
  .core true true .deliver]

theorem requested_unplugged : ∃ s, (lts (earjack true)).run plugged unplugged = some s ∧
    AtRest s ∧ s.jack = 0 ∧ s.key = (earjack true).view s.jack := by
  have hinit : Init (earjack true) plugged :=
    ⟨init_boot _, ⟨_, rfl, rfl⟩, rfl, rfl, rfl, rfl⟩
  have hright : (lts (earjack true)).Along (fun _ _ s' => Right (earjack true) s') plugged
      unplugged := by decide
  obtain ⟨hiff, hkey⟩ := requested_iff (earjack true) plugged hinit unplugged
  exact ⟨_, rfl, ⟨rfl, rfl, rfl, rfl⟩, rfl, hkey _ rfl (hiff.mp hright) ⟨rfl, rfl, rfl, rfl⟩⟩

end SystemServer.L4.JackRequests
