import SystemServer.Core.LTS
import SystemServer.L1Wire.Recv

/-!
# The action registry, the run queue and the core pipe (`ss_queue.c`, `ss_core.c`)

A request names an action type. `ss_action_entry_call` (for a client) and
`ss_action_entry_call_internal` (for the daemon's own code) look the type up
in `predef_act_list`, put an entry on `run_queue` and write a RUN message to
the core pipe. The main loop reads the pipe one message at a time: RUN
passes over the queue and runs the handler of every entry that is still
`SS_STATE_INIT`, CLEAR pid removes the entries whose `forked_pid` is pid.

The daemon has one thread, so the steps (`Lbl`) are

* `call`: a client's request, served by the main loop;
* `callInternal`: a request by a main-loop callback, or by a handler while
  it runs;
* `sigchld p`: the SIGCHLD handler writes CLEAR p, at any moment (it touches
  nothing else, so between two writes of the same function is no case of its
  own);
* `deliver`: `core_pipe_cb` reads a message;
* `visit`: one round of the loop of `ss_run_queue_run`; on an INIT entry it
  calls the entry's handler;
* `ret r present`: the handler returns r, `present` says whether
  `/proc/r/status` can be read.

`EINA_LIST_FOREACH_SAFE` takes the next node before it runs the body, and
only CLEAR deletes nodes, so a pass visits the nodes that were on the list
when it began (`Pc.pass`), and entries put in front of them meanwhile are
left to a later pass.

Ghost state: `Entry.id` is the entry's address (entries are numbered in the
order they were added), `invoked` and `returned` list the entries whose
handler was called and has returned, oldest first.

`call_dispatched` says once what a request comes to, and `step_effect` what a
step can do; the invariants are proved from them.
-/
namespace SystemServer.L2.RunQueue

open SystemServer.L1.Recv

variable {H : Type}

/-- `handle` and `ui_viewable` are never read. `H` names the handlers.
mirrors ss_queue.h:24-32 -/
structure ActionEntry (H : Type) where
  ownerPid : Int
  type : Bytes
  path : Bytes
  predefineAction : H
  isAccessable : Option (Int → Int)

/-- mirrors ss_queue.h:34-38 -/
inductive RunState where
  | INIT | RUNNING | DONE
  deriving DecidableEq, Repr

/-- mirrors ss_queue.h:40-46 -/
structure Entry (H : Type) where
  id : Nat
  state : RunState
  actionEntry : ActionEntry H
  forkedPid : Int
  argc : Int
  argv : List CPtr

/-- mirrors ss_core.c:25-28 -/
inductive MsgType where
  | RUN | CLEAR
  deriving DecidableEq, Repr

/-- mirrors ss_core.c:30-33 -/
structure PipeMsg where
  type : MsgType
  pid : Int
  deriving DecidableEq, Repr

/-- Where the main loop is: between two callbacks, in a pass over the queue
with the entries still to visit, or in the handler of entry `id`. -/
inductive Pc where
  | idle
  | pass (todo : List Nat)
  | handler (id : Nat) (todo : List Nat)
  deriving DecidableEq, Repr

/-- The entries the pass under way has yet to visit. -/
def Pc.todo : Pc → List Nat
  | .idle => []
  | .pass todo => todo
  | .handler _ todo => todo

structure Core (H : Type) where
  predefActList : List (ActionEntry H)
  runQueue : List (Entry H)
  pipe : List PipeMsg
  pc : Pc
  nextId : Nat
  invoked : List Nat
  returned : List Nat
  /-- blocks given to `free`, oldest first -/
  freed : List Nat

/-! ## The core pipe -/

/-- mirrors ss_core.c:90-99 -/
def ssCoreActionRun (s : Core H) : Core H := { s with pipe := s.pipe ++ [⟨.RUN, 0⟩] }

/-- mirrors ss_core.c:101-110 -/
def ssCoreActionClear (pid : Int) (s : Core H) : Core H :=
  { s with pipe := s.pipe ++ [⟨.CLEAR, pid⟩] }

/-! ## Requests -/

/-- The first entry of that type, which is where the loops over
`predef_act_list` stop; `none` when `strcmp` is handed a NULL pointer.
mirrors ss_queue.c:32-44 -/
def ssActionEntryFind (type : CPtr) : List (ActionEntry H) → Option (Option (ActionEntry H))
  | [] => some none
  | d :: ds =>
    match strcmpP (some ⟨0, d.type⟩) type with
    | none => none
    | some r => if r = 0 then some (some d) else ssActionEntryFind type ds

/-- What `ss_run_queue_add` is granted: the entry and its node on the list, the
entry and no node, or no entry. -/
inductive AddMem where
  | both | noNode | noEntry
  deriving DecidableEq, Repr

/-- Without a node `eina_list_prepend` returns the list as it was; nobody tests
for it.
mirrors ss_queue.c:197-220 -/
def ssRunQueueAdd (mem : AddMem) (act : ActionEntry H) (argc : Int) (argv : List CPtr)
    (s : Core H) : Int × Core H :=
  match mem with
  | .noEntry => (-1, s)
  | .noNode => (0, s)
  | .both =>
    (0, { s with
      runQueue := ⟨s.nextId, .INIT, act, 0, argc, argv.take argc.toNat⟩ :: s.runQueue
      nextId := s.nextId + 1 })

/-- Short of either, nothing is queued. -/
theorem runQueueAdd_short {mem : AddMem} (h : mem ≠ .both) (act : ActionEntry H) (argc : Int)
    (argv : List CPtr) (s : Core H) : (ssRunQueueAdd mem act argc argv s).2 = s := by
  cases mem with
  | both => exact absurd rfl h
  | noNode => rfl
  | noEntry => rfl

/-- `is_accessable` is set and refuses the caller. -/
def Denied (d : ActionEntry H) (pid : Int) : Prop := ∃ f, d.isAccessable = some f ∧ f pid = 0

instance (d : ActionEntry H) (pid : Int) : Decidable (Denied d pid) :=
  match h : d.isAccessable with
  | none => .isFalse fun ⟨f, hf, _⟩ => by rw [h] at hf; cases hf
  | some f => if h0 : f pid = 0 then .isTrue ⟨f, h, h0⟩
      else .isFalse fun ⟨g, hg, hg0⟩ => by
        rw [h] at hg; cases hg; exact h0 hg0

/-- What `ss_run_queue_add` returned is traced and otherwise ignored.
mirrors ss_queue.c:169-195 -/
def ssActionEntryCall (mem : AddMem) (msg : Sysnoti) (argc : Int) (argv : List CPtr) (s : Core H) :
    Option (Int × Core H) :=
  match ssActionEntryFind msg.type s.predefActList with
  | none => none
  | some none => some (-1, s)
  | some (some d) =>
    if Denied d msg.pid then some (-1, s)
    else some (0, ssCoreActionRun (ssRunQueueAdd mem d argc argv s).2)

/-- `args` are the variable arguments; the copies `strdup` makes of them hold
the same bytes.
mirrors ss_queue.c:132-167 -/
def ssActionEntryCallInternal (mem : AddMem) (type : CPtr) (argc : Int) (args : List CPtr)
    (s : Core H) : Int × Core H :=
  if argc > SYSMAN_MAXARG ∨ type = none then (-1, s)
  else match ssActionEntryFind type s.predefActList with
    | some (some d) => (0, ssCoreActionRun (ssRunQueueAdd mem d argc args s).2)
    | _ => (0, s)

/-! ## Delivery -/

/-- The blocks `free` is given for an entry. -/
def Entry.args (e : Entry H) : List Nat := e.argv.filterMap (·.map Str.obj)

/-- mirrors ss_queue.c:275-296 -/
def ssRunQueueDelBypid (pid : Int) (s : Core H) : Core H :=
  { s with
    runQueue := s.runQueue.filter (·.forkedPid ≠ pid)
    freed := s.freed ++ (s.runQueue.filter (·.forkedPid = pid)).flatMap Entry.args }

/-- The start of the pass for `SS_STATE_INIT`.
mirrors ss_queue.c:222-230 -/
def ssRunQueueRun (s : Core H) : Core H := { s with pc := .pass (s.runQueue.map Entry.id) }

/-- mirrors ss_core.c:66-88 -/
def corePipeCb (s : Core H) : Option (Core H) :=
  match s.pc, s.pipe with
  | .idle, m :: rest =>
    match m.type with
    | .RUN => some (ssRunQueueRun { s with pipe := rest })
    | .CLEAR => some (ssRunQueueDelBypid m.pid { s with pipe := rest })
  | _, _ => none

def setEntry (id : Nat) (f : Entry H → Entry H) (s : Core H) : Core H :=
  { s with runQueue := s.runQueue.map fun e => if e.id = id then f e else e }

/-- `_ss_core_action_run` up to the call of the handler.
mirrors ss_core.c:40-45 -/
def callHandler (id : Nat) (todo : List Nat) (s : Core H) : Core H :=
  { setEntry id (fun e => { e with state := .RUNNING }) s with
    pc := .handler id todo, invoked := s.invoked ++ [id] }

/-- One round of the loop of `ss_run_queue_run`; `none` if the node is gone.
mirrors ss_queue.c:230-233 -/
def visit (s : Core H) : Option (Core H) :=
  match s.pc with
  | .pass [] => some { s with pc := .idle }
  | .pass (id :: todo) =>
    match s.runQueue.find? (·.id = id) with
    | none => none
    | some e =>
      if e.state = .INIT then some (callHandler id todo s) else some { s with pc := .pass todo }
  | _ => none

/-- mirrors ss_core.c:59-63 -/
def fastDone (id : Nat) (s : Core H) : Core H :=
  ssCoreActionClear (-1) (setEntry id (fun e => { e with forkedPid := -1, state := .DONE }) s)

/-- `_ss_core_action_run` from the return of the handler on.
mirrors ss_core.c:46-57 -/
def handlerReturns (ret : Int) (present : Bool) (s : Core H) : Option (Core H) :=
  match s.pc with
  | .handler id todo =>
    let s := { s with pc := .pass todo, returned := s.returned ++ [id] }
    if ret ≤ 0 then some (fastDone id s)
    else if present then some (setEntry id (fun e => { e with forkedPid := ret }) s)
    else some (fastDone id s)
  | _ => none

/-! ## The daemon as a transition system -/

inductive Lbl where
  | call (mem : AddMem) (msg : Sysnoti)
  | callInternal (mem : AddMem) (type : CPtr) (argc : Int) (args : List CPtr)
  | sigchld (pid : Int)
  | deliver
  | visit
  | ret (r : Int) (present : Bool)

/-- Code that makes requests runs in main-loop callbacks and in handlers. -/
def Pc.InCode : Pc → Prop
  | .pass _ => False
  | _ => True

instance (pc : Pc) : Decidable pc.InCode := by
  cases pc <;> simp only [Pc.InCode] <;> infer_instance

def step (s : Core H) : Lbl → Option (Core H)
  | .call mem msg =>
    if s.pc = .idle then (ssActionEntryCall mem msg msg.argc msg.argv s).map Prod.snd else none
  | .callInternal mem type argc args =>
    if s.pc.InCode then some (ssActionEntryCallInternal mem type argc args s).2 else none
  | .sigchld pid => if 0 < pid then some (ssCoreActionClear pid s) else none
  | .deliver => corePipeCb s
  | .visit => RunQueue.visit s
  | .ret r present => handlerReturns r present s

/-- The state the main loop starts in: nothing queued, any registry. -/
structure Init (s : Core H) : Prop where
  runQueue : s.runQueue = []
  pipe : s.pipe = []
  pc : s.pc = .idle
  nextId : s.nextId = 0
  invoked : s.invoked = []
  returned : s.returned = []

def lts (H : Type) : LTS (Core H) Lbl := ⟨Init, step⟩

/-- The start, with a registry. -/
def boot (acts : List (ActionEntry H)) : Core H := ⟨acts, [], [], .idle, 0, [], [], []⟩

theorem init_boot (acts : List (ActionEntry H)) : (lts H).init (boot acts) :=
  ⟨rfl, rfl, rfl, rfl, rfl, rfl⟩

/-- A request by the daemon's own code, without arguments. -/
def request (type : String) : Lbl := .callInternal .both (some ⟨0, lit type⟩) 0 []

def anAction (type : String) : ActionEntry Unit := ⟨1, lit type, [], (), none⟩

/-! ## What a step can do -/

/-- The queue after `ss_run_queue_add` put an entry on it. -/
def added (act : ActionEntry H) (argc : Int) (argv : List CPtr) (s : Core H) : Core H :=
  ssCoreActionRun (ssRunQueueAdd .both act argc argv s).2

theorem find_eq_none {type : CPtr} {acts : List (ActionEntry H)} :
    ssActionEntryFind type acts = none ↔ type = none ∧ acts ≠ [] := by
  induction acts with
  | nil => simp [ssActionEntryFind]
  | cons d acts ih =>
    cases type with
    | none => simp [ssActionEntryFind, strcmpP]
    | some str =>
      simp only [ssActionEntryFind, strcmpP]
      split
      · simp
      · simp [ih]

/-- Where the look-up comes back, a NULL type was compared with nothing. -/
theorem type_of_found {type : CPtr} {acts : List (ActionEntry H)} {found : Option (ActionEntry H)}
    (h : ssActionEntryFind type acts = some found) (htype : type = none) : acts = [] := by
  by_contra hacts
  rw [find_eq_none.mpr ⟨htype, hacts⟩] at h
  cases h

/-- What the dispatch of a message comes to. -/
inductive Dispatched (mem : AddMem) (msg : Sysnoti) (s : Core H) : Option (Int × Core H) → Prop where
  | crash (htype : msg.type = none) (hacts : s.predefActList ≠ []) : Dispatched mem msg s none
  /-- no such type, or the caller is denied -/
  | refused (found : Option (ActionEntry H))
      (hfind : ssActionEntryFind msg.type s.predefActList = some found)
      (hnone : ∀ d, found = some d → Denied d msg.pid) : Dispatched mem msg s (some (-1, s))
  /-- no memory for the entry or its node -/
  | lost (d : ActionEntry H) (hfind : ssActionEntryFind msg.type s.predefActList = some (some d))
      (hdenied : ¬ Denied d msg.pid) (hmem : mem ≠ .both) :
      Dispatched mem msg s (some (0, ssCoreActionRun s))
  | entry (d : ActionEntry H) (hfind : ssActionEntryFind msg.type s.predefActList = some (some d))
      (hdenied : ¬ Denied d msg.pid) (hmem : mem = .both) :
      Dispatched mem msg s (some (0, added d msg.argc msg.argv s))

theorem call_dispatched (mem : AddMem) (msg : Sysnoti) (s : Core H) :
    Dispatched mem msg s (ssActionEntryCall mem msg msg.argc msg.argv s) := by
  unfold ssActionEntryCall
  cases hfind : ssActionEntryFind msg.type s.predefActList with
  | none =>
    obtain ⟨htype, hacts⟩ := find_eq_none.mp hfind
    exact .crash htype hacts
  | some found =>
    cases found with
    | none => exact .refused none hfind fun d hd => by cases hd
    | some d =>
      by_cases hdenied : Denied d msg.pid
      · simp only [if_pos hdenied]
        exact .refused (some d) hfind fun d' hd' => by cases hd'; exact hdenied
      · simp only [if_neg hdenied]
        by_cases hmem : mem = .both
        · subst hmem
          exact .entry d hfind hdenied rfl
        · rw [runQueueAdd_short hmem]
          exact .lost d hfind hdenied hmem

inductive Effect (s : Core H) : Lbl → Core H → Prop where
  /-- refused, or no such type -/
  | none (l) (hl : (∃ mem msg, l = .call mem msg) ∨
      ∃ mem type argc args, l = .callInternal mem type argc args) : Effect s l s
  /-- no memory for the entry or its node: only the message is written -/
  | announce (l mem) (hmem : mem ≠ .both) (hl : (∃ msg, l = .call mem msg) ∨
      ∃ type argc args, l = .callInternal mem type argc args) (hpc : s.pc.InCode) :
      Effect s l (ssCoreActionRun s)
  | add (l) (act argc argv) (hl : (∃ msg, l = .call .both msg) ∨
      ∃ type argc args, l = .callInternal .both type argc args) (hpc : s.pc.InCode) :
      Effect s l (added act argc argv s)
  | sigchld (p) (hp : 0 < p) : Effect s (.sigchld p) (ssCoreActionClear p s)
  | run (m rest) (hpc : s.pc = .idle) (hm : m.type = .RUN) (hpipe : s.pipe = m :: rest) :
      Effect s .deliver (ssRunQueueRun { s with pipe := rest })
  | clear (m rest) (hpc : s.pc = .idle) (hm : m.type = .CLEAR) (hpipe : s.pipe = m :: rest) :
      Effect s .deliver (ssRunQueueDelBypid m.pid { s with pipe := rest })
  | passEnd (hpc : s.pc = .pass []) : Effect s .visit { s with pc := .idle }
  | invoke (e todo) (hpc : s.pc = .pass (e.id :: todo)) (he : e ∈ s.runQueue)
      (hst : e.state = .INIT) : Effect s .visit (callHandler e.id todo s)
  | skip (e todo) (hpc : s.pc = .pass (e.id :: todo)) (he : e ∈ s.runQueue)
      (hst : e.state ≠ .INIT) : Effect s .visit { s with pc := .pass todo }
  | done (r present id todo) (hpc : s.pc = .handler id todo) : Effect s (.ret r present)
      (fastDone id { s with pc := .pass todo, returned := s.returned ++ [id] })
  | forked (r id todo) (hpc : s.pc = .handler id todo) (hr : 0 < r) : Effect s (.ret r true)
      (setEntry id (fun e => { e with forkedPid := r })
        { s with pc := .pass todo, returned := s.returned ++ [id] })

theorem add_effect (s : Core H) (l : Lbl) (mem : AddMem) (act : ActionEntry H) (argc : Int)
    (argv : List CPtr) (hl : (∃ msg, l = .call mem msg) ∨
      ∃ type argc args, l = .callInternal mem type argc args) (hpc : s.pc.InCode) :
    Effect s l (ssCoreActionRun (ssRunQueueAdd mem act argc argv s).2) := by
  by_cases hmem : mem = .both
  · subst hmem
    exact .add l act argc argv hl hpc
  · rw [runQueueAdd_short hmem]
    exact .announce l mem hmem hl hpc

theorem step_effect {s s' : Core H} {l : Lbl} (h : step s l = some s') : Effect s l s' := by
  cases l with
  | call mem msg =>
    simp only [step] at h
    split at h
    · rename_i hpc
      have hcode : s.pc.InCode := by rw [hpc]; trivial
      have hd := call_dispatched mem msg s
      generalize ssActionEntryCall mem msg msg.argc msg.argv s = o at hd h
      cases hd with
      | crash => cases h
      | refused => cases h; exact .none _ (.inl ⟨mem, msg, rfl⟩)
      | lost d _ _ hmem => cases h; exact .announce _ mem hmem (.inl ⟨msg, rfl⟩) hcode
      | entry d _ _ hmem => cases h; subst hmem; exact .add _ d _ _ (.inl ⟨msg, rfl⟩) hcode
    · cases h
  | callInternal mem type argc args =>
    simp only [step] at h
    split at h
    · rename_i hpc
      simp only [Option.some.injEq] at h
      subst h
      unfold ssActionEntryCallInternal
      split
      · exact .none _ (.inr ⟨mem, type, argc, args, rfl⟩)
      · split
        · exact add_effect s _ mem _ _ _ (.inr ⟨type, argc, args, rfl⟩) hpc
        · exact .none _ (.inr ⟨mem, type, argc, args, rfl⟩)
    · cases h
  | sigchld p =>
    simp only [step] at h
    split at h
    · rename_i hp; cases h; exact .sigchld p hp
    · cases h
  | deliver =>
    simp only [step, corePipeCb] at h
    split at h
    · rename_i m rest hpc hpipe
      split at h
      · rename_i hm; cases h; exact .run m rest hpc hm hpipe
      · rename_i hm; cases h; exact .clear m rest hpc hm hpipe
    · cases h
  | visit =>
    simp only [step, RunQueue.visit] at h
    split at h
    · rename_i hpc; cases h; exact .passEnd hpc
    · rename_i id todo hpc
      split at h
      · cases h
      · rename_i e hfind
        obtain rfl : e.id = id := by simpa using List.find?_some hfind
        have he := List.mem_of_find?_eq_some hfind
        split at h
        · rename_i hst; cases h; exact .invoke e todo hpc he hst
        · rename_i hst; cases h; exact .skip e todo hpc he hst
    · cases h
  | ret r present =>
    simp only [step, handlerReturns] at h
    split at h
    · rename_i id todo hpc
      split at h
      · cases h; exact .done r present id todo hpc
      · split at h
        · rename_i hr hp; cases h; subst hp; exact .forked r id todo hpc (by omega)
        · cases h; exact .done r present id todo hpc
    · cases h

/-- What `core_pipe_cb` does with the message it reads. -/
theorem deliver_eq {s s' : Core H} {m : PipeMsg} {rest : List PipeMsg} (hpipe : s.pipe = m :: rest)
    (h : step s .deliver = some s') : s' = match m.type with
      | .RUN => ssRunQueueRun { s with pipe := rest }
      | .CLEAR => ssRunQueueDelBypid m.pid { s with pipe := rest } := by
  simp only [step, corePipeCb, hpipe] at h
  split at h
  · rename_i heq
    cases heq
    split at h
    · cases h; rfl
    · cases h; rfl
  · cases h

end SystemServer.L2.RunQueue
