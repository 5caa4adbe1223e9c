import Mathlib.Data.List.Perm.Subperm
import SystemServer.L2Queue.ExactlyOnce
import SystemServer.L3Daemon.Sysnoti

/-!
# How full the core pipe gets (`ss_core.c`, `ss_sysnoti.c`)

The thread that writes to the core pipe is the one that reads it, so a write
that blocks blocks for good. In one iteration the main loop serves at most
one client connection and reads at most one message. An accepted request
writes a RUN, and its handler, which does not fork here, writes a CLEAR when
it returns: two messages come in for each request, one goes out for each
iteration, and nothing holds a client back.

* `Ledger.step`: what is in the pipe and what was read from it is one message
  for each accepted request and one for each handler that returned.
* `backlog`: so the pipe holds at most twice the accepted requests, less what
  was read; between two callbacks that is the size up to a factor.
* `backlog_overflows`: clients that call in every iteration fill any pipe.

Ghost state: `accepted` and `delivered` count the requests answered with 0
and the messages read.
-/
namespace SystemServer.L3.PipeBound

open SystemServer.L1.Recv SystemServer.L1.Fragment SystemServer.L1.Readings
open SystemServer.L2.RunQueue (Core Entry Pc ActionEntry boot anAction fastDone callHandler setEntry
  corePipeCb handlerReturns ssCoreActionRun ssCoreActionClear ssRunQueueAdd ssRunQueueRun
  ssRunQueueDelBypid AddMem runQueueAdd_short call_dispatched step_effect)
open SystemServer.L2.ExactlyOnce
open SystemServer.L3.Sysnoti

variable {H : Type}

/-- The capacity of a pipe in bytes, and `sizeof(struct _internal_msg)`. -/
def PIPE_CAPACITY : Nat := 65536
def MSG_SIZE : Nat := 8

structure Loop (H : Type) where
  core : Core H
  /-- a connection was served in this iteration -/
  served : Bool
  accepted : Nat
  delivered : Nat

/-- `next` begins an iteration without a message, `deliver` one with; the
labels `visit` and `ret` are those of the pass it starts. -/
inductive Lbl where
  | serve (f : Frame) (M : Mem) (mem : AddMem) (c : Conn)
  | next
  | deliver
  | visit
  | ret (r : Int) (present : Bool)

/-- The main loop; no handler returns a child. -/
def step (s : Loop H) : Lbl → Option (Loop H)
  | .serve f M mem c =>
    if s.core.pc = .idle ∧ s.served = false then
      (sysnotiCb f M mem c s.core).1.map fun out =>
        { s with
          core := out.core
          served := true
          accepted := s.accepted + if out.reply = some (0 : Int) then 1 else 0 }
    else none
  | .next => if s.core.pc = .idle then some { s with served := false } else none
  | .deliver => (corePipeCb s.core).map fun core =>
      { s with core := core, served := false, delivered := s.delivered + 1 }
  | .visit => (L2.RunQueue.visit s.core).map fun core => { s with core := core }
  | .ret r present =>
    if r ≤ 0 then (handlerReturns r present s.core).map fun core => { s with core := core } else none

structure Init (s : Loop H) : Prop where
  core : L2.RunQueue.Init s.core
  served : s.served = false
  accepted : s.accepted = 0
  delivered : s.delivered = 0

def lts (H : Type) : LTS (Loop H) Lbl := ⟨Init, step⟩

/-- The undelivered messages fit into the pipe, counted in bytes. A write adds
one, so in a pipe that blocks at that many bytes it has not blocked where they fit
in the state it leads to. -/
def Fits (s : Loop H) : Prop := MSG_SIZE * s.core.pipe.length ≤ PIPE_CAPACITY

instance (s : Loop H) : Decidable (Fits s) := inferInstanceAs (Decidable (_ ≤ _))

/-- A client is served only while there is room for its RUN and its CLEAR
when all the requests accepted so far have written theirs. -/
def Paced (s : Loop H) : Lbl → Prop
  | .serve .. => MSG_SIZE * (2 * (s.accepted + 1)) ≤ MSG_SIZE * s.delivered + PIPE_CAPACITY
  | _ => True

instance (s : Loop H) : ∀ l, Decidable (Paced s l)
  | .serve _ _ _ _ => inferInstanceAs (Decidable (_ ≤ _))
  | .next | .deliver | .visit | .ret _ _ => .isTrue trivial

/-! ## The ledger -/

/-- The handlers that are running. -/
def handlers : Pc → Nat
  | .handler _ _ => 1
  | _ => 0

structure Ledger (s : Loop H) : Prop where
  inv : Inv s.core
  balance : s.core.pipe.length + s.delivered = s.accepted + s.core.returned.length
  called : s.core.invoked.length = s.core.returned.length + handlers s.core.pc
  queued : s.core.nextId ≤ s.accepted

theorem Ledger.init {s : Loop H} (h : Init s) : Ledger s where
  inv := inv_init h.core
  balance := by simp [h.core.pipe, h.core.returned, h.accepted, h.delivered]
  called := by simp [h.core.invoked, h.core.returned, h.core.pc, handlers]
  queued := by simp [h.core.nextId]

/-- A request that is answered with 0 wrote a RUN; any other left the queue
and the pipe alone. -/
theorem serve_cases {f : Frame} {M : Mem} {mem : AddMem} {c : Conn} {s : Core H} {out : Served H}
    (h : (sysnotiCb f M mem c s).1 = some out) :
    out.core = s ∧ out.reply ≠ some 0 ∨ out.reply = some 0 ∧ ∃ act argc argv,
      out.core = ssCoreActionRun (ssRunQueueAdd mem act argc argv s).2 := by
  simp only [sysnotiCb] at h
  split at h
  · split at h
    · cases h
    · rename_i msg _
      simp only [handleMessage, freeMessage_eq] at h
      split at h
      · cases h; exact .inl ⟨rfl, by simp⟩
      split at h
      · obtain ⟨r, hr, rfl⟩ := Option.map_eq_some_iff.mp h
        have hd := call_dispatched mem msg s
        rw [hr] at hd
        cases hd with
        | refused => exact .inl ⟨rfl, by simp⟩
        | lost d _ _ hmem => exact .inr ⟨rfl, d, 0, [], by rw [runQueueAdd_short hmem]⟩
        | entry d _ _ hmem => exact .inr ⟨rfl, d, _, _, by rw [hmem]; rfl⟩
      · cases h; exact .inl ⟨rfl, by simp⟩
  · cases h; exact .inl ⟨rfl, by simp⟩

/-- An accepted request, with or without memory for its entry and node. -/
theorem Ledger.request {s : Loop H} (h : Ledger s) (hpc : s.core.pc = .idle) (mem : AddMem)
    (act : ActionEntry H) (argc : Int) (argv : List CPtr) (served : Bool) :
    Ledger ⟨ssCoreActionRun (ssRunQueueAdd mem act argc argv s.core).2, served, s.accepted + 1,
      s.delivered⟩ := by
  have hbal := h.balance
  have hqueued := h.queued
  by_cases hmem : mem = .both
  · subst hmem
    refine ⟨inv_added h.inv (by rw [hpc]; trivial) act argc argv, ?_, h.called, ?_⟩
    · simp only [ssCoreActionRun, ssRunQueueAdd, List.length_append, List.length_singleton]
      omega
    · exact Nat.succ_le_succ hqueued
  · rw [runQueueAdd_short hmem]
    refine ⟨inv_send h.inv ⟨.RUN, 0⟩ (fun ht => by cases ht), ?_, h.called, ?_⟩
    · simp only [ssCoreActionRun, List.length_append, List.length_singleton]
      omega
    · exact Nat.le_succ_of_le hqueued

/-- The labels of the run queue that are the loop's own, and how many messages
each reads. -/
def Own : L2.RunQueue.Lbl → Prop
  | .deliver | .visit => True
  | .ret r _ => r ≤ 0
  | _ => False

def reads : L2.RunQueue.Lbl → Nat
  | .deliver => 1
  | _ => 0

theorem Ledger.proceed {s : Loop H} (h : Ledger s) {l : L2.RunQueue.Lbl} {core : Core H}
    (hown : Own l) (hst : L2.RunQueue.step s.core l = some core) (served : Bool) :
    Ledger ⟨core, served, s.accepted, s.delivered + reads l⟩ := by
  have hinv := inv_step h.inv hst
  have hbal := h.balance
  have hcalled := h.called
  cases step_effect hst with
  | none _ hl => rcases hl with ⟨_, _, rfl⟩ | ⟨_, _, _, _, rfl⟩ <;> exact hown.elim
  | announce _ _ _ hl => rcases hl with ⟨_, rfl⟩ | ⟨_, _, _, rfl⟩ <;> exact hown.elim
  | add _ _ _ _ hl => rcases hl with ⟨_, rfl⟩ | ⟨_, _, _, rfl⟩ <;> exact hown.elim
  | sigchld => exact hown.elim
  | run m rest hpc _ hpipe =>
    rw [hpipe, List.length_cons] at hbal
    rw [hpc] at hcalled
    refine ⟨hinv, ?_, hcalled, h.queued⟩
    simp only [ssRunQueueRun, reads]; omega
  | clear m rest hpc _ hpipe =>
    rw [hpipe, List.length_cons] at hbal
    refine ⟨hinv, ?_, hcalled, h.queued⟩
    simp only [ssRunQueueDelBypid, reads]; omega
  | passEnd hpc => rw [hpc] at hcalled; exact ⟨hinv, hbal, hcalled, h.queued⟩
  | skip e todo hpc => rw [hpc] at hcalled; exact ⟨hinv, hbal, hcalled, h.queued⟩
  | invoke e todo hpc =>
    rw [hpc] at hcalled
    refine ⟨hinv, hbal, ?_, h.queued⟩
    simp only [callHandler, List.length_append, List.length_singleton, hcalled]
    rfl
  | forked r id todo hpc hr =>
    have hle : r ≤ 0 := hown
    omega
  | done r present id todo hpc =>
    rw [hpc] at hcalled
    refine ⟨hinv, ?_, ?_, h.queued⟩
    · simp only [fastDone, ssCoreActionClear, setEntry, List.length_append, List.length_singleton,
        reads]
      omega
    · simp only [fastDone, ssCoreActionClear, setEntry, List.length_append, List.length_singleton,
        hcalled, handlers]

theorem Ledger.step {s s' : Loop H} {l : Lbl} (h : Ledger s) (hst : step s l = some s') :
    Ledger s' := by
  cases l with
  | serve f M mem c =>
    obtain ⟨hidle, hst⟩ := Option.ite_none_right_eq_some.mp hst
    obtain ⟨out, hout, rfl⟩ := Option.map_eq_some_iff.mp hst
    rcases serve_cases hout with ⟨hcore, hreply⟩ | ⟨hreply, act, argc, argv, hcore⟩
    · rw [hcore, if_neg hreply]
      exact ⟨h.inv, h.balance, h.called, h.queued⟩
    · rw [hcore, if_pos hreply]
      exact h.request hidle.1 mem act argc argv true
  | next =>
    obtain ⟨-, rfl⟩ := Option.ite_some_none_eq_some.mp hst
    exact ⟨h.inv, h.balance, h.called, h.queued⟩
  | deliver =>
    simp only [PipeBound.step] at hst
    obtain ⟨core, hcore, rfl⟩ := Option.map_eq_some_iff.mp hst
    exact h.proceed (l := .deliver) trivial hcore false
  | visit =>
    simp only [PipeBound.step] at hst
    obtain ⟨core, hcore, rfl⟩ := Option.map_eq_some_iff.mp hst
    exact h.proceed (l := .visit) trivial hcore s.served
  | ret r present =>
    obtain ⟨hr, hst⟩ := Option.ite_none_right_eq_some.mp hst
    obtain ⟨core, hcore, rfl⟩ := Option.map_eq_some_iff.mp hst
    exact h.proceed (l := .ret r present) hr hcore s.served

theorem ledger_inductive : (lts H).Inductive Ledger :=
  ⟨fun _ => Ledger.init, fun _ _ _ => Ledger.step⟩

/-! ## The size of the backlog -/

/-- No handler is called for more than was accepted. -/
theorem Ledger.returned_le {s : Loop H} (h : Ledger s) : s.core.returned.length ≤ s.accepted := by
  have hsub : s.core.invoked ⊆ List.range s.core.nextId := fun i hi =>
    List.mem_range.mpr ((h.inv.accounted i).mpr (.inl hi))
  have hlen := (h.inv.nodup.subperm hsub).length_le
  rw [List.length_range] at hlen
  have hcalled := h.called
  have hqueued := h.queued
  omega

/-- Between two callbacks every entry was called or has its RUN in the pipe. -/
theorem Ledger.queued_le {s : Loop H} (h : Ledger s) (hpc : s.core.pc = .idle) :
    s.core.nextId ≤ s.core.returned.length + s.core.pipe.length := by
  have hsub : List.range s.core.nextId ⊆
      s.core.invoked ++ (s.core.runQueue.filter (·.state = .INIT)).map Entry.id := by
    intro i hi
    rcases (h.inv.accounted i).mp (List.mem_range.mp hi) with hin | ⟨e, he, rfl, hst⟩
    · exact List.mem_append_left _ hin
    · refine List.mem_append_right _ (List.mem_map_of_mem (List.mem_filter.mpr ⟨he, ?_⟩))
      exact decide_eq_true hst
  have hlen := (List.nodup_range.subperm hsub).length_le
  rw [List.length_range, List.length_append, List.length_map, ← List.countP_eq_length_filter] at hlen
  have hruns : runs s.core ≤ s.core.pipe.length := List.countP_le_length
  have hinits : inits s.core ≤ runs s.core := by
    rcases h.inv.budget with hb | ⟨-, todo, htodo, -⟩
    · exact hb
    · rw [hpc] at htodo; cases htodo
  have hcalled := h.called
  rw [hpc] at hcalled
  simp only [inits, handlers] at hinits hcalled
  omega

/-- Room for every RUN and every CLEAR of what was accepted. -/
def Room (s : Loop H) : Prop :=
  MSG_SIZE * (2 * s.accepted) ≤ MSG_SIZE * s.delivered + PIPE_CAPACITY

theorem room_guarded : (lts H).Guarded Paced Room := by
  intro s l s' h hp hst
  have hst : step s l = some s' := hst
  unfold Room MSG_SIZE PIPE_CAPACITY at *
  cases l with
  | serve f M mem c =>
    simp only [Paced, MSG_SIZE, PIPE_CAPACITY] at hp
    obtain ⟨-, hst⟩ := Option.ite_none_right_eq_some.mp hst
    obtain ⟨out, -, rfl⟩ := Option.map_eq_some_iff.mp hst
    simp only
    split <;> omega
  | next =>
    obtain ⟨-, rfl⟩ := Option.ite_some_none_eq_some.mp hst
    exact h
  | deliver =>
    simp only [step] at hst
    obtain ⟨core, -, rfl⟩ := Option.map_eq_some_iff.mp hst
    simp only; omega
  | visit =>
    simp only [step] at hst
    obtain ⟨core, -, rfl⟩ := Option.map_eq_some_iff.mp hst
    exact h
  | ret r present =>
    obtain ⟨-, hst⟩ := Option.ite_none_right_eq_some.mp hst
    obtain ⟨core, -, rfl⟩ := Option.map_eq_some_iff.mp hst
    exact h

theorem Ledger.fits {s : Loop H} (h : Ledger s) (hroom : Room s) : Fits s := by
  have hbal := h.balance
  have hle := h.returned_le
  simp only [Fits, Room, MSG_SIZE, PIPE_CAPACITY] at *
  omega

/-- **The backlog.** In every run: what was read and what is in the pipe is
one message for each accepted request and one for each handler that returned,
which are no more handlers than requests; between two callbacks every entry
has been called or has its RUN in the pipe; and if clients are served only
while there is room for what their request and those before it write, every
message fits into the pipe. -/
theorem backlog (s₀ s : Loop H) (h₀ : Init s₀) (ls : List Lbl)
    (hr : (lts H).run s₀ ls = some s) :
    s.core.pipe.length + s.delivered = s.accepted + s.core.returned.length ∧
    s.core.returned.length ≤ s.accepted ∧
    (s.core.pc = .idle → s.core.nextId ≤ s.core.returned.length + s.core.pipe.length) ∧
    ((lts H).Meets Paced s₀ ls → Fits s) := by
  have h : Ledger s := ledger_inductive.run (.init h₀) hr
  refine ⟨h.balance, h.returned_le, h.queued_le, fun hp => h.fits ?_⟩
  refine room_guarded.run ?_ hp hr
  simp [Room, h₀.accepted]

def start (acts : List (ActionEntry H)) : Loop H := ⟨boot acts, false, 0, 0⟩

theorem init_start (acts : List (ActionEntry H)) : (lts H).init (start acts) :=
  ⟨L2.RunQueue.init_boot acts, rfl, rfl, rfl⟩

/-- A client that asks for "a". -/
def client : Lbl := .serve allOk zeroMem .both (conn smallMsg.encode)

/-- One request, from its connection to the removal of its entry. -/
def oneRequest : List Lbl :=
  [client, .deliver, .visit, .ret 0 false, .visit, .next, .deliver]

theorem backlog_oneRequest : (lts Unit).Meets Paced (start [anAction "a"]) oneRequest ∧
    ∃ s, (lts Unit).run (start [anAction "a"]) oneRequest = some s ∧ s.core.pipe = [] ∧ Fits s := by
  have hp : (lts Unit).Meets Paced (start [anAction "a"]) oneRequest := by decide
  refine ⟨hp, _, rfl, rfl, ?_⟩
  exact (backlog _ _ (init_start [anAction "a"]) oneRequest rfl).2.2.2 hp

/-! ## Clients that call in every iteration -/

/-- Whatever is queued, a call of "a" is accepted. -/
theorem client_served (s : Loop Unit) (hpc : s.core.pc = .idle) (hs : s.served = false)
    (hacts : s.core.predefActList = [anAction "a"]) : step s client =
      some ⟨ssCoreActionRun (ssRunQueueAdd .both (anAction "a") 0 [] s.core).2, true,
        s.accepted + 1, s.delivered⟩ := by
  obtain ⟨⟨acts, queue, pipe, pc, nextId, invoked, returned, freed⟩, served, accepted, delivered⟩ := s
  simp only at hpc hs hacts
  subst hpc hs hacts
  refine Eq.trans (b := some ⟨freeMessage _ (ssCoreActionRun (ssRunQueueAdd .both (anAction "a") 0 []
    ⟨_, queue, pipe, .idle, nextId, invoked, returned, freed⟩).2), true, accepted + 1, delivered⟩)
    rfl ?_
  rw [freeMessage_eq]

/-- What a pass over the queue leaves as it is. -/
structure Same (s s' : Loop H) : Prop where
  registry : s'.core.predefActList = s.core.predefActList
  nextId : s'.core.nextId = s.core.nextId
  served : s'.served = s.served
  accepted : s'.accepted = s.accepted
  delivered : s'.delivered = s.delivered

theorem Same.refl (s : Loop H) : Same s s := ⟨rfl, rfl, rfl, rfl, rfl⟩

theorem Same.trans {s t u : Loop H} (h : Same s t) (h' : Same t u) : Same s u where
  registry := h'.registry.trans h.registry
  nextId := h'.nextId.trans h.nextId
  served := h'.served.trans h.served
  accepted := h'.accepted.trans h.accepted
  delivered := h'.delivered.trans h.delivered

/-- A handler that returns 0. -/
theorem ret_done {s : Loop H} {id : Nat} {todo : List Nat} (hpc : s.core.pc = .handler id todo) :
    ∃ s', step s (.ret 0 false) = some s' ∧ s'.core.pc = .pass todo ∧ Same s s' := by
  have hst : step s (.ret 0 false) = some ⟨fastDone id
      { s.core with pc := .pass todo, returned := s.core.returned ++ [id] }, s.served, s.accepted,
      s.delivered⟩ := by
    simp only [step, handlerReturns, hpc, Int.le_refl, if_true, Option.map_some]
  exact ⟨_, hst, rfl, rfl, rfl, rfl, rfl, rfl⟩

/-- A pass comes past its next node. -/
theorem visit_next {s : Loop H} (h : Ledger s) {id : Nat} {todo : List Nat}
    (hpc : s.core.pc = .pass (id :: todo)) :
    ∃ ls s', (lts H).run s ls = some s' ∧ s'.core.pc = .pass todo ∧ Same s s' := by
  obtain ⟨core, hcore⟩ := Option.isSome_iff_exists.mp (h.inv.visit_isSome hpc)
  have hst : step s .visit = some { s with core := core } := by simp only [step, hcore, Option.map_some]
  unfold L2.RunQueue.visit at hcore
  rw [hpc] at hcore
  simp only at hcore
  split at hcore
  · cases hcore
  split at hcore
  · cases hcore
    have hcalled : Same s { s with core := callHandler id todo s.core } := ⟨rfl, rfl, rfl, rfl, rfl⟩
    obtain ⟨s', hret, hpc', hsame⟩ := ret_done (s := { s with core := callHandler id todo s.core }) rfl
    refine ⟨[.visit, .ret 0 false], s', ?_, hpc', hcalled.trans hsame⟩
    exact LTS.run_cons.mpr ⟨_, hst, LTS.run_cons.mpr ⟨_, hret, rfl⟩⟩
  · cases hcore
    exact ⟨[.visit], _, LTS.run_cons.mpr ⟨_, hst, rfl⟩, rfl, rfl, rfl, rfl, rfl, rfl⟩

/-- A pass comes to its end. -/
theorem pass_ends {s : Loop H} (h : Ledger s) {todo : List Nat} (hpc : s.core.pc = .pass todo) :
    ∃ ls s', (lts H).run s ls = some s' ∧ s'.core.pc = .idle ∧ Same s s' := by
  induction todo generalizing s with
  | nil =>
    refine ⟨[.visit], { s with core := { s.core with pc := .idle } }, ?_, rfl, rfl, rfl, rfl, rfl, rfl⟩
    refine LTS.run_cons.mpr ⟨_, ?_, rfl⟩
    show step s .visit = _
    simp only [step, L2.RunQueue.visit, hpc, Option.map_some]
  | cons id todo ih =>
    obtain ⟨ls₁, s₁, hr₁, hpc₁, hsame₁⟩ := visit_next h hpc
    obtain ⟨ls₂, s₂, hr₂, hpc₂, hsame₂⟩ := ih (ledger_inductive.run h hr₁) hpc₁
    exact ⟨ls₁ ++ ls₂, s₂, LTS.run_append.mpr ⟨s₁, hr₁, hr₂⟩, hpc₂, hsame₁.trans hsame₂⟩

/-- A message is read, and what it asks for is done. -/
theorem deliver_next {s : Loop H} (h : Ledger s) (hpc : s.core.pc = .idle) (hne : s.core.pipe ≠ []) :
    ∃ ls s', (lts H).run s ls = some s' ∧ s'.core.pc = .idle ∧
      Same { s with served := false, delivered := s.delivered + 1 } s' := by
  obtain ⟨m, rest, hpipe⟩ := List.exists_cons_of_ne_nil hne
  have hcore : ∃ core, corePipeCb s.core = some core ∧
      (core.pc = .idle ∨ ∃ todo, core.pc = .pass todo) ∧
      core.predefActList = s.core.predefActList ∧ core.nextId = s.core.nextId := by
    simp only [corePipeCb, hpc, hpipe]
    cases m.type with
    | RUN => exact ⟨_, rfl, .inr ⟨_, rfl⟩, rfl, rfl⟩
    | CLEAR => exact ⟨_, rfl, .inl rfl, rfl, rfl⟩
  obtain ⟨core, hcore, hcases, hacts, hid⟩ := hcore
  have hst : step s .deliver = some ⟨core, false, s.accepted, s.delivered + 1⟩ := by
    simp only [step, hcore, Option.map_some]
  have hsame : Same { s with served := false, delivered := s.delivered + 1 }
      ⟨core, false, s.accepted, s.delivered + 1⟩ := ⟨hacts, hid, rfl, rfl, rfl⟩
  rcases hcases with hidle | ⟨todo, htodo⟩
  · exact ⟨[.deliver], _, LTS.run_cons.mpr ⟨_, hst, rfl⟩, hidle, hsame⟩
  · obtain ⟨ls, s', hr, hidle, hsame'⟩ := pass_ends (h.step hst) htodo
    exact ⟨.deliver :: ls, s', LTS.run_cons.mpr ⟨_, hst, hr⟩, hidle, hsame.trans hsame'⟩

/-- After `n` iterations, in each of which the client was served and a
message was read. -/
structure After (n : Nat) (s : Loop Unit) : Prop where
  ledger : Ledger s
  registry : s.core.predefActList = [anAction "a"]
  pc : s.core.pc = .idle
  served : s.served = false
  nextId : s.core.nextId = n
  accepted : s.accepted = n
  delivered : s.delivered = n

theorem After.next {n : Nat} {s : Loop Unit} (h : After n s) :
    ∃ ls s', (lts Unit).run s ls = some s' ∧ After (n + 1) s' := by
  have hst := client_served s h.pc h.served h.registry
  obtain ⟨ls, s', hr, hpc, hsame⟩ := deliver_next (h.ledger.step hst) h.pc
    (by simp [ssCoreActionRun])
  have hrun : (lts Unit).run s (client :: ls) = some s' := LTS.run_cons.mpr ⟨_, hst, hr⟩
  refine ⟨client :: ls, s', hrun, ledger_inductive.run h.ledger hrun, ?_, hpc, hsame.served, ?_, ?_, ?_⟩
  · exact hsame.registry.trans h.registry
  · exact hsame.nextId.trans (congrArg Nat.succ h.nextId)
  · exact hsame.accepted.trans (congrArg Nat.succ h.accepted)
  · exact hsame.delivered.trans (congrArg Nat.succ h.delivered)

theorem after_iterations (n : Nat) :
    ∃ ls s, (lts Unit).run (start [anAction "a"]) ls = some s ∧ After n s := by
  induction n with
  | zero => exact ⟨[], _, rfl, Ledger.init (init_start _), rfl, rfl, rfl, rfl, rfl, rfl⟩
  | succ n ih =>
    obtain ⟨ls, s, hr, h⟩ := ih
    obtain ⟨ls', s', hr', h'⟩ := h.next
    exact ⟨ls ++ ls', s', LTS.run_append.mpr ⟨s, hr, hr'⟩, h'⟩

/-- Every second iteration leaves a message behind. -/
theorem After.left_behind {n : Nat} {s : Loop Unit} (h : After n s) : n ≤ 2 * s.core.pipe.length := by
  have hbal := h.ledger.balance
  have hqueued := h.ledger.queued_le h.pc
  rw [h.delivered, h.accepted] at hbal
  rw [h.nextId] at hqueued
  omega

/-- A client that is served in every iteration fills the pipe. -/
theorem backlog_overflows :
    ∃ ls s, (lts Unit).run (start [anAction "a"]) ls = some s ∧ ¬ Fits s := by
  obtain ⟨ls, s, hr, h⟩ := after_iterations 16386
  refine ⟨ls, s, hr, ?_⟩
  have hlen := h.left_behind
  simp only [Fits, MSG_SIZE, PIPE_CAPACITY]
  omega

end SystemServer.L3.PipeBound
