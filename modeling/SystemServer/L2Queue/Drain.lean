import SystemServer.L2Queue.Refine

/-!
# The main loop comes to rest

Reading the pipe, walking the queue and returning from handlers are the main
loop's own steps (`Loop`); the others bring it new work. Each RUN makes it
walk the whole queue and each handler that ends at once sends a CLEAR, so the
pipe can grow while it is being read. `work` counts what is left to do:

* a RUN costs a walk over the queue, a CLEAR one step;
* an INIT entry costs the return of its handler and the CLEAR it may send;
* the pass under way costs the entries ahead of it.

`decreases`: every step of the loop lowers it, a request or a child's exit
raises it by no more than `cost`. While a message is in the pipe or a pass is
under way some step of the loop is enabled (`loop_enabled`). So the loop,
left alone, comes to rest, and has by then performed what was pending
(`drains`).
-/
namespace SystemServer.L2.Drain

open SystemServer.L2.RunQueue SystemServer.L2.ExactlyOnce SystemServer.L2.Order
open SystemServer.L2.Refine
open SystemServer (Pool.Ev Pool.accepted Pool.performed)

variable {H : Type}

/-- The steps of the main loop itself. -/
def Loop : Lbl → Prop
  | .deliver | .visit | .ret _ _ => True
  | _ => False

instance : DecidablePred Loop
  | .deliver | .visit | .ret _ _ => .isTrue trivial
  | .call _ _ | .callInternal _ _ _ _ | .sigchld _ => .isFalse id

/-- What is left of the pass under way; a handler has its return and a CLEAR
ahead of it. -/
def Pc.left : Pc → Nat
  | .idle => 0
  | .pass todo => todo.length + 1
  | .handler _ todo => todo.length + 3

/-- The steps a message leads to, over a queue of `n` entries. -/
def PipeMsg.steps (n : Nat) (m : PipeMsg) : Nat :=
  match m.type with
  | .RUN => n + 2
  | .CLEAR => 1

def pipeSteps (n : Nat) (pipe : List PipeMsg) : Nat := (pipe.map (PipeMsg.steps n)).sum

/-- The steps of the loop that are left. -/
def work (s : Core H) : Nat := pipeSteps s.runQueue.length s.pipe + 2 * inits s + Pc.left s.pc

/-- What a step that is not the loop's adds to its work: a request, an entry
that every RUN in the pipe will come by; an exit, a CLEAR. -/
def cost (s : Core H) : Lbl → Nat
  | .sigchld _ => 1
  | _ => runs s + s.runQueue.length + 5

@[simp] theorem pipeSteps_append (n : Nat) (p p' : List PipeMsg) :
    pipeSteps n (p ++ p') = pipeSteps n p + pipeSteps n p' := by
  simp [pipeSteps]

@[simp] theorem pipeSteps_run (n : Nat) (pid : Int) : pipeSteps n [⟨.RUN, pid⟩] = n + 2 := rfl

@[simp] theorem pipeSteps_clear (n : Nat) (pid : Int) : pipeSteps n [⟨.CLEAR, pid⟩] = 1 := rfl

theorem pipeSteps_cons (n : Nat) (m : PipeMsg) (p : List PipeMsg) :
    pipeSteps n (m :: p) = PipeMsg.steps n m + pipeSteps n p := rfl

/-- Over a shorter queue the messages lead to no more steps. -/
theorem pipeSteps_mono {n n' : Nat} (h : n ≤ n') (p : List PipeMsg) :
    pipeSteps n p ≤ pipeSteps n' p := by
  induction p with
  | nil => exact Nat.le_refl 0
  | cons m p ih =>
    have hm : PipeMsg.steps n m ≤ PipeMsg.steps n' m := by
      simp only [PipeMsg.steps]
      split <;> omega
    rw [pipeSteps_cons, pipeSteps_cons]
    exact Nat.add_le_add hm ih

/-- One more entry on the queue is one more step for every RUN. -/
theorem pipeSteps_succ (n : Nat) (p : List PipeMsg) :
    pipeSteps (n + 1) p = pipeSteps n p + p.countP (·.type = .RUN) := by
  induction p with
  | nil => rfl
  | cons m p ih =>
    rw [pipeSteps_cons, pipeSteps_cons, ih, List.countP_cons]
    cases hm : m.type <;> simp [PipeMsg.steps, hm] <;> omega

/-! ## The loop's steps lower the work -/

theorem work_clear {s : Core H} {m : PipeMsg} {rest : List PipeMsg} (hpc : s.pc = .idle)
    (hm : m.type = .CLEAR) (hpipe : s.pipe = m :: rest) :
    work (ssRunQueueDelBypid m.pid { s with pipe := rest }) < work s := by
  have hlen : (s.runQueue.filter fun e => decide (e.forkedPid ≠ m.pid)).length ≤ s.runQueue.length :=
    List.length_filter_le _ _
  have hinits : (s.runQueue.filter fun e => decide (e.forkedPid ≠ m.pid)).countP (·.state = .INIT) ≤
      inits s := List.Sublist.countP_le List.filter_sublist
  have hpipe' := pipeSteps_mono hlen rest
  simp only [work, ssRunQueueDelBypid, hpc, hpipe, pipeSteps_cons, PipeMsg.steps, hm, inits,
    Pc.left] at hinits ⊢
  omega

theorem work_callHandler {s : Core H} {e : Entry H} {todo : List Nat}
    (hpc : s.pc = .pass (e.id :: todo)) (he : e ∈ s.runQueue) (hst : e.state = .INIT) :
    work (callHandler e.id todo s) < work s := by
  have hinits := inits_callHandler he hst todo
  have hlen : (callHandler e.id todo s).runQueue.length = s.runQueue.length := by
    simp [callHandler, setEntry]
  have hpipe : (callHandler e.id todo s).pipe = s.pipe := rfl
  have hpc' : (callHandler e.id todo s).pc = .handler e.id todo := rfl
  simp only [work, hlen, hpipe, hpc, hpc', Pc.left, List.length_cons]
  omega

/-- The state in which a handler's return leaves the loop, before the entry is
updated. -/
def returned (id : Nat) (todo : List Nat) (s : Core H) : Core H :=
  { s with pc := .pass todo, returned := s.returned ++ [id] }

/-- There is a step left for the CLEAR a return may send. -/
theorem work_returned {s : Core H} {id : Nat} {todo : List Nat} (hpc : s.pc = .handler id todo)
    (f : Entry H → Entry H) (hst : ∀ e, (f e).state = .INIT → e.state = .INIT) :
    work (setEntry id f (returned id todo s)) + 1 < work s := by
  have hinits := inits_setEntry_le id f hst (returned id todo s)
  have hlen : (setEntry id f (returned id todo s)).runQueue.length = s.runQueue.length := by
    simp [setEntry, returned]
  have hpipe : (setEntry id f (returned id todo s)).pipe = s.pipe := rfl
  have hpc' : (setEntry id f (returned id todo s)).pc = .pass todo := rfl
  have hold : inits (returned id todo s) = inits s := rfl
  simp only [work, hlen, hpipe, hpc, hpc', Pc.left]
  omega

theorem work_sent (s : Core H) (pid : Int) : work (ssCoreActionClear pid s) = work s + 1 := by
  simp only [work, ssCoreActionClear, pipeSteps_append, pipeSteps_clear, inits]
  omega

theorem work_lower {s s' : Core H} {l : Lbl} (hl : Loop l) (hst : step s l = some s') :
    work s' < work s := by
  cases step_effect hst with
  | none _ hl' => obtain ⟨_, _, rfl⟩ | ⟨_, _, _, _, rfl⟩ := hl' <;> exact hl.elim
  | announce _ _ _ hl' | add _ _ _ _ hl' => obtain ⟨_, rfl⟩ | ⟨_, _, _, rfl⟩ := hl' <;> exact hl.elim
  | sigchld => exact hl.elim
  | run m rest hpc hm hpipe =>
    simp only [work, ssRunQueueRun, hpc, hpipe, pipeSteps_cons, PipeMsg.steps, hm, Pc.left,
      List.length_map, inits]
    omega
  | clear m rest hpc hm hpipe => exact work_clear hpc hm hpipe
  | passEnd hpc =>
    simp only [work, hpc, Pc.left, inits]
    omega
  | invoke e todo hpc he hei => exact work_callHandler hpc he hei
  | skip e todo hpc he hei =>
    simp only [work, hpc, Pc.left, inits, List.length_cons]
    omega
  | done r present id todo hpc =>
    have hdone : RunState.DONE ≠ .INIT := fun heq => RunState.noConfusion heq
    have h := work_returned hpc (fun e => { e with forkedPid := -1, state := .DONE })
      fun _ heq => absurd heq hdone
    rw [fastDone, work_sent]
    exact h
  | forked r id todo hpc hr =>
    exact Nat.lt_of_succ_lt (work_returned hpc (fun e => { e with forkedPid := r }) fun _ he => he)

/-! ## The other steps raise it by their cost -/

theorem work_announced (s : Core H) :
    work (ssCoreActionRun s) = work s + s.runQueue.length + 2 := by
  simp only [work, ssCoreActionRun, pipeSteps_append, pipeSteps_run, inits]
  omega

theorem work_added (act : ActionEntry H) (argc : Int) (argv : List CPtr) (s : Core H) :
    work (added act argc argv s) = work s + runs s + s.runQueue.length + 5 := by
  simp only [work, added, ssCoreActionRun, ssRunQueueAdd,
    pipeSteps_append, pipeSteps_run, List.length_cons, pipeSteps_succ, List.countP_append, inits,
    List.countP_cons, List.countP_nil, decide_true, if_true, runs]
  omega

theorem work_raise {s s' : Core H} {l : Lbl} (hl : ¬ Loop l) (hst : step s l = some s') :
    work s' ≤ work s + cost s l := by
  cases step_effect hst with
  | none => exact Nat.le_add_right _ _
  | announce _ _ _ hl' =>
    rw [work_announced]
    obtain ⟨_, rfl⟩ | ⟨_, _, _, rfl⟩ := hl' <;> simp only [cost] <;> omega
  | add _ act argc argv hl' =>
    rw [work_added]
    obtain ⟨_, rfl⟩ | ⟨_, _, _, rfl⟩ := hl' <;> simp only [cost] <;> omega
  | sigchld p =>
    rw [work_sent]
    exact Nat.le_refl _
  | run | clear | passEnd | invoke | skip | done | forked => exact (hl trivial).elim

theorem decreases (H : Type) : (lts H).Decreases Inv Loop cost work where
  keep _ _ _ h hst := inv_step h hst
  lower _ _ _ _ hl hst := work_lower hl hst
  raise _ _ _ _ hl hst := work_raise hl hst

/-! ## The loop is never stuck -/

theorem loop_enabled {s : Core H} (h : Inv s) (hleft : s.pc ≠ .idle ∨ s.pipe ≠ []) :
    ∃ l, Loop l ∧ (step s l).isSome := by
  cases hpc : s.pc with
  | idle =>
    have hpipe : s.pipe ≠ [] := hleft.resolve_left fun hne => hne hpc
    obtain ⟨m, rest, hpipe⟩ := List.exists_cons_of_ne_nil hpipe
    refine ⟨.deliver, trivial, ?_⟩
    simp only [step, corePipeCb, hpc, hpipe]
    split <;> rfl
  | pass todo => exact ⟨.visit, trivial, h.visit_isSome hpc⟩
  | handler id todo =>
    refine ⟨.ret 0 false, trivial, ?_⟩
    simp [step, handlerReturns, hpc]

/-- At rest: nothing in the pipe, between two callbacks. -/
theorem settled_of_stuck {s : Core H} (h : Inv s) (hstuck : ∀ l, Loop l → step s l = none) :
    s.pc = .idle ∧ s.pipe = [] := by
  by_contra hleft
  rw [not_and_or] at hleft
  obtain ⟨l, hl, hsome⟩ := loop_enabled h hleft
  rw [hstuck l hl] at hsome
  cases hsome

/-- The loop's own steps accept no job. -/
theorem accepted_loop {s s' : Core H} {ls : List Lbl} (h : Inv s) (hls : ∀ l ∈ ls, Loop l)
    (hr : (lts H).run s ls = some s') : Pool.accepted ((lts H).trace events s ls) = 0 := by
  induction ls generalizing s with
  | nil => rfl
  | cons l ls ih =>
    obtain ⟨s₁, hst, hr⟩ := LTS.run_cons.mp hr
    have hl : Loop l := hls l List.mem_cons_self
    have hnew : newEntries s s₁ = [] := newEntries_own h (by cases l <;> simp_all [Loop, Requests]) hst
    rw [LTS.trace_cons hst, Pool.accepted_append,
      ih (inv_step h hst) (fun x hx => hls x (List.mem_cons_of_mem _ hx)) hr, add_zero, events, hnew]
    exact Pool.accepted_performs _ _

/-- No other step takes part, so the others cost nothing. -/
theorem costs_loop (s : Core H) {ls : List Lbl} (hls : ∀ l ∈ ls, Loop l) :
    (lts H).costs Loop cost s ls = 0 := by
  induction ls generalizing s with
  | nil => rfl
  | cons l ls ih =>
    simp only [LTS.costs]
    split
    · rfl
    · rw [if_pos (hls l List.mem_cons_self), ih _ fun x hx => hls x (List.mem_cons_of_mem _ hx)]

/-- Left alone, the loop takes no more steps than its work. -/
theorem loop_length_le {s s' : Core H} {ls : List Lbl} (h : Inv s) (hls : ∀ l ∈ ls, Loop l)
    (hr : (lts H).run s ls = some s') : ls.length ≤ work s := by
  have hle := (decreases H).length_le h hr
  have hall : ls.countP (fun l => decide (Loop l)) = ls.length :=
    List.countP_eq_length.mpr fun l hl => by simpa using hls l hl
  rw [costs_loop s hls, hall] at hle
  omega

/-- **The main loop comes to rest.** From every reachable state: in any run the
loop takes no more steps than its work and the costs of what it is brought
allow; left alone it ends between two callbacks with an empty pipe, having
performed exactly the jobs that were pending; and it can be run to that end. -/
theorem drains (H : Type) (s : Core H) (h : (lts H).Reachable s) :
    (∀ ls s', (lts H).run s ls = some s' →
      ls.countP (fun l => decide (Loop l)) + work s' ≤ work s + (lts H).costs Loop cost s ls) ∧
    (∀ ls s', (lts H).run s ls = some s' → (∀ l ∈ ls, Loop l) →
      ls.length ≤ work s ∧
      ((∀ l, Loop l → step s' l = none) → s'.pc = .idle ∧ s'.pipe = [] ∧
        Pool.performed ((lts H).trace events s ls) = pending s)) ∧
    ∃ ls s', (∀ l ∈ ls, Loop l) ∧ (lts H).run s ls = some s' ∧
      ∀ l, Loop l → step s' l = none := by
  have hi := inv_reachable h
  refine ⟨fun _ _ hr => (decreases H).length_le hi hr, fun ls s' hr hls => ⟨loop_length_le hi hls hr,
    fun hstuck => ?_⟩, (decreases H).exists_stuck hi⟩
  obtain ⟨p', ⟨hi', rfl⟩, hcons⟩ := (simulates H).conserved ⟨hi, rfl⟩ hr
  obtain ⟨hpc, hpipe⟩ := settled_of_stuck hi' hstuck
  rw [accepted_loop hi hls hr, pending_settled hi' hpc hpipe, add_zero, add_zero] at hcons
  exact ⟨hpc, hpipe, hcons.symm⟩

/-- After two requests and before the pipe is read. -/
theorem drains_two : ∃ s, (lts Unit).run (boot [anAction "on", anAction "off"])
      [request "on", request "off"] = some s ∧ work s = 12 ∧
    ∀ ls s', (lts Unit).run s ls = some s' → (∀ l ∈ ls, Loop l) → ls.length ≤ 12 := by
  refine ⟨_, rfl, rfl, fun ls s' hr hls => ?_⟩
  refine ((drains Unit _ ⟨boot [anAction "on", anAction "off"], [request "on", request "off"],
    init_boot _, rfl⟩).2.1 ls s' hr hls).1

end SystemServer.L2.Drain
