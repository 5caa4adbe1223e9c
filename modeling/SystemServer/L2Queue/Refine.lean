import SystemServer.Core.Pool
import SystemServer.L2Queue.Order

/-!
# The run queue is a pool of jobs

`ExactlyOnce` speaks of entries by their numbers. Seen from outside a request
is a job: an action and the arguments its handler is to get. `events` says
what a step shows: the entry it puts on the queue is a job accepted, the
entry whose handler it calls is a job performed, with the arguments the
handler finds.

`simulates`: with these events the run queue is a pool (`Core/Pool`), the
pending jobs being the INIT entries. `jobs_conserved` puts it together: over
any run from the start, what was accepted is what was performed and what is
still INIT, and with the pipe empty between two callbacks nothing is.
-/
namespace SystemServer.L2.Refine

open SystemServer.L2.RunQueue SystemServer.L2.ExactlyOnce SystemServer.L2.Order
open SystemServer (Pool.Ev Pool.accepted Pool.performed)

variable {H : Type}

/-- What a request asks for. -/
structure Job (H : Type) where
  actionEntry : ActionEntry H
  argc : Int
  argv : List CPtr

def Entry.job (e : Entry H) : Job H := ⟨e.actionEntry, e.argc, e.argv⟩

/-- The entries a step puts on the queue. -/
def newEntries (s s' : Core H) : List (Entry H) := s'.runQueue.filter fun e => s.nextId ≤ e.id

/-- The entries whose handlers a step calls. -/
def calledEntries (s s' : Core H) : List (Entry H) :=
  s'.runQueue.filter fun e => e.id ∈ s'.invoked ∧ e.id ∉ s.invoked

/-- Whatever the step is called. -/
def events {L : Type} (s : Core H) (_ : L) (s' : Core H) : List (Pool.Ev (Job H)) :=
  (newEntries s s').map (fun e => .accept (Entry.job e)) ++
    (calledEntries s s').map fun e => .perform (Entry.job e)

/-- The jobs still to be performed. -/
def pending (s : Core H) : Multiset (Job H) := (waiting s).map Entry.job

/-! ## What a step shows -/

theorem newEntries_nil {s s' : Core H} (h : ∀ e ∈ s'.runQueue, e.id < s.nextId) :
    newEntries s s' = [] := by
  refine List.filter_eq_nil_iff.mpr fun e he => ?_
  simpa using h e he

theorem calledEntries_nil {s s' : Core H} (h : s'.invoked = s.invoked) :
    calledEntries s s' = [] := by
  refine List.filter_eq_nil_iff.mpr fun e _ => ?_
  simp [h]

/-- A step that puts nothing on the queue and calls no handler. -/
theorem events_quiet {L : Type} {s s' : Core H} (l : L) (hnew : ∀ e ∈ s'.runQueue, e.id < s.nextId)
    (hcalled : s'.invoked = s.invoked) : events s l s' = [] := by
  rw [events, newEntries_nil hnew, calledEntries_nil hcalled]
  rfl

theorem events_added {L : Type} {s : Core H} (h : Inv s) (l : L) (act : ActionEntry H)
    (argc : Int) (argv : List CPtr) :
    events s l (added act argc argv s) = [.accept ⟨act, argc, argv.take argc.toNat⟩] := by
  have hold : newEntries s s = [] := newEntries_nil h.lt
  have hcalled : calledEntries s (added act argc argv s) = [] := calledEntries_nil rfl
  rw [events, hcalled]
  simp only [newEntries, added, ssRunQueueAdd, ssCoreActionRun] at hold ⊢
  rw [List.filter_cons_of_pos (by simp), hold]
  rfl

/-- The queue around an entry, before and after its handler is called. -/
theorem queue_around {s : Core H} (h : Inv s) {e : Entry H} (he : e ∈ s.runQueue)
    (todo : List Nat) : ∃ l₁ l₂, s.runQueue = l₁ ++ e :: l₂ ∧ (∀ x ∈ l₁ ++ l₂, x.id ≠ e.id) ∧
      (callHandler e.id todo s).runQueue = l₁ ++ { e with state := .RUNNING } :: l₂ := by
  obtain ⟨l₁, l₂, hq⟩ := List.append_of_mem he
  have hnd : (s.runQueue.map Entry.id).Nodup := h.sorted.imp fun hgt => Nat.ne_of_gt hgt
  rw [hq, List.map_append, List.map_cons, List.nodup_middle, List.nodup_cons] at hnd
  have hne : ∀ x ∈ l₁ ++ l₂, x.id ≠ e.id := by
    intro x hx hid
    refine hnd.1 ?_
    rw [← List.map_append, ← hid]
    exact List.mem_map_of_mem hx
  have hsame : ∀ l : List (Entry H), (∀ x ∈ l, x ∈ l₁ ++ l₂) →
      l.map (fun x => if x.id = e.id then { x with state := RunState.RUNNING } else x) = l := by
    intro l hl
    refine (List.map_congr_left fun x hx => ?_).trans (List.map_id l)
    exact if_neg (hne x (hl x hx))
  refine ⟨l₁, l₂, hq, hne, ?_⟩
  simp only [callHandler, setEntry, hq, List.map_append, List.map_cons, if_true]
  rw [hsame l₁ fun x hx => List.mem_append_left _ hx,
    hsame l₂ fun x hx => List.mem_append_right _ hx]

theorem calledEntries_callHandler {s : Core H} (h : Inv s) {e : Entry H} (he : e ∈ s.runQueue)
    (hst : e.state = .INIT) (todo : List Nat) :
    calledEntries s (callHandler e.id todo s) = [{ e with state := .RUNNING }] := by
  obtain ⟨l₁, l₂, -, hne, hq'⟩ := queue_around h he todo
  have hrest : ∀ l : List (Entry H), (∀ x ∈ l, x ∈ l₁ ++ l₂) →
      l.filter (fun x => decide (x.id ∈ s.invoked ++ [e.id] ∧ x.id ∉ s.invoked)) = [] := by
    intro l hl
    refine List.filter_eq_nil_iff.mpr fun x hx => ?_
    simp [hne x (hl x hx)]
  rw [calledEntries, hq']
  simp only [callHandler, setEntry, List.filter_append]
  rw [hrest l₁ fun x hx => List.mem_append_left _ hx,
    List.filter_cons_of_pos (by simp [(h.fresh e he hst).1]),
    hrest l₂ fun x hx => List.mem_append_right _ hx]
  rfl

theorem events_callHandler {L : Type} {s : Core H} (h : Inv s) (l : L) {e : Entry H}
    (he : e ∈ s.runQueue) (hst : e.state = .INIT) (todo : List Nat) :
    events s l (callHandler e.id todo s) = [.perform (Entry.job e)] := by
  have hnew : newEntries s (callHandler e.id todo s) = [] := by
    refine newEntries_nil fun x hx => ?_
    rcases mem_setEntry.mp hx with ⟨e₀, he₀, -, rfl⟩ | ⟨hx, -⟩
    · exact h.lt e₀ he₀
    · exact h.lt x hx
  rw [events, hnew, calledEntries_callHandler h he hst]
  rfl

/-- The steps that make requests. -/
def Requests : Lbl → Prop
  | .call _ _ | .callInternal _ _ _ _ => True
  | _ => False

/-- The others put nothing on the queue. -/
theorem newEntries_own {s s' : Core H} {l : Lbl} (h : Inv s) (hl : ¬ Requests l)
    (hst : step s l = some s') : newEntries s s' = [] := by
  have hnext : s'.nextId = s.nextId := by
    cases step_effect hst with
    | add _ _ _ _ hl' => obtain ⟨_, rfl⟩ | ⟨_, _, _, rfl⟩ := hl' <;> exact (hl trivial).elim
    | none | announce | sigchld | run | clear | passEnd | invoke | skip | done | forked => rfl
  refine newEntries_nil fun e he => ?_
  rw [← hnext]
  exact (inv_step h hst).lt e he

/-! ## What a step leaves waiting -/

/-- An update of entries that are not INIT, and stay so, touches no job. -/
theorem waiting_setEntry {s : Core H} {id : Nat} (f : Entry H → Entry H)
    (h : ∀ e ∈ s.runQueue, e.id = id → e.state ≠ .INIT ∧ (f e).state ≠ .INIT) :
    waiting (setEntry id f s) = waiting s := by
  simp only [waiting, setEntry]
  revert h
  generalize s.runQueue = q
  intro h
  induction q with
  | nil => rfl
  | cons e q ih =>
    have hq := ih fun x hx => h x (List.mem_cons_of_mem _ hx)
    rw [List.map_cons, List.filter_cons, List.filter_cons, hq]
    by_cases hid : e.id = id
    · obtain ⟨h₁, h₂⟩ := h e List.mem_cons_self hid
      simp [hid, h₁, h₂]
    · simp [hid]

/-- A CLEAR takes no job away. -/
theorem waiting_clear {s : Core H} (h : Inv s) {m : PipeMsg} (hm : m ∈ s.pipe)
    (ht : m.type = .CLEAR) (t : Core H) (hq : t.runQueue = s.runQueue) :
    waiting (ssRunQueueDelBypid m.pid t) = waiting s := by
  simp only [waiting, ssRunQueueDelBypid, hq, List.filter_filter]
  refine List.filter_congr fun e he => ?_
  by_cases hp : e.forkedPid = m.pid
  · simp [hp, (h.cleared hm ht he hp).1]
  · simp [hp]

/-- The entry called waits no longer. -/
theorem waiting_callHandler {s : Core H} (h : Inv s) {e : Entry H} (he : e ∈ s.runQueue)
    (hst : e.state = .INIT) (todo : List Nat) : ∃ w₁ w₂, waiting s = w₁ ++ e :: w₂ ∧
      waiting (callHandler e.id todo s) = w₁ ++ w₂ := by
  obtain ⟨l₁, l₂, hq, -, hq'⟩ := queue_around h he todo
  refine ⟨waiting { s with runQueue := l₁ }, waiting { s with runQueue := l₂ }, ?_, ?_⟩
  · simp [waiting, hq, List.filter_append, hst]
  · simp [waiting, hq', List.filter_append]

/-! ## The refinement -/

/-- What a step shows, and what it does to the entries that wait. -/
inductive Turns (s s' : Core H) : List (Pool.Ev (Job H)) → Prop where
  | quiet (hw : waiting s' = waiting s) : Turns s s' []
  | accepts (e : Entry H) (hid : e.id = s.nextId) (hw : waiting s' = e :: waiting s) :
      Turns s s' [.accept (Entry.job e)]
  | performs (e : Entry H) (htodo : e.id ∈ s.pc.todo) (w₁ w₂ : List (Entry H))
      (hw : waiting s = w₁ ++ e :: w₂) (hw' : waiting s' = w₁ ++ w₂) :
      Turns s s' [.perform (Entry.job e)]

/-- What that is for the pending jobs. -/
inductive Shows (s s' : Core H) : List (Pool.Ev (Job H)) → Prop where
  | quiet (hpending : pending s' = pending s) : Shows s s' []
  | accepts (j : Job H) (hpending : pending s' = j ::ₘ pending s) : Shows s s' [.accept j]
  | performs (j : Job H) (hpending : pending s = j ::ₘ pending s') : Shows s s' [.perform j]

theorem Turns.shows {s s' : Core H} {es : List (Pool.Ev (Job H))} (h : Turns s s' es) :
    Shows s s' es := by
  cases h with
  | quiet hw => exact .quiet (by rw [pending, pending, hw])
  | accepts e hid hw =>
    refine .accepts _ ?_
    rw [pending, pending, hw]
    rfl
  | performs e htodo w₁ w₂ hw hw' =>
    refine .performs _ ?_
    simp only [pending, hw, hw', List.map_append, List.map_cons, ← Multiset.coe_add,
      ← Multiset.cons_coe, Multiset.add_cons]

/-- A step that shows nothing and changes no job. -/
theorem turns_quiet {L : Type} {s s' : Core H} (l : L)
    (hnew : ∀ e ∈ s'.runQueue, e.id < s.nextId) (hcalled : s'.invoked = s.invoked)
    (hw : waiting s' = waiting s) : Turns s s' (events s l s') := by
  rw [events_quiet l hnew hcalled]
  exact .quiet hw

/-- The entry of a handler that returns is no job any more. -/
theorem returns_quiet {s : Core H} (h : Inv s) {id : Nat} {todo : List Nat}
    (hpc : s.pc = .handler id todo) (f : Entry H → Entry H) (hf : ∀ e, (f e).id = e.id)
    (hst : ∀ e, e.state ≠ .INIT → (f e).state ≠ .INIT) :
    (∀ e ∈ (setEntry id f { s with pc := .pass todo, returned := s.returned ++ [id] }).runQueue,
      e.id < s.nextId) ∧
    waiting (setEntry id f { s with pc := .pass todo, returned := s.returned ++ [id] }) =
      waiting s := by
  have hin := (h.running id todo hpc).1
  refine ⟨fun e he => ?_, waiting_setEntry f fun e he hid => ?_⟩
  · rcases mem_setEntry.mp he with ⟨e₀, he₀, -, rfl⟩ | ⟨hold, -⟩
    · rw [hf]
      exact h.lt e₀ he₀
    · exact h.lt e hold
  · have hne : e.state ≠ .INIT := by
      intro hei
      exact (h.fresh e he hei).1 (hid ▸ hin)
    exact ⟨hne, hst e hne⟩

/-- A step accepts a job, performs one, or does neither. -/
theorem step_turns {s s' : Core H} {l : Lbl} (hi : Inv s) (hst : step s l = some s') :
    Turns s s' (events s l s') := by
  cases step_effect hst with
  | none | announce | sigchld | run | passEnd | skip => exact turns_quiet _ hi.lt rfl rfl
  | clear m rest hpc hm hpipe =>
    have hmem : m ∈ s.pipe := by rw [hpipe]; exact List.mem_cons_self
    refine turns_quiet _ (fun e he => ?_) rfl (waiting_clear hi hmem hm _ rfl)
    exact hi.lt e (List.mem_of_mem_filter he)
  | add _ act argc argv =>
    rw [events_added hi]
    exact .accepts ⟨s.nextId, .INIT, act, 0, argc, argv.take argc.toNat⟩ rfl rfl
  | invoke e todo hpc he hei =>
    obtain ⟨w₁, w₂, hw, hw'⟩ := waiting_callHandler hi he hei todo
    rw [events_callHandler hi _ he hei]
    exact .performs e (by rw [hpc]; exact List.mem_cons_self) w₁ w₂ hw hw'
  | done r present id todo hpc =>
    obtain ⟨hlt, hw⟩ := returns_quiet hi hpc (fun e => { e with forkedPid := -1, state := .DONE })
      (fun _ => rfl) fun _ _ => nofun
    exact turns_quiet _ hlt rfl hw
  | forked r id todo hpc hr =>
    obtain ⟨hlt, hw⟩ := returns_quiet hi hpc (fun e => { e with forkedPid := r })
      (fun _ => rfl) fun _ he => he
    exact turns_quiet _ hlt rfl hw

theorem step_shows {s s' : Core H} {l : Lbl} (hi : Inv s) (hst : step s l = some s') :
    Shows s s' (events s l s') := (step_turns hi hst).shows

/-- The run queue stands for the bag of its INIT entries. -/
def Stands (s : Core H) (p : Multiset (Job H)) : Prop := Inv s ∧ p = pending s

theorem stands_step {s s' : Core H} {l : Lbl} {p : Multiset (Job H)} (h : Stands s p)
    (hst : step s l = some s') :
    ∃ p', (Pool.lts (Job H)).run p (events s l s') = some p' ∧ Stands s' p' := by
  obtain ⟨hi, rfl⟩ := h
  refine ⟨pending s', ?_, inv_step hi hst, rfl⟩
  have hshows := step_shows hi hst
  generalize events s l s' = es at hshows ⊢
  cases hshows with
  | quiet hpending =>
    rw [hpending]
    rfl
  | accepts j hpending =>
    rw [hpending]
    rfl
  | performs j hpending =>
    rw [hpending]
    exact LTS.run_cons.mpr ⟨_, Pool.step_perform _ _, rfl⟩

/-- **The run queue is a pool.** Its steps, seen as jobs accepted and performed,
are runs of the pool; the pending jobs are those of the INIT entries. -/
theorem simulates (H : Type) : (lts H).Simulates events (Pool.lts (Job H)) Stands where
  init s hs := by
    refine ⟨0, rfl, inv_init hs, ?_⟩
    simp [pending, waiting, hs.runQueue]
  step _ _ _ _ h hst := stands_step h hst

/-- Between two callbacks with nothing in the pipe, no job is pending. -/
theorem pending_settled {s : Core H} (h : Inv s) (hpc : s.pc = .idle) (hpipe : s.pipe = []) :
    pending s = 0 := by
  suffices hw : waiting s = [] by rw [pending, hw]; rfl
  refine List.filter_eq_nil_iff.mpr fun e he hst => ?_
  rcases h.announced he (by simpa using hst) with ⟨m, hm, -⟩ | ⟨todo, ht, -⟩
  · rw [hpipe] at hm
    cases hm
  · rw [hpc] at ht
    cases ht

/-- **No job is lost, duplicated or made up.** Over every run from the start, in
any interleaving of requests, deliveries, handlers and child exits, the jobs
accepted are those performed and those still pending, each as often; none is
pending between two callbacks when the pipe is empty. -/
theorem jobs_conserved (H : Type) (s₀ s : Core H) (ls : List Lbl) (h₀ : Init s₀)
    (hr : (lts H).run s₀ ls = some s) :
    Pool.accepted ((lts H).trace events s₀ ls) =
      Pool.performed ((lts H).trace events s₀ ls) + pending s ∧
    (s.pc = .idle → s.pipe = [] → Pool.accepted ((lts H).trace events s₀ ls) =
      Pool.performed ((lts H).trace events s₀ ls)) := by
  have hstands : Stands s₀ 0 := ⟨inv_init h₀, by simp [pending, waiting, h₀.runQueue]⟩
  obtain ⟨p', ⟨hinv, rfl⟩, hcons⟩ := (simulates H).conserved hstands hr
  rw [zero_add] at hcons
  refine ⟨hcons, fun hpc hpipe => ?_⟩
  rw [hcons, pending_settled hinv hpc hpipe, add_zero]

/-- `twoRequests`, then what is left in the pipe. -/
def twoSettled : List Lbl := twoRequests ++ [.deliver, .visit, .visit, .visit, .deliver, .deliver]

theorem jobs_conserved_two : ∃ s,
    (lts Unit).run (boot [anAction "on", anAction "off"]) twoSettled = some s ∧
    s.pc = .idle ∧ s.pipe = [] ∧
    Pool.accepted ((lts Unit).trace events (boot [anAction "on", anAction "off"]) twoSettled) =
      Pool.performed ((lts Unit).trace events (boot [anAction "on", anAction "off"]) twoSettled) := by
  refine ⟨_, rfl, rfl, rfl, ?_⟩
  exact (jobs_conserved Unit _ _ twoSettled (init_boot _) rfl).2 rfl rfl

end SystemServer.L2.Refine
