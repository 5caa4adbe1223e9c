import SystemServer.L2Queue.ExactlyOnce

/-!
# Children, SIGCHLD and the entries they leave behind (`ss_sig_handler.c`)

A handler may fork a child and return its pid; the entry then stays on the
run queue, with that `forked_pid`, until the child's end is reported. The
report is `sig_child_handler`: it waits for `si_pid` and writes CLEAR si_pid.

POSIX side: a child that exits is a zombie until it is waited for; SIGCHLD is
blocked while its handler or `system()` runs; at most one SIGCHLD is pending
and a further one merges into it, the first `siginfo` is kept. `system()`
waits for its own shell.

The handler waits for one child only, so a child whose SIGCHLD was merged is
never waited for and never reported. An entry is left behind by exactly two
steps (`KeepsSigchld` excludes them): the exit of a child an entry holds while
a SIGCHLD is pending, and the return of a handler whose child has become a
zombie with its SIGCHLD already merged. In a run without them every entry's
child is alive or about to be reported (`Tracked`); after one of them an entry
holds a zombie nobody waits for (`Stale`), for good.
-/
namespace SystemServer.L3.Sigchld

open SystemServer.L2 SystemServer.L2.RunQueue SystemServer.L2.ExactlyOnce

variable {H : Type}

structure Sys (H : Type) where
  core : Core H
  live : List Int
  zombie : List Int
  /-- every pid given out so far -/
  forked : List Int
  /-- the children the running handler has forked -/
  mine : List Int
  pending : Option Int
  /-- `sig_child_handler` runs, for this `si_pid` -/
  handling : Option Int
  /-- `system()` waits for this shell -/
  shell : Option Int

inductive Lbl where
  | main (l : RunQueue.Lbl)
  | fork (c : Int)
  | systemBegin (c : Int)
  | systemEnd
  | exit (c : Int)
  | sigEnter
  | sigWait

/-- The main thread runs: no signal handler on top of it, not in `system()`. -/
def Sys.Free (s : Sys H) : Prop := s.handling = none ∧ s.shell = none

instance (s : Sys H) : Decidable s.Free := inferInstanceAs (Decidable (_ ∧ _))

/-- A positive value a handler returns is a child it forked; `/proc/r/status`
is there as long as the child has not been waited for. CLEAR is written by
`sigWait` only. -/
def Allowed (s : Sys H) : RunQueue.Lbl → Prop
  | .sigchld _ => False
  | .ret r present => (r ≤ 0 ∨ r ∈ s.mine) ∧ present = decide (r ∈ s.live ∨ r ∈ s.zombie)
  | _ => True

instance (s : Sys H) (l : RunQueue.Lbl) : Decidable (Allowed s l) := by
  cases l <;> simp only [Allowed] <;> infer_instance

/-- The children the running handler has forked, after a step of the main
thread. -/
def mineAfter (s : Sys H) : RunQueue.Lbl → List Int
  | .ret _ _ => []
  | _ => s.mine

/-- A pid that was not given out before. -/
def Fresh (s : Sys H) (c : Int) : Prop := 0 < c ∧ c ∉ s.forked

instance (s : Sys H) (c : Int) : Decidable (Fresh s c) := inferInstanceAs (Decidable (_ ∧ _))

def InHandler : Pc → Bool
  | .handler _ _ => true
  | _ => false

/-- mirrors ss_sig_handler.c:38-52; `waitpid` blocks while the child lives. -/
def sigChildHandler (s : Sys H) : Option (Sys H) :=
  match s.handling with
  | none => none
  | some c =>
    if c ∈ s.live then none
    else if c ∈ s.zombie then
      some { s with
        zombie := s.zombie.filter (· ≠ c)
        core := ssCoreActionClear c s.core
        handling := none }
    else some { s with handling := none }

def step (s : Sys H) : Lbl → Option (Sys H)
  | .main l =>
    if s.Free ∧ Allowed s l then
      (RunQueue.step s.core l).map fun core => { s with core := core, mine := mineAfter s l }
    else none
  | .fork c =>
    if s.Free ∧ s.core.pc.InCode ∧ Fresh s c then
      some { s with
        live := c :: s.live
        forked := c :: s.forked
        mine := if InHandler s.core.pc then c :: s.mine else s.mine }
    else none
  | .systemBegin c =>
    if s.Free ∧ s.core.pc.InCode ∧ Fresh s c then
      some { s with live := c :: s.live, forked := c :: s.forked, shell := some c }
    else none
  | .systemEnd =>
    match s.shell with
    | some c =>
      if c ∈ s.zombie then some { s with zombie := s.zombie.filter (· ≠ c), shell := none } else none
    | none => none
  | .exit c =>
    if c ∈ s.live then
      some { s with
        live := s.live.filter (· ≠ c)
        zombie := c :: s.zombie
        pending := s.pending.or (some c) }
    else none
  | .sigEnter =>
    if s.Free ∧ s.pending ≠ none then some { s with pending := none, handling := s.pending } else none
  | .sigWait => sigChildHandler s

structure Init (s : Sys H) : Prop where
  core : RunQueue.Init s.core
  live : s.live = []
  zombie : s.zombie = []
  forked : s.forked = []
  mine : s.mine = []
  pending : s.pending = none
  handling : s.handling = none
  shell : s.shell = none

def sys (H : Type) : LTS (Sys H) Lbl := ⟨Init, step⟩

/-! ## What a step can do -/

inductive Move (s : Sys H) : Lbl → Sys H → Prop where
  | main (l core) (hfree : s.Free) (hal : Allowed s l) (hcore : RunQueue.step s.core l = some core) :
      Move s (.main l) { s with core := core, mine := mineAfter s l }
  | fork (c) (hfree : s.Free) (hc : Fresh s c) : Move s (.fork c) { s with
      live := c :: s.live
      forked := c :: s.forked
      mine := if InHandler s.core.pc then c :: s.mine else s.mine }
  | systemBegin (c) (hc : Fresh s c) : Move s (.systemBegin c) { s with
      live := c :: s.live, forked := c :: s.forked, shell := some c }
  | systemEnd (c) (hsh : s.shell = some c) : Move s .systemEnd { s with
      zombie := s.zombie.filter (· ≠ c), shell := none }
  | exit (c) (hl : c ∈ s.live) : Move s (.exit c) { s with
      live := s.live.filter (· ≠ c)
      zombie := c :: s.zombie
      pending := s.pending.or (some c) }
  | sigEnter (hfree : s.Free) : Move s .sigEnter { s with pending := none, handling := s.pending }
  /-- the child is waited for and reported -/
  | reap (c) (hh : s.handling = some c) : Move s .sigWait { s with
      zombie := s.zombie.filter (· ≠ c)
      core := ssCoreActionClear c s.core
      handling := none }
  /-- it has been waited for already -/
  | noChild (c) (hh : s.handling = some c) (hz : c ∉ s.zombie) :
      Move s .sigWait { s with handling := none }

theorem step_move {s s' : Sys H} {l : Lbl} (hst : step s l = some s') : Move s l s' := by
  cases l with
  | main l =>
    obtain ⟨hc, hst⟩ := Option.ite_none_right_eq_some.mp hst
    obtain ⟨core, hcore, rfl⟩ := Option.map_eq_some_iff.mp hst
    exact .main l core hc.1 hc.2 hcore
  | fork c =>
    obtain ⟨hc, rfl⟩ := Option.ite_some_none_eq_some.mp hst
    exact .fork c hc.1 hc.2.2
  | systemBegin c =>
    obtain ⟨hc, rfl⟩ := Option.ite_some_none_eq_some.mp hst
    exact .systemBegin c hc.2.2
  | systemEnd =>
    simp only [step] at hst
    split at hst
    · rename_i c hsh
      split at hst
      · cases hst; exact .systemEnd c hsh
      · cases hst
    · cases hst
  | exit c =>
    obtain ⟨hl, rfl⟩ := Option.ite_some_none_eq_some.mp hst
    exact .exit c hl
  | sigEnter =>
    obtain ⟨hc, rfl⟩ := Option.ite_some_none_eq_some.mp hst
    exact .sigEnter hc.1
  | sigWait =>
    simp only [step, sigChildHandler] at hst
    split at hst
    · cases hst
    · rename_i c hh
      split at hst
      · cases hst
      · split at hst
        · cases hst; exact .reap c hh
        · rename_i hz; cases hst; exact .noChild c hh hz

/-! ## The entries of the queue -/

/-- The states an entry can be in. -/
def Shape (s : Core H) (e : Entry H) : Prop :=
  (e.state = .INIT ∧ e.forkedPid = 0) ∨
  (e.state = .RUNNING ∧ e.forkedPid = 0 ∧ ∃ todo, s.pc = .handler e.id todo) ∨
  (e.state = .RUNNING ∧ 0 < e.forkedPid) ∨
  (e.state = .DONE ∧ e.forkedPid = -1 ∧ ⟨.CLEAR, -1⟩ ∈ s.pipe)

/-- Where the running handler's entry is not concerned, an entry's shape only
depends on the CLEAR -1 in the pipe. -/
theorem Shape.keep {s s' : Core H} {e : Entry H} (h : Shape s e)
    (hpc : ∀ todo, s.pc = .handler e.id todo → ∃ todo', s'.pc = .handler e.id todo')
    (hpipe : e.forkedPid = -1 → ⟨.CLEAR, -1⟩ ∈ s.pipe → (⟨.CLEAR, -1⟩ : PipeMsg) ∈ s'.pipe) :
    Shape s' e := by
  rcases h with h | ⟨h₁, h₂, todo, h₃⟩ | h | ⟨h₁, h₂, h₃⟩
  · exact .inl h
  · exact .inr (.inl ⟨h₁, h₂, hpc todo h₃⟩)
  · exact .inr (.inr (.inl h))
  · exact .inr (.inr (.inr ⟨h₁, h₂, hpipe h₂ h₃⟩))

theorem shape_step {s s' : Core H} {l : RunQueue.Lbl} (hi : Inv s)
    (h : ∀ e ∈ s.runQueue, Shape s e) (hst : RunQueue.step s l = some s') :
    ∀ e ∈ s'.runQueue, Shape s' e := by
  have hno : ∀ {pc : Pc} {e : Entry H}, s.pc = pc → InHandler pc = false → ∀ todo,
      s.pc = .handler e.id todo → False := by
    intro pc e hpc hin todo hpc'
    rw [← hpc, hpc'] at hin; cases hin
  cases step_effect hst with
  | none => exact h
  | announce | sigchld =>
    intro e he
    exact (h e he).keep (fun todo ht => ⟨todo, ht⟩) fun _ hm => List.mem_append_left _ hm
  | add _ act argc argv =>
    intro e he
    rcases List.mem_cons.mp he with rfl | he
    · exact .inl ⟨rfl, rfl⟩
    · exact (h e he).keep (fun todo ht => ⟨todo, ht⟩) fun _ hm => List.mem_append_left _ hm
  | run m rest hpc hm hpipe =>
    intro e he
    refine (h e he).keep (fun todo ht => (hno hpc rfl todo ht).elim) fun _ hin => ?_
    rw [hpipe] at hin
    rcases List.mem_cons.mp hin with rfl | hin
    · cases hm
    · exact hin
  | clear m rest hpc hm hpipe =>
    intro e he
    obtain ⟨he, hne⟩ := List.mem_filter.mp he
    refine (h e he).keep (fun todo ht => (hno hpc rfl todo ht).elim) fun hfp hin => ?_
    rw [hpipe] at hin
    rcases List.mem_cons.mp hin with rfl | hin
    · simp [hfp] at hne
    · exact hin
  | passEnd hpc | skip e todo hpc =>
    exact fun e he => (h e he).keep (fun todo ht => (hno hpc rfl todo ht).elim) fun _ hin => hin
  | invoke e todo hpc he hei =>
    intro x hx
    rcases mem_setEntry.mp hx with ⟨e₀, he₀, hid, rfl⟩ | ⟨hx, hne⟩
    · obtain rfl := hi.id_inj he₀ he hid
      exact .inr (.inl ⟨rfl, (hi.fresh _ he hei).2, todo, rfl⟩)
    · exact (h x hx).keep (fun todo ht => (hno hpc rfl todo ht).elim) fun _ hin => hin
  | done r present id todo hpc =>
    intro x hx
    rcases mem_setEntry.mp hx with ⟨e₀, he₀, hid, rfl⟩ | ⟨hx, hne⟩
    · exact .inr (.inr (.inr ⟨rfl, rfl, List.mem_append_right _ (List.mem_singleton.mpr rfl)⟩))
    · refine (h x hx).keep (fun todo ht => ?_) fun _ hin => List.mem_append_left _ hin
      rw [hpc] at ht; exact absurd (Pc.handler.inj ht).1.symm hne
  | forked r id todo hpc hr =>
    intro x hx
    rcases mem_setEntry.mp hx with ⟨e₀, he₀, hid, rfl⟩ | ⟨hx, hne⟩
    · refine .inr (.inr (.inl ⟨?_, hr⟩))
      -- the handler's own entry is RUNNING
      obtain ⟨hin, hret, -⟩ := hi.running id todo hpc
      rcases h e₀ he₀ with ⟨hi', -⟩ | ⟨hr', -⟩ | ⟨hr', -⟩ | ⟨-, hfp, -⟩
      · exact absurd hin (hid ▸ (hi.fresh e₀ he₀ hi').1)
      · exact hr'
      · exact hr'
      · exact absurd (hi.back e₀ he₀ (by omega)) (hid ▸ hret)
    · refine (h x hx).keep (fun todo ht => ?_) fun _ hin => hin
      rw [hpc] at ht; exact absurd (Pc.handler.inj ht).1.symm hne

/-- A child an entry holds was held before, its CLEAR still in the pipe if it
was, or has just been returned. -/
theorem held_step {s s' : Core H} {l : RunQueue.Lbl} (hst : RunQueue.step s l = some s')
    {e' : Entry H} (he' : e' ∈ s'.runQueue) (hpos : 0 < e'.forkedPid) :
    (∃ e ∈ s.runQueue, e.forkedPid = e'.forkedPid ∧
      (⟨.CLEAR, e'.forkedPid⟩ ∈ s.pipe → (⟨.CLEAR, e'.forkedPid⟩ : PipeMsg) ∈ s'.pipe)) ∨
    l = .ret e'.forkedPid true := by
  cases step_effect hst with
  | none | passEnd | skip => exact .inl ⟨e', he', rfl, id⟩
  | announce | sigchld => exact .inl ⟨e', he', rfl, fun hm => List.mem_append_left _ hm⟩
  | add _ act argc argv =>
    rcases List.mem_cons.mp he' with rfl | he'
    · exact absurd hpos (Int.lt_irrefl 0)
    · exact .inl ⟨e', he', rfl, fun hm => List.mem_append_left _ hm⟩
  | run m rest hpc hm hpipe =>
    refine .inl ⟨e', he', rfl, fun hin => ?_⟩
    rw [hpipe] at hin
    rcases List.mem_cons.mp hin with rfl | hin
    · cases hm
    · exact hin
  | clear m rest hpc hm hpipe =>
    obtain ⟨he', hne⟩ := List.mem_filter.mp he'
    refine .inl ⟨e', he', rfl, fun hin => ?_⟩
    rw [hpipe] at hin
    rcases List.mem_cons.mp hin with rfl | hin
    · simp at hne
    · exact hin
  | invoke e todo hpc he hei =>
    rcases mem_setEntry.mp he' with ⟨e₀, he₀, hid, rfl⟩ | ⟨he', -⟩
    · exact .inl ⟨e₀, he₀, rfl, id⟩
    · exact .inl ⟨e', he', rfl, id⟩
  | done r present id todo hpc =>
    rcases mem_setEntry.mp he' with ⟨e₀, he₀, hid, rfl⟩ | ⟨he', -⟩
    · exact absurd hpos (by decide : ¬ (0 : Int) < -1)
    · exact .inl ⟨e', he', rfl, fun hm => List.mem_append_left _ hm⟩
  | forked r id todo hpc hr =>
    rcases mem_setEntry.mp he' with ⟨e₀, he₀, hid, rfl⟩ | ⟨he', -⟩
    · exact .inr rfl
    · exact .inl ⟨e', he', rfl, fun hm => hm⟩

/-- A child a handler returns is held by the handler's entry. -/
theorem returned_step {s s' : Core H} {r : Int} (hi : Inv s)
    (hst : RunQueue.step s (.ret r true) = some s') (hr : 0 < r) :
    ∃ e ∈ s'.runQueue, e.forkedPid = r := by
  simp only [RunQueue.step, handlerReturns] at hst
  split at hst
  · rename_i id todo hpc
    rw [if_neg (by omega), if_pos trivial] at hst
    cases hst
    obtain ⟨e, he, hid⟩ := List.mem_map.mp (hi.running id todo hpc).2.2
    exact ⟨_, mem_setEntry.mpr (.inl ⟨e, he, hid, rfl⟩), rfl⟩
  · cases hst

/-- A CLEAR for a child is written by the signal handler only. -/
theorem sent_step {s s' : Core H} {l : RunQueue.Lbl} (hst : RunQueue.step s l = some s') {c : Int}
    (hc : 0 < c) (hm : (⟨.CLEAR, c⟩ : PipeMsg) ∈ s'.pipe) : ⟨.CLEAR, c⟩ ∈ s.pipe ∨ l = .sigchld c := by
  cases step_effect hst with
  | none | passEnd | skip | invoke | forked => exact .inl hm
  | announce | add =>
    rcases List.mem_append.mp hm with hm | hm
    · exact .inl hm
    · simp at hm
  | sigchld p =>
    rcases List.mem_append.mp hm with hm | hm
    · exact .inl hm
    · simp only [List.mem_singleton, PipeMsg.mk.injEq, true_and] at hm
      rw [hm]; exact .inr rfl
  | run m rest hpc _ hpipe | clear m rest hpc _ hpipe =>
    rw [hpipe]; exact .inl (List.mem_cons_of_mem _ hm)
  | done =>
    rcases List.mem_append.mp hm with hm | hm
    · exact .inl hm
    · simp only [List.mem_singleton, PipeMsg.mk.injEq, true_and] at hm
      omega

/-- An entry that holds a child stays until the child's CLEAR is read. -/
theorem stays_step {s s' : Core H} {l : RunQueue.Lbl} (hi : Inv s)
    (hst : RunQueue.step s l = some s') {e : Entry H} (he : e ∈ s.runQueue)
    (hpos : 0 < e.forkedPid) (hno : ⟨.CLEAR, e.forkedPid⟩ ∉ s.pipe) :
    ∃ e' ∈ s'.runQueue, e'.forkedPid = e.forkedPid := by
  have hother : ∀ {id todo} (f : Entry H → Entry H), s.pc = .handler id todo →
      e ∈ (setEntry id f { s with pc := .pass todo, returned := s.returned ++ [id] }).runQueue := by
    intro id todo f hpc
    -- the handler's own entry holds no child yet
    refine mem_setEntry.mpr (.inr ⟨he, ?_⟩)
    rintro rfl
    exact (hi.running _ todo hpc).2.1 (hi.back e he (by omega))
  cases step_effect hst with
  | none | announce | sigchld | run | passEnd | skip => exact ⟨e, he, rfl⟩
  | add => exact ⟨e, List.mem_cons_of_mem _ he, rfl⟩
  | clear m rest hpc hm hpipe =>
    refine ⟨e, List.mem_filter.mpr ⟨he, ?_⟩, rfl⟩
    simp only [ne_eq, decide_not, Bool.not_eq_true', decide_eq_false_iff_not]
    intro hp
    obtain ⟨t, p⟩ := m
    simp only at hm hp; subst hm; subst hp
    exact hno (by rw [hpipe]; exact List.mem_cons_self)
  | invoke e₀ todo hpc he₀ hei =>
    by_cases hid : e.id = e₀.id
    · exact ⟨_, mem_setEntry.mpr (.inl ⟨e, he, hid, rfl⟩), rfl⟩
    · exact ⟨e, mem_setEntry.mpr (.inr ⟨he, hid⟩), rfl⟩
  | done r present id todo hpc => exact ⟨e, hother _ hpc, rfl⟩
  | forked r id todo hpc hr => exact ⟨e, hother _ hpc, rfl⟩

/-! ## The children -/

structure Kids (s : Sys H) : Prop where
  core : Inv s.core
  shape : ∀ e ∈ s.core.runQueue, Shape s.core e
  pos : ∀ c ∈ s.forked, 0 < c
  live : ∀ c ∈ s.live, c ∈ s.forked
  dead : ∀ c ∈ s.zombie, c ∈ s.forked ∧ c ∉ s.live
  mine : ∀ c ∈ s.mine, c ∈ s.forked
  held : ∀ e ∈ s.core.runQueue, 0 < e.forkedPid → e.forkedPid ∈ s.forked
  shell : ∀ c, s.shell = some c →
    c ∈ s.forked ∧ c ∉ s.mine ∧ ∀ e ∈ s.core.runQueue, e.forkedPid ≠ c
  sent : ∀ c, 0 < c → ⟨.CLEAR, c⟩ ∈ s.core.pipe → c ∈ s.forked ∧ c ∉ s.live ∧ c ∉ s.zombie
  pending : ∀ c, s.pending = some c → c ∈ s.forked ∧ c ∉ s.live
  handling : ∀ c, s.handling = some c → c ∈ s.forked ∧ c ∉ s.live

theorem kids_init {s : Sys H} (h : Init s) : Kids s := by
  obtain ⟨hcore, hl, hz, hf, hm, hp, hh, hs⟩ := h
  refine ⟨inv_init hcore, ?_, ?_, ?_, ?_, ?_, ?_, ?_, ?_, ?_, ?_⟩ <;>
    simp [hl, hz, hf, hm, hp, hh, hs, hcore.runQueue, hcore.pipe]

theorem kids_main {s : Sys H} {l : RunQueue.Lbl} {core : Core H} (h : Kids s) (hfree : s.Free)
    (hal : Allowed s l) (hcore : RunQueue.step s.core l = some core) :
    Kids { s with core := core, mine := mineAfter s l } := by
  have hmine : ∀ c ∈ mineAfter s l, c ∈ s.mine := by
    intro c hc
    cases l with
    | ret r present => cases hc
    | call | callInternal | sigchld | deliver | visit => exact hc
  refine ⟨inv_step h.core hcore, shape_step h.core h.shape hcore, h.pos, h.live, h.dead,
    fun c hc => h.mine c (hmine c hc), ?_, ?_, ?_, h.pending, h.handling⟩
  · intro e he hpos
    rcases held_step hcore he hpos with ⟨e₀, he₀, hfp, -⟩ | rfl
    · rw [← hfp]; exact h.held e₀ he₀ (by omega)
    · rcases hal.1 with hr | hr
      · omega
      · exact h.mine _ hr
  · intro c hc; rw [hfree.2] at hc; cases hc
  · intro c hc hm
    rcases sent_step hcore hc hm with hm | rfl
    · exact h.sent c hc hm
    · exact hal.elim

/-- A new child: nobody has heard of it. -/
theorem kids_child {s : Sys H} (h : Kids s) {c : Int} (hc : Fresh s c) :
    Kids { s with live := c :: s.live, forked := c :: s.forked } := by
  have hnot : ∀ {x}, x ∈ s.forked → x ∉ s.live → x ∉ c :: s.live := by
    intro x hf hl
    refine List.not_mem_cons_of_ne_of_not_mem ?_ hl
    rintro rfl; exact hc.2 hf
  have hold : ∀ {x}, x ∈ s.forked → x ∈ c :: s.forked := fun hx => List.mem_cons_of_mem _ hx
  refine ⟨h.core, h.shape, ?_, ?_, ?_, fun x hx => hold (h.mine x hx),
    fun e he hp => hold (h.held e he hp), ?_, ?_, ?_, ?_⟩
  · intro x hx
    rcases List.mem_cons.mp hx with rfl | hx
    · exact hc.1
    · exact h.pos x hx
  · intro x hx
    rcases List.mem_cons.mp hx with rfl | hx
    · exact List.mem_cons_self
    · exact hold (h.live x hx)
  · intro x hx
    obtain ⟨hf, hl⟩ := h.dead x hx
    exact ⟨hold hf, hnot hf hl⟩
  · intro x hx
    obtain ⟨hf, hm, he⟩ := h.shell x hx
    exact ⟨hold hf, hm, he⟩
  · intro x hx hm
    obtain ⟨hf, hl, hz⟩ := h.sent x hx hm
    exact ⟨hold hf, hnot hf hl, hz⟩
  · intro x hx
    obtain ⟨hf, hl⟩ := h.pending x hx
    exact ⟨hold hf, hnot hf hl⟩
  · intro x hx
    obtain ⟨hf, hl⟩ := h.handling x hx
    exact ⟨hold hf, hnot hf hl⟩

theorem kids_exit {s : Sys H} (h : Kids s) {c : Int} (hc : c ∈ s.live) :
    Kids { s with
      live := s.live.filter (· ≠ c)
      zombie := c :: s.zombie
      pending := s.pending.or (some c) } := by
  have hsub : ∀ {x}, x ∉ s.live → x ∉ s.live.filter (· ≠ c) := fun hx hin =>
    hx (List.mem_of_mem_filter hin)
  have hgone : c ∉ s.live.filter (· ≠ c) := by simp
  exact {
    h with
    live := fun x hx => h.live x (List.mem_of_mem_filter hx)
    dead := by
      intro x hx
      rcases List.mem_cons.mp hx with rfl | hx
      · exact ⟨h.live _ hc, hgone⟩
      · exact ⟨(h.dead x hx).1, hsub (h.dead x hx).2⟩
    sent := by
      intro x hx hm
      obtain ⟨hf, hl, hz⟩ := h.sent x hx hm
      refine ⟨hf, hsub hl, List.not_mem_cons_of_ne_of_not_mem ?_ hz⟩
      rintro rfl; exact hl hc
    pending := by
      intro x hx
      cases hp : s.pending with
      | none =>
        rw [hp] at hx; cases hx; exact ⟨h.live _ hc, hgone⟩
      | some y =>
        rw [hp] at hx; cases hx; exact ⟨(h.pending _ hp).1, hsub (h.pending _ hp).2⟩
    handling := fun x hx => ⟨(h.handling x hx).1, hsub (h.handling x hx).2⟩ }

/-- A zombie is waited for. -/
theorem kids_wait {s : Sys H} (h : Kids s) (c : Int) :
    Kids { s with zombie := s.zombie.filter (· ≠ c) } :=
  { h with
    dead := fun x hx => h.dead x (List.mem_of_mem_filter hx)
    sent := fun x hx hm =>
      ⟨(h.sent x hx hm).1, (h.sent x hx hm).2.1, fun hz =>
        (h.sent x hx hm).2.2 (List.mem_of_mem_filter hz)⟩ }

theorem kids_report {s : Sys H} (h : Kids s) {c : Int} (hf : c ∈ s.forked) (hl : c ∉ s.live)
    (hz : c ∉ s.zombie) : Kids { s with core := ssCoreActionClear c s.core, handling := none } := by
  have hstep : RunQueue.step s.core (.sigchld c) = some (ssCoreActionClear c s.core) :=
    if_pos (h.pos c hf)
  exact {
    h with
    core := inv_step h.core hstep
    shape := shape_step h.core h.shape hstep
    sent := by
      intro x hx hm
      rcases sent_step hstep hx hm with hm | heq
      · exact h.sent x hx hm
      · cases heq; exact ⟨hf, hl, hz⟩
    handling := fun x hx => nomatch hx }

theorem kids_step {s s' : Sys H} {l : Lbl} (h : Kids s) (hst : step s l = some s') : Kids s' := by
  cases step_move hst with
  | main l core hfree hal hcore => exact kids_main h hfree hal hcore
  | fork c hfree hc =>
    have hk := kids_child h hc
    refine { hk with mine := ?_, shell := fun x hx => ?_ }
    · intro x hx
      split at hx
      · rcases List.mem_cons.mp hx with rfl | hx
        · exact List.mem_cons_self
        · exact hk.mine x hx
      · exact hk.mine x hx
    · rw [show s.shell = none from hfree.2] at hx; cases hx
  | systemBegin c hc =>
    refine { kids_child h hc with shell := fun x hx => ?_ }
    cases hx
    refine ⟨List.mem_cons_self, fun hm => hc.2 (h.mine c hm), fun e he hfp => ?_⟩
    exact hc.2 (hfp ▸ h.held e he (hfp ▸ hc.1))
  | systemEnd c hsh => exact { kids_wait h c with shell := fun x hx => nomatch hx }
  | exit c hl => exact kids_exit h hl
  | sigEnter hfree => exact { h with pending := fun x hx => (nomatch hx), handling := h.pending }
  | reap c hh =>
    obtain ⟨hf, hl⟩ := h.handling c hh
    exact kids_report (kids_wait h c) hf hl (by simp)
  | noChild c hh hz => exact { h with handling := fun x hx => nomatch hx }

theorem kids_inductive : (sys H).Inductive Kids := ⟨fun _ => kids_init, fun _ _ _ => kids_step⟩

/-- Under the children and the signals, the daemon's queue is the one of
`RunQueue`. -/
theorem core_reachable {s : Sys H} (h : (sys H).Reachable s) : (lts H).Reachable s.core := by
  refine h.map Sys.core (fun _ (h₀ : Init _) => h₀.core) fun s l s' hr hst => ?_
  cases step_move hst with
  | main l core hfree hal hcore => exact .inr ⟨l, hcore⟩
  | reap c hh =>
    have hk := kids_inductive.reachable hr
    exact .inr ⟨.sigchld c, if_pos (hk.pos c (hk.handling c hh).1)⟩
  | fork | systemBegin | systemEnd | exit | sigEnter | noChild => exact .inl rfl

/-! ## Entries whose child is alive or will be reported -/

/-- No child an entry holds exits while a SIGCHLD is pending, and no handler
returns a zombie whose SIGCHLD is gone. -/
def KeepsSigchld (s : Sys H) : Lbl → Prop
  | .exit c => s.pending = none ∨ ∀ e ∈ s.core.runQueue, e.forkedPid ≠ c
  | .main (.ret r _) => 0 < r → r ∈ s.zombie → s.pending = some r
  | _ => True

/-- The child `c` is alive, or its end is on its way to the queue. -/
def Coming (s : Sys H) (c : Int) : Prop :=
  c ∈ s.live ∨ (c ∈ s.zombie ∧ (s.pending = some c ∨ s.handling = some c)) ∨
    ⟨.CLEAR, c⟩ ∈ s.core.pipe

structure Tracked (s : Sys H) : Prop where
  kids : Kids s
  coming : ∀ e ∈ s.core.runQueue, 0 < e.forkedPid → Coming s e.forkedPid

theorem coming_main {s : Sys H} {l : RunQueue.Lbl} {core : Core H} (h : Tracked s)
    (hc : KeepsSigchld s (.main l)) (hal : Allowed s l)
    (hcore : RunQueue.step s.core l = some core) {e : Entry H} (he : e ∈ core.runQueue)
    (hpos : 0 < e.forkedPid) :
    Coming { s with core := core, mine := mineAfter s l } e.forkedPid := by
  rcases held_step hcore he hpos with ⟨e₀, he₀, hfp, hpipe⟩ | rfl
  · have hcom := h.coming e₀ he₀ (by omega)
    rw [hfp] at hcom
    rcases hcom with hl | hz | hm
    · exact .inl hl
    · exact .inr (.inl hz)
    · exact .inr (.inr (hpipe hm))
  · -- the child that was just returned
    have hpres : e.forkedPid ∈ s.live ∨ e.forkedPid ∈ s.zombie := by
      simpa using hal.2.symm
    rcases hpres with hl | hz
    · exact .inl hl
    · exact .inr (.inl ⟨hz, .inl (hc hpos hz)⟩)

theorem tracked_step : (sys H).Guarded KeepsSigchld Tracked := by
  intro s l s' h hc hst
  refine ⟨kids_step h.kids hst, ?_⟩
  intro e he hpos
  cases step_move hst with
  | main l core hfree hal hcore => exact coming_main h hc hal hcore he hpos
  | fork c | systemBegin c => exact (h.coming e he hpos).imp (List.mem_cons_of_mem _) id
  | systemEnd c hsh =>
    refine (h.coming e he hpos).imp id (Or.imp (And.imp_left fun hz => ?_) id)
    exact List.mem_filter.mpr ⟨hz, by simpa using (h.kids.shell c hsh).2.2 e he⟩
  | exit c hlive =>
    rcases h.coming e he hpos with hl | ⟨hz, hp | hp⟩ | hm
    · by_cases hec : e.forkedPid = c
      · -- the entry's own child: its SIGCHLD is the one that is kept
        have hp : s.pending = none := hc.resolve_right fun hall => hall e he hec
        refine .inr (.inl ⟨by rw [hec]; exact List.mem_cons_self, .inl ?_⟩)
        simp [hp, hec]
      · exact .inl (List.mem_filter.mpr ⟨hl, by simpa using hec⟩)
    · exact .inr (.inl ⟨List.mem_cons_of_mem _ hz, .inl (by simp [hp])⟩)
    · exact .inr (.inl ⟨List.mem_cons_of_mem _ hz, .inr hp⟩)
    · exact .inr (.inr hm)
  | sigEnter hfree =>
    rcases h.coming e he hpos with hl | ⟨hz, hp | hp⟩ | hm
    · exact .inl hl
    · exact .inr (.inl ⟨hz, .inr hp⟩)
    · rw [hfree.1] at hp; cases hp
    · exact .inr (.inr hm)
  | reap c hh =>
    rcases h.coming e he hpos with hl | ⟨hz, hp⟩ | hm
    · exact .inl hl
    · by_cases hec : e.forkedPid = c
      · rw [hec]; exact .inr (.inr (List.mem_append_right _ (List.mem_singleton.mpr rfl)))
      · refine .inr (.inl ⟨List.mem_filter.mpr ⟨hz, by simpa using hec⟩, .inl ?_⟩)
        refine hp.resolve_right fun hp => hec ?_
        exact Option.some.inj (hp.symm.trans hh)
    · exact .inr (.inr (List.mem_append_left _ hm))
  | noChild c hh hnz =>
    rcases h.coming e he hpos with hl | ⟨hz, hp | hp⟩ | hm
    · exact .inl hl
    · exact .inr (.inl ⟨hz, .inl hp⟩)
    · rw [hh] at hp; cases hp; exact absurd hz hnz
    · exact .inr (.inr hm)

/-! ## Entries left behind -/

/-- An entry holds a zombie nobody will wait for. -/
def Stale (s : Sys H) : Prop :=
  ∃ e ∈ s.core.runQueue, 0 < e.forkedPid ∧ e.forkedPid ∈ s.zombie ∧
    s.pending ≠ some e.forkedPid ∧ s.handling ≠ some e.forkedPid

theorem stale_step {s s' : Sys H} {l : Lbl} (h : Kids s) (hd : Stale s)
    (hst : step s l = some s') : Stale s' := by
  obtain ⟨e, he, hpos, hz, hp, hh⟩ := hd
  cases step_move hst with
  | main l core hfree hal hcore =>
    obtain ⟨e', he', hfp⟩ := stays_step h.core hcore he hpos fun hm => (h.sent _ hpos hm).2.2 hz
    rw [← hfp] at hpos hz hp hh
    exact ⟨e', he', hpos, hz, hp, hh⟩
  | fork c | systemBegin c => exact ⟨e, he, hpos, hz, hp, hh⟩
  | systemEnd c hsh =>
    refine ⟨e, he, hpos, List.mem_filter.mpr ⟨hz, ?_⟩, hp, hh⟩
    simpa using (h.shell c hsh).2.2 e he
  | exit c hl =>
    refine ⟨e, he, hpos, List.mem_cons_of_mem _ hz, ?_, hh⟩
    cases hpe : s.pending with
    | none =>
      simp only [Option.or_some, ne_eq, Option.some.injEq]
      rintro rfl; exact (h.dead _ hz).2 hl
    | some y => rw [hpe] at hp; exact hp
  | sigEnter hfree => exact ⟨e, he, hpos, hz, fun hn => (nomatch hn), hp⟩
  | reap c hc =>
    refine ⟨e, he, hpos, List.mem_filter.mpr ⟨hz, ?_⟩, hp, fun hn => nomatch hn⟩
    simp only [ne_eq, decide_not, Bool.not_eq_true', decide_eq_false_iff_not]
    rintro rfl; exact hh hc
  | noChild c hc => exact ⟨e, he, hpos, hz, hp, fun hn => nomatch hn⟩

theorem stale_of_lost {s s' : Sys H} {l : Lbl} (h : Kids s) (hc : ¬ KeepsSigchld s l)
    (hst : step s l = some s') : Stale s' := by
  cases step_move hst with
  | main l core hfree hal hcore =>
    cases l with
    | ret r present =>
      simp only [KeepsSigchld, Classical.not_imp] at hc
      obtain ⟨hr, hz, hp⟩ := hc
      obtain rfl : present = true := by rw [hal.2]; simp [hz]
      obtain ⟨e, he, rfl⟩ := returned_step h.core hcore hr
      refine ⟨e, he, hr, hz, hp, ?_⟩
      simp [hfree.1]
    | call | callInternal | sigchld | deliver | visit => exact absurd trivial hc
  | exit c hl =>
    simp only [KeepsSigchld, not_or, not_forall, ne_eq, not_not, exists_prop] at hc
    obtain ⟨hp, e, he, rfl⟩ := hc
    refine ⟨e, he, h.pos _ (h.live _ hl), List.mem_cons_self, ?_, ?_⟩
    · obtain ⟨y, hy⟩ := Option.ne_none_iff_exists'.mp hp
      rw [hy]
      rintro heq
      cases heq
      exact (h.pending _ hy).2 hl
    · exact fun hh => (h.handling _ hh).2 hl
  | fork | systemBegin | systemEnd | sigEnter | reap | noChild => exact absurd trivial hc

/-! ## Runs -/

/-- Nothing is on its way: the pipe is empty and no SIGCHLD is pending or
being handled. -/
def Quiescent (s : Sys H) : Prop := s.core.pipe = [] ∧ s.pending = none ∧ s.handling = none

/-- The handler of `e` is being run, or will be by the pass under way. -/
def UnderWay (s : Core H) (e : Entry H) : Prop :=
  (e.state = .RUNNING ∧ e.forkedPid = 0 ∧ ∃ todo, s.pc = .handler e.id todo) ∨
  (e.state = .INIT ∧ ∃ todo, s.pc = .pass todo ∧ e.id ∈ todo)

theorem not_underWay {s : Core H} (h : s.pc = .idle) (e : Entry H) : ¬ UnderWay s e := by
  rintro (⟨-, -, todo, hpc⟩ | ⟨-, todo, hpc, -⟩)
  · rw [h] at hpc; cases hpc
  · rw [h] at hpc; cases hpc

/-- Every entry left is RUNNING with a child that has not terminated. -/
def NoStale (s : Sys H) : Prop :=
  ∀ e ∈ s.core.runQueue, (e.state = .RUNNING ∧ e.forkedPid ∈ s.live) ∨ UnderWay s.core e

theorem Tracked.noStale {s : Sys H} (h : Tracked s) (hq : Quiescent s) : NoStale s := by
  obtain ⟨hpipe, hp, hh⟩ := hq
  intro e he
  rcases h.kids.shape e he with ⟨hst, -⟩ | hrun | ⟨hst, hpos⟩ | ⟨-, -, hm⟩
  · rcases h.kids.core.announced he hst with ⟨m, hm, -⟩ | htodo
    · rw [hpipe] at hm; cases hm
    · exact .inr (.inr ⟨hst, htodo⟩)
  · exact .inr (.inl hrun)
  · rcases h.coming e he hpos with hl | ⟨-, hz | hz⟩ | hm
    · exact .inl ⟨hst, hl⟩
    · rw [hp] at hz; cases hz
    · rw [hh] at hz; cases hz
    · rw [hpipe] at hm; cases hm
  · rw [hpipe] at hm; cases hm

theorem Stale.not_noStale {s : Sys H} (h : Kids s) (hd : Stale s) : ¬ NoStale s := by
  obtain ⟨e, he, hpos, hz, -, -⟩ := hd
  intro hn
  rcases hn e he with ⟨-, hl⟩ | ⟨-, h0, -⟩ | ⟨hst, -⟩
  · exact (h.dead _ hz).2 hl
  · omega
  · have := (h.core.fresh e he hst).2; omega

/-- **No stale entry.** In a state a run reaches with an empty pipe and no
SIGCHLD pending or being handled, every entry of the queue is RUNNING with a
living child (or its handler is yet to be called or to return), if and only
if every step of the run kept the SIGCHLD of the children entries hold. -/
theorem no_stale_iff (H : Type) (s₀ s : Sys H) (ls : List Lbl) (h₀ : Init s₀)
    (hr : (sys H).run s₀ ls = some s) (hq : Quiescent s) :
    NoStale s ↔ (sys H).Meets KeepsSigchld s₀ ls := by
  constructor
  · intro hn
    refine LTS.meets_of_run (I := Kids) (D := Stale) (fun _ _ _ => kids_step)
      (fun _ _ _ => stale_of_lost) (fun _ _ _ => stale_step) (kids_init h₀) hr fun hd => ?_
    exact hd.not_noStale (kids_inductive.run (kids_init h₀) hr) hn
  · intro hm
    have ht : Tracked s₀ := by
      refine ⟨kids_init h₀, fun e he => ?_⟩
      rw [h₀.core.runQueue] at he; cases he
    exact (tracked_step.run ht hm hr).noStale hq

def bootSys (acts : List (ActionEntry H)) : Sys H := ⟨boot acts, [], [], [], [], none, none, none⟩

theorem init_bootSys (acts : List (ActionEntry H)) : Init (bootSys acts) :=
  ⟨init_boot acts, rfl, rfl, rfl, rfl, rfl, rfl, rfl⟩

/-- One handler that forks child 101, which exits. -/
def oneChild : List Lbl := [.main (request "call"), .main .deliver, .main .visit, .fork 101,
  .main (.ret 101 true), .main .visit, .exit 101, .sigEnter, .sigWait, .main .deliver]

theorem no_stale_oneChild : ∃ s, (sys Unit).run (bootSys [anAction "call"]) oneChild = some s ∧
    s.core.runQueue.length = 0 ∧
    (NoStale s ↔ (sys Unit).Meets KeepsSigchld (bootSys [anAction "call"]) oneChild) :=
  ⟨_, rfl, rfl, no_stale_iff Unit _ _ oneChild (init_bootSys _) rfl ⟨rfl, rfl, rfl⟩⟩

/-- Children 101 and 102 of two entries exit before the first SIGCHLD is
delivered. -/
def twoChildren : List Lbl :=
  [.main (request "call"), .main .deliver, .main .visit, .fork 101, .main (.ret 101 true),
    .main .visit, .main (request "call"), .main .deliver, .main .visit, .fork 102,
    .main (.ret 102 true), .main .visit, .main .visit,
    .exit 101, .exit 102, .sigEnter, .sigWait, .main .deliver]

theorem merged_sigchld : ∃ s, (sys Unit).run (bootSys [anAction "call"]) twoChildren = some s ∧
    Quiescent s ∧ s.core.pc = .idle ∧ s.core.runQueue.map Entry.forkedPid = [102] ∧
    s.zombie = [102] ∧ ¬ NoStale s := by
  refine ⟨_, rfl, ⟨rfl, rfl, rfl⟩, rfl, rfl, rfl, fun hn => ?_⟩
  rcases hn _ (List.mem_singleton.mpr rfl) with ⟨-, hl⟩ | hu
  · cases hl
  · exact not_underWay rfl _ hu

end SystemServer.L3.Sigchld
