import Mathlib.Data.List.Nodup
import SystemServer.L2Queue.RunQueue

/-!
# Every accepted request is run exactly once

`Inv` ties the run queue, the messages in flight and the position of the
main loop together:

* an entry that is still INIT has not been invoked and has `forked_pid` 0;
* there are at least as many undelivered RUNs as INIT entries (`budget`),
  except in a pass that has not called a handler yet: it has taken one RUN
  out of the pipe, and all INIT entries are ahead of it;
* no CLEAR in the pipe names pid 0, so a CLEAR only removes entries whose
  handler has returned (`clear_removes`);
* every entry ever added has been invoked or is still queued as INIT;
* the entries a pass has yet to visit are a sublist of the queue, so a pass
  never visits a node that is gone (`visit_enabled`); nor is the entry gone
  whose handler runs.

`run_data` follows one entry: the handler and the arguments it was made with
are those it has whenever it is run.

`exactly_once` puts the consequences together for every reachable state:
no handler is invoked twice, no CLEAR removes an entry too early, and once
the pipe is empty every accepted request has been run exactly once.
-/
namespace SystemServer.L2.ExactlyOnce

open SystemServer.L2.RunQueue

variable {H : Type}

/-- The entries waiting for their handler. -/
def inits (s : Core H) : Nat := s.runQueue.countP (·.state = .INIT)

/-- The undelivered RUN messages. -/
def runs (s : Core H) : Nat := s.pipe.countP (·.type = .RUN)

structure Inv (s : Core H) : Prop where
  sorted : (s.runQueue.map Entry.id).Pairwise (· > ·)
  nodup : s.invoked.Nodup
  accounted : ∀ i, i < s.nextId ↔
    i ∈ s.invoked ∨ ∃ e ∈ s.runQueue, e.id = i ∧ e.state = .INIT
  lt : ∀ e ∈ s.runQueue, e.id < s.nextId
  fresh : ∀ e ∈ s.runQueue, e.state = .INIT → e.id ∉ s.invoked ∧ e.forkedPid = 0
  back : ∀ e ∈ s.runQueue, e.forkedPid ≠ 0 → e.id ∈ s.returned
  budget : inits s ≤ runs s ∨ inits s ≤ runs s + 1 ∧
    ∃ todo, s.pc = .pass todo ∧ ∀ e ∈ s.runQueue, e.state = .INIT → e.id ∈ todo
  clear : ∀ m ∈ s.pipe, m.type = .CLEAR → m.pid ≠ 0
  todo : s.pc.todo.Sublist (s.runQueue.map Entry.id)
  running : ∀ id todo, s.pc = .handler id todo →
    id ∈ s.invoked ∧ id ∉ s.returned ∧ id ∈ s.runQueue.map Entry.id
  returned : ∀ i ∈ s.returned, i ∈ s.invoked

theorem inv_init {s : Core H} (h : Init s) : Inv s := by
  obtain ⟨hq, hp, hpc, hn, hi, hr⟩ := h
  refine ⟨?_, ?_, ?_, ?_, ?_, ?_, ?_, ?_, ?_, ?_, ?_⟩ <;>
    simp [hq, hp, hpc, hn, hi, hr, Pc.todo, inits]

/-- Ids are unique: the queue is sorted by them. -/
theorem Inv.id_inj {s : Core H} (h : Inv s) {e e' : Entry H} (he : e ∈ s.runQueue)
    (he' : e' ∈ s.runQueue) (hid : e.id = e'.id) : e = e' := by
  have hnd : (s.runQueue.map Entry.id).Nodup := h.sorted.imp fun hgt => Nat.ne_of_gt hgt
  exact List.inj_on_of_nodup_map hnd he he' hid

/-! ## Updating one entry -/

@[simp] theorem setEntry_ids (id : Nat) (f : Entry H → Entry H) (hf : ∀ e, (f e).id = e.id)
    (s : Core H) : (setEntry id f s).runQueue.map Entry.id = s.runQueue.map Entry.id := by
  simp only [setEntry, List.map_map]
  refine List.map_congr_left fun e _ => ?_
  simp only [Function.comp]
  split
  · exact hf e
  · rfl

theorem mem_setEntry {id : Nat} {f : Entry H → Entry H} {s : Core H} {e : Entry H} :
    e ∈ (setEntry id f s).runQueue ↔
      (∃ e₀ ∈ s.runQueue, e₀.id = id ∧ e = f e₀) ∨ (e ∈ s.runQueue ∧ e.id ≠ id) := by
  simp only [setEntry, List.mem_map]
  constructor
  · rintro ⟨e₀, he₀, rfl⟩
    by_cases hid : e₀.id = id
    · exact .inl ⟨e₀, he₀, hid, if_pos hid⟩
    · rw [if_neg hid]; exact .inr ⟨he₀, hid⟩
  · rintro (⟨e₀, he₀, hid, rfl⟩ | ⟨he, hid⟩)
    · exact ⟨e₀, he₀, if_pos hid⟩
    · exact ⟨e, he, if_neg hid⟩

/-! ## Counting -/

theorem runs_send (s : Core H) (m : PipeMsg) :
    runs { s with pipe := s.pipe ++ [m] } = runs s + if m.type = .RUN then 1 else 0 := by
  simp [runs, List.countP_append, List.countP_cons]

theorem runs_take {s : Core H} {m : PipeMsg} {rest : List PipeMsg} (hpipe : s.pipe = m :: rest) :
    runs s = rest.countP (·.type = .RUN) + if m.type = .RUN then 1 else 0 := by
  simp [runs, hpipe, List.countP_cons]

theorem inits_setEntry_le (id : Nat) (f : Entry H → Entry H)
    (hst : ∀ e, (f e).state = .INIT → e.state = .INIT) (s : Core H) :
    inits (setEntry id f s) ≤ inits s := by
  simp only [inits, setEntry, List.countP_map]
  refine List.countP_mono_left fun e _ he => ?_
  simp only [Function.comp, decide_eq_true_eq] at he ⊢
  split at he
  · exact hst e he
  · exact he

/-- Calling a handler leaves one INIT entry less. -/
theorem inits_callHandler {s : Core H} {e : Entry H} (he : e ∈ s.runQueue) (hst : e.state = .INIT)
    (todo : List Nat) : inits (callHandler e.id todo s) < inits s := by
  simp only [inits, callHandler, setEntry]
  obtain ⟨l₁, l₂, hq⟩ := List.append_of_mem he
  have hle := inits_setEntry_le e.id (fun x : Entry H => { x with state := .RUNNING })
    (fun _ hr => nomatch hr)
  have h₁ := hle { s with runQueue := l₁ }
  have h₂ := hle { s with runQueue := l₂ }
  simp only [inits, setEntry] at h₁ h₂
  simp only [hq, List.map_append, List.map_cons, if_true, List.countP_append, List.countP_cons, hst,
    decide_true, reduceCtorEq, decide_false, Bool.false_eq_true, if_false]
  omega

/-- An INIT entry is one of `inits`. -/
theorem inits_pos {s : Core H} {e : Entry H} (he : e ∈ s.runQueue) (hst : e.state = .INIT) :
    0 < inits s := List.countP_pos_iff.mpr ⟨e, he, by simpa using hst⟩

/-- An INIT entry is announced, or ahead of the pass under way. -/
theorem Inv.announced {s : Core H} (h : Inv s) {e : Entry H} (he : e ∈ s.runQueue)
    (hst : e.state = .INIT) :
    (∃ m ∈ s.pipe, m.type = .RUN) ∨ ∃ todo, s.pc = .pass todo ∧ e.id ∈ todo := by
  rcases h.budget with hb | ⟨-, todo, hpc, hall⟩
  · have hpos : 0 < runs s := Nat.lt_of_lt_of_le (inits_pos he hst) hb
    obtain ⟨m, hm, ht⟩ := List.countP_pos_iff.mp hpos
    exact .inl ⟨m, hm, by simpa using ht⟩
  · exact .inr ⟨todo, hpc, hall e he hst⟩

/-! ## What each step keeps -/

/-- A message other than CLEAR 0 does no harm. -/
theorem inv_send {s : Core H} (h : Inv s) (m : PipeMsg) (hm : m.type = .CLEAR → m.pid ≠ 0) :
    Inv { s with pipe := s.pipe ++ [m] } where
  __ := h
  budget := by
    rw [runs_send]
    rcases h.budget with hb | ⟨hb, hall⟩
    · exact .inl (Nat.le_add_right_of_le hb)
    · exact .inr ⟨by change inits s ≤ _; omega, hall⟩
  clear m' hm' ht := by
    rcases List.mem_append.mp hm' with hm' | hm'
    · exact h.clear m' hm' ht
    · rw [List.mem_singleton.mp hm'] at ht ⊢; exact hm ht

theorem inv_added {s : Core H} (h : Inv s) (hpc : s.pc.InCode) (act : ActionEntry H) (argc : Int)
    (argv : List CPtr) : Inv (added act argc argv s) := by
  have hnew : s.nextId ∉ s.invoked := fun hin =>
    Nat.lt_irrefl _ ((h.accounted s.nextId).mpr (.inl hin))
  refine ⟨?_, h.nodup, ?_, ?_, ?_, ?_, ?_, ?_, ?_, fun id todo hpc => ?_, h.returned⟩
  · refine List.pairwise_cons.mpr ⟨fun i hi => ?_, h.sorted⟩
    obtain ⟨e, he, rfl⟩ := List.mem_map.mp hi
    exact h.lt e he
  · intro i
    simp only [added, ssRunQueueAdd, ssCoreActionRun, List.mem_cons]
    have hacc := h.accounted i
    constructor
    · intro hi
      rcases Nat.lt_succ_iff_lt_or_eq.mp hi with hi | rfl
      · rcases hacc.mp hi with hin | ⟨e, he, hid, hst⟩
        · exact .inl hin
        · exact .inr ⟨e, .inr he, hid, hst⟩
      · exact .inr ⟨_, .inl rfl, rfl, rfl⟩
    · rintro (hin | ⟨e, rfl | he, rfl, hst⟩)
      · have := hacc.mpr (.inl hin); omega
      · exact Nat.lt_succ_self _
      · have := hacc.mpr (.inr ⟨e, he, rfl, hst⟩); omega
  · intro e he
    rcases List.mem_cons.mp he with rfl | he
    · exact Nat.lt_succ_self _
    · exact Nat.lt_succ_of_lt (h.lt e he)
  · intro e he hst
    rcases List.mem_cons.mp he with rfl | he
    · exact ⟨hnew, rfl⟩
    · exact h.fresh e he hst
  · intro e he hfp
    rcases List.mem_cons.mp he with rfl | he
    · exact absurd rfl hfp
    · exact h.back e he hfp
  · -- one more entry, one more RUN
    have hinits : inits (added act argc argv s) = inits s + 1 := by
      simp [inits, added, ssRunQueueAdd, ssCoreActionRun]
    have hruns : runs (added act argc argv s) = runs s + 1 := by
      simp [runs, added, ssRunQueueAdd, ssCoreActionRun, List.countP_append]
    rw [hinits, hruns]
    rcases h.budget with hb | ⟨-, todo, htodo, -⟩
    · exact .inl (Nat.succ_le_succ hb)
    · rw [htodo] at hpc; exact hpc.elim
  · exact (inv_send h ⟨.RUN, 0⟩ fun ht => by cases ht).clear
  · exact h.todo.trans (List.sublist_cons_self _ _)
  · obtain ⟨hin, hret, hid⟩ := h.running id todo hpc
    exact ⟨hin, hret, List.mem_cons_of_mem _ hid⟩

theorem inv_run {s : Core H} (h : Inv s) {m : PipeMsg} {rest : List PipeMsg} (hpc : s.pc = .idle)
    (hm : m.type = .RUN) (hpipe : s.pipe = m :: rest) :
    Inv (ssRunQueueRun { s with pipe := rest }) where
  __ := h
  budget := by
    refine .inr ⟨?_, _, rfl, fun e he _ => List.mem_map.mpr ⟨e, he, rfl⟩⟩
    have hruns := runs_take hpipe
    rw [if_pos hm] at hruns
    rcases h.budget with hb | ⟨-, todo, htodo, -⟩
    · rw [hruns] at hb; exact hb
    · rw [hpc] at htodo; cases htodo
  clear m' hm' := h.clear m' (by rw [hpipe]; exact List.mem_cons_of_mem _ hm')
  todo := List.Sublist.refl _
  running id todo hpc := by cases hpc

/-- A CLEAR removes only entries whose handler has returned. -/
theorem Inv.cleared {s : Core H} (h : Inv s) {m : PipeMsg} (hm : m ∈ s.pipe)
    (ht : m.type = .CLEAR) {e : Entry H} (he : e ∈ s.runQueue) (hp : e.forkedPid = m.pid) :
    e.state ≠ .INIT ∧ e.id ∈ s.returned := by
  have hne : e.forkedPid ≠ 0 := by rw [hp]; exact h.clear m hm ht
  exact ⟨fun hst => hne (h.fresh e he hst).2, h.back e he hne⟩

theorem inv_clear {s : Core H} (h : Inv s) {m : PipeMsg} {rest : List PipeMsg}
    (hpc : s.pc = .idle) (hm : m.type = .CLEAR) (hpipe : s.pipe = m :: rest) :
    Inv (ssRunQueueDelBypid m.pid { s with pipe := rest }) := by
  have hmem : m ∈ s.pipe := by rw [hpipe]; exact List.mem_cons_self
  have hsub : ∀ {e}, e ∈ s.runQueue.filter (·.forkedPid ≠ m.pid) → e ∈ s.runQueue :=
    fun he => List.mem_of_mem_filter he
  refine ⟨?_, h.nodup, ?_, fun e he => h.lt e (hsub he), fun e he => h.fresh e (hsub he),
    fun e he => h.back e (hsub he), ?_, ?_, ?_, ?_, h.returned⟩
  · exact h.sorted.sublist (List.filter_sublist.map _)
  · intro i
    rw [show (ssRunQueueDelBypid m.pid { s with pipe := rest }).nextId = s.nextId from rfl,
      h.accounted i]
    refine or_congr Iff.rfl ⟨?_, ?_⟩
    · rintro ⟨e, he, hid, hst⟩
      refine ⟨e, List.mem_filter.mpr ⟨he, ?_⟩, hid, hst⟩
      simp only [decide_eq_true_eq]
      exact fun hp => (h.cleared hmem hm he hp).1 hst
    · rintro ⟨e, he, hid, hst⟩; exact ⟨e, hsub he, hid, hst⟩
  · have hruns := runs_take hpipe
    rw [hm] at hruns
    have hle : inits (ssRunQueueDelBypid m.pid { s with pipe := rest }) ≤ inits s :=
      List.Sublist.countP_le List.filter_sublist
    rcases h.budget with hb | ⟨-, todo, htodo, -⟩
    · exact .inl (by rw [hruns] at hb; exact Nat.le_trans hle hb)
    · rw [hpc] at htodo; cases htodo
  · exact fun m' hm' => h.clear m' (by rw [hpipe]; exact List.mem_cons_of_mem _ hm')
  · simp only [ssRunQueueDelBypid, hpc, Pc.todo]; exact List.nil_sublist _
  · intro id todo hpc'; simp only [ssRunQueueDelBypid, hpc] at hpc'; cases hpc'

theorem inv_invoke {s : Core H} (h : Inv s) {e : Entry H} {todo : List Nat}
    (hpc : s.pc = .pass (e.id :: todo)) (he : e ∈ s.runQueue) (hst : e.state = .INIT) :
    Inv (callHandler e.id todo s) := by
  have hnot := (h.fresh e he hst).1
  have hids := setEntry_ids e.id (fun e => { e with state := .RUNNING }) (fun _ => rfl) s
  have hmem : ∀ {x : Entry H}, x ∈ (callHandler e.id todo s).runQueue →
      (∃ e₀ ∈ s.runQueue, e₀.id = e.id ∧ x = { e₀ with state := .RUNNING }) ∨
        (x ∈ s.runQueue ∧ x.id ≠ e.id) := fun hx => mem_setEntry.mp hx
  have htodo : (e.id :: todo).Sublist (s.runQueue.map Entry.id) := by
    have := h.todo; rwa [hpc] at this
  refine ⟨by rw [show (callHandler e.id todo s).runQueue.map Entry.id = _ from hids]; exact h.sorted,
    ?_, ?_, ?_, ?_, ?_, ?_, h.clear, ?_, ?_, fun i hi => List.mem_append_left _ (h.returned i hi)⟩
  · refine List.nodup_append.mpr ⟨h.nodup, by simp, ?_⟩
    rintro a ha b hb rfl
    rw [List.mem_singleton.mp hb] at ha; exact hnot ha
  · intro i
    rw [show (callHandler e.id todo s).nextId = s.nextId from rfl, h.accounted i]
    constructor
    · rintro (hin | ⟨x, hx, rfl, hxst⟩)
      · exact .inl (List.mem_append_left _ hin)
      · by_cases hid : x.id = e.id
        · rw [hid]; exact .inl (List.mem_append_right _ (List.mem_singleton.mpr rfl))
        · exact .inr ⟨x, mem_setEntry.mpr (.inr ⟨hx, hid⟩), rfl, hxst⟩
    · rintro (hin | ⟨x, hx, rfl, hxst⟩)
      · rcases List.mem_append.mp hin with hin | hin
        · exact .inl hin
        · rw [List.mem_singleton.mp hin]; exact .inr ⟨e, he, rfl, hst⟩
      · rcases hmem hx with ⟨_, _, _, rfl⟩ | ⟨hx, -⟩
        · cases hxst
        · exact .inr ⟨x, hx, rfl, hxst⟩
  · intro x hx
    rcases hmem hx with ⟨e₀, he₀, _, rfl⟩ | ⟨hx, -⟩
    · exact h.lt e₀ he₀
    · exact h.lt x hx
  · intro x hx hxst
    rcases hmem hx with ⟨_, _, _, rfl⟩ | ⟨hx, hne⟩
    · cases hxst
    · refine ⟨fun hin => ?_, (h.fresh x hx hxst).2⟩
      rcases List.mem_append.mp hin with hin | hin
      · exact (h.fresh x hx hxst).1 hin
      · exact hne (List.mem_singleton.mp hin)
  · intro x hx hfp
    rcases hmem hx with ⟨e₀, he₀, _, rfl⟩ | ⟨hx, -⟩
    · exact h.back e₀ he₀ hfp
    · exact h.back x hx hfp
  · have hlt := inits_callHandler he hst todo
    rcases h.budget with hb | ⟨hb, -⟩
    · exact .inl (Nat.le_of_lt (Nat.lt_of_lt_of_le hlt hb))
    · exact .inl (Nat.le_of_lt_succ (Nat.lt_of_lt_of_le hlt hb))
  · rw [show (callHandler e.id todo s).runQueue.map Entry.id = _ from hids]
    exact (List.sublist_cons_self _ _).trans htodo
  · intro id todo' hpc'
    simp only [callHandler, Pc.handler.injEq] at hpc'
    obtain ⟨rfl, rfl⟩ := hpc'
    refine ⟨List.mem_append_right _ (List.mem_singleton.mpr rfl),
      fun hret => hnot (h.returned _ hret), ?_⟩
    rw [show (callHandler e.id todo s).runQueue.map Entry.id = _ from hids]
    exact List.mem_map_of_mem he

/-- The pass moves on, its current entry left as it is. -/
theorem inv_pass {s : Core H} (h : Inv s) {id : Nat} {todo : List Nat}
    (hpc : s.pc = .pass (id :: todo))
    (hid : ∀ e ∈ s.runQueue, e.id = id → e.state ≠ .INIT) : Inv { s with pc := .pass todo } where
  __ := h
  budget := by
    rcases h.budget with hb | ⟨hb, todo', htodo, hall⟩
    · exact .inl hb
    · rw [hpc, Pc.pass.injEq] at htodo
      refine .inr ⟨hb, todo, rfl, fun e he hst => ?_⟩
      have := hall e he hst
      rw [← htodo] at this
      rcases List.mem_cons.mp this with ht | ht
      · exact absurd hst (hid e he ht)
      · exact ht
  todo := by
    have := h.todo
    rw [hpc] at this
    exact (List.sublist_cons_self _ _).trans this
  running _ _ hpc' := by cases hpc'

theorem inv_passEnd {s : Core H} (h : Inv s) (hpc : s.pc = .pass []) :
    Inv { s with pc := .idle } where
  __ := h
  budget := by
    rcases h.budget with hb | ⟨-, todo, htodo, hall⟩
    · exact .inl hb
    · -- nothing was ahead of the pass, so no entry is INIT
      rw [hpc, Pc.pass.injEq] at htodo
      refine .inl (Nat.le_trans (Nat.le_of_eq (List.countP_eq_zero.mpr fun e he hst => ?_))
        (Nat.zero_le _))
      have := hall e he (by simpa using hst)
      rw [← htodo] at this; cases this
  todo := List.nil_sublist _
  running _ _ hpc' := by cases hpc'

/-- The handler of `id` returns, its entry is updated by `f`. -/
theorem inv_returns {s : Core H} (h : Inv s) {id : Nat} {todo : List Nat}
    (hpc : s.pc = .handler id todo) (f : Entry H → Entry H) (hf : ∀ e, (f e).id = e.id)
    (hst : ∀ e, (f e).state = .INIT → e.state = .INIT) :
    Inv (setEntry id f { s with pc := .pass todo, returned := s.returned ++ [id] }) := by
  have hin := (h.running id todo hpc).1
  have hids := setEntry_ids id f hf { s with pc := .pass todo, returned := s.returned ++ [id] }
  have hnoinit : ∀ e ∈ s.runQueue, e.state = .INIT → e.id ≠ id := by
    rintro e he hi rfl; exact (h.fresh e he hi).1 hin
  have hmem : ∀ {x : Entry H},
      x ∈ (setEntry id f { s with pc := .pass todo, returned := s.returned ++ [id] }).runQueue →
      (∃ e₀ ∈ s.runQueue, e₀.id = id ∧ x = f e₀) ∨ (x ∈ s.runQueue ∧ x.id ≠ id) :=
    fun hx => mem_setEntry.mp hx
  -- an INIT entry of the new queue was one before and is not the handler's
  have hinit : ∀ {x : Entry H},
      x ∈ (setEntry id f { s with pc := .pass todo, returned := s.returned ++ [id] }).runQueue →
      x.state = .INIT → x ∈ s.runQueue ∧ x.id ≠ id := by
    intro x hx hxst
    rcases hmem hx with ⟨e₀, he₀, hid, rfl⟩ | hx
    · exact absurd hid (hnoinit e₀ he₀ (hst e₀ hxst))
    · exact hx
  refine ⟨by rw [hids]; exact h.sorted, h.nodup, ?_, ?_, ?_, ?_, ?_, h.clear, ?_, ?_, ?_⟩
  · intro i
    rw [show (setEntry id f { s with pc := .pass todo, returned := s.returned ++ [id] }).nextId =
      s.nextId from rfl, h.accounted i]
    refine or_congr Iff.rfl ⟨?_, ?_⟩
    · rintro ⟨x, hx, rfl, hxst⟩
      exact ⟨x, mem_setEntry.mpr (.inr ⟨hx, hnoinit x hx hxst⟩), rfl, hxst⟩
    · rintro ⟨x, hx, rfl, hxst⟩; exact ⟨x, (hinit hx hxst).1, rfl, hxst⟩
  · intro x hx
    rcases hmem hx with ⟨e₀, he₀, -, rfl⟩ | ⟨hx, -⟩
    · rw [hf]; exact h.lt e₀ he₀
    · exact h.lt x hx
  · exact fun x hx hxst => h.fresh x (hinit hx hxst).1 hxst
  · intro x hx hfp
    rcases hmem hx with ⟨e₀, he₀, hid, rfl⟩ | ⟨hx, -⟩
    · rw [hf, hid]; exact List.mem_append_right _ (List.mem_singleton.mpr rfl)
    · exact List.mem_append_left _ (h.back x hx hfp)
  · rcases h.budget with hb | ⟨-, todo', htodo, -⟩
    · exact .inl (Nat.le_trans (inits_setEntry_le id f hst _) hb)
    · rw [hpc] at htodo; cases htodo
  · rw [hids]
    have := h.todo
    rwa [hpc] at this
  · intro _ _ hpc'; cases hpc'
  · intro i hi
    rcases List.mem_append.mp hi with hi | hi
    · exact h.returned i hi
    · rw [List.mem_singleton.mp hi]; exact hin

theorem inv_step {s s' : Core H} {l : Lbl} (h : Inv s) (hst : step s l = some s') : Inv s' := by
  cases step_effect hst with
  | none => exact h
  | announce => exact inv_send h _ fun ht => by cases ht
  | add _ act argc argv _ hpc => exact inv_added h hpc act argc argv
  | sigchld p hp => exact inv_send h _ fun _ => by simp only; omega
  | run m rest hpc hm hpipe => exact inv_run h hpc hm hpipe
  | clear m rest hpc hm hpipe => exact inv_clear h hpc hm hpipe
  | passEnd hpc => exact inv_passEnd h hpc
  | invoke e todo hpc he hei => exact inv_invoke h hpc he hei
  | skip e todo hpc he hei =>
    refine inv_pass h hpc fun x hx hid => ?_
    rw [h.id_inj hx he hid]; exact hei
  | done r present id todo hpc =>
    refine inv_send (m := ⟨.CLEAR, -1⟩) ?_ fun _ => by simp only; omega
    exact inv_returns h hpc (fun e => { e with forkedPid := -1, state := .DONE }) (fun _ => rfl)
      fun _ hi => nomatch hi
  | forked r id todo hpc => exact inv_returns h hpc _ (fun _ => rfl) fun _ hi => hi

theorem inv_inductive : (lts H).Inductive Inv :=
  ⟨fun _ => inv_init, fun _ _ _ => inv_step⟩

theorem inv_reachable {s : Core H} (h : (lts H).Reachable s) : Inv s := inv_inductive.reachable h

/-! ## An entry on its way to its handler -/

/-- The handler and the arguments are those of `e₀`. -/
structure Same (e₀ e : Entry H) : Prop where
  actionEntry : e.actionEntry = e₀.actionEntry
  argc : e.argc = e₀.argc
  argv : e.argv = e₀.argv

/-- A step leaves handler and arguments of an entry alone, or adds the
entry. -/
theorem step_data {s s' : Core H} {l : Lbl} (hst : step s l = some s') {e : Entry H}
    (he : e ∈ s'.runQueue) : (∃ e₀ ∈ s.runQueue, e₀.id = e.id ∧ Same e₀ e) ∨ e.id = s.nextId := by
  have hsame : ∀ {e : Entry H}, e ∈ s.runQueue → ∃ e₀ ∈ s.runQueue, e₀.id = e.id ∧ Same e₀ e :=
    fun he => ⟨_, he, rfl, rfl, rfl, rfl⟩
  have hset : ∀ {t : Core H} {id : Nat} (g : Entry H → Entry H), t.runQueue = s.runQueue →
      (∀ e, (g e).id = e.id ∧ Same e (g e)) → e ∈ (setEntry id g t).runQueue →
      ∃ e₀ ∈ s.runQueue, e₀.id = e.id ∧ Same e₀ e := by
    intro t id g ht hg hmem
    rcases mem_setEntry.mp hmem with ⟨e₀, he₀, -, rfl⟩ | ⟨hold, -⟩
    · exact ⟨e₀, ht ▸ he₀, (hg e₀).1.symm, (hg e₀).2⟩
    · exact hsame (ht ▸ hold)
  cases step_effect hst with
  | none | announce | sigchld | run | passEnd | skip => exact .inl (hsame he)
  | add _ act argc argv =>
    rcases List.mem_cons.mp he with rfl | hold
    · exact .inr rfl
    · exact .inl (hsame hold)
  | clear m rest => exact .inl (hsame (List.mem_of_mem_filter he))
  | invoke =>
    exact .inl (hset (t := s) (fun e => { e with state := .RUNNING }) rfl
      (fun _ => ⟨rfl, rfl, rfl, rfl⟩) he)
  | done =>
    exact .inl (hset (fun e => { e with forkedPid := -1, state := .DONE }) rfl
      (fun _ => ⟨rfl, rfl, rfl, rfl⟩) he)
  | forked r =>
    exact .inl (hset (fun e => { e with forkedPid := r }) rfl (fun _ => ⟨rfl, rfl, rfl, rfl⟩) he)

theorem nextId_step {s s' : Core H} {l : Lbl} (hst : step s l = some s') : s.nextId ≤ s'.nextId := by
  cases step_effect hst with
  | add => exact Nat.le_succ _
  | none | announce | sigchld | run | clear | passEnd | invoke | skip | done | forked =>
    exact Nat.le_refl _

/-- However long an entry waits, its handler and its arguments are those it
was made with. -/
theorem run_data {s s' : Core H} {ls : List Lbl} (hs : Inv s) {e₀ e : Entry H}
    (he₀ : e₀ ∈ s.runQueue) (hr : (lts H).run s ls = some s') (he : e ∈ s'.runQueue)
    (hid : e.id = e₀.id) : Same e₀ e := by
  have hkept : (lts H).Guarded (fun _ _ => True) fun s =>
      Inv s ∧ e₀.id < s.nextId ∧ ∀ e ∈ s.runQueue, e.id = e₀.id → Same e₀ e := by
    rintro s l s' ⟨hinv, hlt, hall⟩ - hst
    refine ⟨inv_step hinv hst, ?_, fun e he hid => ?_⟩
    · exact Nat.lt_of_lt_of_le hlt (nextId_step hst)
    · rcases step_data hst he with ⟨e₁, he₁, hid₁, hsame⟩ | hnew
      · have h₁ := hall e₁ he₁ (hid₁.trans hid)
        exact ⟨hsame.1.trans h₁.1, hsame.2.trans h₁.2, hsame.3.trans h₁.3⟩
      · omega
  refine (hkept.run ⟨hs, hs.lt e₀ he₀, fun e he hid => ?_⟩ (LTS.meets_true s ls) hr).2.2 e he hid
  obtain rfl := hs.id_inj he he₀ hid
  exact ⟨rfl, rfl, rfl⟩

/-! ## Consequences -/

/-- The entries ahead of a pass are on the queue. -/
theorem Inv.visit_isSome {s : Core H} (h : Inv s) {todo : List Nat} (hpc : s.pc = .pass todo) :
    (RunQueue.visit s).isSome := by
  cases todo with
  | nil => simp [RunQueue.visit, hpc]
  | cons id todo =>
    have hmem : id ∈ s.runQueue.map Entry.id := h.todo.subset (by rw [hpc]; exact List.mem_cons_self)
    obtain ⟨e, he, hid⟩ := List.mem_map.mp hmem
    obtain ⟨x, hx⟩ := Option.isSome_iff_exists.mp
      (List.find?_isSome (p := fun x : Entry H => x.id = id) |>.mpr ⟨e, he, by simpa using hid⟩)
    simp only [RunQueue.visit, hpc, hx]
    split <;> rfl

/-- A pass never runs into a node that is gone. -/
theorem visit_enabled {s : Core H} (h : (lts H).Reachable s) (todo : List Nat)
    (hpc : s.pc = .pass todo) : (step s .visit).isSome :=
  (inv_reachable h).visit_isSome hpc

/-- **No CLEAR removes an entry too early.** -/
theorem clear_removes {s s' : Core H} (h : (lts H).Reachable s) {m : PipeMsg}
    {rest : List PipeMsg} (hpipe : s.pipe = m :: rest) (hm : m.type = .CLEAR)
    (hst : step s .deliver = some s') {e : Entry H} (he : e ∈ s.runQueue) (hgone : e ∉ s'.runQueue) :
    e.state ≠ .INIT ∧ e.id ∈ s.returned := by
  refine (inv_reachable h).cleared (by rw [hpipe]; exact List.mem_cons_self) hm he ?_
  by_contra hne
  refine hgone ?_
  rw [deliver_eq hpipe hst, hm]
  exact List.mem_filter.mpr ⟨he, by simpa using hne⟩

/-- **Exactly once.** In every reachable state: no handler has been invoked
twice; delivering a CLEAR removes no entry that is INIT or whose handler has
not returned; an INIT entry has an undelivered RUN in the pipe, unless
`ss_run_queue_run` is between two entries and will come to it; and once the
pipe is empty, with that exception, every entry ever added has been invoked
exactly once. Between two callbacks and while a handler runs there is no
exception. -/
theorem exactly_once (H : Type) (s : Core H) (h : (lts H).Reachable s) :
    (∀ i, s.invoked.count i ≤ 1) ∧
    (∀ m rest s', s.pipe = m :: rest → m.type = .CLEAR → step s .deliver = some s' →
      ∀ e ∈ s.runQueue, e ∉ s'.runQueue → e.state ≠ .INIT ∧ e.id ∈ s.returned) ∧
    (∀ e ∈ s.runQueue, e.state = .INIT →
      (∃ m ∈ s.pipe, m.type = .RUN) ∨ ∃ todo, s.pc = .pass todo ∧ e.id ∈ todo) ∧
    (s.pipe = [] → ∀ i, i < s.nextId →
      s.invoked.count i = 1 ∨ ∃ todo, s.pc = .pass todo ∧ i ∈ todo) := by
  have hi := inv_reachable h
  refine ⟨fun i => List.nodup_iff_count_le_one.mp hi.nodup i, ?_,
    fun e he hst => hi.announced he hst, ?_⟩
  · intro m rest s' hpipe hm hst e he hgone
    exact clear_removes h hpipe hm hst he hgone
  · intro hpipe i hlt
    rcases (hi.accounted i).mp hlt with hin | ⟨e, he, rfl, hst⟩
    · exact .inl (List.count_eq_one_of_mem hi.nodup hin)
    · rcases hi.announced he hst with ⟨m, hm, -⟩ | ht
      · rw [hpipe] at hm; cases hm
      · exact .inr ht

def oneRequest : List Lbl := [request "reboot", .deliver, .visit]

/-- One request, whose handler is running: the pipe is empty again. -/
theorem exactly_once_request : ∃ s, (lts Unit).run (boot [anAction "reboot"]) oneRequest = some s ∧
    s.pc = .handler 0 [] ∧ s.pipe = [] ∧
    ∀ i, i < s.nextId → s.invoked.count i = 1 ∨ ∃ todo, s.pc = .pass todo ∧ i ∈ todo := by
  refine ⟨_, rfl, rfl, rfl, ?_⟩
  exact (exactly_once Unit _ ⟨boot [anAction "reboot"], oneRequest, init_boot _, rfl⟩).2.2.2 rfl

end SystemServer.L2.ExactlyOnce
