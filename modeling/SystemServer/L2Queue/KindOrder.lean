import SystemServer.Core.Fifo
import SystemServer.L2Queue.Refine

/-!
# The order of the jobs of one kind

`Order` asks of a pass that it finds one INIT entry at most, of any action. A
caller cares only about its own requests: that those of one kind (one action,
say) are performed in the order they were made in. A pass finds them newest
first, so this needs only that no pass finds two of that kind, whatever else it
finds (`FindsOne`).

`simulates`: with that, the run queue is for the jobs of the kind a queue
(`Core/Fifo`), first in, first out, for all kinds at once a pool. `kind_in_order`
puts it together.
-/
namespace SystemServer.L2.KindOrder

open SystemServer.L2.RunQueue SystemServer.L2.ExactlyOnce SystemServer.L2.Order
open SystemServer.L2.Refine

variable {H : Type} (K : Job H → Bool)

def ofKind (e : Entry H) : Bool := K (Entry.job e)

/-- The INIT entries of the kind, newest first. -/
def waitingOf (s : Core H) : List (Entry H) := (waiting s).filter (ofKind K)

/-- The jobs of the kind that are pending, oldest first. -/
def queued (s : Core H) : List (Job H) := (waitingOf K s).reverse.map Entry.job

/-- The RUN message about to be read finds at most one INIT entry of the kind. -/
def FindsOne (s : Core H) : Lbl → Prop
  | .deliver => s.pipe.head?.map PipeMsg.type = some .RUN → (waitingOf K s).length ≤ 1
  | _ => True

instance (s : Core H) : ∀ l, Decidable (FindsOne K s l)
  | .deliver => inferInstanceAs (Decidable (_ → _))
  | .call _ _ | .callInternal _ _ _ _ | .sigchld _ | .visit | .ret _ _ => .isTrue trivial

/-- What is shown of the jobs of the kind. -/
def kindEvents {L : Type} (s : Core H) (l : L) (s' : Core H) : List (Pool.Ev (Job H)) :=
  Fifo.only K (events s l s')

/-- Of the kind, the pass under way comes to the oldest entry only. -/
structure Next (s : Core H) : Prop where
  inv : Inv s
  oldest : ∀ e ∈ waitingOf K s, e.id ∈ s.pc.todo → ∀ a ∈ waitingOf K s, e.id ≤ a.id

variable {K}

theorem mem_waitingOf {s : Core H} {e : Entry H} :
    e ∈ waitingOf K s ↔ e ∈ waiting s ∧ ofKind K e = true := List.mem_filter

theorem waitingOf_congr {s s' : Core H} (hw : waiting s' = waiting s) :
    waitingOf K s' = waitingOf K s := congrArg (List.filter _) hw

theorem one_waiting {s : Core H} (h1 : (waitingOf K s).length ≤ 1) {e a : Entry H}
    (he : e ∈ waitingOf K s) (ha : a ∈ waitingOf K s) : e = a := by
  rcases hw : waitingOf K s with _ | ⟨x, _ | ⟨y, rest⟩⟩
  · rw [hw] at he
    cases he
  · rw [hw] at he ha
    exact (List.mem_singleton.mp he).trans (List.mem_singleton.mp ha).symm
  · rw [hw] at h1
    simp at h1

/-- What a step leaves of the pass: all of the queue when it begins, and no more
than there was otherwise. -/
theorem todo_step {s s' : Core H} {l : Lbl} (hst : step s l = some s') :
    (l = .deliver ∧ s.pipe.head?.map PipeMsg.type = some .RUN ∧ waiting s' = waiting s) ∨
      s'.pc.todo ⊆ s.pc.todo := by
  cases step_effect hst with
  | none | announce | add | sigchld | clear => exact .inr (List.Subset.refl _)
  | run m rest hpc hm hpipe =>
    refine .inl ⟨rfl, ?_, rfl⟩
    rw [hpipe, List.head?_cons, Option.map_some, hm]
  | passEnd hpc => exact .inr (List.nil_subset _)
  | invoke e todo hpc | skip e todo hpc =>
    rw [hpc]
    exact .inr (List.subset_cons_self _ _)
  | done r present id todo hpc | forked r id todo hpc =>
    rw [hpc]
    exact .inr (List.Subset.refl _)

theorem lt_of_todo {s : Core H} (h : Inv s) {id : Nat} (hin : id ∈ s.pc.todo) : id < s.nextId := by
  obtain ⟨x, hx, rfl⟩ := List.mem_map.mp (h.todo.subset hin)
  exact h.lt x hx

theorem oldest_step {s s' : Core H} {l : Lbl} (h : Next K s) (hc : FindsOne K s l)
    (hst : step s l = some s') :
    ∀ e ∈ waitingOf K s', e.id ∈ s'.pc.todo → ∀ a ∈ waitingOf K s', e.id ≤ a.id := by
  obtain ⟨rfl, hrun, hw⟩ | htodo := todo_step hst
  · -- a pass begins, and there is no other entry of the kind
    have hone := hc hrun
    rw [waitingOf_congr hw]
    intro e he _ a ha
    rw [one_waiting hone he ha]
  · have hturns := step_turns h.inv hst
    generalize events s l s' = es at hturns
    cases hturns with
    | quiet hw =>
      rw [waitingOf_congr hw]
      exact fun e he hin => h.oldest e he (htodo hin)
    | accepts n hid hw =>
      -- the new entry is on no pass's list, and older than none
      have hmem : ∀ x ∈ waitingOf K s', x = n ∨ x ∈ waitingOf K s := by
        intro x hx
        rw [mem_waitingOf, hw, List.mem_cons] at hx
        exact hx.1.imp id fun hold => mem_waitingOf.mpr ⟨hold, hx.2⟩
      intro e he hin a ha
      have hlt := lt_of_todo h.inv (htodo hin)
      rcases hmem e he with rfl | he
      · omega
      · rcases hmem a ha with rfl | ha
        · omega
        · exact h.oldest e he (htodo hin) a ha
    | performs x hx w₁ w₂ hw hw' =>
      have hmem : ∀ y ∈ waitingOf K s', y ∈ waitingOf K s := by
        intro y hy
        rw [mem_waitingOf, hw'] at hy
        rw [mem_waitingOf, hw]
        exact ⟨((List.sublist_cons_self x w₂).append_left w₁).subset hy.1, hy.2⟩
      exact fun e he hin a ha => h.oldest e (hmem e he) (htodo hin) a (hmem a ha)

theorem next_init {s : Core H} (h : Init s) : Next K s := by
  refine ⟨inv_init h, fun e he => ?_⟩
  rw [mem_waitingOf, mem_waiting, h.runQueue] at he
  exact absurd he.1.1 List.not_mem_nil

theorem next_step {s s' : Core H} {l : Lbl} (h : Next K s) (hc : FindsOne K s l)
    (hst : step s l = some s') : Next K s' :=
  ⟨inv_step h.inv hst, oldest_step h hc hst⟩

/-! ## The refinement -/

/-- The entry of the kind whose handler is called is the last of those that
wait. -/
theorem performs_last {s : Core H} (h : Next K s) {e : Entry H} (htodo : e.id ∈ s.pc.todo)
    (hK : ofKind K e = true) {w₁ w₂ : List (Entry H)} (hw : waiting s = w₁ ++ e :: w₂) :
    w₂.filter (ofKind K) = [] := by
  have hmem : ∀ x ∈ e :: w₂, ofKind K x = true → x ∈ waitingOf K s := by
    intro x hx hKx
    rw [mem_waitingOf, hw]
    exact ⟨List.mem_append_right w₁ hx, hKx⟩
  refine List.filter_eq_nil_iff.mpr fun x hx hKx => ?_
  have hle := h.oldest e (hmem e List.mem_cons_self hK) htodo x
    (hmem x (List.mem_cons_of_mem e hx) hKx)
  have hsorted : ((waiting s).map Entry.id).Pairwise (· > ·) :=
    h.inv.sorted.sublist (List.filter_sublist.map _)
  rw [hw, List.map_append, List.pairwise_append] at hsorted
  have hgt := (List.pairwise_cons.mp hsorted.2.1).1 x.id (List.mem_map_of_mem hx)
  omega

/-- What a step does to the queue of the kind. -/
theorem queued_step {s s' : Core H} {l : Lbl} (h : Next K s) (hst : step s l = some s') :
    (Fifo.lts (Job H)).run (queued K s) (kindEvents K s l s') = some (queued K s') := by
  have hturns := step_turns h.inv hst
  unfold kindEvents
  generalize events s l s' = es at hturns
  cases hturns with
  | quiet hw =>
    rw [queued, queued, waitingOf_congr hw]
    rfl
  | accepts n hid hw =>
    by_cases hK : ofKind K n = true
    · have hof : waitingOf K s' = n :: waitingOf K s := by
        rw [waitingOf, hw]
        exact List.filter_cons_of_pos hK
      rw [queued, queued, hof, List.reverse_cons, List.map_append,
        Fifo.only_of_kind (e := .accept (Entry.job n)) hK]
      rfl
    · have hof : waitingOf K s' = waitingOf K s := by
        rw [waitingOf, hw]
        exact List.filter_cons_of_neg hK
      rw [queued, queued, hof, Fifo.only_of_not_kind (e := .accept (Entry.job n)) hK]
      rfl
  | performs x hx w₁ w₂ hw hw' =>
    by_cases hK : ofKind K x = true
    · have hlast := performs_last h hx hK hw
      have hof : waitingOf K s = waitingOf K s' ++ [x] := by
        rw [waitingOf, waitingOf, hw, hw', List.filter_append, List.filter_append,
          List.filter_cons_of_pos hK, hlast, List.append_nil]
      rw [queued, queued, hof, List.reverse_append, List.map_append,
        Fifo.only_of_kind (e := .perform (Entry.job x)) hK]
      exact LTS.run_cons.mpr ⟨_, Fifo.step_perform _ _, rfl⟩
    · have hof : waitingOf K s' = waitingOf K s := by
        rw [waitingOf, waitingOf, hw, hw', List.filter_append, List.filter_append,
          List.filter_cons_of_neg hK]
      rw [queued, queued, hof, Fifo.only_of_not_kind (e := .perform (Entry.job x)) hK]
      rfl

/-- The run queue stands for the list of the INIT entries of the kind. -/
def Lists (K : Job H → Bool) (s : Core H) (q : List (Job H)) : Prop := Next K s ∧ q = queued K s

theorem lists_step {s s' : Core H} {l : Lbl} {q : List (Job H)} (h : Lists K s q)
    (hc : FindsOne K s l) (hst : step s l = some s') :
    ∃ q', (Fifo.lts (Job H)).run q (kindEvents K s l s') = some q' ∧ Lists K s' q' := by
  obtain ⟨hnext, rfl⟩ := h
  exact ⟨_, queued_step hnext hst, next_step hnext hc hst, rfl⟩

theorem queued_init {s : Core H} (h : Init s) : queued K s = [] := by
  simp [queued, waitingOf, waiting, h.runQueue]

/-- **The jobs of one kind form a queue**, where no pass finds two of them. -/
theorem simulates (K : Job H → Bool) :
    ((lts H).within (FindsOne K)).Simulates (kindEvents K) (Fifo.lts (Job H)) (Lists K) where
  init s hs := ⟨[], rfl, next_init hs, (queued_init hs).symm⟩
  step s q l s' h hst := by
    obtain ⟨hc, hst⟩ := LTS.step_within.mp hst
    exact lists_step h hc hst

/-- Between two callbacks with nothing in the pipe, none is pending. -/
theorem queued_settled {s : Core H} (h : Inv s) (hpc : s.pc = .idle) (hpipe : s.pipe = []) :
    queued K s = [] := by
  have hpending := pending_settled h hpc hpipe
  rw [pending, Multiset.coe_eq_zero, List.map_eq_nil_iff] at hpending
  simp [queued, waitingOf, hpending]

theorem trace_kindEvents (K : Job H → Bool) (s : Core H) (ls : List Lbl) :
    (lts H).trace (kindEvents K) s ls = Fifo.only K ((lts H).trace events s ls) := by
  induction ls generalizing s with
  | nil => rfl
  | cons l ls ih =>
    cases hst : (lts H).step s l with
    | none => simp only [LTS.trace, hst]; rfl
    | some s' => rw [LTS.trace_cons hst, LTS.trace_cons hst, Fifo.only_append, ih, kindEvents]

theorem accepted_events {L : Type} (s : Core H) (l : L) (s' : Core H) :
    Fifo.accepted (events s l s') = (newEntries s s').map Entry.job := by
  have hcalled : ((calledEntries s s').map fun e => Pool.Ev.perform (Entry.job e)).filterMap
      Pool.Ev.accepted? = [] := by
    rw [List.filterMap_map]
    exact List.filterMap_eq_nil_iff.mpr fun _ _ => rfl
  rw [events, Fifo.accepted_append, Fifo.accepted, Fifo.accepted, hcalled, List.filterMap_map,
    List.append_nil]
  exact congrFun List.filterMap_eq_map' _

theorem performed_events {L : Type} (s : Core H) (l : L) (s' : Core H) :
    Fifo.performed (events s l s') = (calledEntries s s').map Entry.job := by
  have hnew : ((newEntries s s').map fun e => Pool.Ev.accept (Entry.job e)).filterMap
      Pool.Ev.performed? = [] := by
    rw [List.filterMap_map]
    exact List.filterMap_eq_nil_iff.mpr fun _ _ => rfl
  rw [events, Fifo.performed_append, Fifo.performed, Fifo.performed, hnew, List.filterMap_map,
    List.nil_append]
  exact congrFun List.filterMap_eq_map' _

/-- From any state on. -/
theorem queued_run {s s' : Core H} {ls : List Lbl} (h : Next K s)
    (hls : (lts H).Meets (FindsOne K) s ls) (hr : (lts H).run s ls = some s') :
    Next K s' ∧ queued K s ++ (Fifo.accepted ((lts H).trace events s ls)).filter K =
      (Fifo.performed ((lts H).trace events s ls)).filter K ++ queued K s' := by
  obtain ⟨hrun, htrace⟩ := LTS.run_within (kindEvents K) hls hr
  obtain ⟨q', ⟨hnext, rfl⟩, horder⟩ := (simulates K).in_order ⟨h, rfl⟩ hrun
  rw [htrace, trace_kindEvents, Fifo.accepted_only, Fifo.performed_only] at horder
  exact ⟨hnext, horder⟩

/-- **Jobs of one kind in order.** For any kind of job: over every run from the
start in which no RUN message finds two INIT entries of the kind, whatever
others it finds, the jobs of the kind that were accepted are, in this order,
those performed and those pending; and between two callbacks with the pipe empty
they have been performed in the order they were accepted in. -/
theorem kind_in_order (H : Type) (K : Job H → Bool) (s₀ s : Core H) (ls : List Lbl) (h₀ : Init s₀)
    (hls : (lts H).Meets (FindsOne K) s₀ ls) (hr : (lts H).run s₀ ls = some s) :
    (Fifo.accepted ((lts H).trace events s₀ ls)).filter K =
      (Fifo.performed ((lts H).trace events s₀ ls)).filter K ++ queued K s ∧
    (s.pc = .idle → s.pipe = [] → (Fifo.accepted ((lts H).trace events s₀ ls)).filter K =
      (Fifo.performed ((lts H).trace events s₀ ls)).filter K) := by
  obtain ⟨hnext, horder⟩ := queued_run (next_init h₀) hls hr
  rw [queued_init h₀, List.nil_append] at horder
  refine ⟨horder, fun hpc hpipe => ?_⟩
  rw [horder, queued_settled hnext.inv hpc hpipe, List.append_nil]

def isOn (j : Job Unit) : Bool := j.actionEntry.type = lit "on"

/-- One pass finds both requests, and performs the newer one first: those of
each kind are in order. -/
theorem kind_in_order_on : ∃ s,
    (lts Unit).run (boot [anAction "on", anAction "off"]) twoSettled = some s ∧
    (Fifo.performed ((lts Unit).trace events (boot [anAction "on", anAction "off"])
      twoSettled)).map (fun j => j.actionEntry.type) = [lit "off", lit "on"] ∧
    (Fifo.accepted ((lts Unit).trace events (boot [anAction "on", anAction "off"])
      twoSettled)).filter isOn =
      (Fifo.performed ((lts Unit).trace events (boot [anAction "on", anAction "off"])
        twoSettled)).filter isOn := by
  have hone : (lts Unit).Meets (FindsOne isOn) (boot [anAction "on", anAction "off"]) twoSettled := by
    decide
  refine ⟨_, rfl, by decide, ?_⟩
  exact (kind_in_order Unit isOn _ _ twoSettled (init_boot _) hone rfl).2 rfl rfl

end SystemServer.L2.KindOrder
