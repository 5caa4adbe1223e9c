import SystemServer.L2Queue.ExactlyOnce

/-!
# The order in which handlers run

Entries are numbered in the order they were added, so handlers run in the
order of their requests when the log of invocations is `InOrder`. It need not
be: `ss_run_queue_add` puts an entry in front of the queue and a pass runs
from the front, so two entries that one pass finds INIT are run newest
first. The order is kept exactly when no pass finds two (`RunFindsOne`):

* such a pass finds everything older invoked already (`Ready`), so the run
  stays in order (`inOrder_step`);
* a pass that finds two is bound to invoke the newer one first (`Doomed`),
  and what is out of order stays so (`doomed_step`).

`reversed` is the shortest run: two requests before the main loop reads the
pipe.
-/
namespace SystemServer.L2.Order

open SystemServer.L2.RunQueue SystemServer.L2.ExactlyOnce

variable {H : Type}

/-- When `b` was invoked, everything added before it had been. -/
def InOrder (log : List Nat) : Prop :=
  ∀ pre b post, log = pre ++ b :: post → ∀ a, a < b → a ∈ pre

/-- The RUN message about to be read finds at most one INIT entry. -/
def RunFindsOne (s : Core H) (l : Lbl) : Prop :=
  l = .deliver → ∀ m rest, s.pipe = m :: rest → m.type = .RUN → inits s ≤ 1

theorem inOrder_nil : InOrder [] := by
  intro pre b post h
  have := congrArg List.length h
  simp at this

theorem inOrder_snoc (log : List Nat) (b : Nat) :
    InOrder (log ++ [b]) ↔ InOrder log ∧ ∀ a, a < b → a ∈ log := by
  constructor
  · intro h
    refine ⟨fun pre c post hlog => ?_, h log b [] rfl⟩
    exact h pre c (post ++ [b]) (by rw [hlog]; simp)
  · rintro ⟨hlog, hb⟩ pre c post h
    rcases List.eq_nil_or_concat post with rfl | ⟨post', c', rfl⟩
    · obtain ⟨rfl, hc⟩ := List.append_inj' h rfl
      cases hc; exact hb
    · rw [List.concat_eq_append, ← List.cons_append, ← List.append_assoc] at h
      obtain ⟨rfl, -⟩ := List.append_inj' h rfl
      exact hlog pre c post' rfl

/-- The INIT entries, newest first. -/
def waiting (s : Core H) : List (Entry H) := s.runQueue.filter (·.state = .INIT)

theorem mem_waiting {s : Core H} {e : Entry H} :
    e ∈ waiting s ↔ e ∈ s.runQueue ∧ e.state = .INIT := by simp [waiting]

theorem inits_eq_length (s : Core H) : inits s = (waiting s).length := List.countP_eq_length_filter

theorem one_init {s : Core H} (h1 : inits s ≤ 1) {e e' : Entry H} (he : e ∈ waiting s)
    (he' : e' ∈ waiting s) : e = e' := by
  rw [inits_eq_length] at h1
  rcases hw : waiting s with _ | ⟨x, _ | ⟨y, rest⟩⟩
  · rw [hw] at he; cases he
  · rw [hw] at he he'
    exact (List.mem_singleton.mp he).trans (List.mem_singleton.mp he').symm
  · rw [hw] at h1; simp at h1

theorem two_inits {s : Core H} (h : Inv s) (h2 : 1 < inits s) :
    ∃ x y, x ∈ waiting s ∧ y ∈ waiting s ∧ y.id < x.id := by
  rw [inits_eq_length] at h2
  rcases hw : waiting s with _ | ⟨x, _ | ⟨y, rest⟩⟩
  · rw [hw] at h2; cases h2
  · rw [hw] at h2; exact absurd h2 (Nat.lt_irrefl _)
  · have hsub : ((waiting s).map Entry.id).Pairwise (· > ·) :=
      h.sorted.sublist (List.filter_sublist.map _)
    rw [hw] at hsub
    exact ⟨x, y, by simp, by simp, (List.pairwise_cons.mp hsub).1 _ (by simp)⟩

/-! ## One INIT entry a pass -/

/-- What a pass will invoke has nothing older still waiting. -/
structure Ready (s : Core H) : Prop where
  inv : Inv s
  order : InOrder s.invoked
  next : ∀ e ∈ s.runQueue, e.state = .INIT → e.id ∈ s.pc.todo → ∀ a, a < e.id → a ∈ s.invoked

theorem ready_init {s : Core H} (h : Init s) : Ready s := by
  refine ⟨inv_init h, by rw [h.invoked]; exact inOrder_nil, fun e he => ?_⟩
  rw [h.runQueue] at he; cases he

/-- A pass that begins with one INIT entry. -/
theorem next_run {s : Core H} (h : Inv s) (h1 : inits s ≤ 1) {e : Entry H} (he : e ∈ waiting s)
    {a : Nat} (ha : a < e.id) : a ∈ s.invoked := by
  have hlt := h.lt e (mem_waiting.mp he).1
  rcases (h.accounted a).mp (Nat.lt_trans ha hlt) with hin | ⟨x, hx, rfl, hxst⟩
  · exact hin
  · rw [one_init h1 (mem_waiting.mpr ⟨hx, hxst⟩) he] at ha
    exact absurd ha (Nat.lt_irrefl _)

theorem next_step {s s' : Core H} {l : Lbl} (h : Ready s) (hc : RunFindsOne s l)
    (hst : step s l = some s') : ∀ e ∈ s'.runQueue, e.state = .INIT → e.id ∈ s'.pc.todo →
      ∀ a, a < e.id → a ∈ s'.invoked := by
  have hsub : ∀ (todo : List Nat) {todo' : List Nat}, s.pc.todo = todo' → todo.Sublist todo' →
      ∀ e ∈ s.runQueue, e.state = .INIT → e.id ∈ todo → ∀ a, a < e.id → a ∈ s.invoked :=
    fun _ _ htodo hs e he hei hin => h.next e he hei (htodo ▸ hs.subset hin)
  cases step_effect hst with
  | none | announce | sigchld => exact h.next
  | add _ act argc argv =>
    intro e he hei hin
    rcases List.mem_cons.mp he with rfl | he
    · -- the new entry is on no pass's list
      obtain ⟨x, hx, hid⟩ := List.mem_map.mp (h.inv.todo.subset hin)
      exact absurd hid (Nat.ne_of_lt (h.inv.lt x hx))
    · exact h.next e he hei hin
  | run m rest hpc hm hpipe =>
    exact fun e he hei _ a ha =>
      next_run h.inv (hc rfl m rest hpipe hm) (mem_waiting.mpr ⟨he, hei⟩) ha
  | clear m rest hpc hm hpipe =>
    exact fun e he => h.next e (List.mem_of_mem_filter he)
  | passEnd hpc => exact fun e he hei hin => by cases hin
  | invoke e todo hpc he hei =>
    intro x hx hxst hin a ha
    rcases mem_setEntry.mp hx with ⟨_, _, _, rfl⟩ | ⟨hx, -⟩
    · cases hxst
    · refine List.mem_append_left _ (h.next x hx hxst ?_ a ha)
      rw [hpc]; exact List.mem_cons_of_mem _ hin
  | skip e todo hpc he hei =>
    exact hsub todo (by rw [hpc]; rfl) (List.sublist_cons_self _ _)
  | done r present id todo hpc =>
    intro x hx hxst hin
    rcases mem_setEntry.mp hx with ⟨_, _, _, rfl⟩ | ⟨hx, -⟩
    · cases hxst
    · exact hsub todo (by rw [hpc]; rfl) (List.Sublist.refl _) x hx hxst hin
  | forked r id todo hpc hr =>
    intro x hx hxst hin
    rcases mem_setEntry.mp hx with ⟨x₀, hx₀, _, rfl⟩ | ⟨hx, -⟩
    · exact hsub todo (by rw [hpc]; rfl) (List.Sublist.refl _) x₀ hx₀ hxst hin
    · exact hsub todo (by rw [hpc]; rfl) (List.Sublist.refl _) x hx hxst hin

theorem ready_step : (lts H).Guarded RunFindsOne Ready := by
  intro s l s' h hc hst
  refine ⟨inv_step h.inv hst, ?_, next_step h hc hst⟩
  cases step_effect hst with
  | invoke e todo hpc he hei =>
    refine (inOrder_snoc _ _).mpr ⟨h.order, h.next e he hei ?_⟩
    rw [hpc]; exact List.mem_cons_self
  | none | announce | add | sigchld | run | clear | passEnd | skip | done | forked =>
    exact h.order

/-! ## Two INIT entries in a pass -/

/-- The log is out of order, or the pass under way will make it so: it has
two entries left to invoke, and comes to the newer one first. -/
def Doomed (s : Core H) : Prop :=
  ¬ InOrder s.invoked ∨
    ∃ a b, a < b ∧ a ∈ s.pc.todo ∧ b ∈ s.pc.todo ∧ a ∉ s.invoked ∧ b ∉ s.invoked

theorem doomed_run {s s' : Core H} {l : Lbl} (h : Inv s) (hc : ¬ RunFindsOne s l)
    (hst : step s l = some s') : Doomed s' := by
  simp only [RunFindsOne, Classical.not_imp, not_forall, Nat.not_le] at hc
  obtain ⟨rfl, m, rest, hpipe, hm, h2⟩ := hc
  obtain ⟨x, y, hx, hy, hlt⟩ := two_inits h h2
  rw [mem_waiting] at hx hy
  rw [deliver_eq hpipe hst, hm]
  exact .inr ⟨y.id, x.id, hlt, List.mem_map_of_mem hy.1, List.mem_map_of_mem hx.1,
    (h.fresh y hy.1 hy.2).1, (h.fresh x hx.1 hx.2).1⟩

/-- An entry that is queued and was not invoked is INIT. -/
theorem init_of_not_invoked {s : Core H} (h : Inv s) {e : Entry H} (he : e ∈ s.runQueue)
    (hn : e.id ∉ s.invoked) : e.state = .INIT := by
  rcases (h.accounted e.id).mp (h.lt e he) with hin | ⟨x, hx, hid, hst⟩
  · exact absurd hin hn
  · rw [← h.id_inj hx he hid]; exact hst

theorem doomed_step {s s' : Core H} {l : Lbl} (h : Inv s) (hd : Doomed s)
    (hst : step s l = some s') : Doomed s' := by
  rcases hd with hd | ⟨a, b, hab, ha, hb, hna, hnb⟩
  · -- the log only grows
    refine .inl ?_
    cases step_effect hst with
    | invoke e todo hpc he hei => exact fun ho => hd ((inOrder_snoc _ _).mp ho).1
    | none | announce | add | sigchld | run | clear | passEnd | skip | done | forked => exact hd
  · cases step_effect hst with
    | none | announce | add | sigchld => exact .inr ⟨a, b, hab, ha, hb, hna, hnb⟩
    | run m rest hpc | clear m rest hpc => rw [hpc] at ha; cases ha
    | passEnd hpc => rw [hpc] at ha; cases ha
    | done r present id todo hpc | forked r id todo hpc =>
      rw [hpc] at ha hb; exact .inr ⟨a, b, hab, ha, hb, hna, hnb⟩
    | invoke e todo hpc he hei =>
      have hsorted : (e.id :: todo).Pairwise (· > ·) := by
        have := h.todo; rw [hpc] at this; exact h.sorted.sublist this
      rw [hpc] at ha hb
      rcases List.mem_cons.mp hb with rfl | hb
      · exact .inl fun ho => hna (((inOrder_snoc _ _).mp ho).2 a hab)
      · have hbe : b < e.id := (List.pairwise_cons.mp hsorted).1 b hb
        rcases List.mem_cons.mp ha with rfl | ha
        · exact absurd hab (Nat.not_lt_of_lt hbe)
        · refine .inr ⟨a, b, hab, ha, hb, ?_, ?_⟩
          · simp only [callHandler, List.mem_append, List.mem_singleton, not_or]
            exact ⟨hna, Nat.ne_of_lt (Nat.lt_trans hab hbe)⟩
          · simp only [callHandler, List.mem_append, List.mem_singleton, not_or]
            exact ⟨hnb, Nat.ne_of_lt hbe⟩
    | skip e todo hpc he hei =>
      -- the entry passed over is neither of the two, which are INIT
      have hne : ∀ {i}, i ∉ s.invoked → i ≠ e.id := by
        rintro i hni rfl; exact hei (init_of_not_invoked h he hni)
      rw [hpc] at ha hb
      exact .inr ⟨a, b, hab, (List.mem_cons.mp ha).resolve_left (hne hna),
        (List.mem_cons.mp hb).resolve_left (hne hnb), hna, hnb⟩

/-! ## Runs -/

/-- **Order of a run.** If every RUN message finds at most one INIT entry,
handlers have run in the order of their requests in every state reached; and
a run that ends between two callbacks with its log in order is one where
every RUN message found at most one. -/
theorem in_order_iff (H : Type) (s₀ s : Core H) (ls : List Lbl) (h₀ : Init s₀)
    (hr : (lts H).run s₀ ls = some s) :
    ((lts H).Meets RunFindsOne s₀ ls → InOrder s.invoked) ∧
    (s.pc = .idle → InOrder s.invoked → (lts H).Meets RunFindsOne s₀ ls) := by
  refine ⟨fun hm => (ready_step.run (ready_init h₀) hm hr).order, fun hpc ho => ?_⟩
  refine LTS.meets_of_run (I := Inv) (D := Doomed) (fun _ _ _ => inv_step)
    (fun _ _ _ => doomed_run) (fun _ _ _ => doomed_step) (inv_init h₀) hr ?_
  rintro (hd | ⟨a, b, -, ha, -⟩)
  · exact hd ho
  · rw [hpc] at ha; cases ha

/-- Each request is run before the next is made. -/
def oneByOne : List Lbl := [request "on", .deliver, .visit, .ret 0 false, .visit, .deliver,
  request "off", .deliver, .visit, .ret 0 false, .visit]

theorem in_order_oneByOne :
    ∃ s, (lts Unit).run (boot [anAction "on", anAction "off"]) oneByOne = some s ∧
      s.invoked = [0, 1] ∧
      (lts Unit).Meets RunFindsOne (boot [anAction "on", anAction "off"]) oneByOne := by
  refine ⟨_, rfl, rfl, (in_order_iff Unit _ _ oneByOne (init_boot _) rfl).2 rfl ?_⟩
  exact (inOrder_snoc [0] 1).mpr ⟨(inOrder_snoc [] 0).mpr ⟨inOrder_nil, by decide⟩, by decide⟩

def twoRequests : List Lbl := [request "on", request "off", .deliver, .visit, .ret 0 false, .visit,
  .ret 0 false, .visit]

/-- Two requests before the main loop reads the pipe: the second is run
first. -/
theorem reversed : ∃ s, (lts Unit).run (boot [anAction "on", anAction "off"]) twoRequests = some s ∧
    s.invoked = [1, 0] ∧ ¬ InOrder s.invoked := by
  refine ⟨_, rfl, rfl, fun h => ?_⟩
  have := h [] 1 [0] rfl 0 (by decide)
  cases this

end SystemServer.L2.Order
