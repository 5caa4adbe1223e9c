import Mathlib.Data.List.Perm.Subperm
import SystemServer.L4Device.Recency

/-!
# How many processes the unlocked background holds (`ss_procmgr.c`)

The daemon counts nothing, and no process is refused when it goes to the
background. What bounds their number is the ageing pass: the values from 1 to
14 are distinct (`Recency`), a pass brings at most one process from 14 to 15,
and the next pass sends it SIGTERM.

`capacity`: in every reachable state at most LIMITED_PROCESS_OOMADJ processes
are in the unlocked background without having been sent SIGTERM since they
moved there. `told` reads off the log who was sent it. A process that does not
heed it stays, at 15, and is sent it again by every pass.
-/
namespace SystemServer.L4.Recency

open SystemServer.L4.ProcMgr

/-! ## Who was sent SIGTERM -/

/-- SIGTERM was sent to the process after its last move. -/
def told (pid : Int) (es : List Effect) : Bool :=
  es.foldl (fun t e => if move e = some pid then false else t || decide (e = .sigterm pid)) false

/-- The unlocked background, without those. -/
def kept (s : State) : List Proc :=
  s.procs.filter fun q => decide (OOMADJ_BACKGRD_UNLOCKED ≤ q.oomAdj) && !told q.pid s.log

theorem told_append {pid : Int} {es : List Effect} (hes : ∀ e ∈ es, move e ≠ some pid)
    (log : List Effect) :
    told pid (log ++ es) = (told pid log || es.any fun e => decide (e = .sigterm pid)) := by
  unfold told
  rw [List.foldl_append]
  generalize log.foldl _ false = t
  induction es generalizing t with
  | nil => simp
  | cons e es ih =>
    rw [List.foldl_cons, if_neg (hes e List.mem_cons_self),
      ih (fun x hx => hes x (List.mem_cons_of_mem e hx)), List.any_cons, Bool.or_assoc]

/-- What was not sent it later was not sent it before. -/
theorem not_told_before {pid : Int} {log es : List Effect} (hes : ∀ e ∈ es, move e ≠ some pid)
    (h : told pid (log ++ es) = false) : told pid log = false ∧ .sigterm pid ∉ es := by
  rw [told_append hes, Bool.or_eq_false_iff, List.any_eq_false] at h
  refine ⟨h.1, fun he => ?_⟩
  exact absurd (decide_eq_true rfl) (h.2 _ he)

theorem move_age (a : Access) (qs : List Proc) (pid : Int) :
    ∀ e ∈ qs.flatMap fun q => (ageEntry a q).2, move e ≠ some pid := by
  intro e he hmove
  have hnone := movesOf_age a qs
  rw [movesOf, List.reverse_eq_nil_iff, List.filterMap_eq_nil_iff] at hnone
  rw [hnone e he] at hmove
  cases hmove

/-! ## One at the limit -/

/-- At the limit there is one process at most that was not sent SIGTERM. -/
def Single (s : State) : Prop :=
  ∀ p ∈ s.procs, ∀ q ∈ s.procs, p.oomAdj = LIMITED_PROCESS_OOMADJ →
    q.oomAdj = LIMITED_PROCESS_OOMADJ → told p.pid s.log = false → told q.pid s.log = false →
    p.pid = q.pid

/-- A step that brings none there. -/
theorem Single.of_sub {s s' : State} (h : Single s)
    (hsub : ∀ q ∈ s'.procs, q.oomAdj = LIMITED_PROCESS_OOMADJ → told q.pid s'.log = false →
      q ∈ s.procs ∧ told q.pid s.log = false) : Single s' := by
  intro p hp q hq hp15 hq15 hpt hqt
  obtain ⟨hp, hpt⟩ := hsub p hp hp15 hpt
  obtain ⟨hq, hqt⟩ := hsub q hq hq15 hqt
  exact h p hp q hq hp15 hq15 hpt hqt

theorem Single.after {s : State} (h : Single s) (gone : List Int) : Single (exits gone s) := by
  obtain ⟨hlog, hprocs⟩ := exits_spec gone s
  refine h.of_sub fun q hq _ ht => ⟨((hprocs q).mp hq).1, ?_⟩
  rwa [hlog] at ht

/-- A write of another value brings nobody there. -/
theorem Single.write {s : State} {gone : List Int} (h : Single (exits gone s)) (pid : Int) {w : Int}
    (hw : w < LIMITED_PROCESS_OOMADJ) : Single (exits gone (s.write pid w)) := by
  obtain ⟨hlog, hprocs⟩ := exits_spec gone s
  obtain ⟨hlog', hprocs'⟩ := exits_spec gone (s.write pid w)
  refine h.of_sub fun q hq hq15 ht => ?_
  obtain ⟨hq, hlive⟩ := (hprocs' q).mp hq
  have hmem := mem_write hq
  split at hmem
  · omega
  · rename_i hne
    have hnew : (s.write pid w).log = s.log ++ [.write pid w] := rfl
    have hmove : ∀ e ∈ [Effect.write pid w], move e ≠ some q.pid := by
      intro e he hmv
      rw [List.mem_singleton.mp he, move] at hmv
      split at hmv
      · exact hne (Option.some.inj hmv).symm
      · cases hmv
    rw [hlog', hnew] at ht
    rw [hlog]
    exact ⟨(hprocs q).mpr ⟨hmem, hlive⟩, (not_told_before hmove ht).1⟩

/-- The ageing pass, by those who are still there: those at the limit are sent
SIGTERM, and one at most comes to it. -/
theorem single_aged {s : State} {a : Access} {p : Option Int} {gone : List Int}
    (h : Ordered s.procs (moves s)) : Single (exits gone (s.age (failsAt gone p a))) := by
  have hlim : LIMITED_PROCESS_OOMADJ = 15 := rfl
  have hone : OOMADJ_BACKGRD_UNLOCKED = 1 := rfl
  obtain ⟨hlog, hprocs⟩ := exits_spec gone (s.age (failsAt gone p a))
  have hcame : ∀ q ∈ (exits gone (s.age (failsAt gone p a))).procs,
      q.oomAdj = LIMITED_PROCESS_OOMADJ →
      told q.pid (exits gone (s.age (failsAt gone p a))).log = false → ⟨q.pid, 14⟩ ∈ s.procs := by
    intro q hq hq15 ht
    obtain ⟨hq, hlive⟩ := (hprocs q).mp hq
    obtain hlt | ⟨x, hx, hge, rfl⟩ := mem_aged hq hlive
    · omega
    · have hle := h.le x hx
      have hnot : ¬ LIMITED_PROCESS_OOMADJ ≤ x.oomAdj := by
        intro hlimit
        rw [hlog] at ht
        refine (not_told_before (move_age _ s.procs x.pid) ht).2 (mem_age_sigterm.mpr ?_)
        exact ⟨x, hx, rfl, by simp [failsAt, hlive], hlimit⟩
      have h14 : x.oomAdj = 14 := by
        simp only [older] at hq15
        split at hq15 <;> omega
      rw [← h14]
      exact hx
  intro p hp q hq hp15 hq15 hpt hqt
  have hp14 := hcame p hp hp15 hpt
  have hq14 := hcame q hq hq15 hqt
  have hlo : (1 : Int) ≤ 14 := by decide
  have hhi : (14 : Int) ≤ 14 := by decide
  by_contra hne
  exact h.recencyOrder.distinct _ hp14 _ hq14 hne hlo hhi hlo hhi rfl

theorem single_outcome {r : Request} {a : Access} {p : Option Int} {gone : List Int} {s s' : State}
    {pid v : Int} (h : Ordered s.procs (moves s)) (hs : Single s)
    (ho : Outcome (r.switch v) (failsAt gone p a) s pid s') : Single (exits gone s') := by
  have hlt : OOMADJ_BACKGRD_UNLOCKED < LIMITED_PROCESS_OOMADJ := by decide
  cases ho with
  | nothing => exact hs.after gone
  | set w hc => exact (hs.after gone).write pid (Int.lt_trans (switch_set hc) hlt)
  | fresh w hc _ =>
    obtain ⟨rfl, -⟩ := switch_ageSet hc
    exact (hs.after gone).write pid hlt
  | aged w hc _ => exact single_aged h
  | shifted w hc _ =>
    obtain ⟨rfl, -⟩ := switch_ageSet hc
    exact (single_aged h).write pid hlt

theorem single_step {s s' : State} {l : Lbl} (h : Ordered s.procs (moves s)) (hs : Single s)
    (hst : step s l = some s') : Single s' := by
  cases l with
  | start pid v =>
    obtain ⟨hv, hst⟩ := Option.ite_none_right_eq_some.mp hst
    obtain ⟨hprocs, hlog⟩ := start_eq_some hst
    refine hs.of_sub fun q hq hq15 ht => ?_
    rw [hlog] at ht
    rw [hprocs] at hq
    rcases List.mem_append.mp hq with hq | hq
    · exact ⟨hq, ht⟩
    · have hzero : q.oomAdj = v := by rw [List.mem_singleton.mp hq]
      unfold LIMITED_PROCESS_OOMADJ at hq15
      omega
  | exit pid =>
    obtain rfl := Option.some.inj hst
    exact hs.of_sub fun q hq _ ht => ⟨List.mem_of_mem_filter hq, ht⟩
  | request r a argc argv gone =>
    obtain ⟨o, ho, rfl⟩ := Option.map_eq_some_iff.mp hst
    rcases action_outcome ho with heq | ⟨pid, v, -, -, hout⟩
    · rw [heq]
      exact hs.after gone
    · exact single_outcome h hs hout

theorem single_inv : lts.Inductive fun s => Ordered s.procs (moves s) ∧ Single s where
  init s h₀ := by
    refine ⟨ordered_inv.init s h₀, fun p hp q _ hp15 => ?_⟩
    have hle := h₀.procs p hp
    unfold LIMITED_PROCESS_OOMADJ at hp15
    omega
  step s l s' h hst := ⟨ordered_step h.1 hst, single_step h.1 h.2 hst⟩

/-! ## The bound -/

/-- The values of those that are kept are distinct. -/
theorem kept_nodup {s : State} (h : Ordered s.procs (moves s)) (hs : Single s) :
    ((kept s).map Proc.oomAdj).Nodup := by
  have hprocs : s.procs.Nodup := List.Nodup.of_map _ s.nodup
  refine (hprocs.filter _).map_on fun p hp q hq heq => ?_
  obtain ⟨hp, hpk⟩ := List.mem_filter.mp hp
  obtain ⟨hq, hqk⟩ := List.mem_filter.mp hq
  simp only [Bool.and_eq_true, decide_eq_true_eq, Bool.not_eq_true'] at hpk hqk
  have hle := h.le p hp
  have hlim : LIMITED_PROCESS_OOMADJ = 15 := rfl
  have hone : OOMADJ_BACKGRD_UNLOCKED = 1 := rfl
  refine List.inj_on_of_nodup_map s.nodup hp hq ?_
  by_cases h15 : p.oomAdj = LIMITED_PROCESS_OOMADJ
  · exact hs p hp q hq h15 (heq.symm.trans h15) hpk.2 hqk.2
  · by_contra hne
    exact h.recencyOrder.distinct p hp q hq hne hpk.1 (by omega) hqk.1 (by omega) heq

/-- **The capacity of the unlocked background.** Processes enter at 0 or below
and may exit at any time. In every reachable state at most
LIMITED_PROCESS_OOMADJ of them are in the unlocked background without having
been sent SIGTERM since they last moved there. -/
theorem capacity (s : State) (hr : lts.Reachable s) : (kept s).length ≤ 15 := by
  obtain ⟨h, hs⟩ := single_inv.reachable hr
  have hrange : ∀ v ∈ (kept s).map Proc.oomAdj, v ∈ (List.range 15).map fun n : Nat => (n : Int) + 1 := by
    intro v hv
    obtain ⟨q, hq, rfl⟩ := List.mem_map.mp hv
    obtain ⟨hq, hk⟩ := List.mem_filter.mp hq
    simp only [Bool.and_eq_true, decide_eq_true_eq] at hk
    have hle := h.le q hq
    have hlim : LIMITED_PROCESS_OOMADJ = 15 := rfl
    have hone : OOMADJ_BACKGRD_UNLOCKED = 1 := rfl
    exact List.mem_map.mpr ⟨(q.oomAdj - 1).toNat, List.mem_range.mpr (by omega), by omega⟩
  have hle := (List.subperm_of_subset (kept_nodup h hs) hrange).length_le
  rwa [List.length_map, List.length_map, List.length_range] at hle

/-- 5 is sent SIGTERM by the last move, and stays. -/
def crowded : List Lbl := crowd ++ [req .backgrd "6"]

theorem capacity_crowded : ∃ s, lts.run table crowded = some s ∧
    s.procs = [⟨5, 15⟩, ⟨6, 1⟩, ⟨7, 2⟩] ∧ kept s = [⟨6, 1⟩, ⟨7, 2⟩] ∧ (kept s).length ≤ 15 := by
  have hrun : (lts.run table crowded).map (fun s => (s.procs, kept s)) =
      some ([⟨5, 15⟩, ⟨6, 1⟩, ⟨7, 2⟩], [⟨6, 1⟩, ⟨7, 2⟩]) := by decide +kernel
  obtain ⟨s, hs, heq⟩ := Option.map_eq_some_iff.mp hrun
  obtain ⟨hprocs, hkept⟩ := Prod.mk.inj heq
  exact ⟨s, hs, hprocs, hkept, capacity s ⟨table, crowded, init_table, hs⟩⟩

end SystemServer.L4.Recency
