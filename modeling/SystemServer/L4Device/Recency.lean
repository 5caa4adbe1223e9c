import SystemServer.L4Device.Ageing

/-!
# The order of the unlocked background (`ss_procmgr.c`)

Every process that goes to the unlocked background is written
OOMADJ_BACKGRD_UNLOCKED, and the ones already there are aged when one of
them still has that value. The daemon keeps no record of who came when; the
values are the record.

The account of who came when is read off the log of what was done:
`State.moves` are the writes of OOMADJ_BACKGRD_UNLOCKED, the last one first,
and `State.since` counts those after a process's own last one. `Ordered` is
the invariant over both; its five fields are what one ageing pass needs
(`Ordered.aged`) and what one move needs (`Ordered.push`).

* `background_order`: a later move means a smaller value, up to
  LIMITED_PROCESS_OOMADJ, and no process is sent SIGTERM while one that has
  been there longer is spared.
* `eviction_count`: a process sent SIGTERM has seen 15 moves of others, the
  one that set off the ageing pass included.

Accesses to `/proc` succeed, but a process may exit at any time, also while
a request is under way: then the accesses to it from that moment on fail.
-/
namespace SystemServer.L4.Recency

open SystemServer.L4.ProcMgr

/-! ## Moves -/

/-- The pid a write moves into the unlocked background. -/
def move : Effect → Option Int
  | .write pid v => if v = OOMADJ_BACKGRD_UNLOCKED then some pid else none
  | .sigterm _ => none

/-- The moves, the last one first. -/
def movesOf (es : List Effect) : List Int := (es.filterMap move).reverse

/-- How many moves there were since the last one of `pid`, all of them of
other processes. -/
def since (ms : List Int) (pid : Int) : Nat := (ms.takeWhile (· ≠ pid)).length

@[simp] theorem since_self (ms : List Int) (pid : Int) : since (pid :: ms) pid = 0 := by
  simp [since]

theorem since_cons {p pid : Int} (ms : List Int) (h : p ≠ pid) :
    since (p :: ms) pid = since ms pid + 1 := by
  simp [since, h]

theorem since_inj {ms : List Int} {p q : Int} (hp : p ∈ ms) (hq : q ∈ ms)
    (h : since ms p = since ms q) : p = q := by
  induction ms with
  | nil => cases hp
  | cons m ms ih =>
    by_cases hmp : m = p
    · by_cases hmq : m = q
      · exact hmp.symm.trans hmq
      · rw [← hmp, since_self, since_cons ms hmq] at h
        omega
    · by_cases hmq : m = q
      · rw [← hmq, since_self, since_cons ms hmp] at h
        omega
      · rw [since_cons ms hmp, since_cons ms hmq] at h
        exact ih (List.mem_of_ne_of_mem (Ne.symm hmp) hp) (List.mem_of_ne_of_mem (Ne.symm hmq) hq)
          (by omega)

theorem movesOf_append (es es' : List Effect) : movesOf (es ++ es') = movesOf es' ++ movesOf es := by
  simp [movesOf]

/-- Ageing moves nobody. -/
theorem movesOf_age (a : Access) (qs : List Proc) :
    movesOf (qs.flatMap fun q => (ageEntry a q).2) = [] := by
  refine List.reverse_eq_nil_iff.mpr (List.filterMap_eq_nil_iff.mpr fun e he => ?_)
  obtain ⟨q, -, he⟩ := List.mem_flatMap.mp he
  generalize hv : (ageEntry a q).1 = v at *
  generalize hes : (ageEntry a q).2 = es at *
  have hage : Aged q v es := hv ▸ hes ▸ aged_ageEntry a q
  cases hage with
  | alone => cases he
  | terminated => rw [List.mem_singleton.mp he]; rfl
  | older hlo =>
    rw [List.mem_singleton.mp he]
    exact if_neg (by omega)

/-! ## The daemon among processes that exit -/

/-- An access fails only at a process that exits before the request is over.
`p` is the process the request names. -/
def failsAt (gone : List Int) (p : Option Int) (a : Access) : Access where
  get := a.get || p.all (· ∉ gone)
  setRead := a.setRead || p.all (· ∉ gone)
  setOpen := a.setOpen || p.all (· ∉ gone)
  setWrite := a.setWrite || p.all (· ∉ gone)
  lookDir := true
  ageDir := true
  look q := a.look q || q ∉ gone
  age q := a.age q || q ∉ gone
  ageWrite q := a.ageWrite q || q ∉ gone

inductive Lbl where
  | start (pid oomAdj : Int)
  | exit (pid : Int)
  /-- `gone` exit while the request is served -/
  | request (r : Request) (a : Access) (argc : Int) (argv : List CPtr) (gone : List Int)

def exits (gone : List Int) (s : State) : State := gone.foldl State.exit s

/-- Every process enters outside the unlocked background. -/
def step (s : State) : Lbl → Option State
  | .start pid v => if v ≤ 0 then s.start pid v else none
  | .exit pid => some (s.exit pid)
  | .request r a argc argv gone =>
    (r.action (failsAt gone (named argc argv) a) argc argv s).map fun o => exits gone o.2

structure Init (s : State) : Prop where
  procs : ∀ q ∈ s.procs, q.oomAdj ≤ 0
  log : s.log = []

def lts : LTS State Lbl := ⟨Init, step⟩

def moves (s : State) : List Int := movesOf s.log

/-- What a step did. -/
def news (s s' : State) : List Effect := s'.log.drop s.log.length

theorem exits_spec (gone : List Int) (s : State) :
    (exits gone s).log = s.log ∧ ∀ q, q ∈ (exits gone s).procs ↔ q ∈ s.procs ∧ q.pid ∉ gone := by
  induction gone generalizing s with
  | nil => simp [exits]
  | cons pid gone ih =>
    obtain ⟨hlog, hprocs⟩ := ih (s.exit pid)
    refine ⟨hlog, fun q => (hprocs q).trans ?_⟩
    simp only [State.exit, List.mem_filter, List.mem_cons, not_or, decide_eq_true_eq]
    tauto

/-! ## The invariant -/

/-- The values of the unlocked background against the moves. -/
structure Ordered (qs : List Proc) (ms : List Int) : Prop where
  le : ∀ q ∈ qs, q.oomAdj ≤ LIMITED_PROCESS_OOMADJ
  moved : ∀ q ∈ qs, OOMADJ_BACKGRD_UNLOCKED ≤ q.oomAdj → q.pid ∈ ms
  order : ∀ p ∈ qs, ∀ q ∈ qs, OOMADJ_BACKGRD_UNLOCKED ≤ p.oomAdj →
    OOMADJ_BACKGRD_UNLOCKED ≤ q.oomAdj → since ms p.pid < since ms q.pid →
      p.oomAdj < q.oomAdj ∨
        (p.oomAdj = LIMITED_PROCESS_OOMADJ ∧ q.oomAdj = LIMITED_PROCESS_OOMADJ)
  count : ∀ q ∈ qs, OOMADJ_BACKGRD_UNLOCKED ≤ q.oomAdj → q.oomAdj ≤ since ms q.pid + 2
  /-- where the next pass will find one to make room for -/
  countAt : (∃ p ∈ qs, p.oomAdj = OOMADJ_BACKGRD_UNLOCKED) → ∀ q ∈ qs,
    OOMADJ_BACKGRD_UNLOCKED ≤ q.oomAdj → q.oomAdj ≤ since ms q.pid + 1

/-- The processes outside the unlocked background do not count. -/
theorem Ordered.of_sub {qs qs' : List Proc} {ms : List Int} (h : Ordered qs ms)
    (hsub : ∀ q ∈ qs', q.oomAdj < OOMADJ_BACKGRD_UNLOCKED ∨ q ∈ qs) : Ordered qs' ms := by
  have hin : ∀ q ∈ qs', OOMADJ_BACKGRD_UNLOCKED ≤ q.oomAdj → q ∈ qs :=
    fun q hq hge => (hsub q hq).resolve_left (Int.not_lt.mpr hge)
  constructor
  · intro q hq
    rcases hsub q hq with hlt | hq
    · exact Int.le_of_lt (Int.lt_trans hlt (by decide))
    · exact h.le q hq
  · exact fun q hq hge => h.moved q (hin q hq hge) hge
  · exact fun p hp q hq hpge hqge => h.order p (hin p hp hpge) q (hin q hq hqge) hpge hqge
  · exact fun q hq hge => h.count q (hin q hq hge) hge
  · rintro ⟨p, hp, hat⟩ q hq hge
    exact h.countAt ⟨p, hin p hp (Int.le_of_eq hat.symm), hat⟩ q (hin q hq hge) hge

/-- One step up, up to the limit. -/
def older (v : Int) : Int := if v < LIMITED_PROCESS_OOMADJ then v + 1 else v

/-- The ageing pass, which ran because one was found to make room for. -/
theorem Ordered.aged {qs qs' : List Proc} {ms : List Int} (h : Ordered qs ms)
    (hat : ∃ p ∈ qs, p.oomAdj = OOMADJ_BACKGRD_UNLOCKED)
    (hsub : ∀ q' ∈ qs', q'.oomAdj < OOMADJ_BACKGRD_UNLOCKED ∨
      ∃ q ∈ qs, OOMADJ_BACKGRD_UNLOCKED ≤ q.oomAdj ∧ q' = ⟨q.pid, older q.oomAdj⟩) :
    Ordered qs' ms ∧ ∀ q' ∈ qs', q'.oomAdj ≠ OOMADJ_BACKGRD_UNLOCKED := by
  have hlim : LIMITED_PROCESS_OOMADJ = 15 := rfl
  have hone : OOMADJ_BACKGRD_UNLOCKED = 1 := rfl
  have hin : ∀ q' ∈ qs', OOMADJ_BACKGRD_UNLOCKED ≤ q'.oomAdj →
      ∃ q ∈ qs, OOMADJ_BACKGRD_UNLOCKED ≤ q.oomAdj ∧ q' = ⟨q.pid, older q.oomAdj⟩ :=
    fun q' hq' hge => (hsub q' hq').resolve_left (Int.not_lt.mpr hge)
  have hne : ∀ q' ∈ qs', q'.oomAdj ≠ OOMADJ_BACKGRD_UNLOCKED := by
    intro q' hq' heq
    obtain ⟨q, hq, hge, rfl⟩ := hin q' hq' (Int.le_of_eq heq.symm)
    simp only [older] at heq
    split at heq <;> omega
  refine ⟨⟨?_, ?_, ?_, ?_, fun ⟨p, hp, heq⟩ => absurd heq (hne p hp)⟩, hne⟩
  · intro q' hq'
    rcases hsub q' hq' with hlt | ⟨q, hq, hge, rfl⟩
    · omega
    · have := h.le q hq
      simp only [older]
      split <;> omega
  · intro q' hq' hge'
    obtain ⟨q, hq, hge, rfl⟩ := hin q' hq' hge'
    exact h.moved q hq hge
  · intro p' hp' q' hq' hpge' hqge' hlt
    obtain ⟨p, hp, hpge, rfl⟩ := hin p' hp' hpge'
    obtain ⟨q, hq, hqge, rfl⟩ := hin q' hq' hqge'
    have hord := h.order p hp q hq hpge hqge hlt
    have hle := h.le q hq
    simp only [older]
    split <;> split <;> omega
  · intro q' hq' hge'
    obtain ⟨q, hq, hge, rfl⟩ := hin q' hq' hge'
    have := h.countAt hat q hq hge
    simp only [older]
    split <;> omega

/-- A move, where nobody is left at the value it takes. -/
theorem Ordered.push {qs qs' : List Proc} {ms : List Int} (h : Ordered qs ms) {pid : Int}
    (hsub : ∀ q' ∈ qs', q' = ⟨pid, OOMADJ_BACKGRD_UNLOCKED⟩ ∨ q'.oomAdj < OOMADJ_BACKGRD_UNLOCKED ∨
      (q' ∈ qs ∧ q'.pid ≠ pid ∧ q'.oomAdj ≠ OOMADJ_BACKGRD_UNLOCKED)) :
    Ordered qs' (pid :: ms) := by
  have hlim : LIMITED_PROCESS_OOMADJ = 15 := rfl
  have hone : OOMADJ_BACKGRD_UNLOCKED = 1 := rfl
  have hin : ∀ q' ∈ qs', OOMADJ_BACKGRD_UNLOCKED ≤ q'.oomAdj →
      q' = ⟨pid, OOMADJ_BACKGRD_UNLOCKED⟩ ∨
        (q' ∈ qs ∧ OOMADJ_BACKGRD_UNLOCKED < q'.oomAdj ∧
          since (pid :: ms) q'.pid = since ms q'.pid + 1) := by
    intro q' hq' hge
    rcases hsub q' hq' with hself | hlt | ⟨hq, hne, hne1⟩
    · exact .inl hself
    · omega
    · exact .inr ⟨hq, by omega, since_cons ms hne.symm⟩
  have hcount : ∀ q' ∈ qs', OOMADJ_BACKGRD_UNLOCKED ≤ q'.oomAdj →
      q'.oomAdj ≤ since (pid :: ms) q'.pid + 1 := by
    intro q' hq' hge
    rcases hin q' hq' hge with rfl | ⟨hq, -, hs⟩
    · simp only [since_self]
      omega
    · have := h.count q' hq hge
      omega
  refine ⟨?_, ?_, ?_, fun q' hq' hge => ?_, fun _ => hcount⟩
  · intro q' hq'
    rcases hsub q' hq' with rfl | hlt | ⟨hq, -, -⟩
    · exact (by decide : OOMADJ_BACKGRD_UNLOCKED ≤ LIMITED_PROCESS_OOMADJ)
    · omega
    · exact h.le q' hq
  · intro q' hq' hge
    rcases hin q' hq' hge with rfl | ⟨hq, -, -⟩
    · exact List.mem_cons_self
    · exact List.mem_cons_of_mem _ (h.moved q' hq hge)
  · intro p hp q hq hpge hqge hlt
    rcases hin q hq hqge with rfl | ⟨hq', hq1, hqs⟩
    · simp only [since_self] at hlt
      omega
    · rcases hin p hp hpge with rfl | ⟨hp', hp1, hps⟩
      · exact .inl hq1
      · exact h.order p hp' q hq' hpge hqge (by omega)
  · have := hcount q' hq' hge
    omega

/-! ## What a request does -/

theorem lookOldBackgrd_iff (a : Access) (qs : List Proc) : lookOldBackgrd a qs = true ↔
    ∃ q ∈ qs, a.look q.pid = true ∧ q.oomAdj = OOMADJ_BACKGRD_UNLOCKED := by
  induction qs with
  | nil => simp [lookOldBackgrd]
  | cons q qs ih =>
    unfold lookOldBackgrd
    by_cases hl : a.look q.pid = false
    · rw [if_pos hl, ih]
      simp [hl]
    · rw [if_neg hl]
      by_cases hv : q.oomAdj = OOMADJ_BACKGRD_UNLOCKED
      · rw [if_pos hv]
        exact iff_of_true rfl ⟨q, List.mem_cons_self, by simpa using hl, hv⟩
      · rw [if_neg hv, ih]
        simp [hv]

theorem ageEntry_ok {a : Access} {q : Proc} (hage : a.age q.pid = true)
    (hw : a.ageWrite q.pid = true) (hge : OOMADJ_BACKGRD_UNLOCKED ≤ q.oomAdj) :
    (ageEntry a q).1 = older q.oomAdj := by
  unfold ageEntry older
  rw [if_neg (by rw [hage]; decide), if_pos hw]
  by_cases hlim : q.oomAdj < LIMITED_PROCESS_OOMADJ
  · rw [if_neg (Int.not_le.mpr hlim), if_pos hge, if_pos hlim]
  · rw [if_pos (Int.not_lt.mp hlim), if_neg hlim]

theorem mem_age_sigterm {a : Access} {qs : List Proc} {pid : Int} :
    .sigterm pid ∈ (qs.flatMap fun q => (ageEntry a q).2) ↔
      ∃ q ∈ qs, q.pid = pid ∧ a.age pid = true ∧ LIMITED_PROCESS_OOMADJ ≤ q.oomAdj := by
  rw [List.mem_flatMap]
  have hentry : ∀ q : Proc, .sigterm pid ∈ (ageEntry a q).2 ↔
      q.pid = pid ∧ a.age pid = true ∧ LIMITED_PROCESS_OOMADJ ≤ q.oomAdj := by
    intro q
    unfold ageEntry
    by_cases hage : a.age q.pid = false
    · rw [if_pos hage]
      refine iff_of_false List.not_mem_nil fun h => ?_
      rw [h.1, h.2.1] at hage
      cases hage
    rw [if_neg hage]
    by_cases hlim : q.oomAdj ≥ LIMITED_PROCESS_OOMADJ
    · rw [if_pos hlim, List.mem_singleton, Effect.sigterm.injEq]
      constructor
      · rintro rfl
        exact ⟨rfl, by simpa using hage, hlim⟩
      · exact fun h => h.1.symm
    · rw [if_neg hlim]
      refine iff_of_false (fun he => ?_) fun h => hlim h.2.2
      split at he
      · split at he
        · cases List.mem_singleton.mp he
        · cases he
      · cases he
  exact ⟨fun ⟨q, hq, h⟩ => ⟨q, hq, (hentry q).mp h⟩, fun ⟨q, hq, h⟩ => ⟨q, hq, (hentry q).mpr h⟩⟩

theorem news_eq {s s' : State} {es : List Effect} (h : s'.log = s.log ++ es) : news s s' = es := by
  rw [news, h, List.drop_left]

/-- The second scan by those who are still there after the request. -/
theorem mem_aged {gone : List Int} {p : Option Int} {a : Access} {s : State} {q' : Proc}
    (hq' : q' ∈ (s.age (failsAt gone p a)).procs) (hlive : q'.pid ∉ gone) :
    q'.oomAdj < OOMADJ_BACKGRD_UNLOCKED ∨
      ∃ q ∈ s.procs, OOMADJ_BACKGRD_UNLOCKED ≤ q.oomAdj ∧ q' = ⟨q.pid, older q.oomAdj⟩ := by
  obtain ⟨q, hq, rfl⟩ := mem_update.mp hq'
  by_cases hlt : q.oomAdj < OOMADJ_BACKGRD_UNLOCKED
  · rw [ageEntry_of_lt _ hlt]
    exact .inl hlt
  · have hge := Int.not_lt.mp hlt
    have hage : (failsAt gone p a).age q.pid = true := by simp [failsAt, hlive]
    have hw : (failsAt gone p a).ageWrite q.pid = true := by simp [failsAt, hlive]
    rw [ageEntry_ok hage hw hge]
    exact .inr ⟨q, hq, hge, rfl⟩

/-- The first scan by those who are still there. -/
theorem not_at_of_look {gone : List Int} {p : Option Int} {a : Access} {qs : List Proc}
    (hl : lookOldBackgrd (failsAt gone p a) qs = false) {q : Proc} (hq : q ∈ qs)
    (hlive : q.pid ∉ gone) : q.oomAdj ≠ OOMADJ_BACKGRD_UNLOCKED := by
  intro hv
  have hlook : lookOldBackgrd (failsAt gone p a) qs = true :=
    (lookOldBackgrd_iff _ qs).mpr ⟨q, hq, by simp [failsAt, hlive], hv⟩
  rw [hl] at hlook
  cases hlook

theorem moves_write (s : State) (pid w : Int) : moves (s.write pid w) =
    if w = OOMADJ_BACKGRD_UNLOCKED then pid :: moves s else moves s := by
  have hlog : (s.write pid w).log = s.log ++ [.write pid w] := rfl
  rw [moves, hlog, movesOf_append]
  by_cases hw : w = OOMADJ_BACKGRD_UNLOCKED
  · simp [movesOf, move, hw, moves]
  · simp [movesOf, move, hw, moves]

theorem moves_age (a : Access) (s : State) : moves (s.age a) = moves s := by
  have hlog : (s.age a).log = s.log ++ s.procs.flatMap fun q => (ageEntry a q).2 := rfl
  rw [moves, hlog, movesOf_append, movesOf_age, List.nil_append]
  rfl

theorem ordered_outcome {r : Request} {a : Access} {p : Option Int} {gone : List Int} {s s' : State}
    {pid v : Int} (h : Ordered s.procs (moves s))
    (ho : Outcome (r.switch v) (failsAt gone p a) s pid s') :
    Ordered (exits gone s').procs (moves s') := by
  have hmem := fun q => ((exits_spec gone s').2 q).mp
  cases ho with
  | nothing => exact h.of_sub fun q hq => .inr (hmem q hq).1
  | set w hc =>
    have hlt := switch_set hc
    rw [moves_write, if_neg (by omega)]
    refine h.of_sub fun q hq => ?_
    have hw := mem_write (hmem q hq).1
    split at hw
    · exact .inl (hw ▸ hlt)
    · exact .inr hw
  | fresh w hc hl =>
    obtain ⟨rfl, -⟩ := switch_ageSet hc
    rw [moves_write, if_pos rfl]
    refine h.push fun q hq => ?_
    obtain ⟨hq, hlive⟩ := hmem q hq
    have hw := mem_write hq
    split at hw
    · rename_i hpid
      exact .inl (by cases q; simp_all)
    · rename_i hpid
      exact .inr (.inr ⟨hw, hpid, not_at_of_look (hl rfl rfl) hw hlive⟩)
  | aged w hc hl =>
    obtain ⟨x, hx, -, hat⟩ := (lookOldBackgrd_iff _ _).mp hl
    rw [moves_age]
    refine (h.aged ⟨x, hx, hat⟩ fun q hq => ?_).1
    obtain ⟨hq, hlive⟩ := hmem q hq
    exact mem_aged hq hlive
  | shifted w hc hl =>
    obtain ⟨rfl, -⟩ := switch_ageSet hc
    obtain ⟨x, hx, -, hat⟩ := (lookOldBackgrd_iff _ _).mp hl
    rw [moves_write, if_pos rfl, moves_age]
    -- the table between the pass and the write, of those who will still be there
    let mid := (s.age (failsAt gone p a)).procs.filter (·.pid ∉ gone)
    obtain ⟨hmid, hne⟩ : Ordered mid (moves s) ∧ ∀ q ∈ mid, q.oomAdj ≠ OOMADJ_BACKGRD_UNLOCKED := by
      refine h.aged ⟨x, hx, hat⟩ fun q hq => ?_
      obtain ⟨hq, hlive⟩ := List.mem_filter.mp hq
      exact mem_aged hq (by simpa using hlive)
    refine hmid.push fun q hq => ?_
    obtain ⟨hq, hlive⟩ := hmem q hq
    have hw := mem_write hq
    split at hw
    · rename_i hpid
      exact .inl (by cases q; simp_all)
    · rename_i hpid
      have hq : q ∈ mid := List.mem_filter.mpr ⟨hw, by simpa using hlive⟩
      exact .inr (.inr ⟨hq, hpid, hne q hq⟩)

theorem ordered_step {s s' : State} {l : Lbl} (h : Ordered s.procs (moves s))
    (hst : step s l = some s') : Ordered s'.procs (moves s') := by
  cases l with
  | start pid v =>
    simp only [step] at hst
    split at hst
    · rename_i hv
      obtain ⟨hprocs, hlog⟩ := start_eq_some hst
      rw [hprocs, moves, hlog]
      refine h.of_sub fun q hq => ?_
      rcases List.mem_append.mp hq with hq | hq
      · exact .inr hq
      · rw [List.mem_singleton.mp hq]
        exact .inl (Int.lt_of_le_of_lt hv (by decide))
    · cases hst
  | exit pid =>
    obtain rfl := Option.some.inj hst
    exact h.of_sub fun q hq => .inr (List.mem_of_mem_filter hq)
  | request r a argc argv gone =>
    obtain ⟨o, ho, rfl⟩ := Option.map_eq_some_iff.mp hst
    rw [moves, (exits_spec gone o.2).1]
    rcases action_outcome ho with hs | ⟨pid, v, -, -, hout⟩
    · rw [hs]
      exact h.of_sub fun q hq => .inr (((exits_spec gone s).2 q).mp hq).1
    · exact ordered_outcome h hout

theorem ordered_inv : lts.Inductive fun s => Ordered s.procs (moves s) := by
  refine ⟨fun s h₀ => ?_, fun s l s' h hst => ordered_step h hst⟩
  have hnone : ∀ q ∈ s.procs, q.oomAdj < OOMADJ_BACKGRD_UNLOCKED :=
    fun q hq => Int.lt_of_le_of_lt (h₀.procs q hq) (by decide)
  have hempty : Ordered [] (moves s) :=
    ⟨nofun, nofun, nofun, nofun, nofun⟩
  exact hempty.of_sub fun q hq => .inl (hnone q hq)

/-! ## Who is terminated -/

/-- The request moves `p` into the unlocked background. -/
def Moving (s : State) (r : Request) (p : Int) : Prop :=
  ∃ v, s.oomAdj p = some v ∧ r.switch v = .ageSet OOMADJ_BACKGRD_UNLOCKED

/-- Only the second scan sends SIGTERM. -/
theorem outcome_news {r : Request} {a : Access} {s s' : State} {pid v : Int}
    (ho : Outcome (r.switch v) a s pid s') :
    (∀ x, .sigterm x ∉ news s s') ∨
    (r.switch v = .ageSet OOMADJ_BACKGRD_UNLOCKED ∧ lookOldBackgrd a s.procs = true ∧
      ∀ x, .sigterm x ∈ news s s' ↔
        ∃ q ∈ s.procs, q.pid = x ∧ a.age x = true ∧ LIMITED_PROCESS_OOMADJ ≤ q.oomAdj) := by
  have hwrite : ∀ x w, .sigterm x ∉ [Effect.write pid w] := fun x w he => by
    cases List.mem_singleton.mp he
  cases ho with
  | nothing =>
    refine .inl fun x => ?_
    rw [news_eq (List.append_nil s.log).symm]
    exact List.not_mem_nil
  | set w _ =>
    refine .inl fun x => ?_
    rw [news_eq (show (s.write pid w).log = _ from rfl)]
    exact hwrite x w
  | fresh w _ _ =>
    refine .inl fun x => ?_
    rw [news_eq (show (s.write pid w).log = _ from rfl)]
    exact hwrite x w
  | aged w hc hl =>
    obtain ⟨rfl, -⟩ := switch_ageSet hc
    refine .inr ⟨hc, hl, fun x => ?_⟩
    rw [news_eq (show (s.age a).log = _ from rfl)]
    exact mem_age_sigterm
  | shifted w hc hl =>
    obtain ⟨rfl, -⟩ := switch_ageSet hc
    refine .inr ⟨hc, hl, fun x => ?_⟩
    have hlog : ((s.age a).write pid OOMADJ_BACKGRD_UNLOCKED).log =
        s.log ++ ((s.procs.flatMap fun q => (ageEntry a q).2) ++
          [.write pid OOMADJ_BACKGRD_UNLOCKED]) := List.append_assoc _ _ _
    rw [news_eq hlog, List.mem_append, or_iff_left (hwrite x _)]
    exact mem_age_sigterm

/-- A step that sent SIGTERM to `x` is a request that moves another process,
finds one to make room for, and spares nobody at the limit. -/
theorem terminated_spec {s s' : State} {l : Lbl} (hst : step s l = some s') {x : Int}
    (hk : .sigterm x ∈ news s s') :
    (∃ r a argc argv gone p, l = .request r a argc argv gone ∧ named argc argv = some p ∧
      Moving s r p) ∧
    (∃ q ∈ s.procs, q.oomAdj = OOMADJ_BACKGRD_UNLOCKED) ∧
    (∃ q ∈ s.procs, q.pid = x ∧ LIMITED_PROCESS_OOMADJ ≤ q.oomAdj) ∧
    ∀ q ∈ s.procs, q.pid ∈ s'.procs.map Proc.pid → LIMITED_PROCESS_OOMADJ ≤ q.oomAdj →
      .sigterm q.pid ∈ news s s' := by
  have hquiet : s'.log = s.log → False := by
    intro hlog
    rw [news_eq (hlog.trans (List.append_nil _).symm)] at hk
    cases hk
  cases l with
  | start pid v =>
    simp only [step] at hst
    split at hst
    · exact (hquiet (start_eq_some hst).2).elim
    · cases hst
  | exit pid =>
    obtain rfl := Option.some.inj hst
    exact (hquiet rfl).elim
  | request r a argc argv gone =>
    obtain ⟨o, ho, rfl⟩ := Option.map_eq_some_iff.mp hst
    obtain ⟨hlog, hprocs⟩ := exits_spec gone o.2
    have hnews : news s (exits gone o.2) = news s o.2 := by rw [news, hlog, news]
    rcases action_outcome ho with hs | ⟨p, v, hp, hv, hout⟩
    · exact (hquiet (hlog.trans (congrArg State.log hs))).elim
    rw [hnews] at hk ⊢
    rcases outcome_news hout with hnone | ⟨hc, hl, hkills⟩
    · exact absurd hk (hnone x)
    obtain ⟨y, hy, -, hat⟩ := (lookOldBackgrd_iff _ _).mp hl
    obtain ⟨q, hq, hpid, -, hlim⟩ := (hkills x).mp hk
    refine ⟨⟨r, a, argc, argv, gone, p, rfl, hp, v, hv, hc⟩, ⟨y, hy, hat⟩, ⟨q, hq, hpid, hlim⟩, ?_⟩
    intro z hz hlive hzlim
    obtain ⟨z', hz', hpid'⟩ := List.mem_map.mp hlive
    have hgone : z.pid ∉ gone := by
      rw [← hpid']
      exact ((hprocs z').mp hz').2
    exact (hkills z.pid).mpr ⟨z, hz, rfl, by simp [failsAt, hgone], hzlim⟩

/-- The values of the unlocked background are the order of the last moves. -/
structure RecencyOrder (s : State) : Prop where
  le : ∀ q ∈ s.procs, q.oomAdj ≤ 15
  distinct : ∀ p ∈ s.procs, ∀ q ∈ s.procs, p.pid ≠ q.pid → 1 ≤ p.oomAdj → p.oomAdj ≤ 14 →
    1 ≤ q.oomAdj → q.oomAdj ≤ 14 → p.oomAdj ≠ q.oomAdj
  moved : ∀ q ∈ s.procs, 1 ≤ q.oomAdj → q.pid ∈ moves s
  /-- `p` moved later than `q` -/
  order : ∀ p ∈ s.procs, ∀ q ∈ s.procs, 1 ≤ p.oomAdj → 1 ≤ q.oomAdj →
    since (moves s) p.pid < since (moves s) q.pid →
      p.oomAdj < q.oomAdj ∨ (p.oomAdj = 15 ∧ q.oomAdj = 15)

theorem Ordered.recencyOrder {s : State} (h : Ordered s.procs (moves s)) : RecencyOrder s where
  le := h.le
  moved := h.moved
  order := h.order
  distinct := by
    intro p hp q hq hne hp1 hp14 hq1 hq14
    have hsince : since (moves s) p.pid ≠ since (moves s) q.pid :=
      fun heq => hne (since_inj (h.moved p hp hp1) (h.moved q hq hq1) heq)
    have hlim : LIMITED_PROCESS_OOMADJ = 15 := rfl
    rcases Nat.lt_or_gt_of_ne hsince with hlt | hgt
    · have := h.order p hp q hq hp1 hq1 hlt
      omega
    · have := h.order q hq p hp hq1 hp1 hgt
      omega

/-- A step that sends SIGTERM to `p` sends it to every `q` that has been in
the unlocked background longer and is still there. -/
def Fair (s s' : State) : Prop :=
  ∀ p ∈ s.procs, .sigterm p.pid ∈ news s s' → ∀ q ∈ s.procs, 1 ≤ q.oomAdj →
    since (moves s) p.pid < since (moves s) q.pid → q.pid ∈ s'.procs.map Proc.pid →
      .sigterm q.pid ∈ news s s'

/-- **Background order is recency order.** Processes enter at 0 or below and
may exit at any time. In every reachable state the values from 1 to 14 are
distinct, none is over 15, and the process that moved into the unlocked
background later has the smaller value unless both have 15; so the ageing
pass sends SIGTERM to no process while it spares one that has been there
longer. -/
theorem background_order (s : State) (hr : lts.Reachable s) :
    RecencyOrder s ∧ ∀ l s', lts.step s l = some s' → Fair s s' := by
  have h := ordered_inv.reachable hr
  refine ⟨h.recencyOrder, fun l s' hst p hp hk q hq hq1 hlt hlive => ?_⟩
  obtain ⟨-, -, ⟨p', hp', hpid, hlim⟩, hspare⟩ := terminated_spec hst hk
  obtain rfl := List.inj_on_of_nodup_map s.nodup hp' hp hpid
  have hp1 : OOMADJ_BACKGRD_UNLOCKED ≤ p'.oomAdj := Int.le_trans (by decide) hlim
  refine hspare q hq hlive ?_
  rcases h.order p' hp' q hq hp1 hq1 hlt with hval | ⟨-, hval⟩
  · exact Int.le_trans hlim (Int.le_of_lt hval)
  · exact Int.le_of_eq hval.symm

/-- Three processes, none of which has been named yet. -/
def table : State where
  procs := [⟨5, OOMADJ_INIT⟩, ⟨6, OOMADJ_INIT⟩, ⟨7, OOMADJ_INIT⟩]
  log := []
  nodup := by decide
  pos := by decide

theorem init_table : Init table := ⟨by decide, rfl⟩

def req (r : Request) (pid : String) : Lbl := .request r .ok 1 [some ⟨0, lit pid⟩] []

/-- One move after the other, the oldest of them leaving again. -/
def moveAndLeave : List Lbl :=
  [req .backgrd "5", req .backgrd "6", req .backgrd "7", req .foregrd "5", .exit 6]

theorem background_order_moveAndLeave : ∃ s, lts.run table moveAndLeave = some s ∧
    s.procs = [⟨5, -10⟩, ⟨7, 1⟩] ∧ RecencyOrder s := by
  obtain ⟨s, hs, hprocs⟩ : ∃ s, lts.run table moveAndLeave = some s ∧
      s.procs = [⟨5, -10⟩, ⟨7, 1⟩] := ⟨_, rfl, rfl⟩
  exact ⟨s, hs, hprocs, (background_order s ⟨table, moveAndLeave, init_table, hs⟩).1⟩

/-- **Eviction needs enough younger processes.** A process that is sent
SIGTERM has moved into the unlocked background, and since its last move there
have been at least 15 moves of others, the one in progress included. -/
theorem eviction_count (s : State) (hr : lts.Reachable s) (l : Lbl) (s' : State)
    (hst : lts.step s l = some s') (x : Int) (hk : .sigterm x ∈ news s s') :
    ∃ r a argc argv gone p, l = .request r a argc argv gone ∧ named argc argv = some p ∧
      Moving s r p ∧ p ≠ x ∧ x ∈ moves s ∧ 15 ≤ since (p :: moves s) x := by
  have h := ordered_inv.reachable hr
  obtain ⟨⟨r, a, argc, argv, gone, p, hl, hp, v, hv, hc⟩, hat, ⟨q, hq, rfl, hlim⟩, -⟩ :=
    terminated_spec hst hk
  have hq1 : OOMADJ_BACKGRD_UNLOCKED ≤ q.oomAdj := Int.le_trans (by decide) hlim
  have hne : p ≠ q.pid := by
    rintro rfl
    have hqv : s.oomAdj q.pid = some q.oomAdj := oomAdj_eq_some.mpr hq
    rw [Option.some.inj (hqv.symm.trans hv)] at hq1
    have := (switch_ageSet hc).2
    omega
  have hcount := h.countAt hat q hq hq1
  refine ⟨r, a, argc, argv, gone, p, hl, hp, ⟨v, hv, hc⟩, hne, h.moved q hq hq1, ?_⟩
  rw [since_cons _ hne]
  unfold LIMITED_PROCESS_OOMADJ at hlim
  omega

/-- 5 goes to the background and stays; 6 and 7 come and go in turns. -/
def crowd : List Lbl :=
  [req .backgrd "5", req .backgrd "6", req .backgrd "7"] ++
    (List.replicate 6 [req .foregrd "6", req .backgrd "6", req .foregrd "7", req .backgrd "7"]).flatten ++
    [req .foregrd "6"]

theorem eviction_count_crowd : ∃ s s', lts.run table crowd = some s ∧
    lts.step s (req .backgrd "6") = some s' ∧ .sigterm 5 ∈ news s s' ∧
    ∃ p, p ≠ 5 ∧ 15 ≤ since (p :: moves s) 5 := by
  obtain ⟨s, s', hs, hst, hk⟩ : ∃ s s', lts.run table crowd = some s ∧
      lts.step s (req .backgrd "6") = some s' ∧ .sigterm 5 ∈ news s s' := by
    have hrun : ((lts.run table crowd).bind fun s => (lts.step s (req .backgrd "6")).map fun s' =>
        news s s').map (fun es => decide (.sigterm 5 ∈ es)) = some true := by decide +kernel
    obtain ⟨es, hes, hk⟩ := Option.map_eq_some_iff.mp hrun
    obtain ⟨s, hs, hes⟩ := Option.bind_eq_some_iff.mp hes
    obtain ⟨s', hst, rfl⟩ := Option.map_eq_some_iff.mp hes
    exact ⟨s, s', hs, hst, of_decide_eq_true hk⟩
  obtain ⟨r, a, argc, argv, gone, p, -, -, -, hne, -, hle⟩ :=
    eviction_count s ⟨table, crowd, init_table, hs⟩ _ s' hst 5 hk
  exact ⟨s, s', hs, hst, hk, p, hne, hle⟩

end SystemServer.L4.Recency
