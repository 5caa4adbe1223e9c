import SystemServer.L4Device.ProcMgr

/-!
# What a request may do to the process table (`ss_procmgr.c`)

A request names one process and may walk over all of them. `Outcome` says
once which of the two it did, for any outcome of the accesses to `/proc`;
`Aged` says what the walk may do to one process, and `Frame` what a request
may do to everybody.

`requests_frame`: in every run, from any table, a process below
OOMADJ_APP_LIMIT is never touched, nobody but the named process is changed
except by ageing, and ageing is one step up below LIMITED_PROCESS_OOMADJ and
SIGTERM, without a write, from there on.
-/
namespace SystemServer.L4.ProcMgr

/-! ## Effects on one process -/

def Effect.pid : Effect → Int
  | .write pid _ => pid
  | .sigterm pid => pid

/-- What is done to a process, oldest first. -/
def doneTo (pid : Int) (es : List Effect) : List Effect := es.filter (·.pid = pid)

theorem doneTo_append (pid : Int) (es es' : List Effect) :
    doneTo pid (es ++ es') = doneTo pid es ++ doneTo pid es' :=
  List.filter_append es es'

theorem mem_doneTo {pid : Int} {e : Effect} {es : List Effect} :
    e ∈ doneTo pid es ↔ e ∈ es ∧ e.pid = pid := by
  simp [doneTo, List.mem_filter]

theorem doneTo_eq_nil {pid : Int} {es : List Effect} (h : ∀ e ∈ es, e.pid ≠ pid) :
    doneTo pid es = [] :=
  List.filter_eq_nil_iff.mpr fun e he => by simpa using h e he

/-- A scan that does to each entry what concerns it alone. -/
theorem doneTo_flatMap {f : Proc → List Effect} (hf : ∀ q, ∀ e ∈ f q, e.pid = q.pid)
    {qs : List Proc} (hnd : (qs.map Proc.pid).Nodup) {q : Proc} (hq : q ∈ qs) :
    doneTo q.pid (qs.flatMap f) = f q := by
  induction qs with
  | nil => cases hq
  | cons x qs ih =>
    obtain ⟨hx, hnd⟩ := List.nodup_cons.mp hnd
    rw [List.flatMap_cons, doneTo_append]
    rcases List.mem_cons.mp hq with rfl | hq
    · have hown : doneTo q.pid (f q) = f q :=
        List.filter_eq_self.mpr fun e he => by simpa using hf q e he
      have hrest : doneTo q.pid (qs.flatMap f) = [] := by
        refine doneTo_eq_nil fun e he hpid => ?_
        obtain ⟨y, hy, he⟩ := List.mem_flatMap.mp he
        exact hx (List.mem_map.mpr ⟨y, hy, (hf y e he).symm.trans hpid⟩)
      rw [hown, hrest, List.append_nil]
    · have hne : x.pid ≠ q.pid := fun he => hx (List.mem_map.mpr ⟨q, hq, he.symm⟩)
      rw [ih hnd hq, doneTo_eq_nil (fun e he hpid => hne ((hf x e he).symm.trans hpid)),
        List.nil_append]

/-! ## The ageing pass -/

/-- What ageing may do to a process: nothing, one step up, or SIGTERM. -/
inductive Aged (q : Proc) : Int → List Effect → Prop where
  | alone : Aged q q.oomAdj []
  | older (hlo : OOMADJ_BACKGRD_UNLOCKED ≤ q.oomAdj) (hhi : q.oomAdj < LIMITED_PROCESS_OOMADJ) :
      Aged q (q.oomAdj + 1) [.write q.pid (q.oomAdj + 1)]
  | terminated (h : LIMITED_PROCESS_OOMADJ ≤ q.oomAdj) : Aged q q.oomAdj [.sigterm q.pid]

theorem aged_ageEntry (a : Access) (q : Proc) : Aged q (ageEntry a q).1 (ageEntry a q).2 := by
  unfold ageEntry
  split
  · exact .alone
  split
  · rename_i hlim
    exact .terminated hlim
  split
  · rename_i hlim hlo
    split
    · exact .older hlo (Int.not_le.mp hlim)
    · exact .alone
  · exact .alone

theorem Aged.pid_eq {q : Proc} {v : Int} {es : List Effect} (h : Aged q v es) :
    ∀ e ∈ es, e.pid = q.pid := by
  cases h with
  | alone => exact fun e he => absurd he List.not_mem_nil
  | older => exact fun e he => by rw [List.mem_singleton.mp he]; rfl
  | terminated => exact fun e he => by rw [List.mem_singleton.mp he]; rfl

/-- Below the unlocked background nobody is aged. -/
theorem Aged.eq_of_lt {q : Proc} {v : Int} {es : List Effect} (h : Aged q v es)
    (hlt : q.oomAdj < OOMADJ_BACKGRD_UNLOCKED) : v = q.oomAdj ∧ es = [] := by
  unfold OOMADJ_BACKGRD_UNLOCKED at hlt
  cases h with
  | alone => exact ⟨rfl, rfl⟩
  | older hlo => unfold OOMADJ_BACKGRD_UNLOCKED at hlo; omega
  | terminated hlim => unfold LIMITED_PROCESS_OOMADJ at hlim; omega

theorem doneTo_age (a : Access) {s : State} {q : Proc} (hq : q ∈ s.procs) :
    doneTo q.pid (s.procs.flatMap fun q => (ageEntry a q).2) = (ageEntry a q).2 :=
  doneTo_flatMap (fun q => (aged_ageEntry a q).pid_eq) s.nodup hq

theorem mem_age {a : Access} {s : State} {q : Proc} (hq : q ∈ s.procs) :
    ⟨q.pid, (ageEntry a q).1⟩ ∈ (s.age a).procs :=
  mem_update.mpr ⟨q, hq, rfl⟩

theorem mem_write_ne {s : State} {pid w : Int} {q : Proc} (hq : q ∈ s.procs) (hne : q.pid ≠ pid) :
    q ∈ (s.write pid w).procs :=
  mem_update.mpr ⟨q, hq, by rw [if_neg hne]⟩

theorem mem_write_self {s : State} {pid v : Int} (w : Int) (h : s.oomAdj pid = some v) :
    ⟨pid, w⟩ ∈ (s.write pid w).procs :=
  mem_update.mpr ⟨⟨pid, v⟩, oomAdj_eq_some.mp h, by rw [if_pos rfl]⟩

theorem pids_update (s : State) (f : Proc → Int) (es : List Effect) :
    (s.update f es).procs.map Proc.pid = s.procs.map Proc.pid := by
  simp only [State.update, List.map_map, Function.comp_def]

/-! ## The outcomes of a request -/

/-- What a case of a switch did: nothing, the write alone, the ageing pass
alone, or both. -/
inductive Outcome (c : Case) (a : Access) (s : State) (pid : Int) : State → Prop where
  | nothing : Outcome c a s pid s
  | set (w) (hc : c = .set w) : Outcome c a s pid (s.write pid w)
  /-- the pass found no process to make room for -/
  | fresh (w) (hc : c = .ageSet w)
      (hl : a.lookDir = true → a.ageDir = true → lookOldBackgrd a s.procs = false) :
      Outcome c a s pid (s.write pid w)
  | aged (w) (hc : c = .ageSet w) (hl : lookOldBackgrd a s.procs = true) :
      Outcome c a s pid (s.age a)
  | shifted (w) (hc : c = .ageSet w) (hl : lookOldBackgrd a s.procs = true) :
      Outcome c a s pid ((s.age a).write pid w)

theorem setAppOomadj_cases (a : Access) (pid w : Int) (s : State) :
    (setAppOomadj a pid w s).2 = s ∨ (setAppOomadj a pid w s).2 = s.write pid w := by
  unfold setAppOomadj
  split
  · exact .inl rfl
  split
  · exact .inl rfl
  split
  · exact .inl rfl
  · cases a.setWrite
    · exact .inl rfl
    · exact .inr rfl

theorem checkAndSetOldBackgrd_look (a : Access) (s : State) :
    ((checkAndSetOldBackgrd a s).2 = s ∧
      (a.lookDir = true → a.ageDir = true → lookOldBackgrd a s.procs = false)) ∨
    ((checkAndSetOldBackgrd a s).2 = s.age a ∧ lookOldBackgrd a s.procs = true) := by
  unfold checkAndSetOldBackgrd
  split
  · rename_i hdir
    exact .inl ⟨rfl, fun h => absurd h (by rw [hdir]; decide)⟩
  split
  · rename_i hlook
    split
    · rename_i hdir
      exact .inl ⟨rfl, fun _ h => absurd h (by rw [hdir]; decide)⟩
    · exact .inr ⟨rfl, hlook⟩
  · rename_i hlook
    exact .inl ⟨rfl, fun _ _ => by simpa using hlook⟩

theorem perform_outcome (c : Case) (a : Access) (pid : Int) (s : State) :
    Outcome c a s pid (c.perform a pid s).2 := by
  cases c with
  | keep => exact .nothing
  | unknown => exact .nothing
  | set w =>
    rcases setAppOomadj_cases a pid w s with h | h
    · rw [Case.perform, h]; exact .nothing
    · rw [Case.perform, h]; exact .set w rfl
  | ageSet w =>
    rw [Case.perform]
    rcases checkAndSetOldBackgrd_look a s with ⟨hage, hl⟩ | ⟨hage, hl⟩
    · rw [hage]
      rcases setAppOomadj_cases a pid w s with h | h
      · rw [h]; exact .nothing
      · rw [h]; exact .fresh w rfl hl
    · rw [hage]
      rcases setAppOomadj_cases a pid w (s.age a) with h | h
      · rw [h]; exact .aged w rfl hl
      · rw [h]; exact .shifted w rfl hl

/-- What a request did: nothing, or an outcome of its switch at a process
that is there. -/
theorem action_outcome {r : Request} {a : Access} {argc : Int} {argv : List CPtr} {s : State}
    {o : Int × State} (h : r.action a argc argv s = some o) :
    o.2 = s ∨ ∃ pid v, named argc argv = some pid ∧ s.oomAdj pid = some v ∧
      Outcome (r.switch v) a s pid o.2 := by
  rw [action_eq] at h
  rcases oomAction_cases h with ⟨hs, -⟩ | ⟨pid, v, hpid, hv, rfl⟩
  · exact .inl hs
  · exact .inr ⟨pid, v, hpid, hv, perform_outcome (r.switch v) a pid s⟩

/-- Only processes outside the unlocked background are moved into it, and
all of them with the pass first. -/
theorem switch_ageSet {r : Request} {v w : Int} (h : r.switch v = .ageSet w) :
    w = OOMADJ_BACKGRD_UNLOCKED ∧ v < OOMADJ_BACKGRD_UNLOCKED := by
  unfold OOMADJ_BACKGRD_UNLOCKED
  cases r <;> simp only [Request.switch, foregrdSwitch, backgrdSwitch, activeSwitch,
    inactiveSwitch, OOMADJ_SU, OOMADJ_INIT, OOMADJ_FOREGRD_LOCKED, OOMADJ_FOREGRD_UNLOCKED,
    OOMADJ_BACKGRD_LOCKED, OOMADJ_BACKGRD_UNLOCKED] at h <;> grind

theorem switch_set {r : Request} {v w : Int} (h : r.switch v = .set w) :
    w < OOMADJ_BACKGRD_UNLOCKED := by
  unfold OOMADJ_BACKGRD_UNLOCKED
  cases r <;> simp only [Request.switch, foregrdSwitch, backgrdSwitch, activeSwitch,
    inactiveSwitch, OOMADJ_SU, OOMADJ_INIT, OOMADJ_FOREGRD_LOCKED, OOMADJ_FOREGRD_UNLOCKED,
    OOMADJ_BACKGRD_LOCKED, OOMADJ_BACKGRD_UNLOCKED] at h <;> grind

/-! ## The frame of a request -/

/-- What a request of process `p` does to everybody. -/
structure Frame (p : Option Int) (s : State) (es : List Effect) (s' : State) : Prop where
  log : s'.log = s.log ++ es
  /-- no process comes or goes, and nothing is done to others -/
  pids : s'.procs.map Proc.pid = s.procs.map Proc.pid
  known : ∀ e ∈ es, e.pid ∈ s.procs.map Proc.pid
  guarded : ∀ q ∈ s.procs, q.oomAdj < OOMADJ_APP_LIMIT → q ∈ s'.procs ∧ doneTo q.pid es = []
  others : ∀ q ∈ s.procs, p ≠ some q.pid →
    ∃ v, ⟨q.pid, v⟩ ∈ s'.procs ∧ Aged q v (doneTo q.pid es)
  /-- the process itself is left alone or written once -/
  self : ∀ q ∈ s.procs, p = some q.pid → (q ∈ s'.procs ∧ doneTo q.pid es = []) ∨
    ∃ w, ⟨q.pid, w⟩ ∈ s'.procs ∧ doneTo q.pid es = [.write q.pid w]

theorem frame_refl (p : Option Int) (s : State) : Frame p s [] s where
  log := (List.append_nil _).symm
  pids := rfl
  known := fun _ he => absurd he List.not_mem_nil
  guarded := fun _ hq _ => ⟨hq, rfl⟩
  others := fun q hq _ => ⟨q.oomAdj, hq, .alone⟩
  self := fun _ hq _ => .inl ⟨hq, rfl⟩

theorem doneTo_write_ne {pid w : Int} {q : Proc} (hne : q.pid ≠ pid) :
    doneTo q.pid [.write pid w] = [] :=
  doneTo_eq_nil fun e he => by rw [List.mem_singleton.mp he]; exact hne.symm

theorem doneTo_write_self (pid w : Int) : doneTo pid [.write pid w] = [.write pid w] :=
  List.filter_eq_self.mpr fun e he => by rw [List.mem_singleton.mp he]; simp [Effect.pid]

/-- The write of a process above the limit. -/
theorem frame_write {s : State} {pid v : Int} (w : Int) (h : s.oomAdj pid = some v)
    (hv : OOMADJ_APP_LIMIT ≤ v) : Frame (some pid) s [.write pid w] (s.write pid w) where
  log := rfl
  pids := pids_update s _ _
  known := by
    intro e he
    rw [List.mem_singleton.mp he]
    exact List.mem_map.mpr ⟨_, oomAdj_eq_some.mp h, rfl⟩
  guarded := by
    intro q hq hlt
    have hne : q.pid ≠ pid := by
      intro he
      have hqv : s.oomAdj pid = some q.oomAdj := oomAdj_eq_some.mpr (he ▸ hq)
      have := Option.some.inj (hqv.symm.trans h)
      omega
    exact ⟨mem_write_ne hq hne, doneTo_write_ne hne⟩
  others := by
    intro q hq hp
    have hne : q.pid ≠ pid := fun he => hp (congrArg some he.symm)
    rw [doneTo_write_ne hne]
    exact ⟨q.oomAdj, mem_write_ne hq hne, .alone⟩
  self := by
    intro q hq hp
    obtain rfl := Option.some.inj hp
    exact .inr ⟨w, mem_write_self w h, doneTo_write_self q.pid w⟩

/-- The pass, run for a process outside the unlocked background. -/
theorem frame_age (a : Access) {s : State} {pid v : Int} (h : s.oomAdj pid = some v)
    (hv : v < OOMADJ_BACKGRD_UNLOCKED) :
    Frame (some pid) s (s.procs.flatMap fun q => (ageEntry a q).2) (s.age a) where
  log := rfl
  pids := pids_update s _ _
  known := by
    intro e he
    obtain ⟨q, hq, he⟩ := List.mem_flatMap.mp he
    exact List.mem_map.mpr ⟨q, hq, ((aged_ageEntry a q).pid_eq e he).symm⟩
  guarded := by
    intro q hq hlt
    have hlow : q.oomAdj < OOMADJ_BACKGRD_UNLOCKED := Int.lt_trans hlt (by decide)
    have hage := mem_age (a := a) hq
    rw [doneTo_age a hq]
    rw [ageEntry_of_lt a hlow] at hage ⊢
    exact ⟨hage, rfl⟩
  others := by
    intro q hq _
    rw [doneTo_age a hq]
    exact ⟨(ageEntry a q).1, mem_age hq, aged_ageEntry a q⟩
  self := by
    intro q hq hp
    obtain rfl := Option.some.inj hp
    have hqv : s.oomAdj q.pid = some q.oomAdj := oomAdj_eq_some.mpr hq
    have hlow : q.oomAdj < OOMADJ_BACKGRD_UNLOCKED := by
      rw [Option.some.inj (hqv.symm.trans h)]; exact hv
    have hage := mem_age (a := a) hq
    rw [doneTo_age a hq]
    rw [ageEntry_of_lt a hlow] at hage ⊢
    exact .inl ⟨hage, rfl⟩

/-- The pass leaves the named process where it is. -/
theorem oomAdj_age_of_lt {a : Access} {s : State} {pid v : Int} (h : s.oomAdj pid = some v)
    (hv : v < OOMADJ_BACKGRD_UNLOCKED) : (s.age a).oomAdj pid = some v := by
  rw [oomAdj_age h a, ageEntry_of_lt a hv]

/-- Two frames of one process, the first of which leaves it alone. -/
theorem Frame.trans {pid : Int} {s s₁ s' : State} {es es' : List Effect}
    (h : Frame (some pid) s es s₁) (h' : Frame (some pid) s₁ es' s')
    (hself : ∀ q ∈ s.procs, q.pid = pid → q ∈ s₁.procs ∧ doneTo q.pid es = [])
    (hothers : ∀ q ∈ s₁.procs, q.pid ≠ pid → q ∈ s'.procs ∧ doneTo q.pid es' = []) :
    Frame (some pid) s (es ++ es') s' where
  log := by rw [h'.log, h.log, List.append_assoc]
  pids := h'.pids.trans h.pids
  known := by
    intro e he
    rcases List.mem_append.mp he with he | he
    · exact h.known e he
    · rw [← h.pids]; exact h'.known e he
  guarded := by
    intro q hq hlt
    obtain ⟨hq₁, hnil₁⟩ := h.guarded q hq hlt
    obtain ⟨hq', hnil'⟩ := h'.guarded q hq₁ hlt
    exact ⟨hq', by rw [doneTo_append, hnil₁, hnil', List.append_nil]⟩
  others := by
    intro q hq hp
    have hne : q.pid ≠ pid := fun he => hp (congrArg some he.symm)
    obtain ⟨v, hv, hage⟩ := h.others q hq hp
    obtain ⟨hv', hnil⟩ := hothers _ hv hne
    refine ⟨v, hv', ?_⟩
    rw [doneTo_append, hnil, List.append_nil]
    exact hage
  self := by
    intro q hq hp
    obtain ⟨hq₁, hnil⟩ := hself q hq (Option.some.inj hp).symm
    rw [doneTo_append, hnil, List.nil_append]
    exact h'.self q hq₁ hp

theorem frame_outcome {r : Request} {a : Access} {s s' : State} {pid v : Int}
    (h : s.oomAdj pid = some v) (ho : Outcome (r.switch v) a s pid s') :
    ∃ es, Frame (some pid) s es s' := by
  have hlim : r.switch v ≠ .keep → r.switch v ≠ .unknown → OOMADJ_APP_LIMIT ≤ v := by
    intro hk hu
    by_contra hlt
    exact (switch_guard r (Int.not_le.mp hlt)).elim hk hu
  cases ho with
  | nothing => exact ⟨[], frame_refl _ s⟩
  | set w hc => exact ⟨_, frame_write w h (hlim (by rw [hc]; nofun) (by rw [hc]; nofun))⟩
  | fresh w hc _ => exact ⟨_, frame_write w h (hlim (by rw [hc]; nofun) (by rw [hc]; nofun))⟩
  | aged w hc _ => exact ⟨_, frame_age a h (switch_ageSet hc).2⟩
  | shifted w hc _ =>
    have hlow := (switch_ageSet hc).2
    have hage := frame_age a h hlow
    have hw := frame_write w (oomAdj_age_of_lt (a := a) h hlow)
      (hlim (by rw [hc]; nofun) (by rw [hc]; nofun))
    refine ⟨_, hage.trans hw ?_ ?_⟩
    · intro q hq hpid
      subst hpid
      have hqv : s.oomAdj q.pid = some q.oomAdj := oomAdj_eq_some.mpr hq
      have hq₁ := mem_age (a := a) hq
      rw [doneTo_age a hq]
      rw [ageEntry_of_lt a (by rw [Option.some.inj (hqv.symm.trans h)]; exact hlow)] at hq₁ ⊢
      exact ⟨hq₁, rfl⟩
    · exact fun q hq hne => ⟨mem_write_ne hq hne, doneTo_write_ne hne⟩

theorem frame_action {r : Request} {a : Access} {argc : Int} {argv : List CPtr} {s : State}
    {o : Int × State} (h : r.action a argc argv s = some o) :
    ∃ es, Frame (named argc argv) s es o.2 := by
  rcases action_outcome h with hs | ⟨pid, v, hpid, hv, ho⟩
  · rw [hs]; exact ⟨[], frame_refl _ s⟩
  · rw [hpid]; exact frame_outcome hv ho

/-- Below the unlocked background a process gets no SIGTERM, and nothing at
all from a request of another. -/
theorem Frame.below {p : Option Int} {s s' : State} {es : List Effect} (h : Frame p s es s')
    {q : Proc} (hq : q ∈ s.procs) (hlt : q.oomAdj < OOMADJ_BACKGRD_UNLOCKED) :
    .sigterm q.pid ∉ es ∧ (p ≠ some q.pid → q ∈ s'.procs ∧ doneTo q.pid es = []) := by
  have hmem : .sigterm q.pid ∈ es → .sigterm q.pid ∈ doneTo q.pid es :=
    fun he => mem_doneTo.mpr ⟨he, rfl⟩
  by_cases hp : p = some q.pid
  · refine ⟨fun he => ?_, fun hne => absurd hp hne⟩
    have he := hmem he
    rcases h.self q hq hp with ⟨-, hnil⟩ | ⟨w, -, hw⟩
    · rw [hnil] at he; cases he
    · rw [hw] at he; cases List.mem_singleton.mp he
  · obtain ⟨v, hv, hage⟩ := h.others q hq hp
    obtain ⟨rfl, hnil⟩ := hage.eq_of_lt hlt
    refine ⟨fun he => ?_, fun _ => ⟨hv, hnil⟩⟩
    have he := hmem he
    rw [hnil] at he; cases he

/-! ## Runs -/

/-- The values of the locked and of the foreground. -/
theorem meaning_protected {v : Int} {m : Meaning} (h : meaning v = some m)
    (hm : m.place = .foregrd ∨ m.lock = .locked) : v < OOMADJ_BACKGRD_UNLOCKED := by
  by_contra hge
  rw [meaning_unlocked (Int.not_lt.mp hge)] at h
  obtain rfl := Option.some.inj h
  rcases hm with hm | hm <;> cases hm

/-- What a step does to everybody; only requests do anything to anyone. -/
def Framed (s : St) (l : Lbl) (s' : St) : Prop :=
  match l with
  | .request _ _ argc argv => ∃ es, Frame (named argc argv) s.os es s'.os ∧
      ∀ q ∈ s.os.procs, ∀ m, meaning q.oomAdj = some m → m.place = .foregrd ∨ m.lock = .locked →
        .sigterm q.pid ∉ es ∧
          (named argc argv ≠ some q.pid → q ∈ s'.os.procs ∧ doneTo q.pid es = [])
  | _ => s'.os.log = s.os.log

theorem start_eq_some {s s' : State} {pid v : Int} (h : s.start pid v = some s') :
    s'.procs = s.procs ++ [⟨pid, v⟩] ∧ s'.log = s.log := by
  unfold State.start at h
  split at h
  · obtain rfl := Option.some.inj h
    exact ⟨rfl, rfl⟩
  · cases h

theorem framed_step {s s' : St} {l : Lbl} (h : step s l = some s') : Framed s l s' := by
  cases l with
  | start pid v =>
    obtain ⟨os, hos, rfl⟩ := Option.map_eq_some_iff.mp h
    exact (start_eq_some hos).2
  | exit pid =>
    obtain rfl := Option.some.inj h
    rfl
  | request r a argc argv =>
    obtain ⟨o, ho, rfl⟩ := Option.map_eq_some_iff.mp h
    obtain ⟨es, hf⟩ := frame_action ho
    exact ⟨es, hf, fun q hq m hm hkind => hf.below hq (meaning_protected hm hkind)⟩

/-- `q` is alive as it was, and nothing was done to it since the log was
`before`. -/
def Untouched (q : Proc) (before : List Effect) (s : St) : Prop :=
  q ∈ s.os.procs ∧ ∃ es, s.os.log = before ++ es ∧ doneTo q.pid es = []

/-- Below the limit a process is not touched until it exits. -/
theorem untouched_step {q : Proc} (hlt : q.oomAdj < OOMADJ_APP_LIMIT) (before : List Effect) :
    lts.Guarded (fun _ l => l ≠ .exit q.pid) (Untouched q before) := by
  rintro s l s' ⟨hq, es, hlog, hnil⟩ hne hst
  cases l with
  | start pid v =>
    obtain ⟨os, hos, rfl⟩ := Option.map_eq_some_iff.mp hst
    obtain ⟨hprocs, hlog'⟩ := start_eq_some hos
    exact ⟨by rw [hprocs]; exact List.mem_append_left _ hq, es, hlog'.trans hlog, hnil⟩
  | exit pid =>
    obtain rfl := Option.some.inj hst
    have hpid : q.pid ≠ pid := fun he => hne (congrArg Lbl.exit he.symm)
    exact ⟨List.mem_filter.mpr ⟨hq, by simpa using hpid⟩, es, hlog, hnil⟩
  | request r a argc argv =>
    obtain ⟨o, ho, rfl⟩ := Option.map_eq_some_iff.mp hst
    obtain ⟨es', hf⟩ := frame_action ho
    obtain ⟨hq', hnil'⟩ := hf.guarded q hq hlt
    refine ⟨hq', es ++ es', ?_, by rw [doneTo_append, hnil, hnil', List.append_nil]⟩
    rw [← List.append_assoc, ← hlog]
    exact hf.log

/-- **Everybody else is protected.** From any process table and whatever
`/proc` accesses fail, a request changes nobody but the process it names,
except that the ageing pass adds 1 to a value of 1 to 14 and sends SIGTERM,
without a write, to a process at 15 or more; locked and foreground processes
are neither aged nor terminated; and a process below OOMADJ_APP_LIMIT is not
touched as long as it lives. -/
theorem requests_frame (s₀ : St) (ls : List Lbl) : lts.Along Framed s₀ ls ∧
    ∀ s, lts.run s₀ ls = some s → ∀ q ∈ s₀.os.procs, q.oomAdj < OOMADJ_APP_LIMIT →
      (∀ l ∈ ls, l ≠ .exit q.pid) → Untouched q s₀.os.log s := by
  constructor
  · exact LTS.along_of_step (fun _ _ _ => framed_step) s₀ ls
  · intro s hr q hq hlt hlive
    exact (untouched_step hlt s₀.os.log).run
      ⟨hq, [], (List.append_nil _).symm, rfl⟩ (LTS.meets_of_labels (fun l hl _ => hlive l hl) s₀) hr

end SystemServer.L4.ProcMgr
