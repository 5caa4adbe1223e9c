import SystemServer.L4Device.CpuFreq

/-!
# The minimum frequency as a map (`ss_cpu_handler.c`)

The minimum side of the handler, run on its own terms: `set` and `release`
requests for the minimum come from any pids, and in between anything may
happen on the maximum side, which shares no data with it. So no condition is
put on the maximum side here, and none of its slips shows
(`minEffect`).

`floor_refines`: the list is a map from pid to frequency, each set is an
insertion and each release an erasure after the dead are forgotten, every
value written is the maximum of the map, and requests of two living pids
commute.
-/
namespace SystemServer.L4.MinFloor

open SystemServer.L4.CpuFreq

/-! ## Runs -/

/-- Allocations succeed, and no request asks for `INT_MIN` as a minimum. -/
def Assumed (self : Int) (l : Lbl) : Prop :=
  l.env.mem = true ∧ (l.op.ask self .min).Proper .min

instance (self : Int) (l : Lbl) : Decidable (Assumed self l) :=
  inferInstanceAs (Decidable (_ ∧ _))

def step (s : St) (l : Lbl) : Option St :=
  if Assumed s.cpu.self l then
    (l.op.exec l.env s.cpu).map fun r =>
      { cpu := r.2
        maxReqs := (l.op.ask s.cpu.self .max).apply l.env.alive s.maxReqs
        minReqs := (l.op.ask s.cpu.self .min).apply l.env.alive s.minReqs }
  else none

def lts : LTS St Lbl := ⟨Init, step⟩

/-! ## One step -/

/-- What a step does to the minimum side. -/
theorem minEffect {s s' : St} {l : Lbl} (h : step s l = some s') : SideEffect s l s' .min := by
  simp only [step] at h
  split at h
  swap
  · cases h
  rename_i has
  obtain ⟨hmem, hproper⟩ := has
  obtain ⟨⟨ret, cpu⟩, hr, rfl⟩ := Option.map_eq_some_iff.mp h
  cases hop : l.op with
  | setFrequency d argc argv =>
    rw [hop] at hr
    refine set_effect hop hmem (r := ret) ?_ .min hproper ?_
    · cases d <;> exact hr
    · rw [hop]; rfl
  | releaseFrequency d argc argv =>
    rw [hop] at hr
    refine release_effect hop (r := ret) ?_ .min ?_
    · cases d <;> exact hr
    · rw [hop]; rfl
  | powerSavingCb stat cpuStat =>
    rw [hop] at hr
    obtain rfl := congrArg Prod.snd (Option.some.inj hr)
    obtain ⟨hside, hw⟩ := powerSavingCb_min l.env stat cpuStat s.cpu
    exact .same .min (fun h => nomatch h) hside rfl hw
  | powerSavingCpuCb cpuStat stat =>
    rw [hop] at hr
    obtain rfl := congrArg Prod.snd (Option.some.inj hr)
    obtain ⟨hside, hw⟩ := powerSavingCpuCb_min l.env cpuStat stat s.cpu
    exact .same .min (fun h => nomatch h) hside rfl hw

/-- The side after a set or a release, and the value written for it. -/
theorem minEffect_sound {s s' : St} {l : Lbl} (h : Sound .min s.cpu.min s.minReqs)
    (hst : step s l = some s') : Sound .min s'.cpu.min s'.minReqs ∧
      s'.cpu.min.limit = s.cpu.min.limit ∧
      (s'.cpu.minWrites = s.cpu.minWrites ∧ s'.minReqs = s.minReqs ∨
        ∃ v, s'.cpu.minWrites = s.cpu.minWrites ++ [v] ∧
          Capped .min s.cpu.min.limit s'.minReqs v) := by
  cases minEffect hst with
  | same _ _ hside hreqs hw =>
    rw [show s'.cpu.min = _ from hside, show s'.minReqs = _ from hreqs]
    exact ⟨h, rfl, .inl ⟨hw, rfl⟩⟩
  | set _ pid freq _ hf hi hmem hside hreqs hw =>
    obtain ⟨hsound, hne⟩ := sound_add h l.env pid freq hmem hf hi
    have hlimit : s'.cpu.min.limit = s.cpu.min.limit := by
      rw [show s'.cpu.min = _ from hside]
      simp [addEntry, hmem, removeEntry, Cpu.side]
    rw [show s'.cpu.side .min = _ from hside] at hw
    rw [show s'.minReqs = _ from hreqs]
    refine ⟨by rw [show s'.cpu.min = _ from hside]; exact hsound, hlimit, .inr ⟨_, hw, ?_⟩⟩
    exact (hsound.capped_iff _ _).mpr (.inr ⟨hne, hsound.cur hne⟩)
  | release _ pid _ hside hreqs hw =>
    obtain ⟨hsound, hcap⟩ := translate_capped (sound_remove h l.env pid)
    have hlimit : s'.cpu.min.limit = s.cpu.min.limit := by
      rw [show s'.cpu.min = _ from hside, translate_limit]
      rfl
    rw [show s'.cpu.side .min = _ from hside] at hw
    rw [show s'.minReqs = _ from hreqs]
    exact ⟨by rw [show s'.cpu.min = _ from hside]; exact hsound, hlimit, .inr ⟨_, hw, hcap⟩⟩

theorem good_step : lts.Guarded (fun _ _ => True) fun s => Sound .min s.cpu.min s.minReqs :=
  fun _ _ _ h _ hst => (minEffect_sound h hst).1

/-! ## Two operations -/

/-- The pid an operation asks for. -/
def pidOf : Ask → Option Int
  | .nothing => none
  | .set pid _ => some pid
  | .release pid => some pid

/-- An operation that asks for something is served, and writes once. -/
theorem exec_min {e : Env} (hmem : e.mem = true) {c : Cpu} {o : Op} {p : Int}
    (h : pidOf (o.ask c.self .min) = some p) : ∃ r v, o.exec e c = some r ∧ r.2.self = c.self ∧
      r.2.minWrites = c.minWrites ++ [v] := by
  cases o with
  | setFrequency d argc argv =>
    simp only [Op.ask] at h
    split at h
    · rename_i hd
      split at h
      · rename_i pid freq hpid hfreq
        obtain ⟨rfl, hargc⟩ := hd
        have hok : ¬ (addEntry .min e pid freq (c.side .min)).1 < 0 := by simp [addEntry, hmem]
        simp only [Op.exec, setMinFrequencyAction, setFrequencyAction, if_neg hargc, hpid, hfreq]
        rw [if_neg hok]
        exact ⟨_, _, rfl, rfl, rfl⟩
      · cases h
    · cases h
  | releaseFrequency d argc argv =>
    simp only [Op.ask] at h
    split at h
    · rename_i hd
      split at h
      · rename_i pid hpid
        obtain ⟨rfl, hargc⟩ := hd
        simp only [Op.exec, releaseMinFrequencyAction, releaseFrequencyAction, if_neg hargc, hpid]
        exact ⟨_, _, rfl, rfl, rfl⟩
      · cases h
    · cases h
  | powerSavingCb stat cpuStat => cases h
  | powerSavingCpuCb cpuStat stat => cases h

/-- Both are alive. -/
def Living (e : Env) (p q : Int) : Prop := e.alive p = true ∧ e.alive q = true

/-- Requests of two pids, each alive while the other one asks. -/
theorem apply_comm {a b : Ask} {p q : Int} (ha : pidOf a = some p) (hb : pidOf b = some q)
    (hne : p ≠ q) {e₁ e₂ : Env} (h₁ : Living e₁ p q) (h₂ : Living e₂ p q) (m : Requests) :
    b.apply e₂.alive (a.apply e₁.alive m) = a.apply e₂.alive (b.apply e₁.alive m) := by
  funext x
  cases a with
  | nothing => cases ha
  | set p' f =>
    obtain rfl := Option.some.inj ha
    cases b with
    | nothing => cases hb
    | set q' g =>
      obtain rfl := Option.some.inj hb
      by_cases hx : x = p' <;> by_cases hy : x = q' <;> simp_all [Ask.apply, Living]
    | release q' =>
      obtain rfl := Option.some.inj hb
      by_cases hx : x = p' <;> by_cases hy : x = q' <;> simp_all [Ask.apply, Living]
  | release p' =>
    obtain rfl := Option.some.inj ha
    cases b with
    | nothing => cases hb
    | set q' g =>
      obtain rfl := Option.some.inj hb
      by_cases hx : x = p' <;> by_cases hy : x = q' <;> simp_all [Ask.apply, Living]
    | release q' =>
      obtain rfl := Option.some.inj hb
      by_cases hx : x = p' <;> by_cases hy : x = q' <;> simp_all [Ask.apply, Living]

/-- The map determines the value. -/
theorem capped_unique {d : Dir} {limit : Int} {m : Requests} {v w : Int} (hv : Capped d limit m v)
    (hw : Capped d limit m w) : v = w := by
  rcases hv with ⟨hnone, rfl⟩ | ⟨⟨p, hp⟩, hv⟩
  · rcases hw with ⟨-, rfl⟩ | ⟨⟨q, hq⟩, -⟩
    · rfl
    · rw [hnone] at hq; cases hq
  · rcases hw with ⟨hnone, -⟩ | ⟨⟨q, hq⟩, hw⟩
    · rw [hnone] at hp; cases hp
    · have hvw := hv q w hq
      have hwv := hw p v hp
      cases d <;> simp only [Dir.Tighter] at hvw hwv <;> omega

/-- A step by an operation that asks for something. -/
theorem step_asks {s : St} (h : Sound .min s.cpu.min s.minReqs) {e : Env} {o : Op} {p : Int}
    (has : Assumed s.cpu.self ⟨e, o⟩) (hp : pidOf (o.ask s.cpu.self .min) = some p) :
    ∃ s' v, step s ⟨e, o⟩ = some s' ∧ s'.cpu.self = s.cpu.self ∧
      s'.minReqs = (o.ask s.cpu.self .min).apply e.alive s.minReqs ∧
      Sound .min s'.cpu.min s'.minReqs ∧ s'.cpu.min.limit = s.cpu.min.limit ∧
      s'.cpu.minWrites.getLast? = some v ∧ Capped .min s.cpu.min.limit s'.minReqs v := by
  obtain ⟨r, v, hr, hself, hw⟩ := exec_min has.1 hp
  have hst : step s ⟨e, o⟩ = some ⟨r.2, (o.ask s.cpu.self .max).apply e.alive s.maxReqs,
      (o.ask s.cpu.self .min).apply e.alive s.minReqs⟩ := by
    simp only [step, if_pos has, hr, Option.map_some]
  obtain ⟨hsound, hlimit, hcase⟩ := minEffect_sound h hst
  refine ⟨_, v, hst, hself, rfl, hsound, hlimit, by rw [hw, List.getLast?_concat], ?_⟩
  rcases hcase with ⟨hsame, -⟩ | ⟨v', hw', hcap⟩
  · exact absurd (hw.symm.trans hsame) (by simp)
  · obtain rfl : v = v' := by simpa using hw.symm.trans hw'
    exact hcap

/-! ## The map -/

/-- The list holds one entry a pid, and is the map. -/
structure IsMap (s : St) : Prop where
  nodup : (s.cpu.min.list.map CpuFreqEntry.pid).Nodup
  entries : ∀ p f, ⟨p, f⟩ ∈ s.cpu.min.list ↔ s.minReqs p = some f

/-- The values written on the minimum side in a step are the maximum of the
map then, or the limit when it is empty. -/
def FloorWritten (s : St) (_ : Lbl) (s' : St) : Prop :=
  ∀ v ∈ s'.cpu.minWrites.drop s.cpu.minWrites.length, Capped .min s'.cpu.min.limit s'.minReqs v

/-- Operations for two living pids may be done in either order. -/
def Commute (s : St) : Prop :=
  ∀ (e₁ e₂ : Env) (a b : Op) (p q : Int), pidOf (a.ask s.cpu.self .min) = some p →
    pidOf (b.ask s.cpu.self .min) = some q → p ≠ q → Living e₁ p q → Living e₂ p q →
    ∀ s₁, lts.run s [⟨e₁, a⟩, ⟨e₂, b⟩] = some s₁ →
      ∃ s₂, lts.run s [⟨e₁, b⟩, ⟨e₂, a⟩] = some s₂ ∧ s₂.minReqs = s₁.minReqs ∧
        (∀ x, x ∈ s₂.cpu.min.list ↔ x ∈ s₁.cpu.min.list) ∧
        s₂.cpu.minWrites.getLast? = s₁.cpu.minWrites.getLast?

theorem Sound.isMap {s : St} (h : Sound .min s.cpu.min s.minReqs) : IsMap s :=
  ⟨h.nodup, fun p f => (h.reqs p f).symm⟩

theorem floorWritten_step {s s' : St} {l : Lbl} (h : Sound .min s.cpu.min s.minReqs)
    (hst : step s l = some s') : FloorWritten s l s' := by
  obtain ⟨-, hlimit, hcase⟩ := minEffect_sound h hst
  intro v hv
  rw [hlimit]
  rcases hcase with ⟨hw, -⟩ | ⟨v', hw, hcap⟩
  · rw [hw, List.drop_length] at hv
    cases hv
  · rw [hw, List.drop_left, List.mem_singleton] at hv
    rw [hv]
    exact hcap

theorem commute_of_sound {s : St} (h : Sound .min s.cpu.min s.minReqs) : Commute s := by
  intro e₁ e₂ a b p q ha hb hne hl₁ hl₂ s₁ hrun
  -- both guards held, so both operations are served in the other order too
  obtain ⟨t₁, hst₁, hrun⟩ := LTS.run_cons.mp hrun
  obtain ⟨t₂, hst₂, hend⟩ := LTS.run_cons.mp hrun
  have hend : t₂ = s₁ := Option.some.inj hend
  subst hend
  have hassumed : ∀ {s s' : St} {l : Lbl}, lts.step s l = some s' → Assumed s.cpu.self l := by
    intro s s' l hst
    by_contra hn
    simp only [lts, step, if_neg hn] at hst
    cases hst
  have has₁ := hassumed hst₁
  have has₂ := hassumed hst₂
  obtain ⟨t₁', v₁, hst₁', hself₁, hreqs₁, hsound₁, hlim₁, -, -⟩ := step_asks h has₁ ha
  obtain rfl := Option.some.inj (hst₁.symm.trans hst₁')
  rw [hself₁] at has₂
  obtain ⟨t₂', v₂, hst₂', -, hreqs₂, hsound₂, -, hlast₂, hcap₂⟩ :=
    step_asks hsound₁ (by rw [hself₁]; exact has₂) (by rw [hself₁]; exact hb)
  obtain rfl := Option.some.inj (hst₂.symm.trans hst₂')
  obtain ⟨u₁, w₁, hu₁, hself₁', hreqs₁', hsound₁', hlim₁', -, -⟩ :=
    step_asks h (e := e₁) (o := b) ⟨has₁.1, has₂.2⟩ hb
  obtain ⟨u₂, w₂, hu₂, -, hreqs₂', hsound₂', -, hlast₂', hcap₂'⟩ :=
    step_asks hsound₁' (e := e₂) (o := a) (by rw [hself₁']; exact ⟨has₂.1, has₁.2⟩)
      (by rw [hself₁']; exact ha)
  have hmaps : u₂.minReqs = t₂.minReqs := by
    rw [hreqs₂', hreqs₁', hself₁', hreqs₂, hreqs₁, hself₁]
    exact (apply_comm ha hb hne hl₁ hl₂ s.minReqs).symm
  refine ⟨u₂, LTS.run_cons.mpr ⟨u₁, hu₁, LTS.run_cons.mpr ⟨u₂, hu₂, rfl⟩⟩, hmaps, ?_, ?_⟩
  · intro x
    rw [(Sound.isMap hsound₂').entries x.pid x.freq, (Sound.isMap hsound₂).entries x.pid x.freq, hmaps]
  · rw [hlim₁', hmaps] at hcap₂'
    rw [hlim₁] at hcap₂
    rw [hlast₂', hlast₂, capped_unique hcap₂' hcap₂]

/-- **The minimum floor refines a map.** After `__set_freq_limit`, in every
run of requests for the minimum by any pids, with any operations on the
maximum side and processes dying at any time: the list holds one entry a
pid and is the map of the requests, every value written is the maximum of the
map, or the limit when it is empty, and operations for two living pids may be
done in either order. -/
theorem floor_refines (s₀ : St) (h₀ : Init s₀) (ls : List Lbl) : lts.Along FloorWritten s₀ ls ∧
    ∀ s, lts.run s₀ ls = some s → IsMap s ∧ Commute s := by
  have hinit := (good_init h₀).min
  constructor
  · refine (LTS.along_iff (C := fun _ _ => True) (fun s l s' h hst => ?_) good_step hinit ls).mpr
      (LTS.meets_true s₀ ls)
    exact iff_of_true (floorWritten_step h hst) trivial
  · intro s hr
    have h := good_step.run hinit (LTS.meets_true s₀ ls) hr
    exact ⟨Sound.isMap h, commute_of_sound h⟩

/-- 5 and 6 ask for a minimum, a maximum is set and 5 dies, and 6 releases
its minimum. -/
def twoFloors : List Lbl :=
  [⟨calm, .setFrequency .min 2 [some ⟨0, lit "5"⟩, some ⟨1, lit "400000"⟩]⟩,
    ⟨calm, .setFrequency .min 2 [some ⟨2, lit "6"⟩, some ⟨3, lit "300000"⟩]⟩,
    ⟨calm, .powerSavingCb 0 0⟩,
    ⟨⟨fun p => p ≠ 5, true, true⟩, .setFrequency .max 2 [some ⟨4, lit "7"⟩, some ⟨5, lit "800000"⟩]⟩,
    ⟨⟨fun p => p ≠ 5, true, true⟩, .releaseFrequency .min 1 [some ⟨6, lit "6"⟩]⟩]

theorem floor_refines_twoFloors : lts.Along FloorWritten started twoFloors ∧
    (lts.run started twoFloors).map (fun s => s.cpu.minWrites) = some [400000, 400000, 100000] :=
  ⟨(floor_refines started init_started twoFloors).1, by decide⟩

end SystemServer.L4.MinFloor
