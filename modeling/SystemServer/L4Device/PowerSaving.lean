import SystemServer.L4Device.CpuFreq

/-!
# The power-saving cap under setting changes (`ss_cpu_handler.c`)

Two settings decide whether the daemon caps the maximum frequency on its own
behalf: the power-saving mode and the custom CPU option. A change of either
makes a callback of its own pending; callbacks are delivered later, in any
order, and see both settings as they are then.

Each callback leaves some of the four combinations to the other one:
`power_saving_cpu_cb` does nothing while the mode is off, which is right, as
whoever switches the mode on makes `power_saving_cb` pending; but
`power_saving_cb` leaves the list alone where the mode is on and the option
off, where `power_saving_cpu_cb` removes the daemon's entry. If the option
went off while the mode was off for a moment, its own callback has come and
gone by then.

`cap_settled_iff`: whenever no callback is pending, the daemon's entry is on
the list exactly once if both settings are on and not at all otherwise, if and
only if no callback of the run that is the last one pending meets an entry it
leaves behind (or fails to allocate one).
-/
namespace SystemServer.L4.PowerSaving

open SystemServer.L4.CpuFreq

/-! ## Runs -/

structure St where
  cpu : Cpu
  /-- `__set_freq_limit` has run -/
  started : Bool
  /-- VCONFKEY_SETAPPL_PWRSV_SYSMODE_STATUS and
  VCONFKEY_SETAPPL_PWRSV_CUSTMODE_CPU -/
  mode : Bool
  option : Bool
  /-- callbacks not delivered yet -/
  modePending : Nat
  optionPending : Nat

inductive Lbl where
  | setFreqLimit (e : Env) (hwMax hwMin : Option Int)
  | changeMode
  | changeOption
  | deliverMode (e : Env)
  | deliverOption (e : Env)
  | client (e : Env) (o : Op)

/-- A setting as `vconf_get_bool` gives it. -/
def stat (b : Bool) : Int := if b then 1 else 0

/-- A frequency request of a client, for a pid that is not the daemon's. -/
def Foreign (self : Int) : Op → Prop
  | .setFrequency _ _ argv => atoiP (arg argv 0) ≠ some self
  | .releaseFrequency _ _ argv => atoiP (arg argv 0) ≠ some self
  | _ => False

instance (self : Int) : ∀ o, Decidable (Foreign self o)
  | .setFrequency .. => inferInstanceAs (Decidable (_ ≠ _))
  | .releaseFrequency .. => inferInstanceAs (Decidable (_ ≠ _))
  | .powerSavingCb .. => .isFalse nofun
  | .powerSavingCpuCb .. => .isFalse nofun

/-- The daemon itself is alive whenever the list is scanned. -/
def step (s : St) : Lbl → Option St
  | .setFreqLimit e hwMax hwMin =>
    if s.started then none
    else some { s with
      cpu := setFreqLimit e hwMax hwMin (stat s.mode) (stat s.option) s.cpu, started := true }
  | .changeMode =>
    if s.started then some { s with mode := !s.mode, modePending := s.modePending + 1 } else none
  | .changeOption =>
    if s.started then some { s with option := !s.option, optionPending := s.optionPending + 1 }
    else none
  | .deliverMode e =>
    if 0 < s.modePending ∧ e.alive s.cpu.self = true then
      some { s with
        cpu := (powerSavingCb e (stat s.mode) (stat s.option) s.cpu).2
        modePending := s.modePending - 1 }
    else none
  | .deliverOption e =>
    if 0 < s.optionPending ∧ e.alive s.cpu.self = true then
      some { s with
        cpu := (powerSavingCpuCb e (stat s.option) (stat s.mode) s.cpu).2
        optionPending := s.optionPending - 1 }
    else none
  | .client e o =>
    if s.started ∧ Foreign s.cpu.self o ∧ e.alive s.cpu.self = true then
      (o.exec e s.cpu).map fun r => { s with cpu := r.2 }
    else none

/-- The program starts, with any settings. -/
structure Init (s : St) : Prop where
  cpu : s.cpu = static s.cpu.self
  started : s.started = false
  modePending : s.modePending = 0
  optionPending : s.optionPending = 0

def lts : LTS St Lbl := ⟨Init, step⟩

/-! ## The daemon's entry -/

def entry (self : Int) : CpuFreqEntry := ⟨self, POWER_SAVING_CPUFREQ⟩

/-- The daemon's own entries. -/
def own (c : Cpu) : List CpuFreqEntry := c.max.list.filter (·.pid = c.self)

/-- The entry is there exactly once if both settings are on, and not at all
otherwise. -/
def Right (s : St) : Prop :=
  own s.cpu = if s.mode = true ∧ s.option = true then [entry s.cpu.self] else []

instance (s : St) : Decidable (Right s) := inferInstanceAs (Decidable (_ = _))

def Quiet (s : St) : Prop := s.modePending = 0 ∧ s.optionPending = 0

instance (s : St) : Decidable (Quiet s) := inferInstanceAs (Decidable (_ ∧ _))

/-- No callback is pending. -/
def Settled (_ : St) (_ : Lbl) (s' : St) : Prop := Quiet s' → Right s'

instance (s : St) (l : Lbl) (s' : St) : Decidable (Settled s l s') :=
  inferInstanceAs (Decidable (_ → _))

/-- The last callback pending leaves no entry of the daemon behind, and where
it has to add one, `malloc` grants it. -/
def Clean (s : St) : Lbl → Prop
  | .setFreqLimit e _ _ => s.mode = true → s.option = true → e.mem = true
  | .deliverMode e => s.modePending = 1 → s.optionPending = 0 → s.mode = true →
      (s.option = true → e.mem = true) ∧ (s.option = false → own s.cpu = [])
  | .deliverOption e => s.modePending = 0 → s.optionPending = 1 → s.mode = true →
      s.option = true → e.mem = true
  | _ => True

instance (s : St) : ∀ l, Decidable (Clean s l)
  | .setFreqLimit .. => inferInstanceAs (Decidable (_ → _ → _))
  | .deliverMode .. => inferInstanceAs (Decidable (_ → _ → _ → (_ → _) ∧ (_ → _)))
  | .deliverOption .. => inferInstanceAs (Decidable (_ → _ → _ → _ → _))
  | .changeMode => .isTrue trivial
  | .changeOption => .isTrue trivial
  | .client .. => .isTrue trivial

/-! ## What the operations do to it -/

theorem own_remove_self (e : Env) (c : Cpu) :
    (removeEntry .max e c.self c.max).list.filter (·.pid = c.self) = [] := by
  rw [removeEntry_list, List.filter_filter]
  refine List.filter_eq_nil_iff.mpr fun x _ hx => ?_
  simp only [Keeps, Bool.and_eq_true, decide_eq_true_eq] at hx
  exact hx.2.2 hx.1

/-- A scan for another pid, with the daemon alive. -/
theorem own_remove_foreign {e : Env} {self pid : Int} (hself : e.alive self = true) (hne : pid ≠ self)
    (x : Side) : (removeEntry .max e pid x).list.filter (·.pid = self) =
      x.list.filter (·.pid = self) := by
  rw [removeEntry_list, List.filter_filter]
  refine List.filter_congr fun y _ => ?_
  by_cases hy : y.pid = self
  · simp [Keeps, hy, hself, hne.symm]
  · simp [hy]

theorem own_add_foreign {e : Env} {self pid : Int} (hself : e.alive self = true) (hne : pid ≠ self)
    (freq : Int) (x : Side) : (addEntry .max e pid freq x).2.list.filter (·.pid = self) =
      x.list.filter (·.pid = self) := by
  have hremove := own_remove_foreign hself hne x
  simp only [addEntry]
  split
  · exact hremove
  · rw [List.filter_cons_of_neg (by simpa using hne)]
    exact hremove

theorem own_capSelf (e : Env) (c : Cpu) :
    (capSelf e c).2.self = c.self ∧
      own (capSelf e c).2 = if e.mem then [entry c.self] else [] := by
  have hremove := own_remove_self e c
  cases hmem : e.mem with
  | true =>
    rw [capSelf_eq hmem]
    refine ⟨rfl, ?_⟩
    simp only [own, addEntry, hmem, Bool.true_eq_false, if_false, if_true]
    rw [List.filter_cons_of_pos (by simp), hremove]
    rfl
  | false =>
    simp only [capSelf, own, addEntryToMaxCpuFreqList, addEntry, hmem, if_true]
    exact ⟨rfl, hremove⟩

theorem own_powerSavingCb (e : Env) (mode option : Bool) (c : Cpu) :
    (powerSavingCb e (stat mode) (stat option) c).2.self = c.self ∧
      own (powerSavingCb e (stat mode) (stat option) c).2 =
        if mode then if option then if e.mem then [entry c.self] else [] else own c else [] := by
  cases mode with
  | true =>
    cases option with
    | true => exact own_capSelf e c
    | false => exact ⟨rfl, rfl⟩
  | false =>
    have hremove := own_remove_self e c
    have hlist : ∀ x : Side, (if x.cur = INT_MIN then { x with cur := x.limit } else x).list = x.list := by
      intro x
      split <;> rfl
    simp only [powerSavingCb, stat, own, writeMaxCpuFreq, removeEntryFromMaxCpuFreqList]
    exact ⟨rfl, (congrArg (List.filter _) (hlist _)).trans hremove⟩

theorem own_powerSavingCpuCb (e : Env) (mode option : Bool) (c : Cpu) :
    (powerSavingCpuCb e (stat option) (stat mode) c).2.self = c.self ∧
      own (powerSavingCpuCb e (stat option) (stat mode) c).2 =
        if mode then if option then if e.mem then [entry c.self] else [] else [] else own c := by
  cases mode with
  | true =>
    cases option with
    | true => exact own_capSelf e c
    | false =>
      have hremove := own_remove_self e c
      simp only [powerSavingCpuCb, stat, own, writeMaxCpuFreq, removeEntryFromMaxCpuFreqList]
      exact ⟨rfl, (congrArg (List.filter _) (translate_list _ _)).trans hremove⟩
  | false => exact ⟨rfl, rfl⟩

theorem own_client {e : Env} {c : Cpu} {o : Op} {r : Int × Cpu} (hf : Foreign c.self o)
    (hself : e.alive c.self = true) (h : o.exec e c = some r) :
    r.2.self = c.self ∧ own r.2 = own c := by
  cases o with
  | setFrequency d argc argv =>
    have h : setFrequencyAction d e argc argv c = some r := by cases d <;> exact h
    simp only [setFrequencyAction] at h
    split at h
    · cases h; exact ⟨rfl, rfl⟩
    split at h
    · rename_i pid freq hpid _
      have hne : pid ≠ c.self := fun he => hf (hpid.trans (congrArg some he))
      have hadd := own_add_foreign hself hne freq c.max
      split at h
      · cases h
        cases d with
        | max => exact ⟨rfl, hadd⟩
        | min => exact ⟨rfl, rfl⟩
      · cases h
        cases d with
        | max => exact ⟨rfl, hadd⟩
        | min => exact ⟨rfl, rfl⟩
    · cases h
  | releaseFrequency d argc argv =>
    have h : releaseFrequencyAction d e argc argv c = some r := by cases d <;> exact h
    simp only [releaseFrequencyAction] at h
    split at h
    · cases h; exact ⟨rfl, rfl⟩
    split at h
    · rename_i pid hpid
      have hne : pid ≠ c.self := fun he => hf (hpid.trans (congrArg some he))
      have hremove := own_remove_foreign hself hne c.max
      rw [← translate_list .max] at hremove
      cases h
      cases d with
      | max => exact ⟨rfl, hremove⟩
      | min => exact ⟨rfl, rfl⟩
    · cases h
  | powerSavingCb stat cpuStat => exact hf.elim
  | powerSavingCpuCb cpuStat stat => exact hf.elim

theorem own_setFreqLimit (e : Env) (hwMax hwMin : Option Int) (mode option : Bool) (self : Int) :
    (setFreqLimit e hwMax hwMin (stat mode) (stat option) (static self)).self = self ∧
      own (setFreqLimit e hwMax hwMin (stat mode) (stat option) (static self)) =
        if mode ∧ option then if e.mem then [entry self] else [] else [] := by
  by_cases hboth : mode ∧ option
  · obtain ⟨rfl, rfl⟩ := hboth
    exact own_capSelf e _
  · have hstat : ¬ (stat mode = 1 ∧ stat option = 1) := by
      revert hboth
      cases mode <;> cases option <;> decide
    rw [setFreqLimit, if_neg hstat, if_neg hboth]
    exact ⟨rfl, rfl⟩

/-! ## The invariant -/

structure Inv (s : St) : Prop where
  fresh : s.started = false →
    s.cpu = static s.cpu.self ∧ s.modePending = 0 ∧ s.optionPending = 0
  /-- while the mode is off, an entry is one that `power_saving_cb` will see -/
  off : s.mode = false → own s.cpu ≠ [] → 0 < s.modePending
  settled : s.started = true → Quiet s → Right s

/-- What a step does to the settings, to what is pending and to the daemon's
entry. -/
inductive Effect (s : St) : Lbl → St → Prop where
  | limit (e hwMax hwMin cpu) (hs : s.started = false) (hself : cpu.self = s.cpu.self)
      (hown : own cpu =
        if s.mode ∧ s.option then if e.mem then [entry s.cpu.self] else [] else []) :
      Effect s (.setFreqLimit e hwMax hwMin) { s with cpu := cpu, started := true }
  | mode (hs : s.started = true) :
      Effect s .changeMode { s with mode := !s.mode, modePending := s.modePending + 1 }
  | option (hs : s.started = true) :
      Effect s .changeOption { s with option := !s.option, optionPending := s.optionPending + 1 }
  | modeCb (e cpu) (hpend : 0 < s.modePending) (hself : cpu.self = s.cpu.self)
      (hown : own cpu = if s.mode then
        if s.option then if e.mem then [entry s.cpu.self] else [] else own s.cpu else []) :
      Effect s (.deliverMode e) { s with cpu := cpu, modePending := s.modePending - 1 }
  | optionCb (e cpu) (hpend : 0 < s.optionPending) (hself : cpu.self = s.cpu.self)
      (hown : own cpu = if s.mode then
        if s.option then if e.mem then [entry s.cpu.self] else [] else [] else own s.cpu) :
      Effect s (.deliverOption e) { s with cpu := cpu, optionPending := s.optionPending - 1 }
  | client (e o cpu) (hs : s.started = true) (hself : cpu.self = s.cpu.self)
      (hown : own cpu = own s.cpu) : Effect s (.client e o) { s with cpu := cpu }

theorem step_effect {s s' : St} {l : Lbl} (h : Inv s) (hst : step s l = some s') :
    Effect s l s' := by
  cases l with
  | setFreqLimit e hwMax hwMin =>
    obtain ⟨hnot, hst⟩ := Option.ite_none_left_eq_some.mp hst
    have hs : s.started = false := by simpa using hnot
    obtain rfl := Option.some.inj hst
    obtain ⟨hself, hown⟩ := own_setFreqLimit e hwMax hwMin s.mode s.option s.cpu.self
    rw [← (h.fresh hs).1] at hself hown
    exact .limit e hwMax hwMin _ hs hself hown
  | changeMode =>
    obtain ⟨hs, rfl⟩ := Option.ite_some_none_eq_some.mp hst
    exact .mode hs
  | changeOption =>
    obtain ⟨hs, rfl⟩ := Option.ite_some_none_eq_some.mp hst
    exact .option hs
  | deliverMode e =>
    obtain ⟨hpend, rfl⟩ := Option.ite_some_none_eq_some.mp hst
    obtain ⟨hself, hown⟩ := own_powerSavingCb e s.mode s.option s.cpu
    exact .modeCb e _ hpend.1 hself hown
  | deliverOption e =>
    obtain ⟨hpend, rfl⟩ := Option.ite_some_none_eq_some.mp hst
    obtain ⟨hself, hown⟩ := own_powerSavingCpuCb e s.mode s.option s.cpu
    exact .optionCb e _ hpend.1 hself hown
  | client e o =>
    obtain ⟨hguard, hst⟩ := Option.ite_none_right_eq_some.mp hst
    obtain ⟨r, hr, rfl⟩ := Option.map_eq_some_iff.mp hst
    obtain ⟨hself, hown⟩ := own_client hguard.2.1 hguard.2.2 hr
    exact .client e o _ hguard.1 hself hown

/-- A step settles the entry exactly when it is clean. -/
theorem settled_iff {s s' : St} {l : Lbl} (h : Inv s) (hst : step s l = some s') :
    Settled s l s' ↔ Clean s l := by
  cases step_effect h hst with
  | limit e hwMax hwMin cpu hs hself hown =>
    obtain ⟨-, hm, ho⟩ := h.fresh hs
    simp only [Settled, Quiet, hm, ho, Right, hself, hown, Clean]
    cases s.mode <;> cases s.option <;> cases e.mem <;> simp
  | mode => exact iff_of_true (fun hq => absurd hq.1 (Nat.succ_ne_zero _)) trivial
  | option => exact iff_of_true (fun hq => absurd hq.2 (Nat.succ_ne_zero _)) trivial
  | modeCb e cpu hpend hself hown =>
    have hlast : s.modePending - 1 = 0 ↔ s.modePending = 1 := by omega
    simp only [Settled, Quiet, Right, hself, hown, Clean, hlast]
    cases s.mode <;> cases s.option <;> cases e.mem <;> simp
  | optionCb e cpu hpend hself hown =>
    have hlast : s.optionPending - 1 = 0 ↔ s.optionPending = 1 := by omega
    have hoff := h.off
    simp only [Settled, Quiet, Right, hself, hown, Clean, hlast]
    cases hm : s.mode with
    | true => cases s.option <;> cases e.mem <;> simp
    | false =>
      -- the mode's own callback has been delivered, so it found nothing to remove
      refine iff_of_true (fun hq => ?_) (by simp)
      have hnil : own s.cpu = [] := by
        by_contra hne
        have := hoff hm hne
        omega
      simp [hnil]
  | client e o cpu hs hself hown =>
    refine iff_of_true (fun hq => ?_) trivial
    have hright := h.settled hs hq
    simpa only [Right, hself, hown] using hright

theorem off_step {s s' : St} {l : Lbl} (h : Inv s) (hst : step s l = some s') :
    s'.started = true ∧ (s'.mode = false → own s'.cpu ≠ [] → 0 < s'.modePending) := by
  have hstarted : 0 < s.modePending ∨ 0 < s.optionPending → s.started = true := by
    intro hpend
    by_contra hnot
    have := (h.fresh (by simpa using hnot)).2
    omega
  cases step_effect h hst with
  | limit e hwMax hwMin cpu hs hself hown =>
    refine ⟨rfl, fun hm hne => absurd ?_ hne⟩
    have hm : s.mode = false := hm
    simp [hown, hm]
  | mode hs => exact ⟨hs, fun _ _ => Nat.succ_pos _⟩
  | option hs => exact ⟨hs, h.off⟩
  | modeCb e cpu hpend hself hown =>
    refine ⟨hstarted (.inl hpend), fun hm hne => absurd ?_ hne⟩
    have hm : s.mode = false := hm
    simp [hown, hm]
  | optionCb e cpu hpend hself hown =>
    refine ⟨hstarted (.inr hpend), fun hm hne => h.off hm ?_⟩
    have hm : s.mode = false := hm
    rw [hown, hm] at hne
    exact hne
  | client e o cpu hs hself hown =>
    exact ⟨hs, fun hm hne => h.off hm (hown ▸ hne)⟩

theorem inv_step : lts.Guarded Clean Inv := by
  intro s l s' h hclean hst
  obtain ⟨hstarted, hoff⟩ := off_step h hst
  refine ⟨fun hnot => ?_, hoff, fun _ => (settled_iff h hst).mpr hclean⟩
  rw [hstarted] at hnot
  cases hnot

theorem inv_init {s : St} (h : Init s) : Inv s where
  fresh _ := ⟨h.cpu, h.modePending, h.optionPending⟩
  off _ hne := absurd (by rw [h.cpu]; rfl) hne
  settled hs := by rw [h.started] at hs; cases hs

/-- **The cap under overlapping changes.** In every run of setting changes,
deliveries and requests of clients for other pids, whenever no callback is
pending the daemon's entry is on the list exactly once if both settings are on
and not at all otherwise, if and only if no callback that is the last one
pending leaves an entry behind or fails to allocate one. -/
theorem cap_settled_iff (s₀ : St) (h₀ : Init s₀) (ls : List Lbl) :
    lts.Along Settled s₀ ls ↔ lts.Meets Clean s₀ ls :=
  LTS.along_iff (fun _ _ _ => settled_iff) inv_step (inv_init h₀) ls

/-- The daemon has pid 1, and power saving is off. -/
def off : St := ⟨static 1, false, false, false, 0, 0⟩

/-- Both settings are on. -/
def on : St := ⟨static 1, false, true, true, 0, 0⟩

theorem init_off : Init off := ⟨rfl, rfl, rfl, rfl⟩

/-- Both settings go on, and the option's callback comes first. -/
def switchOn : List Lbl :=
  [.setFreqLimit calm (some 1200000) (some 100000), .changeMode, .changeOption,
    .deliverOption calm, .deliverMode calm]

theorem cap_switchOn : lts.Along Settled off switchOn ∧
    (lts.run off switchOn).map (fun s => s.cpu.max.list) = some [entry 1] :=
  ⟨(cap_settled_iff off init_off switchOn).mpr (by decide), by decide⟩

/-- The option goes off, the mode goes off, the option's callback finds the
mode off, the mode goes on again, and its callbacks find the option off. -/
def stuckChanges : List Lbl :=
  [.setFreqLimit calm (some 1200000) (some 100000), .changeOption, .changeMode, .deliverOption calm,
    .changeMode, .deliverMode calm, .deliverMode calm]

/-- The cap is stuck: the mode is on, the option off, nothing is pending, and
the entry is on the list. -/
theorem cap_stuck : (lts.run on stuckChanges).map (fun s =>
      (s.cpu.max.list, s.mode, s.option, s.modePending, s.optionPending)) =
        some ([entry 1], true, false, 0, 0) ∧
    ¬ lts.Along Settled on stuckChanges :=
  ⟨by decide, by decide⟩

end SystemServer.L4.PowerSaving
