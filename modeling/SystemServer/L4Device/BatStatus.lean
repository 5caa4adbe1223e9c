import SystemServer.Core.LTS
import SystemServer.L4Device.LowBat

/-!
# The published battery state (`ss_lowbat_handler.c`)

`lowbat_process` keeps the battery twice: in `cur_bat_state` and
`cur_bat_capacity`, and in two `vconf` keys that others read. The key is
written first and may fail to be; the variable follows.

`published_mirrors`: nobody else writing the keys, over any calls and with
any failures, the two copies agree whenever the variable is known. The status
that is read back to decide whether it must be written is the key itself.
-/
namespace SystemServer.L4.BatStatus

open SystemServer.L4.LowBat

/-! ## Runs -/

/-- The status read is the key. -/
def step (s : Handler) (c : Call) : Option Handler :=
  if 0 ≤ c.capacity ∧ c.capacity ≤ 100 then
    some (lowbatProcess { c.env with status := s.statusKey } c.capacity s).2
  else none

/-- The variables as the program starts; the keys hold anything. -/
def Init (s : Handler) : Prop := s.curBatState = BATTERY_UNKNOWN ∧ s.curBatCapacity = -1

def lts : LTS Handler Call := ⟨Init, step⟩

/-! ## What is published -/

/-- The statuses a class is published as. -/
def Shown : LowBat.Class → Status → Prop
  | .R, v => v = .POWER_OFF
  | .P, v => v = .POWER_OFF
  | .C, v => v = .CRITICAL_LOW
  | .W, v => v = .WARNING_LOW
  | .N, v => v = .NORMAL ∨ v = .FULL

theorem classify_shown (full capacity : Int) :
    Shown (Class.of capacity) (classify full capacity).2 := by
  rw [classify_class]
  cases Class.of capacity with
  | R | P | C | W => rfl
  | N =>
    simp only [Class.status]
    split
    · exact .inr rfl
    · exact .inl rfl

/-- The two copies, each known or not known yet. -/
structure Mirrored (s : Handler) : Prop where
  state : s.curBatState = BATTERY_UNKNOWN ∨
    ∃ c v, s.curBatState = c.state ∧ s.statusKey = some v ∧ Shown c v
  capacity : s.curBatCapacity = -1 ∨ s.curBatCapacity = s.capacityKey

/-- The keys and the capacity are those of `s`. -/
def SameKeys (s s' : Handler) : Prop :=
  s'.capacityKey = s.capacityKey ∧ s'.statusKey = s.statusKey ∧ s'.curBatCapacity = s.curBatCapacity

theorem SameKeys.trans {s₁ s₂ s₃ : Handler} (h : SameKeys s₁ s₂) (h' : SameKeys s₂ s₃) :
    SameKeys s₁ s₃ :=
  ⟨h'.1.trans h.1, h'.2.1.trans h.2.1, h'.2.2.trans h.2.2⟩

theorem chargeInNow_keys (e : Env) (s : Handler) : SameKeys s (ssLowbatIsChargeInNow e s).2 := by
  have hset : ∀ onoff, SameKeys s (ssLowbatSetChargeOn e onoff s) := by
    intro onoff
    unfold ssLowbatSetChargeOn
    split <;> exact ⟨rfl, rfl, rfl⟩
  unfold ssLowbatIsChargeInNow
  split
  · exact hset 0
  · split
    · exact hset 1
    · exact hset 0

theorem changeState_keys (new : Int) (s : Handler) : SameKeys s (changeState new s).2 ∧
    (changeState new s).2.curBatState = new := by
  unfold changeState
  split
  · rename_i h
    exact ⟨⟨rfl, rfl, rfl⟩, h.1⟩
  · split
    · rename_i r _
      refine ⟨?_, rfl⟩
      cases r.action <;> exact ⟨rfl, rfl, rfl⟩
    · exact ⟨⟨rfl, rfl, rfl⟩, rfl⟩

theorem publishCapacity_spec (e : Env) (v : Int) (s : Handler) :
    (publishCapacity e v s).statusKey = s.statusKey ∧
      (publishCapacity e v s).curBatState = s.curBatState ∧
      ((publishCapacity e v s).curBatCapacity = (publishCapacity e v s).capacityKey ∨
        publishCapacity e v s = s) := by
  unfold publishCapacity
  split
  · exact ⟨rfl, rfl, .inl rfl⟩
  · exact ⟨rfl, rfl, .inr rfl⟩

/-- A status that was read from the key and is published, or the write
failed. -/
theorem publishStatus_spec {e : Env} {s : Handler} (he : e.status = s.statusKey) (v : Status) :
    (publishStatus e v s).2.capacityKey = s.capacityKey ∧
      (publishStatus e v s).2.curBatCapacity = s.curBatCapacity ∧
      (publishStatus e v s).2.curBatState = s.curBatState ∧
      ((publishStatus e v s).1 < 0 → (publishStatus e v s).2.statusKey = s.statusKey) ∧
      (¬ (publishStatus e v s).1 < 0 → (publishStatus e v s).2.statusKey = some v) := by
  unfold publishStatus
  split
  · rename_i hv
    exact ⟨rfl, rfl, rfl, fun _ => rfl, fun _ => he.symm.trans hv⟩
  split
  · exact ⟨rfl, rfl, rfl, fun h => absurd h (Int.lt_irrefl 0), fun _ => rfl⟩
  · exact ⟨rfl, rfl, rfl, fun _ => rfl, fun h => absurd (show (-1 : Int) < 0 by decide) h⟩

/-! ## One call -/

theorem mirrored_process {s : Handler} (h : Mirrored s) {e : Env} (he : e.status = s.statusKey)
    (capacity : Int) : Mirrored (lowbatProcess e capacity s).2 := by
  obtain ⟨hkey, hstate, hcap⟩ := publishCapacity_spec e capacity s
  have h₁ : Mirrored (publishCapacity e capacity s) := by
    rcases hcap with hcap | hcap
    · exact ⟨by rw [hstate, hkey]; exact h.state, .inr hcap⟩
    · rw [hcap]; exact h
  simp only [lowbatProcess]
  split
  · exact h
  split
  · exact h₁
  obtain ⟨hck, hcc, hcs, hfail, hok⟩ := publishStatus_spec (s := publishCapacity e capacity s)
    (he.trans hkey.symm) (classify e.full capacity).2
  split
  · -- the write failed: nothing has changed but the capacity
    rename_i hneg
    refine ⟨?_, ?_⟩
    · rw [hcs, hfail hneg]
      exact h₁.state
    · rw [hcc, hck]
      exact h₁.capacity
  · -- the status is published, and the state follows whatever happens
    rename_i hneg
    obtain ⟨hkeys, hnew⟩ := changeState_keys (classify e.full capacity).1
      (ssLowbatIsChargeInNow e (publishStatus e (classify e.full capacity).2
        (publishCapacity e capacity s)).2).2
    obtain ⟨hk₁, hk₂, hk₃⟩ := (chargeInNow_keys e _).trans hkeys
    refine ⟨.inr ⟨Class.of capacity, (classify e.full capacity).2, ?_, ?_, classify_shown _ _⟩, ?_⟩
    · rw [hnew]
      exact classify_state e.full capacity
    · rw [hk₂]
      exact hok hneg
    · rw [hk₁, hk₃, hck, hcc]
      exact h₁.capacity

theorem mirrored_inv : lts.Inductive Mirrored := by
  refine ⟨fun s h₀ => ⟨.inl h₀.1, .inl h₀.2⟩, fun s c s' h hst => ?_⟩
  obtain ⟨-, rfl⟩ := Option.ite_some_none_eq_some.mp hst
  exact mirrored_process h rfl c.capacity

/-! ## The keys -/

/-- What the keys hold, by what the variables hold. -/
structure Published (s : Handler) : Prop where
  powerOff : s.curBatState = BATTERY_POWER_OFF ∨ s.curBatState = BATTERY_REAL_POWER_OFF →
    s.statusKey = some .POWER_OFF
  criticalLow : s.curBatState = BATTERY_CRITICAL_LOW → s.statusKey = some .CRITICAL_LOW
  warningLow : s.curBatState = BATTERY_WARNING_LOW → s.statusKey = some .WARNING_LOW
  normal : s.curBatState = BATTERY_NORMAL → s.statusKey = some .NORMAL ∨ s.statusKey = some .FULL
  /-- there is no other state -/
  known : s.curBatState = BATTERY_UNKNOWN ∨ ∃ c : LowBat.Class, s.curBatState = c.state
  capacity : s.curBatCapacity ≠ -1 → s.curBatCapacity = s.capacityKey

/-- In a state of a class the status is one of the class. -/
theorem Mirrored.shown {s : Handler} (h : Mirrored s) {c : LowBat.Class}
    (hc : s.curBatState = c.state) :
    ∃ v, s.statusKey = some v ∧ Shown c v := by
  rcases h.state with hu | ⟨c', v, hc', hv, hshown⟩
  · exact absurd (hc.symm.trans hu) (state_ne_unknown c)
  · obtain rfl := state_inj (hc.symm.trans hc')
    exact ⟨v, hv, hshown⟩

theorem Mirrored.published {s : Handler} (h : Mirrored s) : Published s where
  powerOff := by
    rintro (hs | hs)
    · obtain ⟨v, hv, rfl⟩ := h.shown (c := .P) hs
      exact hv
    · obtain ⟨v, hv, rfl⟩ := h.shown (c := .R) hs
      exact hv
  criticalLow hs := by
    obtain ⟨v, hv, rfl⟩ := h.shown (c := .C) hs
    exact hv
  warningLow hs := by
    obtain ⟨v, hv, rfl⟩ := h.shown (c := .W) hs
    exact hv
  normal hs := by
    obtain ⟨v, hv, rfl | rfl⟩ := h.shown (c := .N) hs
    · exact .inl hv
    · exact .inr hv
  known := h.state.imp id fun ⟨c, _, hc, _⟩ => ⟨c, hc⟩
  capacity := h.capacity.resolve_left

/-- **The published battery state.** Nobody else writing the two keys, after
any calls with capacities of 0 to 100, with any battery-full readings and any
failures of the `vconf` calls, the status published is that of
`cur_bat_state`, if that is known, and the capacity published is
`cur_bat_capacity`, if that is. -/
theorem published_mirrors (s : Handler) (hr : lts.Reachable s) : Published s :=
  (mirrored_inv.reachable hr).published

theorem init_static : Init static := ⟨rfl, rfl⟩

theorem published_mirrors_discharge : ∃ s, lts.run static discharge = some s ∧
    s.curBatState = BATTERY_CRITICAL_LOW ∧ s.statusKey = some .CRITICAL_LOW ∧
    s.curBatCapacity = s.capacityKey := by
  obtain ⟨s, hs, hstate, hcap⟩ : ∃ s, lts.run static discharge = some s ∧
      s.curBatState = BATTERY_CRITICAL_LOW ∧ s.curBatCapacity = 4 := ⟨_, rfl, rfl, rfl⟩
  have hp := published_mirrors s ⟨static, discharge, init_static, hs⟩
  exact ⟨s, hs, hstate, hp.criticalLow hstate, hp.capacity (by rw [hcap]; decide)⟩

end SystemServer.L4.BatStatus
