import Mathlib.Tactic.Common

/-!
# Battery levels and the requests they make (`ss_lowbat_handler.c`)

`lowbat_process` gets a battery capacity, publishes it and the status it
stands for, and, when the battery state has changed, looks the change up in
the table `lpe` and runs the row's action, which requests PREDEF_LOWBAT.

The purpose, in its own terms: a capacity has a class (`Class`), the classes
are ordered, and a reading that got through (`Effective`) asks for an action
exactly when its class is below that of the last reading that got through
(`spec`). `request_trace`: over any sequence of calls, with any failures, the
requests are those of `spec`. The table has one row for each pair of classes
that goes down (`lookup_class`), which nothing in the source says.

The names of the published statuses come from a header of another package.
-/
namespace SystemServer.L4.LowBat

/-! ## The source's constants -/

/-- mirrors ss_lowbat_handler.c:36-42 -/
def BATTERY_UNKNOWN : Int := -1
def BATTERY_FULL : Int := 100
def BATTERY_NORMAL : Int := 100
def BATTERY_WARNING_LOW : Int := 15
def BATTERY_CRITICAL_LOW : Int := 5
def BATTERY_POWER_OFF : Int := 1
def BATTERY_REAL_POWER_OFF : Int := 0

/-- mirrors include/ss_data.h:58-60 -/
def WARNING_LOW_BAT_ACT : String := "warning_low_bat_act"
def CRITICAL_LOW_BAT_ACT : String := "critical_low_bat_act"
def POWER_OFF_BAT_ACT : String := "power_off_bat_act"

/-- The values of `VCONFKEY_SYSMAN_BATTERY_STATUS_LOW`. -/
inductive Status where
  | POWER_OFF | CRITICAL_LOW | WARNING_LOW | NORMAL | FULL
  deriving DecidableEq, Repr

/-- The actions of the table. -/
inductive Act where
  | warningLow | criticalLow | powerOff
  deriving DecidableEq, Repr

/-- mirrors ss_lowbat_handler.c:61-65 -/
structure LowbatProcessEntry where
  curBatState : Int
  newBatState : Int
  action : Act

/-- mirrors ss_lowbat_handler.c:77-88 -/
def lpe : List LowbatProcessEntry :=
  [⟨BATTERY_NORMAL, BATTERY_WARNING_LOW, .warningLow⟩,
    ⟨BATTERY_WARNING_LOW, BATTERY_CRITICAL_LOW, .criticalLow⟩,
    ⟨BATTERY_CRITICAL_LOW, BATTERY_POWER_OFF, .criticalLow⟩,
    ⟨BATTERY_POWER_OFF, BATTERY_REAL_POWER_OFF, .powerOff⟩,
    ⟨BATTERY_NORMAL, BATTERY_CRITICAL_LOW, .criticalLow⟩,
    ⟨BATTERY_WARNING_LOW, BATTERY_POWER_OFF, .criticalLow⟩,
    ⟨BATTERY_CRITICAL_LOW, BATTERY_REAL_POWER_OFF, .powerOff⟩,
    ⟨BATTERY_NORMAL, BATTERY_POWER_OFF, .criticalLow⟩,
    ⟨BATTERY_WARNING_LOW, BATTERY_REAL_POWER_OFF, .powerOff⟩,
    ⟨BATTERY_NORMAL, BATTERY_REAL_POWER_OFF, .powerOff⟩]

/-! ## The handler -/

structure Handler where
  curBatState : Int
  curBatCapacity : Int
  /-- the keys, as this handler last set them -/
  capacityKey : Int
  statusKey : Option Status
  chargeNowKey : Int
  /-- LOW_POWER notifications sent -/
  notis : Nat
  /-- the arguments of the PREDEF_LOWBAT requests, oldest first -/
  requests : List String
  deriving DecidableEq, Repr

/-- The outcomes of the calls one `lowbat_process` makes: which of the
`vconf` calls succeed, the status read (`none` is no status), whether the
battery is full, the charger's state if it can be read. -/
structure Env where
  setCapacity : Bool
  getStatus : Bool
  status : Option Status
  full : Int
  setStatus : Bool
  chargeNow : Option Int
  setCharge : Bool

/-- mirrors ss_lowbat_handler.c:90-99 -/
def batteryWarningLowAct (s : Handler) : Handler :=
  { s with notis := s.notis + 1, requests := s.requests ++ [WARNING_LOW_BAT_ACT] }

/-- mirrors ss_lowbat_handler.c:101-105 -/
def batteryCriticalLowAct (s : Handler) : Handler :=
  { s with requests := s.requests ++ [CRITICAL_LOW_BAT_ACT] }

/-- mirrors ss_lowbat_handler.c:107-111 -/
def batteryPowerOffAct (s : Handler) : Handler :=
  { s with requests := s.requests ++ [POWER_OFF_BAT_ACT] }

def Act.run : Act → Handler → Handler
  | .warningLow => batteryWarningLowAct
  | .criticalLow => batteryCriticalLowAct
  | .powerOff => batteryPowerOffAct

/-- mirrors ss_lowbat_handler.c:118-125 -/
def ssLowbatSetChargeOn (e : Env) (onoff : Int) (s : Handler) : Handler :=
  if e.setCharge then { s with chargeNowKey := onoff } else s

/-- mirrors ss_lowbat_handler.c:127-143 -/
def ssLowbatIsChargeInNow (e : Env) (s : Handler) : Int × Handler :=
  match e.chargeNow with
  | none => (0, ssLowbatSetChargeOn e 0 s)
  | some val => if val = 1 then (1, ssLowbatSetChargeOn e 1 s) else (0, ssLowbatSetChargeOn e 0 s)

/-- The cascade: the battery state and the status to publish.
mirrors ss_lowbat_handler.c:167-198 -/
def classify (full newBatCapacity : Int) : Int × Status :=
  if newBatCapacity ≤ BATTERY_REAL_POWER_OFF then (BATTERY_REAL_POWER_OFF, .POWER_OFF)
  else if newBatCapacity ≤ BATTERY_POWER_OFF then (BATTERY_POWER_OFF, .POWER_OFF)
  else if newBatCapacity ≤ BATTERY_CRITICAL_LOW then (BATTERY_CRITICAL_LOW, .CRITICAL_LOW)
  else if newBatCapacity ≤ BATTERY_WARNING_LOW then (BATTERY_WARNING_LOW, .WARNING_LOW)
  else if newBatCapacity = BATTERY_FULL ∧ full = 1 then (BATTERY_NORMAL, .FULL)
  else (BATTERY_NORMAL, .NORMAL)

/-- The row for a change of state. -/
def lookup (cur new : Int) : Option LowbatProcessEntry :=
  lpe.find? fun r => cur = r.curBatState ∧ new = r.newBatState

/-- The first row that leads to a state, for a state that is not known. -/
def lookupNew (new : Int) : Option LowbatProcessEntry := lpe.find? fun r => new = r.newBatState

/-- From the charger's state on.
mirrors ss_lowbat_handler.c:205-233 -/
def changeState (newBatState : Int) (s : Handler) : Int × Handler :=
  if s.curBatState = newBatState ∧ s.curBatState ≠ BATTERY_POWER_OFF then (0, s)
  else
    match if s.curBatState = BATTERY_UNKNOWN then lookupNew newBatState
      else lookup s.curBatState newBatState with
    | some r => (0, { r.action.run s with curBatState := newBatState })
    | none => (-1, { s with curBatState := newBatState })

/-- mirrors ss_lowbat_handler.c:156-160 -/
def publishCapacity (e : Env) (newBatCapacity : Int) (s : Handler) : Handler :=
  if newBatCapacity ≠ s.curBatCapacity ∧ e.setCapacity then
    { s with capacityKey := newBatCapacity, curBatCapacity := newBatCapacity }
  else s

/-- The write each branch of the cascade makes, unless the status is there.
mirrors ss_lowbat_handler.c:167-201 -/
def publishStatus (e : Env) (v : Status) (s : Handler) : Int × Handler :=
  if e.status = some v then (0, s)
  else if e.setStatus then (0, { s with statusKey := some v })
  else (-1, s)

/-- mirrors ss_lowbat_handler.c:145-234 -/
def lowbatProcess (e : Env) (batPercent : Int) (s : Handler) : Int × Handler :=
  if batPercent < 0 then (-1, s)
  else
    let s := publishCapacity e batPercent s
    if e.getStatus = false then (-1, s)
    else
      let c := classify e.full batPercent
      let r := publishStatus e c.2 s
      if r.1 < 0 then (-1, r.2) else changeState c.1 (ssLowbatIsChargeInNow e r.2).2

/-! ## Classes -/

inductive Class where
  | R | P | C | W | N
  deriving DecidableEq, Repr

def Class.rank : Class → Nat
  | .R => 0
  | .P => 1
  | .C => 2
  | .W => 3
  | .N => 4

instance : LT Class := ⟨fun a b => a.rank < b.rank⟩

instance (a b : Class) : Decidable (a < b) := inferInstanceAs (Decidable (a.rank < b.rank))

/-- The class of a capacity. -/
def Class.of (capacity : Int) : Class :=
  if capacity ≤ 0 then .R
  else if capacity ≤ 1 then .P
  else if capacity ≤ 5 then .C
  else if capacity ≤ 15 then .W
  else .N

/-- What a reading asks for on the way down to a class; there is no way down
to N. -/
def Class.request : Class → String
  | .W => "warning_low_bat_act"
  | .R => "power_off_bat_act"
  | _ => "critical_low_bat_act"

structure Call where
  env : Env
  capacity : Int

/-- The status key could be read, and the status write, if one was needed,
did not fail. -/
def Call.Effective (c : Call) : Prop :=
  0 ≤ c.capacity ∧ c.env.getStatus = true ∧
    (c.env.status ≠ some (classify c.env.full c.capacity).2 → c.env.setStatus = true)

instance (c : Call) : Decidable c.Effective := inferInstanceAs (Decidable (_ ∧ _ ∧ (_ → _)))

/-- The requests of a sequence of readings, `prev` being the class of the
effective reading before it. -/
def spec (prev : Class) : List Call → List String
  | [] => []
  | c :: cs =>
    if c.Effective then
      (if Class.of c.capacity < prev then [(Class.of c.capacity).request] else []) ++
        spec (Class.of c.capacity) cs
    else spec prev cs

def run (s : Handler) (cs : List Call) : Handler :=
  cs.foldl (fun s c => (lowbatProcess c.env c.capacity s).2) s

/-! ## The table and the order of the classes -/

/-- The battery state of a class. -/
def Class.state : Class → Int
  | .R => BATTERY_REAL_POWER_OFF
  | .P => BATTERY_POWER_OFF
  | .C => BATTERY_CRITICAL_LOW
  | .W => BATTERY_WARNING_LOW
  | .N => BATTERY_NORMAL

/-- The status a class is published as. -/
def Class.status (isFull : Bool) : Class → Status
  | .R => .POWER_OFF
  | .P => .POWER_OFF
  | .C => .CRITICAL_LOW
  | .W => .WARNING_LOW
  | .N => if isFull then .FULL else .NORMAL

theorem classify_class (full capacity : Int) : classify full capacity =
    ((Class.of capacity).state, (Class.of capacity).status (capacity = BATTERY_FULL ∧ full = 1)) := by
  unfold classify Class.of
  by_cases hR : capacity ≤ BATTERY_REAL_POWER_OFF
  · rw [if_pos hR, if_pos (show capacity ≤ 0 from hR)]; rfl
  rw [if_neg hR, if_neg (show ¬ capacity ≤ 0 from hR)]
  by_cases hP : capacity ≤ BATTERY_POWER_OFF
  · rw [if_pos hP, if_pos (show capacity ≤ 1 from hP)]; rfl
  rw [if_neg hP, if_neg (show ¬ capacity ≤ 1 from hP)]
  by_cases hC : capacity ≤ BATTERY_CRITICAL_LOW
  · rw [if_pos hC, if_pos (show capacity ≤ 5 from hC)]; rfl
  rw [if_neg hC, if_neg (show ¬ capacity ≤ 5 from hC)]
  by_cases hW : capacity ≤ BATTERY_WARNING_LOW
  · rw [if_pos hW, if_pos (show capacity ≤ 15 from hW)]; rfl
  rw [if_neg hW, if_neg (show ¬ capacity ≤ 15 from hW)]
  by_cases hfull : capacity = BATTERY_FULL ∧ full = 1
  · rw [if_pos hfull, decide_eq_true hfull]; rfl
  · rw [if_neg hfull, decide_eq_false hfull]; rfl

theorem classify_state (full capacity : Int) :
    (classify full capacity).1 = (Class.of capacity).state := by
  rw [classify_class]

/-- The request of the row found, if one was. -/
def requestOf (r : Option LowbatProcessEntry) : List String :=
  (r.map fun r => match r.action with
    | .warningLow => WARNING_LOW_BAT_ACT
    | .criticalLow => CRITICAL_LOW_BAT_ACT
    | .powerOff => POWER_OFF_BAT_ACT).toList

/-- The table has a row exactly for the changes that go down. -/
theorem lookup_class (cur new : Class) :
    requestOf (lookup cur.state new.state) = if new < cur then [new.request] else [] := by
  cases cur <;> cases new <;> decide

/-- From the unknown state a reading counts as coming from N. -/
theorem lookupNew_class (new : Class) :
    requestOf (lookupNew new.state) = if new < .N then [new.request] else [] := by
  cases new <;> decide

theorem state_inj {a b : Class} (h : a.state = b.state) : a = b := by
  cases a <;> cases b <;> first | rfl | exact absurd h (by decide)

theorem state_ne_unknown (a : Class) : a.state ≠ BATTERY_UNKNOWN := by
  cases a <;> decide

/-! ## One call -/

/-- The battery state stands for the class of the last effective reading, or
none was there yet. -/
def Tracks (prev : Class) (s : Handler) : Prop :=
  s.curBatState = prev.state ∨ (s.curBatState = BATTERY_UNKNOWN ∧ prev = .N)

theorem act_run (a : Act) (s : Handler) : (a.run s).curBatState = s.curBatState ∧
    (a.run s).requests = s.requests ++ requestOf (some ⟨0, 0, a⟩) := by
  cases a <;> exact ⟨rfl, rfl⟩

/-- The battery state and the requests are those of `s`. -/
def Same (s s' : Handler) : Prop := s'.curBatState = s.curBatState ∧ s'.requests = s.requests

theorem publishCapacity_same (e : Env) (v : Int) (s : Handler) : Same s (publishCapacity e v s) := by
  unfold publishCapacity
  split <;> exact ⟨rfl, rfl⟩

theorem publishStatus_same (e : Env) (v : Status) (s : Handler) :
    Same s (publishStatus e v s).2 := by
  unfold publishStatus
  split
  · exact ⟨rfl, rfl⟩
  · split <;> exact ⟨rfl, rfl⟩

theorem publishStatus_ok (e : Env) (v : Status) (s : Handler) :
    (publishStatus e v s).1 < 0 ↔ ¬ (e.status ≠ some v → e.setStatus = true) := by
  unfold publishStatus
  by_cases hv : e.status = some v
  · simp [hv]
  · cases hs : e.setStatus <;> simp [hv]

theorem chargeInNow_same (e : Env) (s : Handler) : Same s (ssLowbatIsChargeInNow e s).2 := by
  have hset : ∀ onoff, Same s (ssLowbatSetChargeOn e onoff s) := by
    intro onoff
    unfold ssLowbatSetChargeOn
    split <;> exact ⟨rfl, rfl⟩
  unfold ssLowbatIsChargeInNow
  split
  · exact hset 0
  · split
    · exact hset 1
    · exact hset 0

/-- The row found, or nothing, then the new state. -/
theorem changeState_found (new : Int) (s : Handler) (r : Option LowbatProcessEntry)
    (h : ¬ (s.curBatState = new ∧ s.curBatState ≠ BATTERY_POWER_OFF))
    (hr : (if s.curBatState = BATTERY_UNKNOWN then lookupNew new else lookup s.curBatState new) = r) :
    (changeState new s).2.curBatState = new ∧
      (changeState new s).2.requests = s.requests ++ requestOf r := by
  simp only [changeState, if_neg h, hr]
  cases r with
  | none => exact ⟨rfl, (List.append_nil _).symm⟩
  | some r => exact ⟨rfl, (act_run r.action s).2⟩

theorem changeState_spec {prev : Class} {s : Handler} (h : Tracks prev s) (new : Class) :
    Tracks new (changeState new.state s).2 ∧ (changeState new.state s).2.requests =
      s.requests ++ if new < prev then [new.request] else [] := by
  by_cases hsame : s.curBatState = new.state ∧ s.curBatState ≠ BATTERY_POWER_OFF
  · -- nothing changes
    obtain rfl : prev = new := by
      rcases h with h | ⟨h, -⟩
      · exact state_inj (h.symm.trans hsame.1)
      · exact absurd (hsame.1.symm.trans h) (state_ne_unknown new)
    have hlt : ¬ prev < prev := Nat.lt_irrefl _
    simp only [changeState, if_pos hsame, if_neg hlt, List.append_nil]
    exact ⟨h, trivial⟩
  · rcases h with h | ⟨h, rfl⟩
    · have hr := changeState_found new.state s _ hsame
        (if_neg (by rw [h]; exact state_ne_unknown prev))
      rw [h, lookup_class] at hr
      exact ⟨.inl hr.1, hr.2⟩
    · have hr := changeState_found new.state s _ hsame (if_pos h)
      rw [lookupNew_class] at hr
      exact ⟨.inl hr.1, hr.2⟩

/-- A reading that is not effective asks for nothing and leaves the state. -/
theorem lowbatProcess_ineffective {c : Call} (h : ¬ c.Effective) (s : Handler) :
    Same s (lowbatProcess c.env c.capacity s).2 := by
  have hcap := publishCapacity_same c.env c.capacity s
  simp only [lowbatProcess]
  split
  · exact ⟨rfl, rfl⟩
  rename_i hpos
  split
  · exact hcap
  rename_i hget
  split
  · have hst := publishStatus_same c.env (classify c.env.full c.capacity).2
      (publishCapacity c.env c.capacity s)
    exact ⟨hst.1.trans hcap.1, hst.2.trans hcap.2⟩
  · rename_i hok
    rw [publishStatus_ok, not_not] at hok
    exact absurd ⟨by omega, by simpa using hget, hok⟩ h

theorem lowbatProcess_effective {c : Call} (h : c.Effective) {prev : Class} {s : Handler}
    (ht : Tracks prev s) :
    Tracks (Class.of c.capacity) (lowbatProcess c.env c.capacity s).2 ∧
      (lowbatProcess c.env c.capacity s).2.requests = s.requests ++
        if Class.of c.capacity < prev then [(Class.of c.capacity).request] else [] := by
  obtain ⟨hpos, hget, hset⟩ := h
  have hok : ¬ (publishStatus c.env (classify c.env.full c.capacity).2
      (publishCapacity c.env c.capacity s)).1 < 0 := by
    rw [publishStatus_ok, not_not]; exact hset
  simp only [lowbatProcess, if_neg (Int.not_lt.mpr hpos), hget, Bool.true_eq_false, if_false,
    if_neg hok, classify_state]
  -- nothing before the change of state touches the state or the requests
  have h₁ := publishCapacity_same c.env c.capacity s
  have h₂ := publishStatus_same c.env (classify c.env.full c.capacity).2
    (publishCapacity c.env c.capacity s)
  have h₃ := chargeInNow_same c.env (publishStatus c.env (classify c.env.full c.capacity).2
    (publishCapacity c.env c.capacity s)).2
  have hcur := h₃.1.trans (h₂.1.trans h₁.1)
  have hreq := h₃.2.trans (h₂.2.trans h₁.2)
  rw [← hreq]
  refine changeState_spec ?_ (Class.of c.capacity)
  unfold Tracks
  rw [hcur]; exact ht

/-! ## Sequences of calls -/

theorem run_requests {prev : Class} {s : Handler} (h : Tracks prev s) (cs : List Call) :
    (run s cs).requests = s.requests ++ spec prev cs := by
  induction cs generalizing prev s with
  | nil => exact (List.append_nil _).symm
  | cons c cs ih =>
    simp only [run, List.foldl_cons, spec]
    by_cases he : c.Effective
    · obtain ⟨ht, hreq⟩ := lowbatProcess_effective he h
      rw [if_pos he, ← List.append_assoc, ← hreq]
      exact ih ht
    · obtain ⟨hcur, hreq⟩ := lowbatProcess_ineffective he s
      rw [if_neg he, ← hreq]
      refine ih ?_
      unfold Tracks
      rw [hcur]; exact h

/-- **The requests of a sequence of readings.** From the unknown state, an
effective reading asks for an action exactly when its class is below that of
the effective reading before it; a reading that is not effective asks for
nothing and leaves the battery state, in any state. -/
theorem request_trace (s : Handler) (h : s.curBatState = BATTERY_UNKNOWN) (cs : List Call) :
    (run s cs).requests = s.requests ++ spec .N cs ∧
    ∀ (c : Call) (s' : Handler), ¬ c.Effective →
      (lowbatProcess c.env c.capacity s').2.curBatState = s'.curBatState ∧
      (lowbatProcess c.env c.capacity s').2.requests = s'.requests :=
  ⟨run_requests (.inr ⟨h, rfl⟩) cs, fun _ s' hc => lowbatProcess_ineffective hc s'⟩

/-- mirrors ss_lowbat_handler.c:68-69 -/
def static : Handler := ⟨BATTERY_UNKNOWN, -1, -1, none, 0, 0, []⟩

/-- Every call succeeds, or the status write does not. -/
def env (setStatus : Bool) : Env := ⟨true, true, none, 0, setStatus, some 0, true⟩

/-- Falling, with one write lost, then charged and falling again. -/
def discharge : List Call :=
  [⟨env true, 50⟩, ⟨env false, 14⟩, ⟨env true, 13⟩, ⟨env true, 12⟩, ⟨env true, 1⟩, ⟨env true, 0⟩,
    ⟨env true, 60⟩, ⟨env true, 4⟩]

theorem request_trace_discharge : (run static discharge).requests =
    ["warning_low_bat_act", "critical_low_bat_act", "power_off_bat_act", "critical_low_bat_act"] :=
  (request_trace static rfl discharge).1.trans (by decide)

end SystemServer.L4.LowBat
