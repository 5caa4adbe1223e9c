import SystemServer.Core.CString
import SystemServer.Core.LTS
import SystemServer.L4Device.LowBat

/-!
# The low battery popup (`ss_predefine.c`)

`lowbat_def_predefine_action` shows a popup or, while the device is booting,
has a timer show it later. The first argument says what the popup is about;
it is compared with the names of the battery's actions without a look at
whether it is there (`lowbat_isSome_iff`).

The timer's callback, `lowbat_popup`, tries again at every tick until the
popup is shown; Ecore deletes a timer whose callback returns 0.
`deferred_popup`: in every run of requests and ticks `lowbat_popup_id` denotes
the one timer that is live, if there is one, and what a tick shows is what the
last request asked for.
-/
namespace SystemServer.L4.LowBatPopup

open SystemServer.L4.LowBat (WARNING_LOW_BAT_ACT CRITICAL_LOW_BAT_ACT POWER_OFF_BAT_ACT)

/-- mirrors include/ss_data.h:63 -/
def CHARGE_ERROR_ACT : String := "charge_error_act"

/-- mirrors ss_predefine.c:67-70 -/
def LOWBAT_OPT_WARNING : Int := 1
def LOWBAT_OPT_POWEROFF : Int := 2
def LOWBAT_OPT_CHARGEERR : Int := 3
def LOWBAT_OPT_CHECK : Int := 4

/-- `lowbat_popup_id` and `lowbat_popup_option`, the timers that run, and the
contents of the popups shown. -/
structure Popup where
  popupId : Option Nat
  popupOption : Int
  live : List Nat
  nextTimer : Nat
  shown : List String
  deriving DecidableEq, Repr

/-- What a call meets: VCONFKEY_STARTER_SEQUENCE if it can be read, and what
`syspopup_launch` returns. -/
structure Env where
  starter : Option Int
  popup : Int

def ecoreTimerAdd (s : Popup) : Nat × Popup :=
  (s.nextTimer, { s with live := s.nextTimer :: s.live, nextTimer := s.nextTimer + 1 })

def ecoreTimerDel (t : Nat) (s : Popup) : Popup := { s with live := s.live.filter (· ≠ t) }

/-- `state == 1 || ret != 0` -/
def Env.Booted (e : Env) : Prop := e.starter = some 1 ∨ e.starter = none

instance (e : Env) : Decidable e.Booted := inferInstanceAs (Decidable (_ ∨ _))

/-- mirrors ss_predefine.c:255-263 -/
def content (option : Int) : String :=
  if option = LOWBAT_OPT_WARNING then "warning"
  else if option = LOWBAT_OPT_POWEROFF then "poweroff"
  else if option = LOWBAT_OPT_CHARGEERR then "chargeerr"
  else "check"

/-- The comparisons, whose bundles say what `content` says.
mirrors ss_predefine.c:305-317 -/
def optionOf (act : Bytes) : Int :=
  if strcmp act (lit WARNING_LOW_BAT_ACT) = 0 ∨ strcmp act (lit CRITICAL_LOW_BAT_ACT) = 0 then
    LOWBAT_OPT_WARNING
  else if strcmp act (lit POWER_OFF_BAT_ACT) = 0 then LOWBAT_OPT_POWEROFF
  else if strcmp act (lit CHARGE_ERROR_ACT) = 0 then LOWBAT_OPT_CHARGEERR
  else LOWBAT_OPT_CHECK

/-- mirrors ss_predefine.c:298-301 -/
def delPopup (s : Popup) : Popup :=
  match s.popupId with
  | none => s
  | some t => { ecoreTimerDel t s with popupId := none }

/-- `none` where `strcmp` is handed a NULL pointer.
mirrors ss_predefine.c:289-334 -/
def lowbatDefPredefineAction (e : Env) (argc : Int) (argv : List CPtr) (s : Popup) :
    Option (Int × Popup) :=
  if argc < 1 then some (-1, s)
  else
    (arg argv 0).map fun act =>
      let s := { delPopup s with popupOption := optionOf act.bytes }
      if e.Booted then
        if e.popup < 0 then (-1, { s with popupOption := 0 })
        else (0, { s with shown := s.shown ++ [content s.popupOption] })
      else
        let r := ecoreTimerAdd s
        (0, { r.2 with popupId := some r.1 })

/-- Where there are arguments, the first one is compared. -/
theorem lowbat_isSome_iff (e : Env) (argc : Int) (argv : List CPtr) (s : Popup) :
    (lowbatDefPredefineAction e argc argv s).isSome ↔ argc < 1 ∨ (arg argv 0).isSome := by
  rw [lowbatDefPredefineAction, isSome_guarded, Option.isSome_map]

/-- The bundle of a request.
mirrors ss_predefine.c:305-317 -/
def bundleOf (act : Bytes) : String :=
  if strcmp act (lit WARNING_LOW_BAT_ACT) = 0 ∨ strcmp act (lit CRITICAL_LOW_BAT_ACT) = 0 then
    "warning"
  else if strcmp act (lit POWER_OFF_BAT_ACT) = 0 then "poweroff"
  else if strcmp act (lit CHARGE_ERROR_ACT) = 0 then "chargeerr"
  else "check"

/-- The option stands for the bundle. -/
theorem content_optionOf (act : Bytes) : content (optionOf act) = bundleOf act := by
  unfold optionOf bundleOf
  split
  · rfl
  · split
    · rfl
    · split <;> rfl

/-- The callback of the timer.
mirrors ss_predefine.c:255-287 -/
def lowbatPopup (e : Env) (s : Popup) : Int × Popup :=
  if e.Booted then
    if e.popup < 0 then (1, s)
    else (0, { s with
      shown := s.shown ++ [content s.popupOption]
      popupId := none
      popupOption := 0 })
  else (1, s)

/-! ## Runs -/

/-- `recent` is the first argument of the last request. -/
structure Sys where
  popup : Popup
  recent : Option Bytes

inductive Lbl where
  | request (e : Env) (argc : Int) (argv : List CPtr)
  | tick (t : Nat) (e : Env)

/-- A live timer fires; if its callback returns 0 it is deleted. -/
def tick (t : Nat) (e : Env) (s : Popup) : Option Popup :=
  if t ∈ s.live then
    let r := lowbatPopup e s
    some (if r.1 = 0 then ecoreTimerDel t r.2 else r.2)
  else none

def step (s : Sys) : Lbl → Option Sys
  | .request e argc argv =>
    if 1 ≤ argc then
      (lowbatDefPredefineAction e argc argv s.popup).map fun r =>
        ⟨r.2, (arg argv 0).map Str.bytes⟩
    else none
  | .tick t e => (tick t e s.popup).map fun popup => { s with popup := popup }

/-- At the start there is no timer. -/
structure Init (s : Sys) : Prop where
  popupId : s.popup.popupId = none
  live : s.popup.live = []

def lts : LTS Sys Lbl := ⟨Init, step⟩

/-- The handle denotes the one live timer, and the option is that of the last
request. -/
structure Single (s : Sys) : Prop where
  live : s.popup.live = s.popup.popupId.toList
  option : s.popup.popupId ≠ none → ∃ act, s.recent = some act ∧ s.popup.popupOption = optionOf act

/-- Deleting what the handle denotes leaves no timer. -/
theorem delPopup_single {s : Popup} (h : s.live = s.popupId.toList) :
    (delPopup s).popupId = none ∧ (delPopup s).live = [] := by
  unfold delPopup
  cases hid : s.popupId with
  | none => exact ⟨hid, by rw [h, hid]; rfl⟩
  | some t => exact ⟨rfl, by simp [ecoreTimerDel, h, hid]⟩

/-- A request leaves the timer it makes, if it makes one. -/
theorem request_single {e : Env} {argc : Int} {argv : List CPtr} {s : Popup} {r : Int × Popup}
    (h : s.live = s.popupId.toList) (hargc : 1 ≤ argc)
    (hr : lowbatDefPredefineAction e argc argv s = some r) :
    ∃ act, arg argv 0 = some act ∧ r.2.live = r.2.popupId.toList ∧
      (r.2.popupId ≠ none → r.2.popupOption = optionOf act.bytes) := by
  obtain ⟨hid, hlive⟩ := delPopup_single h
  rw [lowbatDefPredefineAction, if_neg (by omega)] at hr
  obtain ⟨act, hact, rfl⟩ := Option.map_eq_some_iff.mp hr
  refine ⟨act, hact, ?_⟩
  by_cases hboot : e.Booted
  · rw [if_pos hboot]
    by_cases hfail : e.popup < 0
    · rw [if_pos hfail]
      exact ⟨by simp [hid, hlive], fun hne => absurd hid hne⟩
    · rw [if_neg hfail]
      exact ⟨by simp [hid, hlive], fun hne => absurd hid hne⟩
  · rw [if_neg hboot]
    exact ⟨by simp [ecoreTimerAdd, hlive], fun _ => rfl⟩

/-- A tick either leaves everything, or shows the popup and ends its timer. -/
theorem tick_cases {t : Nat} {e : Env} {s s' : Popup} (h : s.live = s.popupId.toList)
    (ht : tick t e s = some s') : s.popupId = some t ∧ (s' = s ∨
      s'.popupId = none ∧ s'.live = [] ∧ s'.shown = s.shown ++ [content s.popupOption]) := by
  obtain ⟨hmem, rfl⟩ := Option.ite_some_none_eq_some.mp ht
  rw [h, Option.mem_toList] at hmem
  refine ⟨hmem, ?_⟩
  unfold lowbatPopup
  by_cases hboot : e.Booted
  · rw [if_pos hboot]
    by_cases hfail : e.popup < 0
    · rw [if_pos hfail]
      exact .inl rfl
    · rw [if_neg hfail]
      exact .inr ⟨rfl, by simp [ecoreTimerDel, h, hmem], rfl⟩
  · rw [if_neg hboot]
    exact .inl rfl

theorem single_inductive : lts.Inductive Single where
  init s hinit := ⟨by rw [hinit.live, hinit.popupId]; rfl, fun hne => absurd hinit.popupId hne⟩
  step := by
    intro s l s' h hst
    cases l with
    | request e argc argv =>
      obtain ⟨hargc, hst⟩ := Option.ite_none_right_eq_some.mp hst
      obtain ⟨r, hr, rfl⟩ := Option.map_eq_some_iff.mp hst
      obtain ⟨act, hact, hlive, hoption⟩ := request_single h.live hargc hr
      exact ⟨hlive, fun hne => ⟨act.bytes, by rw [hact]; rfl, hoption hne⟩⟩
    | tick t e =>
      obtain ⟨popup, ht, rfl⟩ := Option.map_eq_some_iff.mp hst
      obtain ⟨-, hsame | ⟨hid, hlive, -⟩⟩ := tick_cases h.live ht
      · rw [hsame]
        exact h
      · exact ⟨by rw [hlive, hid]; rfl, fun hne => absurd hid hne⟩

/-- What a tick shows is what the last request asked for. -/
def Recent (s : Sys) : Lbl → Sys → Prop
  | .request _ _ _, _ => True
  | .tick _ _, s' => s'.popup.shown = s.popup.shown ∨
      ∃ act, s.recent = some act ∧ s'.popup.shown = s.popup.shown ++ [bundleOf act]

/-- **The deferred popup.** In every state that requests and ticks lead to,
there is at most one timer, `lowbat_popup_id` is not NULL exactly when there is
one, and then it is that one, so it is never one that was deleted; and a popup
that the next tick shows is the one the last request asked for. -/
theorem deferred_popup (s : Sys) (h : lts.Reachable s) :
    s.popup.live.length ≤ 1 ∧
      (s.popup.popupId ≠ none ↔ s.popup.live.length = 1) ∧
      (∀ t, s.popup.popupId = some t → s.popup.live = [t]) ∧
      ∀ l s', step s l = some s' → Recent s l s' := by
  have hs := single_inductive.reachable h
  have hlive := hs.live
  refine ⟨?_, ?_, fun t ht => ?_, fun l s' hst => ?_⟩
  · rw [hlive]
    cases s.popup.popupId <;> simp
  · rw [hlive]
    cases s.popup.popupId <;> simp
  · rw [hlive, ht]
    rfl
  · cases l with
    | request e argc argv => trivial
    | tick t e =>
      obtain ⟨popup, ht, rfl⟩ := Option.map_eq_some_iff.mp hst
      obtain ⟨hid, hsame | ⟨-, -, hshown⟩⟩ := tick_cases hlive ht
      · exact .inl (by rw [hsame])
      · obtain ⟨act, hact, hoption⟩ := hs.option (by rw [hid]; exact Option.some_ne_none t)
        exact .inr ⟨act, hact, by rw [hshown, hoption, content_optionOf]⟩

/-- Still booting, and booted with the popup process 7. -/
def booting : Env := ⟨some 0, -1⟩

def booted : Env := ⟨some 1, 7⟩

/-- Two requests while booting, and a tick when that is over: it shows the popup
of the second one. -/
theorem deferred_twice : ∃ s s', lts.Reachable s ∧ step s (.tick 1 booted) = some s' ∧
    s.popup.shown = [] ∧ s'.popup.shown = ["poweroff"] ∧ Recent s (.tick 1 booted) s' ∧
    (∀ t, s.popup.popupId = some t → s.popup.live = [t]) ∧
    s'.popup.live.length ≤ 1 ∧ (s'.popup.popupId ≠ none ↔ s'.popup.live.length = 1) := by
  have hreach : lts.Reachable
      ⟨⟨some 1, LOWBAT_OPT_POWEROFF, [1], 2, []⟩, some (lit POWER_OFF_BAT_ACT)⟩ :=
    ⟨⟨⟨none, 0, [], 0, []⟩, none⟩,
      [.request booting 1 [some ⟨0, lit WARNING_LOW_BAT_ACT⟩], .tick 0 booting,
        .request booting 1 [some ⟨1, lit POWER_OFF_BAT_ACT⟩]],
      ⟨rfl, rfl⟩, rfl⟩
  have hst : lts.step ⟨⟨some 1, LOWBAT_OPT_POWEROFF, [1], 2, []⟩, some (lit POWER_OFF_BAT_ACT)⟩
      (.tick 1 booted) =
        some ⟨⟨none, 0, [], 2, ["poweroff"]⟩, some (lit POWER_OFF_BAT_ACT)⟩ := rfl
  obtain ⟨-, -, hlive, hrecent⟩ := deferred_popup _ hreach
  obtain ⟨hone, hiff, -⟩ := deferred_popup _ (hreach.step hst)
  exact ⟨_, _, hreach, hst, rfl, rfl, hrecent _ _ hst, hlive, hone, hiff⟩

end SystemServer.L4.LowBatPopup
