import SystemServer.Core.CString
import SystemServer.Core.LTS

/-!
# Date and timezone (`ss_timemgr.c`)

The timezone is a symbolic link. `handle_timezone` removes the one that is
there and makes a new one; whether one is there it asks `stat`, which follows
the link. So a link whose target does not exist counts as none, is not
removed, and `symlink` finds the name taken.

`timezone_iff`: in a run of requests each one takes effect exactly when the
target of the link it finds can be reached, or there is no link.

`failed_iff`: the new link is made only after the old one is gone, so a
request that fails leaves the link alone exactly when it did not get past the
`unlink`.

Targets come and go on their own, so what `stat` finds is part of a request.
-/
namespace SystemServer.L4.TimeMgr

/-! ## The source -/

/-- The link at `default_localtime`, what VCONFKEY_SYSTEM_TIMECHANGE was set
to, and the calls of `pm_lock_state` (`true`) and `pm_unlock_state`. -/
structure Clock where
  link : Option Bytes
  timeChange : Option Int
  pm : List (Bool × Nat)
  deriving DecidableEq, Repr

/-- `stat` returns 0, or -1 with ENOENT or another error. -/
inductive Stat where
  | found
  | enoent
  | error
  deriving DecidableEq, Repr

/-- The file system during a request: what `stat` comes to for a link with the
given target, or for no link, whether a link can be removed, and whether a
free name can be linked. -/
structure Fs where
  stat : Option Bytes → Stat
  unlink : Bool
  symlink : Bool

/-- Returns the value and the link.
mirrors ss_timemgr.c:51-89 -/
def handleTimezone (fs : Fs) (str : CPtr) (link : Option Bytes) : Int × Option Bytes :=
  match str with
  | none => (-1, link)
  | some tz =>
    let tzpath := cstr tz.bytes
    -- a name that is taken, or the empty string
    let symlink (link : Option Bytes) : Int × Option Bytes :=
      if link.isSome ∨ tzpath = [] ∨ ¬ fs.symlink then (-1, link) else (0, some tzpath)
    if fs.stat link = .enoent then symlink link
    else if link.isSome ∧ fs.unlink then symlink none
    else (-1, link)

/-- mirrors ss_timemgr.c:94-110 -/
def handleDate (str : CPtr) (s : Clock) : Int × Clock :=
  match atoiP str with
  | none => (-1, s)
  | some tmp => (0, { s with timeChange := some tmp })

/-- The display state to lock.
mirrors ss_timemgr.c:118-125,139-146 -/
def pmState (ret : Int) : Nat := if ret = 1 then 0x1 else if ret = 2 then 0x2 else 0x4

/-- `ret` is what VCONFKEY_PM_STATE is read to be, 0 if it cannot be.
mirrors ss_timemgr.c:112-131 -/
def setDatetimeAction (ret : Int) (argc : Int) (argv : List CPtr) (s : Clock) : Int × Clock :=
  if argc < 1 then (-1, s)
  else
    let r := handleDate (arg argv 0) { s with pm := s.pm ++ [(true, pmState ret)] }
    (r.1, { r.2 with pm := r.2.pm ++ [(false, pmState ret)] })

/-- `ret` is what VCONFKEY_PM_STATE is read to be, anything if it cannot be.
mirrors ss_timemgr.c:133-152 -/
def setTimezoneAction (fs : Fs) (ret : Int) (argc : Int) (argv : List CPtr) (s : Clock) :
    Int × Clock :=
  if argc < 1 then (-1, s)
  else
    let r := handleTimezone fs (arg argv 0) s.link
    (r.1, ⟨r.2, s.timeChange, s.pm ++ [(true, pmState ret), (false, pmState ret)]⟩)

/-! ## Requests -/

/-- A timezone request, with the file system as it is then. -/
structure Request where
  fs : Fs
  ret : Int
  argc : Int
  argv : List CPtr

def Request.path (r : Request) : Bytes := ((arg r.argv 0).map fun s => cstr s.bytes).getD []

/-- The directory can be searched and written. -/
def Fs.Writable (fs : Fs) : Prop := fs.stat none = .enoent ∧ fs.unlink = true ∧ fs.symlink = true

instance (fs : Fs) : Decidable fs.Writable :=
  inferInstanceAs (Decidable (fs.stat none = .enoent ∧ fs.unlink = true ∧ fs.symlink = true))

/-- A request with a path that is not empty. -/
def step (s : Clock) (r : Request) : Option Clock :=
  if r.fs.Writable ∧ 1 ≤ r.argc ∧ r.path ≠ [] then
    some (setTimezoneAction r.fs r.ret r.argc r.argv s).2
  else none

def lts : LTS Clock Request := ⟨fun _ => True, step⟩

/-- The request returns 0, and the link points to its path. -/
def Wins (s : Clock) (r : Request) (s' : Clock) : Prop :=
  (setTimezoneAction r.fs r.ret r.argc r.argv s).1 = 0 ∧ s'.link = some r.path

instance (s : Clock) (r : Request) (s' : Clock) : Decidable (Wins s r s') :=
  inferInstanceAs (Decidable (_ = _ ∧ _ = _))

/-- There is no link, or `stat` through it does not fail with ENOENT. -/
def Live (s : Clock) (r : Request) : Prop := s.link = none ∨ r.fs.stat s.link ≠ .enoent

instance (s : Clock) (r : Request) : Decidable (Live s r) :=
  inferInstanceAs (Decidable (s.link = none ∨ r.fs.stat s.link ≠ .enoent))

/-! ## The last request wins -/

/-- With the link gone, or none there, the new one is made. -/
theorem handleTimezone_live {fs : Fs} {tz : Str} {link : Option Bytes} (hfs : fs.Writable)
    (htz : cstr tz.bytes ≠ []) (h : link = none ∨ fs.stat link ≠ .enoent) :
    handleTimezone fs (some tz) link = (0, some (cstr tz.bytes)) := by
  obtain ⟨hstat, hunlink, hsymlink⟩ := hfs
  cases link with
  | none => simp [handleTimezone, hstat, hsymlink, htz]
  | some t =>
    have hfound : fs.stat (some t) ≠ .enoent := h.resolve_left (Option.some_ne_none t)
    simp [handleTimezone, hfound, hunlink, hsymlink, htz]

/-- A link that leads nowhere stays. -/
theorem handleTimezone_dangling {fs : Fs} {tz : Str} {t : Bytes} (h : fs.stat (some t) = .enoent) :
    handleTimezone fs (some tz) (some t) = (-1, some t) := by
  simp [handleTimezone, h]

theorem wins_iff {s s' : Clock} {r : Request} (hst : step s r = some s') :
    Wins s r s' ↔ Live s r := by
  obtain ⟨⟨hfs, hargc, hpath⟩, rfl⟩ := Option.ite_some_none_eq_some.mp hst
  obtain ⟨tz, htz⟩ : ∃ tz, arg r.argv 0 = some tz := by
    cases harg : arg r.argv 0 with
    | none => simp [Request.path, harg] at hpath
    | some tz => exact ⟨tz, rfl⟩
  have hpath' : r.path = cstr tz.bytes := by simp [Request.path, htz]
  have hargc' : ¬ r.argc < 1 := by omega
  simp only [Wins, setTimezoneAction, if_neg hargc', htz, hpath']
  rw [hpath'] at hpath
  constructor
  · intro hwins
    have hret := hwins.1
    by_contra hlive
    simp only [Live, not_or, not_not] at hlive
    obtain ⟨t, ht⟩ := Option.ne_none_iff_exists'.mp hlive.1
    rw [ht, handleTimezone_dangling (ht ▸ hlive.2)] at hret
    exact absurd hret (by simp)
  · intro hlive
    rw [handleTimezone_live hfs hpath hlive]
    exact ⟨rfl, rfl⟩

/-- **The last timezone request wins.** In every run of requests every one
returns 0 and leaves the link at its path if and only if each finds no link,
or one whose target `stat` does not report missing. -/
theorem timezone_iff (s₀ : Clock) (rs : List Request) :
    lts.Along Wins s₀ rs ↔ lts.Meets Live s₀ rs := by
  have hok : ∀ s r s', True → lts.step s r = some s' → (Wins s r s' ↔ Live s r) :=
    fun _ _ _ _ hst => wins_iff hst
  exact LTS.along_iff hok (fun _ _ _ _ _ _ => trivial) trivial rs

/-- The zone files there are. -/
def zones (found : List Bytes) : Fs :=
  ⟨fun link => if link.any (found.contains ·) then .found else .enoent, true, true⟩

def ask (found : List Bytes) (path : Bytes) : Request := ⟨zones found, 1, 1, [some ⟨0, path⟩]⟩

/-- A zone that is not installed, and then one that is. -/
theorem timezone_stuck :
    ((lts.run ⟨none, none, []⟩ [ask [lit "/Seoul"] (lit "/Soul"),
        ask [lit "/Seoul"] (lit "/Seoul")]).map Clock.link) = some (some (lit "/Soul")) ∧
      ¬ lts.Along Wins ⟨none, none, []⟩ [ask [lit "/Seoul"] (lit "/Soul"),
        ask [lit "/Seoul"] (lit "/Seoul")] := by decide

/-! ## Requests that fail -/

/-- A request that returns -1 leaves the link as it was. -/
def Spares (fs : Fs) (ret argc : Int) (argv : List CPtr) (s : Clock) : Prop :=
  (setTimezoneAction fs ret argc argv s).1 = -1 →
    (setTimezoneAction fs ret argc argv s).2.link = s.link

/-- There is a link and it is removed, and the new one cannot be made. -/
def Loses (fs : Fs) (argc : Int) (argv : List CPtr) (s : Clock) : Prop :=
  1 ≤ argc ∧ s.link ≠ none ∧ fs.stat s.link ≠ .enoent ∧ fs.unlink = true ∧
    ∃ tz, arg argv 0 = some tz ∧ (cstr tz.bytes = [] ∨ fs.symlink = false)

/-- The link goes where it is removed and `symlink` fails. -/
theorem handleTimezone_spares_iff (fs : Fs) (tz : Str) (link : Option Bytes) :
    ((handleTimezone fs (some tz) link).1 = -1 → (handleTimezone fs (some tz) link).2 = link) ↔
      ¬ (link ≠ none ∧ fs.stat link ≠ .enoent ∧ fs.unlink = true ∧
        (cstr tz.bytes = [] ∨ fs.symlink = false)) := by
  unfold handleTimezone
  by_cases hstat : fs.stat link = .enoent
  · -- nothing is removed
    refine iff_of_true ?_ fun h => h.2.1 hstat
    simp only [if_pos hstat]
    split
    · exact fun _ => rfl
    · intro h
      cases h
  · by_cases hgone : link.isSome ∧ fs.unlink
    · have hlink : link ≠ none := Option.isSome_iff_ne_none.mp hgone.1
      by_cases hfail : cstr tz.bytes = [] ∨ ¬ fs.symlink
      · have hfail' : (none : Option Bytes).isSome ∨ cstr tz.bytes = [] ∨ ¬ fs.symlink := .inr hfail
        simp only [if_neg hstat, if_pos hgone, if_pos hfail']
        refine iff_of_false (fun h => hlink (h trivial).symm) fun h => h ⟨hlink, hstat, hgone.2, ?_⟩
        simpa using hfail
      · have hmade : ¬ ((none : Option Bytes).isSome ∨ cstr tz.bytes = [] ∨ ¬ fs.symlink) := by
          simpa using hfail
        simp only [if_neg hstat, if_pos hgone, if_neg hmade]
        exact iff_of_true (fun h => absurd h (by simp)) fun h => hfail (by simpa using h.2.2.2)
    · simp only [if_neg hstat, if_neg hgone]
      refine iff_of_true (fun _ => trivial) fun h => hgone ⟨?_, h.2.2.1⟩
      exact Option.isSome_iff_ne_none.mpr h.1

/-- **A failed timezone request.** Whatever is asked for and whatever the calls
come to, a request that returns -1 leaves the link as it was if and only if it
did not remove one before `symlink` failed. -/
theorem failed_iff (fs : Fs) (ret argc : Int) (argv : List CPtr) (s : Clock) :
    Spares fs ret argc argv s ↔ ¬ Loses fs argc argv s := by
  unfold Spares setTimezoneAction
  by_cases hargc : argc < 1
  · rw [if_pos hargc]
    exact iff_of_true (fun _ => rfl) fun h => absurd h.1 (by omega)
  · rw [if_neg hargc]
    cases harg : arg argv 0 with
    | none =>
      refine iff_of_true (fun _ => rfl) fun h => ?_
      obtain ⟨-, -, -, -, tz, htz, -⟩ := h
      exact absurd (harg.symm.trans htz) (Option.some_ne_none tz).symm
    | some tz =>
      refine (handleTimezone_spares_iff fs tz s.link).trans (not_congr ?_)
      have hargc' : 1 ≤ argc := by omega
      simp [Loses, harg, hargc']

/-- With "/Seoul" in place, a request for the empty string. -/
theorem failed_empty :
    setTimezoneAction (zones [lit "/Seoul"]) 1 1 [some ⟨0, [0]⟩] ⟨some (lit "/Seoul"), none, []⟩ =
      (-1, ⟨none, none, [(true, 1), (false, 1)]⟩) ∧
    ¬ Spares (zones [lit "/Seoul"]) 1 1 [some ⟨0, [0]⟩] ⟨some (lit "/Seoul"), none, []⟩ := by
  refine ⟨by decide, fun h => ?_⟩
  exact absurd (h (by decide)) (by decide)

end SystemServer.L4.TimeMgr
