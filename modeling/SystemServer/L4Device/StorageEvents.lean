import Mathlib.Logic.Function.Basic
import SystemServer.Core.Announce
import SystemServer.L3Daemon.EndToEnd

/-!
# The names of USB storages (`ss_device_change_handler.c`)

The name of a storage that comes or goes is written to a key, and
`__usb_storage_cb` is called back for it. It reads the key as it is then and
requests the action of the storage, with what it read as the argument; the run
queue comes to the action later.

Two names written to one key before the callback ran are read as one, so a
storage is lost, and the other one may be told twice. `names_announced_iff`: in a run
from start-up, through any interleaving with the main loop and whatever else it
does, no name is lost or doubled exactly when no write meets an announcement
that is still due (unless for the same name, and separately) and every callback
can read the key and has memory for its request. And then, with nothing left to
do, the actions have been called once for every name that was written.
-/
namespace SystemServer.L4.StorageEvents

open SystemServer.L2.RunQueue (AddMem Core ActionEntry ssActionEntryCallInternal anAction boot init_boot)
open SystemServer.L2.ExactlyOnce SystemServer.L2.Refine
open SystemServer.L3.EndToEnd (Call Job.call calledInternal calls calls_internal)

variable {H : Type}

/-! ## The source -/

/-- VCONFKEY_INTERNAL_ADDED_USB_STORAGE and VCONFKEY_INTERNAL_REMOVED_USB_STORAGE -/
inductive Key where
  | added | removed
  deriving DecidableEq, Repr

/-- The type of the action that is requested. -/
def Key.type : Key → Bytes
  | .added => lit "usbstorage-add"
  | .removed => lit "usbstorage-remove"

structure Sys (H : Type) where
  core : Core H
  keys : Key → Announce.State Bytes

/-- What `vconf_get_str` returns. -/
def Sys.value (s : Sys H) (k : Key) (read : Bool) : CPtr :=
  if read then some ⟨1, (s.keys k).cell⟩ else none

/-- mirrors ss_device_change_handler.c:405-419 -/
def usbStorageCb (mem : AddMem) (k : Key) (vconfValue : CPtr) (s : Core H) : Core H :=
  (ssActionEntryCallInternal mem (some ⟨0, k.type⟩) 1 [vconfValue] s).2

/-- A name is written to a key, the callback runs, or the core takes a step. A
name is heard when the callback can read the key and has memory. -/
inductive Lbl where
  | write (k : Key) (name : Bytes) (merge : Bool)
  | callback (k : Key) (read : Bool) (mem : AddMem)
  | core (l : L2.RunQueue.Lbl)

def step (s : Sys H) : Lbl → Option (Sys H)
  | .write k name merge => (Announce.step (s.keys k) (.write (cstr name) merge)).map fun a =>
      { s with keys := Function.update s.keys k a }
  | .callback k read mem =>
    if s.core.pc = .idle then
      (Announce.step (s.keys k) (.hear (read && mem == .both))).map fun a =>
        ⟨usbStorageCb mem k (s.value k read) s.core, Function.update s.keys k a⟩
    else none
  | .core l => (L2.RunQueue.step s.core l).map fun core => { s with core := core }

structure Init (s : Sys H) : Prop where
  core : L2.RunQueue.Init s.core
  keys : ∀ k, (Announce.lts Bytes).init (s.keys k)

def lts (H : Type) : LTS (Sys H) Lbl := ⟨Init, step⟩

/-! ## What is lost and what is called -/

def Lossless (s : Sys H) : Prop := ∀ k, Announce.Lossless (s.keys k)

def Careful (s : Sys H) : Lbl → Prop
  | .write k name merge => Announce.Keeps (s.keys k) (.write (cstr name) merge)
  | .callback _ read mem => read = true ∧ mem = .both
  | .core _ => True

instance (s : Sys H) : ∀ l, Decidable (Careful s l)
  | .write k name merge =>
    inferInstanceAs (Decidable (Announce.Keeps (s.keys k) (.write (cstr name) merge)))
  | .callback _ read mem => inferInstanceAs (Decidable (read = true ∧ mem = .both))
  | .core _ => .isTrue trivial

/-- The daemon has nothing left to do. -/
def AtRest (s : Sys H) : Prop :=
  s.core.pc = .idle ∧ s.core.pipe = [] ∧ ∀ k, (s.keys k).due = 0

/-- The call for a name. -/
def callOf (acts : List (ActionEntry H)) (k : Key) (name : Bytes) : List (Call H) :=
  (calledInternal acts ⟨0, k.type⟩ 1 [some ⟨1, name⟩]).toList

/-- The calls for the names of both keys. -/
def callsFor (acts : List (ActionEntry H)) (names : Key → List Bytes) : Multiset (Call H) :=
  ↑((names .added).flatMap (callOf acts .added)) + ↑((names .removed).flatMap (callOf acts .removed))

/-- The jobs a step accepts and performs. -/
def obs (s : Sys H) (l : Lbl) (s' : Sys H) : List (Pool.Ev (Job H)) := events s.core l s'.core

/-- The same for the steps that are no callback's. -/
def others (s : Sys H) (l : Lbl) (s' : Sys H) : List (Pool.Ev (Job H)) :=
  match l with
  | .core _ => obs s l s'
  | .write _ _ _ | .callback _ _ _ => []

/-! ## The keys -/

theorem lossless_update {s : Sys H} (h : Lossless s) (core : Core H) (k : Key)
    (a : Announce.State Bytes) :
    Lossless ⟨core, Function.update s.keys k a⟩ ↔ Announce.Lossless a := by
  constructor
  · intro hless
    have hk : Announce.Lossless (Function.update s.keys k a k) := hless k
    rwa [Function.update_self] at hk
  · intro hless k'
    change Announce.Lossless (Function.update s.keys k a k')
    by_cases hk : k' = k
    · subst hk
      rwa [Function.update_self]
    · rw [Function.update_of_ne hk]
      exact h k'

theorem lossless_iff {s s' : Sys H} {l : Lbl} (h : Lossless s) (hst : step s l = some s') :
    Lossless s' ↔ Careful s l := by
  unfold step at hst
  cases l with
  | write k name merge =>
    obtain ⟨a, ha, rfl⟩ := Option.map_eq_some_iff.mp hst
    exact (lossless_update h _ k a).trans (Announce.lossless_iff (h k) ha)
  | callback k read mem =>
    obtain ⟨-, hst⟩ := Option.ite_none_right_eq_some.mp hst
    obtain ⟨a, ha, rfl⟩ := Option.map_eq_some_iff.mp hst
    have hiff : Announce.Lossless a ↔ Announce.Keeps (s.keys k) (.hear (read && mem == .both)) :=
      Announce.lossless_iff (h k) ha
    rw [lossless_update h, hiff]
    simp only [Announce.Keeps, Bool.and_eq_true, beq_iff_eq, Careful]
  | core l =>
    obtain ⟨core, -, rfl⟩ := Option.map_eq_some_iff.mp hst
    exact iff_of_true h trivial

/-! ## The core -/

/-- To the core, a callback is a request. -/
theorem step_core {s s' : Sys H} {l : Lbl} (hst : step s l = some s') :
    s'.core = s.core ∨ ∃ l', L2.RunQueue.step s.core l' = some s'.core := by
  unfold step at hst
  cases l with
  | write k name merge =>
    obtain ⟨a, -, rfl⟩ := Option.map_eq_some_iff.mp hst
    exact .inl rfl
  | callback k read mem =>
    obtain ⟨hpc, hst⟩ := Option.ite_none_right_eq_some.mp hst
    obtain ⟨a, -, rfl⟩ := Option.map_eq_some_iff.mp hst
    refine .inr ⟨.callInternal mem (some ⟨0, k.type⟩) 1 [s.value k read], ?_⟩
    have hcode : s.core.pc.InCode := by
      rw [hpc]
      trivial
    exact if_pos hcode
  | core l =>
    obtain ⟨core, hcore, rfl⟩ := Option.map_eq_some_iff.mp hst
    exact .inr ⟨l, hcore⟩

theorem inv_step {s s' : Sys H} {l : Lbl} (h : Inv s.core) (hst : step s l = some s') :
    Inv s'.core := by
  rcases step_core hst with heq | ⟨l', hl'⟩
  · rwa [heq]
  · exact L2.ExactlyOnce.inv_step h hl'

theorem actions_step {s s' : Sys H} {l : Lbl} (hst : step s l = some s') :
    s'.core.predefActList = s.core.predefActList := by
  rcases step_core hst with heq | ⟨l', hl'⟩
  · rw [heq]
  · generalize s'.core = core' at hl' ⊢
    cases L2.RunQueue.step_effect hl' <;> rfl

theorem simulates (H : Type) :
    (lts H).Simulates obs (Pool.lts (Job H)) (fun s p => Stands s.core p) where
  init s hs := (L2.Refine.simulates H).init s.core hs.core
  step s p l s' h hst := by
    rcases step_core hst with heq | ⟨l', hl'⟩
    · refine ⟨p, ?_, by rwa [heq]⟩
      rw [obs, heq, events_quiet l h.1.lt rfl]
      rfl
    · exact stands_step h hl'

/-- A callback that hears a name accepts the call for it. -/
theorem calls_callback {s s' : Sys H} {k : Key} (hi : Inv s.core)
    (hst : step s (.callback k true .both) = some s') :
    (Pool.accepted (obs s (.callback k true .both) s')).map Job.call =
      callOf s.core.predefActList k (s.keys k).cell := by
  unfold step at hst
  obtain ⟨hpc, hst⟩ := Option.ite_none_right_eq_some.mp hst
  obtain ⟨a, -, rfl⟩ := Option.map_eq_some_iff.mp hst
  have hcode : s.core.pc.InCode := by
    rw [hpc]
    trivial
  have hcore : L2.RunQueue.step s.core (.callInternal .both (some ⟨0, k.type⟩) 1
      [some ⟨1, (s.keys k).cell⟩]) = some (usbStorageCb .both k (s.value k true) s.core) := if_pos hcode
  exact calls_internal hi hcore

/-- One more name, one more call. -/
theorem callsFor_snoc (acts : List (ActionEntry H)) (names : Key → List Bytes) (k : Key)
    (name : Bytes) : callsFor acts (Function.update names k (names k ++ [name])) =
      callsFor acts names + (callOf acts k name : Multiset (Call H)) := by
  have hsnoc : (names k ++ [name]).flatMap (callOf acts k) =
      (names k).flatMap (callOf acts k) ++ callOf acts k name := by
    rw [List.flatMap_append, List.flatMap_singleton]
  cases k with
  | added =>
    have hother : Function.update names .added (names .added ++ [name]) .removed = names .removed :=
      rfl
    rw [callsFor, Function.update_self, hother, hsnoc, ← Multiset.coe_add, callsFor,
      add_right_comm]
  | removed =>
    have hother : Function.update names .removed (names .removed ++ [name]) .added = names .added :=
      rfl
    rw [callsFor, Function.update_self, hother, hsnoc, ← Multiset.coe_add, callsFor, add_assoc]

theorem heard_update (keys : Key → Announce.State Bytes) (k : Key) (a : Announce.State Bytes) :
    (fun k' => (Function.update keys k a k').heard) =
      Function.update (fun k' => (keys k').heard) k a.heard := by
  funext k'
  by_cases hk : k' = k
  · subst hk
    rw [Function.update_self, Function.update_self]
  · rw [Function.update_of_ne hk, Function.update_of_ne hk]

/-- What a step accepts: the call for the name that was heard, or jobs of the
core's own. -/
theorem calls_step {s s' : Sys H} {l : Lbl} (hi : Inv s.core) (hl : Careful s l)
    (hst : step s l = some s') :
    (Pool.accepted (obs s l s')).map Job.call +
        callsFor s.core.predefActList (fun k => (s.keys k).heard) =
      callsFor s.core.predefActList (fun k => (s'.keys k).heard) +
        (Pool.accepted (others s l s')).map Job.call := by
  cases l with
  | write k name merge =>
    unfold step at hst
    obtain ⟨a, ha, rfl⟩ := Option.map_eq_some_iff.mp hst
    obtain rfl := Option.some.inj ha
    have hquiet : ∀ s', obs s (.write k name merge) ⟨s.core, s'⟩ = [] := fun _ =>
      events_quiet _ hi.lt rfl
    rw [hquiet, heard_update, Function.update_eq_self]
    exact add_comm _ _
  | callback k read mem =>
    obtain ⟨rfl, rfl⟩ := hl
    rw [calls_callback hi hst]
    unfold step at hst
    obtain ⟨-, hst⟩ := Option.ite_none_right_eq_some.mp hst
    obtain ⟨a, ha, rfl⟩ := Option.map_eq_some_iff.mp hst
    obtain ⟨-, ha⟩ := Option.ite_none_left_eq_some.mp ha
    obtain rfl := Option.some.inj ha
    rw [heard_update]
    simp only [BEq.rfl, Bool.and_true, if_true]
    rw [callsFor_snoc _ fun k' => (s.keys k').heard, add_comm]
    exact (add_zero _).symm
  | core l =>
    unfold step at hst
    obtain ⟨core, -, rfl⟩ := Option.map_eq_some_iff.mp hst
    exact add_comm _ _

theorem calls_run {s s' : Sys H} {ls : List Lbl} (hi : Inv s.core)
    (hls : (lts H).Meets Careful s ls) (hr : (lts H).run s ls = some s') :
    (Pool.accepted ((lts H).trace obs s ls)).map Job.call +
        callsFor s.core.predefActList (fun k => (s.keys k).heard) =
      callsFor s.core.predefActList (fun k => (s'.keys k).heard) +
        (Pool.accepted ((lts H).trace others s ls)).map Job.call := by
  induction ls generalizing s with
  | nil =>
    obtain rfl := Option.some.inj hr
    exact add_comm _ _
  | cons l ls ih =>
    obtain ⟨s₁, hst, hr⟩ := LTS.run_cons.mp hr
    obtain ⟨hl, hls⟩ := (LTS.meets_cons hst).mp hls
    have hfirst := calls_step hi hl hst
    have hrest := ih (inv_step hi hst) hls hr
    rw [actions_step hst] at hrest
    rw [LTS.trace_cons hst, LTS.trace_cons hst, Pool.accepted_append, Pool.accepted_append,
      Multiset.map_add, Multiset.map_add, add_right_comm, hfirst, add_right_comm,
      add_comm (callsFor _ _), hrest, add_assoc, add_comm ((Pool.accepted _).map Job.call)]

/-- Nothing was written yet. -/
def unplugged : Sys Unit :=
  ⟨boot [anAction "usbstorage-add", anAction "usbstorage-remove"], fun _ => ⟨[], 0, [], []⟩⟩

/-- Two storages come, and the main loop goes on until it is at rest. -/
def twoStorages : List Lbl := [.write .added (lit "sda1") false, .callback .added true .both,
  .write .added (lit "sdb1") false, .callback .added true .both, .core .deliver, .core .visit,
  .core (.ret 0 false), .core .visit, .core (.ret 0 false), .core .visit, .core .deliver,
  .core .visit, .core .visit, .core .visit, .core .deliver, .core .deliver]

end SystemServer.L4.StorageEvents
