import SystemServer.L2Queue.KindOrder
import SystemServer.L4Device.LowBatPopup
import SystemServer.L4Device.Serve

/-!
# From the battery to the popup (`ss_lowbat_handler.c`, `ss_queue.c`, `ss_predefine.c`)

A reading of the battery may request PREDEF_LOWBAT (`LowBat`), the request waits
on the run queue (`RunQueue`), and its handler shows a popup, or has a timer
show it later (`LowBatPopup`). Here the three are one system, with the registry
that start-up leaves and whatever else the daemon does.

A pass runs what it finds newest first, so a battery that is now critical can
end up with the popup of the level before. `alarms_in_order`: where no pass
finds two of these requests, and nobody else makes one, the handler is called
for the levels the battery went down to, in their order, and at rest the last
one is what the popup is about.
-/
namespace SystemServer.L4.Alarms

open SystemServer.L2.RunQueue (AddMem Core ActionEntry ssActionEntryFind added boot init_boot)
open SystemServer.L2.ExactlyOnce SystemServer.L2.Refine SystemServer.L2.KindOrder
open SystemServer.L4.Boot SystemServer.L4.Serve
open SystemServer.L4.LowBat (Handler lowbatProcess)
open SystemServer.L4.LowBatPopup (content bundleOf)

variable {P : Type}

/-- mirrors include/ss_data.h:42 -/
def PREDEF_LOWBAT : String := "lowbat"

structure Sys (P : Type) where
  core : Core (Action P)
  bat : Handler
  popup : LowBatPopup.Sys

/-- What a call of `lowbat_process` requested. -/
def requestsOf (before after : Handler) : List String := after.requests.drop before.requests.length

/-- `ss_action_entry_call_internal(PREDEF_LOWBAT, 1, act)` -/
def alarm (mem : AddMem) (act : String) : L2.RunQueue.Lbl :=
  .callInternal mem (some ⟨0, lit PREDEF_LOWBAT⟩) 1 [some ⟨1, lit act⟩]

def isLowbat (act : Action P) : Bool :=
  match act with
  | .builtin .lowbatDef => true
  | _ => false

/-- The jobs of `lowbat_def_predefine_action`. -/
def lowbatJob (j : Job (Action P)) : Bool := isLowbat j.actionEntry.predefineAction

/-- The first argument. -/
def firstArg (j : Job (Action P)) : Option Bytes := (arg j.argv 0).map Str.bytes

/-- The handler is called. -/
def serve (e : LowBatPopup.Env) (p : LowBatPopup.Sys) (j : Job (Action P)) :
    Option LowBatPopup.Sys :=
  if 1 ≤ j.argc then LowBatPopup.step p (.request e j.argc j.argv) else some p

/-- The lowbat jobs whose handlers a step of the core calls. -/
def served (s s' : Core (Action P)) : List (Job (Action P)) :=
  ((calledEntries s s').map Entry.job).filter lowbatJob

/-- The battery is read in a callback, the core takes a step (`e` is what a
handler meets), or the popup's timer fires. -/
inductive Lbl where
  | battery (c : LowBat.Call) (mem : AddMem)
  | core (l : L2.RunQueue.Lbl) (e : LowBatPopup.Env)
  | tick (t : Nat) (e : LowBatPopup.Env)

/-- The requests of a reading, as steps of the core. -/
def alarms (bat : Handler) (c : LowBat.Call) (mem : AddMem) : List L2.RunQueue.Lbl :=
  (requestsOf bat (lowbatProcess c.env c.capacity bat).2).map (alarm mem)

def step (s : Sys P) : Lbl → Option (Sys P)
  | .battery c mem =>
    if s.core.pc = .idle then
      ((L2.RunQueue.lts (Action P)).run s.core (alarms s.bat c mem)).map fun core =>
        { s with core := core, bat := (lowbatProcess c.env c.capacity s.bat).2 }
    else none
  | .core l e =>
    (L2.RunQueue.step s.core l).bind fun core =>
      ((served s.core core).foldlM (serve e) s.popup).map fun popup =>
        { s with core := core, popup := popup }
  | .tick t e =>
    if s.core.pc = .idle then
      (LowBatPopup.step s.popup (.tick t e)).map fun popup => { s with popup := popup }
    else none

/-- Before the first reading, with the registry of start-up. -/
def start (acts : List (ActionEntry (Action P))) : Sys P :=
  ⟨boot acts, LowBat.static, ⟨⟨none, 0, [], 0, []⟩, none⟩⟩

def lts (acts : List (ActionEntry (Action P))) : LTS (Sys P) Lbl := ⟨fun s => s = start acts, step⟩

/-- The jobs a step accepts and performs. -/
def obs (s : Sys P) (l : Lbl) (s' : Sys P) : List (Pool.Ev (Job (Action P))) :=
  match l with
  | .battery c mem => (L2.RunQueue.lts (Action P)).trace events s.core (alarms s.bat c mem)
  | .core l _ => events s.core l s'.core
  | .tick _ _ => []

/-- A request for the action by somebody else. -/
def Requests (acts : List (ActionEntry (Action P))) : L2.RunQueue.Lbl → Prop
  | .call _ msg => ((ssActionEntryFind msg.type acts).join.any fun d =>
      isLowbat d.predefineAction) = true
  | .callInternal _ type _ _ => ((ssActionEntryFind type acts).join.any fun d =>
      isLowbat d.predefineAction) = true
  | _ => False

/-- There is memory for the requests of the battery, nobody else makes one, and
no pass finds two of them. -/
def Careful (s : Sys P) : Lbl → Prop
  | .battery _ mem => mem = .both
  | .core l _ => FindsOne lowbatJob s.core l ∧ ¬ Requests s.core.predefActList l
  | .tick _ _ => True

instance (acts : List (ActionEntry (Action P))) : ∀ l, Decidable (Requests acts l)
  | .call _ msg => inferInstanceAs (Decidable ((ssActionEntryFind msg.type acts).join.any (fun d =>
      isLowbat d.predefineAction) = true))
  | .callInternal _ type _ _ => inferInstanceAs (Decidable ((ssActionEntryFind type acts).join.any
      (fun d => isLowbat d.predefineAction) = true))
  | .sigchld _ | .deliver | .visit | .ret _ _ => .isFalse id

instance (s : Sys P) : ∀ l, Decidable (Careful s l)
  | .battery _ mem => inferInstanceAs (Decidable (mem = .both))
  | .core l _ =>
    inferInstanceAs (Decidable (FindsOne lowbatJob s.core l ∧ ¬ Requests s.core.predefActList l))
  | .tick _ _ => .isTrue trivial

/-- The readings of a run. -/
def readings : List Lbl → List LowBat.Call
  | [] => []
  | .battery c _ :: ls => c :: readings ls
  | .core _ _ :: ls | .tick _ _ :: ls => readings ls

/-- The first arguments of the lowbat jobs in a list. -/
def argsOf (js : List (Job (Action P))) : List (Option Bytes) := (js.filter lowbatJob).map firstArg

/-! ## The request -/

/-- The job of a request of the battery. -/
def jobOf (d : ActionEntry (Action P)) (act : String) : Job (Action P) :=
  ⟨d, 1, [some ⟨1, lit act⟩]⟩

/-- The type belongs to `lowbat_def_predefine_action`. -/
def Found (acts : List (ActionEntry (Action P))) (d : ActionEntry (Action P)) : Prop :=
  ssActionEntryFind (some ⟨0, lit PREDEF_LOWBAT⟩) acts = some (some d) ∧
    isLowbat d.predefineAction = true

/-- After start-up it does. -/
theorem found_booted {E : Env P} (hmem : E.builtinMem PREDEF_LOWBAT = true)
    {acts : List (ActionEntry (Action P))} (h : Booted E acts) : ∃ d, Found acts d := by
  have hnul : (0 : UInt8) ∉ lit PREDEF_LOWBAT := by decide
  have howner : owner E (lit PREDEF_LOWBAT) = some (.builtin .lowbatDef) := by
    have hown : builtinOf E ssPredefineInternalInit (lit PREDEF_LOWBAT) = some .lowbatDef :=
      @builtinOf_mem P E _ early_differ ("lowbat", .lowbatDef) (by decide) hmem
    rw [owner, hown]
    rfl
  obtain ⟨hhandler, -⟩ := entry_booted h hnul
  rw [howner] at hhandler
  obtain ⟨d, hd, hact⟩ := Option.map_eq_some_iff.mp hhandler
  refine ⟨d, ?_, by rw [hact]; rfl⟩
  rw [L3.EndToEnd.find_eq, cstr_of_notMem hnul, hd]

theorem step_alarm {s : Core (Action P)} {d : ActionEntry (Action P)}
    (hd : Found s.predefActList d) (hpc : s.pc = .idle) (act : String) :
    L2.RunQueue.step s (alarm .both act) = some (added d 1 [some ⟨1, lit act⟩] s) := by
  have hcode : s.pc.InCode := by
    rw [hpc]
    trivial
  refine (if_pos hcode).trans (congrArg some ?_)
  unfold L2.RunQueue.ssActionEntryCallInternal
  rw [if_neg (by decide), hd.1]
  rfl

/-! ## What a step shows -/

/-- The requests of a reading are accepted one after the other, and none is
performed meanwhile. -/
theorem run_alarms {s s' : Core (Action P)} {d : ActionEntry (Action P)} (hi : Inv s)
    (hd : Found s.predefActList d) (hpc : s.pc = .idle) {rs : List String}
    (hr : (L2.RunQueue.lts (Action P)).run s (rs.map (alarm .both)) = some s') :
    s'.predefActList = s.predefActList ∧
      (L2.RunQueue.lts (Action P)).trace events s (rs.map (alarm .both)) =
        rs.map fun act => .accept (jobOf d act) := by
  induction rs generalizing s with
  | nil =>
    obtain rfl := Option.some.inj hr
    exact ⟨rfl, rfl⟩
  | cons act rs ih =>
    have hst := step_alarm hd hpc act
    obtain ⟨s₁, hst₁, hr⟩ := LTS.run_cons.mp hr
    obtain rfl := Option.some.inj (hst₁.symm.trans hst)
    obtain ⟨hacts, htrace⟩ := ih (L2.ExactlyOnce.inv_step hi hst) hd hpc hr
    refine ⟨hacts, ?_⟩
    rw [List.map_cons, LTS.trace_cons hst₁, htrace, events_added hi]
    rfl

/-- An entry for another handler. -/
theorem added_other {s : Core (Action P)} (hi : Inv s) {act : ActionEntry (Action P)}
    (hact : ¬ isLowbat act.predefineAction = true) (argc : Int) (argv : List CPtr) :
    ((newEntries s (added act argc argv s)).map Entry.job).filter lowbatJob = [] := by
  rw [← accepted_events s (), events_added hi]
  exact List.filter_cons_of_neg hact

/-- Where nobody else asks for the action, no job of it is accepted. -/
theorem accepted_others {s s' : Core (Action P)} {l : L2.RunQueue.Lbl} (hi : Inv s)
    (hl : ¬ Requests s.predefActList l) (hst : L2.RunQueue.step s l = some s') :
    (Fifo.accepted (events s l s')).filter lowbatJob = [] := by
  rw [accepted_events]
  have hquiet : ∀ t : Core (Action P), t.runQueue = s.runQueue →
      ((newEntries s t).map Entry.job).filter lowbatJob = [] := by
    intro t ht
    rw [newEntries_nil (ht ▸ hi.lt)]
    rfl
  cases l with
  | call mem msg =>
    obtain ⟨-, hst⟩ := Option.ite_none_right_eq_some.mp hst
    obtain ⟨r, hr, rfl⟩ := Option.map_eq_some_iff.mp hst
    have hdispatched := L2.RunQueue.call_dispatched mem msg s
    rw [hr] at hdispatched
    cases hdispatched with
    | refused => exact hquiet _ rfl
    | lost => exact hquiet _ rfl
    | entry d hfind =>
      refine added_other hi (fun hact => hl ?_) _ _
      rw [Requests, hfind]
      exact hact
  | callInternal mem type argc args =>
    obtain ⟨-, hst⟩ := Option.ite_none_right_eq_some.mp hst
    obtain rfl := Option.some.inj hst
    unfold L2.RunQueue.ssActionEntryCallInternal
    split
    · exact hquiet _ rfl
    · split
      · rename_i d hfind
        by_cases hmem : mem = .both
        · subst hmem
          refine added_other hi (fun hact => hl ?_) _ _
          rw [Requests, hfind]
          exact hact
        · rw [L2.RunQueue.runQueueAdd_short hmem]
          exact hquiet _ rfl
      · exact hquiet _ rfl
  | sigchld | deliver | visit | ret =>
    rw [newEntries_own hi (by exact id) hst]
    rfl

/-! ## The battery -/

/-- A reading adds its requests to those before it. -/
theorem requests_lowbat {c : LowBat.Call} {prev : LowBat.Class} {bat : Handler}
    (h : LowBat.Tracks prev bat) :
    (lowbatProcess c.env c.capacity bat).2.requests =
      bat.requests ++ requestsOf bat (lowbatProcess c.env c.capacity bat).2 ∧
    ∃ next, LowBat.Tracks next (lowbatProcess c.env c.capacity bat).2 := by
  have happend : ∀ new, (lowbatProcess c.env c.capacity bat).2.requests = bat.requests ++ new →
      (lowbatProcess c.env c.capacity bat).2.requests =
        bat.requests ++ requestsOf bat (lowbatProcess c.env c.capacity bat).2 := by
    intro new hnew
    rw [requestsOf, hnew, List.drop_left]
  by_cases he : c.Effective
  · obtain ⟨htracks, hreq⟩ := LowBat.lowbatProcess_effective he h
    exact ⟨happend _ hreq, _, htracks⟩
  · obtain ⟨hcur, hreq⟩ := LowBat.lowbatProcess_ineffective he bat
    refine ⟨happend [] (by rw [hreq, List.append_nil]), prev, ?_⟩
    unfold LowBat.Tracks at h ⊢
    rw [hcur]
    exact h

/-! ## One step -/

/-- The handler of a request of the battery is called, and shows its popup or
makes its timer. -/
theorem serve_jobOf {e : LowBatPopup.Env} {d : ActionEntry (Action P)} {act : String}
    {p p' : LowBatPopup.Sys} (h : LowBatPopup.Single p) (hp : serve e p (jobOf d act) = some p') :
    LowBatPopup.Single p' ∧ p'.recent = some (lit act) := by
  have hst : LowBatPopup.step p (.request e 1 [some ⟨1, lit act⟩]) = some p' :=
    (if_pos (Int.le_refl 1)).symm.trans hp
  refine ⟨LowBatPopup.single_inductive.step p (.request e 1 [some ⟨1, lit act⟩]) p' h hst, ?_⟩
  unfold LowBatPopup.step at hst
  obtain ⟨-, hst⟩ := Option.ite_none_right_eq_some.mp hst
  obtain ⟨r, -, rfl⟩ := Option.map_eq_some_iff.mp hst
  rfl

/-- The argument of the last of the jobs. -/
def lastOf (recent : Option Bytes) (js : List (Job (Action P))) : Option Bytes :=
  (js.map firstArg).foldl (fun _ a => a) recent

theorem lastOf_append (recent : Option Bytes) (js js' : List (Job (Action P))) :
    lastOf recent (js ++ js') = lastOf (lastOf recent js) js' := by
  rw [lastOf, List.map_append, List.foldl_append]
  rfl

theorem serve_all {e : LowBatPopup.Env} {js : List (Job (Action P))}
    (hjs : ∀ j ∈ js, ∃ d act, j = jobOf d act) {p p' : LowBatPopup.Sys}
    (h : LowBatPopup.Single p) (hp : js.foldlM (serve e) p = some p') :
    LowBatPopup.Single p' ∧ p'.recent = lastOf p.recent js := by
  induction js generalizing p with
  | nil =>
    obtain rfl := Option.some.inj hp
    exact ⟨h, rfl⟩
  | cons j js ih =>
    obtain ⟨d, act, rfl⟩ := hjs j List.mem_cons_self
    rw [List.foldlM_cons] at hp
    obtain ⟨p₁, hfirst, hrest⟩ := Option.bind_eq_some_iff.mp hp
    obtain ⟨hsingle, hrecent⟩ := serve_jobOf h hfirst
    obtain ⟨hsingle', hlast⟩ := ih (fun i hi => hjs i (List.mem_cons_of_mem _ hi)) hsingle hrest
    refine ⟨hsingle', ?_⟩
    rw [hlast, hrecent]
    rfl

/-- Everything is connected: of the jobs of the action that are pending all are
the battery's, and the popup is in order. -/
structure Wired (s : Sys P) : Prop where
  next : Next lowbatJob s.core
  found : ∃ d, Found s.core.predefActList d
  jobs : ∀ j ∈ queued lowbatJob s.core, ∃ d act, j = jobOf d act
  tracks : ∃ prev, LowBat.Tracks prev s.bat
  popup : LowBatPopup.Single s.popup

/-- What is accepted and performed of the action in one step. -/
structure Goes (s : Sys P) (es : List (Pool.Ev (Job (Action P)))) (s' : Sys P) : Prop where
  wired : Wired s'
  queue : queued lowbatJob s.core ++ (Fifo.accepted es).filter lowbatJob =
    (Fifo.performed es).filter lowbatJob ++ queued lowbatJob s'.core
  requests : s'.bat.requests.map (some ∘ lit) =
    s.bat.requests.map (some ∘ lit) ++ argsOf (Fifo.accepted es)
  recent : s'.popup.recent = lastOf s.popup.recent ((Fifo.performed es).filter lowbatJob)

theorem meets_alarms {mem : AddMem} (s : Core (Action P)) (rs : List String) :
    (L2.RunQueue.lts (Action P)).Meets (FindsOne lowbatJob) s (rs.map (alarm mem)) := by
  induction rs generalizing s with
  | nil => trivial
  | cons act rs ih => exact fun s₁ _ => ⟨trivial, ih s₁⟩

theorem goes_battery {s s' : Sys P} {c : LowBat.Call} (h : Wired s)
    (hst : step s (.battery c .both) = some s') : Goes s (obs s (.battery c .both) s') s' := by
  unfold step at hst
  obtain ⟨hpc, hst⟩ := Option.ite_none_right_eq_some.mp hst
  obtain ⟨core, hrun, rfl⟩ := Option.map_eq_some_iff.mp hst
  obtain ⟨d, hd⟩ := h.found
  obtain ⟨prev, htracks⟩ := h.tracks
  obtain ⟨hnew, htracks'⟩ := requests_lowbat (c := c) htracks
  obtain ⟨hacts, htrace⟩ := run_alarms h.next.inv hd hpc hrun
  obtain ⟨hnext, hqueue⟩ := queued_run h.next (meets_alarms _ _) hrun
  have hobs : obs s (.battery c .both) ⟨core, (lowbatProcess c.env c.capacity s.bat).2, s.popup⟩ =
      (requestsOf s.bat (lowbatProcess c.env c.capacity s.bat).2).map
        fun act => .accept (jobOf d act) := htrace
  have haccepted : ∀ rs : List String, Fifo.accepted (rs.map fun act =>
      (.accept (jobOf d act) : Pool.Ev (Job (Action P)))) = rs.map (jobOf d) := by
    intro rs
    rw [Fifo.accepted, List.filterMap_map]
    exact congrFun List.filterMap_eq_map' _
  have hperformed : ∀ rs : List String, Fifo.performed (rs.map fun act =>
      (.accept (jobOf d act) : Pool.Ev (Job (Action P)))) = [] := by
    intro rs
    rw [Fifo.performed, List.filterMap_map]
    exact List.filterMap_eq_nil_iff.mpr fun _ _ => rfl
  have hkind : ∀ rs : List String, (rs.map (jobOf d)).filter lowbatJob = rs.map (jobOf d) := by
    intro rs
    refine List.filter_eq_self.mpr fun j hj => ?_
    obtain ⟨act, -, rfl⟩ := List.mem_map.mp hj
    exact hd.2
  rw [htrace, haccepted, hperformed, hkind, List.filter_nil, List.nil_append] at hqueue
  rw [hobs]
  refine ⟨⟨hnext, ⟨d, hacts ▸ hd⟩, ?_, htracks', h.popup⟩, ?_, ?_, ?_⟩
  · intro j hj
    change j ∈ queued lowbatJob core at hj
    rw [← hqueue] at hj
    rcases List.mem_append.mp hj with hj | hj
    · exact h.jobs j hj
    · obtain ⟨act, -, rfl⟩ := List.mem_map.mp hj
      exact ⟨d, act, rfl⟩
  · rw [haccepted, hperformed, hkind]
    exact hqueue
  · rw [haccepted, argsOf, hkind, List.map_map]
    change (lowbatProcess c.env c.capacity s.bat).2.requests.map _ = _
    rw [hnew, List.map_append]
    rfl
  · rw [hperformed]
    rfl

theorem goes_core {s s' : Sys P} {l : L2.RunQueue.Lbl} {e : LowBatPopup.Env} (h : Wired s)
    (hl : FindsOne lowbatJob s.core l ∧ ¬ Requests s.core.predefActList l)
    (hst : step s (.core l e) = some s') : Goes s (obs s (.core l e) s') s' := by
  unfold step at hst
  obtain ⟨core, hcore, hst⟩ := Option.bind_eq_some_iff.mp hst
  obtain ⟨popup, hpopup, rfl⟩ := Option.map_eq_some_iff.mp hst
  have hrun : (L2.RunQueue.lts (Action P)).run s.core [l] = some core :=
    LTS.run_cons.mpr ⟨core, hcore, rfl⟩
  have htrace : (L2.RunQueue.lts (Action P)).trace events s.core [l] = events s.core l core := by
    rw [LTS.trace_cons hcore]
    exact List.append_nil _
  have hone : (L2.RunQueue.lts (Action P)).Meets (FindsOne lowbatJob) s.core [l] :=
    fun _ _ => ⟨hl.1, trivial⟩
  obtain ⟨hnext, hqueue⟩ := queued_run h.next hone hrun
  have hnone := accepted_others h.next.inv hl.2 hcore
  rw [htrace] at hqueue
  have hperformed : (Fifo.performed (events s.core l core)).filter lowbatJob = served s.core core := by
    rw [performed_events]
    rfl
  have hbefore : queued lowbatJob s.core = served s.core core ++ queued lowbatJob core := by
    rw [← hperformed, ← hqueue, hnone, List.append_nil]
  have hjobs : ∀ j ∈ served s.core core, ∃ d act, j = jobOf d act := by
    intro j hj
    refine h.jobs j ?_
    rw [hbefore]
    exact List.mem_append_left _ hj
  obtain ⟨hsingle, hrecent⟩ := serve_all hjobs h.popup hpopup
  have hacts : core.predefActList = s.core.predefActList := by
    cases L2.RunQueue.step_effect hcore <;> rfl
  obtain ⟨d, hd⟩ := h.found
  refine ⟨⟨hnext, ⟨d, hacts ▸ hd⟩, fun j hj => ?_, h.tracks, hsingle⟩, hqueue, ?_, ?_⟩
  · refine h.jobs j ?_
    rw [hbefore]
    exact List.mem_append_right _ hj
  · change s.bat.requests.map _ = _ ++ argsOf (Fifo.accepted (events s.core l core))
    rw [argsOf, hnone, List.map_nil, List.append_nil]
  · exact hrecent.trans (congrArg _ hperformed.symm)

theorem goes_tick {s s' : Sys P} {t : Nat} {e : LowBatPopup.Env} (h : Wired s)
    (hst : step s (.tick t e) = some s') : Goes s (obs s (.tick t e) s') s' := by
  unfold step at hst
  obtain ⟨-, hst⟩ := Option.ite_none_right_eq_some.mp hst
  obtain ⟨popup, hpopup, rfl⟩ := Option.map_eq_some_iff.mp hst
  have hsingle := LowBatPopup.single_inductive.step s.popup (.tick t e) popup h.popup hpopup
  refine ⟨⟨h.next, h.found, h.jobs, h.tracks, hsingle⟩, List.append_nil _, ?_, ?_⟩
  · exact (List.append_nil _).symm
  · obtain ⟨p, -, rfl⟩ := Option.map_eq_some_iff.mp hpopup
    rfl

theorem goes_step {s s' : Sys P} {l : Lbl} (h : Wired s) (hl : Careful s l)
    (hst : step s l = some s') : Goes s (obs s l s') s' := by
  cases l with
  | battery c mem =>
    obtain rfl : mem = .both := hl
    exact goes_battery h hst
  | core l e => exact goes_core h hl hst
  | tick t e => exact goes_tick h hst

/-! ## Runs -/

theorem argsOf_append (js js' : List (Job (Action P))) : argsOf (js ++ js') = argsOf js ++ argsOf js' := by
  rw [argsOf, List.filter_append, List.map_append]
  rfl

theorem Goes.trans {s s₁ s' : Sys P} {es es' : List (Pool.Ev (Job (Action P)))} (h : Goes s es s₁)
    (h' : Goes s₁ es' s') : Goes s (es ++ es') s' := by
  refine ⟨h'.wired, ?_, ?_, ?_⟩
  · rw [Fifo.accepted_append, Fifo.performed_append, List.filter_append, List.filter_append,
      ← List.append_assoc, h.queue, List.append_assoc, h'.queue, List.append_assoc]
  · rw [Fifo.accepted_append, argsOf_append, ← List.append_assoc, ← h.requests, h'.requests]
  · rw [Fifo.performed_append, List.filter_append, lastOf_append, ← h.recent, h'.recent]

theorem goes_run {acts : List (ActionEntry (Action P))} {s s' : Sys P} {ls : List Lbl} (h : Wired s)
    (hls : (lts acts).Meets Careful s ls) (hr : (lts acts).run s ls = some s') :
    Goes s ((lts acts).trace obs s ls) s' := by
  induction ls generalizing s with
  | nil =>
    obtain rfl := Option.some.inj hr
    exact ⟨h, List.append_nil _, (List.append_nil _).symm, rfl⟩
  | cons l ls ih =>
    obtain ⟨s₁, hst, hr⟩ := LTS.run_cons.mp hr
    obtain ⟨hl, hls⟩ := (LTS.meets_cons hst).mp hls
    have hfirst := goes_step h hl hst
    rw [LTS.trace_cons hst]
    exact hfirst.trans (ih hfirst.wired hls hr)

theorem bat_run {acts : List (ActionEntry (Action P))} {s s' : Sys P} {ls : List Lbl}
    (hr : (lts acts).run s ls = some s') : s'.bat = LowBat.run s.bat (readings ls) := by
  induction ls generalizing s with
  | nil =>
    obtain rfl := Option.some.inj hr
    rfl
  | cons l ls ih =>
    obtain ⟨s₁, hst, hr⟩ := LTS.run_cons.mp hr
    rw [ih hr]
    change step s l = some s₁ at hst
    unfold step at hst
    cases l with
    | battery c mem =>
      obtain ⟨-, hst⟩ := Option.ite_none_right_eq_some.mp hst
      obtain ⟨core, -, rfl⟩ := Option.map_eq_some_iff.mp hst
      rfl
    | core l e =>
      obtain ⟨core, -, hst⟩ := Option.bind_eq_some_iff.mp hst
      obtain ⟨popup, -, rfl⟩ := Option.map_eq_some_iff.mp hst
      rfl
    | tick t e =>
      obtain ⟨-, hst⟩ := Option.ite_none_right_eq_some.mp hst
      obtain ⟨popup, -, rfl⟩ := Option.map_eq_some_iff.mp hst
      rfl

theorem wired_start {E : Env P} (hmem : E.builtinMem PREDEF_LOWBAT = true)
    {acts : List (ActionEntry (Action P))} (hacts : Booted E acts) : Wired (start acts) := by
  have hinit : L2.RunQueue.Init (boot acts) := init_boot acts
  refine ⟨next_init hinit, found_booted hmem hacts, fun j hj => ?_, ⟨.N, .inr ⟨rfl, rfl⟩⟩, ?_⟩
  · exact absurd hj List.not_mem_nil
  · exact LowBatPopup.single_inductive.init _ ⟨rfl, rfl⟩

theorem lastOf_jobs (recent : Option Bytes) (js : List (Job (Action P))) :
    lastOf recent js = ((js.map firstArg).getLast?).getD recent := by
  rcases List.eq_nil_or_concat js with rfl | ⟨js, j, rfl⟩
  · rfl
  · rw [List.concat_eq_append, lastOf_append, List.map_append, List.map_singleton,
      List.getLast?_concat]
    rfl

/-- **The alarms of the battery.** From start-up on, through any interleaving of
readings of the battery, other requests, steps of the main loop and ticks of the
popup's timer: if no pass finds two requests of the battery, there is memory for
them and nobody else requests this action, the handler is called for the levels
the battery went down to, in their order, the last ones still pending; and with
the main loop at rest for all of them, and a popup that its timer has yet to
show is about the last one. -/
theorem alarms_in_order (E : Env P) (hmem : E.builtinMem PREDEF_LOWBAT = true)
    (acts : List (ActionEntry (Action P))) (hacts : Booted E acts) (ls : List Lbl) (s : Sys P)
    (hls : (lts acts).Meets Careful (start acts) ls)
    (hr : (lts acts).run (start acts) ls = some s) :
    (LowBat.spec .N (readings ls)).map (some ∘ lit) =
      argsOf (Fifo.performed ((lts acts).trace obs (start acts) ls)) ++
        (queued lowbatJob s.core).map firstArg ∧
    (s.core.pc = .idle → s.core.pipe = [] →
      argsOf (Fifo.performed ((lts acts).trace obs (start acts) ls)) =
        (LowBat.spec .N (readings ls)).map (some ∘ lit) ∧
      ∀ t, s.popup.popup.popupId = some t →
        ∃ act, (LowBat.spec .N (readings ls)).getLast? = some act ∧
          content s.popup.popup.popupOption = bundleOf (lit act)) := by
  have hgoes := goes_run (wired_start hmem hacts) hls hr
  have hspec : s.bat.requests = LowBat.spec .N (readings ls) := by
    rw [bat_run hr]
    exact (LowBat.request_trace LowBat.static rfl (readings ls)).1
  have hrequests : s.bat.requests.map (some ∘ lit) =
      argsOf (Fifo.accepted ((lts acts).trace obs (start acts) ls)) := hgoes.requests
  have hqueue : (Fifo.accepted ((lts acts).trace obs (start acts) ls)).filter lowbatJob =
      (Fifo.performed ((lts acts).trace obs (start acts) ls)).filter lowbatJob ++
        queued lowbatJob s.core := hgoes.queue
  have horder : (LowBat.spec .N (readings ls)).map (some ∘ lit) =
      argsOf (Fifo.performed ((lts acts).trace obs (start acts) ls)) ++
        (queued lowbatJob s.core).map firstArg := by
    rw [← hspec, hrequests, argsOf, hqueue, List.map_append]
    rfl
  refine ⟨horder, fun hpc hpipe => ?_⟩
  rw [queued_settled hgoes.wired.next.inv hpc hpipe, List.map_nil, List.append_nil] at horder
  refine ⟨horder.symm, fun t ht => ?_⟩
  obtain ⟨act, hact, hoption⟩ := hgoes.wired.popup.option (by rw [ht]; exact Option.some_ne_none t)
  have hrecent : s.popup.recent =
      lastOf none ((Fifo.performed ((lts acts).trace obs (start acts) ls)).filter lowbatJob) :=
    hgoes.recent
  rw [lastOf_jobs] at hrecent
  change _ = (argsOf _).getLast?.getD none at hrecent
  rw [← horder, List.getLast?_map, hact] at hrecent
  cases hlast : (LowBat.spec .N (readings ls)).getLast? with
  | none =>
    rw [hlast] at hrecent
    cases hrecent
  | some last =>
    rw [hlast] at hrecent
    obtain rfl := Option.some.inj hrecent
    exact ⟨last, rfl, by rw [hoption, LowBatPopup.content_optionOf]⟩

/-- Memory for one entry. -/
def lowbatOnly : Env Unit := ⟨1, none, fun _ => none, (· == PREDEF_LOWBAT), fun _ => true⟩

def lowbatEntry : ActionEntry (Action Unit) :=
  ⟨1, lit PREDEF_LOWBAT, [], .builtin .lowbatDef, none⟩

/-- The main loop after a request; `e` is what the handler meets. -/
def handled (e : LowBatPopup.Env) : List Lbl :=
  [.core .deliver e, .core .visit e, .core (.ret 0 false) e, .core .visit e, .core .deliver e]

/-- Down to 14, shown; down to 0, which a timer is to show. -/
def goesDown : List Lbl := .battery ⟨LowBat.env true, 14⟩ .both :: handled LowBatPopup.booted ++
  .battery ⟨LowBat.env true, 0⟩ .both :: handled LowBatPopup.booting

theorem alarms_in_order_down : ∃ s, (lts [lowbatEntry]).run (start [lowbatEntry]) goesDown = some s ∧
    s.popup.popup.shown = ["warning"] ∧ s.popup.popup.popupId = some 0 ∧
    argsOf (Fifo.performed ((lts [lowbatEntry]).trace obs (start [lowbatEntry]) goesDown)) =
      [some (lit "warning_low_bat_act"), some (lit "power_off_bat_act")] ∧
    content s.popup.popup.popupOption = "poweroff" := by
  have hbooted : Booted lowbatOnly [lowbatEntry] := by
    obtain ⟨s₀, hs₀⟩ := run_isSome (systemServerInit_ok lowbatOnly) ⟨[], []⟩
    refine ⟨s₀, hs₀, ?_⟩
    have hlist : ((L2.Registry.lts (Action Unit)).run ⟨[], []⟩ (systemServerInit lowbatOnly)).map
        L2.Registry.Actions.predefActList = some [lowbatEntry] := rfl
    rw [hs₀] at hlist
    exact Option.some.inj hlist
  have hcareful : (lts [lowbatEntry]).Meets Careful (start [lowbatEntry]) goesDown := by decide
  obtain ⟨s, hr⟩ := Option.isSome_iff_exists.mp
    (show ((lts [lowbatEntry]).run (start [lowbatEntry]) goesDown).isSome by decide)
  obtain ⟨-, hrest⟩ := alarms_in_order lowbatOnly rfl [lowbatEntry] hbooted goesDown s hcareful hr
  have hspec : LowBat.spec .N (readings goesDown) = ["warning_low_bat_act", "power_off_bat_act"] := by
    decide
  have hend : ((lts [lowbatEntry]).run (start [lowbatEntry]) goesDown).map
      (fun s => (s.core.pc, s.core.pipe, s.popup.popup.shown, s.popup.popup.popupId)) =
        some (.idle, [], ["warning"], some 0) := by
    decide
  rw [hr, Option.map_some, Option.some.injEq, Prod.mk.injEq, Prod.mk.injEq, Prod.mk.injEq] at hend
  obtain ⟨hpc, hpipe, hshown, hid⟩ := hend
  obtain ⟨hargs, htimer⟩ := hrest hpc hpipe
  obtain ⟨act, hact, hcontent⟩ := htimer 0 hid
  rw [hspec] at hargs hact
  obtain rfl := Option.some.inj hact
  exact ⟨s, hr, hshown, hid, hargs, hcontent.trans (by decide)⟩

/-- Two readings before a pass: the popup about the lower level comes first. -/
example : ((lts [lowbatEntry]).run (start [lowbatEntry])
    ([.battery ⟨LowBat.env true, 14⟩ .both, .battery ⟨LowBat.env true, 0⟩ .both] ++
      [.deliver, .visit, .ret 0 false, .visit].map (Lbl.core · LowBatPopup.booted))).map
        (fun s => s.popup.popup.shown) = some ["poweroff", "warning"] := by
  decide

end SystemServer.L4.Alarms
