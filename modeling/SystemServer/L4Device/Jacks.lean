import SystemServer.Core.Mirror

/-!
# The published state of the jacks (`ss_device_change_handler.c`, `ss_ta_handler.c`)

For the sliding keyboard, the earphone key and the charger the daemon keeps a
vconf key that is to say what state the device is in. The callback of an
event reads the device and sets the key; start-up may read it once as well, and
subscribes the callback. The device changes at any time, also between a
reading and the set of the key, and an event sent before the subscription is
seen by nobody.

A `Watch` is one such device, with the order of its start-up; a key and its
device are a mirror (`Core/Mirror`).

* `published_iff`: in a run from any start, with readings and sets that may
  fail, the key is right whenever start-up is over and nothing is under way
  exactly when every reading that may be the last one sets the right value.
* `order_iff`: that no run goes wrong in which all calls succeed takes a
  reading after a subscription in the start-up, and no more.
-/
namespace SystemServer.L4.Jacks

/-! ## The source -/

/-- The vconf values that the platform's headers define. -/
structure Platform where
  CHARGER_CONNECTED : Int
  CHARGER_DISCONNECTED : Int
  SLIDING_KEYBOARD_NOT_SUPPORTED : Int

/-- What the key is set to, from what is read: by the callbacks below, from the
outcome of the `OEM_sys_get_jack_*` call. -/
def reaction (view : Int → Int) (failed : Option Int) : Option Int → Option Int
  | some val => some (view val)
  | none => failed

/-- mirrors ss_device_change_handler.c:160-174 -/
def keyboardChgdetCb (P : Platform) : Option Int → Option Int :=
  reaction (fun val => if val ≠ 1 then 0 else val) (some P.SLIDING_KEYBOARD_NOT_SUPPORTED)

/-- mirrors ss_device_change_handler.c:133-140 -/
def earkeyChgdetCb : Option Int → Option Int := reaction (fun val => val) none

/-- mirrors ss_device_change_handler.c:94-100 -/
def taChgdetCb : Option Int → Option Int := reaction (fun val => val) none

/-- mirrors ss_ta_handler.c:28-50 -/
def ssTaInit (P : Platform) : Option Int → Option Int
  | some val =>
    if val = 1 then some P.CHARGER_CONNECTED
    else if val = 0 then some P.CHARGER_DISCONNECTED
    else none
  | none => none

/-- A statement of start-up. -/
inductive Startup where
  | read
  | subscribe
  deriving DecidableEq, Repr

/-- A device with its start-up; `Value` says what can be read of it. -/
structure Watch where
  startup : List Startup
  first : Option Int → Option Int
  react : Option Int → Option Int
  view : Int → Int
  Value : Int → Bool
  begins : startup ≠ []
  sets : ∀ val, react (some val) = some (view val)

/-- mirrors ss_device_change_handler.c:430,455 -/
def keyboard (P : Platform) : Watch where
  startup := [.subscribe, .read]
  first := keyboardChgdetCb P
  react := keyboardChgdetCb P
  view val := if val ≠ 1 then 0 else val
  Value _ := true
  begins := List.cons_ne_nil _ _
  sets _ := rfl

/-- mirrors ss_device_change_handler.c:427 -/
def earkey : Watch where
  startup := [.subscribe]
  first _ := none
  react := earkeyChgdetCb
  view val := val
  Value _ := true
  begins := List.cons_ne_nil _ _
  sets _ := rfl

/-- mirrors ss_main.c:80,82 and ss_device_change_handler.c:425 -/
def charger (P : Platform) : Watch where
  startup := [.read, .subscribe]
  first := ssTaInit P
  react := taChgdetCb
  view val := val
  Value val := val = 0 ∨ val = 1
  begins := List.cons_ne_nil _ _
  sets _ := rfl

/-! ## Runs -/

/-- The device and the key, the events no callback has seen yet, what was read
and the key is still to be set to, and what is left of start-up. -/
structure Sys where
  jack : Int
  key : Int
  events : Nat
  val : Option Int
  subscribed : Bool
  startup : List Startup

/-- The device changes, two events become one, a statement of start-up or the
callback of an event runs up to the set of the key, and the key is set. `read`
and `set` say which calls succeed. -/
inductive Lbl where
  | jack (v : Int)
  | merge
  | subscribe (ok : Bool)
  | first (read set : Bool)
  | event (read set : Bool)
  | publish
  deriving DecidableEq, Repr

/-- What a reading of the device leads to. -/
def outcome (f : Option Int → Option Int) (read set : Bool) (jack : Int) : Option Int :=
  if set then f (if read then some jack else none) else none

variable (W : Watch)

def step (s : Sys) : Lbl → Option Sys
  | .jack v =>
    if W.Value v then
      some { s with jack := v, events := if s.subscribed then s.events + 1 else s.events }
    else none
  | .merge => if 2 ≤ s.events then some { s with events := s.events - 1 } else none
  | .subscribe ok =>
    if s.startup.head? = some .subscribe ∧ s.val = none then
      some { s with subscribed := s.subscribed || ok, startup := s.startup.tail }
    else none
  | .first read set =>
    if s.startup.head? = some .read ∧ s.val = none then
      some { s with val := outcome W.first read set s.jack, startup := s.startup.tail }
    else none
  | .event read set =>
    -- the main loop begins after start-up
    if s.startup = [] ∧ 0 < s.events ∧ s.val = none then
      some { s with val := outcome W.react read set s.jack, events := s.events - 1 }
    else none
  | .publish => s.val.map fun v => { s with key := v, val := none }

structure Init (s : Sys) : Prop where
  jack : W.Value s.jack = true
  events : s.events = 0
  val : s.val = none
  subscribed : s.subscribed = false
  startup : s.startup = W.startup

def lts : LTS Sys Lbl := ⟨Init W, step W⟩

/-- What the key is, or is about to be. -/
def Sys.coming (s : Sys) : Int := s.val.getD s.key

/-- With start-up over and no event on its way, the key is right. -/
def Right (s : Sys) : Prop := s.startup = [] → s.events = 0 → s.coming = W.view s.jack

/-- The last statement of start-up and the last event lead to the right value,
and a change without an event is one that does not show. -/
def Conclusive (s : Sys) : Lbl → Prop
  | .jack v => s.startup = [] → s.subscribed = false → s.events = 0 → s.coming = W.view v
  | .subscribe _ => s.startup.tail = [] → s.events = 0 → s.coming = W.view s.jack
  | .first read set => s.startup.tail = [] → s.events = 0 →
      (outcome W.first read set s.jack).getD s.key = W.view s.jack
  | .event read set => s.events = 1 →
      (outcome W.react read set s.jack).getD s.key = W.view s.jack
  | .merge | .publish => True

instance (s : Sys) : ∀ l, Decidable (Conclusive W s l)
  | .jack v => inferInstanceAs
      (Decidable (s.startup = [] → s.subscribed = false → s.events = 0 → s.coming = W.view v))
  | .subscribe _ => inferInstanceAs
      (Decidable (s.startup.tail = [] → s.events = 0 → s.coming = W.view s.jack))
  | .first read set => inferInstanceAs (Decidable (s.startup.tail = [] → s.events = 0 →
      (outcome W.first read set s.jack).getD s.key = W.view s.jack))
  | .event read set => inferInstanceAs (Decidable (s.events = 1 →
      (outcome W.react read set s.jack).getD s.key = W.view s.jack))
  | .merge | .publish => .isTrue trivial

/-- Nothing is under way. -/
def AtRest (s : Sys) : Prop := s.startup = [] ∧ s.events = 0 ∧ s.val = none

instance (s : Sys) : Decidable (AtRest s) :=
  inferInstanceAs (Decidable (s.startup = [] ∧ s.events = 0 ∧ s.val = none))

/-! ## The key is a mirror of the device -/

def abs (s : Sys) : Mirror.State Int Int := ⟨s.jack, s.key, s.events, s.val⟩

/-- What a step is to the mirror. -/
def events (s : Sys) : Lbl → Sys → List (Mirror.Lbl Int Int)
  | .jack v, _ => [if s.subscribed then .change v else .silent v]
  | .merge, _ => [.lose]
  | .subscribe _, _ => []
  | .first read set, _ => ((outcome W.first read set s.jack).map fun b => [.ask, .look b]).getD []
  | .event read set, _ => [((outcome W.react read set s.jack).map .look).getD .lose]
  | .publish, _ => [.write]

variable {W}

theorem abs_step {s s' : Sys} {l : Lbl} (hst : step W s l = some s') :
    (Mirror.lts Int Int).run (abs s) (events W s l s') = some (abs s') := by
  cases l with
  | jack v =>
    obtain ⟨-, rfl⟩ := Option.ite_some_none_eq_some.mp hst
    cases hsub : s.subscribed <;> simp [events, abs, Mirror.lts, Mirror.step, LTS.run, hsub]
  | merge =>
    obtain ⟨htwo, rfl⟩ := Option.ite_some_none_eq_some.mp hst
    have hpos : 0 < s.events := by omega
    simp [events, abs, Mirror.lts, Mirror.step, LTS.run, hpos]
  | subscribe ok =>
    obtain ⟨-, rfl⟩ := Option.ite_some_none_eq_some.mp hst
    rfl
  | first read set =>
    obtain ⟨⟨-, hval⟩, rfl⟩ := Option.ite_some_none_eq_some.mp hst
    cases hout : outcome W.first read set s.jack with
    | none => simp [events, abs, hout, hval]
    | some b => simp [events, abs, Mirror.lts, Mirror.step, LTS.run, hout, hval]
  | event read set =>
    obtain ⟨⟨-, hpos, hval⟩, rfl⟩ := Option.ite_some_none_eq_some.mp hst
    cases hout : outcome W.react read set s.jack with
    | none => simp [events, abs, Mirror.lts, Mirror.step, LTS.run, hout, hval, hpos]
    | some b => simp [events, abs, Mirror.lts, Mirror.step, LTS.run, hout, hval, hpos]
  | publish =>
    obtain ⟨v, hv, rfl⟩ := Option.map_eq_some_iff.mp hst
    simp [events, abs, Mirror.lts, Mirror.step, LTS.run, hv]

/-- **A watch is a mirror.** -/
theorem simulates : (lts W).Simulates (events W) (Mirror.lts Int Int) fun s a => a = abs s where
  init s _ := ⟨abs s, trivial, rfl⟩
  step s a l s' ha hst := by
    subst ha
    exact ⟨abs s', abs_step hst, rfl⟩

/-! ## Failures -/

/-- A step that is one of the mirror's. -/
theorem settled_single {s s' : Sys} {l : Lbl} {m : Mirror.Lbl Int Int}
    (hst : step W s l = some s') (hev : events W s l s' = [m]) :
    Mirror.Settled W.view (abs s') ↔ Mirror.Keeps W.view (abs s) m := by
  have hr := abs_step hst
  rw [hev] at hr
  obtain ⟨a, ha, hnil⟩ := LTS.run_cons.mp hr
  obtain rfl := Option.some.inj hnil
  exact Mirror.settled_iff W.view ha

/-- The reading of start-up asks for its look itself. -/
theorem settled_first {s s' : Sys} {read set : Bool} (hst : step W s (.first read set) = some s') :
    Mirror.Settled W.view (abs s') ↔
      (s.events = 0 → (outcome W.first read set s.jack).getD s.key = W.view s.jack) := by
  have hr := abs_step hst
  obtain ⟨⟨-, hval⟩, rfl⟩ := Option.ite_some_none_eq_some.mp hst
  cases hout : outcome W.first read set s.jack with
  | none => rfl
  | some b =>
    simp only [events, hout, Option.map_some, Option.getD_some] at hr
    obtain ⟨a₁, hask, hr⟩ := LTS.run_cons.mp hr
    obtain ⟨a₂, hlook, hnil⟩ := LTS.run_cons.mp hr
    obtain rfl := Option.some.inj hnil
    obtain rfl := Option.some.inj hask
    rw [Mirror.settled_iff W.view hlook]
    exact imp_congr_left Nat.succ_inj

/-- A step leaves the key right exactly if it is conclusive. -/
theorem right_iff {s s' : Sys} {l : Lbl} (h : Right W s) (hst : step W s l = some s') :
    Right W s' ↔ Conclusive W s l := by
  cases l with
  | jack v =>
    have hsettled := settled_single hst rfl
    obtain ⟨-, rfl⟩ := Option.ite_some_none_eq_some.mp hst
    refine (imp_congr_right fun _ => hsettled).trans ?_
    cases hsub : s.subscribed with
    | true => simp [Conclusive, Mirror.Keeps, hsub]
    | false => simp [Conclusive, Mirror.Keeps, hsub, abs, Sys.coming, Mirror.State.coming]
  | merge =>
    obtain ⟨htwo, rfl⟩ := Option.ite_some_none_eq_some.mp hst
    refine iff_of_true (fun _ hnone => ?_) trivial
    simp only at hnone
    omega
  | subscribe ok =>
    obtain ⟨-, rfl⟩ := Option.ite_some_none_eq_some.mp hst
    rfl
  | first read set =>
    have hsettled := settled_first hst
    obtain ⟨-, rfl⟩ := Option.ite_some_none_eq_some.mp hst
    exact imp_congr_right fun _ => hsettled
  | event read set =>
    have hsettled := settled_single hst rfl
    obtain ⟨⟨hstart, -, hval⟩, rfl⟩ := Option.ite_some_none_eq_some.mp hst
    refine (imp_congr_right fun _ => hsettled).trans ?_
    cases hout : outcome W.react read set s.jack <;>
      simp [Conclusive, Mirror.Keeps, Mirror.State.coming, abs, hout, hval, hstart]
  | publish =>
    have hsettled := settled_single hst rfl
    obtain ⟨v, -, rfl⟩ := Option.map_eq_some_iff.mp hst
    exact iff_of_true (fun hstart => hsettled.mpr (h hstart)) trivial

theorem right_init {s : Sys} (h : Init W s) : Right W s :=
  fun hstart => absurd (h.startup.symm.trans hstart) W.begins

/-- A key that is right and at rest holds the state of the device. -/
theorem Right.key {s : Sys} (h : Right W s) (hrest : AtRest s) : s.key = W.view s.jack := by
  obtain ⟨hstart, hev, hval⟩ := hrest
  exact Mirror.Settled.right (s := abs s) (h hstart) hev hval

/-- **The published state.** In a run from any start, the key is right at every
moment at which start-up is over and no event is on its way exactly when every
step is conclusive; and then it holds the state of the device at rest. -/
theorem published_iff (W : Watch) (s₀ : Sys) (h₀ : Init W s₀) (ls : List Lbl) :
    ((lts W).Along (fun _ _ s' => Right W s') s₀ ls ↔ (lts W).Meets (Conclusive W) s₀ ls) ∧
    ∀ s, (lts W).run s₀ ls = some s → (lts W).Meets (Conclusive W) s₀ ls → AtRest s →
      s.key = W.view s.jack := by
  have hok : ∀ s l s', Right W s → (lts W).step s l = some s' →
      (Right W s' ↔ Conclusive W s l) := fun _ _ _ h hst => right_iff h hst
  have hguarded : (lts W).Guarded (Conclusive W) (Right W) :=
    fun s l s' h hc hst => (right_iff h hst).mpr hc
  refine ⟨LTS.along_iff hok hguarded (right_init h₀) ls, fun s hr hmeets hrest => ?_⟩
  exact (hguarded.run (right_init h₀) hmeets hr).key hrest

/-- The values that the headers of the package define. -/
def values : Platform := ⟨1, 0, -1⟩

/-- The keyboard is slid out after the subscription, and again once it was
read. -/
def slid : List Lbl := [.subscribe true, .jack 1, .first true true, .jack 0, .publish, .merge,
  .event true true, .publish]

theorem published_slid : ((lts (keyboard values)).run ⟨0, 5, 0, none, false, [.subscribe, .read]⟩
      slid).map (fun s => (s.jack, s.key)) = some (0, 0) ∧
    (lts (keyboard values)).Along (fun _ _ s' => Right (keyboard values) s')
      ⟨0, 5, 0, none, false, [.subscribe, .read]⟩ slid :=
  ⟨by decide, (published_iff (keyboard values) _ ⟨rfl, rfl, rfl, rfl, rfl⟩ slid).1.mpr (by decide)⟩

/-! ## The order of start-up -/

/-- All calls succeed. -/
def Lbl.Succeeds : Lbl → Prop
  | .subscribe ok => ok = true
  | .first read set | .event read set => read = true ∧ set = true
  | .jack _ | .merge | .publish => True

/-- Somewhere a subscription comes before a reading. -/
def ReadsAfter (l : List Startup) : Prop := List.Sublist [.subscribe, .read] l

instance (l : List Startup) : Decidable (ReadsAfter l) :=
  inferInstanceAs (Decidable (List.Sublist _ _))

/-- Start-up still reads after a subscription, or will read with one made, or
the key is settled with one made. -/
def Watched (W : Watch) (s : Sys) : Prop :=
  ReadsAfter s.startup ∨
    s.subscribed = true ∧ (.read ∈ s.startup ∨ Mirror.Settled W.view (abs s))

/-- What start-up reads, it sets the key to as the callback would. -/
def Agrees (W : Watch) : Prop := ∀ val, W.Value val = true → W.first (some val) = W.react (some val)

theorem value_step {s s' : Sys} {l : Lbl} (h : W.Value s.jack = true)
    (hst : step W s l = some s') : W.Value s'.jack = true := by
  cases l with
  | jack v =>
    obtain ⟨hv, rfl⟩ := Option.ite_some_none_eq_some.mp hst
    exact hv
  | merge | subscribe | first | event =>
    obtain ⟨-, rfl⟩ := Option.ite_some_none_eq_some.mp hst
    exact h
  | publish =>
    obtain ⟨v, -, rfl⟩ := Option.map_eq_some_iff.mp hst
    exact h

/-- The head of a list that starts with a statement. -/
theorem eq_cons_of_head {l : List Startup} {x : Startup} (h : l.head? = some x) :
    l = x :: l.tail := by
  cases l with
  | nil => cases h
  | cons y l => rw [Option.some.inj h, List.tail_cons]

theorem watched_step (hagrees : Agrees W) {s s' : Sys} {l : Lbl} (hv : W.Value s.jack = true)
    (h : Watched W s) (hl : l.Succeeds) (hst : step W s l = some s') : Watched W s' := by
  cases l with
  | jack v =>
    have hsettled := settled_single hst rfl
    obtain ⟨-, rfl⟩ := Option.ite_some_none_eq_some.mp hst
    refine h.imp_right fun hsub => ⟨hsub.1, .inr (hsettled.mpr ?_)⟩
    simp [Mirror.Keeps, hsub.1]
  | merge =>
    obtain ⟨htwo, rfl⟩ := Option.ite_some_none_eq_some.mp hst
    refine h.imp_right fun hsub => ⟨hsub.1, .inr fun hnone => ?_⟩
    have hone : s.events - 1 = 0 := hnone
    omega
  | subscribe ok =>
    obtain rfl : ok = true := hl
    obtain ⟨⟨hhead, -⟩, rfl⟩ := Option.ite_some_none_eq_some.mp hst
    refine .inr ⟨Bool.or_true _, ?_⟩
    rw [Watched, eq_cons_of_head hhead] at h
    rcases h with hsub | ⟨-, hread | hsettled⟩
    · exact .inl (List.singleton_sublist.mp (List.cons_sublist_cons.mp hsub))
    · exact .inl (by simpa using hread)
    · exact .inr hsettled
  | first read set =>
    obtain ⟨rfl, rfl⟩ := hl
    have hsettled := (settled_first hst).mpr fun _ => by
      simp [outcome, hagrees s.jack hv, W.sets]
    obtain ⟨⟨hhead, -⟩, rfl⟩ := Option.ite_some_none_eq_some.mp hst
    rw [Watched, eq_cons_of_head hhead] at h
    rcases h with hsub | ⟨hsub, -⟩
    · refine .inl ?_
      rcases List.sublist_cons_iff.mp hsub with hrest | ⟨r, hr, -⟩
      · exact hrest
      · cases hr
    · exact .inr ⟨hsub, .inr hsettled⟩
  | event read set =>
    obtain ⟨rfl, rfl⟩ := hl
    have hsettled := settled_single (m := .look (W.view s.jack)) hst
      (by simp [events, outcome, W.sets])
    obtain ⟨⟨hstart, -, -⟩, rfl⟩ := Option.ite_some_none_eq_some.mp hst
    rw [Watched, hstart] at h
    rcases h with hsub | ⟨hsub, -⟩
    · cases hsub
    · exact .inr ⟨hsub, .inr (hsettled.mpr fun _ => rfl)⟩
  | publish =>
    have hsettled := settled_single hst rfl
    obtain ⟨v, -, rfl⟩ := Option.map_eq_some_iff.mp hst
    exact h.imp_right fun hsub => ⟨hsub.1, hsub.2.imp_right hsettled.mpr⟩

theorem watched_run (hagrees : Agrees W) {s s' : Sys} {ls : List Lbl} (hv : W.Value s.jack = true)
    (h : Watched W s) (hls : ∀ l ∈ ls, l.Succeeds) (hr : (lts W).run s ls = some s') :
    Watched W s' := by
  have hguarded : (lts W).Guarded (fun _ l => l.Succeeds)
      fun s => W.Value s.jack = true ∧ Watched W s :=
    fun s l s' h hl hst => ⟨value_step h.1 hst, watched_step hagrees h.1 h.2 hl hst⟩
  exact (hguarded.run ⟨hv, h⟩ (LTS.meets_of_labels (fun l hl _ => hls l hl) s) hr).2

/-- Without a reading after a subscription, start-up reads first. -/
theorem reads_first {l : List Startup} (h : ¬ ReadsAfter l) :
    ∃ n m, l = List.replicate n .read ++ List.replicate m .subscribe := by
  induction l with
  | nil => exact ⟨0, 0, rfl⟩
  | cons x l ih =>
    cases x with
    | read =>
      obtain ⟨n, m, rfl⟩ := ih fun hsub => h (hsub.cons _)
      exact ⟨n + 1, m, rfl⟩
    | subscribe =>
      have hnone : Startup.read ∉ l :=
        fun hmem => h (List.cons_sublist_cons.mpr (List.singleton_sublist.mpr hmem))
      refine ⟨0, l.length + 1, ?_⟩
      have hall : l = List.replicate l.length .subscribe :=
        List.eq_replicate_iff.mpr ⟨rfl, fun y hy => ?_⟩
      · rw [List.replicate_succ, List.replicate_zero, List.nil_append, ← hall]
      · cases y with
        | read => exact absurd hy hnone
        | subscribe => rfl

/-- The readings of a device that stays as it is, published already. -/
theorem reads_run (hagrees : Agrees W) {v : Int} (hv : W.Value v = true) (n : Nat)
    (rest : List Startup) :
    (lts W).run ⟨v, W.view v, 0, none, false, List.replicate n .read ++ rest⟩
      (List.replicate n [Lbl.first true true, .publish]).flatten =
        some ⟨v, W.view v, 0, none, false, rest⟩ := by
  induction n with
  | zero => rfl
  | succ n ih =>
    have hlabels : (List.replicate (n + 1) [Lbl.first true true, .publish]).flatten =
        [.first true true, .publish] ++ (List.replicate n [Lbl.first true true, .publish]).flatten :=
      rfl
    rw [hlabels, LTS.run_append]
    refine ⟨⟨v, W.view v, 0, none, false, List.replicate n .read ++ rest⟩, ?_, ih⟩
    simp [lts, step, LTS.run, List.replicate_succ, outcome, hagrees v hv, W.sets]

theorem subscribes_run (v key : Int) (b : Bool) (m : Nat) : ∃ b',
    (lts W).run ⟨v, key, 0, none, b, List.replicate m .subscribe⟩
      (List.replicate m (.subscribe true)) = some ⟨v, key, 0, none, b', []⟩ := by
  induction m generalizing b with
  | zero => exact ⟨b, rfl⟩
  | succ m ih =>
    obtain ⟨b', hb'⟩ := ih true
    refine ⟨b', ?_⟩
    rw [List.replicate_succ, List.replicate_succ, LTS.run_cons]
    exact ⟨_, rfl, by simpa using hb'⟩

/-- **Subscribe, then read.** Let start-up set the key as the callback does, and
let the device have two states that show. In every run in which all calls
succeed the key is right at rest if and only if start-up reads the device after
it subscribed the callback. -/
theorem order_iff (W : Watch) (hagrees : Agrees W)
    (hshow : ∃ v₁ v₂, W.Value v₁ = true ∧ W.Value v₂ = true ∧ W.view v₁ ≠ W.view v₂) :
    (∀ s₀ ls s, Init W s₀ → (∀ l ∈ ls, l.Succeeds) → (lts W).run s₀ ls = some s → AtRest s →
      s.key = W.view s.jack) ↔ ReadsAfter W.startup := by
  constructor
  · intro h
    by_contra horder
    obtain ⟨n, m, hstart⟩ := reads_first horder
    obtain ⟨v₁, v₂, hv₁, hv₂, hne⟩ := hshow
    -- the device changes between the readings and the subscription
    obtain ⟨b', hsubs⟩ := subscribes_run (W := W) v₂ (W.view v₁) false m
    have hrun : (lts W).run ⟨v₁, W.view v₁, 0, none, false, W.startup⟩
        ((List.replicate n [Lbl.first true true, .publish]).flatten ++
          .jack v₂ :: List.replicate m (.subscribe true)) =
        some ⟨v₂, W.view v₁, 0, none, b', []⟩ := by
      rw [hstart, LTS.run_append]
      refine ⟨_, reads_run hagrees hv₁ n _, LTS.run_cons.mpr ⟨_, ?_, hsubs⟩⟩
      simp [lts, step, hv₂]
    refine hne (h _ _ _ ⟨hv₁, rfl, rfl, rfl, rfl⟩ (fun l hl => ?_) hrun ⟨rfl, rfl, rfl⟩)
    simp only [List.mem_append, List.mem_flatten, List.mem_cons, List.mem_replicate] at hl
    rcases hl with ⟨x, ⟨-, rfl⟩, hl⟩ | rfl | ⟨-, rfl⟩
    · simp only [List.mem_cons, List.not_mem_nil, or_false] at hl
      rcases hl with rfl | rfl
      · exact ⟨rfl, rfl⟩
      · trivial
    · trivial
    · rfl
  · intro horder s₀ ls s h₀ hls hr hrest
    have hwatched := watched_run hagrees h₀.jack (.inl (h₀.startup ▸ horder)) hls hr
    obtain ⟨hstart, hev, hval⟩ := hrest
    rw [Watched, hstart] at hwatched
    rcases hwatched with hsub | ⟨-, hread | hsettled⟩
    · cases hsub
    · cases hread
    · exact Mirror.Settled.right hsettled hev hval

/-- The keyboard is read after the subscription, the charger before it. -/
theorem order_two :
    (∀ s₀ ls s, Init (keyboard values) s₀ → (∀ l ∈ ls, l.Succeeds) →
      (lts (keyboard values)).run s₀ ls = some s → AtRest s →
      s.key = (keyboard values).view s.jack) ∧
    ¬ ∀ s₀ ls s, Init (charger values) s₀ → (∀ l ∈ ls, l.Succeeds) →
      (lts (charger values)).run s₀ ls = some s → AtRest s →
      s.key = (charger values).view s.jack := by
  refine ⟨(order_iff (keyboard values) (fun _ _ => rfl) ⟨0, 1, rfl, rfl, by decide⟩).mpr ?_, ?_⟩
  · exact List.Sublist.refl _
  · refine mt (order_iff (charger values) (fun val hval => ?_) ⟨0, 1, rfl, rfl, by decide⟩).mp ?_
    · simp only [charger, decide_eq_true_eq] at hval
      rcases hval with rfl | rfl <;> rfl
    · decide

end SystemServer.L4.Jacks
