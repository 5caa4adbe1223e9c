import SystemServer.L2Queue.RunQueue

/-!
# Registering actions (`ss_queue.c`)

`ss_action_entry_add_internal` registers an action of the daemon itself,
`ss_action_entry_add` one that a client brings in a library. Both look the
type up before they put an entry in front of `predef_act_list`; they differ in
what else can fail, and in what they free then.

`step_cases` says what a registration can do, and `find_first` what a look-up
finds after a history of them: the first that succeeded with the type. With
it `registry` says what `ss_action_entry_call` comes to.

Ghost state: `log`, the registrations and what each returned, oldest first.
`free` is not modelled, nothing that was freed is on the list. The node of the
list and the copies `strdup` makes of type and path are taken as granted
throughout: behind an entry whose type could not be copied the next look-up
would read NULL.
-/
namespace SystemServer.L2.Registry

open SystemServer.L1.Recv
open SystemServer.L2.RunQueue

variable {H : Type}

/-! ## The source -/

/-- What `dlsym` finds in a library, `ss_ui_viewable` apart. -/
structure Lib (H : Type) where
  predefineAction : Option H
  isAccessable : Option (Int → Int)

/-- `none` where `strcmp` or `strdup` is handed a NULL pointer; `mem` is the
outcome of the `malloc` of the entry.
mirrors ss_queue.c:46-86 -/
def ssActionEntryAddInternal (mem : Bool) (getpid : Int) (type : CPtr) (predefineAction : Option H)
    (isAccessable : Option (Int → Int)) (acts : List (ActionEntry H)) :
    Option (Int × List (ActionEntry H)) :=
  if mem = false then some (-1, acts)
  else
    match ssActionEntryFind type acts with
    | none => none
    | some (some _) => some (-1, acts)
    | some none =>
      match predefineAction with
      | none => some (-1, acts)
      | some act =>
        type.map fun t => (0, ⟨getpid, cstr t.bytes, [], act, isAccessable⟩ :: acts)

/-- `dlopen` is what opening `msg->path` comes to.
mirrors ss_queue.c:88-130 -/
def ssActionEntryAdd (mem : Bool) (dlopen : Option (Lib H)) (msg : Sysnoti)
    (acts : List (ActionEntry H)) : Option (Int × List (ActionEntry H)) :=
  if mem = false then some (-1, acts)
  else
    match ssActionEntryFind msg.type acts with
    | none => none
    | some (some _) => some (-1, acts)
    | some none =>
      match dlopen with
      | none => some (-1, acts)
      | some lib =>
        match lib.predefineAction with
        | none => some (-1, acts)
        | some act =>
          msg.type.bind fun t => msg.path.map fun p =>
            (0, ⟨msg.pid, cstr t.bytes, cstr p.bytes, act, lib.isAccessable⟩ :: acts)

/-! ## Histories -/

/-- A call of one of the two. -/
inductive Registration (H : Type) where
  | internal (mem : Bool) (getpid : Int) (type : CPtr) (predefineAction : Option H)
      (isAccessable : Option (Int → Int))
  | client (mem : Bool) (dlopen : Option (Lib H)) (msg : Sysnoti)

def Registration.type : Registration H → CPtr
  | .internal _ _ type _ _ => type
  | .client _ _ msg => msg.type

/-- The handler that is to be registered. -/
def Registration.handler : Registration H → Option H
  | .internal _ _ _ predefineAction _ => predefineAction
  | .client _ dlopen _ => dlopen.bind Lib.predefineAction

def Registration.isAccessable : Registration H → Option (Int → Int)
  | .internal _ _ _ _ isAccessable => isAccessable
  | .client _ dlopen _ => dlopen.bind Lib.isAccessable

def Registration.add : Registration H → List (ActionEntry H) → Option (Int × List (ActionEntry H))
  | .internal mem getpid type predefineAction isAccessable =>
    ssActionEntryAddInternal mem getpid type predefineAction isAccessable
  | .client mem dlopen msg => ssActionEntryAdd mem dlopen msg

/-- There is a path to copy. -/
def Registration.HasPath : Registration H → Prop
  | .internal _ _ _ _ _ => True
  | .client _ _ msg => msg.path ≠ none

structure Actions (H : Type) where
  predefActList : List (ActionEntry H)
  log : List (Registration H × Int)

def step (s : Actions H) (r : Registration H) : Option (Actions H) :=
  (r.add s.predefActList).map fun x => ⟨x.2, s.log ++ [(r, x.1)]⟩

def lts (H : Type) : LTS (Actions H) (Registration H) :=
  ⟨fun s => s.predefActList = [] ∧ s.log = [], step⟩

/-- An entry of that type is on the list. -/
def Present (t : Str) (acts : List (ActionEntry H)) : Prop := ∃ d ∈ acts, cstr d.type = cstr t.bytes

/-- The registration succeeded, under that type. -/
def Succeeded (t : Str) (x : Registration H × Int) : Bool :=
  x.2 == 0 && x.1.type.any fun t' => cstr t'.bytes == cstr t.bytes

/-- The first registration that succeeded under the type. -/
def first (t : Str) (log : List (Registration H × Int)) : Option (Registration H) :=
  (log.find? (Succeeded t)).map Prod.fst

/-- The entry is what the registration makes. -/
structure Makes (r : Registration H) (d : ActionEntry H) : Prop where
  type : ∃ t, r.type = some t ∧ d.type = cstr t.bytes
  handler : r.handler = some d.predefineAction
  isAccessable : r.isAccessable = d.isAccessable

/-! ## Looking up -/

theorem find_cons (t : Str) (d : ActionEntry H) (acts : List (ActionEntry H)) :
    ssActionEntryFind (some t) (d :: acts) =
      if cstr d.type = cstr t.bytes then some (some d) else ssActionEntryFind (some t) acts := by
  simp only [ssActionEntryFind, strcmpP]
  by_cases h : cstr d.type = cstr t.bytes
  · rw [if_pos h, if_pos ((strcmp_eq_zero _ _).mpr h)]
  · rw [if_neg h, if_neg fun h' => h ((strcmp_eq_zero _ _).mp h')]

/-- The types on the list are not NULL. -/
theorem find_isSome (t : Str) (acts : List (ActionEntry H)) :
    ∃ o, ssActionEntryFind (some t) acts = some o := by
  induction acts with
  | nil => exact ⟨none, rfl⟩
  | cons d acts ih =>
    rw [find_cons]
    split
    · exact ⟨some d, rfl⟩
    · exact ih

/-- Nothing is found if and only if the type is not present. -/
theorem find_none_iff (t : Str) (acts : List (ActionEntry H)) :
    ssActionEntryFind (some t) acts = some none ↔ ¬ Present t acts := by
  induction acts with
  | nil => simp [ssActionEntryFind, Present]
  | cons d acts ih =>
    rw [find_cons]
    by_cases h : cstr d.type = cstr t.bytes
    · simp [h, Present]
    · simp [h, ih, Present]

/-! ## What a registration can do -/

/-- The outcome `x` of a registration: a failure that changes nothing, or an
entry for a type that was not present. -/
def Outcome (r : Registration H) (acts : List (ActionEntry H)) (x : Int × List (ActionEntry H)) :
    Prop :=
  x = (-1, acts) ∨
    ∃ t d, r.type = some t ∧ ¬ Present t acts ∧ Makes r d ∧ x = (0, d :: acts)

/-- What both registrations begin with. -/
theorem refused_or_absent {mem : Bool} {type : CPtr} {acts : List (ActionEntry H)}
    {k : Option (Int × List (ActionEntry H))} {x : Int × List (ActionEntry H)}
    (h : (if mem = false then some (-1, acts)
      else match ssActionEntryFind type acts with
        | none => none
        | some (some _) => some (-1, acts)
        | some none => k) = some x) :
    x = (-1, acts) ∨ ssActionEntryFind type acts = some none ∧ k = some x := by
  by_cases hmem : mem = false
  · rw [if_pos hmem] at h
    exact .inl (Option.some.inj h).symm
  rw [if_neg hmem] at h
  split at h
  · cases h
  · exact .inl (Option.some.inj h).symm
  · rename_i hfind
    exact .inr ⟨hfind, h⟩

theorem addInternal_outcome {mem : Bool} {getpid : Int} {type : CPtr} {predefineAction : Option H}
    {isAccessable : Option (Int → Int)} {acts : List (ActionEntry H)}
    {x : Int × List (ActionEntry H)}
    (h : ssActionEntryAddInternal mem getpid type predefineAction isAccessable acts = some x) :
    Outcome (.internal mem getpid type predefineAction isAccessable) acts x := by
  rcases refused_or_absent h with hrefused | ⟨hfind, h⟩
  · exact .inl hrefused
  · split at h
    · exact .inl (Option.some.inj h).symm
    · rename_i act
      obtain ⟨t, rfl, rfl⟩ := Option.map_eq_some_iff.mp h
      exact .inr ⟨t, _, rfl, (find_none_iff t acts).mp hfind, ⟨⟨t, rfl, rfl⟩, rfl, rfl⟩, rfl⟩

theorem add_outcome {mem : Bool} {dlopen : Option (Lib H)} {msg : Sysnoti}
    {acts : List (ActionEntry H)} {x : Int × List (ActionEntry H)}
    (h : ssActionEntryAdd mem dlopen msg acts = some x) :
    Outcome (.client mem dlopen msg) acts x := by
  rcases refused_or_absent h with hrefused | ⟨hfind, h⟩
  · exact .inl hrefused
  · split at h
    · exact .inl (Option.some.inj h).symm
    · rename_i lib
      split at h
      · exact .inl (Option.some.inj h).symm
      · rename_i act hact
        obtain ⟨t, htype, h⟩ := Option.bind_eq_some_iff.mp h
        obtain ⟨p, -, rfl⟩ := Option.map_eq_some_iff.mp h
        rw [htype] at hfind
        refine .inr ⟨t, _, htype, (find_none_iff t acts).mp hfind, ⟨⟨t, htype, rfl⟩, ?_, rfl⟩, rfl⟩
        rw [← hact]
        rfl

/-- A registration fails and changes nothing, or the type was not present and
an entry for it is put in front. -/
theorem step_cases {s s' : Actions H} {r : Registration H} (h : step s r = some s') :
    s' = ⟨s.predefActList, s.log ++ [(r, -1)]⟩ ∨
      ∃ t d, r.type = some t ∧ ¬ Present t s.predefActList ∧ Makes r d ∧
        s' = ⟨d :: s.predefActList, s.log ++ [(r, 0)]⟩ := by
  obtain ⟨x, hadd, rfl⟩ := Option.map_eq_some_iff.mp h
  have hout : Outcome r s.predefActList x := by
    cases r with
    | internal mem getpid type predefineAction isAccessable => exact addInternal_outcome hadd
    | client mem dlopen msg => exact add_outcome hadd
  obtain rfl | ⟨t, d, htype, hnew, hmakes, rfl⟩ := hout
  · exact .inl rfl
  · exact .inr ⟨t, d, htype, hnew, hmakes, rfl⟩

/-- With a type, and a path for a client's, no NULL pointer is used. -/
theorem step_isSome {r : Registration H} {t : Str} (ht : r.type = some t) (hpath : r.HasPath)
    (s : Actions H) : (step s r).isSome := by
  obtain ⟨o, ho⟩ := find_isSome t s.predefActList
  rw [step, Option.isSome_map]
  cases r with
  | internal mem getpid type predefineAction isAccessable =>
    obtain rfl : type = some t := ht
    simp only [Registration.add, ssActionEntryAddInternal, ho]
    split
    · rfl
    · cases o with
      | some d => rfl
      | none => cases predefineAction <;> rfl
  | client mem dlopen msg =>
    obtain ⟨p, hp⟩ := Option.ne_none_iff_exists'.mp hpath
    have htype : msg.type = some t := ht
    simp only [Registration.add, ssActionEntryAdd, htype, hp, ho]
    split
    · rfl
    · cases o with
      | some d => rfl
      | none =>
        cases dlopen with
        | none => rfl
        | some lib =>
          obtain ⟨predefineAction, isAccessable⟩ := lib
          cases predefineAction <;> rfl

/-! ## The invariant -/

/-- A failure is not the first to succeed. -/
theorem first_failed (t : Str) (log : List (Registration H × Int)) (r : Registration H) :
    first t (log ++ [(r, -1)]) = first t log := by
  simp [first, Succeeded]

/-- A success is the first if there was none before, and it has the type. -/
theorem first_succeeded (t t' : Str) (log : List (Registration H × Int)) {r : Registration H}
    (ht : r.type = some t') :
    first t (log ++ [(r, 0)]) =
      (first t log).or (if cstr t'.bytes = cstr t.bytes then some r else none) := by
  unfold first
  rw [List.find?_append]
  cases hfind : log.find? (Succeeded t) with
  | some x => rfl
  | none =>
    by_cases h : cstr t'.bytes = cstr t.bytes
    · simp [Succeeded, ht, h]
    · simp [Succeeded, ht, h]

/-- The types differ, and a look-up finds what the first success made. -/
structure Inv (s : Actions H) : Prop where
  distinct : s.predefActList.Pairwise fun d d' => cstr d.type ≠ cstr d'.type
  found : ∀ t, ∃ o, ssActionEntryFind (some t) s.predefActList = some o ∧
    Option.Rel Makes (first t s.log) o

theorem inv_inductive : (lts H).Inductive Inv where
  init s hinit := by
    refine ⟨by rw [hinit.1]; exact List.Pairwise.nil, fun t => ⟨none, ?_, ?_⟩⟩
    · rw [hinit.1]
      rfl
    · rw [hinit.2]
      exact .none
  step := by
    intro s r s' h hst
    obtain rfl | ⟨t, d, htype, hnew, hmakes, rfl⟩ := step_cases hst
    · exact ⟨h.distinct, fun t => by simp only [first_failed]; exact h.found t⟩
    · obtain ⟨t', htype', hd⟩ := hmakes.type
      obtain rfl : t = t' := Option.some.inj (htype.symm.trans htype')
      have hcstr : cstr d.type = cstr t.bytes := by rw [hd, cstr_of_notMem (notMem_cstr _)]
      refine ⟨List.pairwise_cons.mpr ⟨fun d' hd' heq => ?_, h.distinct⟩, fun t₁ => ?_⟩
      · exact hnew ⟨d', hd', heq.symm.trans hcstr⟩
      · obtain ⟨o, hfind, hrel⟩ := h.found t₁
        simp only [find_cons, hcstr, first_succeeded t₁ t s.log htype]
        by_cases heq : cstr t.bytes = cstr t₁.bytes
        · have hnone : ssActionEntryFind (some t₁) s.predefActList = some none := by
            rw [find_none_iff, Present, ← heq]
            exact hnew
          obtain rfl : o = none := Option.some.inj (hfind.symm.trans hnone)
          have hfirst : first t₁ s.log = none := by
            generalize first t₁ s.log = fst at hrel
            cases hrel
            rfl
          rw [if_pos heq, if_pos heq, hfirst]
          exact ⟨some d, rfl, .some hmakes⟩
        · rw [if_neg heq, if_neg heq, Option.or_none]
          exact ⟨o, hfind, hrel⟩

/-! ## First come, first served -/

/-- Nothing but an entry of its type stands in its way. -/
def Registration.able : Registration H → Bool
  | .internal mem _ type predefineAction _ => mem && type.isSome && predefineAction.isSome
  | .client mem dlopen msg =>
    mem && msg.type.isSome && msg.path.isSome && (dlopen.bind Lib.predefineAction).isSome

/-- It registers the type if nobody did before. -/
def Registration.offers (t : Str) (r : Registration H) : Bool :=
  r.able && r.type.any fun t' => cstr t'.bytes == cstr t.bytes

theorem add_able {r : Registration H} {t : Str} {acts : List (ActionEntry H)} (hable : r.able = true)
    (ht : r.type = some t) (hnew : ¬ Present t acts) : ∃ d, r.add acts = some (0, d :: acts) := by
  have hfind := (find_none_iff t acts).mpr hnew
  cases r with
  | internal mem getpid type predefineAction isAccessable =>
    obtain rfl : type = some t := ht
    simp only [Registration.able, Bool.and_eq_true, Option.isSome_iff_exists] at hable
    obtain ⟨⟨rfl, -⟩, act, rfl⟩ := hable
    simp only [Registration.add, ssActionEntryAddInternal, hfind, Bool.true_eq_false, if_false]
    exact ⟨_, rfl⟩
  | client mem dlopen msg =>
    have htype : msg.type = some t := ht
    simp only [Registration.able, Bool.and_eq_true, Option.isSome_iff_exists,
      Option.bind_eq_some_iff] at hable
    obtain ⟨⟨⟨rfl, -⟩, p, hp⟩, act, lib, rfl, hact⟩ := hable
    simp only [Registration.add, ssActionEntryAdd, htype, hp, hfind, hact, Bool.true_eq_false,
      if_false]
    exact ⟨_, rfl⟩

/-- A registration that succeeds was able to. -/
theorem able_of_zero {r : Registration H} {acts acts' : List (ActionEntry H)}
    (h : r.add acts = some (0, acts')) : r.able = true := by
  cases r with
  | internal mem getpid type predefineAction isAccessable =>
    simp only [Registration.add, ssActionEntryAddInternal] at h
    cases mem with
    | false => cases h
    | true =>
      rcases refused_or_absent h with hrefused | ⟨-, hk⟩
      · cases hrefused
      · cases predefineAction with
        | none => cases hk
        | some act =>
          obtain ⟨t, rfl, -⟩ := Option.map_eq_some_iff.mp hk
          rfl
  | client mem dlopen msg =>
    simp only [Registration.add, ssActionEntryAdd] at h
    cases mem with
    | false => cases h
    | true =>
      rcases refused_or_absent h with hrefused | ⟨-, hk⟩
      · cases hrefused
      · split at hk
        · cases hk
        · split at hk
          · cases hk
          · rename_i act hact
            obtain ⟨t, ht, hk⟩ := Option.bind_eq_some_iff.mp hk
            obtain ⟨p, hp, -⟩ := Option.map_eq_some_iff.mp hk
            simp [Registration.able, ht, hp, hact]

/-- What is present was registered. -/
theorem Inv.first_isSome {s : Actions H} (h : Inv s) {t : Str} (hp : Present t s.predefActList) :
    (first t s.log).isSome := by
  obtain ⟨o, hfind, hrel⟩ := h.found t
  cases o with
  | none => exact absurd hp ((find_none_iff t _).mp hfind)
  | some d =>
    generalize first t s.log = fst at hrel
    cases hrel
    rfl

/-- A registration comes first where it offers the type and none did before. -/
theorem first_step {s s' : Actions H} (h : Inv s) {r : Registration H} (hst : step s r = some s')
    (t : Str) : first t s'.log = (first t s.log).or (if r.offers t then some r else none) := by
  obtain ⟨x, hadd, hx⟩ := Option.map_eq_some_iff.mp hst
  obtain rfl | ⟨t₀, d, htype, hnew, -, rfl⟩ := step_cases hst
  · rw [first_failed]
    by_cases hoff : r.offers t = true
    · simp only [Registration.offers, Bool.and_eq_true, Option.any_eq_true, beq_iff_eq] at hoff
      obtain ⟨hable, t₀, htype, heq⟩ := hoff
      have hp : Present t s.predefActList := by
        by_contra hnew
        have hnew₀ : ¬ Present t₀ s.predefActList := by rwa [Present, heq]
        obtain ⟨d, hd⟩ := add_able hable htype hnew₀
        rw [hd, Option.some.injEq] at hadd
        subst hadd
        simp at hx
      obtain ⟨r₀, hr₀⟩ := Option.isSome_iff_exists.mp (h.first_isSome hp)
      rw [hr₀]
      rfl
    · rw [if_neg hoff, Option.or_none]
  · have hable : r.able = true := by
      have hret : x.1 = 0 := by
        have hlog := congrArg Actions.log hx
        simp only [List.append_cancel_left_eq, List.cons.injEq, Prod.mk.injEq, true_and, and_true]
          at hlog
        exact hlog
      have hzero : r.add s.predefActList = some (0, x.2) := by rw [hadd, ← hret]
      exact able_of_zero hzero
    rw [first_succeeded t t₀ s.log htype]
    simp only [Registration.offers, hable, htype, Bool.true_and, Option.any_some, beq_iff_eq]

/-- **First come, first served.** What a history registers under a type is the
first of its registrations that can register it. -/
theorem first_run {s s' : Actions H} (h : Inv s) {rs : List (Registration H)}
    (hr : (lts H).run s rs = some s') (t : Str) :
    first t s'.log = (first t s.log).or (rs.find? (·.offers t)) := by
  induction rs generalizing s with
  | nil =>
    obtain rfl := Option.some.inj hr
    rw [List.find?_nil, Option.or_none]
  | cons r rs ih =>
    obtain ⟨s₁, hst, hr⟩ := LTS.run_cons.mp hr
    rw [ih (inv_inductive.step s r s₁ h hst) hr, first_step h hst t, Option.or_assoc,
      List.find?_cons]
    cases r.offers t <;> rfl

/-! ## The registry -/

/-- The registration's `is_accessable` refuses the caller. -/
def Registration.Denies (r : Registration H) (pid : Int) : Prop :=
  ∃ f, r.isAccessable = some f ∧ f pid = 0

/-- The entry of a call, with the registration's handler. -/
def Enqueued (r : Registration H) (argc : Int) (argv : List CPtr) (core core' : Core H) : Prop :=
  ∃ d, r.handler = some d.predefineAction ∧
    core'.runQueue = ⟨core.nextId, .INIT, d, 0, argc, argv.take argc.toNat⟩ :: core.runQueue

/-- What a call comes to by the first registration that succeeded. -/
theorem call_first {s : Actions H} (h : Inv s) {core : Core H} {msg : Sysnoti} {t : Str}
    (hacts : core.predefActList = s.predefActList) (ht : msg.type = some t) (argc : Int)
    (argv : List CPtr) :
    (first t s.log = none → ssActionEntryCall .both msg argc argv core = some (-1, core)) ∧
    ∀ r, first t s.log = some r →
      (r.Denies msg.pid → ssActionEntryCall .both msg argc argv core = some (-1, core)) ∧
      (¬ r.Denies msg.pid → ∃ core', ssActionEntryCall .both msg argc argv core = some (0, core') ∧
        Enqueued r argc argv core core') := by
  obtain ⟨o, hfind, hrel⟩ := h.found t
  rw [← hacts, ← ht] at hfind
  unfold ssActionEntryCall
  rw [hfind]
  refine ⟨fun hnone => ?_, fun r hr => ?_⟩
  · rw [hnone] at hrel
    cases hrel
    rfl
  · rw [hr] at hrel
    cases hrel with
    | some hmakes =>
      rename_i d
      have hdenied : r.Denies msg.pid ↔ Denied d msg.pid := by
        rw [Registration.Denies, hmakes.isAccessable]
        exact Iff.rfl
      rw [hdenied]
      refine ⟨fun hden => if_pos hden, fun hden => ⟨_, if_neg hden, d, hmakes.handler, rfl⟩⟩

/-- **The action registry.** After every sequence of registrations the types
on the list are pairwise distinct; a further registration of a type, with a
path if a client brings it, returns, it returns 0 or -1, -1 leaves the list as
it is, and -1 is what it returns when its type is present; and
`ss_action_entry_call` enqueues an entry with the handler of the first
registration that succeeded under the type, or returns -1 with nothing changed
when there was none or when it denies the caller. -/
theorem registry (s : Actions H) (h : (lts H).Reachable s) :
    s.predefActList.Pairwise (fun d d' => cstr d.type ≠ cstr d'.type) ∧
    (∀ r t, r.type = some t → r.HasPath → (step s r).isSome) ∧
    (∀ r s', step s r = some s' → ∃ ret, s'.log = s.log ++ [(r, ret)] ∧ (ret = 0 ∨ ret = -1) ∧
      (ret = -1 → s'.predefActList = s.predefActList) ∧
      (∀ t, r.type = some t → Present t s.predefActList → ret = -1)) ∧
    ∀ (core : Core H) (msg : Sysnoti) (t : Str) (argc : Int) (argv : List CPtr),
      core.predefActList = s.predefActList → msg.type = some t →
      (first t s.log = none → ssActionEntryCall .both msg argc argv core = some (-1, core)) ∧
      ∀ r, first t s.log = some r →
        (r.Denies msg.pid → ssActionEntryCall .both msg argc argv core = some (-1, core)) ∧
        (¬ r.Denies msg.pid → ∃ core', ssActionEntryCall .both msg argc argv core = some (0, core') ∧
          Enqueued r argc argv core core') := by
  have hinv := inv_inductive.reachable h
  refine ⟨hinv.distinct, fun r t ht hpath => step_isSome ht hpath s, fun r s' hst => ?_,
    fun core msg t argc argv hacts ht => call_first hinv hacts ht argc argv⟩
  obtain rfl | ⟨t, d, htype, hnew, -, rfl⟩ := step_cases hst
  · exact ⟨-1, rfl, .inr rfl, fun _ => rfl, fun _ _ _ => rfl⟩
  · refine ⟨0, rfl, .inl rfl, fun hret => absurd hret (by decide), fun t' ht' hp => ?_⟩
    obtain rfl : t = t' := Option.some.inj (htype.symm.trans ht')
    exact absurd hp hnew

/-- A type of the daemon's own, twice, and one of a client whose library denies
caller 5. -/
def someHistory : List (Registration Nat) :=
  [.internal true 1 (some ⟨0, lit "a"⟩) (some 1) none,
    .internal true 1 (some ⟨1, lit "a"⟩) (some 2) none,
    .client true (some ⟨some 3, some fun pid => if pid = 5 then 0 else 1⟩)
      ⟨9, 1, some ⟨2, lit "b"⟩, some ⟨3, lit "b.so"⟩, 0, []⟩]

theorem registry_three : ∃ s, (lts Nat).Reachable s ∧ s.log.map Prod.snd = [0, -1, 0] ∧
    (s.predefActList.map fun d => (d.type, d.predefineAction)) = [(lit "b", 3), (lit "a", 1)] ∧
    s.predefActList.Pairwise fun d d' => cstr d.type ≠ cstr d'.type := by
  obtain ⟨s, hs⟩ := Option.isSome_iff_exists.mp
    (show ((lts Nat).run ⟨[], []⟩ someHistory).isSome from rfl)
  have hreach : (lts Nat).Reachable s := ⟨_, someHistory, ⟨rfl, rfl⟩, hs⟩
  refine ⟨s, hreach, ?_, ?_, (registry s hreach).1⟩
  · have hlog : ((lts Nat).run ⟨[], []⟩ someHistory).map (fun s => s.log.map Prod.snd) =
      some [0, -1, 0] := rfl
    rw [hs] at hlog
    exact Option.some.inj hlog
  · have hlist : ((lts Nat).run ⟨[], []⟩ someHistory).map (fun s => s.predefActList.map fun d =>
      (d.type, d.predefineAction)) = some [(lit "b", 3), (lit "a", 1)] := rfl
    rw [hs] at hlist
    exact Option.some.inj hlist

end SystemServer.L2.Registry
