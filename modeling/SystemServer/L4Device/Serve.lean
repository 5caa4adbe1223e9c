import SystemServer.L2Queue.Drain
import SystemServer.L3Daemon.EndToEnd
import SystemServer.L4Device.Boot

/-!
# The daemon from its start-up on

`Boot` says whose a type is after start-up, `EndToEnd` which calls a registry
and the messages lead to, `Drain` that the main loop comes to rest. Here they
are one: `asked` reads the call a message asks for off the message and what
start-up met, with no registry and no queue in between, and `served` says that
these calls are what the handlers get, and that they all get made.

Of the entry a look-up finds only the check of the caller is new: the daemon's
own actions have none, and a plug-in's is its library's (`denied_iff`).
-/
namespace SystemServer.L4.Serve

open SystemServer.L1.Recv SystemServer.L1.Fragment
open SystemServer.L2.RunQueue SystemServer.L2.ExactlyOnce SystemServer.L2.Refine
open SystemServer.L2.Registry SystemServer.L2.Drain
open SystemServer.L3.Sysnoti SystemServer.L3.EndToEnd SystemServer.L4.Boot
open SystemServer (Pool.accepted Pool.performed)

variable {P : Type}

/-! ## What is asked for -/

/-- The library of a file, if it can be registered. -/
def fileLib (E : Env P) (dName : Bytes) : Option (Lib P) :=
  if (fileHandler E dName).isSome then E.dlopen (tmp dName) else none

/-- The first library of that name. -/
def libOf (E : Env P) (type : Bytes) : Option (Lib P) :=
  (E.dir.getD []).findSome? fun dName =>
    if fileType dName = some type then fileLib E dName else none

/-- The type is a library's, and it refuses the caller. -/
def refuses (E : Env P) (type : Bytes) (pid : Int) : Bool :=
  (builtinOf E ssPredefineInternalInit type).isNone &&
    (libOf E type).any fun lib => lib.isAccessable.any fun f => f pid == 0

/-- What a message asks for, by what start-up met. -/
def asked (E : Env P) (m : WireMsg) : Option (Call (Action P)) :=
  if m.cmd = CALL_SYSMAN_ACTION then
    if refuses E m.type.bytes m.pid then none
    else (owner E m.type.bytes).map fun act => ⟨act, m.args.map fun w => some w.bytes⟩
  else none

/-- The same for a request of the daemon's own. -/
def askedInternal (E : Env P) (type : Str) (argc : Int) (args : List CPtr) :
    Option (Call (Action P)) :=
  if argc > SYSMAN_MAXARG then none
  else (owner E (cstr type.bytes)).map fun act =>
    ⟨act, (args.take argc.toNat).map (·.map fun str => cstr str.bytes)⟩

/-- What a step asks for. -/
inductive Asked (E : Env P) : L3.EndToEnd.Lbl → List (Call (Action P)) → Prop where
  | message (m f M mem c) (h : Whole m f M mem c) :
      Asked E (.connect f M mem c) (asked E m).toList
  | internal (type argc args) :
      Asked E (.core (.callInternal .both (some type) argc args))
        (askedInternal E type argc args).toList
  | own (l) (hl : ¬ Requests l) : Asked E (.core l) []

/-! ## The check of the caller -/

/-- The library a registration opens. -/
def libOfReg : Registration (Action P) → Option (Lib (Action P))
  | .internal _ _ _ _ _ => none
  | .client _ dlopen _ => dlopen

theorem find_internal (E : Env P) (table : List (String × Builtin)) (t : Str)
    {r : Registration (Action P)} (h : (table.map (internal E)).find? (·.offers t) = some r) :
    libOfReg r = none ∧ r.isAccessable = none := by
  obtain ⟨x, -, rfl⟩ := List.mem_map.mp (List.mem_of_find?_eq_some h)
  exact ⟨rfl, rfl⟩

theorem find_none_builtin (E : Env P) {table : List (String × Builtin)}
    (hnul : ∀ x ∈ table, (0 : UInt8) ∉ lit x.1) {type : Bytes} (ht : (0 : UInt8) ∉ type) :
    (table.map (internal E)).find? (·.offers ⟨0, type⟩) = none ↔ builtinOf E table type = none := by
  have hb := brings_internal E table hnul ht
  rw [← find_brings] at hb
  constructor
  · intro hnone
    rw [hnone] at hb
    exact Option.map_eq_none_iff.mp hb.symm
  · intro hnone
    rw [hnone, Option.map_none, Option.bind_eq_none_iff] at hb
    by_contra hsome
    obtain ⟨r, hr⟩ := Option.ne_none_iff_exists'.mp hsome
    have hoff : r.offers ⟨0, type⟩ = true := List.find?_some hr
    simp only [Registration.offers, Bool.and_eq_true] at hoff
    obtain ⟨act, hact⟩ := handler_of_able hoff.1
    exact absurd (hact.symm.trans (hb r hr)) (Option.some_ne_none act)

/-- The registration a file leads to offers a type when it is the file's and
there is a library to register. -/
theorem offers_loadFile (E : Env P) (dName : Bytes) {type : Bytes} (ht : (0 : UInt8) ∉ type) :
    ((loadFile E dName).filter (·.offers ⟨0, type⟩)).bind libOfReg =
      (if fileType dName = some type then fileLib E dName else none).map Lib.asAction := by
  obtain hext | ⟨ext, hext⟩ := Option.eq_none_or_eq_some (strstr (lit ".so") dName)
  · simp [loadFile, fileType, hext]
  · have htype : cstr (typeOf dName ext) = typeOf dName ext := cstr_of_notMem (notMem_cstr _)
    simp only [loadFile, fileType, fileLib, fileHandler, hext, Option.map_some, Option.filter_some,
      Registration.offers, Registration.able, Registration.type, Option.isSome_some, Bool.and_true,
      Option.any_some, htype, cstr_of_notMem ht, Option.some.injEq, brings_library,
      Option.isSome_map]
    by_cases heq : typeOf dName ext = type
    · by_cases hmem : E.fileMem dName = true
      · by_cases hlib : ((E.dlopen (tmp dName)).bind Lib.predefineAction).isSome = true
        · simp [heq, hmem, hlib, libOfReg]
        · simp [heq, hmem, hlib]
      · simp [hmem]
    · simp [heq]

/-- The first to be kept, where every one kept has something to show. -/
theorem find_filterMap {α β γ : Type} (f : α → Option β) (p : β → Bool) (g : β → Option γ)
    (hg : ∀ b, p b = true → (∃ a, f a = some b) → g b ≠ none) (as : List α) :
    ((as.filterMap f).find? p).bind g = as.findSome? fun a => ((f a).filter p).bind g := by
  induction as with
  | nil => rfl
  | cons a as ih =>
    rw [List.filterMap_cons, List.findSome?_cons]
    cases hfa : f a with
    | none => exact ih
    | some b =>
      rw [Option.filter_some]
      by_cases hb : p b = true
      · obtain ⟨c, hc⟩ := Option.ne_none_iff_exists'.mp (hg b hb ⟨a, hfa⟩)
        rw [List.find?_cons_of_pos hb, if_pos hb, Option.bind_some, hc]
      · rw [List.find?_cons_of_neg hb, if_neg hb]
        exact ih

theorem find_plugins (E : Env P) {type : Bytes} (ht : (0 : UInt8) ∉ type) :
    ((ssActionEntryLoadFromSodir E).find? (·.offers ⟨0, type⟩)).bind libOfReg =
      (libOf E type).map Lib.asAction := by
  have hlib : ∀ r : Registration (Action P), r.offers ⟨0, type⟩ = true →
      (∃ dName, loadFile E dName = some r) → libOfReg r ≠ none := by
    intro r hoff hfile
    obtain ⟨dName, hload⟩ := hfile
    obtain ⟨ext, -, rfl⟩ := Option.map_eq_some_iff.mp hload
    simp only [Registration.offers, Registration.able, Bool.and_eq_true] at hoff
    obtain ⟨act, hact⟩ := Option.isSome_iff_exists.mp hoff.1.2
    obtain ⟨lib, hlib, -⟩ := Option.bind_eq_some_iff.mp hact
    rw [libOfReg, hlib]
    exact Option.some_ne_none lib
  rw [ssActionEntryLoadFromSodir, find_filterMap _ _ _ hlib, libOf]
  generalize E.dir.getD [] = files
  induction files with
  | nil => rfl
  | cons dName files ih =>
    rw [List.findSome?_cons, List.findSome?_cons, offers_loadFile E dName ht]
    cases (if fileType dName = some type then fileLib E dName else none) with
    | none => exact ih
    | some lib => rfl

/-- Whom the first registration of a type refuses. -/
theorem find_denies (E : Env P) {type : Bytes} (ht : (0 : UInt8) ∉ type)
    {r : Registration (Action P)} (h : (systemServerInit E).find? (·.offers ⟨0, type⟩) = some r)
    (pid : Int) : r.Denies pid ↔ refuses E type pid = true := by
  have hearly := find_none_builtin E early_ne ht
  rw [systemServerInit, List.find?_append, List.find?_append] at h
  cases hfind : (ssPredefineInternalInit.map (internal E)).find? (·.offers ⟨0, type⟩) with
  | some r₀ =>
    rw [hfind, Option.some_or, Option.some_or, Option.some.injEq] at h
    subst h
    have hown : builtinOf E ssPredefineInternalInit type ≠ none := fun hnone => by
      rw [hearly.mpr hnone] at hfind
      cases hfind
    have hacc := (find_internal E _ _ hfind).2
    simp [Registration.Denies, refuses, hacc, hown]
  | none =>
    have hplug := find_plugins E ht
    have hnone : builtinOf E ssPredefineInternalInit type = none := hearly.mp hfind
    rw [hfind, Option.none_or] at h
    cases hso : (ssActionEntryLoadFromSodir E).find? (·.offers ⟨0, type⟩) with
    | some r₀ =>
      rw [hso, Option.some_or, Option.some.injEq] at h
      subst h
      rw [hso, Option.bind_some] at hplug
      have hacc : r₀.isAccessable = (libOf E type).bind Lib.isAccessable := by
        obtain ⟨dName, -, hload⟩ := List.mem_filterMap.mp (List.mem_of_find?_eq_some hso)
        obtain ⟨ext, -, rfl⟩ := Option.map_eq_some_iff.mp hload
        rw [libOfReg] at hplug
        rw [Registration.isAccessable, hplug]
        cases libOf E type <;> rfl
      simp only [Registration.Denies, refuses, hacc, hnone, Option.isNone_none, Bool.true_and,
        Option.any_eq_true, Option.bind_eq_some_iff, beq_iff_eq]
      constructor
      · intro hden
        obtain ⟨f, ⟨lib, hlib, hf⟩, h0⟩ := hden
        exact ⟨lib, hlib, f, hf, h0⟩
      · intro href
        obtain ⟨lib, hlib, f, hf, h0⟩ := href
        exact ⟨f, ⟨lib, hlib, hf⟩, h0⟩
    | none =>
      rw [hso, Option.none_or] at h
      rw [hso, Option.bind_none] at hplug
      have hlib : libOf E type = none := Option.map_eq_none_iff.mp hplug.symm
      have hacc := (find_internal E _ _ h).2
      simp [Registration.Denies, refuses, hacc, hlib]

/-! ## The registry and what is asked for -/

/-- What start-up leaves. -/
def Booted (E : Env P) (acts : List (ActionEntry (Action P))) : Prop :=
  ∃ s, (L2.Registry.lts (Action P)).run ⟨[], []⟩ (systemServerInit E) = some s ∧
    s.predefActList = acts

/-- The entry of a type after start-up. -/
theorem entry_booted {E : Env P} {acts : List (ActionEntry (Action P))} (h : Booted E acts)
    {type : Bytes} (ht : (0 : UInt8) ∉ type) :
    (acts.find? fun d => cstr d.type = type).map ActionEntry.predefineAction = owner E type ∧
    ∀ d, acts.find? (fun d => cstr d.type = type) = some d →
      ∀ pid, Denied d pid ↔ refuses E type pid = true := by
  obtain ⟨s, hs, rfl⟩ := h
  have hinit : L2.Registry.Inv (⟨[], []⟩ : Actions (Action P)) := inv_inductive.init _ ⟨rfl, rfl⟩
  have hown := handlers_at_start E hs ht
  have hfirst := first_run hinit hs ⟨0, type⟩
  obtain ⟨o, hfind, hrel⟩ := (inv_inductive.run hinit hs).found ⟨0, type⟩
  rw [handlerOf, hfind, Option.join_some] at hown
  rw [find_eq, cstr_of_notMem ht, Option.some.injEq] at hfind
  rw [hfind]
  refine ⟨hown, fun d hd pid => ?_⟩
  subst hd
  generalize hr : first ⟨0, type⟩ s.log = fst at hrel
  cases hrel with
  | some hmakes =>
    rename_i r
    have hden := find_denies E ht (hfirst.symm.trans hr) pid
    rwa [Registration.Denies, hmakes.isAccessable] at hden

theorem called_booted {E : Env P} {acts : List (ActionEntry (Action P))} (h : Booted E acts)
    (m : WireMsg) : called acts m = asked E m := by
  obtain ⟨hown, hden⟩ := entry_booted h m.type.nul
  rw [called, asked]
  split
  · rw [← hown]
    cases hfind : acts.find? fun d => cstr d.type = m.type.bytes with
    | none => simp
    | some d => simp [hden d hfind m.pid]
  · rfl

theorem calledInternal_booted {E : Env P} {acts : List (ActionEntry (Action P))}
    (h : Booted E acts) (type : Str) (argc : Int) (args : List CPtr) :
    calledInternal acts type argc args = askedInternal E type argc args := by
  obtain ⟨hown, -⟩ := entry_booted h (notMem_cstr type.bytes)
  rw [calledInternal, askedInternal, ← hown, Option.map_map]
  rfl

theorem asks_booted {E : Env P} {acts : List (ActionEntry (Action P))} (h : Booted E acts)
    {l : L3.EndToEnd.Lbl} {cs : List (Call (Action P))} (hl : Asked E l cs) : Asks acts l cs := by
  cases hl with
  | message m f M mem c hwhole =>
    rw [← called_booted h]
    exact .message m f M mem c hwhole
  | internal type argc args =>
    rw [← calledInternal_booted h]
    exact .internal type argc args
  | own l hl => exact .own l hl

/-! ## Serving -/

/-- The loop's steps are its steps in the system. -/
theorem run_loop {H : Type} (s : Core H) {ls : List L2.RunQueue.Lbl} (hls : ∀ l ∈ ls, Loop l) :
    (L3.EndToEnd.lts H).run s (ls.map .core) = (L2.RunQueue.lts H).run s ls := by
  induction ls generalizing s with
  | nil => rfl
  | cons l ls ih =>
    have hcall : ¬ IsCall l := by
      intro hcall
      cases l with
      | call => exact hls _ List.mem_cons_self
      | callInternal | sigchld | deliver | visit | ret => exact hcall
    have hstep : (L3.EndToEnd.lts H).step s (.core l) = (L2.RunQueue.lts H).step s l := if_neg hcall
    rw [List.map_cons, LTS.run, LTS.run, hstep]
    cases (L2.RunQueue.lts H).step s l with
    | none => rfl
    | some s₁ => exact ih s₁ fun x hx => hls x (List.mem_cons_of_mem _ hx)

/-- The loop's steps ask for nothing. -/
theorem asked_loop (E : Env P) {ls : List L2.RunQueue.Lbl} (hls : ∀ l ∈ ls, Loop l) :
    List.Forall₂ (Asked E) (ls.map .core) (List.replicate ls.length []) := by
  induction ls with
  | nil => exact .nil
  | cons l ls ih =>
    have hown : ¬ Requests l := by
      intro hreq
      cases l with
      | call | callInternal => exact hls _ List.mem_cons_self
      | sigchld | deliver | visit | ret => exact hreq
    exact .cons (.own l hown) (ih fun x hx => hls x (List.mem_cons_of_mem _ hx))

/-- **The daemon from its start-up on.** Start-up leaves a registry, whatever
is in the directory of the libraries. From there, take any run of connections
that each bring a whole message, of requests the daemon makes itself and of
steps of its main loop, in any order. Left alone the loop then comes to rest,
and the handlers have been called for exactly what was asked: each message by
the handler that owns its type, with the bytes that were sent, unless the
owner is a library that refuses the caller. -/
theorem served (E : Env P) : ∃ acts, Booted E acts ∧
    ∀ s ls cs, (L3.EndToEnd.lts (Action P)).run (boot acts) ls = some s →
      List.Forall₂ (Asked E) ls cs →
      (∃ (ls' : List L2.RunQueue.Lbl) (s' : Core (Action P)), (∀ l ∈ ls', Loop l) ∧
        (L3.EndToEnd.lts (Action P)).run s (ls'.map .core) = some s' ∧
        ∀ l, Loop l → L2.RunQueue.step s' l = none) ∧
      ∀ (ls' : List L2.RunQueue.Lbl) (s' : Core (Action P)), (∀ l ∈ ls', Loop l) →
        (L3.EndToEnd.lts (Action P)).run s (ls'.map .core) = some s' →
        ls'.length ≤ work s ∧
        ((∀ l, Loop l → L2.RunQueue.step s' l = none) →
          (Pool.performed ((L3.EndToEnd.lts (Action P)).trace events (boot acts)
            (ls ++ ls'.map .core))).map Job.call = cs.flatten) := by
  obtain ⟨s₀, hs₀⟩ := run_isSome (systemServerInit_ok E) ⟨[], []⟩
  have hbooted : Booted E s₀.predefActList := ⟨s₀, hs₀, rfl⟩
  refine ⟨s₀.predefActList, hbooted, fun s ls cs hr hls => ?_⟩
  have hinit : L2.RunQueue.Init (boot s₀.predefActList) := init_boot _
  obtain ⟨p, -, hstands⟩ := (L3.EndToEnd.simulates (Action P)).init _ hinit
  obtain ⟨-, ⟨hinv, -⟩, -⟩ := (L3.EndToEnd.simulates (Action P)).conserved hstands hr
  refine ⟨?_, fun ls' s' hloop hr' => ⟨?_, fun hstuck => ?_⟩⟩
  · obtain ⟨ls', s', hloop, hr', hstuck⟩ := (decreases (Action P)).exists_stuck hinv
    exact ⟨ls', s', hloop, (run_loop s hloop).trans hr', hstuck⟩
  · rw [run_loop s hloop] at hr'
    exact loop_length_le hinv hloop hr'
  · have hrun : (L3.EndToEnd.lts (Action P)).run (boot s₀.predefActList) (ls ++ ls'.map .core) =
        some s' := LTS.run_append.mpr ⟨s, hr, hr'⟩
    have hasks : List.Forall₂ (Asks s₀.predefActList) (ls ++ ls'.map .core)
        (cs ++ List.replicate ls'.length []) :=
      (List.rel_append hls (asked_loop E hloop)).imp fun _ _ => asks_booted hbooted
    have hcalls := calls_conserved hinit hrun hasks
    obtain ⟨-, ⟨hinv', -⟩, -⟩ := (L3.EndToEnd.simulates (Action P)).conserved hstands hrun
    obtain ⟨hpc, hpipe⟩ := settled_of_stuck hinv' hstuck
    rwa [pending_settled hinv' hpc hpipe, Multiset.map_zero, add_zero, List.flatten_append,
      List.flatten_replicate_nil, List.append_nil] at hcalls

/-- One library, and no memory for the daemon's own actions. -/
def oneDir : Env Nat := ⟨1, some [lit "liba.so"], fun _ => some ⟨some 7, none⟩, fun _ => false,
  fun _ => true⟩

/-- The main loop after one message. -/
def oneLoop : List L2.RunQueue.Lbl := [.deliver, .visit, .ret 0 false, .visit, .deliver]

theorem served_one : ∃ acts s s', Booted oneDir acts ∧
    (L3.EndToEnd.lts (Action Nat)).run (boot acts)
      [.connect allOk zeroMem .both (conn smallMsg.encode)] = some s ∧
    (L3.EndToEnd.lts (Action Nat)).run s (oneLoop.map .core) = some s' ∧
    (Pool.performed ((L3.EndToEnd.lts (Action Nat)).trace events (boot acts)
      ([.connect allOk zeroMem .both (conn smallMsg.encode)] ++ oneLoop.map .core))).map Job.call =
      {⟨.plugin 7, []⟩} := by
  obtain ⟨acts, hbooted, hserved⟩ := served oneDir
  have hacts : acts = [⟨1, lit "a", tmp (lit "liba.so"), .plugin 7, none⟩] := by
    obtain ⟨s₀, hs₀, rfl⟩ := hbooted
    have hlist : ((L2.Registry.lts (Action Nat)).run ⟨[], []⟩ (systemServerInit oneDir)).map
        Actions.predefActList = some [⟨1, lit "a", tmp (lit "liba.so"), .plugin 7, none⟩] := rfl
    rw [hs₀] at hlist
    exact Option.some.inj hlist
  subst hacts
  refine ⟨_, _, _, hbooted, rfl, rfl, ?_⟩
  have hasked : asked oneDir smallMsg = some ⟨.plugin 7, []⟩ := rfl
  have hmsg : Asked oneDir _ (asked oneDir smallMsg).toList :=
    Asked.message smallMsg allOk zeroMem .both (conn smallMsg.encode) whole_small
  rw [hasked] at hmsg
  refine ((hserved _ _ [[⟨.plugin 7, []⟩]] rfl (.cons hmsg .nil)).2 oneLoop _ (by decide) rfl).2 ?_
  intro l hl
  cases l with
  | deliver | visit | ret => rfl
  | call | callInternal | sigchld => exact hl.elim

end SystemServer.L4.Serve
