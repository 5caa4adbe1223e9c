import SystemServer.L2Queue.Refine
import SystemServer.L2Queue.Registry
import SystemServer.L3Daemon.Sysnoti

/-!
# From the client's message to the handler

The wire (`Recv`, `Fragment`), the connection (`Sysnoti`) and the run queue
(`RunQueue`) in one system: its steps are connections, each with the stream
and the memory it meets, and the steps of the core that are no client's.

`Call` is what a client asks for and a handler gets: a handler and the
arguments as strings. `called` reads it off the message that was sent and the
actions registered, without the daemon. `simulates`: whatever the
connections bring, the system is a pool of jobs. `served_exactly`: where every
connection brings a whole message, the calls of the handlers are those the
messages ask for, as often and with the bytes that were sent, along with those
the daemon makes itself.
-/
namespace SystemServer.L3.EndToEnd

open SystemServer.L1.Recv SystemServer.L1.Fragment
open SystemServer.L2.RunQueue SystemServer.L2.ExactlyOnce SystemServer.L2.Refine
open SystemServer.L3.Sysnoti
open SystemServer (Pool.Ev Pool.accepted Pool.performed)

variable {H : Type}

/-! ## The system -/

inductive Lbl where
  | connect (f : Frame) (M : Mem) (mem : AddMem) (c : Conn)
  | core (l : L2.RunQueue.Lbl)

def IsCall : L2.RunQueue.Lbl → Prop
  | .call _ _ => True
  | _ => False

instance : DecidablePred IsCall
  | .call _ _ => .isTrue trivial
  | .callInternal _ _ _ _ | .sigchld _ | .deliver | .visit | .ret _ _ => .isFalse id

/-- A client's request comes over a connection only. -/
def step (s : Core H) : Lbl → Option (Core H)
  | .connect f M mem c =>
    if s.pc = .idle then (sysnotiCb f M mem c s).1.map Served.core else none
  | .core l => if IsCall l then none else L2.RunQueue.step s l

def lts (H : Type) : LTS (Core H) Lbl := ⟨Init, step⟩

theorem step_own {s s' : Core H} {l : L2.RunQueue.Lbl} (hst : step s (.core l) = some s') :
    L2.RunQueue.step s l = some s' := by
  obtain ⟨-, h⟩ := Option.ite_none_left_eq_some.mp hst
  exact h

/-- To the core, a step is one of its own or nothing. -/
theorem step_core {s s' : Core H} {l : Lbl} (hst : step s l = some s') :
    s' = s ∨ ∃ l', L2.RunQueue.step s l' = some s' := by
  cases l with
  | connect f M mem c =>
    obtain ⟨hpc, h⟩ := Option.ite_none_right_eq_some.mp hst
    obtain ⟨out, hout, rfl⟩ := Option.map_eq_some_iff.mp h
    rcases sysnotiCb_step hpc hout with heq | ⟨msg, -, hcall⟩
    · exact .inl heq
    · exact .inr ⟨_, hcall⟩
  | core l => exact .inr ⟨l, step_own hst⟩

theorem inv_step {s s' : Core H} {l : Lbl} (h : Inv s) (hst : step s l = some s') : Inv s' := by
  rcases step_core hst with rfl | ⟨l', hl'⟩
  · exact h
  · exact L2.ExactlyOnce.inv_step h hl'

/-- **The daemon is a pool of jobs**, whatever the connections bring. -/
theorem simulates (H : Type) : (lts H).Simulates events (Pool.lts (Job H)) Stands where
  init s hs := (L2.Refine.simulates H).init s hs
  step s p l s' h hst := by
    rcases step_core hst with rfl | ⟨l', hl'⟩
    · refine ⟨p, ?_, h⟩
      rw [events_quiet l h.1.lt rfl]
      rfl
    · exact stands_step h hl'

/-! ## What is asked for -/

/-- A handler and the strings it is called with; `none` is a NULL pointer. -/
structure Call (H : Type) where
  handler : H
  args : List (Option Bytes)

/-- What a handler sees of its job. -/
def Job.call (j : Job H) : Call H :=
  ⟨j.actionEntry.predefineAction, j.argv.map (·.map fun str => cstr str.bytes)⟩

/-- What a message asks for, by the actions registered. -/
def called (acts : List (ActionEntry H)) (m : WireMsg) : Option (Call H) :=
  if m.cmd = CALL_SYSMAN_ACTION then
    (acts.find? fun d => cstr d.type = m.type.bytes).bind fun d =>
      if Denied d m.pid then none else some ⟨d.predefineAction, m.args.map fun w => some w.bytes⟩
  else none

/-- The same for a request of the daemon's own. -/
def calledInternal (acts : List (ActionEntry H)) (type : Str) (argc : Int) (args : List CPtr) :
    Option (Call H) :=
  if argc > SYSMAN_MAXARG then none
  else (acts.find? fun d => cstr d.type = cstr type.bytes).map fun d =>
    Job.call ⟨d, argc, args.take argc.toNat⟩

/-- The message `m` is sent, its fields arrive one by one, and the daemon has
memory for it. -/
structure Whole (m : WireMsg) (f : Frame) (M : Mem) (mem : AddMem) (c : Conn) : Prop where
  frame : f.Ok
  pieces : Pieces c.evs m.encode
  reads : WholeReads m.fields c.evs
  blocks : ∀ k, k < 2 + m.args.length → M.alloc (c.heap + k) = true
  lens : ∀ w ∈ m.strs, (w.bytes.length : Int) < INT_MAX
  entry : mem = .both

/-- What a step asks for. -/
inductive Asks (acts : List (ActionEntry H)) : Lbl → List (Call H) → Prop where
  | message (m f M mem c) (h : Whole m f M mem c) :
      Asks acts (.connect f M mem c) (called acts m).toList
  | internal (type argc args) :
      Asks acts (.core (.callInternal .both (some type) argc args))
        (calledInternal acts type argc args).toList
  | own (l) (hl : ¬ Requests l) : Asks acts (.core l) []

/-! ## A message -/

/-- The loops of `ss_queue.c` are `find?`. -/
theorem find_eq (t : Str) (acts : List (ActionEntry H)) :
    ssActionEntryFind (some t) acts = some (acts.find? fun d => cstr d.type = cstr t.bytes) := by
  induction acts with
  | nil => rfl
  | cons d acts ih =>
    rw [L2.Registry.find_cons, List.find?_cons]
    by_cases h : cstr d.type = cstr t.bytes
    · simp [h]
    · simp [h, ih]

/-- A message that arrives whole is decoded as it was sent. -/
theorem readMessage_whole {m : WireMsg} {f : Frame} {M : Mem} {mem : AddMem} {c : Conn}
    (h : Whole m f M mem c) : ∃ msg, (readMessage M c).1 = some msg ∧ m.Spells msg := by
  have hp : Pieces c.evs ((m.items.flatMap Item.fields).flatten ++ []) := by
    simpa [WireMsg.encode, WireMsg.fields] using h.pieces
  have hg : Granted M.alloc m.items c.heap := (granted_items M.alloc m c.heap).mpr ⟨h.blocks, h.lens⟩
  exact (readMessage_spelled M m c).mpr ((spelled_iff M.alloc m.items hp).mpr ⟨h.reads, hg⟩ M.stack M.block)

/-- The arguments a handler sees are those of the message. -/
theorem spelled_args {m : WireMsg} {msg : Sysnoti} (h : m.Spells msg) :
    msg.argv.map (·.map fun str => cstr str.bytes) = m.args.map fun w => some w.bytes := by
  have hargv := h.argv
  generalize msg.argv = argv at hargv
  generalize m.args = args at hargv
  induction hargv with
  | nil => rfl
  | cons hp _ ih =>
    rw [List.map_cons, List.map_cons, ih]
    exact congrArg₂ List.cons hp rfl

/-- The calls a step accepts. -/
def calls {L : Type} (s : Core H) (l : L) (s' : Core H) : Multiset (Call H) :=
  (Pool.accepted (events s l s')).map Job.call

theorem calls_quiet {L : Type} {s s' : Core H} (l : L)
    (hnew : ∀ e ∈ s'.runQueue, e.id < s.nextId) : calls s l s' = 0 := by
  rw [calls, events, newEntries_nil hnew]
  exact congrArg _ (Pool.accepted_performs _ _)

theorem calls_added {L : Type} {s : Core H} (h : Inv s) (l : L) (act : ActionEntry H) (argc : Int)
    (argv : List CPtr) :
    calls s l (added act argc argv s) = {Job.call ⟨act, argc, argv.take argc.toNat⟩} := by
  rw [calls, events_added h, Pool.accepted_accept, Multiset.map_singleton]

/-- A connection with a whole message accepts the call the message asks for. -/
theorem calls_message {s s' : Core H} (hi : Inv s) {m : WireMsg} {f : Frame} {M : Mem} {mem : AddMem}
    {c : Conn} (h : Whole m f M mem c) (hst : step s (.connect f M mem c) = some s') :
    calls s (Lbl.connect f M mem c) s' = (called s.predefActList m).toList := by
  obtain ⟨msg, hmsg, hsp⟩ := readMessage_whole h
  obtain ⟨hargc, hargv, -⟩ := readMessage_argc hmsg
  obtain ⟨hpc, hst⟩ := Option.ite_none_right_eq_some.mp hst
  obtain ⟨out, hout, rfl⟩ := Option.map_eq_some_iff.mp hst
  obtain ⟨t, htype, hbytes⟩ := Option.map_eq_some_iff.mp hsp.type
  simp only [sysnotiCb, if_pos h.frame, hmsg, handleMessage, if_neg (Int.not_lt.mpr hargc),
    freeMessage_eq] at hout
  by_cases hcmd : msg.cmd = CALL_SYSMAN_ACTION
  swap
  · rw [if_neg hcmd] at hout
    obtain rfl := Option.some.inj hout
    rw [called, if_neg (hsp.cmd ▸ hcmd)]
    exact calls_quiet _ hi.lt
  rw [if_pos hcmd] at hout
  obtain ⟨r, hr, rfl⟩ := Option.map_eq_some_iff.mp hout
  have hd := call_dispatched mem msg s
  rw [hr] at hd
  simp only [called, ← hsp.cmd, if_pos hcmd, ← hbytes, ← hsp.pid]
  cases hd with
  | refused found hfind hnone =>
    rw [htype, find_eq, Option.some.injEq] at hfind
    rw [calls_quiet _ hi.lt, hfind]
    cases found with
    | none => rfl
    | some d => simp [hnone d rfl]
  | lost d _ _ hmem => exact absurd h.entry hmem
  | entry d hfind hdenied =>
    rw [htype, find_eq, Option.some.injEq] at hfind
    rw [calls_added hi, hfind, ← hargv, List.take_length, Job.call, spelled_args hsp]
    simp [hdenied]

/-! ## The other steps -/

theorem calls_internal {s s' : Core H} (hi : Inv s) {type : Str} {argc : Int} {args : List CPtr}
    (hst : L2.RunQueue.step s (.callInternal .both (some type) argc args) = some s') :
    calls s (Lbl.core (.callInternal .both (some type) argc args)) s' =
      (calledInternal s.predefActList type argc args).toList := by
  obtain ⟨-, h⟩ := Option.ite_none_right_eq_some.mp hst
  obtain rfl := Option.some.inj h
  simp only [ssActionEntryCallInternal, find_eq, calledInternal, reduceCtorEq, or_false]
  by_cases hargc : argc > SYSMAN_MAXARG
  · simp only [if_pos hargc]
    exact calls_quiet _ hi.lt
  · simp only [if_neg hargc]
    cases s.predefActList.find? fun d => cstr d.type = cstr type.bytes with
    | none => exact calls_quiet _ hi.lt
    | some d => exact calls_added hi _ d argc args

/-- No step registers an action. -/
theorem actions_step {s s' : Core H} {l : Lbl} (hst : step s l = some s') :
    s'.predefActList = s.predefActList := by
  rcases step_core hst with rfl | ⟨l', hl'⟩
  · rfl
  · cases step_effect hl' <;> rfl

/-- A step accepts what it asks for. -/
theorem calls_step {s s' : Core H} {l : Lbl} {cs : List (Call H)} (hi : Inv s)
    (hl : Asks s.predefActList l cs) (hst : step s l = some s') : calls s l s' = cs := by
  cases hl with
  | message m f M mem c h => exact calls_message hi h hst
  | internal type argc args => exact calls_internal hi (step_own hst)
  | own l hl =>
    rw [calls, events, newEntries_own hi hl (step_own hst)]
    exact congrArg _ (Pool.accepted_performs _ _)

/-! ## Runs -/

/-- A run accepts what its steps ask for. -/
theorem calls_run {s s' : Core H} {acts : List (ActionEntry H)} {ls : List Lbl}
    {cs : List (List (Call H))} (hi : Inv s) (hacts : s.predefActList = acts)
    (hls : List.Forall₂ (Asks acts) ls cs) (hr : (lts H).run s ls = some s') :
    (Pool.accepted ((lts H).trace events s ls)).map Job.call = cs.flatten := by
  induction hls generalizing s with
  | nil => rfl
  | cons hl _ ih =>
    obtain ⟨s₁, hst, hr⟩ := LTS.run_cons.mp hr
    have hrest := ih (inv_step hi hst) ((actions_step hst).trans hacts) hr
    have hfirst := calls_step hi (hacts ▸ hl) hst
    rw [LTS.trace_cons hst, Pool.accepted_append, Multiset.map_add, hrest, List.flatten_cons,
      ← Multiset.coe_add]
    exact congrArg (· + _) hfirst

/-- What was asked for has been called or is still to be called. -/
theorem calls_conserved {s₀ s : Core H} {ls : List Lbl} {cs : List (List (Call H))} (h₀ : Init s₀)
    (hr : (lts H).run s₀ ls = some s) (hls : List.Forall₂ (Asks s₀.predefActList) ls cs) :
    (Pool.performed ((lts H).trace events s₀ ls)).map Job.call + (pending s).map Job.call =
      cs.flatten := by
  obtain ⟨p, hinit, hstands⟩ := (simulates H).init s₀ h₀
  obtain rfl : p = 0 := hinit
  obtain ⟨p', ⟨-, rfl⟩, hcons⟩ := (simulates H).conserved hstands hr
  have hcalls := calls_run (inv_init h₀) rfl hls hr
  rw [zero_add] at hcons
  rwa [hcons, Multiset.map_add] at hcalls

/-- **From the message to the handler.** Take any run of connections that each
bring a whole message, of requests the daemon makes itself and of steps of its
main loop, in any order. What the handlers have been called for and what they
are still to be called for is what the messages and requests ask for, each as
often and with the bytes that were sent; and between two callbacks with an
empty pipe, nothing is still to come. -/
theorem served_exactly (H : Type) (s₀ s : Core H) (ls : List Lbl) (cs : List (List (Call H)))
    (h₀ : Init s₀) (hr : (lts H).run s₀ ls = some s)
    (hls : List.Forall₂ (Asks s₀.predefActList) ls cs) :
    (Pool.performed ((lts H).trace events s₀ ls)).map Job.call + (pending s).map Job.call =
      cs.flatten ∧
    (s.pc = .idle → s.pipe = [] →
      (Pool.performed ((lts H).trace events s₀ ls)).map Job.call = cs.flatten) := by
  have hcalls := calls_conserved h₀ hr hls
  refine ⟨hcalls, fun hpc hpipe => ?_⟩
  obtain ⟨p, -, hstands⟩ := (simulates H).init s₀ h₀
  obtain ⟨p', hstands', -⟩ := (simulates H).conserved hstands hr
  rwa [pending_settled hstands'.1 hpc hpipe, Multiset.map_zero, add_zero] at hcalls

theorem whole_small : Whole smallMsg allOk zeroMem .both (conn smallMsg.encode) where
  frame := ⟨rfl, rfl, rfl⟩
  pieces := by
    have hp : Pieces (conn smallMsg.encode).evs (smallMsg.encode ++ []) :=
      pieces_conn (show smallMsg.encode ≠ [] by decide)
    rwa [List.append_nil] at hp
  reads := by decide
  blocks _ _ := rfl
  lens w hw := by
    rcases List.mem_cons.mp hw with rfl | hw
    · decide
    · rw [List.mem_singleton.mp hw]
      decide
  entry := rfl

/-- `smallMsg` on a connection, and the main loop until it is at rest. -/
def smallRun : List Lbl := [.connect allOk zeroMem .both (conn smallMsg.encode), .core .deliver,
  .core .visit, .core (.ret 0 false), .core .visit, .core .deliver]

theorem served_small : ∃ s, (lts Unit).run (boot [anAction "a"]) smallRun = some s ∧
    s.pc = .idle ∧ s.pipe = [] ∧
    (Pool.performed ((lts Unit).trace events (boot [anAction "a"]) smallRun)).map Job.call =
      {⟨(), []⟩} := by
  obtain ⟨s, hs⟩ := Option.isSome_iff_exists.mp
    (show ((lts Unit).run (boot [anAction "a"]) smallRun).isSome from rfl)
  have hend : ((lts Unit).run (boot [anAction "a"]) smallRun).map (fun s => (s.pc, s.pipe)) =
    some (.idle, []) := rfl
  rw [hs, Option.map_some, Option.some.injEq, Prod.mk.injEq] at hend
  refine ⟨s, hs, hend.1, hend.2, ?_⟩
  refine (served_exactly Unit _ s smallRun [[⟨(), []⟩], [], [], [], [], []] (init_boot _) hs ?_).2
    hend.1 hend.2
  have hcalled : called [anAction "a"] smallMsg = some ⟨(), []⟩ := rfl
  refine .cons ?_ (.cons (.own _ id) (.cons (.own _ id) (.cons (.own _ id) (.cons (.own _ id)
    (.cons (.own _ id) .nil)))))
  have hmsg : Asks [anAction "a"] _ (called [anAction "a"] smallMsg).toList :=
    Asks.message smallMsg allOk zeroMem .both (conn smallMsg.encode) whole_small
  rwa [hcalled] at hmsg

end SystemServer.L3.EndToEnd
