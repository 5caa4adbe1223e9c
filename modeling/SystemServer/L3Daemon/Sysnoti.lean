import SystemServer.L1Wire.Fragment
import SystemServer.L1Wire.Readings
import SystemServer.L2Queue.RunQueue

/-!
# Serving a client connection (`ss_sysnoti.c`)

`sysnoti_cb` accepts a connection, decodes one request with `read_message`,
prints it, checks the argument count and calls the action.

* `Frame` holds the outcomes of the calls before the request is read; where
  one of them fails, nothing is read and nothing is replied.
* `argv_bounded_iff`: the check comes after the loops of `read_message` and
  `print_sysnoti_msg`, so it is too late for a request it would refuse: the
  argument vector stays in bounds exactly when the stream can be taken for no
  header (`Taken`) whose count is above `SYSMAN_MAXARG`.
* `incomplete_rejected_iff`: `read_message` returns 0 whatever the `read`s
  did, so an incomplete request is sure to be refused exactly when every
  header the stream can be taken for is refused anyway.
* `sysnotiCb_step`: to the run queue, a connection is one request or nothing.
* `reply_iff`: what `ss_run_queue_add` returns is ignored, so the reply tells
  whether the request was queued exactly when there was memory for its entry
  and the node of it, or none was to be made.
-/
namespace SystemServer.L3.Sysnoti

open SystemServer.L1.Recv SystemServer.L1.Fragment SystemServer.L1.Readings
open SystemServer.L2.RunQueue

variable {H : Type}

/-- mirrors ss_sysnoti.c:30-33 -/
def ADD_SYSMAN_ACTION : Int := 0
def CALL_SYSMAN_ACTION : Int := 1

/-- The blocks `free` gives back. -/
def free (p : CPtr) : List Nat := (p.map Str.obj).toList

/-- mirrors ss_sysnoti.c:145-149 -/
def internalFree (str : CPtr) : List Nat := if str = none then free str else []

/-- mirrors ss_sysnoti.c:151-156 -/
def freeMessage (msg : Sysnoti) (s : Core H) : Core H :=
  { s with freed := s.freed ++ internalFree msg.type ++ internalFree msg.path }

/-- `n` rounds of a loop over `msg->argv`. -/
def Conn.touchFirst (n : Nat) (c : Conn) : Conn := { c with touched := c.touched ++ List.range n }

/-- Prints every argument.
mirrors ss_sysnoti.c:35-52 -/
def printSysnotiMsg (msg : Sysnoti) (c : Conn) : Conn := Conn.touchFirst msg.argc.toNat c

/-- `ss_run_queue_add` copies the arguments to the entry, node or not.
mirrors ss_queue.c:212-213 -/
def copyArgs (called : Bool) (msg : Sysnoti) (c : Conn) : Conn :=
  if called then Conn.touchFirst msg.argc.toNat c else c

/-- The outcomes of `ecore_main_fd_handler_active_get`, of the `malloc` of
the message and of `accept`. -/
structure Frame where
  active : Bool
  msgMem : Bool
  accepted : Bool

def Frame.Ok (f : Frame) : Prop := f.active = true ∧ f.msgMem = true ∧ f.accepted = true

instance (f : Frame) : Decidable f.Ok := inferInstanceAs (Decidable (_ ∧ _))

structure Served (H : Type) where
  core : Core H
  /-- the int written to the client -/
  reply : Option Int

/-- The entry that is called for a message, if there is one. -/
def calledEntry (msg : Sysnoti) (s : Core H) : Option (ActionEntry H) :=
  match ssActionEntryFind msg.type s.predefActList with
  | some (some d) => if Denied d msg.pid then none else some d
  | _ => none

/-- From the decoded message on; `none` is undefined behaviour.
mirrors ss_sysnoti.c:199-221 -/
def handleMessage (mem : AddMem) (msg : Sysnoti) (c : Conn) (s : Core H) :
    Option (Served H) × Conn :=
  let c := printSysnotiMsg msg c
  if msg.argc > SYSMAN_MAXARG then (some ⟨freeMessage msg s, some (-1)⟩, c)
  else if msg.cmd = CALL_SYSMAN_ACTION then
    ((ssActionEntryCall mem msg msg.argc msg.argv s).map fun r => ⟨freeMessage msg r.2, some r.1⟩,
      copyArgs ((calledEntry msg s).isSome && mem != .noEntry) msg c)
  else (some ⟨freeMessage msg s, some (-1)⟩, c)

/-- The branch for `read_message(..) < 0` is left out: it never returns a
negative value.
mirrors ss_sysnoti.c:158-221 -/
def sysnotiCb (f : Frame) (M : Mem) (mem : AddMem) (c : Conn) (s : Core H) :
    Option (Served H) × Conn :=
  if f.Ok then
    let r := readMessage M c
    match r.1 with
    | none => (none, r.2)
    | some msg => handleMessage mem msg r.2 s
  else (some ⟨s, none⟩, c)

/-! ## The argument vector -/

/-- Every index of `msg->argv` that was used is one of the array's. -/
def InBounds (c : Conn) : Prop := ∀ i ∈ c.touched, i < SYSMAN_MAXARG

/-- The argument count as it stands in the message when the loop over the
arguments begins. -/
abbrev announced (M : Mem) (c : Conn) : Int := (readHeader M c).1.argc

theorem inBounds_touchFirst {c : Conn} (h : InBounds c) {n : Nat} (hn : n ≤ SYSMAN_MAXARG) :
    InBounds (Conn.touchFirst n c) := by
  intro i hi
  rcases List.mem_append.mp hi with hi | hi
  · exact h i hi
  · exact Nat.lt_of_lt_of_le (List.mem_range.mp hi) hn

theorem readMessage_touched (M : Mem) (c : Conn) : (readMessage M c).2.touched =
    c.touched ++ List.range (min (announced M c).toNat (SYSMAN_MAXARG + 1)) := by
  simp only [readMessage, readArgs_touched M _ 0 _ (Nat.zero_le _), readHeader_touched, announced,
    List.range_eq_range', Nat.sub_zero]

/-- A count past the array: the loop stores to index `SYSMAN_MAXARG`. -/
theorem readMessage_overrun {M : Mem} {c : Conn} (h : ¬ announced M c ≤ SYSMAN_MAXARG) :
    (readMessage M c).1 = none ∧ SYSMAN_MAXARG ∈ (readMessage M c).2.touched := by
  constructor
  · cases hr : (readMessage M c).1 with
    | none => rfl
    | some msg =>
      obtain ⟨hle, -, heq⟩ := readMessage_argc hr
      have hargc : msg.argc = announced M c := by rw [heq]
      rw [hargc] at hle; exact absurd hle h
  · rw [readMessage_touched]
    refine List.mem_append_right _ (List.mem_range.mpr ?_)
    simp only [SYSMAN_MAXARG] at h ⊢; omega

/-- A count the array holds: a message is read. -/
theorem readMessage_fits {M : Mem} {c : Conn} (h : announced M c ≤ SYSMAN_MAXARG) :
    ∃ argv, (readMessage M c).1 = some { (readHeader M c).1 with argv := argv } := by
  have hn : 0 + (announced M c).toNat ≤ SYSMAN_MAXARG := by
    simp only [SYSMAN_MAXARG] at h ⊢; omega
  have hs := (readArgs_isSome M _ 0 (readHeader M c).2 (Nat.zero_le _)).mpr hn
  obtain ⟨argv, hargv⟩ := Option.isSome_iff_exists.mp hs
  refine ⟨argv, ?_⟩
  simp only [readMessage]
  rw [show (readHeader M c).1.argc = announced M c from rfl, hargv]
  rfl

theorem handleMessage_inBounds {mem : AddMem} {msg : Sysnoti} {c : Conn} (s : Core H)
    (h : InBounds c) (hle : msg.argc ≤ SYSMAN_MAXARG) : InBounds (handleMessage mem msg c s).2 := by
  have hn : msg.argc.toNat ≤ SYSMAN_MAXARG := by simp only [SYSMAN_MAXARG] at hle ⊢; omega
  have hp : InBounds (printSysnotiMsg msg c) := inBounds_touchFirst h hn
  simp only [handleMessage]
  split
  · exact hp
  split
  · simp only [copyArgs]
    split
    · exact inBounds_touchFirst hp hn
    · exact hp
  · exact hp

/-- Every use of `msg->argv` is in bounds, and a request that announces too
many arguments is answered with -1 and changes nothing. -/
def Bounded (f : Frame) (M : Mem) (mem : AddMem) (c : Conn) (s : Core H) : Prop :=
  InBounds (sysnotiCb f M mem c s).2 ∧
    (announced M c > SYSMAN_MAXARG →
      ∃ out, (sysnotiCb f M mem c s).1 = some out ∧ out.reply = some (-1) ∧
        out.core.predefActList = s.predefActList ∧ out.core.runQueue = s.runQueue)

theorem bounded_iff {f : Frame} (hf : f.Ok) (M : Mem) (mem : AddMem) {c : Conn} (s : Core H)
    (hc : c.touched = []) : Bounded f M mem c s ↔ announced M c ≤ SYSMAN_MAXARG := by
  simp only [Bounded, sysnotiCb, if_pos hf]
  constructor
  · rintro ⟨hin, -⟩
    by_contra hgt
    obtain ⟨hnone, hmem⟩ := readMessage_overrun hgt
    simp only [hnone] at hin
    exact Nat.lt_irrefl _ (hin _ hmem)
  · intro hle
    refine ⟨?_, fun hgt => absurd hle (by omega)⟩
    obtain ⟨argv, hmsg⟩ := readMessage_fits hle
    simp only [hmsg]
    refine handleMessage_inBounds s ?_ (by simpa only [announced] using hle)
    intro i hi
    rw [readMessage_touched, hc, List.nil_append] at hi
    have := List.mem_range.mp hi
    simp only [SYSMAN_MAXARG] at this hle ⊢; omega

/-- **The argument vector.** On an accepted connection, whatever memory
holds, every use of `msg->argv` is in bounds and every request that announces
too many arguments is answered with -1 and changes nothing, if and only if
the stream can be taken for no request that announces too many. -/
theorem argv_bounded_iff (f : Frame) (al : Nat → Bool) (mem : AddMem) (c : Conn) (s : Core H)
    (hf : f.Ok) (hc : c.touched = []) :
    (∀ st bl, Bounded f ⟨st, bl, al⟩ mem c s) ↔
      ∀ h, Taken al c.evs c.heap h → h.argc ≤ SYSMAN_MAXARG := by
  rw [← taken_iff al c fun h => h.argc ≤ SYSMAN_MAXARG]
  simp only [headerOf_argc, bounded_iff hf _ mem s hc, announced]

/-- Memory that holds zeros, and a `malloc` that never fails. -/
def zeroMem : Mem := ⟨fun _ _ => 0, fun _ _ => 0, fun _ => true⟩

def conn (bs : Bytes) : Conn := ⟨[.data bs], 0, 0, []⟩

def allOk : Frame := ⟨true, true, true⟩

/-- The header of `smallMsg` in one piece. -/
def smallHeader : Bytes := (smallMsg.header.flatMap Item.fields).flatten

theorem pieces_conn {bs : Bytes} (h : bs ≠ []) : Pieces (conn bs).evs (bs ++ []) := by
  refine ⟨fun e he => ?_, rfl⟩
  rw [List.mem_singleton.mp he]
  exact ⟨nofun, fun hd => h (Rd.data.inj hd)⟩

theorem granted_small : Granted zeroMem.alloc smallMsg.header 0 :=
  ⟨⟨rfl, by decide⟩, ⟨rfl, by decide⟩, trivial⟩

theorem argv_bounded_small :
    Bounded allOk zeroMem .both (conn smallHeader) (boot [anAction "a"]) := by
  refine (argv_bounded_iff allOk zeroMem.alloc .both (conn smallHeader) (boot [anAction "a"])
    ⟨rfl, rfl, rfl⟩ rfl).mpr ?_ zeroMem.stack zeroMem.block
  refine (taken_iff _ _ _).mp fun st bl => ?_
  have h := readHeader_whole smallMsg zeroMem.alloc (c := conn smallHeader) (pieces_conn (by decide))
    (by decide) granted_small st bl
  rw [headerOf_argc, h.2.2]
  decide

/-- A request for "a" with path "b" and seventeen arguments "x". -/
def seventeen : Bytes :=
  intBytes 7 ++ intBytes 1 ++ intBytes 1 ++ lit "a" ++ intBytes 1 ++ lit "b" ++ intBytes 17 ++
    (List.replicate 17 (intBytes 1 ++ lit "x")).flatten

/-- The seventeenth argument is stored past the array. -/
theorem argv_overrun : announced zeroMem (conn seventeen) = 17 ∧
    (sysnotiCb allOk zeroMem .both (conn seventeen) (boot [anAction "a"])).1.isNone ∧
    ¬ InBounds (sysnotiCb allOk zeroMem .both (conn seventeen) (boot [anAction "a"])).2 := by
  have h17 : announced zeroMem (conn seventeen) = 17 := by decide
  obtain ⟨hnone, hmem⟩ := readMessage_overrun (M := zeroMem) (c := conn seventeen)
    (by rw [h17]; decide)
  simp only [sysnotiCb, if_pos (show allOk.Ok from ⟨rfl, rfl, rfl⟩), hnone]
  exact ⟨h17, rfl, fun h => Nat.lt_irrefl _ (h _ hmem)⟩

/-! ## Incomplete requests -/

/-- The bytes that arrive before the stream ends or fails. -/
def delivered : List Rd → Bytes
  | [] => []
  | .eintr :: es => delivered es
  | .err :: _ => []
  | .data bs :: es => if bs = [] then [] else bs ++ delivered es

/-- What follows an int. -/
def skipInt (bs : Bytes) : Option (Int × Bytes) :=
  if 4 ≤ bs.length then some (intOf (bs.take 4), bs.drop 4) else none

/-- What follows a string: its length, then that many bytes. -/
def skipStr (bs : Bytes) : Option Bytes :=
  (skipInt bs).bind fun (len, bs) => if len.toNat ≤ bs.length then some (bs.drop len.toNat) else none

def skipStrs : Nat → Bytes → Option Bytes
  | 0, bs => some bs
  | n + 1, bs => (skipStr bs).bind (skipStrs n)

/-- What follows a request: pid, cmd, type, path, argc, the arguments. -/
def skipMessage (bs : Bytes) : Option Bytes :=
  (skipInt bs).bind fun (_, bs) => (skipInt bs).bind fun (_, bs) => (skipStr bs).bind fun bs =>
    (skipStr bs).bind fun bs => (skipInt bs).bind fun (argc, bs) => skipStrs argc.toNat bs

/-- The stream ends or fails before a whole request has arrived. -/
def Incomplete (es : List Rd) : Prop := skipMessage (delivered es) = none

instance (es : List Rd) : Decidable (Incomplete es) := inferInstanceAs (Decidable (_ = _))

theorem skipInt_intBytes {v : Int} (h : IsInt v) (rest : Bytes) :
    skipInt (intBytes v ++ rest) = some (v, rest) := by
  have htake : (intBytes v ++ rest).take 4 = intBytes v := List.take_left' (intBytes_length v)
  have hdrop : (intBytes v ++ rest).drop 4 = rest := List.drop_left' (intBytes_length v)
  have hlen : 4 ≤ (intBytes v ++ rest).length := by simp
  rw [skipInt, if_pos hlen, htake, hdrop, intOf_intBytes h]

theorem skipStr_encode (w : WStr) (rest : Bytes) :
    skipStr (intBytes w.bytes.length ++ (w.bytes ++ rest)) = some rest := by
  have hlen : w.bytes.length ≤ (w.bytes ++ rest).length := by simp
  simp only [skipStr, skipInt_intBytes w.isInt, Option.bind_some, Int.toNat_natCast, if_pos hlen,
    List.drop_left]

theorem skipStrs_encode (ws : List WStr) (rest : Bytes) :
    skipStrs ws.length (((ws.map Item.str).flatMap Item.fields).flatten ++ rest) = some rest := by
  induction ws with
  | nil => rfl
  | cons w ws ih =>
    simp only [List.length_cons, skipStrs, List.map_cons, List.flatMap_cons, Item.fields,
      List.cons_append, List.nil_append, List.flatten_cons, List.append_assoc, skipStr_encode,
      Option.bind_some, ih]

/-- A request that arrives in full, in whatever pieces, is not incomplete. -/
theorem not_incomplete {es : List Rd} {m : WireMsg} (h : Pieces es m.encode) : ¬ Incomplete es := by
  have hdel : delivered es = payload es := by
    obtain ⟨hall, -⟩ := h
    induction es with
    | nil => rfl
    | cons e es ih =>
      have ih := ih fun e he => hall e (List.mem_cons_of_mem _ he)
      cases e with
      | eintr => exact ih
      | err => exact absurd rfl (hall _ List.mem_cons_self).1
      | data bs =>
        have hbs : bs ≠ [] := by rintro rfl; exact (hall _ List.mem_cons_self).2 rfl
        simp only [delivered, payload, if_neg hbs, ih]
  have hskip : skipMessage (m.encode ++ []) = some [] := by
    have := skipStrs_encode m.args []
    simp only [WireMsg.encode, WireMsg.fields, WireMsg.items, List.cons_append, List.nil_append,
      List.flatMap_cons, Item.fields, List.flatten_cons, skipMessage, List.append_assoc,
      skipInt_intBytes m.pidInt, skipInt_intBytes m.cmdInt, skipInt_intBytes m.argsInt,
      skipStr_encode, Option.bind_some, Int.toNat_natCast]
    exact this
  rw [List.append_nil] at hskip
  rw [Incomplete, hdel, h.2, hskip]
  exact Option.some_ne_none _

/-- The reply is -1 and the run queue is as before. -/
def Rejected (r : Option (Served H)) (s : Core H) : Prop :=
  ∃ out, r = some out ∧ out.reply = some (-1) ∧ out.core.runQueue = s.runQueue

/-- No action has the type, or the action refuses the caller. A NULL type is
handed to `strcmp` unless there is no action at all. -/
def NoAction (type : Option Bytes) (pid : Int) (s : Core H) : Prop :=
  ∃ r, ssActionEntryFind (type.map (Str.mk 0)) s.predefActList = some r ∧ ∀ d, r = some d → Denied d pid

/-- A header `sysnoti_cb` turns down, whatever stream it came from. -/
def TurnedDown (h : Header) (s : Core H) : Prop :=
  h.argc ≤ SYSMAN_MAXARG ∧ (h.cmd = CALL_SYSMAN_ACTION → NoAction h.type h.pid s)

/-- Where a string is plays no part. -/
theorem find_bytes (type : CPtr) (acts : List (ActionEntry H)) :
    ssActionEntryFind ((type.map Str.bytes).map (Str.mk 0)) acts = ssActionEntryFind type acts := by
  induction acts with
  | nil => rfl
  | cons d acts ih =>
    unfold ssActionEntryFind
    rw [ih]
    cases type with
    | none => rfl
    | some str => rfl

theorem call_rejected_iff (mem : AddMem) (msg : Sysnoti) (s : Core H) :
    Rejected ((ssActionEntryCall mem msg msg.argc msg.argv s).map fun r =>
      (⟨freeMessage msg r.2, some r.1⟩ : Served H)) s ↔
        NoAction (msg.type.map Str.bytes) msg.pid s := by
  simp only [NoAction, find_bytes]
  have hd := call_dispatched mem msg s
  generalize ssActionEntryCall mem msg msg.argc msg.argv s = o at hd ⊢
  cases hd with
  | crash htype hacts => simp [Rejected, find_eq_none.mpr ⟨htype, hacts⟩]
  | refused found hfind hnone =>
    exact iff_of_true ⟨_, rfl, rfl, rfl⟩ ⟨found, hfind, hnone⟩
  | lost d hfind hdenied | entry d hfind hdenied => simp [Rejected, hfind, hdenied]

theorem handleMessage_rejected_iff {mem : AddMem} {msg : Sysnoti} {c : Conn} {s : Core H}
    (hle : msg.argc ≤ SYSMAN_MAXARG) :
    Rejected (handleMessage mem msg c s).1 s ↔ TurnedDown (headerOf msg) s := by
  simp only [handleMessage, if_neg (Int.not_lt.mpr hle), TurnedDown, headerOf, hle, true_and]
  split
  · rename_i hcmd
    rw [call_rejected_iff]
    exact ⟨fun h _ => h, fun h => h hcmd⟩
  · rename_i hcmd
    refine ⟨fun _ h => absurd h hcmd, fun _ => ⟨_, rfl, rfl, rfl⟩⟩

/-- The arguments play no part. -/
theorem served_rejected_iff {f : Frame} (hf : f.Ok) (M : Mem) (mem : AddMem) (c : Conn) (s : Core H) :
    Rejected (sysnotiCb f M mem c s).1 s ↔ TurnedDown (headerOf (readHeader M c).1) s := by
  simp only [sysnotiCb, if_pos hf]
  by_cases hle : announced M c ≤ SYSMAN_MAXARG
  · obtain ⟨argv, hmsg⟩ := readMessage_fits hle
    simp only [hmsg]
    rw [handleMessage_rejected_iff (by simpa only [announced] using hle), headerOf_argv]
  · rw [(readMessage_overrun hle).1]
    constructor
    · rintro ⟨out, hout, -⟩; cases hout
    · exact fun h => absurd h.1 hle

/-- **Incomplete requests.** An accepted connection whose stream ends or
fails within the request is answered with -1, nothing queued, whatever memory
holds, if and only if every header the stream can be taken for is one that is
turned down anyway. -/
theorem incomplete_rejected_iff (f : Frame) (al : Nat → Bool) (mem : AddMem) (c : Conn) (s : Core H)
    (hf : f.Ok) (_ : Incomplete c.evs) :
    (∀ st bl, Rejected (sysnotiCb f ⟨st, bl, al⟩ mem c s).1 s) ↔
      ∀ h, Taken al c.evs c.heap h → TurnedDown h s := by
  rw [← taken_iff al c fun h => TurnedDown h s]
  simp only [served_rejected_iff hf]

/-- A request of the command that is not served, with one argument. -/
def addMsg : WireMsg :=
  { smallMsg with
    cmd := ADD_SYSMAN_ACTION
    cmdInt := ⟨by decide, by decide⟩
    args := [smallMsg.type]
    argsLe := by decide }

/-- Its header, and no more. -/
def addHeader : Bytes := (addMsg.header.flatMap Item.fields).flatten

theorem incomplete_rejected_add :
    Rejected (sysnotiCb allOk zeroMem .both (conn addHeader) (boot [anAction "a"])).1
      (boot [anAction "a"]) := by
  refine (incomplete_rejected_iff allOk zeroMem.alloc .both (conn addHeader) (boot [anAction "a"])
    ⟨rfl, rfl, rfl⟩ (by decide)).mpr ?_ zeroMem.stack zeroMem.block
  refine (taken_iff _ _ _).mp fun st bl => ?_
  have h := readHeader_whole addMsg zeroMem.alloc (c := conn addHeader) (pieces_conn (by decide))
    (by decide) granted_small st bl
  unfold TurnedDown
  rw [headerOf_argc, headerOf_cmd, h.2.1, h.2.2]
  exact ⟨by decide, fun hcmd => absurd hcmd (by decide)⟩

/-- A call of "reboot", closed before the argument count. -/
def noCount : Bytes := intBytes 7 ++ intBytes 1 ++ intBytes 6 ++ lit "reboot" ++ intBytes 1 ++ lit "p"

/-- The count is taken from leftover memory, which holds 0: the call is
accepted. -/
theorem incomplete_accepted : Incomplete (conn noCount).evs ∧
    ((sysnotiCb allOk zeroMem .both (conn noCount) (boot [anAction "reboot"])).1.map fun out =>
      (out.reply, out.core.runQueue.length)) = some (some 0, 1) ∧
    ¬ Rejected (sysnotiCb allOk zeroMem .both (conn noCount) (boot [anAction "reboot"])).1
      (boot [anAction "reboot"]) := by
  refine ⟨by decide, rfl, ?_⟩
  rintro ⟨out, hout, hreply, -⟩
  cases hout
  cases hreply

/-! ## The connection as a step of the run queue -/

/-- `internal_free` frees NULL pointers only. -/
theorem freeMessage_eq (msg : Sysnoti) (s : Core H) : freeMessage msg s = s := by
  cases ht : msg.type <;> cases hp : msg.path <;>
    simp [freeMessage, internalFree, free, ht, hp]

/-- To the run queue a connection is a request, or nothing; what is traced,
replied and freed around it leaves the queue alone. -/
theorem sysnotiCb_step {f : Frame} {M : Mem} {mem : AddMem} {c : Conn} {s : Core H} {out : Served H}
    (hs : s.pc = .idle) (h : (sysnotiCb f M mem c s).1 = some out) :
    out.core = s ∨ ∃ msg, (readMessage M c).1 = some msg ∧
      step s (.call mem msg) = some out.core := by
  simp only [sysnotiCb] at h
  split at h
  · cases hmsg : (readMessage M c).1 with
    | none => rw [hmsg] at h; cases h
    | some msg =>
      rw [hmsg] at h
      simp only [handleMessage, freeMessage_eq] at h
      split at h
      · cases h; exact .inl rfl
      split at h
      · obtain ⟨r, hr, rfl⟩ := Option.map_eq_some_iff.mp h
        exact .inr ⟨msg, rfl, by simp [step, hs, hr]⟩
      · cases h; exact .inl rfl
  · cases h; exact .inl rfl

/-! ## The reply -/

/-- One entry more: it is to be run, for the action the message names, with the
arguments of the message. -/
def Queued (msg : Sysnoti) (s s' : Core H) : Prop :=
  ∃ id d, ssActionEntryFind msg.type s.predefActList = some (some d) ∧
    s'.runQueue = ⟨id, .INIT, d, 0, msg.argc, msg.argv⟩ :: s.runQueue

/-- The reply is 0 exactly when the request was queued, and else it is -1 and
the queue is as before. -/
def Truthful (msg : Sysnoti) (s : Core H) (out : Served H) : Prop :=
  (out.reply = some 0 ↔ Queued msg s out.core) ∧
    (¬ Queued msg s out.core → out.reply = some (-1) ∧ out.core.runQueue = s.runQueue)

/-- No NULL type is compared, and where an entry is to be made there is memory
for it and for its node. -/
def Provided (mem : AddMem) (msg : Sysnoti) (s : Core H) : Prop :=
  (msg.type = none → s.predefActList = []) ∧
    ∀ d, ssActionEntryFind msg.type s.predefActList = some (some d) → ¬ Denied d msg.pid → mem = .both

/-- A queue is not longer than itself. -/
theorem not_queued {msg : Sysnoti} {s s' : Core H} (h : s'.runQueue = s.runQueue) :
    ¬ Queued msg s s' := by
  intro hq
  obtain ⟨id, d, -, hcons⟩ := hq
  have hlen := congrArg List.length (h.symm.trans hcons)
  rw [List.length_cons] at hlen
  omega

theorem call_truthful_iff {mem : AddMem} {msg : Sysnoti} {s : Core H}
    (hargv : msg.argv.length = msg.argc.toNat) :
    (∃ r, ssActionEntryCall mem msg msg.argc msg.argv s = some r ∧
      Truthful msg s ⟨r.2, some r.1⟩) ↔ Provided mem msg s := by
  have hd := call_dispatched mem msg s
  generalize ssActionEntryCall mem msg msg.argc msg.argv s = o at hd ⊢
  cases hd with
  | crash htype hacts =>
    refine iff_of_false (fun h => ?_) fun h => hacts (h.1 htype)
    obtain ⟨r, hr, -⟩ := h
    cases hr
  | refused found hfind hnone =>
    have hnot : ¬ Queued msg s s := not_queued rfl
    refine iff_of_true ⟨_, rfl, ?_, fun _ => ⟨rfl, rfl⟩⟩ ⟨type_of_found hfind, ?_⟩
    · exact iff_of_false (by simp) hnot
    · intro d hfound hdenied
      exact absurd (hnone d (Option.some.inj (hfind.symm.trans hfound))) hdenied
  | lost d hfind hdenied hmem =>
    refine iff_of_false (fun h => ?_) fun h => ?_
    · obtain ⟨r, hr, hreply, -⟩ := h
      obtain rfl := Option.some.inj hr
      exact not_queued rfl (hreply.mp rfl)
    · exact absurd (h.2 d hfind hdenied) hmem
  | entry d hfind hdenied hmem =>
    have hqueued : Queued msg s (added d msg.argc msg.argv s) := by
      refine ⟨s.nextId, d, hfind, ?_⟩
      simp only [added, ssRunQueueAdd, ssCoreActionRun, ← hargv, List.take_length]
    refine iff_of_true ⟨_, rfl, iff_of_true rfl hqueued, fun hnot => absurd hqueued hnot⟩ ?_
    exact ⟨type_of_found hfind, fun _ _ _ => hmem⟩

/-- **Reply equals effect.** A decoded call is answered with 0 exactly when one
entry to be run, with its action and its arguments, was put on the queue, and
with -1 and the queue as it was otherwise, if and only if its type is there
(or no action is registered) and there was memory for the entry and for its
node on the queue, if one was to be made. -/
theorem reply_iff (f : Frame) (M : Mem) (mem : AddMem) (c : Conn) (s : Core H) (msg : Sysnoti)
    (hf : f.Ok) (hmsg : (readMessage M c).1 = some msg) (hcmd : msg.cmd = CALL_SYSMAN_ACTION) :
    (∃ out, (sysnotiCb f M mem c s).1 = some out ∧ Truthful msg s out) ↔ Provided mem msg s := by
  obtain ⟨hle, hargv, -⟩ := readMessage_argc hmsg
  rw [← call_truthful_iff hargv]
  simp only [sysnotiCb, if_pos hf, hmsg, handleMessage, if_neg (Int.not_lt.mpr hle), if_pos hcmd,
    freeMessage_eq, Option.map_eq_some_iff]
  constructor
  · intro h
    obtain ⟨out, ⟨r, hr, hout⟩, ht⟩ := h
    exact ⟨r, hr, hout ▸ ht⟩
  · intro h
    obtain ⟨r, hr, ht⟩ := h
    exact ⟨_, ⟨r, hr, rfl⟩, ht⟩

/-- A call of "a" with the argument "x". -/
def callA : Bytes :=
  intBytes 7 ++ intBytes 1 ++ intBytes 1 ++ lit "a" ++ intBytes 1 ++ lit "b" ++ intBytes 1 ++
    intBytes 1 ++ lit "x"

theorem reply_callA : ∃ msg, (readMessage zeroMem (conn callA)).1 = some msg ∧
    ∃ out, (sysnotiCb allOk zeroMem .both (conn callA) (boot [anAction "a"])).1 = some out ∧
      Truthful msg (boot [anAction "a"]) out := by
  refine ⟨⟨7, 1, some ⟨0, lit "a"⟩, some ⟨1, lit "b"⟩, 1, [some ⟨2, lit "x"⟩]⟩, by decide, ?_⟩
  exact (reply_iff allOk zeroMem .both (conn callA) (boot [anAction "a"]) _ ⟨rfl, rfl, rfl⟩
    (by decide) rfl).mpr ⟨nofun, fun _ _ _ => rfl⟩

/-- Without memory for the entry the reply is 0 all the same, and so it is
without a node for it. -/
theorem reply_lost : ∃ msg, (readMessage zeroMem (conn callA)).1 = some msg ∧
    msg.cmd = CALL_SYSMAN_ACTION ∧ ∀ mem ∈ [AddMem.noEntry, AddMem.noNode],
      ((sysnotiCb allOk zeroMem mem (conn callA) (boot [anAction "a"])).1.map fun out =>
        (out.reply, out.core.runQueue.length)) = some (some 0, 0) ∧
      ¬ ∃ out, (sysnotiCb allOk zeroMem mem (conn callA) (boot [anAction "a"])).1 = some out ∧
        Truthful msg (boot [anAction "a"]) out := by
  have hlost : ∀ (msg : Sysnoti) (c : Core Unit), c.runQueue = [] →
      ¬ ∃ out, some ⟨c, some 0⟩ = some out ∧ Truthful msg (boot [anAction "a"]) out := by
    intro msg c hc h
    obtain ⟨out, hout, ht⟩ := h
    obtain rfl := Option.some.inj hout
    exact not_queued hc (ht.1.mp rfl)
  refine ⟨⟨7, 1, some ⟨0, lit "a"⟩, some ⟨1, lit "b"⟩, 1, [some ⟨2, lit "x"⟩]⟩, by decide, rfl,
    fun mem hmem => ?_⟩
  simp only [List.mem_cons, List.not_mem_nil, or_false] at hmem
  rcases hmem with rfl | rfl
  · exact ⟨rfl, hlost _ _ rfl⟩
  · exact ⟨rfl, hlost _ _ rfl⟩

end SystemServer.L3.Sysnoti
