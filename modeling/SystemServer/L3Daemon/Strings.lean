import Mathlib.Data.List.Perm.Subperm
import SystemServer.L2Queue.ExactlyOnce
import SystemServer.L3Daemon.Sysnoti

/-!
# The strings of a request (`ss_sysnoti.c`, `ss_queue.c`)

`recv_str` gets a block for each string of a request. The arguments of an
accepted request go to its entry, and are given back with it
(`ss_run_queue_del_bypid`); the type and the path stay with the message, and
so do the arguments of a request that is turned down. `internal_free` gives
back NULL pointers only, `free_message` does not look at the arguments.

* `Ledger`: what entries hold and what was given back are different blocks of
  those allocated, so none is given back twice.
* `released_iff`: after every connection the blocks not yet given back are
  those that entries hold, if and only if no connection brings a string.

Blocks are numbered over all connections (`Conn.heap`), those of the `malloc`s
that failed as well.
-/
namespace SystemServer.L3.Strings

open SystemServer.L1.Recv SystemServer.L1.Fragment
open SystemServer.L2.RunQueue SystemServer.L3.Sysnoti

variable {H : Type}

structure Sys (H : Type) where
  core : Core H
  /-- `malloc`s made so far -/
  heap : Nat
  /-- the blocks `recv_str` got, oldest first -/
  allocated : List Nat

/-- The blocks got by the `malloc`s from `n` up to `n'`. -/
def received (M : Mem) (n n' : Nat) : List Nat := (List.range' n (n' - n)).filter M.alloc

inductive Lbl where
  /-- the main loop serves a client -/
  | connect (f : Frame) (M : Mem) (mem : AddMem) (evs : List Rd)
  | sigchld (pid : Int)
  | deliver
  | visit
  | ret (r : Int) (present : Bool)

def step (s : Sys H) : Lbl → Option (Sys H)
  | .connect f M mem evs =>
    if s.core.pc = .idle then
      let c : Conn := ⟨evs, 0, s.heap, []⟩
      let r := sysnotiCb f M mem c s.core
      r.1.map fun out => ⟨out.core, r.2.heap, s.allocated ++ received M s.heap r.2.heap⟩
    else none
  | .sigchld pid => (L2.RunQueue.step s.core (.sigchld pid)).map fun core => { s with core := core }
  | .deliver => (L2.RunQueue.step s.core .deliver).map fun core => { s with core := core }
  | .visit => (L2.RunQueue.step s.core .visit).map fun core => { s with core := core }
  | .ret r present =>
    (L2.RunQueue.step s.core (.ret r present)).map fun core => { s with core := core }

structure Init (s : Sys H) : Prop where
  core : L2.RunQueue.Init s.core
  freed : s.core.freed = []
  allocated : s.allocated = []

def lts (H : Type) : LTS (Sys H) Lbl := ⟨Init, step⟩

/-- The argument strings the entries hold. -/
def held (s : Core H) : List Nat := s.runQueue.flatMap Entry.args

/-- The strings not yet given back. -/
def unfreed (s : Sys H) : List Nat := s.allocated.filter (· ∉ s.core.freed)

def Exact (s : Sys H) : Prop := (unfreed s).Perm (held s.core)

instance (s : Sys H) : Decidable (Exact s) := inferInstanceAs (Decidable (List.Perm _ _))

/-- After a connection the strings not yet given back are those entries
hold. -/
def ServedExact (_ : Sys H) : Lbl → Sys H → Prop
  | .connect .., s' => Exact s'
  | _, _ => True

instance : ∀ (s : Sys H) l s', Decidable (ServedExact s l s')
  | _, .connect .., s' => inferInstanceAs (Decidable (Exact s'))
  | _, .sigchld _, _ => .isTrue trivial
  | _, .deliver, _ => .isTrue trivial
  | _, .visit, _ => .isTrue trivial
  | _, .ret _ _, _ => .isTrue trivial

/-- The next length on the connection is that of a string, and there is memory
for it. -/
def Brings (M : Mem) (c : Conn) : Prop :=
  0 < (recvInt M c).1 ∧ (recvInt M c).1 < INT_MAX ∧ M.alloc c.heap = true

instance (M : Mem) (c : Conn) : Decidable (Brings M c) := inferInstanceAs (Decidable (_ ∧ _))

/-- None of the next `n` lengths is. -/
def NoArgs (M : Mem) : Nat → Conn → Prop
  | 0, _ => True
  | n + 1, c => ¬ Brings M c ∧ NoArgs M n (recvStr M c).2

instance decidableNoArgs (M : Mem) : ∀ n c, Decidable (NoArgs M n c)
  | 0, _ => .isTrue trivial
  | n + 1, c =>
    have := decidableNoArgs M n (recvStr M c).2
    inferInstanceAs (Decidable (¬ Brings M c ∧ NoArgs M n (recvStr M c).2))

/-- Neither the type nor the path nor an argument is there. -/
def NoString (M : Mem) (c : Conn) : Prop :=
  let type := (recvInt M (recvInt M c).2).2
  let path := (recvStr M type).2
  let argc := recvInt M (recvStr M path).2
  ¬ Brings M type ∧ ¬ Brings M path ∧ NoArgs M argc.1.toNat argc.2

instance (M : Mem) (c : Conn) : Decidable (NoString M c) := inferInstanceAs (Decidable (_ ∧ _ ∧ _))

/-- A connection that is read brings no string. -/
def BringsNone (s : Sys H) : Lbl → Prop
  | .connect f M _ evs => f.Ok → NoString M ⟨evs, 0, s.heap, []⟩
  | _ => True

instance (s : Sys H) : ∀ l, Decidable (BringsNone s l)
  | .connect f M _ evs => inferInstanceAs (Decidable (f.Ok → NoString M ⟨evs, 0, s.heap, []⟩))
  | .sigchld _ => .isTrue trivial
  | .deliver => .isTrue trivial
  | .visit => .isTrue trivial
  | .ret _ _ => .isTrue trivial

/-! ## The blocks of a message -/

/-- The `malloc`s from `n` up to `n'` got the blocks `bs` and maybe others, and
none at all if and only if `nothing`. -/
structure Takes (M : Mem) (n n' : Nat) (bs : List Nat) (nothing : Prop) : Prop where
  le : n ≤ n'
  sub : bs.Sublist (received M n n')
  empty : received M n n' = [] ↔ nothing

theorem received_append (M : Mem) {n₁ n₂ n₃ : Nat} (h₁ : n₁ ≤ n₂) (h₂ : n₂ ≤ n₃) :
    received M n₁ n₃ = received M n₁ n₂ ++ received M n₂ n₃ := by
  have hlen : n₃ - n₁ = (n₂ - n₁) + (n₃ - n₂) := by omega
  have hstart : n₂ = n₁ + 1 * (n₂ - n₁) := by omega
  simp only [received]
  rw [hlen, ← List.range'_append, List.filter_append, ← hstart]

@[simp] theorem received_self (M : Mem) (n : Nat) : received M n n = [] := by simp [received]

theorem Takes.none {M : Mem} {n : Nat} {p : Prop} (hp : p) : Takes M n n [] p :=
  ⟨Nat.le_refl _, List.nil_sublist _, by simp [hp]⟩

theorem Takes.append {M : Mem} {n₁ n₂ n₃ : Nat} {bs₁ bs₂ : List Nat} {p₁ p₂ : Prop}
    (h₁ : Takes M n₁ n₂ bs₁ p₁) (h₂ : Takes M n₂ n₃ bs₂ p₂) :
    Takes M n₁ n₃ (bs₁ ++ bs₂) (p₁ ∧ p₂) := by
  have hsplit := received_append M h₁.le h₂.le
  refine ⟨Nat.le_trans h₁.le h₂.le, ?_, ?_⟩
  · rw [hsplit]
    exact h₁.sub.append h₂.sub
  · rw [hsplit, List.append_eq_nil_iff, h₁.empty, h₂.empty]

theorem recvInt_heap (M : Mem) (c : Conn) : (recvInt M c).2.heap = c.heap := by
  unfold recvInt
  split <;> rfl

theorem recvInt_takes (M : Mem) (c : Conn) : Takes M c.heap (recvInt M c).2.heap [] True := by
  rw [recvInt_heap]
  exact .none trivial

/-- A body is a block exactly when there are a length and memory. -/
theorem recvBody_takes (M : Mem) (len : Int) (c : Conn) :
    Takes M c.heap (recvBody M len c).2.heap (free (recvBody M len c).1)
      (¬ (0 < len ∧ len < INT_MAX ∧ M.alloc c.heap = true)) := by
  unfold recvBody
  split
  · exact .none (by omega)
  split
  · exact .none (by omega)
  split
  · rename_i halloc
    refine ⟨Nat.le_succ _, List.nil_sublist _, ?_⟩
    simp [received, halloc]
  · rename_i hpos hmax halloc
    have hblock : received M c.heap (c.heap + 1) = [c.heap] := by simp [received, halloc]
    have hgot : 0 < len ∧ len < INT_MAX ∧ M.alloc c.heap = true :=
      ⟨by omega, by omega, by simpa using halloc⟩
    split
    -- the block is there, the string is not
    · refine ⟨Nat.le_succ _, List.nil_sublist _, ?_⟩
      simp [hblock, hgot]
    · refine ⟨Nat.le_succ _, ?_, ?_⟩
      · rw [hblock]
        exact List.Sublist.refl _
      · simp [hblock, hgot]

theorem recvStr_takes (M : Mem) (c : Conn) :
    Takes M c.heap (recvStr M c).2.heap (free (recvStr M c).1) (¬ Brings M c) := by
  unfold Brings
  cases hread : readRetry 4 c.evs with
  | mk bs es =>
    cases bs with
    | none =>
      simp only [recvStr, recvInt, hread]
      exact .none (by simp)
    | some bs =>
      simp only [recvStr, recvInt, hread]
      exact recvBody_takes M _ ⟨es, c.calls + 1, c.heap, c.touched⟩

/-- The blocks of an argument vector. -/
def argBlocks (argv : List CPtr) : List Nat := argv.filterMap (·.map Str.obj)

theorem argBlocks_cons (a : CPtr) (argv : List CPtr) :
    argBlocks (a :: argv) = free a ++ argBlocks argv := by
  cases a <;> rfl

theorem recvInt_touch (M : Mem) (c : Conn) (i : Nat) :
    (recvInt M (c.touch i)).1 = (recvInt M c).1 := by
  simp only [recvInt, Conn.touch]
  split <;> rfl

theorem noArgs_touch (M : Mem) (n : Nat) (c : Conn) (i : Nat) :
    NoArgs M n (c.touch i) ↔ NoArgs M n c := by
  induction n generalizing c with
  | zero => exact Iff.rfl
  | succ n ih =>
    simp only [NoArgs, Brings, recvStr_touch, recvInt_touch, ih]
    exact Iff.rfl

theorem readArgs_takes (M : Mem) (n i : Nat) (c : Conn) {argv : List CPtr}
    (h : (readArgs M n i c).1 = some argv) :
    Takes M c.heap (readArgs M n i c).2.heap (argBlocks argv) (NoArgs M n c) := by
  induction n generalizing i c argv with
  | zero =>
    obtain rfl := Option.some.inj h
    exact .none trivial
  | succ n ih =>
    simp only [readArgs] at h ⊢
    split at h
    · rename_i hi
      rw [if_pos hi]
      obtain ⟨argv, hargv, rfl⟩ := Option.map_eq_some_iff.mp h
      have hrest := ih (i + 1) ((recvStr M c).2.touch i) hargv
      rw [noArgs_touch] at hrest
      rw [argBlocks_cons]
      exact (recvStr_takes M c).append hrest
    · cases h

/-- The blocks of a message. -/
def blocks (msg : Sysnoti) : List Nat := free msg.type ++ (free msg.path ++ argBlocks msg.argv)

theorem readMessage_takes (M : Mem) (c : Conn) {msg : Sysnoti}
    (h : (readMessage M c).1 = some msg) :
    Takes M c.heap (readMessage M c).2.heap (blocks msg) (NoString M c) := by
  simp only [readMessage, readHeader] at h ⊢
  obtain ⟨argv, hargv, rfl⟩ := Option.map_eq_some_iff.mp h
  have hpid := recvInt_takes M c
  have hcmd := recvInt_takes M (recvInt M c).2
  have htype := recvStr_takes M (recvInt M (recvInt M c).2).2
  have hpath := recvStr_takes M (recvStr M (recvInt M (recvInt M c).2).2).2
  have hargc := recvInt_takes M (recvStr M (recvStr M (recvInt M (recvInt M c).2).2).2).2
  have hargs := readArgs_takes M _ 0 _ hargv
  have hall := hpid.append (hcmd.append (htype.append (hpath.append (hargc.append hargs))))
  simp only [List.nil_append, true_and] at hall
  simp only [blocks, NoString]
  exact hall

/-! ## A connection -/

/-- The arguments that are on the queue after a message was handled. -/
inductive Kept (msg : Sysnoti) (s s' : Core H) : List Nat → Prop where
  | none (hheld : held s' = held s) (hfreed : s'.freed = s.freed) : Kept msg s s' []
  | args (htype : msg.type ≠ none) (hheld : held s' = argBlocks msg.argv ++ held s)
      (hfreed : s'.freed = s.freed) : Kept msg s s' (argBlocks msg.argv)

theorem call_kept {mem : AddMem} {msg : Sysnoti} {s : Core H} {r : Int × Core H}
    (hargc : msg.argv.length = msg.argc.toNat)
    (h : ssActionEntryCall mem msg msg.argc msg.argv s = some r) : ∃ bs, Kept msg s r.2 bs := by
  have hd := call_dispatched mem msg s
  rw [h] at hd
  cases hd with
  | refused | lost => exact ⟨_, .none rfl rfl⟩
  | entry d hfind =>
    refine ⟨_, .args (fun hnull => ?_) ?_ rfl⟩
    -- a NULL type is found nowhere
    · rw [type_of_found hfind hnull] at hfind
      cases hfind
    · simp only [added, ssRunQueueAdd, ssCoreActionRun, held, ← hargc, List.take_length]
      rfl

theorem handleMessage_kept {mem : AddMem} {msg : Sysnoti} {c : Conn} {s : Core H} {out : Served H}
    (hargc : msg.argv.length = msg.argc.toNat)
    (h : (handleMessage mem msg c s).1 = some out) : ∃ bs, Kept msg s out.core bs := by
  simp only [handleMessage, freeMessage_eq] at h
  split at h
  · cases h
    exact ⟨_, .none rfl rfl⟩
  split at h
  · obtain ⟨r, hr, rfl⟩ := Option.map_eq_some_iff.mp h
    exact call_kept hargc hr
  · cases h
    exact ⟨_, .none rfl rfl⟩

theorem handleMessage_heap (mem : AddMem) (msg : Sysnoti) (c : Conn) (s : Core H) :
    (handleMessage mem msg c s).2.heap = c.heap := by
  simp only [handleMessage]
  split
  · rfl
  split
  · simp only [copyArgs]
    split <;> rfl
  · rfl

/-- What a connection does: it gets `new` blocks, of which those in `kept` go
to the queue, which is all of them exactly when there are none. -/
structure Connected (s s' : Sys H) (nothing : Prop) (new kept : List Nat) : Prop where
  allocated : s'.allocated = s.allocated ++ new
  heap : s.heap ≤ s'.heap
  fresh : ∀ b ∈ new, s.heap ≤ b ∧ b < s'.heap
  nodup : new.Nodup
  held : held s'.core = kept ++ held s.core
  freed : s'.core.freed = s.core.freed
  sub : kept.Sublist new
  all : new = kept ↔ nothing

theorem received_fresh {M : Mem} {n n' b : Nat} (hle : n ≤ n') (h : b ∈ received M n n') :
    n ≤ b ∧ b < n' := by
  have := List.mem_range'_1.mp (List.mem_of_mem_filter h)
  omega

theorem received_nodup (M : Mem) (n n' : Nat) : (received M n n').Nodup :=
  (List.nodup_range' 1).filter _

/-- The type is not among the arguments, so a message that has one brings more
blocks than they are. -/
theorem takes_args {M : Mem} {n n' : Nat} {msg : Sysnoti} {p : Prop}
    (h : Takes M n n' (blocks msg) p) (htype : msg.type ≠ none) :
    (argBlocks msg.argv).length < (received M n n').length := by
  have hlen := h.sub.length_le
  obtain ⟨str, hstr⟩ := Option.ne_none_iff_exists'.mp htype
  simp only [blocks, hstr, free, Option.map_some, Option.toList_some, List.length_append,
    List.length_singleton] at hlen
  omega

theorem connect_spec {s s' : Sys H} {f : Frame} {M : Mem} {mem : AddMem} {evs : List Rd}
    (hst : step s (.connect f M mem evs) = some s') :
    ∃ new kept, Connected s s' (BringsNone s (.connect f M mem evs)) new kept := by
  simp only [step] at hst
  split at hst
  · obtain ⟨out, hout, rfl⟩ := Option.map_eq_some_iff.mp hst
    simp only [sysnotiCb] at hout ⊢
    split at hout
    · rename_i hf
      rw [if_pos hf]
      cases hmsg : (readMessage M ⟨evs, 0, s.heap, []⟩).1 with
      | none =>
        rw [hmsg] at hout
        cases hout
      | some msg =>
        simp only [hmsg, handleMessage_heap] at hout ⊢
        have htakes := readMessage_takes M _ hmsg
        obtain ⟨kept, hkept⟩ := handleMessage_kept (readMessage_argc hmsg).2.1 hout
        generalize (readMessage M ⟨evs, 0, s.heap, []⟩).2.heap = n at htakes ⊢
        refine ⟨received M s.heap n, kept, rfl, htakes.le, fun b hb => received_fresh htakes.le hb,
          received_nodup M _ _, ?_, ?_, ?_, ?_⟩
        · cases hkept with
          | none hheld => exact hheld
          | args _ hheld => exact hheld
        · cases hkept with
          | none _ hfreed => exact hfreed
          | args _ _ hfreed => exact hfreed
        · cases hkept with
          | none => exact List.nil_sublist _
          | args =>
            exact ((List.sublist_append_right _ _).trans (List.sublist_append_right _ _)).trans
              htakes.sub
        · have hnone : BringsNone s (.connect f M mem evs) ↔ NoString M ⟨evs, 0, s.heap, []⟩ :=
            ⟨fun h => h hf, fun h _ => h⟩
          rw [hnone, ← htakes.empty]
          cases hkept with
          | none => exact Iff.rfl
          | args htype =>
            have hlen := takes_args htakes htype
            refine iff_of_false (fun hargs => ?_) fun hnil => ?_
            · rw [hargs] at hlen
              exact absurd hlen (Nat.lt_irrefl _)
            · rw [hnil] at hlen
              exact absurd hlen (Nat.not_lt_zero _)
    · rename_i hf
      rw [if_neg hf]
      obtain rfl := Option.some.inj hout
      refine ⟨[], [], ?_⟩
      exact ⟨by simp, Nat.le_refl _, fun b hb => (List.not_mem_nil hb).elim, List.nodup_nil, rfl,
        rfl, List.Sublist.refl _, ⟨fun _ h => absurd h hf, fun _ => rfl⟩⟩
  · cases hst

/-! ## Deliveries -/

theorem held_setEntry (s : Core H) (id : Nat) {g : Entry H → Entry H}
    (hg : ∀ e, (g e).args = e.args) : held (setEntry id g s) = held s := by
  simp only [held, setEntry, List.flatMap_map]
  congr 1
  funext e
  split
  · exact hg e
  · rfl

/-- What CLEAR takes off the queue it gives back. -/
theorem held_delBypid (pid : Int) (s : Core H) :
    (held (ssRunQueueDelBypid pid s) ++ (ssRunQueueDelBypid pid s).freed).Perm
      (held s ++ s.freed) := by
  have hsplit : ((s.runQueue.filter (·.forkedPid = pid)).flatMap Entry.args ++
      (s.runQueue.filter (·.forkedPid ≠ pid)).flatMap Entry.args).Perm (held s) := by
    rw [← List.flatMap_append]
    refine List.Perm.flatMap_right _ ?_
    simpa using List.filter_append_perm (fun e : Entry H => decide (e.forkedPid = pid)) s.runQueue
  calc (held (ssRunQueueDelBypid pid s) ++ (ssRunQueueDelBypid pid s).freed).Perm
        ((s.freed ++ (s.runQueue.filter (·.forkedPid = pid)).flatMap Entry.args) ++
          held (ssRunQueueDelBypid pid s)) := List.perm_append_comm
    _ = s.freed ++ ((s.runQueue.filter (·.forkedPid = pid)).flatMap Entry.args ++
          (s.runQueue.filter (·.forkedPid ≠ pid)).flatMap Entry.args) := List.append_assoc _ _ _
    List.Perm _ (s.freed ++ held s) := hsplit.append_left _
    List.Perm _ (held s ++ s.freed) := List.perm_append_comm

/-- A step that is no request gives a block back only as it takes it off the
queue. -/
theorem main_perm {s s' : Core H} {l : L2.RunQueue.Lbl} (hcall : ∀ mem msg, l ≠ .call mem msg)
    (hinternal : ∀ mem type argc args, l ≠ .callInternal mem type argc args)
    (h : L2.RunQueue.step s l = some s') : (held s' ++ s'.freed).Perm (held s ++ s.freed) := by
  cases step_effect h with
  | none _ hl =>
    rcases hl with ⟨mem, msg, hl⟩ | ⟨mem, type, argc, args, hl⟩
    · exact absurd hl (hcall mem msg)
    · exact absurd hl (hinternal mem type argc args)
  | announce _ mem _ hl =>
    rcases hl with ⟨msg, hl⟩ | ⟨type, argc, args, hl⟩
    · exact absurd hl (hcall mem msg)
    · exact absurd hl (hinternal mem type argc args)
  | add _ _ _ _ hl =>
    rcases hl with ⟨msg, hl⟩ | ⟨type, argc, args, hl⟩
    · exact absurd hl (hcall .both msg)
    · exact absurd hl (hinternal .both type argc args)
  | sigchld | run | passEnd | skip => exact List.Perm.refl _
  | clear m rest => exact held_delBypid m.pid { s with pipe := rest }
  | invoke e todo =>
    have hheld : held (callHandler e.id todo s) = held s := held_setEntry s e.id fun _ => rfl
    rw [hheld]
    exact List.Perm.refl _
  | done r present id todo =>
    have hheld : held (fastDone id { s with pc := .pass todo, returned := s.returned ++ [id] }) =
        held s := held_setEntry _ id fun _ => rfl
    rw [hheld]
    exact List.Perm.refl _
  | forked r id todo =>
    have hheld : held (setEntry id (fun e => { e with forkedPid := r })
        { s with pc := .pass todo, returned := s.returned ++ [id] }) = held s :=
      held_setEntry _ id fun _ => rfl
    rw [hheld]
    exact List.Perm.refl _

/-! ## The ledger -/

/-- What entries hold and what was given back are different allocated
blocks. -/
structure Ledger (s : Sys H) : Prop where
  fresh : ∀ b ∈ s.allocated, b < s.heap
  nodup : s.allocated.Nodup
  owned : (held s.core ++ s.core.freed).Subperm s.allocated

/-- A connection, or a step that leaves the blocks alone but for giving back
some that entries held. -/
inductive Move (s : Sys H) : Lbl → Sys H → Prop where
  | connect (f : Frame) (M : Mem) (mem : AddMem) (evs : List Rd) (s' : Sys H) (new kept : List Nat)
      (hc : Connected s s' (BringsNone s (.connect f M mem evs)) new kept) :
      Move s (.connect f M mem evs) s'
  | main (l : Lbl) (core : Core H) (hserved : ∀ s', ServedExact s l s') (hnone : BringsNone s l)
      (hperm : (held core ++ core.freed).Perm (held s.core ++ s.core.freed)) :
      Move s l { s with core := core }

theorem step_move {s s' : Sys H} {l : Lbl} (hst : step s l = some s') : Move s l s' := by
  cases l with
  | connect f M mem evs =>
    obtain ⟨new, kept, hc⟩ := connect_spec hst
    exact .connect f M mem evs s' new kept hc
  | sigchld | deliver | visit | ret =>
    obtain ⟨core, hcore, rfl⟩ := Option.map_eq_some_iff.mp hst
    exact .main _ core (fun _ => trivial) trivial
      (main_perm (fun _ _ hk => by cases hk) (fun _ _ _ _ hk => by cases hk) hcore)

theorem ledger_init {s : Sys H} (h : Init s) : Ledger s := by
  refine ⟨?_, ?_, ?_⟩
  · simp [h.allocated]
  · simp [h.allocated]
  · simp [held, h.core.runQueue, h.freed]

theorem ledger_step {s s' : Sys H} {l : Lbl} (h : Ledger s) (hst : step s l = some s') :
    Ledger s' := by
  cases step_move hst with
  | connect f M mem evs _ new kept hc =>
    refine ⟨fun b hb => ?_, ?_, ?_⟩
    · rw [hc.allocated] at hb
      rcases List.mem_append.mp hb with hold | hnew
      · exact Nat.lt_of_lt_of_le (h.fresh b hold) hc.heap
      · exact (hc.fresh b hnew).2
    · rw [hc.allocated]
      refine List.Nodup.append h.nodup hc.nodup fun b hold hnew => ?_
      exact absurd (h.fresh b hold) (Nat.not_lt.mpr (hc.fresh b hnew).1)
    · rw [hc.allocated, hc.held, hc.freed, List.append_assoc]
      exact (hc.sub.subperm.append h.owned).trans List.perm_append_comm.subperm
  | main _ core _ _ hperm =>
    exact ⟨h.fresh, h.nodup, hperm.subperm.trans h.owned⟩

/-- No block is given back twice. -/
theorem Ledger.once {s : Sys H} (h : Ledger s) : s.core.freed.Nodup := by
  obtain ⟨bs, hperm, hsub⟩ := h.owned
  exact (hperm.nodup_iff.mp (hsub.nodup h.nodup)).of_append_right

/-- All allocated blocks are held or given back. -/
theorem exact_iff {s : Sys H} (h : Ledger s) :
    Exact s ↔ (held s.core ++ s.core.freed).Perm s.allocated := by
  obtain ⟨bs, hperm, hsub⟩ := h.owned
  have hnodup : (held s.core ++ s.core.freed).Nodup := hperm.nodup_iff.mp (hsub.nodup h.nodup)
  have hall : ∀ b, b ∈ held s.core ++ s.core.freed → b ∈ s.allocated := fun b hb =>
    h.owned.subset hb
  rw [Exact, unfreed, List.perm_ext_iff_of_nodup (h.nodup.filter _) hnodup.of_append_left,
    List.perm_ext_iff_of_nodup hnodup h.nodup]
  refine forall_congr' fun b => ?_
  have hdisj : b ∈ held s.core → b ∉ s.core.freed := fun hb hf =>
    (List.nodup_append.mp hnodup).2.2 b hb b hf rfl
  have hb := hall b
  simp only [List.mem_filter, List.mem_append, decide_eq_true_eq] at hb ⊢
  tauto

/-- From an exact state, a connection leads to one exactly when it brings no
string. -/
theorem exact_connected {s s' : Sys H} {nothing : Prop} {new kept : List Nat}
    (h : Ledger s) (h' : Ledger s') (he : Exact s) (hc : Connected s s' nothing new kept) :
    Exact s' ↔ nothing := by
  rw [exact_iff h] at he
  rw [exact_iff h', hc.allocated, hc.held, hc.freed, ← hc.all, List.append_assoc]
  constructor
  · intro hperm
    have hlen := hperm.length_eq
    have hold := he.length_eq
    simp only [List.length_append] at hlen hold
    exact (hc.sub.eq_of_length (by omega)).symm
  · intro heq
    rw [heq]
    exact (he.append_left kept).trans List.perm_append_comm

theorem servedExact_iff {s s' : Sys H} {l : Lbl} (h : Ledger s) (he : Exact s)
    (hst : step s l = some s') : ServedExact s l s' ↔ BringsNone s l := by
  cases step_move hst with
  | connect f M mem evs _ new kept hc => exact exact_connected h (ledger_step h hst) he hc
  | main _ core hserved hnone => exact iff_of_true (hserved _) hnone

theorem exact_step {s s' : Sys H} {l : Lbl} (h : Ledger s) (he : Exact s) (hnone : BringsNone s l)
    (hst : step s l = some s') : Exact s' := by
  cases step_move hst with
  | connect f M mem evs _ new kept hc =>
    exact (exact_connected h (ledger_step h hst) he hc).mpr hnone
  | main _ core _ _ hperm =>
    exact (exact_iff (ledger_step h hst)).mpr (hperm.trans ((exact_iff h).mp he))

/-! ## Runs -/

theorem exact_init {s : Sys H} (h : Init s) : Exact s := by
  simp [Exact, unfreed, held, h.allocated, h.core.runQueue]

/-- **Received strings.** In every run no string is given back twice; and in a
run the strings not yet given back are, after every connection, those that
entries hold, if and only if no connection of the run brings a string. -/
theorem released_iff (H : Type) (s₀ : Sys H) (ls : List Lbl) (h₀ : Init s₀) :
    (∀ s, (lts H).run s₀ ls = some s → s.core.freed.Nodup) ∧
      ((lts H).Along ServedExact s₀ ls ↔ (lts H).Meets BringsNone s₀ ls) := by
  constructor
  · intro s hr
    have hinv : (lts H).Inductive Ledger := ⟨fun _ => ledger_init, fun _ _ _ => ledger_step⟩
    exact (hinv.run (ledger_init h₀) hr).once
  · have hok : ∀ s l s', Ledger s ∧ Exact s → (lts H).step s l = some s' →
        (ServedExact s l s' ↔ BringsNone s l) := fun _ _ _ h hst => servedExact_iff h.1 h.2 hst
    have hkept : (lts H).Guarded BringsNone fun s => Ledger s ∧ Exact s :=
      fun _ _ _ h hnone hst => ⟨ledger_step h.1 hst, exact_step h.1 h.2 hnone hst⟩
    exact LTS.along_iff hok hkept ⟨ledger_init h₀, exact_init h₀⟩ ls

def bootSys : Sys Unit := ⟨boot [anAction "a"], 0, []⟩

theorem init_bootSys : Init bootSys := ⟨init_boot _, rfl, rfl⟩

/-- A connection with these bytes. -/
def client (bs : Bytes) : Lbl := .connect allOk zeroMem .both [.data bs]

/-- A request without type, path and arguments, of the command that is not
served. -/
def noStrings : Lbl :=
  client (intBytes 7 ++ intBytes 0 ++ intBytes 0 ++ intBytes 0 ++ intBytes 0)

theorem released_noStrings : ((lts Unit).run bootSys [noStrings, noStrings]).isSome ∧
    (lts Unit).Along ServedExact bootSys [noStrings, noStrings] :=
  ⟨by decide, (released_iff Unit bootSys _ init_bootSys).2.mpr (by decide)⟩

/-- A request for "a" with path "b" and argument "c". -/
def oneArgument : Lbl :=
  client (intBytes 7 ++ intBytes 1 ++ intBytes 1 ++ lit "a" ++ intBytes 1 ++ lit "b" ++ intBytes 1 ++
    intBytes 1 ++ lit "c")

/-- It is accepted; type and path are lost. -/
theorem released_lost : (((lts Unit).run bootSys [oneArgument]).map fun s =>
      (unfreed s, held s.core)) = some ([0, 1, 2], [2]) ∧
    ¬ (lts Unit).Along ServedExact bootSys [oneArgument] := by decide

end SystemServer.L3.Strings
