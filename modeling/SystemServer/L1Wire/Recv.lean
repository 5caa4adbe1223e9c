import SystemServer.Core.CString

/-!
# Decoding a request off the client socket (`ss_sysnoti.c`)

A client connects to the daemon's stream socket and writes a request: the
ints `pid` and `cmd`, the strings `type` and `path` (an int length, then
that many bytes), the int `argc`, then `argc` such strings. `read_message`
decodes it field by field with `recv_int` and `recv_str`.

**The connection.** `Conn.evs` lists what the `read`s on the connection will
find: bytes, an interruption (`EINTR`) or another error. A `read` asking for
fewer bytes than are there leaves the rest; once the list is used up the
peer has closed and every `read` returns 0.

**Memory.** A failing or short `read` leaves bytes of its buffer unwritten,
and the code uses them: `Mem.stack` and `Mem.block` give what an
uninitialised local and a fresh block hold, `Mem.alloc` which of the
`malloc`s succeed. Each local and each `malloc` has its own number.

**The argument vector.** `msg->argv` has `SYSMAN_MAXARG` slots. `touched`
records every index the code reads or writes; a store past the array is
undefined behaviour, after which the model says nothing (`none`).
-/
namespace SystemServer.L1.Recv

/-- mirrors ss_sysnoti.h:21 -/
def SYSMAN_MAXARG : Nat := 16

/-- mirrors ss_sysnoti.h:23-30 -/
structure Sysnoti where
  pid : Int
  cmd : Int
  type : CPtr
  path : CPtr
  argc : Int
  argv : List CPtr
  deriving DecidableEq, Repr

/-- What a `read` on the connection finds. -/
inductive Rd where
  | data (bs : Bytes)
  | eintr
  | err
  deriving DecidableEq, Repr

structure Mem where
  stack : Nat → Nat → UInt8
  block : Nat → Nat → UInt8
  alloc : Nat → Bool

structure Conn where
  evs : List Rd
  /-- uninitialised locals set up so far -/
  calls : Nat
  /-- `malloc`s made so far -/
  heap : Nat
  /-- indices of `msg->argv` read or written so far -/
  touched : List Nat

/-- The loop around `read` in `recv_int` and `recv_str`: an interrupted
`read` is made again, `none` is any other error. No bytes is end of file.
mirrors ss_sysnoti.c:57-71,79-92,110-123 -/
def readRetry (n : Nat) : List Rd → Option Bytes × List Rd
  | [] => (some [], [])
  | .eintr :: es => readRetry n es
  | .err :: es => (none, es)
  | .data bs :: es =>
    if bs.length ≤ n then (some bs, es) else (some (bs.take n), .data (bs.drop n) :: es)

/-- `n` bytes of memory that held `junk`, after `bs` was written to their
front. -/
def fill (junk : Nat → UInt8) (n : Nat) (bs : Bytes) : Bytes :=
  bs ++ (List.range' bs.length (n - bs.length)).map junk

/-- mirrors ss_sysnoti.c:54-72 -/
def recvInt (M : Mem) (c : Conn) : Int × Conn :=
  match readRetry 4 c.evs with
  | (none, es) => (-1, { c with evs := es, calls := c.calls + 1 })
  | (some bs, es) =>
    (intOf (fill (M.stack c.calls) 4 bs), { c with evs := es, calls := c.calls + 1 })

/-- The part of `recv_str` after the length was read.
mirrors ss_sysnoti.c:94-126 -/
def recvBody (M : Mem) (len : Int) (c : Conn) : CPtr × Conn :=
  if len ≤ 0 then (none, c)
  else if INT_MAX ≤ len then (none, c)
  else if M.alloc c.heap = false then (none, { c with heap := c.heap + 1 })
  else match readRetry len.toNat c.evs with
    -- the block is not freed
    | (none, es) => (none, { c with evs := es, heap := c.heap + 1 })
    | (some bs, es) =>
      (some ⟨c.heap, fill (M.block c.heap) len.toNat bs⟩, { c with evs := es, heap := c.heap + 1 })

/-- mirrors ss_sysnoti.c:74-127 -/
def recvStr (M : Mem) (c : Conn) : CPtr × Conn :=
  match readRetry 4 c.evs with
  | (none, es) => (none, { c with evs := es, calls := c.calls + 1 })
  | (some bs, es) =>
    recvBody M (intOf (fill (M.stack c.calls) 4 bs)) { c with evs := es, calls := c.calls + 1 }

def Conn.touch (c : Conn) (i : Nat) : Conn := { c with touched := c.touched ++ [i] }

/-- `n` more rounds of the loop, from index `i` on.
mirrors ss_sysnoti.c:139-140 -/
def readArgs (M : Mem) : Nat → Nat → Conn → Option (List CPtr) × Conn
  | 0, _, c => (some [], c)
  | n + 1, i, c =>
    let a := recvStr M c
    let c := a.2.touch i
    if i < SYSMAN_MAXARG then
      let r := readArgs M n (i + 1) c
      (r.1.map (a.1 :: ·), r.2)
    else (none, c)

/-- The fields before the loop, with an empty `argv`.
mirrors ss_sysnoti.c:133-137 -/
def readHeader (M : Mem) (c : Conn) : Sysnoti × Conn :=
  let pid := recvInt M c
  let cmd := recvInt M pid.2
  let type := recvStr M cmd.2
  let path := recvStr M type.2
  let argc := recvInt M path.2
  (⟨pid.1, cmd.1, type.1, path.1, argc.1, []⟩, argc.2)

/-- Whatever the `read`s do, `read_message` returns 0: a message is the only
result there is, short of undefined behaviour.
mirrors ss_sysnoti.c:129-143 -/
def readMessage (M : Mem) (c : Conn) : Option Sysnoti × Conn :=
  let h := readHeader M c
  let r := readArgs M h.1.argc.toNat 0 h.2
  (r.1.map fun argv => { h.1 with argv := argv }, r.2)

/-! ## Reads -/

theorem fill_length (junk : Nat → UInt8) (n : Nat) {bs : Bytes} (h : bs.length ≤ n) :
    (fill junk n bs).length = n := by
  simp only [fill, List.length_append, List.length_map, List.length_range']; omega

/-- A whole read leaves no byte of the buffer unwritten. -/
@[simp] theorem fill_self (junk : Nat → UInt8) (bs : Bytes) : fill junk bs.length bs = bs := by
  simp [fill]

/-! ## The argument vector -/

theorem recvInt_touched (M : Mem) (c : Conn) : (recvInt M c).2.touched = c.touched := by
  unfold recvInt; split <;> rfl

theorem recvBody_touched (M : Mem) (len : Int) (c : Conn) :
    (recvBody M len c).2.touched = c.touched := by
  unfold recvBody
  split
  · rfl
  split
  · rfl
  split
  · rfl
  split <;> rfl

theorem recvStr_touched (M : Mem) (c : Conn) : (recvStr M c).2.touched = c.touched := by
  unfold recvStr
  split
  · rfl
  · exact recvBody_touched M _ _

theorem readHeader_touched (M : Mem) (c : Conn) : (readHeader M c).2.touched = c.touched := by
  simp only [readHeader, recvInt_touched, recvStr_touched]

/-- The loop runs to its end exactly when the array holds every argument. -/
theorem readArgs_isSome (M : Mem) (n i : Nat) (c : Conn) (hi : i ≤ SYSMAN_MAXARG) :
    (readArgs M n i c).1.isSome ↔ i + n ≤ SYSMAN_MAXARG := by
  induction n generalizing i c with
  | zero => simpa [readArgs] using hi
  | succ n ih =>
    simp only [readArgs]
    split
    · rename_i hlt
      simp only [Option.isSome_map, ih (i + 1) _ hlt]; omega
    · simp only [Option.isSome_none, Bool.false_eq_true, false_iff]; omega

theorem readArgs_length (M : Mem) (n i : Nat) (c : Conn) {argv : List CPtr}
    (h : (readArgs M n i c).1 = some argv) : argv.length = n := by
  induction n generalizing i c argv with
  | zero => simp only [readArgs, Option.some.injEq] at h; subst h; rfl
  | succ n ih =>
    simp only [readArgs] at h
    split at h
    · obtain ⟨as, has, rfl⟩ := Option.map_eq_some_iff.mp h
      simp [ih _ _ has]
    · cases h

/-- The loop touches `argv` in order, up to the first index past the array. -/
theorem readArgs_touched (M : Mem) (n i : Nat) (c : Conn) (hi : i ≤ SYSMAN_MAXARG) :
    (readArgs M n i c).2.touched = c.touched ++ List.range' i (min n (SYSMAN_MAXARG + 1 - i)) := by
  induction n generalizing i c with
  | zero => simp [readArgs]
  | succ n ih =>
    simp only [readArgs]
    split
    · rename_i hlt
      rw [ih (i + 1) _ hlt, Conn.touch, recvStr_touched, List.append_assoc]
      rw [show min (n + 1) (SYSMAN_MAXARG + 1 - i) = min n (SYSMAN_MAXARG + 1 - (i + 1)) + 1 by omega]
      rfl
    · rw [show min (n + 1) (SYSMAN_MAXARG + 1 - i) = 1 by omega]
      simp only [Conn.touch, recvStr_touched]
      rfl

theorem readMessage_argc {M : Mem} {c : Conn} {msg : Sysnoti}
    (h : (readMessage M c).1 = some msg) :
    msg.argc ≤ SYSMAN_MAXARG ∧ msg.argv.length = msg.argc.toNat ∧
      msg = { (readHeader M c).1 with argv := msg.argv } := by
  unfold readMessage at h
  generalize readHeader M c = hd at h ⊢
  obtain ⟨argv, hargv, rfl⟩ := Option.map_eq_some_iff.mp h
  have hs := (readArgs_isSome M hd.1.argc.toNat 0 hd.2 (Nat.zero_le _)).mp (by rw [hargv]; rfl)
  have hle : hd.1.argc ≤ SYSMAN_MAXARG := by omega
  exact ⟨hle, readArgs_length M _ 0 _ hargv, rfl⟩

end SystemServer.L1.Recv
