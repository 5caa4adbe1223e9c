import SystemServer.Core.CString
import SystemServer.Core.LTS

/-!
# The crash log (`ss_bs.c`)

A process that crashes appends a record, "name colour" on a line of its own,
to the log file; `launch_crash_worker` is called when the file has changed. It
reads the file line by line, launches a crash worker for each line, and
truncates the file at the end if `ret` is not -1. That variable is the result
of the last launch only, whatever stopped the loop.

* A process writes its record in any pieces (`write`), at any moment, so also
  between two lines the pass reads and between its last read and the
  truncation.
* Of what memory holds in `args` before the first line nothing is known
  (`fopen` has it as an argument); what a line leaves behind its NUL is there
  when the next one is searched for a blank.
* `ss_launch_evenif_exist` returns -1 or the pid of the worker (`launch`).

Each byte of the file carries the number of the record it is part of. Ghost
state: `launches` are the launches that succeeded, `removed` what truncations
took away, `since` counts the launches since the last of them, `own` those of
the pass under way.

`readLine_record`: whatever was in the buffer, the worker of a record gets the
record's name and colour. `readLine_unfinished`: the start of a record is no
line.
-/
namespace SystemServer.L4.CrashLog

/-! ## The source -/

/-- The values of limits.h. -/
def NAME_MAX : Nat := 255
def MAX_INPUT : Nat := 255

/-- `sizeof(args)`.
mirrors ss_bs.c:73 -/
def ARGS : Nat := NAME_MAX + MAX_INPUT

/-- A record as a crashing process writes it. -/
structure Record where
  name : Bytes
  colour : Bytes
  nameText : ∀ b ∈ name, b ≠ 0 ∧ b ≠ 10 ∧ b ≠ 32
  colourText : ∀ b ∈ colour, b ≠ 0 ∧ b ≠ 10
  nameShort : name.length < NAME_MAX - 1
  short : name.length + colour.length + 2 < ARGS

def Record.line (R : Record) : Bytes := R.name ++ 32 :: R.colour ++ [10]

/-- What its crash worker is launched with: the colour is cut off. -/
def Record.args (R : Record) : Bytes := R.name ++ 32 :: R.colour.take (MAX_INPUT - 1)

structure Cell where
  id : Nat
  byte : UInt8
  deriving DecidableEq, Repr

structure Launch where
  line : List Cell
  args : Bytes
  deriving DecidableEq, Repr

/-- Where `launch_crash_worker` is: not running, at the head of its loop with
what it has read behind it, or past the loop. -/
inductive Pc where
  | idle
  | reading (pos own : Nat) (ret : Int) (args : Bytes)
  | closed (pos : Nat) (ret : Int)

structure Log where
  file : List Cell
  /-- how much of each record is written -/
  written : Nat → Nat
  pc : Pc
  launches : List Launch
  removed : List Cell
  since : Nat

/-- Up to the next newline, at most `n` bytes. -/
def getLine : Nat → List Cell → List Cell
  | 0, _ => []
  | _, [] => []
  | n + 1, c :: cs => if c.byte = 10 then [c] else c :: getLine n cs

/-- The next line of the file, none left being the empty one. -/
def nextLine (pos : Nat) (s : Log) : List Cell := getLine (ARGS - 1) (s.file.drop pos)

/-- Overwrites the start of a buffer with a string and its NUL. -/
def store (buf str : Bytes) : Bytes := str ++ 0 :: buf.drop (str.length + 1)

def strlen (b : Bytes) : Nat := (cstr b).length

/-- `snprintf` of the name before the blank at `i` and the colour behind it.
mirrors ss_bs.c:95-100 -/
def workerArgs (i : Nat) (args : Bytes) : Bytes :=
  let bsfileName := cstr (args.take i)
  let bsColor := (cstr (args.drop (i + 1))).take (MAX_INPUT - 1)
  (bsfileName ++ 32 :: bsColor).take (ARGS - 1)

/-- What a line comes to: it is not terminated, there is no launch for it, or
there is one with `arg`. -/
inductive Found where
  | unterminated
  | skip (args : Bytes)
  | worker (arg args : Bytes)

/-- The body of the loop up to the launch. The search for a blank goes over
the whole buffer.
mirrors ss_bs.c:82-101 -/
def readLine (line : List Cell) (args : Bytes) : Found :=
  let args := store args (line.map Cell.byte)
  if args.getD (strlen args - 1) 0 ≠ 10 then .unterminated
  else
    let args := args.set (strlen args - 1) 0
    match args.findIdx? (· = 32) with
    | none => .skip args
    | some i =>
      if NAME_MAX - 1 ≤ i then .skip args
      else .worker (workerArgs i args) (store args (workerArgs i args))

/-! ## The log as a transition system -/

/-- `fgets` is a round of the loop that launches nothing, `launch` one that
does and its result. A pass whose first `fopen` fails does nothing and is no
step; whether the second one succeeds is the argument of `truncate`. -/
inductive Lbl where
  | write (r n : Nat)
  | fopen (stack : Nat → UInt8)
  | fgets
  | launch (pid : Int)
  | truncate (fp : Bool)

variable (rs : Nat → Record)

def cells (r : Nat) : List Cell := (rs r).line.map (Cell.mk r)

/-- A process writes the next `n` bytes of its record. -/
def write (r n : Nat) (s : Log) : Option Log :=
  if 0 < n ∧ s.written r + n ≤ (rs r).line.length then
    some { s with
      file := s.file ++ ((cells rs r).drop (s.written r)).take n
      written := fun r' => if r' = r then s.written r + n else s.written r' }
  else none

/-- mirrors ss_bs.c:74-79 -/
def fopen (stack : Nat → UInt8) (s : Log) : Option Log :=
  match s.pc with
  | .idle => some { s with pc := .reading 0 0 (-1) ((List.range ARGS).map stack) }
  | _ => none

/-- mirrors ss_bs.c:81-94,106-109 -/
def fgets (s : Log) : Option Log :=
  match s.pc with
  | .reading pos own ret args =>
    let line := nextLine pos s
    if line = [] then some { s with pc := .closed pos ret }
    else match readLine line args with
      | .unterminated => some { s with pc := .closed pos ret }
      | .skip args =>
        if ret < 0 then some { s with pc := .closed pos ret }
        else some { s with pc := .reading (pos + line.length) own ret args }
      | .worker _ _ => none
  | _ => none

/-- mirrors ss_bs.c:102-109 -/
def launch (pid : Int) (s : Log) : Option Log :=
  match s.pc with
  | .reading pos own _ args =>
    let line := nextLine pos s
    if line = [] then none
    else match readLine line args with
      | .worker arg args =>
        if pid = -1 then some { s with pc := .closed pos pid }
        else if 0 < pid then
          some { s with
            pc := .reading (pos + line.length) (own + 1) pid args
            launches := s.launches ++ [⟨line, arg⟩]
            since := s.since + 1 }
        else none
      | _ => none
  | _ => none

/-- mirrors ss_bs.c:111-117 -/
def truncate (fp : Bool) (s : Log) : Option Log :=
  match s.pc with
  | .closed _ ret =>
    if ret ≠ -1 ∧ fp = true then
      some { s with file := [], removed := s.removed ++ s.file, since := 0, pc := .idle }
    else some { s with pc := .idle }
  | _ => none

def step (s : Log) : Lbl → Option Log
  | .write r n => write rs r n s
  | .fopen stack => fopen stack s
  | .fgets => fgets s
  | .launch pid => launch pid s
  | .truncate fp => truncate fp s

structure Init (s : Log) : Prop where
  file : s.file = []
  written : ∀ r, s.written r = 0
  pc : s.pc = .idle
  launches : s.launches = []
  removed : s.removed = []
  since : s.since = 0

def lts : LTS Log Lbl := ⟨Init, step rs⟩

/-- A launch for record `r`: the line is all of it and nothing else, and the
worker gets its name and its colour. -/
def For (r : Nat) (x : Launch) : Prop := x.line = cells rs r ∧ x.args = (rs r).args

instance (r : Nat) (x : Launch) : Decidable (For rs r x) := inferInstanceAs (Decidable (_ ∧ _))

/-- No record is removed that no worker was launched for, and none has two. -/
structure Once (s : Log) : Prop where
  kept : ∀ c ∈ s.removed, ∃ x ∈ s.launches, For rs c.id x
  once : ∀ r, s.launches.countP (For rs r) ≤ 1

/-! ## One record through the buffer -/

theorem record_text (R : Record) : (0 : UInt8) ∉ R.line := by
  intro h
  simp only [Record.line, List.append_assoc, List.mem_append, List.cons_append, List.mem_cons,
    List.not_mem_nil, or_false] at h
  rcases h with h | h | h | h
  · exact (R.nameText 0 h).1 rfl
  · cases h
  · exact (R.colourText 0 h).1 rfl
  · cases h

/-- The newline ends the line and is nowhere else in it. -/
theorem record_newline (R : Record) : (10 : UInt8) ∉ R.name ++ 32 :: R.colour := by
  intro h
  simp only [List.mem_append, List.mem_cons] at h
  rcases h with h | h | h
  · exact (R.nameText 10 h).2.1 rfl
  · cases h
  · exact (R.colourText 10 h).2 rfl

theorem record_length (R : Record) : R.line.length = R.name.length + R.colour.length + 2 := by
  simp only [Record.line, List.length_append, List.length_cons, List.length_nil]
  omega

theorem strlen_store (buf : Bytes) {str : Bytes} (h : (0 : UInt8) ∉ str) :
    strlen (store buf str) = str.length := by
  rw [strlen, store, cstr_append_nul h]

theorem findBlank (name rest : Bytes) (h : ∀ b ∈ name, b ≠ 32) :
    (name ++ 32 :: rest).findIdx? (· = 32) = some name.length := by
  induction name with
  | nil => rfl
  | cons b name ih =>
    have hb : b ≠ 32 := h b List.mem_cons_self
    rw [List.cons_append, List.findIdx?_cons, if_neg (by simpa using hb),
      ih fun b hb => h b (List.mem_cons_of_mem _ hb)]
    rfl

/-- The worker of a record gets the record's name and colour, whatever was in
the buffer. -/
theorem readLine_record (R : Record) {line : List Cell} (h : line.map Cell.byte = R.line)
    (args : Bytes) : ∃ args', readLine line args = .worker R.args args' := by
  have hlen : R.line.length - 1 = (R.name ++ 32 :: R.colour).length := by
    simp [Record.line]
  have hlast : (store args R.line).getD (R.line.length - 1) 0 = 10 := by
    rw [hlen]
    simp [store, Record.line]
  have hchomp : (store args R.line).set (R.line.length - 1) 0 =
      R.name ++ 32 :: (R.colour ++ 0 :: 0 :: args.drop (R.line.length + 1)) := by
    rw [hlen]
    simp [store, Record.line]
  generalize 0 :: args.drop (R.line.length + 1) = rest at hchomp
  have hblank := findBlank R.name (R.colour ++ 0 :: rest) fun b hb => (R.nameText b hb).2.2
  have hname : cstr ((R.name ++ 32 :: (R.colour ++ 0 :: rest)).take R.name.length) = R.name := by
    rw [List.take_left, cstr_of_notMem fun hb => (R.nameText 0 hb).1 rfl]
  have hcolour : cstr ((R.name ++ 32 :: (R.colour ++ 0 :: rest)).drop (R.name.length + 1)) =
      R.colour := by
    rw [← List.drop_drop, List.drop_left, List.drop_succ_cons, List.drop_zero,
      cstr_append_nul fun hb => (R.colourText 0 hb).1 rfl]
  have hargs : workerArgs R.name.length (R.name ++ 32 :: (R.colour ++ 0 :: rest)) = R.args := by
    have hshort := R.short
    rw [workerArgs, hname, hcolour, List.take_of_length_le]
    · rfl
    · simp only [List.length_append, List.length_cons, List.length_take]
      omega
  refine ⟨store (R.name ++ 32 :: (R.colour ++ 0 :: rest)) R.args, ?_⟩
  simp only [readLine, h, strlen_store args (record_text R), hlast, hchomp, hblank, ne_eq,
    not_true_eq_false, if_false, if_neg (Nat.not_le.mpr R.nameShort), hargs]

/-- What has no newline is no line. -/
theorem readLine_unterminated {line : List Cell} (h0 : (0 : UInt8) ∉ line.map Cell.byte)
    (h10 : (10 : UInt8) ∉ line.map Cell.byte) (args : Bytes) :
    readLine line args = .unterminated := by
  have hlast : (store args (line.map Cell.byte)).getD (strlen (store args (line.map Cell.byte)) - 1) 0
      ≠ 10 := by
    rw [strlen_store args h0]
    generalize line.map Cell.byte = str at h10
    rcases List.eq_nil_or_concat str with rfl | ⟨str, b, rfl⟩
    · simp [store]
    · have hb : b ≠ 10 := by
        rintro rfl
        exact h10 (by simp)
      simp [store, hb]
  simp only [readLine, hlast, ne_eq, not_false_eq_true, if_true]

/-! ## Lines of the file -/

theorem getLine_newline {xs : List Cell} {c : Cell} (hx : (10 : UInt8) ∉ xs.map Cell.byte)
    (hc : c.byte = 10) {n : Nat} (hn : xs.length < n) (ys : List Cell) :
    getLine n (xs ++ c :: ys) = xs ++ [c] := by
  induction xs generalizing n with
  | nil =>
    obtain ⟨m, rfl⟩ := Nat.exists_eq_succ_of_ne_zero (Nat.ne_of_gt hn)
    simp [getLine, hc]
  | cons x xs ih =>
    obtain ⟨m, rfl⟩ := Nat.exists_eq_succ_of_ne_zero (Nat.ne_of_gt (Nat.zero_lt_of_lt hn))
    simp only [List.map_cons, List.mem_cons, not_or] at hx
    rw [List.cons_append, getLine, if_neg (Ne.symm hx.1),
      ih hx.2 (by simpa using hn), List.cons_append]

theorem getLine_rest {xs : List Cell} (hx : (10 : UInt8) ∉ xs.map Cell.byte) {n : Nat}
    (hn : xs.length ≤ n) : getLine n xs = xs := by
  induction xs generalizing n with
  | nil => cases n <;> rfl
  | cons x xs ih =>
    obtain ⟨m, rfl⟩ := Nat.exists_eq_succ_of_ne_zero (Nat.ne_of_gt (Nat.zero_lt_of_lt hn))
    simp only [List.map_cons, List.mem_cons, not_or] at hx
    rw [getLine, if_neg (Ne.symm hx.1), ih hx.2 (by simpa using hn)]

variable {rs : Nat → Record}

theorem cells_bytes (r : Nat) : (cells rs r).map Cell.byte = (rs r).line := by
  simp [cells, Function.comp_def]

theorem cells_length (r : Nat) : (cells rs r).length = (rs r).line.length := by
  simp [cells]

theorem cells_id {r : Nat} {c : Cell} (h : c ∈ cells rs r) : c.id = r := by
  obtain ⟨b, -, rfl⟩ := List.mem_map.mp h
  rfl

theorem line_pos (r : Nat) : 0 < (rs r).line.length := by
  rw [record_length]; omega

theorem line_short (r : Nat) : (rs r).line.length < ARGS := by
  have := (rs r).short
  rw [record_length]; omega

theorem cells_ne_nil (r : Nat) : cells rs r ≠ [] := by
  intro h
  have := @line_pos rs r
  rw [← cells_length, h] at this
  exact Nat.lt_irrefl 0 this

/-- Records are told apart by their cells. -/
theorem cells_inj {r r' : Nat} (h : cells rs r = cells rs r') : r = r' := by
  obtain ⟨c, cs, hc⟩ := List.exists_cons_of_ne_nil (@cells_ne_nil rs r)
  have hr : c ∈ cells rs r := by rw [hc]; exact List.mem_cons_self
  exact (cells_id hr).symm.trans (cells_id (h ▸ hr))

/-- A record that is all there is the next line. -/
theorem getLine_cells (r : Nat) (rest : List Cell) :
    getLine (ARGS - 1) (cells rs r ++ rest) = cells rs r := by
  have hshort := @line_short rs r
  have hlast : cells rs r =
      ((rs r).name ++ 32 :: (rs r).colour).map (Cell.mk r) ++ [Cell.mk r 10] := by
    simp [cells, Record.line]
  have hlen := @cells_length rs r
  rw [hlast] at hlen ⊢
  rw [List.append_assoc, List.singleton_append]
  refine getLine_newline ?_ rfl ?_ rest
  · simpa [Function.comp_def] using record_newline (rs r)
  · simp only [List.length_append, List.length_cons, List.length_nil] at hlen
    omega

theorem take_cells_ne_nil {r k : Nat} (hk : 0 < k) : (cells rs r).take k ≠ [] := by
  have := @line_pos rs r
  rw [← List.length_pos_iff, List.length_take, cells_length]
  omega

/-- The start of a record has no newline yet. -/
theorem unfinished_newline {r k : Nat} (h : k < (rs r).line.length) :
    (10 : UInt8) ∉ ((cells rs r).take k).map Cell.byte := by
  have hk : k ≤ ((rs r).name ++ 32 :: (rs r).colour).length := by
    have hlen := record_length (rs r)
    simp only [List.length_append, List.length_cons]
    omega
  rw [List.map_take, cells_bytes, Record.line, List.take_append_of_le_length hk]
  exact fun hm => record_newline (rs r) (List.mem_of_mem_take hm)

theorem getLine_unfinished {r k : Nat} (h : k < (rs r).line.length) :
    getLine (ARGS - 1) ((cells rs r).take k) = (cells rs r).take k := by
  have hshort := @line_short rs r
  refine getLine_rest (unfinished_newline h) ?_
  rw [List.length_take]
  omega

theorem readLine_unfinished {r k : Nat} (h : k < (rs r).line.length) (args : Bytes) :
    readLine ((cells rs r).take k) args = .unterminated := by
  refine readLine_unterminated (fun hm => ?_) (unfinished_newline h) args
  rw [List.map_take, cells_bytes] at hm
  exact record_text (rs r) (List.mem_of_mem_take hm)

end SystemServer.L4.CrashLog
