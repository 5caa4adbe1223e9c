import SystemServer.Core.CString
import Mathlib.Data.List.TakeWhile

/-!
# Launching a command line (`ss_launch.c`)

`ss_launch_if_noexist` and `ss_launch_evenif_exist` join a path and an
argument string with a blank; `launch_app_cmd_with_nice` has `parse_cmd`
split the line again and passes the pieces to `execvp`.

* `Scan` is the loop of `parse_cmd` as it is: a block from `malloc` with
  whatever memory held, `bufp` an offset into it, the slots of `argv` written
  so far. `Words` is what the loop is for, the words of the line.
* `Sim` relates the two, and `parseCmd_eq` is what `parse_cmd` returns.
* `words_joined_iff`: arguments that are each followed by a blank come back
  as they were exactly when none of them holds a blank, a quote or a
  backslash.

The nice value is left out: the callers pass none, and it has no part in what
is launched.
-/
namespace SystemServer.L4.Launch

/-! ## parse_cmd -/

/-- mirrors ss_launch.c:31 -/
def MAX_ARGS : Nat := 255

/-- What `malloc` comes to: NULL, or a block with what memory holds there. -/
abbrev Malloc := Option (Nat → UInt8)

def malloc (m : Malloc) (n : Nat) : Option Bytes := m.map fun junk => (List.range n).map junk

structure Flags where
  escape : Bool
  squote : Bool
  dquote : Bool
  deriving DecidableEq, Repr

def Flags.none : Flags := ⟨false, false, false⟩

/-- What the loop does with a character: it goes to the token, it only changes
the flags, or it ends the token. -/
inductive Act where
  | put (f : Flags)
  | drop (f : Flags)
  | cut
  deriving DecidableEq, Repr

/-- The switch, and the test of `escape` around it.
mirrors ss_launch.c:90-122 -/
def react (f : Flags) (c : UInt8) : Act :=
  if f.escape then .put { f with escape := false }
  else if c = 92 then .drop { f with escape := true }
  else if c = 34 then
    if f.squote then .put f else .drop { f with dquote := !f.dquote }
  else if c = 39 then
    if f.dquote then .put f else .drop { f with squote := !f.squote }
  else if c = 32 ∧ f.squote = false ∧ f.dquote = false then .cut
  else .put f

/-- `bufp` counts from `buf`; `argv` holds the slots written, so `nargs` is
its length. -/
structure Scan where
  buf : Bytes
  bufp : Nat
  argv : List (Option Bytes)
  flags : Flags

/-- The outcome of `strdup` for a slot of `argv`. -/
def dup (strdup : Nat → Bool) (nargs : Nat) (t : Bytes) : Option Bytes :=
  if strdup nargs then some t else none

/-- Terminates the token and copies it.
mirrors ss_launch.c:112-114,127-129 -/
def Scan.endToken (strdup : Nat → Bool) (maxArgs : Nat) (s : Scan) : Scan :=
  let buf := s.buf.set s.bufp 0
  let argv := if s.argv.length < maxArgs then s.argv ++ [dup strdup s.argv.length (cstr buf)]
    else s.argv
  { s with buf := buf, argv := argv }

/-- One round of the loop.
mirrors ss_launch.c:89-124 -/
def Scan.feed (strdup : Nat → Bool) (maxArgs : Nat) (s : Scan) (c : UInt8) : Scan :=
  match react s.flags c with
  | .put f => { s with buf := s.buf.set s.bufp c, bufp := s.bufp + 1, flags := f }
  | .drop f => { s with flags := f }
  | .cut => { s.endToken strdup maxArgs with bufp := 0 }

/-- The return value, and `argv`.
mirrors ss_launch.c:73-136 -/
def parseCmd (m : Malloc) (strdup : Nat → Bool) (cmdline : Option Bytes) (maxArgs : Nat) :
    Int × List (Option Bytes) :=
  match cmdline with
  | none => (-1, [])
  | some line =>
    if cstr line = [] then (-1, [])
    else
      match malloc m ((cstr line).length + 1) with
      | none => (-1, [])
      | some buf =>
        let s := (cstr line).foldl (Scan.feed strdup maxArgs) ⟨buf, 0, [], .none⟩
        let s := if s.bufp ≠ 0 then s.endToken strdup maxArgs else s
        let argv := s.argv ++ [none]
        (argv.length, argv)

/-! ## Launching -/

/-- What the launch meets: `access(file, X_OK)`, the `malloc` of the line and
that of the token, `strdup`, `fork`, and in the child whether `execvp`
succeeds. -/
structure Env where
  access : Bytes → Bool
  lineMalloc : Malloc
  tokenMalloc : Malloc
  strdup : Nat → Bool
  fork : Int
  forked : fork = -1 ∨ 0 < fork
  exec : Bool

/-- The value the daemon gets, what the child calls `execvp` with, and whether
that call succeeds. -/
structure Launched where
  ret : Int
  execvp : Option (Bytes × List (Option Bytes))
  exec : Bool
  deriving DecidableEq, Repr

def Launched.failed : Launched := ⟨-1, none, false⟩

/-- What the child becomes. A child whose `execvp` fails returns -2, and its
copy of the daemon ends in the `exit(0)` of the caller.
mirrors ss_launch.c:174-178,245-246,289-290 -/
def Launched.image (l : Launched) : Option (Bytes × List (Option Bytes)) :=
  if l.exec then l.execvp else none

/-- What the daemon gets; the callers pass NULL for `pid`.
mirrors ss_launch.c:138-179 -/
def launchAppWithNice (E : Env) (file : Option Bytes) (argv : List (Option Bytes)) : Launched :=
  match file with
  | none => .failed
  | some f =>
    if ¬ E.access f then .failed
    else if E.fork = -1 then .failed
    else ⟨E.fork, some (f, argv), E.exec⟩

/-- mirrors ss_launch.c:181-201 -/
def launchAppCmdWithNice (E : Env) (cmdline : Option Bytes) : Launched :=
  let r := parseCmd E.tokenMalloc E.strdup cmdline (MAX_ARGS + 1)
  if r.1 = -1 then .failed else launchAppWithNice E r.2[0]?.join r.2

/-- `snprintf(buf, buf_size, "%s %s", execpath, arg)`.
mirrors ss_launch.c:279-287 -/
def commandLine (execpath arg : Bytes) : Bytes :=
  let bufSize := (cstr execpath).length + (cstr arg).length + 10
  (cstr execpath ++ 32 :: cstr arg).take (bufSize - 1)

/-- mirrors ss_launch.c:252-294 -/
def ssLaunchEvenifExist (E : Env) (execpath arg : Option Bytes) : Launched :=
  match execpath with
  | none => .failed
  | some execpath =>
    let arg := arg.getD []
    match malloc E.lineMalloc ((cstr execpath).length + (cstr arg).length + 10) with
    | none => .failed
    | some _ => launchAppCmdWithNice E (some (commandLine execpath arg))

/-- The assignment takes the value of the comparison.
mirrors ss_launch.c:208-250 -/
def ssLaunchIfNoexist (E : Env) (sysmanGetPid : Bytes → Int) (execpath arg : Option Bytes) :
    Launched :=
  match execpath with
  | none => .failed
  | some path =>
    if sysmanGetPid path > 0 then ⟨1, none, false⟩ else ssLaunchEvenifExist E execpath arg

/-! ## The words of a line -/

/-- The words that are ended, and the one under way. -/
structure Words where
  done : List Bytes
  cur : Bytes
  flags : Flags

def Words.none : Words := ⟨[], [], .none⟩

def Words.feed (w : Words) (c : UInt8) : Words :=
  match react w.flags c with
  | .put f => { w with cur := w.cur ++ [c], flags := f }
  | .drop f => { w with flags := f }
  | .cut => { w with done := w.done ++ [w.cur], cur := [] }

/-- A word under way at the end is one if it is not empty. -/
def Words.all (w : Words) : List Bytes := if w.cur ≠ [] then w.done ++ [w.cur] else w.done

def words (line : Bytes) : List Bytes := (line.foldl Words.feed .none).all

/-- The slots of `argv` that hold words. -/
def slots (strdup : Nat → Bool) (maxArgs : Nat) (ws : List Bytes) : List (Option Bytes) :=
  (ws.take maxArgs).mapIdx (dup strdup)

theorem slots_length (strdup : Nat → Bool) (maxArgs : Nat) (ws : List Bytes) :
    (slots strdup maxArgs ws).length = min maxArgs ws.length := by
  simp [slots]

/-- A word more takes the next slot, if there is one. -/
theorem slots_concat (strdup : Nat → Bool) (maxArgs : Nat) (ws : List Bytes) (t : Bytes) :
    slots strdup maxArgs (ws ++ [t]) = if (slots strdup maxArgs ws).length < maxArgs then
      slots strdup maxArgs ws ++ [dup strdup (slots strdup maxArgs ws).length t]
    else slots strdup maxArgs ws := by
  rw [slots_length]
  by_cases h : ws.length < maxArgs
  · have htake : (ws ++ [t]).take maxArgs = ws ++ [t] := List.take_of_length_le (by simp; omega)
    rw [if_pos (by omega), slots, htake, slots, List.take_of_length_le (by omega),
      List.mapIdx_concat, Nat.min_eq_right (by omega)]
  · have htake : (ws ++ [t]).take maxArgs = ws.take maxArgs :=
      List.take_append_of_le_length (by omega)
    rw [if_neg (by omega), slots, htake, slots]

/-- The loop with `rest` characters of the line to go. -/
structure Sim (strdup : Nat → Bool) (maxArgs rest : Nat) (s : Scan) (w : Words) : Prop where
  argv : s.argv = slots strdup maxArgs w.done
  bufp : s.bufp = w.cur.length
  token : s.buf.take s.bufp = w.cur
  text : (0 : UInt8) ∉ w.cur
  room : s.bufp + rest < s.buf.length
  flags : s.flags = w.flags

variable {strdup : Nat → Bool} {maxArgs rest : Nat} {s : Scan} {w : Words}

theorem Sim.lt (h : Sim strdup maxArgs rest s w) : s.bufp < s.buf.length :=
  Nat.lt_of_le_of_lt (Nat.le_add_right _ _) h.room

/-- The copy is the word under way. -/
theorem Sim.copy (h : Sim strdup maxArgs rest s w) : cstr (s.buf.set s.bufp 0) = w.cur := by
  rw [List.set_eq_take_append_cons_drop, if_pos h.lt, h.token]
  exact cstr_append_nul h.text _

theorem Sim.endToken (h : Sim strdup maxArgs rest s w) :
    (s.endToken strdup maxArgs).argv = slots strdup maxArgs (w.done ++ [w.cur]) := by
  simp only [Scan.endToken]
  rw [h.copy, h.argv, slots_concat]

/-- A character written behind the token. -/
theorem take_put {buf : Bytes} {i : Nat} (h : i < buf.length) (c : UInt8) :
    (buf.set i c).take (i + 1) = buf.take i ++ [c] := by
  have hi : (buf.take i).length = i := List.length_take_of_le (Nat.le_of_lt h)
  rw [List.set_eq_take_append_cons_drop, if_pos h, List.take_append, hi, Nat.add_sub_cancel_left,
    List.take_of_length_le (by omega)]
  rfl

theorem Sim.feed {c : UInt8} (hc : c ≠ 0) (h : Sim strdup maxArgs (rest + 1) s w) :
    Sim strdup maxArgs rest (s.feed strdup maxArgs c) (w.feed c) := by
  have hroom := h.room
  unfold Scan.feed Words.feed
  rw [h.flags]
  cases react w.flags c with
  | put f =>
    refine ⟨h.argv, ?_, ?_, ?_, ?_, rfl⟩
    · simp [h.bufp]
    · exact (take_put h.lt c).trans (by rw [h.token])
    · simp [h.text, Ne.symm hc]
    · simp only [List.length_set]; omega
  | drop f => exact ⟨h.argv, h.bufp, h.token, h.text, Nat.lt_of_succ_lt hroom, rfl⟩
  | cut =>
    refine ⟨h.endToken, rfl, rfl, List.not_mem_nil, ?_, h.flags⟩
    simp only [Scan.endToken, List.length_set]; omega

theorem Sim.run {line : Bytes} (hline : (0 : UInt8) ∉ line)
    (h : Sim strdup maxArgs (rest + line.length) s w) :
    Sim strdup maxArgs rest (line.foldl (Scan.feed strdup maxArgs) s) (line.foldl Words.feed w) := by
  induction line generalizing s w with
  | nil => exact h
  | cons c line ih =>
    simp only [List.mem_cons, not_or] at hline
    exact ih hline.2 (h.feed (Ne.symm hline.1))

/-- The loop at its first character. -/
theorem sim_init (junk : Nat → UInt8) (strdup : Nat → Bool) (maxArgs n : Nat) :
    Sim strdup maxArgs n ⟨(List.range (n + 1)).map junk, 0, [], .none⟩ .none :=
  ⟨by simp [slots, Words.none], rfl, rfl, List.not_mem_nil, by simp, rfl⟩

/-- **What `parse_cmd` returns.** The words of the line, as many as fit, each
in its slot if it could be copied, and NULL behind them. -/
theorem parseCmd_eq (junk : Nat → UInt8) (strdup : Nat → Bool) {line : Bytes}
    (hne : cstr line ≠ []) (maxArgs : Nat) :
    parseCmd (some junk) strdup (some line) maxArgs =
      (((slots strdup maxArgs (words (cstr line))).length : Int) + 1,
        slots strdup maxArgs (words (cstr line)) ++ [none]) := by
  have hsim : Sim strdup maxArgs 0 _ _ := Sim.run (notMem_cstr line) (by
    rw [Nat.zero_add]
    exact sim_init junk strdup maxArgs _)
  have hargv : ∀ s, Sim strdup maxArgs 0 s ((cstr line).foldl Words.feed .none) →
      (if s.bufp ≠ 0 then s.endToken strdup maxArgs else s).argv =
        slots strdup maxArgs (words (cstr line)) := by
    intro s h
    have hcur : s.bufp ≠ 0 ↔ ((cstr line).foldl Words.feed .none).cur ≠ [] := by
      rw [h.bufp, ne_eq, List.length_eq_zero_iff]
    unfold words Words.all
    by_cases hz : s.bufp ≠ 0
    · rw [if_pos hz, if_pos (hcur.mp hz), h.endToken]
    · rw [if_neg hz, if_neg (mt hcur.mpr hz), h.argv]
  simp only [parseCmd, if_neg hne, malloc, Option.map_some, hargv _ hsim, List.length_append,
    List.length_singleton, Int.natCast_add, Int.natCast_one]

/-! ## Words that come back -/

/-- The characters the loop keeps for itself. -/
def Special (c : UInt8) : Prop := c = 92 ∨ c = 34 ∨ c = 39

instance : DecidablePred Special := fun c => inferInstanceAs (Decidable (c = 92 ∨ c = 34 ∨ c = 39))

/-- Neither a blank nor a character the loop keeps for itself. -/
def Plain (c : UInt8) : Prop := c ≠ 32 ∧ ¬ Special c

instance : DecidablePred Plain := fun c => inferInstanceAs (Decidable (c ≠ 32 ∧ ¬ Special c))

theorem react_special {c : UInt8} (h : Special c) : ∃ f, react .none c = .drop f := by
  rcases h with rfl | rfl | rfl <;> exact ⟨_, rfl⟩

theorem react_cut : react .none 32 = .cut := rfl

theorem react_put {c : UInt8} (h : Plain c) : react .none c = .put .none := by
  simp only [Plain, Special, not_or] at h
  simp [react, Flags.none, h.1, h.2.1, h.2.2.1, h.2.2.2]

/-- How many of them the words hold. -/
def Words.specials (w : Words) : Nat := (w.done.flatten ++ w.cur).countP (Special ·)

theorem flatten_all (w : Words) : w.all.flatten = w.done.flatten ++ w.cur := by
  unfold Words.all
  by_cases h : w.cur = []
  · simp [h]
  · simp [h]

theorem specials_feed (w : Words) (c : UInt8) :
    (w.feed c).specials ≤ w.specials + [c].countP (Special ·) := by
  unfold Words.feed Words.specials
  cases react w.flags c with
  | put f => simp only [List.countP_append]; omega
  | drop f => exact Nat.le_add_right _ _
  | cut => simp

theorem specials_run (line : Bytes) (w : Words) :
    (line.foldl Words.feed w).specials ≤ w.specials + line.countP (Special ·) := by
  induction line generalizing w with
  | nil => exact Nat.le_refl _
  | cons c line ih =>
    have hfeed := specials_feed w c
    have hrest := ih (w.feed c)
    rw [show c :: line = [c] ++ line from rfl, List.countP_append]
    simp only [List.singleton_append, List.foldl_cons]
    omega

/-- The first one, outside quotes, is lost. -/
theorem specials_lost {line : Bytes} {c : UInt8} (hc : c ∈ line) (hs : Special c) (w : Words)
    (hw : w.flags = .none) :
    (line.foldl Words.feed w).specials < w.specials + line.countP (Special ·) := by
  induction line generalizing w with
  | nil => exact absurd hc List.not_mem_nil
  | cons d line ih =>
    by_cases hd : Special d
    · obtain ⟨f, hf⟩ := react_special hd
      have hfeed : (w.feed d).specials = w.specials := by simp [Words.feed, hw, hf, Words.specials]
      have hrest := specials_run line (w.feed d)
      rw [List.countP_cons_of_pos (by simpa using hd), List.foldl_cons]
      omega
    · have hmem : c ∈ line := (List.mem_cons.mp hc).resolve_left fun h => hd (h ▸ hs)
      have hflags : (w.feed d).flags = .none := by
        by_cases hb : d = 32
        · subst hb; simp [Words.feed, hw, react_cut]
        · simp [Words.feed, hw, react_put ⟨hb, hd⟩]
      have hfeed := specials_feed w d
      rw [List.countP_cons_of_neg (by simpa using hd), List.countP_nil] at hfeed
      rw [List.countP_cons_of_neg (by simpa using hd), List.foldl_cons]
      have hrest := ih hmem (w.feed d) hflags
      omega

/-- Without them no word holds a blank. -/
theorem blank_notMem_run {line : Bytes} (hline : ∀ c ∈ line, ¬ Special c) (w : Words)
    (hw : w.flags = .none) (hd : (32 : UInt8) ∉ w.done.flatten ++ w.cur) :
    (32 : UInt8) ∉ (line.foldl Words.feed w).done.flatten ++ (line.foldl Words.feed w).cur := by
  induction line generalizing w with
  | nil => exact hd
  | cons c line ih =>
    have hrest : ∀ d ∈ line, ¬ Special d := fun d hm => hline d (List.mem_cons_of_mem _ hm)
    rw [List.foldl_cons]
    by_cases hb : c = 32
    · subst hb
      refine ih hrest _ (by simp [Words.feed, hw, react_cut]) ?_
      simpa [Words.feed, hw, react_cut] using hd
    · have hput := react_put ⟨hb, hline c List.mem_cons_self⟩
      refine ih hrest _ (by simp [Words.feed, hw, hput]) ?_
      simpa [Words.feed, hw, hput, Ne.symm hb] using hd

theorem feed_plain {a : Bytes} (ha : ∀ c ∈ a, Plain c) (w : Words) (hw : w.flags = .none) :
    a.foldl Words.feed w = { w with cur := w.cur ++ a } := by
  induction a generalizing w with
  | nil => simp
  | cons c a ih =>
    have hput : w.feed c = { w with cur := w.cur ++ [c] } := by
      simp [Words.feed, hw, react_put (ha c List.mem_cons_self)]
    have hrest := ih (fun d hm => ha d (List.mem_cons_of_mem _ hm)) { w with cur := w.cur ++ [c] } hw
    rw [List.foldl_cons, hput, hrest]
    simp

/-- Each argument, with the blank behind it. -/
def joined (args : List Bytes) : Bytes := args.flatMap fun a => a ++ [32]

theorem joined_cons (a : Bytes) (args : List Bytes) :
    joined (a :: args) = a ++ 32 :: joined args := by
  simp [joined]

theorem run_plain {args : List Bytes} (h : ∀ a ∈ args, ∀ c ∈ a, Plain c) (done : List Bytes) :
    (joined args).foldl Words.feed ⟨done, [], .none⟩ = ⟨done ++ args, [], .none⟩ := by
  induction args generalizing done with
  | nil => simp [joined]
  | cons a args ih =>
    rw [joined_cons, List.foldl_append, feed_plain (h a List.mem_cons_self) _ rfl, List.foldl_cons]
    have hcut : Words.feed ⟨done, [] ++ a, .none⟩ 32 = ⟨done ++ [a], [], .none⟩ := by
      simp [Words.feed, react_cut]
    rw [hcut, ih fun b hb => h b (List.mem_cons_of_mem _ hb)]
    simp

theorem countP_joined (args : List Bytes) :
    (joined args).countP (Special ·) = args.flatten.countP (Special ·) := by
  induction args with
  | nil => rfl
  | cons a args ih =>
    have hblank : ¬ Special 32 := by decide
    rw [joined_cons, List.countP_append, List.countP_cons_of_neg (by simpa using hblank), ih,
      List.flatten_cons, List.countP_append]

theorem mem_joined {a : Bytes} {args : List Bytes} (ha : a ∈ args) {c : UInt8} (hc : c ∈ a) :
    c ∈ joined args :=
  List.mem_flatMap.mpr ⟨a, ha, List.mem_append_left _ hc⟩

/-- **The line comes apart as it was joined** exactly when no argument holds a
blank, a quote or a backslash. -/
theorem words_joined_iff (args : List Bytes) :
    words (joined args) = args ↔ ∀ a ∈ args, ∀ c ∈ a, Plain c := by
  constructor
  · intro h
    have hflat : ((joined args).foldl Words.feed .none).done.flatten ++
        ((joined args).foldl Words.feed .none).cur = args.flatten := by
      rw [← flatten_all]
      exact congrArg List.flatten h
    -- no special character was lost on the way, so there was none
    have hnone : ∀ c ∈ joined args, ¬ Special c := by
      intro c hc hs
      have hlost := specials_lost hc hs .none rfl
      rw [countP_joined, Words.specials, hflat] at hlost
      simp [Words.specials, Words.none] at hlost
    have hblank := blank_notMem_run hnone .none rfl List.not_mem_nil
    rw [hflat] at hblank
    refine fun a ha c hc => ⟨?_, hnone c (mem_joined ha hc)⟩
    rintro rfl
    exact hblank (List.mem_flatten.mpr ⟨a, ha, hc⟩)
  · intro h
    unfold words
    rw [show Words.none = ⟨[], [], .none⟩ from rfl, run_plain h]
    simp [Words.all]

/-! ## What execvp is given -/

/-- Nothing stops the launch of `file` up to its `execvp`. -/
structure Env.Goes (E : Env) (file : Bytes) : Prop where
  access : E.access file = true
  lineMalloc : E.lineMalloc.isSome
  tokenMalloc : E.tokenMalloc.isSome
  strdup : ∀ n, E.strdup n = true
  fork : E.fork ≠ -1

/-- The buffer is long enough. -/
theorem commandLine_eq (execpath arg : Bytes) :
    commandLine execpath arg = cstr execpath ++ 32 :: cstr arg := by
  refine List.take_of_length_le ?_
  simp only [List.length_append, List.length_cons]; omega

theorem cstr_commandLine (execpath arg : Bytes) :
    cstr (commandLine execpath arg) = commandLine execpath arg := by
  refine cstr_of_notMem ?_
  rw [commandLine_eq]
  simp [notMem_cstr]

/-- Every copy succeeds. -/
theorem slots_of_dup {strdup : Nat → Bool} (h : ∀ n, strdup n = true) (maxArgs : Nat)
    (ws : List Bytes) : slots strdup maxArgs ws = (ws.take maxArgs).map some := by
  refine List.ext_getElem (by simp [slots]) fun i _ _ => ?_
  simp [slots, dup, h]

/-- The vector is the words of the line, and the file the first of them. -/
theorem launch_goes {E : Env} {path arg file : Bytes} {ws : List Bytes}
    (hE : E.Goes file) (hws : (words (commandLine path arg)).take (MAX_ARGS + 1) = file :: ws) :
    ssLaunchEvenifExist E (some path) (some arg) =
      ⟨E.fork, some (file, (file :: ws).map some ++ [none]), E.exec⟩ := by
  obtain ⟨junk₁, h₁⟩ := Option.isSome_iff_exists.mp hE.lineMalloc
  obtain ⟨junk₂, h₂⟩ := Option.isSome_iff_exists.mp hE.tokenMalloc
  have hne : cstr (commandLine path arg) ≠ [] := by
    rw [cstr_commandLine, commandLine_eq]
    simp
  simp only [ssLaunchEvenifExist, Option.getD_some, h₁, malloc, Option.map_some,
    launchAppCmdWithNice, h₂, parseCmd_eq junk₂ E.strdup hne, cstr_commandLine,
    slots_of_dup hE.strdup, hws]
  rw [if_neg (by omega)]
  simp [launchAppWithNice, hE.access, hE.fork]

/-- A launch fails, or there is a child, whose pid it returns. -/
theorem launch_cases (E : Env) (path arg : Option Bytes) :
    ssLaunchEvenifExist E path arg = .failed ∨
      E.fork ≠ -1 ∧ ∃ x, ssLaunchEvenifExist E path arg = ⟨E.fork, some x, E.exec⟩ := by
  unfold ssLaunchEvenifExist
  cases path with
  | none => exact .inl rfl
  | some path =>
    simp only
    split
    · exact .inl rfl
    · simp only [launchAppCmdWithNice]
      split
      · exact .inl rfl
      · unfold launchAppWithNice
        split
        · exact .inl rfl
        · split
          · exact .inl rfl
          · split
            · exact .inl rfl
            · rename_i hfork
              exact .inr ⟨hfork, _, rfl⟩

/-- A launch that reaches `execvp` gives it the words of the line. -/
theorem execvp_launch {E : Env} {path arg file : Bytes} {argv : List (Option Bytes)}
    (h : (ssLaunchEvenifExist E (some path) (some arg)).execvp = some (file, argv)) :
    argv = slots E.strdup (MAX_ARGS + 1) (words (commandLine path arg)) ++ [none] := by
  simp only [ssLaunchEvenifExist, Option.getD_some] at h
  cases h₁ : malloc E.lineMalloc ((cstr path).length + (cstr arg).length + 10) with
  | none => simp [h₁, Launched.failed] at h
  | some _ =>
    simp only [h₁, launchAppCmdWithNice] at h
    cases h₂ : E.tokenMalloc with
    | none => simp [h₂, parseCmd, malloc, Launched.failed] at h
    | some junk =>
      have hne : cstr (commandLine path arg) ≠ [] := by
        rw [cstr_commandLine, commandLine_eq]
        simp
      rw [h₂, parseCmd_eq junk E.strdup hne, cstr_commandLine, if_neg (by omega)] at h
      simp only [launchAppWithNice] at h
      split at h
      · cases h
      · split at h
        · cases h
        · split at h
          · cases h
          · exact ((Prod.mk.inj (Option.some.inj h)).2).symm

end SystemServer.L4.Launch
