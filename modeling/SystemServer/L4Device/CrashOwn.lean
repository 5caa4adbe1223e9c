import SystemServer.L4Device.CrashLog

/-!
# Whose data a crash worker gets (`ss_bs.c`)

One buffer, `args`, takes all lines of the log. What a short line leaves
behind its NUL is what earlier lines put there, or what the stack held, and
the search for a blank goes on into it: a line without a blank of its own
takes the first one that is left over.

`ownData_iff`: what a line comes to depends on that line alone, exactly when
it has a blank or is so long that a blank behind it would come too late.

The file does not change while the pass reads; the lines before the one that
is looked at have all been launched, with any pids.
-/
namespace SystemServer.L4.CrashOwn

open SystemServer.L4.CrashLog

/-- A line without its newline. -/
structure Line where
  text : Bytes
  plain : ∀ b ∈ text, b ≠ 0 ∧ b ≠ 10
  short : text.length < ARGS - 1

def Line.bytes (L : Line) : Bytes := L.text ++ [10]

/-- Who wrote a line plays no part here. -/
def Line.cells (L : Line) : List Cell := L.bytes.map (Cell.mk 0)

def logOf (lines : List Line) : Log := ⟨lines.flatMap Line.cells, fun _ => 0, .idle, [], [], 0⟩

/-- A launch for every line before `line` has succeeded, which is next. -/
def Reaches (stack : Nat → UInt8) (before : List Line) (line : Line) (after : List Line) (s : Log) :
    Prop :=
  ∃ pids : List Int, pids.length = before.length ∧ (∀ pid ∈ pids, 0 < pid) ∧
    ((fopen stack (logOf (before ++ line :: after))).bind fun s =>
      pids.foldlM (fun s pid => launch pid s) s) = some s

/-- What the worker is launched with, if there is a launch. -/
def Found.arg : Found → Option Bytes
  | .worker arg _ => some arg
  | _ => none

/-- The launch for the next line of the pass. -/
def launchFor (s : Log) : Option Bytes :=
  match s.pc with
  | .reading pos _ _ args => Found.arg (readLine (nextLine pos s) args)
  | _ => none

/-- Two passes that reach the line launch the same for it. -/
def OwnData (line : Line) : Prop :=
  ∀ stack₁ stack₂ before₁ before₂ after₁ after₂ s₁ s₂,
    Reaches stack₁ before₁ line after₁ s₁ → Reaches stack₂ before₂ line after₂ s₂ →
    launchFor s₁ = launchFor s₂

/-- The same where the stack holds the same before both. -/
def OwnDataOf (line : Line) : Prop :=
  ∀ stack before₁ before₂ after₁ after₂ s₁ s₂,
    Reaches stack before₁ line after₁ s₁ → Reaches stack before₂ line after₂ s₂ →
    launchFor s₁ = launchFor s₂

/-- The line has a blank, or one behind its two NULs would come too late. -/
def Contained (line : Line) : Prop := (32 : UInt8) ∈ line.text ∨ NAME_MAX - 1 ≤ line.text.length + 2

/-! ## A line in the buffer -/

/-- The buffer when it is searched: the newline has become a NUL. -/
def buffer (text args : Bytes) : Bytes := text ++ 0 :: 0 :: args.drop (text.length + 2)

/-- From the search on. -/
def found (args : Bytes) : Found :=
  match args.findIdx? (· = 32) with
  | none => .skip args
  | some i =>
    if NAME_MAX - 1 ≤ i then .skip args
    else .worker (workerArgs i args) (store args (workerArgs i args))

theorem cells_bytes (L : Line) : L.cells.map Cell.byte = L.bytes := by
  simp [Line.cells, Function.comp_def]

theorem readLine_text (L : Line) (args : Bytes) :
    readLine L.cells args = found (buffer L.text args) := by
  have htext : (0 : UInt8) ∉ L.bytes := by
    intro h
    rw [Line.bytes, List.mem_append, List.mem_singleton] at h
    obtain h | h := h
    · exact (L.plain 0 h).1 rfl
    · cases h
  have hlen : L.bytes.length - 1 = L.text.length := by simp [Line.bytes]
  have hlast : (store args L.bytes).getD L.text.length 0 = 10 := by simp [store, Line.bytes]
  have hchomp : (store args L.bytes).set L.text.length 0 = buffer L.text args := by
    simp [store, Line.bytes, buffer]
  simp only [readLine, cells_bytes, strlen_store args htext, hlen, hlast, hchomp, ne_eq,
    not_true_eq_false, if_false]
  rfl

/-- Without a blank of the line's own the search goes on to what is left over. -/
theorem findBlank_leftover {text : Bytes} (hblank : (32 : UInt8) ∉ text) (args : Bytes) :
    (buffer text args).findIdx? (· = 32) =
      ((args.drop (text.length + 2)).findIdx? (· = 32)).map (· + (text.length + 2)) := by
  have htext : text.findIdx? (· = 32) = none := by
    rw [List.findIdx?_eq_none_iff]
    intro b hb
    rw [decide_eq_false_iff_not]
    rintro rfl
    exact hblank hb
  rw [buffer, List.findIdx?_append, htext, Option.none_or, List.findIdx?_cons, List.findIdx?_cons]
  simp [Function.comp_def, Nat.add_comm, Nat.add_left_comm]

/-- The name before the blank, and what is behind it up to its NUL. -/
theorem workerArgs_split {name rest : Bytes} (hname : (0 : UInt8) ∉ name) (hrest : (0 : UInt8) ∉ rest)
    (junk : Bytes) : workerArgs name.length (name ++ 32 :: (rest ++ 0 :: junk)) =
      (name ++ 32 :: rest.take (MAX_INPUT - 1)).take (ARGS - 1) := by
  rw [workerArgs, List.take_left, cstr_of_notMem hname, ← List.drop_drop, List.drop_left,
    List.drop_succ_cons, List.drop_zero, cstr_append_nul hrest]

/-- The launch by the first blank. -/
theorem found_split {name rest : Bytes} (hname : ∀ b ∈ name, b ≠ 0 ∧ b ≠ 32)
    (hrest : (0 : UInt8) ∉ rest) (junk : Bytes) :
    found (name ++ 32 :: (rest ++ 0 :: junk)) =
      if NAME_MAX - 1 ≤ name.length then .skip (name ++ 32 :: (rest ++ 0 :: junk))
      else .worker ((name ++ 32 :: rest.take (MAX_INPUT - 1)).take (ARGS - 1))
        (store (name ++ 32 :: (rest ++ 0 :: junk))
          ((name ++ 32 :: rest.take (MAX_INPUT - 1)).take (ARGS - 1))) := by
  have hzero : (0 : UInt8) ∉ name := fun h => (hname 0 h).1 rfl
  rw [found, findBlank name _ fun b hb => (hname b hb).2]
  simp only [workerArgs_split hzero hrest]

/-- A blank of the line's own decides, and nothing behind the line is read. -/
theorem found_blank {text : Bytes} (h0 : (0 : UInt8) ∉ text) (hblank : (32 : UInt8) ∈ text)
    (args args' : Bytes) :
    Found.arg (found (buffer text args)) = Found.arg (found (buffer text args')) := by
  obtain ⟨name, rest, rfl, hfirst⟩ := List.eq_append_cons_of_mem hblank
  simp only [List.mem_append, List.mem_cons, not_or] at h0
  have hname : ∀ b ∈ name, b ≠ 0 ∧ b ≠ 32 := fun b hb =>
    ⟨fun h => h0.1 (h ▸ hb), fun h => hfirst (h ▸ hb)⟩
  have hfound : ∀ args : Bytes, Found.arg (found (buffer (name ++ 32 :: rest) args)) =
      if NAME_MAX - 1 ≤ name.length then none
      else some ((name ++ 32 :: rest.take (MAX_INPUT - 1)).take (ARGS - 1)) := by
    intro args
    rw [buffer, List.append_assoc, List.cons_append, found_split hname h0.2.2]
    split <;> rfl
  rw [hfound args, hfound args']

/-- A blank behind a long line comes too late. -/
theorem found_late {text : Bytes} (hblank : (32 : UInt8) ∉ text)
    (hlen : NAME_MAX - 1 ≤ text.length + 2) (args : Bytes) :
    Found.arg (found (buffer text args)) = none := by
  rw [found, findBlank_leftover hblank]
  cases (args.drop (text.length + 2)).findIdx? (· = 32) with
  | none => rfl
  | some i =>
    have hlate : NAME_MAX - 1 ≤ i + (text.length + 2) := by omega
    simp only [Option.map_some, if_pos hlate]
    rfl

/-! ## The pass at a line -/

/-- The pass is at the line that follows `before`. -/
structure At (before : List Line) (lines : List Line) (s : Log) : Prop where
  file : s.file = (before ++ lines).flatMap Line.cells
  pos : ∃ own ret args, s.pc = .reading (before.flatMap Line.cells).length own ret args

theorem nextLine_at (before : List Line) {L : Line} {lines : List Line} {s : Log}
    (hfile : s.file = (before ++ L :: lines).flatMap Line.cells) :
    nextLine (before.flatMap Line.cells).length s = L.cells := by
  have hnewline : (10 : UInt8) ∉ (L.text.map (Cell.mk 0)).map Cell.byte := by
    rw [List.map_map]
    intro h
    obtain ⟨b, hb, rfl⟩ := List.mem_map.mp h
    exact (L.plain _ hb).2 rfl
  have hcells : L.cells = L.text.map (Cell.mk 0) ++ [Cell.mk 0 10] := by simp [Line.cells, Line.bytes]
  have hshort := L.short
  rw [nextLine, hfile, List.flatMap_append, List.drop_left, List.flatMap_cons, hcells,
    List.append_assoc, List.singleton_append]
  exact getLine_newline hnewline rfl (by rw [List.length_map]; exact hshort) _

theorem launch_at {before lines : List Line} {L : Line} {s s' : Log} {pid : Int} (hpid : 0 < pid)
    (h : At before (L :: lines) s) (hl : launch pid s = some s') : At (before ++ [L]) lines s' := by
  obtain ⟨own, ret, args, hpc⟩ := h.pos
  have hnext := nextLine_at before h.file
  have hne : L.cells ≠ [] := by simp [Line.cells, Line.bytes]
  simp only [launch, hpc, hnext, if_neg hne] at hl
  split at hl
  · rw [if_neg (by omega), if_pos hpid] at hl
    obtain rfl := Option.some.inj hl
    have hpos : (before.flatMap Line.cells).length + L.cells.length =
        ((before ++ [L]).flatMap Line.cells).length := by simp
    refine ⟨?_, own + 1, pid, _, by rw [← hpos]⟩
    rw [List.append_assoc]
    exact h.file
  · cases hl

/-- One launch for each line. -/
theorem launches_at (before : List Line) {more lines : List Line} {s s' : Log} {pids : List Int}
    (hlen : pids.length = more.length) (hpids : ∀ pid ∈ pids, 0 < pid) (h : At before (more ++ lines) s)
    (hl : pids.foldlM (fun s pid => launch pid s) s = some s') : At (before ++ more) lines s' := by
  induction pids generalizing before more s with
  | nil =>
    obtain rfl : more = [] := List.length_eq_zero_iff.mp hlen.symm
    obtain rfl : s = s' := Option.some.inj hl
    rw [List.append_nil]
    exact h
  | cons pid pids ih =>
    obtain ⟨L, more, rfl⟩ := List.exists_cons_of_length_eq_add_one hlen.symm
    rw [List.foldlM_cons] at hl
    obtain ⟨s₁, hfirst, hrest⟩ := Option.bind_eq_some_iff.mp hl
    have h₁ := launch_at (hpids pid List.mem_cons_self) h hfirst
    have hrestPids := fun p hp => hpids p (List.mem_cons_of_mem pid hp)
    have hall := ih (before ++ [L]) (by simpa using hlen) hrestPids h₁ hrest
    rwa [List.append_assoc] at hall

theorem reaches_at {stack : Nat → UInt8} {before after : List Line} {line : Line} {s : Log}
    (h : Reaches stack before line after s) : At before (line :: after) s := by
  obtain ⟨pids, hlen, hpids, hs⟩ := h
  exact launches_at [] hlen hpids ⟨rfl, _, _, _, rfl⟩ hs

/-- What a line comes to depends on what the buffer holds there. -/
theorem launchFor_at {before after : List Line} {line : Line} {s : Log}
    (h : At before (line :: after) s) :
    ∃ args, launchFor s = Found.arg (found (buffer line.text args)) := by
  obtain ⟨own, ret, args, hpc⟩ := h.pos
  refine ⟨args, ?_⟩
  simp only [launchFor, hpc, nextLine_at before h.file, readLine_text]

theorem ownData_of_contained {line : Line} (h : Contained line) : OwnData line := by
  intro stack₁ stack₂ before₁ before₂ after₁ after₂ s₁ s₂ h₁ h₂
  obtain ⟨args₁, hfor₁⟩ := launchFor_at (reaches_at h₁)
  obtain ⟨args₂, hfor₂⟩ := launchFor_at (reaches_at h₂)
  rw [hfor₁, hfor₂]
  by_cases hblank : (32 : UInt8) ∈ line.text
  · exact found_blank (fun h0 => (line.plain 0 h0).1 rfl) hblank args₁ args₂
  · have hlen := h.resolve_left hblank
    rw [found_late hblank hlen, found_late hblank hlen]

/-! ## A line that finds what is left over -/

/-- The buffer is blank-free before the first line. -/
def zeros : Nat → UInt8 := fun _ => 0

/-- A name of `n` bytes and the colour "b". -/
def marker (n : Nat) (hn : n < NAME_MAX - 1) : Line where
  text := List.replicate n 97 ++ [32, 98]
  plain b hb := by
    simp only [List.mem_append, List.mem_replicate, List.mem_cons, List.not_mem_nil, or_false] at hb
    rcases hb with ⟨-, rfl⟩ | rfl | rfl <;> decide
  short := by
    rw [List.length_append, List.length_replicate]
    simp only [NAME_MAX, ARGS, MAX_INPUT, List.length_cons, List.length_nil] at hn ⊢
    omega

/-- Of the marker its own line stays in the buffer. -/
theorem found_marker (n : Nat) (hn : n < NAME_MAX - 1) (args : Bytes) :
    ∃ junk, found (buffer (marker n hn).text args) =
      .worker (marker n hn).text ((marker n hn).text ++ 0 :: junk) := by
  have hname : ∀ b ∈ List.replicate n (97 : UInt8), b ≠ 0 ∧ b ≠ 32 := by
    intro b hb
    rw [List.eq_of_mem_replicate hb]
    decide
  have hfit : (List.replicate n (97 : UInt8) ++ 32 :: [(98 : UInt8)].take (MAX_INPUT - 1)).take (ARGS - 1) =
      (marker n hn).text := by
    refine List.take_of_length_le ?_
    have := (marker n hn).short
    exact Nat.le_of_lt this
  have hbuffer : buffer (marker n hn).text args = List.replicate n 97 ++ 32 ::
      ([98] ++ 0 :: (0 :: args.drop ((marker n hn).text.length + 2))) := by
    simp [buffer, marker]
  rw [hbuffer, found_split hname (by decide), List.length_replicate, if_neg (by omega), hfit, store]
  exact ⟨_, rfl⟩

/-- The pass at its first line. -/
def opened (lines : List Line) : Log :=
  { logOf lines with pc := .reading 0 0 (-1) ((List.range ARGS).map zeros) }

theorem opened_pc (lines : List Line) :
    (opened lines).pc = .reading 0 0 (-1) ((List.range ARGS).map zeros) := rfl

theorem reaches_first (line : Line) (after : List Line) :
    Reaches zeros [] line after (opened (line :: after)) :=
  ⟨[], rfl, fun _ h => absurd h List.not_mem_nil, rfl⟩

theorem reaches_marker (n : Nat) (hn : n < NAME_MAX - 1) (line : Line) (after : List Line) :
    ∃ s junk, Reaches zeros [marker n hn] line after s ∧
      s.pc = .reading (0 + (marker n hn).cells.length) 1 7 ((marker n hn).text ++ 0 :: junk) := by
  obtain ⟨junk, hfound⟩ := found_marker n hn ((List.range ARGS).map zeros)
  have hnext : nextLine 0 (opened (marker n hn :: line :: after)) = (marker n hn).cells :=
    nextLine_at [] rfl
  have hne : (marker n hn).cells ≠ [] := by simp [Line.cells, Line.bytes]
  have hlaunch : ∃ s, launch 7 (opened (marker n hn :: line :: after)) = some s ∧
      s.pc = .reading (0 + (marker n hn).cells.length) 1 7 ((marker n hn).text ++ 0 :: junk) := by
    simp only [launch, opened_pc, hnext, if_neg hne, readLine_text, hfound]
    exact ⟨_, rfl, rfl⟩
  obtain ⟨s, hs, hpc⟩ := hlaunch
  refine ⟨s, junk, ⟨[7], rfl, fun pid hpid => ?_, ?_⟩, hpc⟩
  · rw [List.mem_singleton.mp hpid]
    decide
  · show [(7 : Int)].foldlM (fun s pid => launch pid s) (opened (marker n hn :: line :: after)) = some s
    rw [List.foldlM_cons, hs]
    rfl

/-- In zeros there is no blank. -/
theorem findBlank_zeros (n k : Nat) : (((List.range n).map zeros).drop k).findIdx? (· = 32) = none := by
  rw [List.findIdx?_eq_none_iff]
  intro b hb
  obtain ⟨i, -, rfl⟩ := List.mem_map.mp (List.mem_of_mem_drop hb)
  rfl

/-- Without a blank a short line takes the marker's, and no worker where there
is no marker. -/
theorem contained_of_ownDataOf {line : Line} (h : OwnDataOf line) : Contained line := by
  by_contra hcontained
  rw [Contained, not_or, Nat.not_le] at hcontained
  obtain ⟨hblank, hlen⟩ := hcontained
  obtain ⟨s, junk, hreach, hpc⟩ := reaches_marker (line.text.length + 2) hlen line []
  have hfirst : launchFor (opened [line]) = none := by
    have hnext : nextLine 0 (opened [line]) = line.cells := nextLine_at [] rfl
    simp only [launchFor, opened_pc, hnext, readLine_text, found, findBlank_leftover hblank,
      findBlank_zeros]
    rfl
  have hmarker : (launchFor s).isSome := by
    have hnext : nextLine (0 + (marker (line.text.length + 2) hlen).cells.length) s = line.cells := by
      have hat := nextLine_at _ (reaches_at hreach).file
      simpa using hat
    have hdrop : ((marker (line.text.length + 2) hlen).text ++ 0 :: junk).drop (line.text.length + 2) =
        32 :: 98 :: 0 :: junk := by
      simp [marker]
    simp only [launchFor, hpc, hnext, readLine_text, found, findBlank_leftover hblank, hdrop]
    rw [List.findIdx?_cons]
    simp only [decide_true, if_true, Option.map_some, Nat.zero_add, if_neg (Nat.not_le.mpr hlen)]
    rfl
  have hsame := h zeros [] [_] [] [] _ s (reaches_first line []) hreach
  rw [← hsame, hfirst] at hmarker
  cases hmarker

/-- **A crash worker's own data.** Whether there is a launch for a line, and
with what, depends on that line alone, whatever the lines before it were and
whatever the buffer held at the start, if and only if the line has a blank or
has at least NAME_MAX - 3 bytes. It is no different where the buffer held the
same at the start. -/
theorem ownData_iff (line : Line) : (OwnData line ↔ Contained line) ∧ (OwnDataOf line ↔ Contained line) := by
  have hsame : OwnData line → OwnDataOf line := fun h stack => h stack stack
  exact ⟨⟨fun h => contained_of_ownDataOf (hsame h), ownData_of_contained⟩,
    ⟨contained_of_ownDataOf, fun h => hsame (ownData_of_contained h)⟩⟩

/-- Two texts with a blank, and one without. -/
theorem plain_texts : (∀ b ∈ lit "abcdefgh x", b ≠ 0 ∧ b ≠ 10) ∧ (∀ b ∈ lit "ab x", b ≠ 0 ∧ b ≠ 10) ∧
    ∀ b ∈ lit "z", b ≠ 0 ∧ b ≠ 10 := by
  simp [lit]

theorem short_texts : (lit "abcdefgh x").length < ARGS - 1 ∧ (lit "ab x").length < ARGS - 1 ∧
    (lit "z").length < ARGS - 1 := by
  decide

def long : Line := ⟨lit "abcdefgh x", plain_texts.1, short_texts.1⟩

def short : Line := ⟨lit "ab x", plain_texts.2.1, short_texts.2.1⟩

def bare : Line := ⟨lit "z", plain_texts.2.2, short_texts.2.2⟩

/-- The pass that has launched a worker with pid 7 for `first`. -/
def behind (first : Line) : Option Log :=
  (fopen zeros (logOf [first, bare])).bind fun s => [(7 : Int)].foldlM (fun s pid => launch pid s) s

/-- Behind the long line "z" is launched with the long line's colour, behind
the short one it is not launched. -/
theorem leftover_launched :
    (∃ s₁ s₂, Reaches zeros [long] bare [] s₁ ∧ Reaches zeros [short] bare [] s₂ ∧
      launchFor s₁ = some (lit "z x") ∧ launchFor s₂ = none) ∧ ¬ OwnDataOf bare := by
  obtain ⟨s₁, h₁, hfor₁⟩ := Option.map_eq_some_iff.mp
    (show (behind long).map launchFor = some (some (lit "z x")) by decide +kernel)
  obtain ⟨s₂, h₂, hfor₂⟩ := Option.map_eq_some_iff.mp
    (show (behind short).map launchFor = some none by decide +kernel)
  have hseven : ∀ pid ∈ [(7 : Int)], 0 < pid := by decide
  have hreach₁ : Reaches zeros [long] bare [] s₁ := ⟨[7], rfl, hseven, h₁⟩
  have hreach₂ : Reaches zeros [short] bare [] s₂ := ⟨[7], rfl, hseven, h₂⟩
  refine ⟨⟨s₁, s₂, hreach₁, hreach₂, hfor₁, hfor₂⟩, fun h => ?_⟩
  have hsame := h zeros [long] [short] [] [] s₁ s₂ hreach₁ hreach₂
  rw [hfor₁, hfor₂] at hsame
  cases hsame

end SystemServer.L4.CrashOwn
