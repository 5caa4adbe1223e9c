import SystemServer.L4Device.Launch

/-!
# Command lines (`ss_launch.c`)

What `parse_cmd` makes of a line, in terms of how the line is written.

* `parse_quoted`: an argument is written in pieces, some of them quoted
  (`Piece`); `argv` holds what the arguments say.
* `token_in_block`: the loop writes to its block of memory within bounds only,
  and terminates what it copies.
* `argv_bound_iff`: the words of a line are stored only as far as `max_args`
  goes, but the NULL behind them is stored wherever they end, so the array is
  left exactly when there are `max_args` words or more.
-/
namespace SystemServer.L4.CommandLine

open SystemServer.L4.Launch

/-! ## How arguments are written -/

inductive Quote where
  | double
  | single
  deriving DecidableEq, Repr

def Quote.char : Quote → UInt8
  | .double => 34
  | .single => 39

/-- The flags between two quotes. -/
def Quote.flags : Quote → Flags
  | .double => ⟨false, false, true⟩
  | .single => ⟨false, true, false⟩

/-- A character between two quotes, as it is or behind a backslash. -/
inductive Inner (q : Quote) where
  | plain (c : UInt8) (text : c ≠ 0) (hc : c ≠ 92 ∧ c ≠ q.char)
  | escaped (c : UInt8) (text : c ≠ 0)

def Inner.content {q : Quote} : Inner q → UInt8
  | .plain c _ _ => c
  | .escaped c _ => c

def Inner.written {q : Quote} : Inner q → Bytes
  | .plain c _ _ => [c]
  | .escaped c _ => [92, c]

inductive Piece where
  | plain (c : UInt8) (text : c ≠ 0) (hc : Plain c)
  | escaped (c : UInt8) (text : c ≠ 0)
  | quoted (q : Quote) (run : List (Inner q))

def Piece.content : Piece → Bytes
  | .plain c _ _ => [c]
  | .escaped c _ => [c]
  | .quoted _ run => run.map Inner.content

def Piece.written : Piece → Bytes
  | .plain c _ _ => [c]
  | .escaped c _ => [92, c]
  | .quoted q run => q.char :: (run.flatMap Inner.written ++ [q.char])

def content (a : List Piece) : Bytes := a.flatMap Piece.content

/-- The arguments as they are written, with a blank between each two. -/
def line (args : List (List Piece)) : Bytes :=
  [32].intercalate (args.map fun a => a.flatMap Piece.written)

/-! ## Reading them -/

theorem react_quote (q : Quote) :
    react .none q.char = .drop q.flags ∧ react q.flags q.char = .drop .none := by
  cases q <;> decide

theorem react_inner {q : Quote} {c : UInt8} (hc : c ≠ 92 ∧ c ≠ q.char) :
    react q.flags c = .put q.flags := by
  cases q with
  | double => simp_all [react, Quote.flags, Quote.char]
  | single => simp_all [react, Quote.flags, Quote.char]

/-- A backslash takes the next character along, whatever it is. -/
theorem feed_escaped {f : Flags} (hf : f.escape = false) (c : UInt8) (done : List Bytes)
    (cur : Bytes) :
    [92, c].foldl Words.feed ⟨done, cur, f⟩ = ⟨done, cur ++ [c], f⟩ := by
  have hback : react f 92 = .drop { f with escape := true } := by
    simp [react, hf]
  have hnext : react { f with escape := true } c = .put f := by
    rw [react, if_pos rfl, ← hf]
  simp only [List.foldl_cons, List.foldl_nil, Words.feed, hback, hnext]

theorem feed_inner {q : Quote} (i : Inner q) (done : List Bytes) (cur : Bytes) :
    i.written.foldl Words.feed ⟨done, cur, q.flags⟩ = ⟨done, cur ++ [i.content], q.flags⟩ := by
  cases i with
  | plain c _ hc =>
    simp only [Inner.written, Inner.content, List.foldl_cons, List.foldl_nil, Words.feed,
      react_inner hc]
  | escaped c _ => exact feed_escaped (by cases q <;> rfl) c done cur

theorem feed_run {q : Quote} (run : List (Inner q)) (done : List Bytes) (cur : Bytes) :
    (run.flatMap Inner.written).foldl Words.feed ⟨done, cur, q.flags⟩ =
      ⟨done, cur ++ run.map Inner.content, q.flags⟩ := by
  induction run generalizing cur with
  | nil => simp
  | cons i run ih =>
    rw [List.flatMap_cons, List.foldl_append, feed_inner, ih, List.map_cons, List.append_assoc,
      List.singleton_append]

/-- A piece adds its content to the word under way. -/
theorem feed_piece (p : Piece) (done : List Bytes) (cur : Bytes) :
    p.written.foldl Words.feed ⟨done, cur, .none⟩ = ⟨done, cur ++ p.content, .none⟩ := by
  cases p with
  | plain c _ hc =>
    simp only [Piece.written, Piece.content, List.foldl_cons, List.foldl_nil, Words.feed,
      react_put hc]
  | escaped c _ => exact feed_escaped rfl c done cur
  | quoted q run =>
    have hopen : Words.feed ⟨done, cur, .none⟩ q.char = ⟨done, cur, q.flags⟩ := by
      simp only [Words.feed, (react_quote q).1]
    have hclose : Words.feed ⟨done, cur ++ run.map Inner.content, q.flags⟩ q.char =
        ⟨done, cur ++ run.map Inner.content, .none⟩ := by
      simp only [Words.feed, (react_quote q).2]
    rw [Piece.written, List.foldl_cons, hopen, List.foldl_append, feed_run, List.foldl_cons, hclose]
    rfl

theorem feed_arg (a : List Piece) (done : List Bytes) (cur : Bytes) :
    (a.flatMap Piece.written).foldl Words.feed ⟨done, cur, .none⟩ =
      ⟨done, cur ++ content a, .none⟩ := by
  induction a generalizing cur with
  | nil => simp [content]
  | cons p a ih =>
    rw [List.flatMap_cons, List.foldl_append, feed_piece, ih, content, content, List.flatMap_cons,
      List.append_assoc]

/-- All but the last argument are ended by a blank. -/
theorem feed_line (args : List (List Piece)) (last : List Piece) (done : List Bytes) :
    (line (args ++ [last])).foldl Words.feed ⟨done, [], .none⟩ =
      ⟨done ++ args.map content, content last, .none⟩ := by
  induction args generalizing done with
  | nil => simp [line, feed_arg]
  | cons a args ih =>
    have hne : (args ++ [last]).map (fun a => a.flatMap Piece.written) ≠ [] := by simp
    have hline : line (a :: args ++ [last]) = a.flatMap Piece.written ++ 32 :: line (args ++ [last]) := by
      rw [line, List.cons_append, List.map_cons, List.intercalate_cons_of_ne_nil hne, line]
      simp
    have hcut : Words.feed ⟨done, content a, .none⟩ 32 = ⟨done ++ [content a], [], .none⟩ := by
      simp only [Words.feed, react_cut]
    rw [hline, List.foldl_append, feed_arg, List.nil_append, List.foldl_cons, hcut, ih, List.map_cons,
      List.append_assoc, List.singleton_append]

theorem words_line {args : List (List Piece)} (hne : args ≠ [])
    (hlast : content (args.getLast hne) ≠ []) : words (line args) = args.map content := by
  obtain ⟨init, last, hargs⟩ := (List.eq_nil_or_concat args).resolve_left hne
  rw [List.concat_eq_append] at hargs
  subst hargs
  rw [List.getLast_append_singleton] at hlast
  rw [words, show Words.none = ⟨[], [], .none⟩ from rfl, feed_line, Words.all, if_pos hlast]
  simp

theorem piece_text (p : Piece) : (0 : UInt8) ∉ p.written := by
  cases p with
  | plain c text _ => simpa [Piece.written] using Ne.symm text
  | escaped c text => simpa [Piece.written] using Ne.symm text
  | quoted q run =>
    have hquote : (0 : UInt8) ≠ q.char := by cases q <;> decide
    have hrun : (0 : UInt8) ∉ run.flatMap Inner.written := by
      intro h
      obtain ⟨i, -, hi⟩ := List.mem_flatMap.mp h
      cases i with
      | plain c text _ => exact text (List.mem_singleton.mp hi).symm
      | escaped c text => simp [Inner.written, Ne.symm text] at hi
    simp [Piece.written, hquote, hrun]

theorem line_text (args : List (List Piece)) : (0 : UInt8) ∉ line args := by
  have harg : ∀ a : List Piece, (0 : UInt8) ∉ a.flatMap Piece.written := by
    intro a h
    obtain ⟨p, -, hp⟩ := List.mem_flatMap.mp h
    exact piece_text p hp
  induction args with
  | nil => simp [line]
  | cons a args ih =>
    cases args with
    | nil => simpa [line] using harg a
    | cons b args =>
      have hline : line (a :: b :: args) = a.flatMap Piece.written ++ 32 :: line (b :: args) := by
        simp [line, List.intercalate_cons_cons]
      rw [hline]
      simp [harg a, ih]

/-- A word is more than its line only where there is a line. -/
theorem line_ne_nil {args : List (List Piece)} (hne : args ≠ [])
    (hlast : content (args.getLast hne) ≠ []) : line args ≠ [] := by
  intro hnil
  have hwords := words_line hne hlast
  rw [hnil] at hwords
  exact hne (List.map_eq_nil_iff.mp hwords.symm)

/-- **Quoted arguments come back.** At most MAX_ARGS arguments written in
pieces, the last of them not empty, with a blank between each two: `parse_cmd` returns
their number plus one and leaves their contents and a NULL, each content in
its slot if it could be copied; -1 where there is no memory for the line. -/
theorem parse_quoted (args : List (List Piece)) (hne : args ≠ []) (hlen : args.length ≤ MAX_ARGS)
    (hlast : content (args.getLast hne) ≠ []) (m : Malloc) (strdup : Nat → Bool) :
    (m = none → parseCmd m strdup (some (line args)) (MAX_ARGS + 1) = (-1, [])) ∧
      (m ≠ none → parseCmd m strdup (some (line args)) (MAX_ARGS + 1) =
        ((args.length : Int) + 1, (args.map content).mapIdx (dup strdup) ++ [none])) ∧
      (m ≠ none → (∀ n, strdup n = true) →
        (parseCmd m strdup (some (line args)) (MAX_ARGS + 1)).2 = (args.map content).map some ++ [none]) := by
  have hcstr : cstr (line args) = line args := cstr_of_notMem (line_text args)
  have hfit : (args.map content).take (MAX_ARGS + 1) = args.map content :=
    List.take_of_length_le (by rw [List.length_map]; exact Nat.le_succ_of_le hlen)
  have hall : m ≠ none → parseCmd m strdup (some (line args)) (MAX_ARGS + 1) =
      ((args.length : Int) + 1, (args.map content).mapIdx (dup strdup) ++ [none]) := by
    intro hm
    obtain ⟨junk, rfl⟩ := Option.ne_none_iff_exists'.mp hm
    rw [parseCmd_eq junk strdup (by rw [hcstr]; exact line_ne_nil hne hlast), hcstr,
      words_line hne hlast, slots, hfit]
    simp
  refine ⟨fun hm => ?_, hall, fun hm hdup => ?_⟩
  · rw [hm, parseCmd, if_neg (by rw [hcstr]; exact line_ne_nil hne hlast)]
    rfl
  · have hslots := slots_of_dup hdup (MAX_ARGS + 1) (args.map content)
    rw [slots, hfit] at hslots
    rw [hall hm, hslots]

/-- `a"b \"c" \ '' d` -/
def someArgs : List (List Piece) :=
  [[.plain 97 (by decide) (by decide),
      .quoted .double [.plain 98 (by decide) (by decide), .plain 32 (by decide) (by decide),
        .escaped 34 (by decide), .plain 99 (by decide) (by decide)]],
    [.escaped 32 (by decide)], [.quoted .single []], [.plain 100 (by decide) (by decide)]]

theorem parse_someArgs : line someArgs = lit "a\"b \\\"c\" \\  '' d" ∧
    (parseCmd (some fun _ => 0) (fun _ => true) (some (line someArgs)) (MAX_ARGS + 1)).2 =
      [lit "ab \"c", lit " ", [], lit "d"].map some ++ [none] := by
  refine ⟨by decide, ?_⟩
  exact (parse_quoted someArgs (by decide) (by decide) (by decide) (some fun _ => 0)
    fun _ => true).2.2 (by decide) fun _ => rfl

/-! ## The block of a token -/

/-- What the loop does to a block of some size, with `bufp` at some offset. -/
inductive Access where
  | write (size bufp : Nat)
  | copy (buf : Bytes) (bufp : Nat)

/-- The loop, and what it has done to its block so far. -/
structure Traced where
  scan : Scan
  log : List Access

/-- `*bufp = c`. -/
def Traced.poke (c : UInt8) (t : Traced) : Traced :=
  ⟨{ t.scan with buf := t.scan.buf.set t.scan.bufp c },
    t.log ++ [.write t.scan.buf.length t.scan.bufp]⟩

/-- mirrors ss_launch.c:112-114,127-129 -/
def Traced.endToken (strdup : Nat → Bool) (maxArgs : Nat) (t : Traced) : Traced :=
  let t := t.poke 0
  if t.scan.argv.length < maxArgs then
    ⟨{ t.scan with argv := t.scan.argv ++ [dup strdup t.scan.argv.length (cstr t.scan.buf)] },
      t.log ++ [.copy t.scan.buf t.scan.bufp]⟩
  else t

/-- mirrors ss_launch.c:89-124 -/
def Traced.feed (strdup : Nat → Bool) (maxArgs : Nat) (t : Traced) (c : UInt8) : Traced :=
  match react t.scan.flags c with
  | .put f =>
    let t := t.poke c
    { t with scan := { t.scan with bufp := t.scan.bufp + 1, flags := f } }
  | .drop f => { t with scan := { t.scan with flags := f } }
  | .cut =>
    let t := t.endToken strdup maxArgs
    { t with scan := { t.scan with bufp := 0 } }

/-- The loop after the first `n` characters of a line.
mirrors ss_launch.c:83-124 -/
def scanned (junk : Nat → UInt8) (strdup : Nat → Bool) (maxArgs : Nat) (line : Bytes) (n : Nat) :
    Traced :=
  ((cstr line).take n).foldl (Traced.feed strdup maxArgs)
    ⟨⟨(List.range ((cstr line).length + 1)).map junk, 0, [], .none⟩, []⟩

/-- The whole of it.
mirrors ss_launch.c:83-130 -/
def traced (junk : Nat → UInt8) (strdup : Nat → Bool) (maxArgs : Nat) (line : Bytes) : Traced :=
  let t := scanned junk strdup maxArgs line (cstr line).length
  if t.scan.bufp ≠ 0 then t.endToken strdup maxArgs else t

theorem scan_endToken (strdup : Nat → Bool) (maxArgs : Nat) (t : Traced) :
    (t.endToken strdup maxArgs).scan = t.scan.endToken strdup maxArgs := by
  unfold Traced.endToken Scan.endToken Traced.poke
  simp only
  split <;> rfl

theorem scan_feed (strdup : Nat → Bool) (maxArgs : Nat) (t : Traced) (c : UInt8) :
    (t.feed strdup maxArgs c).scan = t.scan.feed strdup maxArgs c := by
  unfold Traced.feed Scan.feed
  cases react t.scan.flags c with
  | put f => rfl
  | drop f => rfl
  | cut => simp only [scan_endToken]

theorem scan_run (strdup : Nat → Bool) (maxArgs : Nat) (cs : Bytes) (t : Traced) :
    (cs.foldl (Traced.feed strdup maxArgs) t).scan =
      cs.foldl (Scan.feed strdup maxArgs) t.scan := by
  induction cs generalizing t with
  | nil => rfl
  | cons c cs ih => rw [List.foldl_cons, ih, scan_feed, List.foldl_cons]

/-- This is the loop of `parse_cmd`. -/
theorem parseCmd_traced (junk : Nat → UInt8) (strdup : Nat → Bool) (maxArgs : Nat) {line : Bytes}
    (hne : cstr line ≠ []) :
    parseCmd (some junk) strdup (some line) maxArgs =
      (((traced junk strdup maxArgs line).scan.argv ++ [none]).length,
        (traced junk strdup maxArgs line).scan.argv ++ [none]) := by
  simp only [parseCmd, if_neg hne, malloc, Option.map_some, traced, scanned, List.take_length]
  rw [← scan_run strdup maxArgs (cstr line)
    ⟨⟨(List.range ((cstr line).length + 1)).map junk, 0, [], .none⟩, []⟩]
  split
  · rw [scan_endToken]
  · rfl

/-- A write in a block for `n` characters and a NUL, or a copy of such a block
that ends where `bufp` is. -/
def Access.Fits (n : Nat) : Access → Prop
  | .write size bufp => size = n + 1 ∧ bufp ≤ n
  | .copy buf bufp => buf.length = n + 1 ∧ buf[bufp]? = some 0 ∧ (cstr buf).length = bufp

/-- The loop on a line of `n` characters, `rest` of them to go. -/
structure InBlock (strdup : Nat → Bool) (maxArgs n rest : Nat) (t : Traced) (w : Words) : Prop where
  sim : Sim strdup maxArgs rest t.scan w
  size : t.scan.buf.length = n + 1
  log : ∀ a ∈ t.log, a.Fits n

variable {strdup : Nat → Bool} {maxArgs n rest : Nat} {t : Traced} {w : Words}

theorem InBlock.bufp_le (h : InBlock strdup maxArgs n rest t w) : t.scan.bufp + rest ≤ n := by
  have hroom := h.sim.room
  rw [h.size] at hroom
  omega

theorem InBlock.poke (h : InBlock strdup maxArgs n rest t w) (c : UInt8) :
    ∀ a ∈ (t.poke c).log, a.Fits n := by
  have hle := h.bufp_le
  intro a ha
  simp only [Traced.poke, List.mem_append, List.mem_singleton] at ha
  rcases ha with ha | rfl
  · exact h.log a ha
  · exact ⟨h.size, by omega⟩

/-- The NUL is behind the token, and there is none in it. -/
theorem InBlock.endToken (h : InBlock strdup maxArgs n rest t w) :
    ∀ a ∈ (t.endToken strdup maxArgs).log, a.Fits n := by
  unfold Traced.endToken
  simp only
  split
  · intro a ha
    rcases List.mem_append.mp ha with ha | ha
    · exact h.poke 0 a ha
    · obtain rfl := List.mem_singleton.mp ha
      refine ⟨?_, ?_, ?_⟩
      · simp only [Traced.poke, List.length_set]
        exact h.size
      · simp [Traced.poke, h.sim.lt]
      · simp only [Traced.poke]
        rw [h.sim.copy, h.sim.bufp]
  · exact h.poke 0

theorem InBlock.feed {c : UInt8} (hc : c ≠ 0) (h : InBlock strdup maxArgs n (rest + 1) t w) :
    InBlock strdup maxArgs n rest (t.feed strdup maxArgs c) (w.feed c) := by
  have hsim := h.sim.feed hc
  rw [← scan_feed] at hsim
  refine ⟨hsim, ?_, ?_⟩
  · rw [scan_feed, Scan.feed]
    cases react t.scan.flags c <;> simp [Scan.endToken, h.size]
  · unfold Traced.feed
    cases react t.scan.flags c with
    | put f => exact h.poke c
    | drop f => exact h.log
    | cut => exact h.endToken

theorem InBlock.run {cs : Bytes} (hcs : (0 : UInt8) ∉ cs)
    (h : InBlock strdup maxArgs n (rest + cs.length) t w) :
    InBlock strdup maxArgs n rest (cs.foldl (Traced.feed strdup maxArgs) t)
      (cs.foldl Words.feed w) := by
  induction cs generalizing t w with
  | nil => exact h
  | cons c cs ih =>
    simp only [List.mem_cons, not_or] at hcs
    exact ih hcs.2 (h.feed (Ne.symm hcs.1))

theorem inBlock_scanned (junk : Nat → UInt8) (strdup : Nat → Bool) (maxArgs : Nat) (line : Bytes)
    (n : Nat) :
    InBlock strdup maxArgs (cstr line).length ((cstr line).drop n).length
      (scanned junk strdup maxArgs line n) (((cstr line).take n).foldl Words.feed .none) := by
  have hlen : ((cstr line).drop n).length + ((cstr line).take n).length = (cstr line).length := by
    rw [List.length_drop, List.length_take]
    omega
  refine InBlock.run (fun h => notMem_cstr line (List.mem_of_mem_take h)) ?_
  rw [hlen]
  exact ⟨sim_init junk strdup maxArgs _, by simp, fun a ha => absurd ha List.not_mem_nil⟩

/-- **The block is never left.** At every round the token is no longer than
what was read of the line, and all that `parse_cmd` does to its block of
`strlen(cmdline) + 1` bytes is to write at offsets up to `strlen(cmdline)`, and
to copy it with the NUL behind the token. -/
theorem token_in_block (junk : Nat → UInt8) (strdup : Nat → Bool) (maxArgs : Nat) (line : Bytes) :
    (∀ n, (scanned junk strdup maxArgs line n).scan.bufp ≤ ((cstr line).take n).length) ∧
      ∀ a ∈ (traced junk strdup maxArgs line).log, a.Fits (cstr line).length := by
  constructor
  · intro n
    have hle := (inBlock_scanned junk strdup maxArgs line n).bufp_le
    rw [List.length_drop] at hle
    rw [List.length_take]
    omega
  · have hall := inBlock_scanned junk strdup maxArgs line (cstr line).length
    unfold traced
    simp only
    split
    · exact hall.endToken
    · exact hall.log

/-! ## The bound of the vector -/

/-- All writes are to slots below `max_args` (`argv` is what was written, from
the first slot on), and unless -1 is returned one of these slots holds NULL. -/
structure InBounds (maxArgs : Nat) (r : Int × List (Option Bytes)) : Prop where
  below : r.2.length ≤ maxArgs
  ended : r.1 ≠ -1 → ∃ i < maxArgs, r.2[i]? = some none

/-- The words of a line, if there is one. -/
def tokens (cmdline : Option Bytes) : List Bytes := words ((cmdline.map cstr).getD [])

theorem inBounds_failed (maxArgs : Nat) : InBounds maxArgs (-1, []) :=
  ⟨Nat.zero_le _, fun h => absurd rfl h⟩

/-- The NULL behind the words takes a slot. -/
theorem inBounds_slots_iff (strdup : Nat → Bool) (maxArgs : Nat) (ws : List Bytes) :
    InBounds maxArgs (((slots strdup maxArgs ws).length : Int) + 1, slots strdup maxArgs ws ++ [none]) ↔
      ws.length < maxArgs := by
  have hlen := slots_length strdup maxArgs ws
  constructor
  · intro h
    have hbelow := h.below
    rw [List.length_append, List.length_singleton] at hbelow
    omega
  · intro h
    refine ⟨?_, fun _ => ⟨(slots strdup maxArgs ws).length, ?_, ?_⟩⟩
    · rw [List.length_append, List.length_singleton]
      omega
    · omega
    · exact List.getElem?_concat_length

/-- **The bound of `argv`.** `parse_cmd` writes below `max_args` only and ends
the vector there if and only if there is no memory for the line, or the line
has fewer than `max_args` words. -/
theorem argv_bound_iff (m : Malloc) (strdup : Nat → Bool) (cmdline : Option Bytes) (maxArgs : Nat)
    (hmax : 1 ≤ maxArgs) :
    InBounds maxArgs (parseCmd m strdup cmdline maxArgs) ↔
      m = none ∨ (tokens cmdline).length < maxArgs := by
  cases cmdline with
  | none => exact iff_of_true (inBounds_failed maxArgs) (.inr hmax)
  | some line =>
    by_cases hline : cstr line = []
    · rw [parseCmd, if_pos hline]
      refine iff_of_true (inBounds_failed maxArgs) (.inr ?_)
      rw [tokens, Option.map_some, Option.getD_some, hline]
      exact hmax
    · cases m with
      | none =>
        rw [parseCmd, if_neg hline]
        exact iff_of_true (inBounds_failed maxArgs) (.inl rfl)
      | some junk =>
        rw [parseCmd_eq junk strdup hline, inBounds_slots_iff]
        exact ⟨.inr, fun h => h.resolve_left (Option.some_ne_none junk)⟩

theorem argv_bound_two :
    InBounds 3 (parseCmd (some fun _ => 0) (fun _ => true) (some (lit "a b")) 3) :=
  (argv_bound_iff _ _ _ 3 (by decide)).mpr (.inr (by decide))

/-- A line of 256 words "a", each with a blank behind it. -/
def manyWords : Bytes := joined (List.replicate (MAX_ARGS + 1) (lit "a"))

theorem words_manyWords : cstr manyWords = manyWords ∧
    words manyWords = List.replicate (MAX_ARGS + 1) (lit "a") := by
  have hplain : ∀ a ∈ List.replicate (MAX_ARGS + 1) (lit "a"), ∀ c ∈ a, Plain c := by
    intro a ha c hc
    rw [List.eq_of_mem_replicate ha] at hc
    obtain rfl : c = 97 := List.mem_singleton.mp hc
    decide
  refine ⟨cstr_of_notMem fun h => ?_, (words_joined_iff _).mpr hplain⟩
  obtain ⟨a, ha, hc⟩ := List.mem_flatMap.mp h
  rw [List.eq_of_mem_replicate ha] at hc
  exact absurd hc (by decide)

/-- The array of `launch_app_cmd_with_nice` has `MAX_ARGS + 1` slots; the NULL
goes behind it. -/
theorem argv_overflow :
    (parseCmd (some fun _ => 0) (fun _ => true) (some manyWords) (MAX_ARGS + 1)).2[MAX_ARGS + 1]? =
      some none ∧
    ¬ InBounds (MAX_ARGS + 1)
      (parseCmd (some fun _ => 0) (fun _ => true) (some manyWords) (MAX_ARGS + 1)) := by
  obtain ⟨hcstr, hwords⟩ := words_manyWords
  have hne : cstr manyWords ≠ [] := by
    rw [hcstr]
    exact List.cons_ne_nil _ _
  rw [parseCmd_eq _ _ hne, hcstr, hwords, inBounds_slots_iff, List.length_replicate]
  refine ⟨?_, Nat.lt_irrefl _⟩
  have hlen : (slots (fun _ => true) (MAX_ARGS + 1)
      (List.replicate (MAX_ARGS + 1) (lit "a"))).length = MAX_ARGS + 1 := by
    rw [slots_length, List.length_replicate, Nat.min_self]
  generalize slots (fun _ => true) (MAX_ARGS + 1) (List.replicate (MAX_ARGS + 1) (lit "a")) = xs
    at hlen
  rw [← hlen]
  exact List.getElem?_concat_length

end SystemServer.L4.CommandLine
