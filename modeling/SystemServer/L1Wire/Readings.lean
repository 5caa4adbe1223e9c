import SystemServer.L1Wire.Recv

/-!
# What a stream can be taken for

A field that does not arrive in full is completed by leftover memory, which
may hold anything; a failed `read` makes an int -1 and a string NULL. `Taken`
lists the headers a stream can be taken for, one field after the other,
without naming the memory. `taken_iff`: these are the headers `read_message`
gets from the stream, over all contents of memory.
-/
namespace SystemServer.L1.Readings

open SystemServer.L1.Recv

/-- The bytes that arrived, and any bytes in place of the others. -/
def Completes (n : Nat) (bs full : Bytes) : Prop := full.length = n ∧ bs <+: full

inductive IntTaken (es : List Rd) : Int → List Rd → Prop where
  | failed (es') (h : readRetry 4 es = (none, es')) : IntTaken es (-1) es'
  | got (bs full es') (h : readRetry 4 es = (some bs, es')) (hf : Completes 4 bs full) :
      IntTaken es (intOf full) es'

section

variable (al : Nat → Bool)

/-- A string after its length. `n` `malloc`s were made before it; `al` says
which of them succeed. -/
inductive BodyTaken (len : Int) (es : List Rd) (n : Nat) : Option Bytes → List Rd → Nat → Prop where
  | refused (h : len ≤ 0 ∨ INT_MAX ≤ len) : BodyTaken len es n none es n
  | noMem (h : 0 < len ∧ len < INT_MAX) (hal : al n = false) : BodyTaken len es n none es (n + 1)
  | failed (es') (h : 0 < len ∧ len < INT_MAX) (hal : al n = true)
      (hr : readRetry len.toNat es = (none, es')) : BodyTaken len es n none es' (n + 1)
  | got (bs full es') (h : 0 < len ∧ len < INT_MAX) (hal : al n = true)
      (hr : readRetry len.toNat es = (some bs, es')) (hf : Completes len.toNat bs full) :
      BodyTaken len es n (some full) es' (n + 1)

/-- A length that could not be read is -1, which is refused. -/
def StrTaken (es : List Rd) (n : Nat) (p : Option Bytes) (es' : List Rd) (n' : Nat) : Prop :=
  ∃ len es₁, IntTaken es len es₁ ∧ BodyTaken al len es₁ n p es' n'

/-- What decides about a request; the path does not. -/
structure Header where
  pid : Int
  cmd : Int
  type : Option Bytes
  argc : Int

def Taken (es : List Rd) (n : Nat) (h : Header) : Prop :=
  ∃ es₁ es₂ es₃ es₄ es₅ n₃ n₄ path, IntTaken es h.pid es₁ ∧ IntTaken es₁ h.cmd es₂ ∧
    StrTaken al es₂ n h.type es₃ n₃ ∧ StrTaken al es₃ n₃ path es₄ n₄ ∧ IntTaken es₄ h.argc es₅

end

/-- The header of a decoded message. -/
def headerOf (msg : Sysnoti) : Header := ⟨msg.pid, msg.cmd, msg.type.map Str.bytes, msg.argc⟩

@[simp] theorem headerOf_cmd (msg : Sysnoti) : (headerOf msg).cmd = msg.cmd := rfl

@[simp] theorem headerOf_argc (msg : Sysnoti) : (headerOf msg).argc = msg.argc := rfl

@[simp] theorem headerOf_argv (msg : Sysnoti) (argv : List CPtr) :
    headerOf { msg with argv := argv } = headerOf msg := rfl

/-! ## What `read_message` gets is one of them -/

theorem readRetry_length (n : Nat) (es : List Rd) {bs : Bytes} {es' : List Rd}
    (h : readRetry n es = (some bs, es')) : bs.length ≤ n := by
  induction es with
  | nil => cases h; exact Nat.zero_le _
  | cons e es ih =>
    cases e with
    | eintr => exact ih h
    | err => cases h
    | data cs =>
      simp only [readRetry] at h
      split at h
      · cases h; assumption
      · cases h
        rw [List.length_take]; exact Nat.min_le_left _ _

theorem completes_fill (junk : Nat → UInt8) {n : Nat} {bs : Bytes} (h : bs.length ≤ n) :
    Completes n bs (fill junk n bs) :=
  ⟨fill_length junk n h, List.prefix_append _ _⟩

theorem recvInt_taken (M : Mem) (c : Conn) : IntTaken c.evs (recvInt M c).1 (recvInt M c).2.evs := by
  unfold recvInt
  split
  · rename_i es hr; exact .failed es hr
  · rename_i bs es hr
    exact .got bs _ es hr (completes_fill _ (readRetry_length 4 c.evs hr))

theorem recvBody_taken (M : Mem) (len : Int) (c : Conn) :
    BodyTaken M.alloc len c.evs c.heap ((recvBody M len c).1.map Str.bytes) (recvBody M len c).2.evs
      (recvBody M len c).2.heap := by
  unfold recvBody
  split
  · rename_i h; exact .refused (.inl h)
  split
  · rename_i h; exact .refused (.inr h)
  rename_i hpos hmax
  have hlen : 0 < len ∧ len < INT_MAX := ⟨Int.not_le.mp hpos, Int.not_le.mp hmax⟩
  split
  · rename_i hal; exact .noMem hlen hal
  rename_i hal
  rw [Bool.not_eq_false] at hal
  split
  · rename_i es hr; exact .failed es hlen hal hr
  · rename_i bs es hr
    exact .got bs _ es hlen hal hr (completes_fill _ (readRetry_length _ c.evs hr))

theorem recvStr_taken (M : Mem) (c : Conn) :
    StrTaken M.alloc c.evs c.heap ((recvStr M c).1.map Str.bytes) (recvStr M c).2.evs
      (recvStr M c).2.heap := by
  unfold recvStr
  split
  · rename_i es hr
    exact ⟨-1, es, .failed es hr, .refused (.inl (by decide))⟩
  · rename_i bs es hr
    have hf := completes_fill (M.stack c.calls) (readRetry_length 4 c.evs hr)
    refine ⟨_, es, .got bs _ es hr hf, ?_⟩
    exact recvBody_taken M _ { c with evs := es, calls := c.calls + 1 }

theorem recvInt_heap (M : Mem) (c : Conn) : (recvInt M c).2.heap = c.heap := by
  unfold recvInt; split <;> rfl

theorem readHeader_taken (M : Mem) (c : Conn) :
    Taken M.alloc c.evs c.heap (headerOf (readHeader M c).1) := by
  have hpid := recvInt_taken M c
  have hcmd := recvInt_taken M (recvInt M c).2
  have htype := recvStr_taken M (recvInt M (recvInt M c).2).2
  rw [recvInt_heap, recvInt_heap] at htype
  have hpath := recvStr_taken M (recvStr M (recvInt M (recvInt M c).2).2).2
  have hargc := recvInt_taken M (recvStr M (recvStr M (recvInt M (recvInt M c).2).2).2).2
  simp only [readHeader, headerOf]
  exact ⟨_, _, _, _, _, _, _, _, hpid, hcmd, htype, hpath, hargc⟩

/-! ## Some memory makes it get each of them -/

theorem exists_fill {n : Nat} {bs full : Bytes} (h : Completes n bs full) :
    ∃ junk, fill junk n bs = full := by
  obtain ⟨hn, t, rfl⟩ := h
  refine ⟨fun i => t.getD (i - bs.length) 0, ?_⟩
  have ht : n - bs.length = t.length := by
    rw [List.length_append] at hn; omega
  unfold fill
  rw [ht]
  congr 1
  apply List.ext_getElem
  · simp
  · intro i h₁ h₂
    simp [h₂]

theorem recvInt_of_taken {es es' : List Rd} {v : Int} (h : IntTaken es v es') :
    ∃ junk, ∀ M c, c.evs = es → M.stack c.calls = junk →
      recvInt M c = (v, { c with evs := es', calls := c.calls + 1 }) := by
  cases h with
  | failed _ hr =>
    refine ⟨fun _ => 0, fun M c hes _ => ?_⟩
    simp only [recvInt, hes, hr]
  | got bs full _ hr hf =>
    obtain ⟨junk, rfl⟩ := exists_fill hf
    refine ⟨junk, fun M c hes hst => ?_⟩
    simp only [recvInt, hes, hr, hst]

theorem recvBody_of_taken {al : Nat → Bool} {len : Int} {es es' : List Rd} {n n' : Nat}
    {p : Option Bytes} (h : BodyTaken al len es n p es' n') :
    ∃ junk, ∀ M c, M.alloc = al → c.evs = es → c.heap = n → (n' = n ∨ M.block n = junk) →
      (recvBody M len c).1.map Str.bytes = p ∧
        (recvBody M len c).2 = { c with evs := es', heap := n' } := by
  have hin : 0 < len ∧ len < INT_MAX → ¬ len ≤ 0 ∧ ¬ INT_MAX ≤ len :=
    fun h => ⟨Int.not_le.mpr h.1, Int.not_le.mpr h.2⟩
  cases h with
  | refused h =>
    refine ⟨fun _ => 0, fun M c _ hes hn _ => ?_⟩
    have hbody : recvBody M len c = (none, c) := by
      unfold recvBody
      by_cases hle : len ≤ 0
      · rw [if_pos hle]
      · rw [if_neg hle, if_pos (h.resolve_left hle)]
    rw [hbody, ← hes, ← hn]
    exact ⟨rfl, rfl⟩
  | noMem h hal =>
    refine ⟨fun _ => 0, fun M c hM hes hn _ => ?_⟩
    have hbody : recvBody M len c = (none, { c with heap := n + 1 }) := by
      simp only [recvBody, if_neg (hin h).1, if_neg (hin h).2, hM, hn, hal, if_true]
    rw [hbody, ← hes]
    exact ⟨rfl, rfl⟩
  | failed _ h hal hr =>
    refine ⟨fun _ => 0, fun M c hM hes hn _ => ?_⟩
    have hbody : recvBody M len c = (none, { c with evs := es', heap := n + 1 }) := by
      simp only [recvBody, if_neg (hin h).1, if_neg (hin h).2, hM, hn, hal, hes, hr,
        Bool.true_eq_false, if_false]
    rw [hbody]
    exact ⟨rfl, rfl⟩
  | got bs full _ h hal hr hf =>
    obtain ⟨junk, rfl⟩ := exists_fill hf
    refine ⟨junk, fun M c hM hes hn hbl => ?_⟩
    have hblock := hbl.resolve_left (Nat.succ_ne_self n)
    have hbody : recvBody M len c =
        (some ⟨n, fill junk len.toNat bs⟩, { c with evs := es', heap := n + 1 }) := by
      simp only [recvBody, if_neg (hin h).1, if_neg (hin h).2, hM, hn, hal, hes, hr, hblock,
        Bool.true_eq_false, if_false]
    rw [hbody]
    exact ⟨rfl, rfl⟩

/-- A length of -1 comes to the same as a length that could not be read. -/
theorem recvStr_body {M : Mem} {c : Conn} {len : Int} {c' : Conn} (h : recvInt M c = (len, c')) :
    recvStr M c = recvBody M len c' := by
  unfold recvInt at h
  unfold recvStr
  split at h
  · cases h; rfl
  · cases h; rfl

theorem recvStr_of_taken {al : Nat → Bool} {es es' : List Rd} {n n' : Nat} {p : Option Bytes}
    (h : StrTaken al es n p es' n') :
    ∃ junk blk, ∀ M c, M.alloc = al → c.evs = es → c.heap = n → M.stack c.calls = junk →
      (n' = n ∨ M.block n = blk) → (recvStr M c).1.map Str.bytes = p ∧
        (recvStr M c).2 = { c with evs := es', calls := c.calls + 1, heap := n' } := by
  obtain ⟨len, es₁, hlen, hbody⟩ := h
  obtain ⟨junk, hint⟩ := recvInt_of_taken hlen
  obtain ⟨blk, hblk⟩ := recvBody_of_taken hbody
  refine ⟨junk, blk, fun M c hM hes hn hst hbl => ?_⟩
  rw [recvStr_body (hint M c hes hst)]
  exact hblk M { c with evs := es₁, calls := c.calls + 1 } hM rfl hn hbl

theorem readHeader_of_taken {al : Nat → Bool} {c : Conn} {h : Header}
    (ht : Taken al c.evs c.heap h) : ∃ st bl, headerOf (readHeader ⟨st, bl, al⟩ c).1 = h := by
  obtain ⟨es₁, es₂, es₃, es₄, es₅, n₃, n₄, path, hpid, hcmd, htype, hpath, hargc⟩ := ht
  obtain ⟨j₀, h₀⟩ := recvInt_of_taken hpid
  obtain ⟨j₁, h₁⟩ := recvInt_of_taken hcmd
  obtain ⟨j₂, b₂, h₂⟩ := recvStr_of_taken htype
  obtain ⟨j₃, b₃, h₃⟩ := recvStr_of_taken hpath
  obtain ⟨j₄, h₄⟩ := recvInt_of_taken hargc
  -- each local and each block holds what its field needs; a block that is not
  -- granted leaves its number to the next one
  refine ⟨fun i => if i = c.calls then j₀ else if i = c.calls + 1 then j₁ else
    if i = c.calls + 2 then j₂ else if i = c.calls + 3 then j₃ else j₄,
    fun i => if i = n₃ then b₃ else b₂, ?_⟩
  generalize hM : (⟨_, _, al⟩ : Mem) = M
  have hst₀ : M.stack c.calls = j₀ := by rw [← hM]; simp
  have hst₁ : M.stack (c.calls + 1) = j₁ := by rw [← hM]; simp
  have hst₂ : M.stack (c.calls + 2) = j₂ := by rw [← hM]; simp
  have hst₃ : M.stack (c.calls + 3) = j₃ := by rw [← hM]; simp
  have hst₄ : M.stack (c.calls + 4) = j₄ := by rw [← hM]; simp
  have hal : M.alloc = al := by rw [← hM]
  have hb₂ : n₃ = c.heap ∨ M.block c.heap = b₂ := by
    by_cases hn : n₃ = c.heap
    · exact .inl hn
    · refine .inr ?_
      rw [← hM]
      exact if_neg (Ne.symm hn)
  have hb₃ : n₄ = n₃ ∨ M.block n₃ = b₃ := by
    refine .inr ?_
    rw [← hM]
    exact if_pos rfl
  have e₀ := h₀ M c rfl hst₀
  have e₁ := h₁ M { c with evs := es₁, calls := c.calls + 1 } rfl hst₁
  have e₂ := h₂ M { c with evs := es₂, calls := c.calls + 2 } hal rfl rfl hst₂ hb₂
  have e₃ := h₃ M { c with evs := es₃, calls := c.calls + 3, heap := n₃ } hal rfl rfl hst₃ hb₃
  have e₄ := h₄ M { c with evs := es₄, calls := c.calls + 4, heap := n₄ } rfl hst₄
  simp only [readHeader, headerOf, e₀, e₁, e₂.1, e₂.2, e₃.2, e₄]

/-- **The headers of a stream.** What `read_message` gets from a stream
before the arguments, over all contents of memory, is what the stream can be
taken for. -/
theorem taken_iff (al : Nat → Bool) (c : Conn) (P : Header → Prop) :
    (∀ st bl, P (headerOf (readHeader ⟨st, bl, al⟩ c).1)) ↔ ∀ h, Taken al c.evs c.heap h → P h := by
  constructor
  · intro hall h ht
    obtain ⟨st, bl, rfl⟩ := readHeader_of_taken ht
    exact hall st bl
  · intro hall st bl
    exact hall _ (readHeader_taken ⟨st, bl, al⟩ c)

end SystemServer.L1.Readings
