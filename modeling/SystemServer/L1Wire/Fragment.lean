import SystemServer.L1Wire.Recv

/-!
# A request in pieces: when `read_message` yields the message that was sent

The wire format `read_message` implements is `WireMsg.encode`. A stream
socket may deliver it in any pieces (`Pieces`: non-empty chunks, with
interruptions in between); `recv_int` and `recv_str` make one `read` for
each field and take whatever it returned for the whole field. So the
message comes out right exactly when no `read` comes back short:

* `WholeReads`: every `read` of a field returns the whole field.
* `spelled_iff`: the same, one item (an int, a string) at a time. A short
  int leaves bytes of a local unwritten, which two different contents tell
  apart (`recvInt_iff`); a short length can turn negative and a short body
  be cut off by a NUL (`recvStr_iff`).
* `readMessage_yields_iff`: whatever uninitialised memory holds,
  `read_message` yields the message that was sent, if and only if the reads
  are whole, the blocks are granted and no string is `INT_MAX` bytes long.
-/
namespace SystemServer.L1.Fragment

open SystemServer.L1.Recv

/-! ## The wire format -/

/-- A string that can be sent. -/
structure WStr where
  bytes : Bytes
  ne : bytes ≠ []
  nul : (0 : UInt8) ∉ bytes
  len : (bytes.length : Int) ≤ INT_MAX

structure WireMsg where
  pid : Int
  cmd : Int
  pidInt : IsInt pid
  cmdInt : IsInt cmd
  type : WStr
  path : WStr
  args : List WStr
  argsLe : args.length ≤ SYSMAN_MAXARG

inductive Item where
  | int (v : Int) (h : IsInt v)
  | str (w : WStr)

/-- What the code reads for an item, one `read` each. -/
def Item.fields : Item → List Bytes
  | .int v _ => [intBytes v]
  | .str w => [intBytes w.bytes.length, w.bytes]

theorem WStr.isInt (w : WStr) : IsInt w.bytes.length := by
  have := w.len
  simp only [IsInt, INT_MIN, INT_MAX] at this ⊢; omega

theorem WStr.pos (w : WStr) : 0 < w.bytes.length := List.length_pos_iff.mpr w.ne

theorem WireMsg.argsInt (m : WireMsg) : IsInt m.args.length := by
  have := m.argsLe
  simp only [IsInt, INT_MIN, INT_MAX, SYSMAN_MAXARG] at this ⊢; omega

def WireMsg.items (m : WireMsg) : List Item :=
  [.int m.pid m.pidInt, .int m.cmd m.cmdInt, .str m.type, .str m.path,
    .int m.args.length m.argsInt] ++ m.args.map .str

def WireMsg.fields (m : WireMsg) : List Bytes := m.items.flatMap Item.fields

def WireMsg.encode (m : WireMsg) : Bytes := m.fields.flatten

/-- `p` points to the string `w`. -/
def PointsTo (p : CPtr) (w : WStr) : Prop := p.map (fun s => cstr s.bytes) = some w.bytes

/-- The decoded message is the one that was sent. -/
structure WireMsg.Spells (m : WireMsg) (msg : Sysnoti) : Prop where
  pid : msg.pid = m.pid
  cmd : msg.cmd = m.cmd
  type : PointsTo msg.type m.type
  path : PointsTo msg.path m.path
  argc : msg.argc = m.args.length
  argv : List.Forall₂ PointsTo msg.argv m.args

/-! ## Pieces -/

def payload : List Rd → Bytes
  | [] => []
  | .data bs :: es => bs ++ payload es
  | _ :: es => payload es

/-- The bytes `bs`, delivered in non-empty pieces with interruptions. -/
def Pieces (es : List Rd) (bs : Bytes) : Prop :=
  (∀ e ∈ es, e ≠ .err ∧ e ≠ .data []) ∧ payload es = bs

/-- Every `read` of a field of `fs` returns the whole field. -/
def WholeReads : List Bytes → List Rd → Prop
  | [], _ => True
  | f :: fs, es => (readRetry f.length es).1 = some f ∧ WholeReads fs (readRetry f.length es).2

def decWholeReads : ∀ (fs : List Bytes) (es : List Rd), Decidable (WholeReads fs es)
  | [], _ => .isTrue trivial
  | f :: fs, es =>
    have := decWholeReads fs (readRetry f.length es).2
    inferInstanceAs (Decidable (_ ∧ _))

instance (fs : List Bytes) (es : List Rd) : Decidable (WholeReads fs es) := decWholeReads fs es

/-- The events left after `fs` was read, one `read` for each field. -/
def afterReads : List Bytes → List Rd → List Rd
  | [], es => es
  | f :: fs, es => afterReads fs (readRetry f.length es).2

theorem wholeReads_append (fs gs : List Bytes) (es : List Rd) :
    WholeReads (fs ++ gs) es ↔ WholeReads fs es ∧ WholeReads gs (afterReads fs es) := by
  induction fs generalizing es with
  | nil => simp [WholeReads, afterReads]
  | cons f fs ih => simp only [List.cons_append, WholeReads, afterReads, ih, and_assoc]

/-- A `read` of pieces returns some of their first bytes, at least one, and
leaves pieces. -/
theorem readRetry_pieces {n : Nat} (hn : 0 < n) {es : List Rd} {bs : Bytes} (h : Pieces es bs)
    (hb : bs ≠ []) : ∃ k es', readRetry n es = (some (bs.take k), es') ∧ 0 < k ∧ k ≤ n ∧
      k ≤ bs.length ∧ Pieces es' (bs.drop k) := by
  induction es with
  | nil => exact absurd h.2.symm hb
  | cons e es ih =>
    obtain ⟨hall, hpay⟩ := h
    have htl : ∀ e ∈ es, e ≠ .err ∧ e ≠ .data [] := fun e he => hall e (List.mem_cons_of_mem _ he)
    cases e with
    | eintr => exact ih ⟨htl, hpay⟩
    | err => exact absurd rfl (hall _ List.mem_cons_self).1
    | data cs =>
      simp only [payload] at hpay
      subst hpay
      have hcs : 0 < cs.length := by
        refine List.length_pos_iff.mpr fun h0 => (hall _ List.mem_cons_self).2 ?_
        rw [h0]
      simp only [readRetry]
      split
      · refine ⟨cs.length, es, by simp, hcs, by assumption, by simp, htl, ?_⟩
        simp
      · rename_i hlen
        refine ⟨n, .data (cs.drop n) :: es, ?_, hn, Nat.le_refl n, ?_, ?_, ?_⟩
        · rw [List.take_append_of_le_length (by omega)]
        · simp only [List.length_append]; omega
        · intro e he
          rcases List.mem_cons.mp he with rfl | he
          · refine ⟨by simp, fun h0 => ?_⟩
            simp only [Rd.data.injEq, List.drop_eq_nil_iff] at h0; omega
          · exact htl e he
        · rw [payload, List.drop_append_of_le_length (by omega)]

/-- What a `read` of the field `f` returns while `f` is next on the wire. -/
theorem readRetry_field {f rest : Bytes} (hf : f ≠ []) {es : List Rd} (h : Pieces es (f ++ rest)) :
    ∃ k es', readRetry f.length es = (some (f.take k), es') ∧ k ≤ f.length ∧
      (k = f.length → Pieces es' rest) := by
  have hpos := List.length_pos_iff.mpr hf
  obtain ⟨k, es', hr, -, hk, -, hp⟩ := readRetry_pieces hpos h (by simp [hf])
  refine ⟨k, es', ?_, hk, fun he => ?_⟩
  · rw [hr, List.take_append_of_le_length hk]
  · subst he; simpa using hp

theorem take_eq_self_iff {f : Bytes} {k : Nat} (hk : k ≤ f.length) : f.take k = f ↔ k = f.length := by
  constructor
  · intro h
    have := congrArg List.length h
    rw [List.length_take] at this; omega
  · rintro rfl; exact List.take_length

/-! ## One item -/

section
variable (al : Nat → Bool)

/-- Two contents of the unwritten bytes tell a short int apart. -/
theorem fill_intOf_all {v : Int} (hv : IsInt v) {k : Nat} (hk : k ≤ 4) :
    (∀ junk : Nat → UInt8, intOf (fill junk 4 ((intBytes v).take k)) = v) ↔ k = 4 := by
  have hlen : ((intBytes v).take k).length = k := by
    rw [List.length_take, intBytes_length]; omega
  constructor
  · intro h
    by_contra hne
    have h4 : ∀ junk, (fill junk 4 ((intBytes v).take k)).length = 4 := fun junk =>
      fill_length junk 4 (by omega)
    have he := intOf_inj (h4 _) (h4 _) ((h fun _ => 0).trans (h fun _ => 1).symm)
    simp only [fill, List.append_cancel_left_eq, hlen] at he
    obtain ⟨j, hj⟩ : ∃ j, 4 - k = j + 1 := ⟨4 - k - 1, by omega⟩
    rw [hj, List.range'_succ] at he
    simp at he
  · rintro rfl junk
    have htake : (intBytes v).take 4 = intBytes v := rfl
    rw [htake, show (4 : Nat) = (intBytes v).length from rfl, fill_self, intOf_intBytes hv]

theorem recvInt_eq {M : Mem} {c : Conn} {p : Bytes} {es : List Rd}
    (h : readRetry 4 c.evs = (some p, es)) : recvInt M c =
      (intOf (fill (M.stack c.calls) 4 p), { c with evs := es, calls := c.calls + 1 }) := by
  simp only [recvInt, h]

theorem recvInt_iff {v : Int} (hv : IsInt v) {c : Conn} {rest : Bytes}
    (h : Pieces c.evs (intBytes v ++ rest)) :
    (∀ st bl, (recvInt ⟨st, bl, al⟩ c).1 = v) ↔ (readRetry 4 c.evs).1 = some (intBytes v) := by
  obtain ⟨k, es', hr, hk, -⟩ := readRetry_field (f := intBytes v) (by simp [intBytes]) h
  rw [intBytes_length] at hr hk
  rw [hr, Option.some.injEq, take_eq_self_iff (by simpa using hk), intBytes_length,
    ← fill_intOf_all hv hk]
  constructor
  · intro hall junk
    have := hall (fun _ => junk) (fun _ _ => 0)
    rwa [recvInt_eq hr] at this
  · intro hall st bl
    rw [recvInt_eq hr]; exact hall _

theorem recvStr_eq {M : Mem} {c : Conn} {p : Bytes} {es : List Rd}
    (h : readRetry 4 c.evs = (some p, es)) : recvStr M c =
      recvBody M (intOf (fill (M.stack c.calls) 4 p)) { c with evs := es, calls := c.calls + 1 } := by
  simp only [recvStr, h]

/-- A short length whose last byte happens to be `0xff` is negative. -/
theorem fill_negative {bs : Bytes} {k : Nat} (hk : k < 4) (hb : bs.length = 4) :
    intOf (fill (fun _ => 255) 4 (bs.take k)) < 0 := by
  have hlast : ∃ pre : Bytes, pre.length = 3 ∧ fill (fun _ => 255) 4 (bs.take k) = pre ++ [255] := by
    have hlen : (bs.take k).length = k := by rw [List.length_take]; omega
    refine ⟨bs.take k ++ (List.range' k (3 - k)).map fun _ => 255, by simp; omega, ?_⟩
    rw [fill, hlen, show 4 - k = (3 - k) + 1 by omega, List.range'_concat]
    simp [List.append_assoc]
  obtain ⟨pre, hpre, he⟩ := hlast
  obtain ⟨a, b, d, rfl⟩ := List.length_eq_three.mp hpre
  have := a.toNat_lt
  have := b.toNat_lt
  have := d.toNat_lt
  rw [he]
  simp only [List.cons_append, List.nil_append, intOf, leNat, show (255 : UInt8).toNat = 255 from rfl]
  omega

theorem recvBody_neg {M : Mem} {len : Int} {c : Conn} (h : len < 0) :
    (recvBody M len c).1 = none := by
  rw [recvBody, if_pos (by omega)]

/-- The body of a string of the right length. -/
theorem recvBody_iff (w : WStr) {c : Conn} {rest : Bytes} (h : Pieces c.evs (w.bytes ++ rest)) :
    (∀ st bl, PointsTo (recvBody ⟨st, bl, al⟩ w.bytes.length c).1 w) ↔
      (readRetry w.bytes.length c.evs).1 = some w.bytes ∧ al c.heap = true ∧
        (w.bytes.length : Int) < INT_MAX := by
  have hpos := w.pos
  obtain ⟨k, es', hr, hk, -⟩ := readRetry_field w.ne h
  have heq : ∀ st bl, (w.bytes.length : Int) < INT_MAX → al c.heap = true →
      (recvBody ⟨st, bl, al⟩ w.bytes.length c).1 =
        some ⟨c.heap, fill (bl c.heap) w.bytes.length (w.bytes.take k)⟩ := by
    intro st bl hlen hal
    rw [recvBody, if_neg (by omega), if_neg (by omega), if_neg (by simp [hal])]
    simp only [Int.toNat_natCast, hr]
  rw [hr, Option.some.injEq, take_eq_self_iff hk]
  constructor
  · intro hall
    have hlen : (w.bytes.length : Int) < INT_MAX := by
      by_contra hge
      have := hall (fun _ _ => 0) (fun _ _ => 0)
      rw [recvBody, if_neg (by omega), if_pos (by omega)] at this
      cases this
    have hal : al c.heap = true := by
      by_contra hno
      have := hall (fun _ _ => 0) (fun _ _ => 0)
      rw [recvBody, if_neg (by omega), if_neg (by omega), if_pos (by simpa using hno)] at this
      cases this
    refine ⟨?_, hal, hlen⟩
    -- zero bytes in the block cut the string off where the read stopped
    have h0 := hall (fun _ _ => 0) (fun _ _ => 0)
    rw [heq _ _ hlen hal] at h0
    simp only [PointsTo, Option.map_some, Option.some.injEq] at h0
    by_contra hne
    have hlt : k < w.bytes.length := by omega
    have htk : (w.bytes.take k).length = k := by rw [List.length_take]; omega
    rw [fill, htk, show w.bytes.length - k = (w.bytes.length - k - 1) + 1 by omega,
      List.range'_succ, List.map_cons, cstr, List.takeWhile_append_of_pos] at h0
    · have := congrArg List.length h0
      simp [htk] at this; omega
    · intro b hb
      have : b ≠ 0 := by rintro rfl; exact w.nul (List.mem_of_mem_take hb)
      simpa using this
  · rintro ⟨rfl, hal, hlen⟩ st bl
    rw [heq st bl hlen hal, List.take_length, fill_self]
    simp [PointsTo, cstr_of_notMem w.nul]

theorem recvStr_iff (w : WStr) {c : Conn} {rest : Bytes}
    (h : Pieces c.evs (intBytes w.bytes.length ++ (w.bytes ++ rest))) :
    (∀ st bl, PointsTo (recvStr ⟨st, bl, al⟩ c).1 w) ↔
      WholeReads [intBytes w.bytes.length, w.bytes] c.evs ∧ al c.heap = true ∧
        (w.bytes.length : Int) < INT_MAX := by
  obtain ⟨k, es', hr, hk, hrest⟩ :=
    readRetry_field (f := intBytes w.bytes.length) (by simp [intBytes]) h
  rw [intBytes_length] at hr hk hrest
  simp only [WholeReads, intBytes_length, hr, Option.some.injEq, and_true,
    take_eq_self_iff (show k ≤ (intBytes w.bytes.length).length by simpa using hk)]
  by_cases hfull : k = 4
  · subst hfull
    have hval : ∀ junk, intOf (fill junk 4 ((intBytes w.bytes.length).take 4)) = w.bytes.length :=
      (fill_intOf_all w.isInt (Nat.le_refl 4)).mpr rfl
    have hb := recvBody_iff al w (c := { c with evs := es', calls := c.calls + 1 }) (hrest rfl)
    simp only [recvStr_eq hr, hval, true_and, hb]
  · have hk4 : k < 4 := by omega
    constructor
    · intro hall
      have := hall (fun _ _ => 255) (fun _ _ => 0)
      rw [recvStr_eq hr] at this
      simp only [PointsTo, recvBody_neg (fill_negative hk4 (intBytes_length _))] at this
      cases this
    · rintro ⟨⟨he, -⟩, -⟩; exact absurd he hfull

/-! ## Item by item -/

def Item.Spelled (M : Mem) (c : Conn) : Item → Prop
  | .int v _ => (recvInt M c).1 = v
  | .str w => PointsTo (recvStr M c).1 w

/-- The connection after the item was read. -/
def Item.next (M : Mem) (c : Conn) : Item → Conn
  | .int _ _ => (recvInt M c).2
  | .str _ => (recvStr M c).2

def SpelledAll (M : Mem) : List Item → Conn → Prop
  | [], _ => True
  | i :: is, c => i.Spelled M c ∧ SpelledAll M is (i.next M c)

/-- Every string's block is granted, the first one being the `h`-th, and no
string has the length `recv_str` refuses. -/
def Granted : List Item → Nat → Prop
  | [], _ => True
  | .int _ _ :: is, h => Granted is h
  | .str w :: is, h => (al h = true ∧ (w.bytes.length : Int) < INT_MAX) ∧ Granted is (h + 1)

/-- The connection after the item's fields were read whole. -/
def Item.skip (c : Conn) : Item → Conn
  | .int v h => { c with evs := afterReads (Item.int v h).fields c.evs, calls := c.calls + 1 }
  | .str w => { c with evs := afterReads (Item.str w).fields c.evs, calls := c.calls + 1,
                       heap := c.heap + 1 }

theorem item_iff (i : Item) {c : Conn} {rest : Bytes} (h : Pieces c.evs (i.fields.flatten ++ rest)) :
    (∀ st bl, i.Spelled ⟨st, bl, al⟩ c) ↔ WholeReads i.fields c.evs ∧ Granted al [i] c.heap := by
  cases i with
  | int v hv =>
    simp only [Item.fields, List.flatten_cons, List.flatten_nil, List.append_nil] at h
    simp only [Item.Spelled, recvInt_iff al hv h, Item.fields, WholeReads, Granted,
      intBytes_length, and_true]
  | str w =>
    simp only [Item.fields, List.flatten_cons, List.flatten_nil, List.append_nil,
      List.append_assoc] at h
    simp only [Item.Spelled, recvStr_iff al w h, Item.fields, Granted, and_true]

theorem pieces_afterReads {fs : List Bytes} (hfs : ∀ f ∈ fs, f ≠ []) {es : List Rd} {rest : Bytes}
    (h : Pieces es (fs.flatten ++ rest)) (hw : WholeReads fs es) : Pieces (afterReads fs es) rest := by
  induction fs generalizing es with
  | nil => simpa [afterReads] using h
  | cons f fs ih =>
    rw [List.flatten_cons, List.append_assoc] at h
    obtain ⟨k, es', hr, hk, hp⟩ := readRetry_field (hfs f List.mem_cons_self) h
    obtain ⟨hf, hw⟩ := hw
    rw [hr, Option.some.injEq, take_eq_self_iff hk] at hf
    rw [hr] at hw
    rw [afterReads, hr]
    exact ih (fun g hg => hfs g (List.mem_cons_of_mem _ hg)) (hp hf) hw

theorem fields_ne (i : Item) : ∀ f ∈ i.fields, f ≠ [] := by
  cases i with
  | int v hv => simp [Item.fields, intBytes]
  | str w => simp [Item.fields, intBytes, w.ne]

theorem prod_eq {α β : Type} {p : α × β} {a : α} (h : p.1 = a) : p = (a, p.2) := by rw [← h]

/-- After an item came over whole the connection no longer depends on what
was in memory. -/
theorem item_next (i : Item) {c : Conn} (hw : WholeReads i.fields c.evs)
    (hg : Granted al [i] c.heap) (st bl : Nat → Nat → UInt8) :
    i.next ⟨st, bl, al⟩ c = i.skip c := by
  cases i with
  | int v hv => rw [Item.next, recvInt_eq (prod_eq hw.1)]; rfl
  | str w =>
    obtain ⟨h₁, h₂, -⟩ := hw
    obtain ⟨⟨hal, hlen⟩, -⟩ := hg
    have hpos := w.pos
    have hval : intOf (fill (st c.calls) 4 (intBytes w.bytes.length)) = w.bytes.length := by
      rw [← intBytes_length w.bytes.length, fill_self, intOf_intBytes w.isInt]
    rw [Item.next, recvStr_eq (prod_eq h₁), hval, recvBody, if_neg (by omega), if_neg (by omega),
      if_neg (by simpa using hal)]
    simp only [Int.toNat_natCast]
    rw [← intBytes_length w.bytes.length, prod_eq h₂]
    rfl

theorem spelled_iff (is : List Item) {c : Conn} {rest : Bytes}
    (h : Pieces c.evs ((is.flatMap Item.fields).flatten ++ rest)) :
    (∀ st bl, SpelledAll ⟨st, bl, al⟩ is c) ↔
      WholeReads (is.flatMap Item.fields) c.evs ∧ Granted al is c.heap := by
  induction is generalizing c with
  | nil => simp [SpelledAll, WholeReads, Granted]
  | cons i is ih =>
    rw [List.flatMap_cons, List.flatten_append, List.append_assoc] at h
    have hi := item_iff al i h
    have hgrant : ∀ n, Granted al (i :: is) n ↔
        Granted al [i] n ∧ Granted al is (i.skip ⟨[], 0, n, []⟩).heap := by
      intro n; cases i <;> simp [Granted, Item.skip]
    have hheap : (i.skip ⟨[], 0, c.heap, []⟩).heap = (i.skip c).heap := by cases i <;> rfl
    rw [List.flatMap_cons, wholeReads_append, hgrant, hheap]
    constructor
    · intro hall
      obtain ⟨hw, hg⟩ := hi.mp fun st bl => (hall st bl).1
      have hevs : (i.skip c).evs = afterReads i.fields c.evs := by cases i <;> rfl
      have hp : Pieces (i.skip c).evs ((is.flatMap Item.fields).flatten ++ rest) := by
        rw [hevs]; exact pieces_afterReads (fields_ne i) h hw
      obtain ⟨hw', hg'⟩ := (ih hp).mp fun st bl => by
        have := (hall st bl).2
        rwa [item_next al i hw hg st bl] at this
      rw [hevs] at hw'
      exact ⟨⟨hw, hw'⟩, hg, hg'⟩
    · rintro ⟨⟨hw, hw'⟩, hg, hg'⟩ st bl
      have hevs : (i.skip c).evs = afterReads i.fields c.evs := by cases i <;> rfl
      have hp : Pieces (i.skip c).evs ((is.flatMap Item.fields).flatten ++ rest) := by
        rw [hevs]; exact pieces_afterReads (fields_ne i) h hw
      refine ⟨hi.mpr ⟨hw, hg⟩ st bl, ?_⟩
      rw [item_next al i hw hg st bl]
      exact (ih hp).mpr ⟨by rw [hevs]; exact hw', hg'⟩ st bl

theorem granted_iff (is : List Item) (h : Nat) : Granted al is h ↔
    (∀ k, k < (is.filter fun i => i matches .str _).length → al (h + k) = true) ∧
      ∀ w, .str w ∈ is → (w.bytes.length : Int) < INT_MAX := by
  induction is generalizing h with
  | nil => simp [Granted]
  | cons i is ih =>
    cases i with
    | int v hv => simp [Granted, ih]
    | str w =>
      simp only [Granted, ih, List.filter_cons, if_true, List.length_cons, List.mem_cons,
        Item.str.injEq]
      constructor
      · rintro ⟨⟨h₁, h₂⟩, h₃, h₄⟩
        refine ⟨fun k hk => ?_, ?_⟩
        · cases k with
          | zero => exact h₁
          | succ k => rw [show h + (k + 1) = h + 1 + k by omega]; exact h₃ k (by omega)
        · rintro w' (rfl | hw')
          · exact h₂
          · exact h₄ w' hw'
      · rintro ⟨h₁, h₂⟩
        refine ⟨⟨h₁ 0 (by omega), h₂ w (.inl rfl)⟩, fun k hk => ?_, fun w' hw' => h₂ w' (.inr hw')⟩
        rw [show h + 1 + k = h + (k + 1) by omega]; exact h₁ (k + 1) (by omega)

end

/-! ## The message -/

theorem recvStr_touch (M : Mem) (c : Conn) (i : Nat) :
    recvStr M (c.touch i) = ((recvStr M c).1, (recvStr M c).2.touch i) := by
  simp only [recvStr, Conn.touch]
  split
  · rfl
  · simp only [recvBody]
    split
    · rfl
    split
    · rfl
    split
    · rfl
    split <;> rfl

theorem spelledAll_touch (M : Mem) (args : List WStr) (c : Conn) (i : Nat) :
    SpelledAll M (args.map .str) (c.touch i) ↔ SpelledAll M (args.map .str) c := by
  induction args generalizing c with
  | nil => exact Iff.rfl
  | cons w args ih =>
    simp only [List.map_cons, SpelledAll, Item.Spelled, Item.next, recvStr_touch, ih]

theorem readArgs_spelled (M : Mem) (args : List WStr) (i : Nat) (c : Conn)
    (hle : i + args.length ≤ SYSMAN_MAXARG) :
    (∃ argv, (readArgs M args.length i c).1 = some argv ∧ List.Forall₂ PointsTo argv args) ↔
      SpelledAll M (args.map .str) c := by
  induction args generalizing i c with
  | nil => simp [readArgs, SpelledAll]
  | cons w args ih =>
    rw [List.length_cons] at hle
    have hlt : i < SYSMAN_MAXARG := by omega
    simp only [List.length_cons, readArgs, hlt, if_true, List.map_cons, SpelledAll, Item.Spelled,
      Item.next]
    rw [← spelledAll_touch M args _ i, ← ih (i + 1) _ (by omega)]
    constructor
    · rintro ⟨argv, h, hf⟩
      obtain ⟨as, has, rfl⟩ := Option.map_eq_some_iff.mp h
      obtain ⟨hp, hf⟩ := List.forall₂_cons.mp hf
      exact ⟨hp, as, has, hf⟩
    · rintro ⟨hp, as, has, hf⟩
      exact ⟨_ :: as, by rw [has]; rfl, .cons hp hf⟩

theorem items_spelled (M : Mem) (m : WireMsg) (c : Conn) : SpelledAll M m.items c ↔
    ((readHeader M c).1.pid = m.pid ∧ (readHeader M c).1.cmd = m.cmd ∧
      PointsTo (readHeader M c).1.type m.type ∧ PointsTo (readHeader M c).1.path m.path ∧
      (readHeader M c).1.argc = m.args.length) ∧
    SpelledAll M (m.args.map .str) (readHeader M c).2 := by
  simp only [WireMsg.items, List.cons_append, List.nil_append, SpelledAll, Item.Spelled, Item.next,
    readHeader, and_assoc]

/-- The items before the arguments. -/
def WireMsg.header (m : WireMsg) : List Item :=
  [.int m.pid m.pidInt, .int m.cmd m.cmdInt, .str m.type, .str m.path,
    .int m.args.length m.argsInt]

/-- A header that comes over whole is read as it was sent, whatever follows
it. -/
theorem readHeader_whole (m : WireMsg) (al : Nat → Bool) {c : Conn} {rest : Bytes}
    (h : Pieces c.evs ((m.header.flatMap Item.fields).flatten ++ rest))
    (hw : WholeReads (m.header.flatMap Item.fields) c.evs) (hg : Granted al m.header c.heap)
    (st bl : Nat → Nat → UInt8) :
    (readHeader ⟨st, bl, al⟩ c).1.pid = m.pid ∧ (readHeader ⟨st, bl, al⟩ c).1.cmd = m.cmd ∧
      (readHeader ⟨st, bl, al⟩ c).1.argc = m.args.length := by
  have hs := (spelled_iff al m.header h).mpr ⟨hw, hg⟩ st bl
  simp only [WireMsg.header, SpelledAll, Item.Spelled, Item.next] at hs
  obtain ⟨hpid, hcmd, -, -, hargc, -⟩ := hs
  simp only [readHeader]
  exact ⟨hpid, hcmd, hargc⟩

theorem readMessage_spelled (M : Mem) (m : WireMsg) (c : Conn) :
    (∃ msg, (readMessage M c).1 = some msg ∧ m.Spells msg) ↔ SpelledAll M m.items c := by
  rw [items_spelled, readMessage]
  generalize readHeader M c = h
  rw [← readArgs_spelled M m.args 0 h.2 (by have := m.argsLe; omega)]
  constructor
  · rintro ⟨msg, hmsg, hs⟩
    obtain ⟨argv, hargv, rfl⟩ := Option.map_eq_some_iff.mp hmsg
    have hargc : h.1.argc.toNat = m.args.length := by
      have := hs.argc; simp only at this; omega
    rw [hargc] at hargv
    exact ⟨⟨hs.pid, hs.cmd, hs.type, hs.path, hs.argc⟩, argv, hargv, hs.argv⟩
  · rintro ⟨⟨h₁, h₂, h₃, h₄, h₅⟩, argv, hargv, hf⟩
    have hargc : h.1.argc.toNat = m.args.length := by omega
    refine ⟨{ h.1 with argv := argv }, ?_, ⟨h₁, h₂, h₃, h₄, h₅, hf⟩⟩
    simp only [hargc, hargv, Option.map_some]

def WireMsg.strs (m : WireMsg) : List WStr := m.type :: m.path :: m.args

theorem granted_items (al : Nat → Bool) (m : WireMsg) (h : Nat) : Granted al m.items h ↔
    (∀ k, k < 2 + m.args.length → al (h + k) = true) ∧
      ∀ w ∈ m.strs, (w.bytes.length : Int) < INT_MAX := by
  have hlen : (m.items.filter fun i => i matches .str _).length = 2 + m.args.length := by
    have hargs : (m.args.map Item.str).filter (fun i => i matches .str _) = m.args.map .str :=
      List.filter_eq_self.mpr fun i hi => by
        obtain ⟨w, -, rfl⟩ := List.mem_map.mp hi; rfl
    simp [WireMsg.items, hargs]; omega
  have hmem : ∀ w, Item.str w ∈ m.items ↔ w ∈ m.strs := by
    intro w; simp [WireMsg.items, WireMsg.strs]
  rw [granted_iff, hlen]
  simp only [hmem]

/-- **When a request in pieces is decoded right.** Whatever uninitialised
memory holds, `read_message` yields the message that was sent, if and only
if every `read` returns the whole field it is made for, `malloc` grants
every string and none is `INT_MAX` bytes long. -/
theorem readMessage_yields_iff (m : WireMsg) (al : Nat → Bool) (c : Conn)
    (h : Pieces c.evs m.encode) :
    (∀ st bl, ∃ msg, (readMessage ⟨st, bl, al⟩ c).1 = some msg ∧ m.Spells msg) ↔
      WholeReads m.fields c.evs ∧ (∀ k, k < 2 + m.args.length → al (c.heap + k) = true) ∧
        ∀ w ∈ m.strs, (w.bytes.length : Int) < INT_MAX := by
  simp only [readMessage_spelled, ← granted_items]
  have hp : Pieces c.evs ((m.items.flatMap Item.fields).flatten ++ []) := by
    simpa [WireMsg.encode, WireMsg.fields] using h
  exact spelled_iff al m.items hp

/-- The request "a" with path "b" and no arguments. -/
def smallMsg : WireMsg where
  pid := 7
  cmd := 1
  pidInt := ⟨by decide, by decide⟩
  cmdInt := ⟨by decide, by decide⟩
  type := ⟨lit "a", by decide, by decide, by decide⟩
  path := ⟨lit "b", by decide, by decide, by decide⟩
  args := []
  argsLe := by decide

theorem smallMsg_whole : Pieces [.data smallMsg.encode] smallMsg.encode ∧
    ∀ st bl, ∃ msg, (readMessage ⟨st, bl, fun _ => true⟩ ⟨[.data smallMsg.encode], 0, 0, []⟩).1 =
      some msg ∧ smallMsg.Spells msg := by
  have hp : Pieces [.data smallMsg.encode] smallMsg.encode := by
    refine ⟨fun e he => ?_, by simp [payload]⟩
    rw [List.mem_singleton.mp he]
    exact ⟨by decide, by decide⟩
  refine ⟨hp, (readMessage_yields_iff smallMsg (fun _ => true) ⟨_, 0, 0, []⟩ hp).mpr ?_⟩
  refine ⟨by decide, fun _ _ => rfl, fun w hw => ?_⟩
  rcases List.mem_cons.mp hw with rfl | hw
  · decide
  · rw [List.mem_singleton.mp hw]; decide

/-- The same request, cut two bytes before its end: `argc` comes out as
whatever the local held on top of the two bytes that were read. -/
theorem smallMsg_cut : ∃ es, Pieces es smallMsg.encode ∧ ∃ M : Mem, (∀ k, M.alloc k = true) ∧
    ¬ ∃ msg, (readMessage M ⟨es, 0, 0, []⟩).1 = some msg ∧ smallMsg.Spells msg := by
  refine ⟨[.data (smallMsg.encode.take 20), .data (smallMsg.encode.drop 20)],
    ⟨fun e he => ?_, by decide⟩, ⟨fun _ _ => 255, fun _ _ => 0, fun _ => true⟩, fun _ => rfl, ?_⟩
  · rcases List.mem_cons.mp he with rfl | he
    · exact ⟨by decide, by decide⟩
    · rw [List.mem_singleton.mp he]; exact ⟨by decide, by decide⟩
  · rintro ⟨msg, h, hs⟩
    have hargc : (readMessage ⟨fun _ _ => 255, fun _ _ => 0, fun _ => true⟩
        ⟨[.data (smallMsg.encode.take 20), .data (smallMsg.encode.drop 20)], 0, 0, []⟩).1.map
          (·.argc) = some (-65536) := by decide
    rw [h, Option.map_some, hs.argc] at hargc
    cases hargc

end SystemServer.L1.Fragment
