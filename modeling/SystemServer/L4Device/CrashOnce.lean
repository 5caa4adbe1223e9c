import SystemServer.L4Device.CrashLog

/-!
# Crash records are delivered once

A record is delivered once if a worker is launched for it before a truncation
takes it away, and no second one is. `Tidy` is what the writers owe,
`Settled` what the pass has to do.

* `Shape`: what the file holds for as long as nothing has gone wrong, whole
  records and at most the start of one, those in front launched
  (`shaped_guarded`).
* `unsettled_damage`: the first step that is not settled loses a record or
  launches one again.
* `Counted.not_launched`: a record that has lost a byte is never launched
  again, so what has gone wrong stays wrong (`once_step`).
* `delivered_once_iff`: from these, when every record is delivered once.
-/
namespace SystemServer.L4.CrashLog

/-! ## The conditions -/

/-- What the pass has read and what its last launch returned. -/
def Pc.pos : Pc → Nat
  | .idle => 0
  | .reading pos _ _ _ => pos
  | .closed pos _ => pos

def Pc.own : Pc → Nat
  | .reading _ own _ _ => own
  | _ => 0

def Pc.ret : Pc → Int
  | .idle => -1
  | .reading _ _ ret _ => ret
  | .closed _ ret => ret

/-- No process writes behind the unfinished record of another. -/
def Tidy (s : Log) : Lbl → Prop
  | .write r _ => (s.file.getLast?.all fun c => c.byte = 10 ∨ c.id = r) = true
  | _ => True

instance (s : Log) : ∀ l, Decidable (Tidy s l)
  | .write _ _ => inferInstanceAs (Decidable (_ = true))
  | .fopen _ | .fgets | .launch _ | .truncate _ => .isTrue trivial

/-- A launch succeeds only if all launches since the last truncation were made
by the same pass, and the file is truncated only when there is nothing in it
behind the lines the pass has read. -/
def Settled (s : Log) : Lbl → Prop
  | .launch pid => 0 < pid → s.since = s.pc.own
  | .truncate fp => s.pc.ret ≠ -1 → fp = true → s.pc.pos = s.file.length
  | _ => True

instance (s : Log) : ∀ l, Decidable (Settled s l)
  | .launch _ | .truncate _ => inferInstanceAs (Decidable (_ → _))
  | .write _ _ | .fopen _ | .fgets => .isTrue trivial

/-! ## What the file holds -/

variable {rs : Nat → Record} {ids : List Nat} {cur : Option Nat} {s s' : Log}

/-- The unfinished record at the end of the file. -/
def tailOf (rs : Nat → Record) (s : Log) : Option Nat → List Cell
  | none => []
  | some r => (cells rs r).take (s.written r)

/-- The pass has read the first `own` records of the file and launched them;
or it has launched none, and others before it have. -/
def PassOk (rs : Nat → Record) (ids : List Nat) (s : Log) : Prop :=
  match s.pc with
  | .idle => True
  | .reading pos own ret _ => pos = ((ids.take own).flatMap (cells rs)).length ∧
      (own = 0 ∧ ret = -1 ∨ own = s.since ∧ 0 < ret)
  | .closed pos ret => ret = -1 ∨ pos = ((ids.take s.since).flatMap (cells rs)).length

/-- The file is made of the records `ids` and the start of the record `cur`;
the workers of the first `since` of them have been launched. -/
structure Shape (rs : Nat → Record) (ids : List Nat) (cur : Option Nat) (s : Log) : Prop where
  file : s.file = ids.flatMap (cells rs) ++ tailOf rs s cur
  nodup : ids.Nodup
  whole : ∀ r ∈ ids, s.written r = (rs r).line.length
  unfinished : ∀ r, cur = some r → 0 < s.written r ∧ s.written r < (rs r).line.length
  rest : ∀ r, cur ≠ some r → s.written r = 0 ∨ s.written r = (rs r).line.length
  since : s.since ≤ ids.length
  done : ∀ r ∈ ids.take s.since, ∃ x ∈ s.launches, For rs r x
  fresh : ∀ x ∈ s.launches, ∀ r, For rs r x →
    s.written r = (rs r).line.length ∧ r ∉ ids.drop s.since
  once : Once rs s
  pass : PassOk rs ids s

def Shaped (rs : Nat → Record) (s : Log) : Prop := ∃ ids cur, Shape rs ids cur s

theorem shaped_init {s : Log} (h : Init s) : Shaped rs s := by
  refine ⟨[], none, {
    file := h.file
    nodup := List.nodup_nil
    whole := fun _ hr => absurd hr List.not_mem_nil
    unfinished := fun _ hr => nomatch hr
    rest := fun r _ => .inl (h.written r)
    since := Nat.le_of_eq h.since
    done := by simp
    fresh := by simp [h.launches]
    once := ⟨by simp [h.removed], by simp [h.launches]⟩
    pass := by simp only [PassOk, h.pc] }⟩

theorem PassOk.append {ids : List Nat} {s : Log} (h : PassOk rs ids s) (hs : s.since ≤ ids.length)
    (r : Nat) : PassOk rs (ids ++ [r]) s := by
  unfold PassOk at h ⊢
  split at h
  · trivial
  · obtain ⟨hpos, hown⟩ := h
    refine ⟨?_, hown⟩
    rw [List.take_append_of_le_length (by omega)]
    exact hpos
  · rw [List.take_append_of_le_length hs]
    exact h

/-- A tidy write goes on with the record at the end of the file, or begins one. -/
theorem Shape.tail_write (h : Shape rs ids cur s) {r n : Nat} (ht : Tidy s (.write r n))
    (hn : 0 < n) (hw : s.written r + n ≤ (rs r).line.length) :
    tailOf rs s cur = (cells rs r).take (s.written r) ∧
      ∀ r', r' ≠ r → s.written r' = 0 ∨ s.written r' = (rs r').line.length := by
  cases cur with
  | none =>
    have h0 : s.written r = 0 := by
      rcases h.rest r (fun hc => by cases hc) with h0 | hfull
      · exact h0
      · omega
    rw [h0]
    exact ⟨rfl, fun r' _ => h.rest r' (fun hc => by cases hc)⟩
  | some r₀ =>
    obtain ⟨hpos, hlt⟩ := h.unfinished r₀ rfl
    -- the last cell of the file is one of the unfinished record's
    obtain ⟨xs, c, hc⟩ := (List.eq_nil_or_concat' _).resolve_left (@take_cells_ne_nil rs r₀ _ hpos)
    have hmem : c ∈ (cells rs r₀).take (s.written r₀) := by
      rw [hc]; exact List.mem_append_right _ List.mem_cons_self
    have hlast : s.file.getLast? = some c := by
      rw [h.file, tailOf, hc, ← List.append_assoc, List.getLast?_concat]
    have hid : r₀ = r := by
      simp only [Tidy, hlast, Option.all_some, decide_eq_true_eq] at ht
      rcases ht with hb | hid
      · exact absurd (List.mem_map.mpr ⟨c, hmem, hb⟩) (unfinished_newline hlt)
      · exact (cells_id (List.mem_of_mem_take hmem)).symm.trans hid
    subst hid
    exact ⟨rfl, fun r' hr => h.rest r' fun hc => hr (Option.some.inj hc).symm⟩

/-- The log after a write. -/
def wrote (rs : Nat → Record) (r n : Nat) (s : Log) : Log :=
  { s with
    file := s.file ++ ((cells rs r).drop (s.written r)).take n
    written := fun r' => if r' = r then s.written r + n else s.written r' }

theorem write_cases {r n : Nat} {s s' : Log} (hst : write rs r n s = some s') :
    0 < n ∧ s.written r + n ≤ (rs r).line.length ∧ s' = wrote rs r n s := by
  unfold write at hst
  split at hst
  · rename_i hcond
    cases hst
    exact ⟨hcond.1, hcond.2, rfl⟩
  · cases hst

theorem wrote_self (r n : Nat) (s : Log) : (wrote rs r n s).written r = s.written r + n :=
  if_pos rfl

theorem wrote_ne {r r' : Nat} (h : r' ≠ r) (n : Nat) (s : Log) :
    (wrote rs r n s).written r' = s.written r' :=
  if_neg h

theorem wrote_file (h : Shape rs ids cur s) {r : Nat}
    (htail : tailOf rs s cur = (cells rs r).take (s.written r)) (n : Nat) :
    (wrote rs r n s).file = ids.flatMap (cells rs) ++ (cells rs r).take (s.written r + n) := by
  simp only [wrote]
  rw [h.file, htail, List.append_assoc, List.take_add]

/-- A record that is not finished is none of the file's, nor was it launched. -/
theorem Shape.not_mem (h : Shape rs ids cur s) {r : Nat} (hlt : s.written r < (rs r).line.length) :
    r ∉ ids := by
  intro hr
  have := h.whole r hr
  omega

theorem Shape.not_launched (h : Shape rs ids cur s) {r : Nat}
    (hlt : s.written r < (rs r).line.length) {x : Launch} (hx : x ∈ s.launches) {r' : Nat}
    (hf : For rs r' x) : r' ≠ r := by
  rintro rfl
  have := (h.fresh x hx r' hf).1
  omega

/-- The end of a record: it is one of the file's. -/
theorem Shape.finish (h : Shape rs ids cur s) {r n : Nat} (hn : 0 < n)
    (hfull : s.written r + n = (rs r).line.length)
    (htail : tailOf rs s cur = (cells rs r).take (s.written r))
    (hothers : ∀ r', r' ≠ r → s.written r' = 0 ∨ s.written r' = (rs r').line.length) :
    Shape rs (ids ++ [r]) none (wrote rs r n s) where
  file := by
    rw [wrote_file h htail, hfull, List.take_of_length_le (Nat.le_of_eq (cells_length r)),
      List.flatMap_append, List.flatMap_singleton, tailOf, List.append_nil]
  nodup := by
    refine List.nodup_append.mpr ⟨h.nodup, by simp, ?_⟩
    rintro a ha b hb rfl
    rw [List.mem_singleton.mp hb] at ha
    exact h.not_mem (by omega) ha
  whole := by
    intro r' hr'
    rcases List.mem_append.mp hr' with hr' | hr'
    · rw [wrote_ne (ne_of_mem_of_not_mem hr' (h.not_mem (by omega)))]
      exact h.whole r' hr'
    · rw [List.mem_singleton.mp hr', wrote_self]
      exact hfull
  unfinished := fun _ hc => nomatch hc
  rest := by
    intro r' _
    by_cases hr' : r' = r
    · rw [hr', wrote_self]
      exact .inr hfull
    · rw [wrote_ne hr']
      exact hothers r' hr'
  since := by
    rw [List.length_append]
    exact Nat.le_add_right_of_le h.since
  done := by
    intro r' hr'
    have hr' : r' ∈ (ids ++ [r]).take s.since := hr'
    rw [List.take_append_of_le_length h.since] at hr'
    exact h.done r' hr'
  fresh := by
    intro x hx r' hf
    have hne := h.not_launched (r := r) (by omega) hx hf
    obtain ⟨hw, hdrop⟩ := h.fresh x hx r' hf
    refine ⟨(wrote_ne hne n s).trans hw, fun hm => ?_⟩
    have hm : r' ∈ (ids ++ [r]).drop s.since := hm
    rw [List.drop_append_of_le_length h.since] at hm
    rcases List.mem_append.mp hm with hm | hm
    · exact hdrop hm
    · exact hne (List.mem_singleton.mp hm)
  once := ⟨h.once.kept, h.once.once⟩
  pass := h.pass.append h.since r

/-- More of a record, or its start: it is the one the file ends with. -/
theorem Shape.extend (h : Shape rs ids cur s) {r n : Nat} (hn : 0 < n)
    (hlt : s.written r + n < (rs r).line.length)
    (htail : tailOf rs s cur = (cells rs r).take (s.written r))
    (hothers : ∀ r', r' ≠ r → s.written r' = 0 ∨ s.written r' = (rs r').line.length) :
    Shape rs ids (some r) (wrote rs r n s) where
  file := by rw [wrote_file h htail, tailOf, wrote_self]
  nodup := h.nodup
  whole := by
    intro r' hr'
    rw [wrote_ne (ne_of_mem_of_not_mem hr' (h.not_mem (by omega)))]
    exact h.whole r' hr'
  unfinished := by
    intro r' hr'
    cases hr'
    rw [wrote_self]
    omega
  rest := by
    intro r' hr'
    have hne : r' ≠ r := fun heq => hr' (by rw [heq])
    rw [wrote_ne hne]
    exact hothers r' hne
  since := h.since
  done := h.done
  fresh := by
    intro x hx r' hf
    rw [wrote_ne (h.not_launched (r := r) (by omega) hx hf)]
    exact h.fresh x hx r' hf
  once := ⟨h.once.kept, h.once.once⟩
  pass := h.pass

theorem Shape.write (h : Shape rs ids cur s) {r n : Nat} (ht : Tidy s (.write r n))
    (hst : write rs r n s = some s') : Shaped rs s' := by
  obtain ⟨hn, hw, rfl⟩ := write_cases hst
  obtain ⟨htail, hothers⟩ := h.tail_write ht hn hw
  rcases Nat.eq_or_lt_of_le hw with hfull | hlt
  · exact ⟨ids ++ [r], none, h.finish hn hfull htail hothers⟩
  · exact ⟨ids, some r, h.extend hn hlt htail hothers⟩

theorem Shape.fopen (h : Shape rs ids cur s) {stack : Nat → UInt8} (hst : fopen stack s = some s') :
    Shape rs ids cur s' := by
  unfold CrashLog.fopen at hst
  split at hst
  · cases hst
    exact { h with
      once := ⟨h.once.kept, h.once.once⟩
      pass := ⟨rfl, .inl ⟨rfl, rfl⟩⟩ }
  · cases hst

/-- The records a pass has launched, and what is behind them. -/
theorem Shape.split (h : Shape rs ids cur s) (k : Nat) : s.file = (ids.take k).flatMap (cells rs) ++
      ((ids.drop k).flatMap (cells rs) ++ tailOf rs s cur) := by
  rw [← List.append_assoc, ← List.flatMap_append, List.take_append_drop, h.file]

theorem Shape.behind (h : Shape rs ids cur s) (k : Nat) :
    s.file.drop ((ids.take k).flatMap (cells rs)).length =
      (ids.drop k).flatMap (cells rs) ++ tailOf rs s cur := by
  rw [h.split k, List.drop_left]

/-- The next line is the next record, or the unfinished one, or there is none. -/
theorem Shape.next (h : Shape rs ids cur s) {pos k : Nat}
    (hpos : pos = ((ids.take k).flatMap (cells rs)).length) :
    (∃ r rest, ids.drop k = r :: rest ∧ nextLine pos s = cells rs r) ∨
    (∃ r, 0 < s.written r ∧ s.written r < (rs r).line.length ∧
      nextLine pos s = (cells rs r).take (s.written r)) ∨
    nextLine pos s = [] := by
  rw [nextLine, hpos, h.behind k]
  cases hd : ids.drop k with
  | cons r rest =>
    refine .inl ⟨r, rest, rfl, ?_⟩
    rw [List.flatMap_cons, List.append_assoc, getLine_cells]
  | nil =>
    rw [List.flatMap_nil, List.nil_append]
    cases cur with
    | none => exact .inr (.inr rfl)
    | some r =>
      obtain ⟨hpos, hlt⟩ := h.unfinished r rfl
      exact .inr (.inl ⟨r, hpos, hlt, getLine_unfinished hlt⟩)

/-- A record in the file is a launch; a round without one ends the pass. -/
theorem Shape.fgets (h : Shape rs ids cur s) (hst : fgets s = some s') : Shape rs ids cur s' := by
  have hpass := h.pass
  unfold CrashLog.fgets at hst
  split at hst
  · rename_i pos own ret args hpc
    simp only [PassOk, hpc] at hpass
    have hclosed : Shape rs ids cur { s with pc := .closed pos ret } := { h with
      once := ⟨h.once.kept, h.once.once⟩
      pass := by
        obtain ⟨hpos, ⟨-, hret⟩ | ⟨hown, -⟩⟩ := hpass
        · exact .inl hret
        · exact .inr (hown ▸ hpos) }
    rcases h.next hpass.1 with ⟨r, rest, -, hline⟩ | ⟨r, hw, hlt, hline⟩ | hline
    · obtain ⟨args', hread⟩ := readLine_record (rs r) (cells_bytes r) args
      rw [hline, if_neg (cells_ne_nil r), hread] at hst
      cases hst
    · rw [hline, if_neg (take_cells_ne_nil hw), readLine_unfinished hlt] at hst
      cases hst
      exact hclosed
    · rw [hline, if_pos rfl] at hst
      cases hst
      exact hclosed
  · cases hst

/-- The log after a launch that succeeded. -/
def launched (rs : Nat → Record) (r pos own : Nat) (pid : Int) (args : Bytes) (s : Log) : Log :=
  { s with
    pc := .reading (pos + (cells rs r).length) (own + 1) pid args
    launches := s.launches ++ [⟨cells rs r, (rs r).args⟩]
    since := s.since + 1 }

/-- A launch is for the record behind those the pass has launched. -/
theorem Shape.launch_cases (h : Shape rs ids cur s) {pid : Int} (hst : launch pid s = some s') :
    ∃ r rest args, ids.drop s.pc.own = r :: rest ∧
      s.pc.pos = ((ids.take s.pc.own).flatMap (cells rs)).length ∧
      (s.pc.own = 0 ∨ s.pc.own = s.since) ∧
      (pid = -1 ∧ s' = { s with pc := .closed s.pc.pos (-1) } ∨
        0 < pid ∧ s' = launched rs r s.pc.pos s.pc.own pid args s) := by
  have hpass := h.pass
  unfold CrashLog.launch at hst
  split at hst
  · rename_i pos own ret args hpc
    simp only [PassOk, hpc] at hpass
    rw [hpc]
    rcases h.next hpass.1 with ⟨r, rest, hd, hline⟩ | ⟨r, hw, hlt, hline⟩ | hline
    · obtain ⟨args', hread⟩ := readLine_record (rs r) (cells_bytes r) args
      rw [hline, if_neg (cells_ne_nil r), hread] at hst
      refine ⟨r, rest, args', hd, hpass.1, hpass.2.imp And.left And.left, ?_⟩
      simp only at hst
      split at hst
      · rename_i hpid
        cases hst
        exact .inl ⟨hpid, by rw [hpid]; rfl⟩
      · split at hst
        · rename_i hpid
          cases hst
          exact .inr ⟨hpid, rfl⟩
        · cases hst
    · rw [hline, if_neg (take_cells_ne_nil hw), readLine_unfinished hlt] at hst
      cases hst
    · rw [hline, if_pos rfl] at hst
      cases hst
  · cases hst

theorem for_self (rs : Nat → Record) (r : Nat) : For rs r ⟨cells rs r, (rs r).args⟩ := ⟨rfl, rfl⟩

theorem for_inj {r r' : Nat} (h : For rs r' ⟨cells rs r, (rs r).args⟩) : r' = r :=
  (cells_inj h.1).symm

/-- A record that is yet to be launched in the file has had no launch. -/
theorem Shape.unlaunched (h : Shape rs ids cur s) {r : Nat} (hr : r ∈ ids.drop s.since) :
    s.launches.countP (For rs r) = 0 := by
  refine List.countP_eq_zero.mpr fun x hx hf => ?_
  exact (h.fresh x hx r (by simpa using hf)).2 hr

/-- A first launch for a record keeps the account of the launches. -/
theorem once_launched {s : Log} (h : Once rs s) {r : Nat} (hr : s.launches.countP (For rs r) = 0)
    (pos own : Nat) (pid : Int) (args : Bytes) : Once rs (launched rs r pos own pid args s) where
  kept := by
    intro c hc
    obtain ⟨x, hx, hf⟩ := h.kept c hc
    exact ⟨x, List.mem_append_left _ hx, hf⟩
  once := by
    intro r'
    simp only [launched, List.countP_append]
    by_cases hr' : r' = r
    · rw [hr', hr, Nat.zero_add]
      exact List.countP_le_length
    · have h0 : [(⟨cells rs r, (rs r).args⟩ : Launch)].countP (For rs r') = 0 := by
        refine List.countP_eq_zero.mpr fun x hx hf => ?_
        rw [List.mem_singleton.mp hx] at hf
        exact hr' (for_inj (by simpa using hf))
      rw [h0]
      exact h.once r'

/-- The first record that is yet to be launched is launched. -/
theorem Shape.launched {rest : List Nat} (h : Shape rs ids cur s) {r : Nat}
    (hd : ids.drop s.since = r :: rest) {pos : Nat}
    (hpos : pos = ((ids.take s.since).flatMap (cells rs)).length) {pid : Int} (hpid : 0 < pid)
    (args : Bytes) : Shape rs ids cur (launched rs r pos s.since pid args s) := by
  have hr : r ∈ ids.drop s.since := by rw [hd]; exact List.mem_cons_self
  have htake : ids.take (s.since + 1) = ids.take s.since ++ [r] := by
    rw [List.take_add, hd]; rfl
  have hdrop : ids.drop (s.since + 1) = rest := by
    rw [← List.drop_drop, hd]; rfl
  have hlen : s.since < ids.length := by
    have := congrArg List.length hd
    rw [List.length_drop, List.length_cons] at this
    omega
  have hnodup : (r :: rest).Nodup := hd ▸ h.nodup.sublist (List.drop_sublist _ _)
  refine { h with
    since := hlen
    done := ?_
    fresh := ?_
    once := once_launched h.once (h.unlaunched hr) pos s.since pid args
    pass := ⟨?_, .inr ⟨rfl, hpid⟩⟩ }
  · intro r' hr'
    have hr' : r' ∈ ids.take (s.since + 1) := hr'
    rw [htake] at hr'
    rcases List.mem_append.mp hr' with hr' | hr'
    · obtain ⟨x, hx, hf⟩ := h.done r' hr'
      exact ⟨x, List.mem_append_left _ hx, hf⟩
    · rw [List.mem_singleton.mp hr']
      exact ⟨_, List.mem_append_right _ List.mem_cons_self, for_self rs r⟩
  · intro x hx r' hf
    simp only [CrashLog.launched, hdrop]
    rcases List.mem_append.mp hx with hx | hx
    · obtain ⟨hw, hnot⟩ := h.fresh x hx r' hf
      rw [hd] at hnot
      exact ⟨hw, fun hm => hnot (List.mem_cons_of_mem _ hm)⟩
    · rw [List.mem_singleton.mp hx] at hf
      obtain rfl := for_inj hf
      exact ⟨h.whole r' (List.mem_of_mem_drop hr), (List.nodup_cons.mp hnodup).1⟩
  · rw [htake, List.flatMap_append, List.flatMap_singleton, List.length_append, hpos]

theorem Shape.launch (h : Shape rs ids cur s) {pid : Int} (hc : Settled s (.launch pid))
    (hst : launch pid s = some s') : Shape rs ids cur s' := by
  obtain ⟨r, rest, args, hd, hpos, -, ⟨-, rfl⟩ | ⟨hpid, rfl⟩⟩ := h.launch_cases hst
  · exact { h with
      once := ⟨h.once.kept, h.once.once⟩
      pass := .inl rfl }
  · have hown : s.since = s.pc.own := hc hpid
    rw [← hown] at hd hpos ⊢
    exact h.launched hd hpos hpid args

/-- What is in the file behind the records that were launched since the last
truncation belongs to records without a launch. -/
theorem Shape.rest_unlaunched (h : Shape rs ids cur s) {c : Cell}
    (hc : c ∈ (ids.drop s.since).flatMap (cells rs) ++ tailOf rs s cur) :
    ∀ x ∈ s.launches, ¬ For rs c.id x := by
  intro x hx hf
  obtain ⟨hw, hnot⟩ := h.fresh x hx c.id hf
  rcases List.mem_append.mp hc with hc | hc
  · obtain ⟨r, hr, hcr⟩ := List.mem_flatMap.mp hc
    rw [cells_id hcr] at hnot
    exact hnot hr
  · cases cur with
    | none => cases hc
    | some r =>
      obtain ⟨-, hlt⟩ := h.unfinished r rfl
      rw [cells_id (List.mem_of_mem_take hc)] at hw
      omega

/-- The log after a truncation. -/
def emptied (s : Log) : Log :=
  { s with file := [], removed := s.removed ++ s.file, since := 0, pc := .idle }

theorem truncate_cases {fp : Bool} {s s' : Log} (hst : truncate fp s = some s') :
    s.pc.ret ≠ -1 ∧ fp = true ∧ s' = emptied s ∨
      ¬ (s.pc.ret ≠ -1 ∧ fp = true) ∧ s' = { s with pc := .idle } := by
  unfold truncate at hst
  split at hst
  · rename_i pos ret hpc
    rw [hpc]
    split at hst
    · rename_i hcond
      cases hst
      exact .inl ⟨hcond.1, hcond.2, rfl⟩
    · rename_i hcond
      cases hst
      exact .inr ⟨hcond, rfl⟩
  · cases hst

/-- The pass that truncates the file has launched all it has read, so it has
read all of the file if nothing is behind the launched records. -/
theorem Shape.read_all_iff (h : Shape rs ids cur s) {fp : Bool}
    (hst : CrashLog.truncate fp s = some s') (hret : s.pc.ret ≠ -1) :
    s.pc.pos = s.file.length ↔ (ids.drop s.since).flatMap (cells rs) ++ tailOf rs s cur = [] := by
  have hpass := h.pass
  unfold CrashLog.truncate at hst
  split at hst
  · rename_i pos ret hpc
    rw [hpc] at hret ⊢
    simp only [PassOk, hpc] at hpass
    have hlen := congrArg List.length (h.split s.since)
    rw [List.length_append, ← hpass.resolve_left hret] at hlen
    rw [← List.length_eq_zero_iff]
    simp only [Pc.pos]
    omega
  · cases hst

/-- Nothing is lost where all of the file has been launched. -/
theorem Shape.emptied (h : Shape rs ids cur s)
    (hnil : (ids.drop s.since).flatMap (cells rs) ++ tailOf rs s cur = []) :
    Shape rs [] none (emptied s) := by
  have hcur : cur = none := by
    cases cur with
    | none => rfl
    | some r =>
      obtain ⟨hw, -⟩ := h.unfinished r rfl
      exact absurd (List.append_eq_nil_iff.mp hnil).2 (take_cells_ne_nil hw)
  subst hcur
  have hfile : s.file = (ids.take s.since).flatMap (cells rs) := by
    rw [h.split s.since, hnil, List.append_nil]
  refine {
    file := rfl
    nodup := List.nodup_nil
    whole := fun _ hr => absurd hr List.not_mem_nil
    unfinished := fun _ hr => nomatch hr
    rest := h.rest
    since := Nat.le_refl 0
    done := fun _ hr => absurd hr List.not_mem_nil
    fresh := fun x hx r hf => ⟨(h.fresh x hx r hf).1, List.not_mem_nil⟩
    once := ⟨fun c hcell => ?_, h.once.once⟩
    pass := trivial }
  rcases List.mem_append.mp hcell with hcell | hcell
  · exact h.once.kept c hcell
  · rw [hfile] at hcell
    obtain ⟨r, hr, hcr⟩ := List.mem_flatMap.mp hcell
    rw [cells_id hcr]
    exact h.done r hr

theorem Shape.truncate (h : Shape rs ids cur s) {fp : Bool} (hc : Settled s (.truncate fp))
    (hst : truncate fp s = some s') : Shaped rs s' := by
  rcases truncate_cases hst with ⟨hret, hfp, rfl⟩ | ⟨-, rfl⟩
  · exact ⟨[], none, h.emptied ((h.read_all_iff hst hret).mp (hc hret hfp))⟩
  · exact ⟨ids, cur, { h with once := ⟨h.once.kept, h.once.once⟩, pass := trivial }⟩

theorem shaped_guarded : (lts rs).Guarded (fun s l => Tidy s l ∧ Settled s l) (Shaped rs) := by
  rintro s l s' ⟨ids, cur, h⟩ ⟨ht, hc⟩ hst
  cases l with
  | write r n => exact h.write ht hst
  | fopen stack => exact ⟨ids, cur, h.fopen hst⟩
  | fgets => exact ⟨ids, cur, h.fgets hst⟩
  | launch pid => exact ⟨ids, cur, h.launch hc hst⟩
  | truncate fp => exact h.truncate hc hst

/-! ## What goes wrong stays wrong -/

/-- Each byte a process wrote is in the file or was removed. -/
def Counted (rs : Nat → Record) (s : Log) : Prop :=
  ∀ r, (s.removed ++ s.file).countP (·.id = r) = s.written r ∧ s.written r ≤ (rs r).line.length

/-- What a step other than a write and a truncation does: at most one launch,
for a line of the file. -/
structure Frame (s s' : Log) : Prop where
  file : s'.file = s.file
  removed : s'.removed = s.removed
  written : s'.written = s.written
  launches : s'.launches = s.launches ∨
    ∃ x : Launch, s'.launches = s.launches ++ [x] ∧ x.line.Sublist s.file

theorem getLine_sublist (n : Nat) (xs : List Cell) : (getLine n xs).Sublist xs := by
  induction xs generalizing n with
  | nil => cases n <;> exact List.Sublist.refl _
  | cons x xs ih =>
    cases n with
    | zero => exact List.nil_sublist _
    | succ n =>
      rw [getLine]
      split
      · exact (List.nil_sublist xs).cons_cons x
      · exact (ih n).cons_cons x

theorem nextLine_sublist (pos : Nat) (s : Log) : (nextLine pos s).Sublist s.file :=
  (getLine_sublist _ _).trans (List.drop_sublist _ _)

theorem fopen_frame {stack : Nat → UInt8} {s s' : Log} (h : fopen stack s = some s') :
    Frame s s' := by
  unfold fopen at h
  split at h
  · cases h; exact ⟨rfl, rfl, rfl, .inl rfl⟩
  · cases h

theorem fgets_frame {s s' : Log} (h : fgets s = some s') : Frame s s' := by
  simp only [fgets] at h
  split at h
  · split at h
    · cases h; exact ⟨rfl, rfl, rfl, .inl rfl⟩
    · split at h
      · cases h; exact ⟨rfl, rfl, rfl, .inl rfl⟩
      · split at h
        · cases h; exact ⟨rfl, rfl, rfl, .inl rfl⟩
        · cases h; exact ⟨rfl, rfl, rfl, .inl rfl⟩
      · cases h
  · cases h

theorem launch_frame {pid : Int} {s s' : Log} (h : launch pid s = some s') : Frame s s' := by
  simp only [launch] at h
  split at h
  · split at h
    · cases h
    · split at h
      · split at h
        · cases h; exact ⟨rfl, rfl, rfl, .inl rfl⟩
        · split at h
          · cases h; exact ⟨rfl, rfl, rfl, .inr ⟨_, rfl, nextLine_sublist _ _⟩⟩
          · cases h
      · cases h
  · cases h

theorem Frame.counted {s s' : Log} (h : Frame s s') (hc : Counted rs s) : Counted rs s' := by
  unfold Counted
  rw [h.file, h.removed, h.written]
  exact hc

theorem countP_cells (r r' n k : Nat) (h : n + k ≤ (rs r).line.length) :
    (((cells rs r).drop n).take k).countP (·.id = r') = if r' = r then k else 0 := by
  have hid : ∀ c ∈ ((cells rs r).drop n).take k, c.id = r := fun c hc =>
    cells_id (List.mem_of_mem_drop (List.mem_of_mem_take hc))
  split
  · rename_i heq
    subst heq
    rw [List.countP_eq_length.mpr fun c hc => by simpa using hid c hc, List.length_take,
      List.length_drop, cells_length]
    omega
  · rename_i hne
    refine List.countP_eq_zero.mpr fun c hc he => hne ?_
    exact (of_decide_eq_true he).symm.trans (hid c hc)

theorem counted_init {s : Log} (h : Init s) : Counted rs s := fun r => by
  rw [h.file, h.removed, h.written]
  exact ⟨rfl, Nat.zero_le _⟩

theorem counted_step {s s' : Log} {l : Lbl} (h : Counted rs s) (hst : step rs s l = some s') :
    Counted rs s' := by
  cases l with
  | write r n =>
    obtain ⟨hn, hw, rfl⟩ := write_cases hst
    intro r'
    simp only [wrote, ← List.append_assoc, List.countP_append, countP_cells r r' _ n hw]
    obtain ⟨hcount, hle⟩ := h r'
    rw [List.countP_append] at hcount
    split
    · rename_i heq; subst heq; omega
    · exact ⟨hcount, hle⟩
  | fopen stack => exact (fopen_frame hst).counted h
  | fgets => exact (fgets_frame hst).counted h
  | launch pid => exact (launch_frame hst).counted h
  | truncate fp =>
    rcases truncate_cases hst with ⟨-, -, rfl⟩ | ⟨-, rfl⟩
    · intro r
      simp only [emptied, List.append_nil]
      exact h r
    · exact h

/-- A record that has lost a byte is never launched again. -/
theorem Counted.not_launched {s : Log} (h : Counted rs s) {c : Cell} (hc : c ∈ s.removed)
    {x : Launch} (hx : x.line.Sublist s.file) : ¬ For rs c.id x := by
  intro hf
  obtain ⟨hcount, hle⟩ := h c.id
  have hrem : 0 < s.removed.countP (·.id = c.id) :=
    List.countP_pos_iff.mpr ⟨c, hc, decide_eq_true rfl⟩
  have hall : (cells rs c.id).countP (·.id = c.id) = (rs c.id).line.length := by
    rw [List.countP_eq_length.mpr fun d hd => decide_eq_true (cells_id hd), cells_length]
  have hfile := hx.countP_le (p := (·.id = c.id))
  rw [hf.1, hall] at hfile
  rw [List.countP_append] at hcount
  omega

theorem Frame.once {s s' : Log} (h : Frame s s') (hc : Counted rs s) (ho : Once rs s') :
    Once rs s := by
  obtain ⟨hkept, honce⟩ := ho
  rw [h.removed] at hkept
  rcases h.launches with heq | ⟨x, heq, hx⟩
  · rw [heq] at hkept honce
    exact ⟨hkept, honce⟩
  · rw [heq] at hkept honce
    refine ⟨fun c hcell => ?_, fun r => ?_⟩
    · obtain ⟨y, hy, hf⟩ := hkept c hcell
      rcases List.mem_append.mp hy with hy | hy
      · exact ⟨y, hy, hf⟩
      · rw [List.mem_singleton.mp hy] at hf
        exact absurd hf (hc.not_launched hcell hx)
    · have := honce r
      rw [List.countP_append] at this
      exact Nat.le_trans (Nat.le_add_right _ _) this

theorem once_step {s s' : Log} {l : Lbl} (h : Counted rs s) (hst : step rs s l = some s')
    (ho : Once rs s') : Once rs s := by
  cases l with
  | write r n =>
    obtain ⟨-, -, rfl⟩ := write_cases hst
    exact ⟨ho.kept, ho.once⟩
  | fopen stack => exact (fopen_frame hst).once h ho
  | fgets => exact (fgets_frame hst).once h ho
  | launch pid => exact (launch_frame hst).once h ho
  | truncate fp =>
    rcases truncate_cases hst with ⟨-, -, rfl⟩ | ⟨-, rfl⟩
    · exact ⟨fun c hc => ho.kept c (List.mem_append_left _ hc), ho.once⟩
    · exact ⟨ho.kept, ho.once⟩

/-- A pass that launches what an earlier one has launched: its first launch is
for the first record again. -/
theorem Shape.launch_damage (h : Shape rs ids cur s) {pid : Int} (hc : ¬ Settled s (.launch pid))
    (hst : CrashLog.launch pid s = some s') : ¬ Once rs s' := by
  simp only [Settled, Classical.not_imp] at hc
  obtain ⟨hpid, hne⟩ := hc
  intro ho
  obtain ⟨r, rest, args, hd, -, hown, ⟨rfl, -⟩ | ⟨-, rfl⟩⟩ := h.launch_cases hst
  · exact absurd hpid (by decide)
  have h0 : s.pc.own = 0 := hown.resolve_right (Ne.symm hne)
  rw [h0, List.drop_zero] at hd
  have hmem : r ∈ ids.take s.since := by
    obtain ⟨k, hk⟩ := Nat.exists_eq_succ_of_ne_zero (h0 ▸ hne)
    rw [hd, hk, List.take_succ_cons]
    exact List.mem_cons_self
  obtain ⟨x, hx, hf⟩ := h.done r hmem
  have hold : 0 < s.launches.countP (For rs r) := List.countP_pos_iff.mpr ⟨x, hx, decide_eq_true hf⟩
  have hnew := ho.once r
  simp only [CrashLog.launched, List.countP_append, List.countP_singleton, for_self rs r, decide_true,
    if_true] at hnew
  omega

/-- A truncation that takes away what was not launched. -/
theorem Shape.truncate_damage (h : Shape rs ids cur s) {fp : Bool} (hc : ¬ Settled s (.truncate fp))
    (hst : CrashLog.truncate fp s = some s') : ¬ Once rs s' := by
  simp only [Settled, Classical.not_imp] at hc
  obtain ⟨hret, hfp, hne⟩ := hc
  intro ho
  rcases truncate_cases hst with ⟨-, -, rfl⟩ | ⟨hcond, -⟩
  · have hrest := mt (h.read_all_iff hst hret).mpr hne
    obtain ⟨c, cs, hcs⟩ := List.exists_cons_of_ne_nil hrest
    have hc : c ∈ (ids.drop s.since).flatMap (cells rs) ++ tailOf rs s cur := by
      rw [hcs]; exact List.mem_cons_self
    have hfile : c ∈ s.file := by
      rw [h.split s.since]; exact List.mem_append_right _ hc
    obtain ⟨x, hx, hf⟩ := ho.kept c (List.mem_append_right _ hfile)
    exact h.rest_unlaunched hc x hx hf
  · exact hcond ⟨hret, hfp⟩

/-- The first step that does not meet the condition does the damage. -/
theorem unsettled_damage {s s' : Log} {l : Lbl} (h : Shaped rs s) (hc : ¬ Settled s l)
    (hst : step rs s l = some s') : ¬ Once rs s' := by
  obtain ⟨ids, cur, h⟩ := h
  cases l with
  | write r n => exact absurd trivial hc
  | fopen stack => exact absurd trivial hc
  | fgets => exact absurd trivial hc
  | launch pid => exact h.launch_damage hc hst
  | truncate fp => exact h.truncate_damage hc hst

/-- **Crash records.** In a run in which no process writes behind another's
unfinished record: no record is removed without a launch and none is launched
twice, if and only if every launch that succeeds finds that all launches since
the last truncation were made by its own pass, and every truncation finds
nothing in the file behind the lines its pass has read. -/
theorem delivered_once_iff (rs : Nat → Record) (s₀ s : Log) (h₀ : Init s₀) (ls : List Lbl)
    (hr : (lts rs).run s₀ ls = some s) (ht : (lts rs).Meets Tidy s₀ ls) :
    Once rs s ↔ (lts rs).Meets Settled s₀ ls := by
  constructor
  · intro ho
    refine LTS.meets_of_first (I := Shaped rs) (J := Counted rs) (D := fun s => ¬ Once rs s)
      shaped_guarded (fun _ _ _ => counted_step) (fun _ _ _ h _ hc => unsettled_damage h hc)
      (fun s l s' hj hd hst ho => hd (once_step hj hst ho)) (shaped_init h₀) (counted_init h₀) ht hr
      (fun hn => hn ho)
  · intro hm
    obtain ⟨ids, cur, h⟩ := shaped_guarded.run (shaped_init h₀) (LTS.meets_and ht hm) hr
    exact h.once

/-- A process "a" that crashes, and again. -/
def crash : Record where
  name := lit "a"
  colour := lit "r"
  nameText b hb := by rw [show b = 97 from List.mem_singleton.mp hb]; decide
  colourText b hb := by rw [show b = 114 from List.mem_singleton.mp hb]; decide
  nameShort := by simp [lit, NAME_MAX]
  short := by simp [lit, ARGS, NAME_MAX, MAX_INPUT]

def empty : Log := ⟨[], fun _ => 0, .idle, [], [], 0⟩

theorem init_empty : Init empty := ⟨rfl, fun _ => rfl, rfl, rfl, rfl, rfl⟩

def zeros : Nat → UInt8 := fun _ => 0

/-- A record in two pieces, a pass before the second and one after it. -/
def oneRecord : List Lbl := [.write 0 3, .fopen zeros, .fgets, .truncate true, .write 0 1,
  .fopen zeros, .launch 5, .fgets, .truncate true]

theorem delivered_once_oneRecord :
    ∃ s, (lts fun _ => crash).run empty oneRecord = some s ∧ s.file = [] ∧ s.launches.length = 1 ∧
      Once (fun _ => crash) s := by
  refine ⟨_, rfl, rfl, rfl, ?_⟩
  exact (delivered_once_iff (fun _ => crash) empty _ init_empty oneRecord rfl (by decide)).mpr
    (by decide)

/-- The second record is half written when the pass truncates the file. -/
def half : List Lbl := [.write 0 4, .write 1 2, .fopen zeros, .launch 5, .fgets, .truncate true]

/-- The launch for the second record fails, and the first stays in the file. -/
def again : List Lbl := [.write 0 4, .write 1 4, .fopen zeros, .launch 5, .launch (-1),
  .truncate true, .fopen zeros, .launch 6]

/-- The second record is written after the last line was read. -/
def late : List Lbl := [.write 0 4, .fopen zeros, .launch 5, .fgets, .write 1 4, .truncate true]

/-- A record is lost, half written or whole; a record is launched twice. -/
theorem half_late_again :
    (∀ ls ∈ [half, late, again], (lts fun _ => crash).Meets Tidy empty ls) ∧
    (∀ ls ∈ [half, late, again], ∃ s, (lts fun _ => crash).run empty ls = some s ∧
      ¬ Once (fun _ => crash) s) := by
  refine ⟨by decide, fun ls hls => ?_⟩
  rcases List.mem_cons.mp hls with rfl | hls
  · refine ⟨_, rfl, fun h => ?_⟩
    have hlost := h.kept ⟨1, 97⟩ (by decide)
    revert hlost
    decide
  rcases List.mem_cons.mp hls with rfl | hls
  · refine ⟨_, rfl, fun h => ?_⟩
    have hlost := h.kept ⟨1, 97⟩ (by decide)
    revert hlost
    decide
  · rw [List.mem_singleton.mp hls]
    refine ⟨_, rfl, fun h => ?_⟩
    have htwice := h.once 0
    revert htwice
    decide

end SystemServer.L4.CrashLog
