import SystemServer.Core.LTS

/-!
# A cell whose values are announced

Values are written to a cell, one over the other. A write is announced, or it
merges with an announcement that is still due. Who is told reads the cell as it
is then, and may fail to.

`Lossless`: the values heard so far, and the ones to come if nothing more is
written, are the values written, in their order. `lossless_iff` says what each
step has to meet for that. Nothing makes good for a loss.
-/
namespace SystemServer.Announce

variable {A : Type}

/-- The cell, the announcements that are due, and the values written and heard,
oldest first. -/
structure State (A : Type) where
  cell : A
  due : Nat
  written : List A
  heard : List A
  deriving DecidableEq

inductive Lbl (A : Type) where
  | write (a : A) (merge : Bool)
  | hear (seen : Bool)

def step (s : State A) : Lbl A → Option (State A)
  | .write a merge =>
    some ⟨a, if merge ∧ 0 < s.due then s.due else s.due + 1, s.written ++ [a], s.heard⟩
  | .hear seen =>
    if s.due = 0 then none
    else some ⟨s.cell, s.due - 1, s.written, if seen then s.heard ++ [s.cell] else s.heard⟩

def lts (A : Type) : LTS (State A) (Lbl A) := ⟨fun s => s.due = 0 ∧ s.written = [] ∧ s.heard = [], step⟩

def Lossless (s : State A) : Prop := s.written = s.heard ++ List.replicate s.due s.cell

/-- Nothing is due when a value is written, or the same value once more; who is
told can read. -/
def Keeps (s : State A) : Lbl A → Prop
  | .write a merge => s.due = 0 ∨ merge = false ∧ a = s.cell
  | .hear seen => seen = true

instance [DecidableEq A] (s : State A) : Decidable (Lossless s) :=
  inferInstanceAs (Decidable (s.written = s.heard ++ List.replicate s.due s.cell))

instance [DecidableEq A] (s : State A) : ∀ l, Decidable (Keeps s l)
  | .write a merge => inferInstanceAs (Decidable (s.due = 0 ∨ merge = false ∧ a = s.cell))
  | .hear seen => inferInstanceAs (Decidable (seen = true))

theorem lossless_init {s : State A} (h : (lts A).init s) : Lossless s := by
  obtain ⟨hdue, hwritten, hheard⟩ := h
  rw [Lossless, hdue, hwritten, hheard]
  rfl

theorem lossless_length {s : State A} (h : Lossless s) :
    s.written.length = s.heard.length + s.due := by
  rw [h, List.length_append, List.length_replicate]

theorem replicate_append_iff {n : Nat} {a b : A} :
    List.replicate n a ++ [b] = List.replicate (n + 1) b ↔ n = 0 ∨ a = b := by
  rw [List.replicate_succ', List.append_left_inj, List.replicate_inj]
  simp

/-- **What keeps the values.** -/
theorem lossless_iff {s s' : State A} {l : Lbl A} (h : Lossless s)
    (hst : step s l = some s') : Lossless s' ↔ Keeps s l := by
  have hlen := lossless_length h
  cases l with
  | write a merge =>
    obtain rfl := Option.some.inj hst
    by_cases hmerge : merge = true ∧ 0 < s.due
    · -- one announcement for two values
      refine iff_of_false (fun hless => ?_) ?_
      · have hlen' := lossless_length hless
        simp only [if_pos hmerge, List.length_append, List.length_singleton] at hlen'
        omega
      · rintro (hdue | ⟨hno, -⟩)
        · omega
        · rw [hmerge.1] at hno
          cases hno
    · have hno : s.due = 0 ∨ merge = false := by
        by_cases hdue : s.due = 0
        · exact .inl hdue
        · exact .inr (Bool.eq_false_iff.mpr fun hm => hmerge ⟨hm, Nat.pos_of_ne_zero hdue⟩)
      rw [Lossless, if_neg hmerge, h, List.append_assoc, List.append_right_inj,
        replicate_append_iff, Keeps]
      constructor
      · intro hor
        rcases hor with hdue | hcell
        · exact .inl hdue
        · exact hno.imp_right fun hm => ⟨hm, hcell.symm⟩
      · exact fun hor => hor.imp_right fun hcell => hcell.2.symm
  | hear seen =>
    obtain ⟨hdue, hst⟩ := Option.ite_none_left_eq_some.mp hst
    obtain rfl := Option.some.inj hst
    obtain ⟨n, hn⟩ := Nat.exists_eq_succ_of_ne_zero hdue
    cases seen with
    | true =>
      refine iff_of_true ?_ rfl
      rw [Lossless, if_pos rfl, h, hn, List.replicate_succ, List.append_assoc]
      rfl
    | false =>
      refine iff_of_false (fun hless => ?_) Bool.false_ne_true
      have hlen' := lossless_length hless
      simp only [Bool.false_eq_true, if_false] at hlen'
      omega

end SystemServer.Announce
