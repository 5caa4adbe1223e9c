import SystemServer.Core.CString

/-!
# Decimal numbers as text

`dec` is what printf's `"%d"` writes. `atoi_dec`: `atoi` reads every `int` back
as it was printed. The text has no blank, no quote and no NUL
(`mem_dec`), so it stays whole wherever such characters cut.
-/
namespace SystemServer

/-- `"%d"` -/
def dec (v : Int) : Bytes := lit (toString v)

/-- The digits of a number, as bytes. -/
def digits (n : Nat) : Bytes := (Nat.toDigits 10 n).map fun c => UInt8.ofNat c.toNat

theorem dec_of_nonneg {v : Int} (h : 0 ≤ v) : dec v = digits v.toNat := by
  rw [dec, lit, Int.toString_eq_repr, Int.repr_eq_if, if_pos h, Nat.toList_repr, digits]

theorem dec_of_neg {v : Int} (h : v < 0) : dec v = 45 :: digits (-v).toNat := by
  rw [dec, lit, Int.toString_eq_repr, Int.repr_eq_if, if_neg (by omega), String.toList_append,
    List.map_append, Nat.toList_repr, digits]
  rfl

theorem toNat_digit {c : Char} (h : c.isDigit = true) :
    (UInt8.ofNat c.toNat).toNat = c.toNat ∧ 48 ≤ c.toNat ∧ c.toNat ≤ 57 := by
  have hrange : 48 ≤ c.toNat ∧ c.toNat ≤ 57 := by
    simpa [Char.isDigit, UInt32.le_iff_toNat_le] using h
  refine ⟨?_, hrange⟩
  rw [UInt8.toNat_ofNat']
  omega

theorem isdigit_digits {n : Nat} {b : UInt8} (h : b ∈ digits n) : isdigit b = true := by
  obtain ⟨c, hc, rfl⟩ := List.mem_map.mp h
  obtain ⟨hb, hlow, hhigh⟩ := toNat_digit (Nat.isDigit_of_mem_toDigits (by omega) (by omega) hc)
  simp only [isdigit, Bool.and_eq_true, decide_eq_true_eq, UInt8.le_iff_toNat_le, hb]
  exact ⟨hlow, hhigh⟩

theorem atoiDigits_map {cs : List Char} (h : ∀ c ∈ cs, c.isDigit = true) (acc : Nat) :
    atoiDigits (cs.map fun c => UInt8.ofNat c.toNat) acc = Nat.ofDigitChars 10 cs acc := by
  induction cs generalizing acc with
  | nil => rfl
  | cons c cs ih =>
    obtain ⟨hb, hlow, hhigh⟩ := toNat_digit (h c List.mem_cons_self)
    have hdigit : isdigit (UInt8.ofNat c.toNat) = true := by
      simp only [isdigit, Bool.and_eq_true, decide_eq_true_eq, UInt8.le_iff_toNat_le, hb]
      exact ⟨hlow, hhigh⟩
    rw [List.map_cons, atoiDigits, if_pos hdigit, hb, ih fun d hd => h d (List.mem_cons_of_mem _ hd),
      Nat.ofDigitChars_cons, Nat.mul_comm]
    rfl

theorem atoiDigits_digits (n : Nat) : atoiDigits (digits n) 0 = n := by
  rw [digits, atoiDigits_map fun c hc => Nat.isDigit_of_mem_toDigits (by omega) (by omega) hc,
    Nat.ofDigitChars_ten_toDigits]

/-- A digit, or the sign. -/
theorem mem_dec {v : Int} {b : UInt8} (h : b ∈ dec v) : isdigit b = true ∨ b = 45 := by
  by_cases hv : 0 ≤ v
  · rw [dec_of_nonneg hv] at h
    exact .inl (isdigit_digits h)
  · rw [dec_of_neg (by omega)] at h
    rcases List.mem_cons.mp h with rfl | h
    · exact .inr rfl
    · exact .inl (isdigit_digits h)

theorem digits_ne_nil (n : Nat) : digits n ≠ [] := by
  rw [digits, ne_eq, List.map_eq_nil_iff]
  exact Nat.toDigits_ne_nil

theorem dec_ne_nil (v : Int) : dec v ≠ [] := by
  by_cases hv : 0 ≤ v
  · rw [dec_of_nonneg hv]
    exact digits_ne_nil _
  · rw [dec_of_neg (by omega)]
    exact List.cons_ne_nil _ _

/-- Digits after no sign. -/
theorem atoi_digits (n : Nat) : atoi (digits n) = max INT_MIN (min INT_MAX (n : Int)) := by
  have hdigit : ∀ b ∈ digits n, isdigit b = true := fun b hb => isdigit_digits hb
  have hnul : (0 : UInt8) ∉ digits n := fun h0 => by
    have h := hdigit 0 h0
    simp [isdigit] at h
  have hvalue := atoiDigits_digits n
  cases hds : digits n with
  | nil => exact absurd hds (digits_ne_nil n)
  | cons b bs =>
    rw [hds] at hdigit hnul hvalue
    have hb := hdigit b List.mem_cons_self
    have hspace : isspace b = false := by
      simp only [isdigit, Bool.and_eq_true, decide_eq_true_eq, UInt8.le_iff_toNat_le] at hb
      simp only [isspace, Bool.or_eq_false_iff, beq_eq_false_iff_ne, ne_eq, Bool.and_eq_false_iff,
        decide_eq_false_iff_not, UInt8.le_iff_toNat_le, ← UInt8.toNat_inj, UInt8.reduceToNat] at hb ⊢
      omega
    rw [atoi, cstr_of_notMem hnul, List.dropWhile_cons_of_neg (by simp [hspace])]
    split
    · rename_i heq
      obtain rfl := (List.cons.inj heq).1
      simp [isdigit] at hb
    · rename_i heq
      obtain rfl := (List.cons.inj heq).1
      simp [isdigit] at hb
    · rw [hvalue]

theorem atoi_neg (n : Nat) : atoi (45 :: digits n) = max INT_MIN (min INT_MAX (-(n : Int))) := by
  have hnul : (0 : UInt8) ∉ (45 : UInt8) :: digits n := by
    intro h0
    rcases List.mem_cons.mp h0 with h0 | h0
    · simp at h0
    · simpa [isdigit] using isdigit_digits h0
  have hspace : isspace 45 = false := rfl
  rw [atoi, cstr_of_notMem hnul, List.dropWhile_cons_of_neg (by simp [hspace])]
  simp only [atoiDigits_digits]

/-- **What was printed is read back.** -/
theorem atoi_dec {v : Int} (h : IsInt v) : atoi (dec v) = v := by
  obtain ⟨hlow, hhigh⟩ := h
  by_cases hv : 0 ≤ v
  · rw [dec_of_nonneg hv, atoi_digits]
    omega
  · rw [dec_of_neg (by omega), atoi_neg]
    omega

end SystemServer
