import Mathlib.Algebra.Order.Ring.Int
import Mathlib.Data.List.Basic
import Mathlib.Data.List.TakeWhile
import Mathlib.Tactic.Common

/-!
# Native `int`s and C strings

* A native `int` is four bytes, little endian, two's complement (the ARM and
  x86 targets of the daemon): `intOf` reads the bytes, `intBytes` writes
  them, and `intOf_intBytes` is the round trip on the range of `int`.
* A `char *` (`CPtr`) is NULL or a block of memory. `Str.bytes` is the block
  without the terminating NUL the code puts after it; a block read off a
  socket may hold NULs of its own, so the string a C function sees is
  `cstr`, up to the first NUL.
* `strcmp` and `atoi` on blocks, and `strcmpP` / `atoiP` on pointers, `none`
  when a NULL pointer is dereferenced.
-/
namespace SystemServer

abbrev Bytes := List UInt8

def INT_MAX : Int := 2147483647
def INT_MIN : Int := -2147483648

/-- The values of a native `int`. -/
def IsInt (v : Int) : Prop := INT_MIN ≤ v ∧ v ≤ INT_MAX

/-! ## Native ints -/

def leNat : Bytes → Nat
  | [] => 0
  | b :: bs => b.toNat + 256 * leNat bs

def intOf (bs : Bytes) : Int :=
  if leNat bs < 2 ^ 31 then leNat bs else (leNat bs : Int) - 2 ^ 32

def intBytes (v : Int) : Bytes :=
  let n := (v % 2 ^ 32).toNat
  [UInt8.ofNat n, UInt8.ofNat (n / 2 ^ 8), UInt8.ofNat (n / 2 ^ 16), UInt8.ofNat (n / 2 ^ 24)]

@[simp] theorem intBytes_length (v : Int) : (intBytes v).length = 4 := rfl

theorem leNat_lt (bs : Bytes) : leNat bs < 256 ^ bs.length := by
  induction bs with
  | nil => simp [leNat]
  | cons b bs ih =>
    have := b.toNat_lt
    simp only [leNat, List.length_cons, Nat.pow_succ]; omega

theorem leNat_inj {as bs : Bytes} (hl : as.length = bs.length) (h : leNat as = leNat bs) :
    as = bs := by
  induction as generalizing bs with
  | nil => exact (List.length_eq_zero_iff.mp hl.symm).symm
  | cons a as ih =>
    cases bs with
    | nil => simp at hl
    | cons b bs =>
      have := a.toNat_lt
      have := b.toNat_lt
      simp only [leNat] at h
      have hab : a = b := UInt8.toNat_inj.mp (by omega)
      rw [hab, ih (by simpa using hl) (by omega)]

theorem leNat_intBytes (v : Int) : leNat (intBytes v) = (v % 2 ^ 32).toNat := by
  simp only [intBytes, leNat, UInt8.toNat_ofNat']; omega

theorem intOf_intBytes {v : Int} (h : IsInt v) : intOf (intBytes v) = v := by
  simp only [IsInt, INT_MIN, INT_MAX] at h
  simp only [intOf, leNat_intBytes]; omega

/-- Four bytes are determined by the `int` they spell. -/
theorem intOf_inj {as bs : Bytes} (ha : as.length = 4) (hb : bs.length = 4)
    (h : intOf as = intOf bs) : as = bs := by
  have h₁ := leNat_lt as
  have h₂ := leNat_lt bs
  rw [ha] at h₁; rw [hb] at h₂
  refine leNat_inj (ha.trans hb.symm) ?_
  simp only [intOf] at h; omega

/-! ## Strings -/

/-- A block of memory: the allocation's number and its bytes. -/
structure Str where
  obj : Nat
  bytes : Bytes
  deriving DecidableEq, Repr

/-- `char *`. -/
abbrev CPtr := Option Str

/-- `argv[i]`. -/
def arg (argv : List CPtr) (i : Nat) : CPtr := argv[i]?.join

/-- The bytes of a string literal (ASCII). -/
def lit (s : String) : Bytes := s.toList.map fun c => UInt8.ofNat c.toNat

/-- The string a C function sees in a block. -/
def cstr (b : Bytes) : Bytes := b.takeWhile (· ≠ 0)

theorem notMem_cstr (b : Bytes) : (0 : UInt8) ∉ cstr b := by
  intro h
  exact absurd (List.mem_takeWhile_imp h) (by simp)

theorem cstr_of_notMem {b : Bytes} (h : (0 : UInt8) ∉ b) : cstr b = b := by
  unfold cstr
  induction b with
  | nil => rfl
  | cons c b ih =>
    simp only [List.mem_cons, not_or] at h
    rw [List.takeWhile_cons_of_pos (by simpa using Ne.symm h.1), ih h.2]

/-- A string ends at its NUL. -/
theorem cstr_append_nul {b : Bytes} (h : (0 : UInt8) ∉ b) (rest : Bytes) :
    cstr (b ++ 0 :: rest) = b := by
  unfold cstr
  rw [List.takeWhile_append_of_pos]
  · simp
  · intro c hc
    simp only [decide_eq_true_eq]
    rintro rfl
    exact h hc

/-- The difference of the first bytes that differ. -/
def strcmp : Bytes → Bytes → Int
  | [], [] => 0
  | [], b :: _ => -b.toNat
  | a :: _, [] => a.toNat
  | a :: as, b :: bs =>
    if a ≠ b then a.toNat - b.toNat else if a = 0 then 0 else strcmp as bs

theorem strcmp_eq_zero (as bs : Bytes) : strcmp as bs = 0 ↔ cstr as = cstr bs := by
  have h0 : ∀ b : UInt8, (b.toNat : Int) = 0 ↔ b = 0 := fun b => by
    rw [← UInt8.toNat_inj]; simp
  induction as generalizing bs with
  | nil =>
    cases bs with
    | nil => simp [strcmp]
    | cons b bs =>
      by_cases hb : b = 0 <;> simp [strcmp, cstr, hb]
      exact fun h => hb ((h0 b).mp (by omega))
  | cons a as ih =>
    cases bs with
    | nil =>
      by_cases ha : a = 0 <;> simp [strcmp, cstr, ha]
      exact fun h => ha ((h0 a).mp (by omega))
    | cons b bs =>
      by_cases hab : a = b
      · subst hab
        by_cases ha : a = 0 <;> simp [strcmp, cstr, ha]
        simpa [cstr] using ih bs
      · have hne : (a.toNat : Int) - b.toNat ≠ 0 := fun h =>
          hab (UInt8.toNat_inj.mp (by omega))
        have hcs : cstr (a :: as) ≠ cstr (b :: bs) := by
          by_cases ha : a = 0 <;> by_cases hb : b = 0 <;>
            simp [cstr, ha, hb]
          · exact hab (ha.trans hb.symm)
          · exact fun h => absurd h hab
        simp only [strcmp, ne_eq, hab, not_false_eq_true, if_true, hne, hcs]

def strcmpP : CPtr → CPtr → Option Int
  | some a, some b => some (strcmp a.bytes b.bytes)
  | _, _ => none

/-- mirrors isspace(3) in the C locale -/
def isspace (c : UInt8) : Bool := c == 32 || (9 ≤ c && c ≤ 13)

def isdigit (c : UInt8) : Bool := 48 ≤ c && c ≤ 57

/-- The value of the leading digits, on top of `acc`. -/
def atoiDigits : Bytes → Nat → Nat
  | [], acc => acc
  | c :: cs, acc => if isdigit c then atoiDigits cs (acc * 10 + (c.toNat - 48)) else acc

/-- Leading blanks, a sign, digits; a value outside `int` saturates, as
strtol(3) does where `long` is as wide as `int`. -/
def atoi (b : Bytes) : Int :=
  let v : Int := match (cstr b).dropWhile isspace with
    | 45 :: cs => -(atoiDigits cs 0 : Int)
    | 43 :: cs => atoiDigits cs 0
    | cs => atoiDigits cs 0
  max INT_MIN (min INT_MAX v)

theorem isInt_atoi (b : Bytes) : IsInt (atoi b) := by
  simp only [IsInt, atoi, INT_MIN, INT_MAX]; omega

example : atoi (lit "-10x") = -10 := by decide

def atoiP : CPtr → Option Int := Option.map fun s => atoi s.bytes

@[simp] theorem isSome_atoiP (p : CPtr) : (atoiP p).isSome = p.isSome := by
  rw [atoiP, Option.isSome_map]

/-- Code behind a check of the argument count. -/
theorem isSome_guarded {α : Type} {argc n : Int} {x : α} {o : Option α} :
    (if argc < n then some x else o).isSome ↔ argc < n ∨ o.isSome := by
  split <;> simp_all

end SystemServer
