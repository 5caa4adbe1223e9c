import SystemServer.Core.Decimal
import SystemServer.L4Device.Mmc

/-!
# Which block device is the memory card (`ss_mmc_handler.c`)

`get_mmcblk_num` goes through /sys/block for the first mmcblk device whose type
file says SD, and takes the digit behind "mmcblk" for its number; the nodes that
`ss_mmc_inserted` mounts are made from it. One buffer is the path of the type
file and then what is read from it.

* `getMmcblkNum_eq`: which entry is the card does not depend on what the buffer
  held, nor on entries whose file cannot be opened or read.
* `own_device_iff`: an insertion mounts the card's own nodes, or fails on them,
  exactly when the number of the card has one digit.

In `Mmc` the number and the mounts are any; here they are those of the nodes.
-/
namespace SystemServer.L4.MmcNumber

open SystemServer.L4.Mmc

/-! ## The source -/

/-- mirrors strncmp(3) -/
def strncmp : Bytes → Bytes → Nat → Int
  | _, _, 0 => 0
  | [], [], _ + 1 => 0
  | [], b :: _, _ + 1 => -b.toNat
  | a :: _, [], _ + 1 => a.toNat
  | a :: as, b :: bs, n + 1 =>
    if a ≠ b then a.toNat - b.toNat else if a = 0 then 0 else strncmp as bs n

/-- What `lstat` says; nothing when it fails. -/
inductive Mode where
  | dir | lnk | other
  deriving DecidableEq, Repr

/-- An entry of the directory: whether its type file can be opened, what is read
from it, and whether there is memory for the digit. -/
structure Dirent where
  dName : Bytes
  mode : Mode
  fd : Bool
  type : Option Bytes
  strndup : Bool

/-- `read(fd, buf, 10)`; `none` is the return value -1, also for a descriptor
that is -1. -/
def Dirent.read (e : Dirent) : Option Bytes := if e.fd then e.type.map (·.take 10) else none

/-- Bytes over the start of a buffer. -/
def overwrite (buf bytes : Bytes) : Bytes := bytes ++ buf.drop bytes.length

/-- `snprintf(buf, 255, ...)` with its NUL. -/
def typePath (dName : Bytes) : Bytes :=
  (lit "/sys/block/" ++ dName ++ lit "/device/type").take 254 ++ [0]

/-- The buffer after the read.
mirrors ss_mmc_handler.c:57-70 -/
def typeOf (e : Dirent) (buf : Bytes) : Bytes :=
  let buf := overwrite buf (typePath e.dName)
  match e.read with
  | none => buf
  | some data => if data.length < 10 then (overwrite buf data).set data.length 0 else overwrite buf data

/-- The rest of the loop, and what is behind it.
mirrors ss_mmc_handler.c:50-94 -/
def scan : List Dirent → Bytes → Int
  | [], _ => -1
  | e :: es, buf =>
    if e.mode = .other then scan es buf
    else if strncmp (lit ".") e.dName 1 = 0 ∨ strncmp (lit "..") e.dName 2 = 0 then scan es buf
    else if strncmp (lit "mmcblk") e.dName 6 = 0 then
      if strncmp (lit "SD") (typeOf e buf) 2 = 0 then
        if e.strndup then atoi ((e.dName.drop 6).take 1) else -1
      else scan es (typeOf e buf)
    else scan es buf

/-- `stack` is what the buffer holds before the first write.
mirrors ss_mmc_handler.c:35-95 -/
def getMmcblkNum (dir : Option (List Dirent)) (stack : Bytes) : Int :=
  match dir with
  | none => -1
  | some es => scan es stack

/-- mirrors include/ss_data.h:35 -/
def MMC_DEV : Bytes := lit "/dev/mmcblk"

/-- The nodes that are mounted.
mirrors ss_mmc_handler.c:177,191 -/
def cardNode (blkNum : Int) : Bytes := MMC_DEV ++ dec blkNum

def partitionNode (blkNum : Int) : Bytes := MMC_DEV ++ dec blkNum ++ lit "p1"

/-- An insertion, by what the mounts of each node come to. -/
def insertOf (blkNum : Int) (mount : Bytes → Nat → Mount) : Insert :=
  ⟨blkNum, mount (cardNode blkNum) 0, mount (partitionNode blkNum)⟩

/-! ## The card -/

/-- A device whose type says SD. -/
def isCard (e : Dirent) : Bool :=
  e.mode ≠ .other && (lit "mmcblk").isPrefixOf e.dName && e.read.any (lit "SD").isPrefixOf

theorem strncmp_eq_zero {as : Bytes} (hnul : (0 : UInt8) ∉ as) (bs : Bytes) :
    strncmp as bs as.length = 0 ↔ as <+: bs := by
  induction as generalizing bs with
  | nil => simp [strncmp]
  | cons a as ih =>
    simp only [List.mem_cons, not_or] at hnul
    obtain ⟨ha, hnul⟩ := hnul
    have hpos : (a.toNat : Int) ≠ 0 := by
      intro h0
      exact ha (UInt8.toNat_inj.mp (by rw [UInt8.toNat_zero]; omega))
    cases bs with
    | nil => exact iff_of_false hpos (by simp)
    | cons b bs =>
      rw [List.length_cons, strncmp, List.cons_prefix_cons]
      by_cases hab : a = b
      · subst hab
        rw [if_neg (by simp), if_neg (Ne.symm ha), ih hnul]
        simp
      · have hne : (a.toNat : Int) - b.toNat ≠ 0 := by
          intro h0
          exact hab (UInt8.toNat_inj.mp (by omega))
        rw [if_pos hab]
        exact iff_of_false hne fun h => hab h.1

theorem lit_sd : lit "SD" = [83, 68] := rfl

/-- The path of the type file begins with a slash. -/
theorem typePath_slash (dName : Bytes) : ∃ rest, typePath dName = 47 :: rest := by
  have hlit : lit "/sys/block/" = 47 :: lit "sys/block/" := rfl
  refine ⟨(lit "sys/block/" ++ dName ++ lit "/device/type").take 253 ++ [0], ?_⟩
  rw [typePath, hlit]
  rfl

/-- The buffer shows SD exactly when that was read: the path that was there
before begins with a slash. -/
theorem typeOf_iff (e : Dirent) (buf : Bytes) :
    strncmp (lit "SD") (typeOf e buf) 2 = 0 ↔ e.read.any (lit "SD").isPrefixOf = true := by
  have hsd : strncmp (lit "SD") (typeOf e buf) 2 = 0 ↔ lit "SD" <+: typeOf e buf :=
    strncmp_eq_zero (by decide) _
  rw [hsd, lit_sd]
  obtain ⟨rest, hrest⟩ := typePath_slash e.dName
  have hbefore : ∃ t, overwrite buf (typePath e.dName) = 47 :: t := ⟨_, by rw [hrest, overwrite]; rfl⟩
  obtain ⟨t, ht⟩ := hbefore
  simp only [typeOf, ht]
  cases e.read with
  | none => simp
  | some data =>
    match data with
    | [] => simp [overwrite]
    | [a] =>
      cases t with
      | nil => simp [overwrite]
      | cons c t => simp [overwrite]
    | a :: b :: data =>
      simp only [overwrite, List.length_cons, Option.any_some]
      split <;> simp

/-! ## The loop -/

/-- The name begins with neither of the entries for the directories. -/
theorem not_dot {dName : Bytes} (h : lit "mmcblk" <+: dName) :
    ¬ (strncmp (lit ".") dName 1 = 0 ∨ strncmp (lit "..") dName 2 = 0) := by
  obtain ⟨rest, rfl⟩ := h
  have hone : strncmp (lit ".") (lit "mmcblk" ++ rest) 1 = 0 ↔ lit "." <+: lit "mmcblk" ++ rest :=
    strncmp_eq_zero (by decide) _
  have htwo : strncmp (lit "..") (lit "mmcblk" ++ rest) 2 = 0 ↔ lit ".." <+: lit "mmcblk" ++ rest :=
    strncmp_eq_zero (by decide) _
  rw [hone, htwo]
  simp [lit]

/-- What is returned for the card. -/
def numberOf (e : Dirent) : Int := if e.strndup then atoi ((e.dName.drop 6).take 1) else -1

theorem scan_eq (es : List Dirent) (buf : Bytes) :
    scan es buf = ((es.find? isCard).map numberOf).getD (-1) := by
  induction es generalizing buf with
  | nil => rfl
  | cons e es ih =>
    have hmmc : strncmp (lit "mmcblk") e.dName 6 = 0 ↔ lit "mmcblk" <+: e.dName :=
      strncmp_eq_zero (by decide) _
    rw [scan, List.find?_cons]
    by_cases hmode : e.mode = .other
    · have hno : isCard e = false := by simp [isCard, hmode]
      rw [if_pos hmode, hno, ih]
    rw [if_neg hmode]
    by_cases hname : lit "mmcblk" <+: e.dName
    · rw [if_neg (not_dot hname), if_pos (hmmc.mpr hname)]
      by_cases hsd : e.read.any (lit "SD").isPrefixOf = true
      · have hyes : isCard e = true := by
          simp [isCard, hmode, List.isPrefixOf_iff_prefix.mpr hname, hsd]
        rw [if_pos ((typeOf_iff e buf).mpr hsd), hyes]
        rfl
      · have hno : isCard e = false := by
          rw [Bool.not_eq_true] at hsd
          simp [isCard, hsd]
        rw [if_neg fun h => hsd ((typeOf_iff e buf).mp h), hno, ih]
    · have hno : isCard e = false := by
        have hpre : (lit "mmcblk").isPrefixOf e.dName = false := by
          rw [← Bool.not_eq_true]
          exact fun h => hname (List.isPrefixOf_iff_prefix.mp h)
        simp [isCard, hpre]
      rw [if_neg fun h => hname (hmmc.mp h), hno, ih, ite_self]

/-- **The first card.** Whatever is in the buffer and in the directory. -/
theorem getMmcblkNum_eq (es : List Dirent) (stack : Bytes) :
    getMmcblkNum (some es) stack = ((es.find? isCard).map numberOf).getD (-1) := scan_eq es stack

/-! ## The number -/

theorem digits_of_lt {n : Nat} (h : n < 10) : digits n = [UInt8.ofNat (48 + n)] := by
  have hall : ∀ k < 10, digits k = [UInt8.ofNat (48 + k)] := by decide
  exact hall n h

/-- A digit is the number of one digit. -/
theorem singleton_digit {b : UInt8} (h : isdigit b = true) : ∃ n < 10, [b] = digits n := by
  simp only [isdigit, Bool.and_eq_true, decide_eq_true_eq, UInt8.le_iff_toNat_le] at h
  obtain ⟨hlow, hhigh⟩ := h
  change 48 ≤ b.toNat at hlow
  change b.toNat ≤ 57 at hhigh
  have hn : b.toNat - 48 < 10 := by omega
  have hb : 48 + (b.toNat - 48) = b.toNat := by omega
  exact ⟨b.toNat - 48, hn, by rw [digits_of_lt hn, hb, UInt8.ofNat_toNat]⟩

/-- The number that is made of a digit is printed as that digit. -/
theorem dec_atoi_digit {b : UInt8} (h : isdigit b = true) :
    0 ≤ atoi [b] ∧ dec (atoi [b]) = [b] := by
  obtain ⟨n, hn, hb⟩ := singleton_digit h
  have hatoi : atoi [b] = n := by
    rw [hb, atoi_digits]
    simp only [INT_MIN, INT_MAX]
    omega
  have hnonneg : (0 : Int) ≤ n := by omega
  rw [hatoi]
  exact ⟨hnonneg, by rw [dec_of_nonneg hnonneg, Int.toNat_natCast, hb]⟩

theorem two_le_length_digits {n : Nat} (h : 10 ≤ n) : 2 ≤ (digits n).length := by
  rw [digits, List.length_map]
  by_contra hshort
  have hle : (Nat.toDigits 10 n).length ≤ 1 := by omega
  have hlt := (Nat.length_toDigits_le_iff (by omega) (by omega)).mp hle
  omega

/-! ## The nodes -/

/-- The node of the device itself, and that of its first partition. -/
def node (e : Dirent) : Bytes := lit "/dev/" ++ e.dName

def node1 (e : Dirent) : Bytes := node e ++ lit "p1"

/-- An insertion comes to the same wherever the mounts of the two nodes do. -/
def OnOwnNodes (K : Keys) (num : Int) (e : Dirent) (s : Card) : Prop :=
  ∀ m₁ m₂ : Bytes → Nat → Mount, m₁ (node e) = m₂ (node e) → m₁ (node1 e) = m₂ (node1 e) →
    ssMmcInserted K (insertOf num m₁) s = ssMmcInserted K (insertOf num m₂) s

theorem node_eq {e : Dirent} {n : Nat} (h : e.dName = lit "mmcblk" ++ digits n) :
    node e = MMC_DEV ++ digits n := by
  rw [node, h, ← List.append_assoc]
  rfl

/-- The first digit is what the nodes of an insertion are made of. -/
theorem cardNode_leading {e : Dirent} {b : UInt8} {rest : Bytes}
    (hname : e.dName = lit "mmcblk" ++ b :: rest) (hmem : e.strndup = true)
    (hb : isdigit b = true) :
    numberOf e ≠ -1 ∧ cardNode (numberOf e) = MMC_DEV ++ [b] ∧
      partitionNode (numberOf e) = MMC_DEV ++ [b] ++ lit "p1" := by
  have hdrop : (e.dName.drop 6).take 1 = [b] := by
    rw [hname]
    rfl
  obtain ⟨hnonneg, hdec⟩ := dec_atoi_digit hb
  rw [numberOf, if_pos hmem, hdrop, cardNode, partitionNode, hdec]
  exact ⟨by omega, rfl, rfl⟩

/-- **The card's own nodes.** A card is mounted from its own nodes, or not at
all, exactly when its number has one digit: of a longer number only the first
digit is taken, and the insertion mounts whatever card has that number. -/
theorem own_device_iff (K : Keys) {es : List Dirent} {e : Dirent} {n : Nat} (stack : Bytes)
    {s : Card} (hfind : es.find? isCard = some e) (hname : e.dName = lit "mmcblk" ++ digits n)
    (hmem : e.strndup = true) (hs : s.mmcStatus ≠ K.MOUNTED) :
    OnOwnNodes K (getMmcblkNum (some es) stack) e s ↔ n < 10 := by
  have hnum : getMmcblkNum (some es) stack = numberOf e := by
    rw [getMmcblkNum_eq, hfind]
    rfl
  obtain ⟨b, rest, hdigits⟩ := List.exists_cons_of_ne_nil (digits_ne_nil n)
  have hb : isdigit b = true := isdigit_digits (n := n) (by rw [hdigits]; exact List.mem_cons_self)
  obtain ⟨hfound, hcard, hpart⟩ := cardNode_leading (hdigits ▸ hname) hmem hb
  have hnode : node e = MMC_DEV ++ b :: rest := hdigits ▸ node_eq hname
  rw [hnum]
  constructor
  · intro h
    by_contra hn
    have hlong : 2 ≤ (b :: rest).length := hdigits ▸ two_le_length_digits (by omega : 10 ≤ n)
    -- the other card mounts, and the card itself does not
    have hne : node e ≠ MMC_DEV ++ [b] := by
      rw [hnode]
      intro heq
      have hlen := congrArg List.length (List.append_cancel_left heq)
      rw [List.length_singleton] at hlen
      omega
    have hne1 : node1 e ≠ MMC_DEV ++ [b] := by
      rw [node1, hnode, List.append_assoc]
      intro heq
      have hlen := congrArg List.length (List.append_cancel_left heq)
      rw [List.length_append, List.length_singleton] at hlen
      omega
    have hsame := h (fun _ _ => .error) (fun p _ => if p = MMC_DEV ++ [b] then .ok else .error)
      (by simp only [if_neg hne]) (by simp only [if_neg hne1])
    have hret := congrArg Prod.fst hsame
    simp [ssMmcInserted, insertOf, hs, hfound, hcard, mountPartition, RETRIES] at hret
  · intro hn m₁ m₂ hm hm1
    have hrest : rest = [] := by
      rw [digits_of_lt hn] at hdigits
      exact (List.cons.inj hdigits).2.symm
    have hown : cardNode (numberOf e) = node e := by rw [hcard, hnode, hrest]
    have hown1 : partitionNode (numberOf e) = node1 e := by rw [hpart, node1, hnode, hrest]
    have hinsert : insertOf (numberOf e) m₁ = insertOf (numberOf e) m₂ := by
      rw [insertOf, insertOf, hown, hown1, hm, hm1]
    rw [hinsert]

/-- The card is behind a device of another type and one that cannot be opened,
and its number is 12: another card's node decides. -/
theorem own_device_iff_on :
    ¬ OnOwnNodes someKeys
      (getMmcblkNum (some [⟨lit "..", .dir, true, none, true⟩, ⟨lit "loop0", .lnk, true, none, true⟩,
        ⟨lit "mmcblk0", .lnk, true, some (lit "MMC\n"), true⟩,
        ⟨lit "mmcblk1", .lnk, false, some (lit "SD\n"), true⟩,
        ⟨lit "mmcblk12", .lnk, true, some (lit "SD\n"), true⟩]) [])
      ⟨lit "mmcblk12", .lnk, true, some (lit "SD\n"), true⟩ ⟨0, 0, none, none, 0⟩ := fun h =>
  absurd ((own_device_iff (n := 12) someKeys []
    rfl rfl rfl (by decide)).mp h) (by decide)

end SystemServer.L4.MmcNumber
