import Mathlib.Data.List.TakeDrop
import SystemServer.L2Queue.Registry

/-!
# The actions at start-up (`ss_main.c`, `ss_predefine.c`)

`system_server_init` registers the daemon's own actions, handler by handler.
In the middle of it `ss_action_entry_load_from_sodir` goes through a
directory and registers, for every file with ".so" in its name, the library
under the name of the file: without the first three characters, up to the
first ".so".

* `file_name_iff`: for lib<name>.so that is the name, exactly when ".so" does
  not occur in it.
* `boot_registry`: whatever is in the directory, opens and has memory for its
  entry (the rest is granted, `Registry`), a type belongs to the first to claim
  it: the actions of `ss_predefine.c`, then the libraries in the order of the
  directory, then the other handlers' actions. No library takes the place of an
  action of `ss_predefine.c`, and any library takes that of another one by its
  name.
-/
namespace SystemServer.L4.Boot

open SystemServer.L1.Recv
open SystemServer.L2.RunQueue (ActionEntry ssActionEntryFind)
open SystemServer.L2.Registry

/-! ## The daemon's own actions -/

/-- The functions that are registered. -/
inductive Builtin where
  | lowmemDef | lowbatDef | usbconDef | earjackconDef | poweroffDef | launching | restartDef
  | setForegrd | setBackgrd | setActive | setInactive | setOomadj
  | setDatetime | setTimezone
  | setMaxFrequency | setMinFrequency | releaseMaxFrequency | releaseMinFrequency
  | ssMmcInserted | ssMmcUnmounted | ssMmcFormat
  | ssUsbStorageAdded | ssUsbStorageRemoved
  deriving DecidableEq, Repr

/-- mirrors ss_predefine.c:659-673 -/
def ssPredefineInternalInit : List (String × Builtin) :=
  [("lowmem", .lowmemDef), ("lowbat", .lowbatDef), ("usbcon", .usbconDef),
    ("earjack_predef_internal", .earjackconDef), ("poweroff", .poweroffDef),
    ("pwroff-popup", .launching), ("reboot", .restartDef)]

/-- mirrors ss_procmgr.c:361-373 -/
def ssProcessManagerInit : List (String × Builtin) :=
  [("foregrd", .setForegrd), ("backgrd", .setBackgrd), ("active", .setActive),
    ("inactive", .setInactive), ("oomadj_set", .setOomadj)]

/-- mirrors ss_timemgr.c:154-161 -/
def ssTimeManagerInit : List (String × Builtin) :=
  [("set_datetime", .setDatetime), ("set_timezone", .setTimezone)]

/-- mirrors ss_cpu_handler.c:216-219 -/
def ssCpuHandlerInit : List (String × Builtin) :=
  [("set_max_frequency", .setMaxFrequency), ("set_min_frequency", .setMinFrequency),
    ("release_max_frequency", .releaseMaxFrequency), ("release_min_frequency", .releaseMinFrequency)]

/-- mirrors ss_mmc_handler.c:134-146 -/
def ssMmcInit : List (String × Builtin) :=
  [("mountmmc", .ssMmcInserted), ("unmountmmc", .ssMmcUnmounted), ("formatmmc", .ssMmcFormat)]

/-- mirrors ss_usb_storage_handler.c:262-268 -/
def ssUsbStorageInit : List (String × Builtin) :=
  [("usbstorage-add", .ssUsbStorageAdded), ("usbstorage-remove", .ssUsbStorageRemoved)]

/-! ## The directory -/

/-- mirrors ss_predefine.c:43, with the PREFIX of the package -/
def PREDEFINE_SO_DIR : Bytes := lit "/usr/lib/ss_predefine/"

/-- Where the needle first occurs, mirrors strstr(3). -/
def strstr (needle : Bytes) : Bytes → Option Nat
  | [] => if needle = [] then some 0 else none
  | b :: bs => if needle.isPrefixOf (b :: bs) then some 0 else (strstr needle bs).map (· + 1)

/-- The string at `&(dentry->d_name[3])` after `*ext = 0`. -/
def typeOf (dName : Bytes) (ext : Nat) : Bytes := cstr ((dName.set ext 0 ++ [0]).drop 3)

/-- `snprintf(tmp, sizeof(tmp), "%s/%s", ...)` -/
def tmp (dName : Bytes) : Bytes := (PREDEFINE_SO_DIR ++ lit "/" ++ dName).take 127

/-- What start-up meets: the files of the directory, if there is memory for the
message and it can be opened; the libraries; the `malloc`s of the entries, by
type and by file. -/
structure Env (P : Type) where
  getpid : Int
  dir : Option (List Bytes)
  dlopen : Bytes → Option (Lib P)
  builtinMem : String → Bool
  fileMem : Bytes → Bool

/-- A handler of the daemon or of a library. -/
inductive Action (P : Type) where
  | builtin (b : Builtin)
  | plugin (p : P)
  deriving DecidableEq, Repr

variable {P : Type}

def Lib.asAction (lib : Lib P) : Lib (Action P) :=
  ⟨lib.predefineAction.map .plugin, lib.isAccessable⟩

/-- The registration a file leads to.
mirrors ss_predefine.c:631-639 -/
def loadFile (E : Env P) (dName : Bytes) : Option (Registration (Action P)) :=
  (strstr (lit ".so") dName).map fun ext =>
    .client (E.fileMem dName) ((E.dlopen (tmp dName)).map Lib.asAction)
      ⟨E.getpid, 0, some ⟨0, typeOf dName ext⟩, some ⟨1, tmp dName⟩, 0, []⟩

/-- mirrors ss_predefine.c:607-644 -/
def ssActionEntryLoadFromSodir (E : Env P) : List (Registration (Action P)) :=
  (E.dir.getD []).filterMap (loadFile E)

def internal (E : Env P) (x : String × Builtin) : Registration (Action P) :=
  .internal (E.builtinMem x.1) E.getpid (some ⟨0, lit x.1⟩) (some (.builtin x.2)) none

/-- The actions registered after the directory was read. -/
def late : List (String × Builtin) :=
  ssProcessManagerInit ++ ssTimeManagerInit ++ ssCpuHandlerInit ++ ssMmcInit ++ ssUsbStorageInit

/-- mirrors ss_main.c:72-85 and ss_predefine.c:659-675 -/
def systemServerInit (E : Env P) : List (Registration (Action P)) :=
  ssPredefineInternalInit.map (internal E) ++ ssActionEntryLoadFromSodir E ++ late.map (internal E)

/-! ## Whose a type is -/

/-- The type a file is registered under. -/
def fileType (dName : Bytes) : Option Bytes := (strstr (lit ".so") dName).map (typeOf dName)

/-- The handler a file brings, if it can be registered. -/
def fileHandler (E : Env P) (dName : Bytes) : Option P :=
  if E.fileMem dName then (E.dlopen (tmp dName)).bind Lib.predefineAction else none

/-- The handler of the first library of that name. -/
def pluginOf (E : Env P) (type : Bytes) : Option P :=
  (E.dir.getD []).findSome? fun dName =>
    if fileType dName = some type then fileHandler E dName else none

def builtinOf (E : Env P) (table : List (String × Builtin)) (type : Bytes) : Option Builtin :=
  (table.find? fun x => lit x.1 = type ∧ E.builtinMem x.1 = true).map Prod.snd

/-- Who claims the type first. -/
def owner (E : Env P) (type : Bytes) : Option (Action P) :=
  ((builtinOf E ssPredefineInternalInit type).map .builtin).or
    (((pluginOf E type).map .plugin).or ((builtinOf E late type).map .builtin))

/-- The handler a call of the type runs. -/
def handlerOf (acts : List (ActionEntry (Action P))) (type : Bytes) : Option (Action P) :=
  (ssActionEntryFind (some ⟨0, type⟩) acts).join.map ActionEntry.predefineAction

/-! ## The name of a file -/

theorem strstr_eq_some {needle : Bytes} {hay : Bytes} {k : Nat} (h : strstr needle hay = some k) :
    needle <+: hay.drop k ∧ ∀ j, j < k → ¬ needle <+: hay.drop j := by
  induction hay generalizing k with
  | nil =>
    obtain ⟨rfl, rfl⟩ := Option.ite_some_none_eq_some.mp h
    exact ⟨List.nil_prefix, fun j hj => absurd hj (Nat.not_lt_zero j)⟩
  | cons b bs ih =>
    rw [strstr] at h
    split at h
    · rename_i hpre
      obtain rfl := Option.some.inj h
      exact ⟨List.isPrefixOf_iff_prefix.mp hpre, fun j hj => absurd hj (Nat.not_lt_zero j)⟩
    · rename_i hpre
      obtain ⟨k', hk', rfl⟩ := Option.map_eq_some_iff.mp h
      obtain ⟨hat, hbefore⟩ := ih hk'
      refine ⟨hat, fun j hj => ?_⟩
      cases j with
      | zero => exact fun h0 => hpre (List.isPrefixOf_iff_prefix.mpr h0)
      | succ j => exact hbefore j (Nat.lt_of_succ_lt_succ hj)

/-- It is found where it occurs. -/
theorem strstr_isSome {needle hay : Bytes} {k : Nat} (hk : k ≤ hay.length)
    (h : needle <+: hay.drop k) : ∃ j, strstr needle hay = some j ∧ j ≤ k := by
  induction hay generalizing k with
  | nil =>
    obtain rfl : k = 0 := Nat.le_zero.mp hk
    obtain rfl : needle = [] := List.prefix_nil.mp h
    exact ⟨0, rfl, Nat.le_refl 0⟩
  | cons b bs ih =>
    rw [strstr]
    split
    · exact ⟨0, rfl, Nat.zero_le k⟩
    · rename_i hpre
      cases k with
      | zero => exact absurd (List.isPrefixOf_iff_prefix.mpr h) hpre
      | succ k =>
        obtain ⟨j, hj, hle⟩ := ih (Nat.le_of_succ_le_succ hk) h
        exact ⟨j + 1, by rw [hj]; rfl, Nat.succ_le_succ hle⟩

/-- Before its end, a name and ".so" show a ".so" only where the name does. -/
theorem so_before_end {name : Bytes} {j : Nat} (hj : j < name.length)
    (h : lit ".so" <+: (name ++ lit ".so").drop j) : lit ".so" <:+: name := by
  rw [List.drop_append_of_le_length (Nat.le_of_lt hj)] at h
  have hsuffix : name.drop j <:+ name := List.drop_suffix j name
  have hne : name.drop j ≠ [] := fun h0 => absurd (List.drop_eq_nil_iff.mp h0) (by omega)
  rcases hd : name.drop j with _ | ⟨a, _ | ⟨b, _ | ⟨c, rest⟩⟩⟩
  · exact absurd hd hne
  · rw [hd] at h
    obtain ⟨t, ht⟩ := h
    simp [lit] at ht
  · rw [hd] at h
    obtain ⟨t, ht⟩ := h
    simp [lit] at ht
  · rw [hd] at h hsuffix
    have hpre : lit ".so" <+: a :: b :: c :: rest :=
      List.prefix_of_prefix_length_le h (List.prefix_append _ _) (by simp [lit])
    exact hpre.isInfix.trans hsuffix.isInfix

/-- `*ext = 0` ends the type where ".so" begins. -/
theorem typeOf_lib {name : Bytes} (hnul : (0 : UInt8) ∉ name) {j : Nat} (hj : j ≤ name.length) :
    typeOf (lit "lib" ++ name ++ lit ".so") (3 + j) = name.take j := by
  have hlen : j < (name ++ lit ".so").length := by
    simp [lit]
    omega
  have hdrop : ((lit "lib" ++ (name ++ lit ".so")).set (3 + j) 0 ++ [0]).drop 3 =
      (name ++ lit ".so").take j ++ 0 :: ((name ++ lit ".so").drop (j + 1) ++ [0]) := by
    have hset : (lit "lib" ++ (name ++ lit ".so")).set (3 + j) 0 =
        lit "lib" ++ (name ++ lit ".so").set j 0 := by
      rw [List.set_append_right _ _ (by simp [lit])]
      simp [lit]
    rw [hset, List.append_assoc, List.drop_left' (by simp [lit]),
      List.set_eq_take_append_cons_drop, if_pos hlen, List.append_assoc, List.cons_append]
  have htake : (name ++ lit ".so").take j = name.take j := List.take_append_of_le_length hj
  rw [typeOf, List.append_assoc, hdrop, htake]
  exact cstr_append_nul (fun h => hnul (List.mem_of_mem_take h)) _

/-- The type of lib<name>.so is the name up to the first ".so". -/
theorem fileType_lib (name : Bytes) (hnul : (0 : UInt8) ∉ name) :
    ∃ j, fileType (lit "lib" ++ name ++ lit ".so") = some (name.take j) ∧ j ≤ name.length ∧
      (j < name.length ↔ lit ".so" <:+: name) := by
  have hhay : ∀ k, (lit "lib" ++ name ++ lit ".so").drop (3 + k) = (name ++ lit ".so").drop k := by
    intro k
    rw [List.append_assoc, ← List.drop_drop, List.drop_left' (by simp [lit])]
  have hend : lit ".so" <+: (lit "lib" ++ name ++ lit ".so").drop (3 + name.length) := by
    have hdrop := hhay name.length
    rw [List.drop_left] at hdrop
    exact ⟨[], by rw [List.append_nil, hdrop]⟩
  obtain ⟨ext, hext, hle⟩ := strstr_isSome (by simp [lit]; omega) hend
  obtain ⟨hat, hbefore⟩ := strstr_eq_some hext
  -- "lib" has no full stop
  obtain ⟨j, rfl⟩ : ∃ j, ext = 3 + j := by
    refine Nat.exists_eq_add_of_le ?_
    by_contra hlt
    obtain ⟨t, ht⟩ := hat
    have hcases : ext = 0 ∨ ext = 1 ∨ ext = 2 := by omega
    rcases hcases with rfl | rfl | rfl <;> simp [lit] at ht
  have hj : j ≤ name.length := by omega
  refine ⟨j, by rw [fileType, hext, Option.map_some, typeOf_lib hnul hj], hj, fun hlt => ?_, ?_⟩
  · rw [hhay] at hat
    exact so_before_end hlt hat
  · intro hinfix
    obtain ⟨pre, post, rfl⟩ := hinfix
    by_contra hnot
    refine hbefore (3 + pre.length) ?_ ?_
    · have hso : (lit ".so").length = 3 := rfl
      simp only [List.length_append, hso] at hnot
      omega
    · rw [hhay, List.append_assoc, List.append_assoc, List.drop_left]
      exact List.prefix_append _ _

/-- **The name of a library.** lib<name>.so is registered under its name and
opened under its path, if and only if ".so" does not occur in the name and it
is no longer than 98 characters. -/
theorem file_name_iff (name : Bytes) (hnul : (0 : UInt8) ∉ name) :
    (fileType (lit "lib" ++ name ++ lit ".so") = some name ∧
      tmp (lit "lib" ++ name ++ lit ".so") =
        PREDEFINE_SO_DIR ++ lit "/" ++ (lit "lib" ++ name ++ lit ".so")) ↔
      ¬ lit ".so" <:+: name ∧ name.length ≤ 98 := by
  obtain ⟨j, htype, hj, hiff⟩ := fileType_lib name hnul
  have hname : fileType (lit "lib" ++ name ++ lit ".so") = some name ↔ ¬ lit ".so" <:+: name := by
    rw [htype, Option.some.injEq, ← hiff, Nat.not_lt]
    constructor
    · intro heq
      have hlen := congrArg List.length heq
      rw [List.length_take] at hlen
      omega
    · exact List.take_of_length_le
  have hpath : tmp (lit "lib" ++ name ++ lit ".so") =
      PREDEFINE_SO_DIR ++ lit "/" ++ (lit "lib" ++ name ++ lit ".so") ↔ name.length ≤ 98 := by
    have hdir : PREDEFINE_SO_DIR.length = 22 := rfl
    have hslash : (lit "/").length = 1 := rfl
    have hlib : (lit "lib").length = 3 := rfl
    have hso : (lit ".so").length = 3 := rfl
    rw [tmp, List.take_eq_self_iff]
    simp only [List.length_append, hdir, hslash, hlib, hso]
    omega
  rw [hname, hpath]

theorem file_name_foo : fileType (lit "lib" ++ lit "foo" ++ lit ".so") = some (lit "foo") ∧
    tmp (lit "lib" ++ lit "foo" ++ lit ".so") =
      PREDEFINE_SO_DIR ++ lit "/" ++ (lit "lib" ++ lit "foo" ++ lit ".so") :=
  (file_name_iff (lit "foo") (by decide)).mpr ⟨by decide, by decide⟩

/-! ## First come, first served -/

/-- The handler a registration brings for the type. -/
def brings (t : Str) (r : Registration (Action P)) : Option (Action P) :=
  if r.offers t = true then r.handler else none

/-- A registration that can be made has a handler. -/
theorem handler_of_able {H : Type} {r : Registration H} (h : r.able = true) :
    ∃ act, r.handler = some act := by
  cases r with
  | internal mem getpid type predefineAction isAccessable =>
    simp only [Registration.able, Bool.and_eq_true] at h
    exact Option.isSome_iff_exists.mp h.2
  | client mem dlopen msg =>
    simp only [Registration.able, Bool.and_eq_true] at h
    exact Option.isSome_iff_exists.mp h.2

theorem find_brings (t : Str) (rs : List (Registration (Action P))) :
    (rs.find? (·.offers t)).bind Registration.handler = rs.findSome? (brings t) := by
  induction rs with
  | nil => rfl
  | cons r rs ih =>
    rw [List.find?_cons, List.findSome?_cons, brings]
    by_cases hoff : r.offers t = true
    · have hable : r.able = true := by
        simp only [Registration.offers, Bool.and_eq_true] at hoff
        exact hoff.1
      obtain ⟨act, hact⟩ := handler_of_able hable
      simp only [hoff, if_true, Option.bind_some, hact]
    · rw [Bool.not_eq_true] at hoff
      simp only [hoff, Bool.false_eq_true, if_false, ih]

theorem brings_internal (E : Env P) (table : List (String × Builtin))
    (hnul : ∀ x ∈ table, (0 : UInt8) ∉ lit x.1) {type : Bytes} (ht : (0 : UInt8) ∉ type) :
    (table.map (internal E)).findSome? (brings ⟨0, type⟩) =
      (builtinOf E table type).map .builtin := by
  induction table with
  | nil => rfl
  | cons x table ih =>
    have hx := cstr_of_notMem (hnul x List.mem_cons_self)
    rw [List.map_cons, List.findSome?_cons, ih fun y hy => hnul y (List.mem_cons_of_mem _ hy)]
    simp only [brings, Registration.offers, internal, Registration.able, Registration.type,
      Registration.handler, builtinOf, List.find?_cons, Option.isSome_some, Bool.and_true,
      Option.any_some, hx, cstr_of_notMem ht]
    cases hmem : E.builtinMem x.1 <;> by_cases heq : lit x.1 = type <;> simp [heq]

/-- What the library of a file brings. -/
theorem brings_library (E : Env P) (dName : Bytes) : ((E.dlopen (tmp dName)).map Lib.asAction).bind
    Lib.predefineAction = ((E.dlopen (tmp dName)).bind Lib.predefineAction).map .plugin := by
  cases E.dlopen (tmp dName) <;> rfl

theorem brings_loadFile (E : Env P) (dName type : Bytes) (ht : (0 : UInt8) ∉ type) :
    (loadFile E dName).bind (brings ⟨0, type⟩) =
      (if fileType dName = some type then fileHandler E dName else none).map .plugin := by
  obtain hext | ⟨ext, hext⟩ := Option.eq_none_or_eq_some (strstr (lit ".so") dName)
  · simp [loadFile, fileType, hext]
  · have htype : cstr (typeOf dName ext) = typeOf dName ext := cstr_of_notMem (notMem_cstr _)
    simp only [loadFile, fileType, fileHandler, hext, Option.map_some, Option.bind_some, brings,
      Registration.offers, Registration.able, Registration.type, Registration.handler,
      Option.isSome_some, Bool.and_true, Option.any_some, htype, cstr_of_notMem ht,
      Option.some.injEq, brings_library, Option.isSome_map]
    by_cases heq : typeOf dName ext = type
    · cases E.fileMem dName <;> cases (E.dlopen (tmp dName)).bind Lib.predefineAction <;> simp [heq]
    · simp [heq]

theorem brings_plugins (E : Env P) {type : Bytes} (ht : (0 : UInt8) ∉ type) :
    (ssActionEntryLoadFromSodir E).findSome? (brings ⟨0, type⟩) =
      (pluginOf E type).map .plugin := by
  simp only [ssActionEntryLoadFromSodir, pluginOf]
  generalize E.dir.getD [] = files
  induction files with
  | nil => rfl
  | cons dName files ih =>
    have hfile := brings_loadFile E dName type ht
    rw [List.findSome?_cons, List.filterMap_cons]
    generalize (if fileType dName = some type then fileHandler E dName else none) = x at hfile ⊢
    cases hload : loadFile E dName with
    | none =>
      rw [hload, Option.bind_none] at hfile
      cases x with
      | none => exact ih
      | some p => cases hfile
    | some r =>
      rw [hload, Option.bind_some] at hfile
      rw [List.findSome?_cons, hfile]
      cases x with
      | none => exact ih
      | some p => rfl

theorem late_ne : ∀ x ∈ late, (0 : UInt8) ∉ lit x.1 := by decide

theorem early_ne : ∀ x ∈ ssPredefineInternalInit, (0 : UInt8) ∉ lit x.1 := by decide

theorem early_late : ∀ x ∈ late, ∀ y ∈ ssPredefineInternalInit, lit y.1 ≠ lit x.1 := by decide

theorem early_differ : ssPredefineInternalInit.Pairwise fun x y => lit x.1 ≠ lit y.1 := by decide

theorem late_differ : late.Pairwise fun x y => lit x.1 ≠ lit y.1 := by decide

/-- What a look-up finds is what the first success registered. -/
theorem handlerOf_first {s : Actions (Action P)} (h : L2.Registry.Inv s) (type : Bytes) :
    handlerOf s.predefActList type = (first ⟨0, type⟩ s.log).bind Registration.handler := by
  obtain ⟨o, hfind, hrel⟩ := h.found ⟨0, type⟩
  rw [handlerOf, hfind, Option.join_some]
  generalize first ⟨0, type⟩ s.log = fst at hrel
  cases hrel with
  | none => rfl
  | some hmakes => exact hmakes.handler.symm

/-- Every registration of start-up has a type, and a path if it is a file's. -/
theorem systemServerInit_ok (E : Env P) :
    ∀ r ∈ systemServerInit E, (∃ t, r.type = some t) ∧ r.HasPath := by
  intro r hr
  have hint : ∀ table : List (String × Builtin), r ∈ table.map (internal E) →
      (∃ t, r.type = some t) ∧ r.HasPath := by
    intro table hmem
    obtain ⟨x, -, rfl⟩ := List.mem_map.mp hmem
    exact ⟨⟨_, rfl⟩, trivial⟩
  simp only [systemServerInit, List.mem_append] at hr
  rcases hr with (hr | hr) | hr
  · exact hint _ hr
  · obtain ⟨dName, -, hload⟩ := List.mem_filterMap.mp hr
    obtain ⟨ext, -, rfl⟩ := Option.map_eq_some_iff.mp hload
    exact ⟨⟨_, rfl⟩, Option.some_ne_none _⟩
  · exact hint _ hr

/-- A history without NULL pointers can be run. -/
theorem run_isSome {rs : List (Registration (Action P))}
    (hrs : ∀ r ∈ rs, (∃ t, r.type = some t) ∧ r.HasPath) (s : Actions (Action P)) :
    ∃ s', (lts (Action P)).run s rs = some s' := by
  induction rs generalizing s with
  | nil => exact ⟨s, rfl⟩
  | cons r rs ih =>
    obtain ⟨⟨t, ht⟩, hpath⟩ := hrs r List.mem_cons_self
    obtain ⟨s₁, hst⟩ := Option.isSome_iff_exists.mp (step_isSome ht hpath s)
    obtain ⟨s', hr⟩ := ih (fun x hx => hrs x (List.mem_cons_of_mem _ hx)) s₁
    exact ⟨s', LTS.run_cons.mpr ⟨s₁, hst, hr⟩⟩

/-- After start-up a type has its owner. -/
theorem handlers_at_start (E : Env P) {s : Actions (Action P)}
    (hs : (lts (Action P)).run ⟨[], []⟩ (systemServerInit E) = some s) {type : Bytes}
    (ht : (0 : UInt8) ∉ type) : handlerOf s.predefActList type = owner E type := by
  have hinit : L2.Registry.Inv (⟨[], []⟩ : Actions (Action P)) := inv_inductive.init _ ⟨rfl, rfl⟩
  rw [handlerOf_first (inv_inductive.run hinit hs), first_run hinit hs]
  change ((systemServerInit E).find? _).bind _ = _
  rw [find_brings, systemServerInit, List.findSome?_append, List.findSome?_append,
    brings_internal E _ early_ne ht, brings_plugins E ht, brings_internal E _ late_ne ht,
    Option.or_assoc]
  rfl

/-- The types of a table differ, so each finds its own function. -/
theorem builtinOf_mem (E : Env P) {table : List (String × Builtin)}
    (hdiff : table.Pairwise fun x y => lit x.1 ≠ lit y.1) {x : String × Builtin} (hx : x ∈ table)
    (hmem : E.builtinMem x.1 = true) : builtinOf E table (lit x.1) = some x.2 := by
  induction table with
  | nil => cases hx
  | cons y table ih =>
    obtain ⟨hy, hdiff⟩ := List.pairwise_cons.mp hdiff
    rcases List.mem_cons.mp hx with rfl | hx
    · simp [builtinOf, hmem]
    · have hrest := ih hdiff hx
      rw [builtinOf] at hrest ⊢
      rw [List.find?_cons_of_neg (by simp [hy x hx]), hrest]

theorem builtinOf_none (E : Env P) {table : List (String × Builtin)} {type : Bytes}
    (h : ∀ x ∈ table, lit x.1 ≠ type) : builtinOf E table type = none := by
  rw [builtinOf, List.find?_eq_none.mpr fun x hx => by simp [h x hx]]
  rfl

/-- **The actions at start-up.** Start-up runs into no NULL pointer, and then a
type belongs to the action of `ss_predefine.c` with that name, else to the
first library of that name in the directory that can be registered, else to
another handler's action with that name, else to nobody. So, given memory for
its entry, no library takes the place of an action of `ss_predefine.c`, and
another action is the daemon's own exactly when no library takes its name. -/
theorem boot_registry (E : Env P) :
    ∃ s, (lts (Action P)).run ⟨[], []⟩ (systemServerInit E) = some s ∧
      (∀ type : Bytes, (0 : UInt8) ∉ type → handlerOf s.predefActList type = owner E type) ∧
      (∀ x ∈ ssPredefineInternalInit, E.builtinMem x.1 = true →
        handlerOf s.predefActList (lit x.1) = some (.builtin x.2)) ∧
      ∀ x ∈ late, E.builtinMem x.1 = true →
        (handlerOf s.predefActList (lit x.1) = some (.builtin x.2) ↔ pluginOf E (lit x.1) = none) := by
  obtain ⟨s, hs⟩ := run_isSome (systemServerInit_ok E) ⟨[], []⟩
  refine ⟨s, hs, fun type ht => handlers_at_start E hs ht, fun x hx hmem => ?_, fun x hx hmem => ?_⟩
  · rw [handlers_at_start E hs (early_ne x hx), owner, builtinOf_mem E early_differ hx hmem]
    rfl
  · rw [handlers_at_start E hs (late_ne x hx), owner, builtinOf_none E (early_late x hx),
      builtinOf_mem E late_differ hx hmem]
    cases pluginOf E (lit x.1) <;> simp

/-- Two libraries, one of which takes a name of `ss_predefine.c`. -/
def someDir : Env Nat where
  getpid := 1
  dir := some [lit "README", lit "liblowmem.so", lit "libbackgrd.so.1"]
  dlopen path := if path = tmp (lit "libbackgrd.so.1") then some ⟨some 9, none⟩ else some ⟨some 8, none⟩
  builtinMem _ := true
  fileMem _ := true

example : owner someDir (lit "lowmem") = some (.builtin .lowmemDef) ∧
    owner someDir (lit "backgrd") = some (.plugin 9) ∧
    owner someDir (lit "active") = some (.builtin .setActive) := by decide

end SystemServer.L4.Boot
