import Mathlib.Algebra.Group.Nat.Defs
import Mathlib.Data.List.Forall2

/-! What `mt_fixup` of `mt_devs.c` makes of the memory banks: it limits them to the memory that is
supported, and takes the memory of the frame buffer from the last one. Tags that it only copies
and the command line are left out. -/

namespace Yika.Devs

/-- `resource_size_t`, `unsigned long` and `__u32`. -/
abbrev Word := BitVec 32

/-- A `struct tag`, of `ATAG_MEM`, `ATAG_BOOT`, `ATAG_VIDEOLFB` or another kind. -/
inductive FixupTag where
  | mem (size start : Word)
  | boot (bootmode : Word)
  | videolfb
  | other
  deriving DecidableEq

/-- The constants that `mt_fixup` is built with, and what `TOTAL_RESERVED_MEM_SIZE` evaluates to. -/
structure DramConfig where
  maxDramSizeSupport : Word
  physOffset : Word
  dramPhysAddrStart : Word
  totalReservedMemSize : Word

def reservedMemModem : Word := 0

/-- The variables of the loop, a tag being named by its index. -/
structure Limiting where
  maxLimitSize : Word
  availDram : Word
  reservedMemBankTag : Option Nat
  blMemSz : Word
  gBootMode : Word
  useBlFb : Nat

/-- The `ATAG_MEM` case of the loop: the size that the bank gets. -/
def limitMem (c : DramConfig) (i : Nat) (size : Word) (s : Limiting) : Word × Limiting :=
  let s := { s with blMemSz := s.blMemSz + size }
  if 0 < s.maxLimitSize then
    if size ≤ s.maxLimitSize then
      (size, { s with
        maxLimitSize := s.maxLimitSize - size
        availDram := s.availDram + size
        reservedMemBankTag := some i })
    else
      let maxLimitSizeAdjusted := s.maxLimitSize - (c.physOffset - c.dramPhysAddrStart)
      (maxLimitSizeAdjusted, { s with
        maxLimitSize := 0
        availDram := s.availDram + maxLimitSizeAdjusted
        reservedMemBankTag := some i })
  else (0, s)

def limitTag (c : DramConfig) (i : Nat) (s : Limiting) : FixupTag → FixupTag × Limiting
  | .mem size start => (.mem (limitMem c i size s).1 start, (limitMem c i size s).2)
  | .boot bootmode => (.boot bootmode, { s with gBootMode := bootmode })
  | .videolfb => (.videolfb, { s with useBlFb := s.useBlFb + 1 })
  | .other => (.other, s)

/-- The loop, the first tag being that of index `i`. -/
def limitTags (c : DramConfig) : Nat → List FixupTag → Limiting → List FixupTag × Limiting
  | _, [], s => ([], s)
  | i, tag :: tags, s =>
    ((limitTag c i s tag).1 :: (limitTags c (i + 1) tags (limitTag c i s tag).2).1,
      (limitTags c (i + 1) tags (limitTag c i s tag).2).2)

/-- The memory of the frame buffer is taken from a bank. -/
def FixupTag.reserve (c : DramConfig) : FixupTag → FixupTag
  | .mem size start => .mem (size - c.totalReservedMemSize) start
  | tag => tag

/-- `pmem_start`, the end of a bank. -/
def FixupTag.endAddress : FixupTag → Word
  | .mem size start => start + size
  | _ => 0

/-- `limited` are the tags after the loop and `tags` those after the call; `reservedMemBankTag` is
the index of the bank that the frame buffer is taken from. -/
structure Fixed where
  limited : List FixupTag
  tags : List FixupTag
  reservedMemBankTag : Nat
  kernelMemSz : Word
  blMemSz : Word
  useBlFb : Nat
  gBootMode : Word
  pmemStart : Word

def Limiting.start (c : DramConfig) (gBootMode : Word) (useBlFb : Nat) : Limiting where
  maxLimitSize := c.maxDramSizeSupport - reservedMemModem
  availDram := 0
  reservedMemBankTag := none
  blMemSz := 0
  gBootMode := gBootMode
  useBlFb := useBlFb

/-- `none` is `BUG()`. -/
def mtFixup (c : DramConfig) (gBootMode : Word) (useBlFb : Nat) (tags : List FixupTag) : Option Fixed :=
  let limited := limitTags c 0 tags (.start c gBootMode useBlFb)
  let useBlFb := if c.maxDramSizeSupport - reservedMemModem ≤ limited.2.blMemSz then
    limited.2.useBlFb + 1 else limited.2.useBlFb
  match limited.2.reservedMemBankTag with
  | none => none
  | some i => some {
      limited := limited.1
      tags := limited.1.modify i (.reserve c)
      reservedMemBankTag := i
      kernelMemSz := limited.2.availDram
      blMemSz := limited.2.blMemSz
      useBlFb := useBlFb
      gBootMode := limited.2.gBootMode
      pmemStart := ((limited.1.getD i .other).reserve c).endAddress }

def FixupTag.bytes : FixupTag → Nat
  | .mem size _ => size.toNat
  | _ => 0

def total : List FixupTag → Nat
  | [] => 0
  | tag :: tags => tag.bytes + total tags

def FixupTag.isMem : FixupTag → Bool
  | .mem _ _ => true
  | _ => false

/-- A bank has become smaller, and nothing else has changed. -/
def Shrinks : FixupTag → FixupTag → Prop
  | .mem size start, tag' => ∃ size', tag' = .mem size' start ∧ size'.toNat ≤ size.toNat
  | tag, tag' => tag' = tag

structure NeverInvents (c : DramConfig) (tags : List FixupTag) (r : Fixed) : Prop where
  shrinks : List.Forall₂ Shrinks tags r.tags
  adds : total r.limited = r.kernelMemSz.toNat
  limits : total r.limited ≤ c.maxDramSizeSupport.toNat
  carves : ∃ size size' start, r.limited[r.reservedMemBankTag]? = some (.mem size start) ∧
    r.tags[r.reservedMemBankTag]? = some (.mem size' start) ∧
    size'.toNat + c.totalReservedMemSize.toNat = size.toNat

/-- The bank that the limit ends in, or the last one. -/
structure LastBank (c : DramConfig) (tags before : List FixupTag) (size start : Word)
    (after : List FixupTag) : Prop where
  split : tags = before ++ .mem size start :: after
  below : total before < c.maxDramSizeSupport.toNat
  last : c.maxDramSizeSupport.toNat ≤ total before + size.toNat ∨ ∀ tag ∈ after, tag.isMem = false

def DramConfig.Room (c : DramConfig) (before : Nat) (size : Word) : Prop :=
  if before + size.toNat ≤ c.maxDramSizeSupport.toNat then c.totalReservedMemSize.toNat ≤ size.toNat
  else (c.physOffset - c.dramPhysAddrStart).toNat + c.totalReservedMemSize.toNat ≤
    c.maxDramSizeSupport.toNat - before

section
variable {c : DramConfig} {i : Nat} {s : Limiting} {tags before after : List FixupTag}
  {tag : FixupTag} {size start : Word}

theorem total_cons : total (tag :: tags) = tag.bytes + total tags := rfl

theorem total_append : total (before ++ after) = total before + total after := by
  induction before with
  | nil => simp [total]
  | cons tag before ih => rw [List.cons_append, total_cons, total_cons, ih, Nat.add_assoc]

theorem modify_at {rest : List FixupTag} {f : FixupTag → FixupTag} :
    (before ++ tag :: rest).modify before.length f = before ++ f tag :: rest := by
  induction before with
  | nil => rfl
  | cons first before ih => simp [ih]

theorem limitTags_append : limitTags c i (before ++ after) s =
    ((limitTags c i before s).1 ++
        (limitTags c (i + before.length) after (limitTags c i before s).2).1,
      (limitTags c (i + before.length) after (limitTags c i before s).2).2) := by
  induction before generalizing i s with
  | nil => simp [limitTags]
  | cons tag before ih =>
    have next : i + 1 + before.length = i + (tag :: before).length := by
      simp only [List.length_cons]
      omega
    simp only [List.cons_append, limitTags, ih, next]

theorem shrinks_refl : Shrinks tag tag := by
  cases tag with
  | mem size start => exact ⟨size, rfl, Nat.le_refl _⟩
  | boot _ => rfl
  | videolfb => rfl
  | other => rfl

theorem limitMem_below (below : 0 < s.maxLimitSize.toNat) :
    limitMem c i size s = if size.toNat ≤ s.maxLimitSize.toNat then
        (size, { s with
          maxLimitSize := s.maxLimitSize - size
          availDram := s.availDram + size
          reservedMemBankTag := some i
          blMemSz := s.blMemSz + size })
      else (s.maxLimitSize - (c.physOffset - c.dramPhysAddrStart), { s with
          maxLimitSize := 0
          availDram := s.availDram + (s.maxLimitSize - (c.physOffset - c.dramPhysAddrStart))
          reservedMemBankTag := some i
          blMemSz := s.blMemSz + size }) := by
  have positive : 0 < s.maxLimitSize := BitVec.lt_def.mpr below
  simp only [limitMem, if_pos positive, BitVec.le_def]

theorem limitMem_full (full : s.maxLimitSize.toNat = 0) :
    limitMem c i size s = (0, { s with blMemSz := s.blMemSz + size }) := by
  have none : ¬ 0 < s.maxLimitSize := by
    rw [BitVec.lt_def, full]
    decide
  simp only [limitMem, if_neg none]

theorem limitTag_below (below : tag.bytes < s.maxLimitSize.toNat)
    (counted : s.availDram.toNat + tag.bytes < 2 ^ 32) : (limitTag c i s tag).1 = tag ∧
      (limitTag c i s tag).2.maxLimitSize.toNat = s.maxLimitSize.toNat - tag.bytes ∧
      (limitTag c i s tag).2.availDram.toNat = s.availDram.toNat + tag.bytes := by
  cases tag with
  | mem size start =>
    have fits : size.toNat ≤ s.maxLimitSize.toNat := Nat.le_of_lt below
    simp only [limitTag, limitMem_below (Nat.zero_lt_of_lt below), if_pos fits]
    refine ⟨trivial, BitVec.toNat_sub_of_le (BitVec.le_def.mpr fits), ?_⟩
    rw [BitVec.toNat_add]
    exact Nat.mod_eq_of_lt counted
  | boot _ => exact ⟨rfl, rfl, rfl⟩
  | videolfb => exact ⟨rfl, rfl, rfl⟩
  | other => exact ⟨rfl, rfl, rfl⟩

theorem limitTags_below (below : total tags < s.maxLimitSize.toNat)
    (counted : s.availDram.toNat + total tags < 2 ^ 32) :
    (limitTags c i tags s).1 = tags ∧
      (limitTags c i tags s).2.maxLimitSize.toNat = s.maxLimitSize.toNat - total tags ∧
      (limitTags c i tags s).2.availDram.toNat = s.availDram.toNat + total tags := by
  induction tags generalizing i s with
  | nil => simp [limitTags, total]
  | cons tag tags ih =>
    rw [total_cons] at below counted ⊢
    have ⟨same, limit, avail⟩ : (limitTag c i s tag).1 = tag ∧ _ ∧ _ :=
      limitTag_below (by omega) (by omega)
    have ⟨same', limit', avail'⟩ : (limitTags c (i + 1) tags (limitTag c i s tag).2).1 = tags ∧ _ ∧ _ :=
      ih (by omega) (by omega)
    simp only [limitTags]
    rw [same, same', limit', avail']
    refine ⟨rfl, ?_, ?_⟩
    · omega
    · omega

theorem limitTags_rest (rest : s.maxLimitSize.toNat = 0 ∨ ∀ tag ∈ tags, tag.isMem = false) :
    List.Forall₂ Shrinks tags (limitTags c i tags s).1 ∧ total (limitTags c i tags s).1 = 0 ∧
      (limitTags c i tags s).2.reservedMemBankTag = s.reservedMemBankTag ∧
      (limitTags c i tags s).2.availDram = s.availDram := by
  induction tags generalizing i s with
  | nil => simp [limitTags, total]
  | cons tag tags ih =>
    have step : Shrinks tag (limitTag c i s tag).1 ∧ (limitTag c i s tag).1.bytes = 0 ∧
        (limitTag c i s tag).2.reservedMemBankTag = s.reservedMemBankTag ∧
        (limitTag c i s tag).2.availDram = s.availDram ∧
        (limitTag c i s tag).2.maxLimitSize = s.maxLimitSize := by
      cases tag with
      | mem size start =>
        have full := rest.resolve_right fun none => absurd (none _ List.mem_cons_self) (by simp [FixupTag.isMem])
        simp only [limitTag, limitMem_full full, and_true]
        exact ⟨⟨0, rfl, Nat.zero_le _⟩, rfl⟩
      | boot _ => exact ⟨rfl, rfl, rfl, rfl, rfl⟩
      | videolfb => exact ⟨rfl, rfl, rfl, rfl, rfl⟩
      | other => exact ⟨rfl, rfl, rfl, rfl, rfl⟩
    obtain ⟨shrinks, empty, reserved, avail, limit⟩ := step
    have next : (limitTag c i s tag).2.maxLimitSize.toNat = 0 ∨ ∀ tag ∈ tags, tag.isMem = false := by
      rw [limit]
      exact rest.imp_right fun none tag' member => none tag' (List.mem_cons_of_mem _ member)
    have ⟨shrinks', empty', reserved', avail'⟩ := ih (i := i + 1) next
    simp only [limitTags]
    refine ⟨.cons shrinks shrinks', ?_, reserved'.trans reserved, avail'.trans avail⟩
    rw [total_cons, empty, empty']

def DramConfig.limitedSize (c : DramConfig) (before : Nat) (size : Word) : Word :=
  if before + size.toNat ≤ c.maxDramSizeSupport.toNat then size
  else BitVec.ofNat 32 (c.maxDramSizeSupport.toNat - before) - (c.physOffset - c.dramPhysAddrStart)

theorem limitedSize_le {n : Nat} (fits : n + (c.limitedSize n size).toNat ≤ c.maxDramSizeSupport.toNat) :
    (c.limitedSize n size).toNat ≤ size.toNat := by
  by_cases whole : n + size.toNat ≤ c.maxDramSizeSupport.toNat
  · have kept : c.limitedSize n size = size := if_pos whole
    exact Nat.le_of_eq (congrArg BitVec.toNat kept)
  · omega

theorem limitTags_at (i : Nat) (start : Word) {n : Nat}
    (left : s.maxLimitSize.toNat = c.maxDramSizeSupport.toNat - n)
    (below : n < c.maxDramSizeSupport.toNat)
    (last : c.maxDramSizeSupport.toNat ≤ n + size.toNat ∨ ∀ tag ∈ after, tag.isMem = false) :
    ∃ rest s', limitTags c i (.mem size start :: after) s = (.mem (c.limitedSize n size) start :: rest, s') ∧
      List.Forall₂ Shrinks after rest ∧ total rest = 0 ∧ s'.reservedMemBankTag = some i ∧
      s'.availDram = s.availDram + c.limitedSize n size := by
  have opened : 0 < s.maxLimitSize.toNat := by omega
  have limit : s.maxLimitSize = BitVec.ofNat 32 (c.maxDramSizeSupport.toNat - n) := by
    rw [← left, BitVec.ofNat_toNat, BitVec.setWidth_eq]
  simp only [limitTags, limitTag, limitMem_below opened]
  unfold DramConfig.limitedSize
  by_cases fits : n + size.toNat ≤ c.maxDramSizeSupport.toNat
  · have fits' : size.toNat ≤ s.maxLimitSize.toNat := by omega
    rw [if_pos fits, if_pos fits']
    refine ⟨_, _, rfl, limitTags_rest (last.imp_left fun reached => ?_)⟩
    dsimp only
    rw [BitVec.toNat_sub_of_le (BitVec.le_def.mpr fits')]
    omega
  · have exceeds : ¬ size.toNat ≤ s.maxLimitSize.toNat := by omega
    rw [if_neg fits, if_neg exceeds, ← limit]
    exact ⟨_, _, rfl, limitTags_rest (.inl rfl)⟩

variable (gBootMode : Word) (useBlFb : Nat)

theorem limitTags_last (bank : LastBank c tags before size start after) :
    ∃ rest s', limitTags c 0 tags (.start c gBootMode useBlFb) =
        (before ++ .mem (c.limitedSize (total before) size) start :: rest, s') ∧
      List.Forall₂ Shrinks after rest ∧ total rest = 0 ∧ s'.reservedMemBankTag = some before.length ∧
      s'.availDram.toNat = (total before + (c.limitedSize (total before) size).toNat) % 2 ^ 32 := by
  have limit : (Limiting.start c gBootMode useBlFb).maxLimitSize = c.maxDramSizeSupport := BitVec.sub_zero _
  have none : (Limiting.start c gBootMode useBlFb).availDram.toNat = 0 := rfl
  have below := bank.below
  have ⟨same, left, avail⟩ : (limitTags c 0 before (.start c gBootMode useBlFb)).1 = before ∧ _ ∧ _ :=
    limitTags_below (by rw [limit]; exact below) (by omega)
  rw [limit] at left
  have ⟨rest, s', run, shrinks, empty, reserved, avail'⟩ :=
    limitTags_at (0 + before.length) start left below bank.last
  refine ⟨rest, s', ?_, shrinks, empty, by rw [reserved, Nat.zero_add], ?_⟩
  · rw [bank.split, limitTags_append, same, run]
  · rw [avail', BitVec.toNat_add, avail, none, Nat.zero_add]

theorem mtFixup_last (bank : LastBank c tags before size start after) :
    ∃ rest r, mtFixup c gBootMode useBlFb tags = some r ∧ List.Forall₂ Shrinks after rest ∧
      total rest = 0 ∧ r.reservedMemBankTag = before.length ∧
      r.limited = before ++ .mem (c.limitedSize (total before) size) start :: rest ∧
      r.tags = before ++
        .mem (c.limitedSize (total before) size - c.totalReservedMemSize) start :: rest ∧
      r.kernelMemSz.toNat = (total before + (c.limitedSize (total before) size).toNat) % 2 ^ 32 := by
  have ⟨rest, s', run, shrinks, empty, reserved, avail⟩ :=
    limitTags_last gBootMode useBlFb bank
  simp only [mtFixup, run, reserved]
  exact ⟨rest, _, rfl, shrinks, empty, rfl, rfl, modify_at, avail⟩

theorem neverInvents_iff (bank : LastBank c tags before size start after) :
    (∃ r, mtFixup c gBootMode useBlFb tags = some r ∧ NeverInvents c tags r) ↔
      total before + (c.limitedSize (total before) size).toNat ≤ c.maxDramSizeSupport.toNat ∧
        c.totalReservedMemSize.toNat ≤ (c.limitedSize (total before) size).toNat := by
  have ⟨rest, r, run, shrinks, empty, index, limited, left, avail⟩ :=
    mtFixup_last gBootMode useBlFb bank
  have sum : total r.limited = total before + (c.limitedSize (total before) size).toNat := by
    rw [limited, total_append, total_cons, empty]
    rfl
  have limit := c.maxDramSizeSupport.isLt
  constructor
  · intro ⟨r', run', never⟩
    obtain rfl : r = r' := Option.some.inj (run.symm.trans run')
    refine ⟨sum ▸ never.limits, ?_⟩
    obtain ⟨old, new, start', bankBefore, _, carved⟩ := never.carves
    rw [index, limited, List.getElem?_append_right (Nat.le_refl _), Nat.sub_self] at bankBefore
    simp only [List.getElem?_cons_zero, Option.some.injEq, FixupTag.mem.injEq] at bankBefore
    rw [bankBefore.1]
    omega
  · intro ⟨fits, room⟩
    have carved : (c.limitedSize (total before) size - c.totalReservedMemSize).toNat =
        (c.limitedSize (total before) size).toNat - c.totalReservedMemSize.toNat :=
      BitVec.toNat_sub_of_le (BitVec.le_def.mpr room)
    have smaller := limitedSize_le fits
    have kept : List.Forall₂ Shrinks before before := List.forall₂_same.mpr fun _ _ => shrinks_refl
    have bank' : Shrinks (.mem size start)
        (.mem (c.limitedSize (total before) size - c.totalReservedMemSize) start) := by
      refine ⟨_, rfl, ?_⟩
      omega
    refine ⟨r, run, ?_, ?_, ?_, ?_⟩
    · rw [bank.split, left]
      exact List.rel_append kept (.cons bank' shrinks)
    · rw [sum, avail]
      exact (Nat.mod_eq_of_lt (by omega)).symm
    · rw [sum]
      exact fits
    · refine ⟨c.limitedSize (total before) size,
        c.limitedSize (total before) size - c.totalReservedMemSize, start, ?_, ?_, ?_⟩
      · simp [limited, index]
      · simp [left, index]
      · omega

theorem exists_lastBank {n : Nat} (some : ∃ tag ∈ tags, tag.isMem = true)
    (below : n < c.maxDramSizeSupport.toNat) : ∃ before size start after,
      tags = before ++ .mem size start :: after ∧ n + total before < c.maxDramSizeSupport.toNat ∧
      (c.maxDramSizeSupport.toNat ≤ n + total before + size.toNat ∨ ∀ tag ∈ after, tag.isMem = false) := by
  induction tags generalizing n with
  | nil => simp at some
  | cons tag tags ih =>
    by_cases later : (∃ tag ∈ tags, tag.isMem = true) ∧ n + tag.bytes < c.maxDramSizeSupport.toNat
    · have ⟨before, size, start, after, split, below', last⟩ := ih later.1 later.2
      have sum : total (tag :: before) = tag.bytes + total before := total_cons
      refine ⟨tag :: before, size, start, after, by rw [split, List.cons_append], by omega, ?_⟩
      rwa [sum, ← Nat.add_assoc]
    · cases tag with
      | mem size start =>
        refine ⟨[], size, start, tags, rfl, below, ?_⟩
        by_cases others : ∃ tag ∈ tags, tag.isMem = true
        · left
          have reached : ¬ n + size.toNat < c.maxDramSizeSupport.toNat := fun short => later ⟨others, short⟩
          simp only [total]
          omega
        · right
          simpa using others
      | _ =>
        refine absurd ⟨?_, below⟩ later
        simpa [FixupTag.isMem] using some

theorem room_iff {n : Nat} (below : n < c.maxDramSizeSupport.toNat)
    (offset : c.physOffset - c.dramPhysAddrStart ≤ c.maxDramSizeSupport) :
    n + (c.limitedSize n size).toNat ≤ c.maxDramSizeSupport.toNat ∧
        c.totalReservedMemSize.toNat ≤ (c.limitedSize n size).toNat ↔ c.Room n size := by
  unfold DramConfig.limitedSize DramConfig.Room
  by_cases fits : n + size.toNat ≤ c.maxDramSizeSupport.toNat
  · rw [if_pos fits, if_pos fits]
    exact and_iff_right fits
  · rw [if_neg fits, if_neg fits]
    have limit := c.maxDramSizeSupport.isLt
    have small := (c.physOffset - c.dramPhysAddrStart).isLt
    have offset' := BitVec.le_def.mp offset
    generalize c.physOffset - c.dramPhysAddrStart = skipped at offset' small
    rw [BitVec.toNat_sub, BitVec.toNat_ofNat]
    omega

/-- Without a bank that begins below the limit the call ends in `BUG()`. -/
theorem mtFixup_bug (none : c.maxDramSizeSupport.toNat = 0 ∨ ∀ tag ∈ tags, tag.isMem = false) :
    mtFixup c gBootMode useBlFb tags = .none := by
  have limit : (Limiting.start c gBootMode useBlFb).maxLimitSize = c.maxDramSizeSupport := BitVec.sub_zero _
  rw [← limit] at none
  have ⟨_, _, reserved, _⟩ := limitTags_rest (c := c) (i := 0) none
  simp only [mtFixup, reserved]
  rfl

/-- Limiting and reserving memory invents none exactly when there is a bank, and the last one has
room for the frame buffer and, where the limit cuts it, for the offset of the memory too. -/
theorem mtFixup_neverInvents_iff (c : DramConfig) (gBootMode : Word) (useBlFb : Nat)
    (tags : List FixupTag) (offset : c.physOffset - c.dramPhysAddrStart ≤ c.maxDramSizeSupport) :
    (∃ r, mtFixup c gBootMode useBlFb tags = some r ∧ NeverInvents c tags r) ↔
      ∃ before size start after, LastBank c tags before size start after ∧ c.Room (total before) size := by
  constructor
  · intro never
    by_cases some : (∃ tag ∈ tags, tag.isMem = true) ∧ 0 < c.maxDramSizeSupport.toNat
    · have ⟨before, size, start, after, split, below, last⟩ := exists_lastBank some.1 some.2
      rw [Nat.zero_add] at below last
      have bank : LastBank c tags before size start after := ⟨split, below, last⟩
      have fits := (neverInvents_iff gBootMode useBlFb bank).mp never
      exact ⟨before, size, start, after, bank, (room_iff below offset).mp fits⟩
    · have none : c.maxDramSizeSupport.toNat = 0 ∨ ∀ tag ∈ tags, tag.isMem = false := by
        by_cases empty : c.maxDramSizeSupport.toNat = 0
        · exact .inl empty
        · right
          have banks := fun banks => some ⟨banks, Nat.pos_of_ne_zero empty⟩
          simpa using banks
      obtain ⟨r, run, _⟩ := never
      rw [mtFixup_bug gBootMode useBlFb none] at run
      cases run
  · intro ⟨before, size, start, after, bank, room⟩
    exact (neverInvents_iff gBootMode useBlFb bank).mpr ((room_iff bank.below offset).mpr room)

end

/-- 512 MiB from 1 MiB on, of which 4 MiB are reserved. -/
def halfGig : DramConfig := ⟨0x20000000, 0x80100000, 0x80000000, 0x400000⟩

theorem halfGig_neverInvents : halfGig.physOffset - halfGig.dramPhysAddrStart ≤ halfGig.maxDramSizeSupport ∧
    ((∃ r, mtFixup halfGig 0 0 [.mem 0x1ff00000 0x80100000] = some r ∧
        NeverInvents halfGig [.mem 0x1ff00000 0x80100000] r) ↔
      ∃ before size start after, LastBank halfGig [.mem 0x1ff00000 0x80100000] before size start after ∧
        halfGig.Room (total before) size) :=
  ⟨by decide, mtFixup_neverInvents_iff halfGig 0 0 [.mem 0x1ff00000 0x80100000] (by decide)⟩

/-- 511.5 MiB and then 256 MiB: what is left for the second bank is less than the offset, and its size
wraps. -/
theorem second_bank_wraps : (mtFixup halfGig 0 0 [.mem 0x1ff80000 0x80100000, .mem 0x10000000 0xa0080000]).map
      Fixed.limited = some [.mem 0x1ff80000 0x80100000, .mem 0xfff80000 0xa0080000] ∧
    ¬ ∃ r, mtFixup halfGig 0 0 [.mem 0x1ff80000 0x80100000, .mem 0x10000000 0xa0080000] = some r ∧
      NeverInvents halfGig [.mem 0x1ff80000 0x80100000, .mem 0x10000000 0xa0080000] r := by
  refine ⟨by decide, ?_⟩
  intro ⟨r, run, never⟩
  have limited : (mtFixup halfGig 0 0 [.mem 0x1ff80000 0x80100000, .mem 0x10000000 0xa0080000]).map
      (fun r => total r.limited) = some 0x11ff00000 := by decide
  rw [run] at limited
  have sum : total r.limited = 0x11ff00000 := Option.some.inj limited
  have limits := never.limits
  rw [sum] at limits
  exact absurd limits (by decide)

end Yika.Devs
