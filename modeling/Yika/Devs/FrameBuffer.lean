import Yika.Devs.Lines

/-! The frame buffer: the memory that `mt_fixup` takes from a bank for it is the one that
`mt_board_init` registers, and no bank that the kernel is told of has any of it. -/

namespace Yika.Devs
open Program

def FixupTag.Covers : FixupTag → Nat → Prop
  | .mem size start, a => start.toNat ≤ a ∧ a < start.toNat + size.toNat
  | _, _ => False

def BanksApart (tags : List FixupTag) : Prop := tags.Pairwise fun tag tag' => ∀ a, ¬ (tag.Covers a ∧ tag'.Covers a)

section
variable {c : DramConfig} {tags before after rest : List FixupTag} {tag tag' : FixupTag} {size start : Word}
  {gBootMode : Word} {useBlFb a : Nat} {r : Fixed}

theorem Shrinks.covers (shrinks : Shrinks tag tag') (covers : tag'.Covers a) : tag.Covers a := by
  cases tag with
  | mem size start =>
    obtain ⟨size', rfl, smaller⟩ := shrinks
    exact ⟨covers.1, Nat.lt_of_lt_of_le covers.2 (Nat.add_le_add_left smaller _)⟩
  | boot mode =>
    obtain rfl : tag' = .boot mode := shrinks
    exact covers
  | videolfb =>
    obtain rfl : tag' = .videolfb := shrinks
    exact covers
  | other =>
    obtain rfl : tag' = .other := shrinks
    exact covers

theorem mtFixup_pmemStart (call : mtFixup c gBootMode useBlFb tags = some r) :
    r.pmemStart = ((r.limited.getD r.reservedMemBankTag .other).reserve c).endAddress := by
  cases index : (limitTags c 0 tags (.start c gBootMode useBlFb)).2.reservedMemBankTag with
  | none =>
    simp only [mtFixup, index] at call
    cases call
  | some i =>
    simp only [mtFixup, index] at call
    obtain rfl := Option.some.inj call
    rfl

/-- The memory behind the reserved bank was a part of it, and belongs to no bank any more. -/
theorem reserved_apart (bank : LastBank c tags before size start after)
    (offset : c.physOffset - c.dramPhysAddrStart ≤ c.maxDramSizeSupport) (room : c.Room (total before) size)
    (bound : start.toNat + size.toNat ≤ 2 ^ 32) (apart : BanksApart tags) (some : 0 < c.totalReservedMemSize.toNat)
    (call : mtFixup c gBootMode useBlFb tags = .some r) :
    r.pmemStart.toNat + c.totalReservedMemSize.toNat ≤ 2 ^ 32 ∧
    ∀ a, r.pmemStart.toNat ≤ a → a < r.pmemStart.toNat + c.totalReservedMemSize.toNat →
      FixupTag.Covers (.mem size start) a ∧ ∀ tag ∈ r.tags, ¬ tag.Covers a := by
  obtain ⟨fits, enough⟩ := (room_iff bank.below offset).mpr room
  obtain ⟨rest, r', call', shrinks, -, index, limited, left, -⟩ := mtFixup_last gBootMode useBlFb bank
  obtain rfl : r = r' := Option.some.inj (call.symm.trans call')
  have smaller := limitedSize_le fits
  have kept : (c.limitedSize (total before) size - c.totalReservedMemSize).toNat =
      (c.limitedSize (total before) size).toNat - c.totalReservedMemSize.toNat :=
    BitVec.toNat_sub_of_le (BitVec.le_def.mpr enough)
  have pmem : r.pmemStart = start + (c.limitedSize (total before) size - c.totalReservedMemSize) := by
    have last : (before ++ .mem (c.limitedSize (total before) size) start :: rest).getD before.length .other =
        .mem (c.limitedSize (total before) size) start := getD_length_append
    rw [mtFixup_pmemStart call, limited, index, last]
    rfl
  have address : r.pmemStart.toNat =
      start.toNat + ((c.limitedSize (total before) size).toNat - c.totalReservedMemSize.toNat) := by
    rw [pmem, BitVec.toNat_add, kept]
    exact Nat.mod_eq_of_lt (by omega)
  refine ⟨by omega, ?_⟩
  intro a low high
  have inside : FixupTag.Covers (.mem size start) a := by
    constructor
    · omega
    · omega
  refine ⟨inside, ?_⟩
  rw [BanksApart, bank.split, List.pairwise_append, List.pairwise_cons] at apart
  obtain ⟨-, ⟨behind, -⟩, front⟩ := apart
  intro tag member covers
  rw [left] at member
  rcases List.mem_append.mp member with early | others
  · exact front tag early _ List.mem_cons_self a ⟨covers, inside⟩
  · rcases List.mem_cons.mp others with rfl | late
    · have cut := covers.2
      rw [kept] at cut
      omega
    · obtain ⟨old, member', shrunk⟩ := forall₂_mem shrinks late
      exact behind old member' a ⟨inside, shrunk.covers covers⟩

end

/-! The frame buffer of the board. -/

namespace Boot

/-- What `mt_board_init` makes of the frame buffer: the argument of `mtkfb_set_lcm_inited`, and
`resource_fb[0]` from its first address to its last one. -/
structure Fb where
  lcmInited : Bool
  first : Word
  last : Word

/-- `FB_START`, behind the 0 bytes of `PMEM_MM_SIZE`. -/
def fbStart (g : Globals) : Word := g.pmemStart + 0

/-- `FB_SIZE` -/
def fbSize (x : Externals) (g : Globals) : Word := x.dispGetVRamSizeBoot g.tempCommandLine

/-- The part of `mt_board_init` under `CONFIG_MTK_FB`. -/
def mtBoardInitFb (x : Externals) (g : Globals) : Fb where
  lcmInited :=
    if g.blFbBase = fbStart g ∧ g.blFbSize = fbSize x g ∨ g.useBlFb = 2 then true
    else if g.blFbBase = 0 ∧ g.blFbSize = 0 then false
    else true
  first := fbStart g
  last := fbStart g + fbSize x g - 1

section
variable {x : Externals} {c : Config} {w : State} {before post : List Byte} {tags tags' : List Atag} {g : Globals}
  {t : Atag} {ids : TagIds}

theorem mem_withoutCmdline (member : t ∈ withoutCmdline ids tags) : t ∈ tags := by
  rw [withoutCmdline] at member
  cases found : lastCmdline ids tags with
  | none =>
    rw [found] at member
    exact member
  | some l =>
    rw [found] at member
    rw [(lastCmdline_split found).1]
    rcases List.mem_append.mp member with early | late
    · exact List.mem_append_left _ early
    · exact List.mem_append_right _ (List.mem_cons_of_mem _ late)

theorem mem_leftTags {panicked : Bool} (member : t ∈ leftTags ids panicked tags) : t ∈ tags := by
  unfold leftTags at member
  split at member
  next => exact member
  next => exact mem_withoutCmdline member

theorem toNat_last {first size : Word} (ends : first.toNat + size.toNat ≤ 2 ^ 32) (some : 0 < size.toNat) :
    (first + size - 1).toNat + 1 = first.toNat + size.toNat := by
  bv_omega

/-- The boot loader counts as the one that has initialised the frame buffer unless it has named none,
and `use_bl_fb` has not come to 2. -/
theorem lcmInited_eq_false (some : 0 < (fbSize x g).toNat) :
    (mtBoardInitFb x g).lcmInited = false ↔ g.blFbBase = 0 ∧ g.blFbSize = 0 ∧ g.useBlFb ≠ 2 := by
  have size : g.blFbSize = 0 → g.blFbSize ≠ fbSize x g := by
    intro none same
    rw [← same, none] at some
    exact absurd some (Nat.lt_irrefl 0)
  dsimp only [mtBoardInitFb]
  split
  next matched =>
    refine iff_of_false Bool.noConfusion ?_
    intro unnamed
    rcases matched with same | twice
    · exact size unnamed.2.1 same.2
    · exact unnamed.2.2 twice
  next differs =>
    split
    next unnamed => exact iff_of_true rfl ⟨unnamed.1, unnamed.2, fun twice => differs (.inr twice)⟩
    next named => exact iff_of_false Bool.noConfusion fun unnamed => named ⟨unnamed.1, unnamed.2.1⟩

/-- The kernel is told of all banks but of the memory of the frame buffer. -/
structure FbApart (c : Config) (before post : List Byte) (last : FixupTag) (fb : Fb) (size : Word) (w' : State) :
    Prop where
  lcm : fb.lcmInited = false ↔ w'.globals.blFbBase = 0 ∧ w'.globals.blFbSize = 0 ∧ w'.globals.useBlFb ≠ 2
  length : fb.last.toNat + 1 = fb.first.toNat + size.toNat
  inside : ∀ a, fb.first.toNat ≤ a → a ≤ fb.last.toNat → last.Covers a
  tags : ∃ left stale, w'.mem = before ++ (tagList left ++ (stale ++ post)) ∧
    ∀ t ∈ left, ∀ a, fb.first.toNat ≤ a → a ≤ fb.last.toNat → ¬ (t.view c.ids).Covers a

/-- The memory that `mt_board_init` registers for the frame buffer lies in the bank that the limit ends
in, or in the last one, it is as long as `FB_SIZE` says, and no bank in the tags that `mt_fixup` leaves
has any of it. -/
theorem mtBoardInitFb_apart (x : Externals) (booted : Booted c before post tags w) (fb : c.mtkFb = true)
    {front back : List FixupTag} {size start : Word}
    (bank : LastBank (c.dram (x.dispGetVRamSizeBoot (firstLine c tags w.globals.tempCommandLine)))
      (tags.map (Atag.view c.ids)) front size start back)
    (offset : c.physOffset - c.dramPhysAddrStart ≤ c.maxDramSizeSupport)
    (room : (c.dram (x.dispGetVRamSizeBoot (firstLine c tags w.globals.tempCommandLine))).Room (total front) size)
    (bound : start.toNat + size.toNat ≤ 2 ^ 32) (apart : BanksApart (tags.map (Atag.view c.ids)))
    (some : 0 < (x.dispGetVRamSizeBoot (firstLine c tags w.globals.tempCommandLine)).toNat) :
    Achieves (env x) (mtFixup c before.length) (fun _ w' =>
      FbApart c before post (.mem size start) (mtBoardInitFb x w'.globals)
        (x.dispGetVRamSizeBoot (firstLine c tags w.globals.tempCommandLine)) w') w := by
  have amount : reserved c x (firstLine c tags w.globals.tempCommandLine) =
      x.dispGetVRamSizeBoot (firstLine c tags w.globals.tempCommandLine) := if_pos fb
  refine (achieves_mtFixup booted).mono ?_
  rintro _ w' ⟨tags₁, passed, plain, outcome⟩
  rw [amount] at outcome
  obtain ⟨-, r, call, -⟩ := mtFixup_last w.globals.gBootMode w.globals.useBlFb bank
  rw [call] at outcome
  obtain ⟨tags', finished⟩ := outcome
  have handed := finished.handedOver passed
  have lines := finished.lines booted.calm passed plain
  obtain ⟨fixed, stale, -, views, mem, -⟩ := handed.mem
  obtain ⟨ends, cut⟩ := reserved_apart bank offset room bound apart some call
  have first : (mtBoardInitFb x w'.globals).first = r.pmemStart := (BitVec.add_zero _).trans handed.pmemStart
  have size' : fbSize x w'.globals = x.dispGetVRamSizeBoot (firstLine c tags w.globals.tempCommandLine) := by
    rw [fbSize, lines.temp]
  generalize x.dispGetVRamSizeBoot (firstLine c tags w.globals.tempCommandLine) = vram at *
  have last : (mtBoardInitFb x w'.globals).last = r.pmemStart + vram - 1 := by
    rw [← first, ← size']
    rfl
  have length : (mtBoardInitFb x w'.globals).last.toNat + 1 =
      (mtBoardInitFb x w'.globals).first.toNat + vram.toNat := by
    rw [last, first]
    exact toNat_last ends some
  have views' : ∀ t ∈ leftTags c.ids w'.globals.panicked fixed, t.view c.ids ∈ r.tags := by
    intro t member
    rw [← views]
    exact List.mem_map_of_mem (mem_leftTags member)
  have registered : ∀ a, (mtBoardInitFb x w'.globals).first.toNat ≤ a → a ≤ (mtBoardInitFb x w'.globals).last.toNat →
      FixupTag.Covers (.mem size start) a ∧ ∀ tag ∈ r.tags, ¬ tag.Covers a := by
    intro a low high
    have below := Nat.lt_succ_of_le high
    rw [Nat.succ_eq_add_one, length] at below
    rw [first] at low below
    exact cut a low below
  exact {
    lcm := lcmInited_eq_false (size' ▸ some)
    length := length
    inside := fun a low high => (registered a low high).1
    tags := ⟨leftTags c.ids w'.globals.panicked fixed, stale, mem, fun t member a low high =>
      (registered a low high).2 _ (views' t member)⟩ }

end

/-- With a frame buffer of 4 MiB. -/
def fbConfig : Config := { plainConfig with mtkFb := true }

def fbExternals : Externals := ⟨fun _ cmdline => cmdline, fun _ => 0x400000⟩

theorem bankAndLine_fbBooted : Booted fbConfig [] [0x41] bankAndLine bootedState :=
  { bankAndLine_booted with
    sound := fun t member => ⟨(bankAndLine_booted.sound t member).mem, (bankAndLine_booted.sound t member).cmdline,
      (bankAndLine_booted.sound t member).boot, (bankAndLine_booted.sound t member).videolfb,
      (bankAndLine_booted.sound t member).devinfoData, (bankAndLine_booted.sound t member).metaCom⟩
    short := by decide }

theorem bankAndLine_apart : Booted fbConfig [] [0x41] bankAndLine bootedState ∧
    Achieves (env fbExternals) (mtFixup fbConfig 0) (fun _ w' =>
      FbApart fbConfig [] [0x41] (.mem 0x1ff00000 0x80100000) (mtBoardInitFb fbExternals w'.globals) 0x400000 w')
      bootedState := by
  have bank : LastBank (fbConfig.dram 0x400000) (bankAndLine.map (Atag.view fbConfig.ids)) [] 0x1ff00000 0x80100000
      [.other] := {
    split := by decide
    below := by decide
    last := .inr (by decide) }
  have apart : BanksApart (bankAndLine.map (Atag.view fbConfig.ids)) := by
    rw [bank.split]
    refine List.pairwise_cons.mpr ⟨?_, List.pairwise_singleton _ _⟩
    intro tag member a both
    obtain rfl := List.mem_singleton.mp member
    exact both.2
  have room : (fbConfig.dram 0x400000).Room (total []) 0x1ff00000 := by
    unfold DramConfig.Room
    decide
  exact ⟨bankAndLine_fbBooted,
    mtBoardInitFb_apart fbExternals bankAndLine_fbBooted rfl bank (by decide) room (by decide) apart (by decide)⟩

end Boot

end Yika.Devs
