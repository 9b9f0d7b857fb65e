import Yika.Devs.Cmdline
import Yika.Devs.Fixup
import Yika.Program.Region

/-! The tags that the boot loader leaves in memory: each one is a header, which is its size in words
and its kind, and a payload, and an `ATAG_NONE` ends the list. -/

namespace Yika.Devs
open Program

/-- The values of the `ATAG_` constants; `ATAG_NONE` is 0. -/
structure TagIds where
  mem : Word
  cmdline : Word
  boot : Word
  videolfb : Word
  devinfoData : Word
  metaCom : Word
  dfoData : Word
  distinct : [0, mem, cmdline, boot, videolfb, devinfoData, metaCom, dfoData].Nodup

theorem TagIds.mem_ne_cmdline (ids : TagIds) : ids.mem ≠ ids.cmdline := by
  have distinct := ids.distinct
  simp only [List.nodup_cons, List.mem_cons, not_or] at distinct
  exact distinct.2.1.1

/-- A `struct tag`: `hdr.tag`, and the words behind the header, which `hdr.size` can count. -/
structure Atag where
  tag : Word
  payload : List Byte
  whole : 4 ∣ payload.length
  short : 8 + payload.length < 2 ^ 34

/-- `hdr.size` -/
def Atag.size (t : Atag) : Word := BitVec.ofNat 32 ((8 + t.payload.length) / 4)

def Atag.word (t : Atag) (i : Nat) : Word := loadWord t.payload i

def Atag.bytes (t : Atag) : List Byte := wordBytes t.size ++ (wordBytes t.tag ++ t.payload)

def atagNone : List Byte := wordBytes 0 ++ wordBytes 0

def tagBytes (tags : List Atag) : List Byte := tags.flatMap Atag.bytes

def tagList (tags : List Atag) : List Byte := tagBytes tags ++ atagNone

def Atag.replace (t : Atag) (payload : List Byte) (same : payload.length = t.payload.length) : Atag where
  tag := t.tag
  payload := payload
  whole := same ▸ t.whole
  short := same ▸ t.short

def Atag.resize (t : Atag) (size : Word) : Atag := t.replace (storeWord t.payload 0 size) length_storeWord

/-- What `mt_fixup` needs of a tag for the banks. -/
def Atag.view (ids : TagIds) (t : Atag) : FixupTag :=
  if t.tag = ids.mem then .mem (t.word 0) (t.word 4)
  else if t.tag = ids.cmdline then .other
  else if t.tag = ids.boot then .boot (t.word 0)
  else if t.tag = ids.videolfb then .videolfb
  else .other

/-- The last `ATAG_CMDLINE`, what is in front of it and what is behind it. -/
def lastCmdline (ids : TagIds) : List Atag → Option (List Atag × Atag × List Atag)
  | [] => none
  | t :: ts =>
    match lastCmdline ids ts with
    | some (before, last, after) => some (t :: before, last, after)
    | none => if t.tag = ids.cmdline then some ([], t, ts) else none

def withoutCmdline (ids : TagIds) (tags : List Atag) : List Atag :=
  match lastCmdline ids tags with
  | some (before, _, after) => before ++ after
  | none => tags

/-- What may become of a tag: a bank may get another size, and separators in a command line may be
overwritten by others. -/
structure Rewritten (ids : TagIds) (t t' : Atag) : Prop where
  tag : t'.tag = t.tag
  length : t'.payload.length = t.payload.length
  mem : t.tag = ids.mem → t'.payload.drop 4 = t.payload.drop 4
  cmdline : t.tag = ids.cmdline → List.Forall₂ (Alike isSeparator) t.payload t'.payload
  other : t.tag ≠ ids.mem → t.tag ≠ ids.cmdline → t' = t

section
variable {ids : TagIds} {t t' : Atag} {before after : List Byte} {ts ts' : List Atag} {i : Nat} {size : Word}

@[simp] theorem length_atagNone : atagNone.length = 8 := rfl

@[simp] theorem Atag.length_bytes : t.bytes.length = 8 + t.payload.length := by
  simp only [bytes, List.length_append, length_wordBytes]
  omega

theorem Atag.four_size : 4 * t.size.toNat = 8 + t.payload.length := by
  have short := t.short
  have ⟨words, whole⟩ := t.whole
  rw [size, BitVec.toNat_ofNat, whole]
  omega

theorem tagBytes_cons : tagBytes (t :: ts) = t.bytes ++ tagBytes ts := List.flatMap_cons

theorem tagBytes_append : tagBytes (ts ++ ts') = tagBytes ts ++ tagBytes ts' := List.flatMap_append

theorem lastCmdline_cons : lastCmdline ids (t :: ts) =
    ((lastCmdline ids ts).map fun l => (t :: l.1, l.2)).or
      (if t.tag = ids.cmdline then some ([], t, ts) else none) := by
  rw [lastCmdline]
  cases lastCmdline ids ts with
  | none => rfl
  | some l => rfl

/-! A tag in memory. -/

theorem load_size : loadWord (before ++ (t.bytes ++ after)) before.length = t.size := by
  have here := loadWord_append before (t.bytes ++ after) 0
  rw [Nat.add_zero, Atag.bytes, List.append_assoc, loadWord_wordBytes] at here
  exact here

theorem load_tag : loadWord (before ++ (t.bytes ++ after)) (before.length + 4) = t.tag := by
  have here := loadWord_append (wordBytes t.size) (wordBytes t.tag ++ (t.payload ++ after)) 0
  rw [loadWord_append, Atag.bytes, List.append_assoc, List.append_assoc]
  rw [loadWord_wordBytes] at here
  exact here

theorem bytes_append : t.bytes ++ after = wordBytes t.size ++ wordBytes t.tag ++ (t.payload ++ after) := by
  simp only [Atag.bytes, List.append_assoc]

theorem load_word (bound : i + 4 ≤ t.payload.length) :
    loadWord (before ++ (t.bytes ++ after)) (before.length + (8 + i)) = t.word i := by
  have here := loadWord_append (wordBytes t.size ++ wordBytes t.tag) (t.payload ++ after) i
  rw [loadWord_append, bytes_append, Atag.word, ← loadWord_left bound]
  exact here

theorem store_resize (bound : 4 ≤ t.payload.length) :
    storeWord (before ++ (t.bytes ++ after)) (before.length + 8) size = before ++ ((t.resize size).bytes ++ after) := by
  have here := storeWord_append (wordBytes t.size ++ wordBytes t.tag) (t.payload ++ after) 0 size
  have kept : (t.resize size).size = t.size := by
    simp only [Atag.size, Atag.resize, Atag.replace, length_storeWord]
  have payload : (t.resize size).payload ++ after = storeWord (t.payload ++ after) 0 size :=
    (storeWord_left (i := 0) bound).symm
  rw [storeWord_append, bytes_append, bytes_append, kept, payload]
  exact congrArg (before ++ ·) here

theorem load_none : loadWord (before ++ (atagNone ++ after)) before.length = 0 ∧
    loadWord (before ++ (atagNone ++ after)) (before.length + 4) = 0 := by
  have size := loadWord_append before (atagNone ++ after) 0
  have tag := loadWord_append (wordBytes 0) (wordBytes 0 ++ after) 0
  rw [loadWord_wordBytes] at tag
  exact ⟨size.trans loadWord_wordBytes, (loadWord_append _ _ _).trans tag⟩

end

end Yika.Devs
