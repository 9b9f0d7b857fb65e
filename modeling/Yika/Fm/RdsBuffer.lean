import Mathlib.Logic.Function.Basic
import Mathlib.Tactic.IntervalCases
import Yika.Fm.Ioctl

/-! RDS data from Java to the chip and back: the JNI function, the HAL function, the ioctl and
`QND_RDSLoadData`, in one memory. The three upper layers pass an array of `int`, and the
driver takes its address for that of an array of bytes. -/

namespace Yika.Fm
open Program

/-- Byte `k` of an `int` in memory. -/
def intByte (x : INT) (k : Nat) : UINT8 := (x >>> (8 * k)).setWidth 8

/-- The chip, the transactions that wrote a register, the memory of the process and the Java
array. -/
structure Phone where
  regs : UINT8 → UINT8
  written : List (UINT8 × UINT8)
  mem : INT → UINT8
  rdsData : List INT

def Phone.elementByte (k : Phone) (start offset : Nat) : UINT8 :=
  intByte (k.rdsData.getD (start + offset / 4) 0) (offset % 4)

/-- `GetIntArrayRegion(rdsData, start, len, buf)`; it copies nothing from outside the array. -/
def Phone.getIntArrayRegion (k : Phone) (start len buf : INT) : Phone :=
  if 0 ≤ start.toInt ∧ 0 ≤ len.toInt ∧ start.toInt + len.toInt ≤ k.rdsData.length then
    { k with mem := fun address => if (address - buf).toNat < 4 * len.toNat
        then k.elementByte start.toNat (address - buf).toNat else k.mem address }
  else k

/-- The board of a phone, with registers that are memory and user copies that succeed. -/
def phone : Board Phone where
  respond
    | .readReg adr, k => (k.regs adr, k)
    | .writeReg adr value, k => ((), { k with
        regs := Function.update k.regs adr value, written := k.written ++ [(adr, value)] })
    | .peek address, k => (k.mem address, k)
    | .poke address value, k => ((), { k with mem := Function.update k.mem address value })
    | .getIntArrayRegion start len buf, k => ((), k.getIntArrayRegion start len buf)
    | .copyFromUser, k => (true, k)
    | .copyToUser, k => (true, k)
    | .callBack _ _, k => ((), k)
    | .gpioMode _ _, k => ((), k)
    | .gpioDir _ _, k => ((), k)
    | .gpioOut _ _, k => ((), k)
    | .hwPower _, k => ((), k)
  beyond _ := 0

/-- `qn8006_RDSLoadData` of the HAL: the address of the data goes into the ioctl's struct. -/
def qn8006RDSLoadData (stackPower rawData len isUpload : INT) : Drv INT := do
  let _ ← qn8006UnlockedIoctl stackPower (.rdsloaddata ⟨rawData, len, isUpload⟩)
  pure 0

/-- `com_android_server_qn8006_RDSLoadData` of the JNI library, with its `int tmpArray[8]` at
an address of the stack. `qn8006Device` says whether the device has been opened. -/
def comAndroidServerQn8006RDSLoadData (qn8006Device : Bool) (stackPower tmpArray len isUpload : INT) :
    Drv Unit := do
  act (.getIntArrayRegion 0 len tmpArray)
  Prog.when (qn8006Device = true) do
    let _ ← qn8006RDSLoadData stackPower tmpArray len isUpload
    pure ()

/-- Every register of the RDS buffer is written with the caller's value, and nothing else is
written anywhere. -/
def Delivered (rdsData : List INT) (written : List (UINT8 × UINT8)) : Prop :=
  (∀ i < 8, ∃ value : UINT8, (RDSD0 + BitVec.ofNat 8 i, value) ∈ written ∧
    value.setWidth 32 = rdsData.getD i 0) ∧
  ∀ entry ∈ written, ∃ i < 8, entry.1 = RDSD0 + BitVec.ofNat 8 i ∧
    entry.2.setWidth 32 = rdsData.getD i 0

def MatchesChip (k : Phone) : Prop :=
  ∀ i < 8, k.rdsData.getD i 0 = (k.regs (RDSD0 + BitVec.ofNat 8 i)).setWidth 32

/-! The driver, at a pointer to bytes. -/

section
variable {w : Machine Phone}

/-- An upload writes the eight bytes at the pointer, in order, and nothing else. -/
theorem phone_upload (buf : INT) {upload : UINT8} (up : upload ≠ 0) :
    Achieves phone.env (qndRDSLoadData buf upload) (fun _ w' => w'.world.written =
      w.world.written ++ (List.range 8).map fun i =>
        (RDSD0 + BitVec.ofNat 8 i, w.world.mem (buf + BitVec.ofNat 32 i))) w := by
  let inv (n : Nat) (w₁ : Machine Phone) : Prop := w₁.world.mem = w.world.mem ∧
    w₁.world.written = w.world.written ++ (List.range n).map fun i =>
      (RDSD0 + BitVec.ofNat 8 i, w.world.mem (buf + BitVec.ofNat 32 i))
  have start : inv 0 w := ⟨rfl, by simp⟩
  rw [qndRDSLoadData, if_pos up]
  refine (achieves_forRange inv ?_ start).mono fun _ w' done => done.2
  intro i w₁ _ _ holds
  obtain ⟨same, log⟩ := holds
  rw [achieves_bind, achieves_peek, achieves_writeReg]
  refine ⟨same, ?_⟩
  change w₁.world.written ++ [(RDSD0 + BitVec.ofNat 8 i, w₁.world.mem (buf + BitVec.ofNat 32 i))] = _
  rw [log, same, List.range_succ, List.map_append, List.append_assoc]
  rfl

theorem offset_injective {buf : INT} {i j : Nat} (low : i < 8) (low' : j < 8)
    (same : buf + BitVec.ofNat 32 i = buf + BitVec.ofNat 32 j) : i = j := by
  have offsets := congrArg BitVec.toNat (BitVec.add_right_inj buf |>.mp same)
  rw [BitVec.toNat_ofNat, BitVec.toNat_ofNat] at offsets
  omega

/-- A download stores the registers in the eight bytes at the pointer, and leaves the chip and
the Java array alone. -/
theorem phone_download (buf : INT) :
    Achieves phone.env (qndRDSLoadData buf 0) (fun _ w' => w'.world.regs = w.world.regs ∧
      w'.world.rdsData = w.world.rdsData ∧
      ∀ i < 8, w'.world.mem (buf + BitVec.ofNat 32 i) = w.world.regs (RDSD0 + BitVec.ofNat 8 i)) w := by
  let inv (n : Nat) (w₁ : Machine Phone) : Prop := w₁.world.regs = w.world.regs ∧
    w₁.world.rdsData = w.world.rdsData ∧
    ∀ i < n, w₁.world.mem (buf + BitVec.ofNat 32 i) = w.world.regs (RDSD0 + BitVec.ofNat 8 i)
  have start : inv 0 w := ⟨rfl, rfl, fun i none => absurd none (Nat.not_lt_zero i)⟩
  rw [qndRDSLoadData, if_neg (by simp)]
  refine achieves_forRange inv ?_ start
  intro n w₁ _ bound holds
  obtain ⟨regs, java, stored⟩ := holds
  rw [achieves_bind, achieves_readReg, achieves_act]
  refine ⟨regs, java, fun i below => ?_⟩
  change Function.update w₁.world.mem (buf + BitVec.ofNat 32 n)
    (w₁.world.regs (RDSD0 + BitVec.ofNat 8 n)) (buf + BitVec.ofNat 32 i) = _
  by_cases last : i = n
  · rw [last, Function.update_self, regs]
  · have other : buf + BitVec.ofNat 32 i ≠ buf + BitVec.ofNat 32 n :=
      fun same => last (offset_injective (by omega) (by omega) same)
    rw [Function.update_of_ne other]
    exact stored i (by omega)

/-! The path from Java. -/

theorem register_injective {i j : Nat} (low : i < 8) (low' : j < 8)
    (same : RDSD0 + BitVec.ofNat 8 i = RDSD0 + BitVec.ofNat 8 j) : i = j := by
  have offsets := congrArg BitVec.toNat ((BitVec.add_right_inj RDSD0).mp same)
  rw [BitVec.toNat_ofNat, BitVec.toNat_ofNat] at offsets
  omega

theorem delivered_map_iff {rdsData : List INT} {value : Nat → UINT8} :
    Delivered rdsData ((List.range 8).map fun i => (RDSD0 + BitVec.ofNat 8 i, value i)) ↔
      ∀ i < 8, (value i).setWidth 32 = rdsData.getD i 0 := by
  constructor
  · intro delivered i low
    obtain ⟨stored, member, right⟩ := delivered.1 i low
    obtain ⟨j, inside, same⟩ := List.mem_map.mp member
    obtain ⟨reg, rfl⟩ := Prod.mk.inj same
    rwa [← register_injective (List.mem_range.mp inside) low reg] at right ⊢
  · intro right
    constructor
    · intro i low
      exact ⟨value i, List.mem_map.mpr ⟨i, List.mem_range.mpr low, rfl⟩, right i low⟩
    · intro entry member
      obtain ⟨i, inside, rfl⟩ := List.mem_map.mp member
      exact ⟨i, List.mem_range.mp inside, rfl, right i (List.mem_range.mp inside)⟩

theorem jni_call (stackPower tmpArray len isUpload : INT) {post : Unit → Machine Phone → Prop} :
    Achieves phone.env
      (comAndroidServerQn8006RDSLoadData true stackPower tmpArray len isUpload) post w ↔
      Achieves phone.env (qndRDSLoadData tmpArray (uchar isUpload)) (fun _ => post ())
        ⟨w.globals, w.world.getIntArrayRegion 0 len tmpArray⟩ := by
  have copies (k : Phone) : (phone.respond .copyFromUser k).1 = true := rfl
  simp only [comAndroidServerQn8006RDSLoadData, qn8006RDSLoadData, qn8006UnlockedIoctl, fromUser,
    achieves_bind, achieves_act, achieves_when, achieves_copyFromUser, copies, if_true, true_implies,
    not_true_eq_false, false_implies, and_true, achieves_pure]
  rfl

theorem element_small {rdsData : List INT} (small : ∀ x ∈ rdsData, x.toNat ≤ 255) (i : Nat) :
    (rdsData.getD i 0).toNat ≤ 255 := by
  rw [List.getD_eq_getElem?_getD]
  cases element : rdsData[i]? with
  | none => simp
  | some x => exact small x (List.mem_of_getElem? element)

/-- In the JNI function's buffer, only the first byte of an element that fits a byte is set. -/
theorem elementByte_small {k : Phone} (small : ∀ x ∈ k.rdsData, x.toNat ≤ 255) (offset : Nat) :
    k.elementByte 0 offset = if offset % 4 = 0 then uchar (k.rdsData.getD (offset / 4) 0) else 0 := by
  have fits := element_small small (offset / 4)
  rw [Phone.elementByte, Nat.zero_add, intByte]
  by_cases first : offset % 4 = 0
  · rw [if_pos first, first, Nat.mul_zero, BitVec.ushiftRight_zero, uchar]
  · rw [if_neg first]
    apply BitVec.eq_of_toNat_eq
    have shift : 8 ≤ 8 * (offset % 4) := by omega
    have power : 2 ^ 8 ≤ 2 ^ (8 * (offset % 4)) := Nat.pow_le_pow_right (by decide) shift
    rw [BitVec.toNat_setWidth, BitVec.toNat_ushiftRight, Nat.shiftRight_eq_div_pow,
      Nat.div_eq_of_lt (by omega)]
    rfl

theorem getIntArrayRegion_mem {k : Phone} (long : 8 ≤ k.rdsData.length) (buf : INT) {i : Nat}
    (low : i < 8) : (k.getIntArrayRegion 0 8 buf).mem (buf + BitVec.ofNat 32 i) = k.elementByte 0 i := by
  have inside : 0 ≤ (0 : INT).toInt ∧ 0 ≤ (8 : INT).toInt ∧
      (0 : INT).toInt + (8 : INT).toInt ≤ k.rdsData.length := ⟨by decide, by decide, by simpa using by omega⟩
  have offset : (buf + BitVec.ofNat 32 i - buf).toNat = i := by
    rw [BitVec.add_comm, BitVec.add_sub_cancel, BitVec.toNat_ofNat]
    omega
  have within : i < 4 * (8 : INT).toNat := Nat.lt_trans low (by decide)
  rw [Phone.getIntArrayRegion, if_pos inside]
  simp only [offset, if_pos within]
  rfl

theorem rdsUpload_written (stackPower tmpArray : INT) (long : 8 ≤ w.world.rdsData.length) :
    Achieves phone.env (comAndroidServerQn8006RDSLoadData true stackPower tmpArray 8 1)
      (fun _ w' => w'.world.written = w.world.written ++ (List.range 8).map fun i =>
        (RDSD0 + BitVec.ofNat 8 i, w.world.elementByte 0 i)) w := by
  rw [jni_call]
  apply (phone_upload tmpArray (by decide)).mono
  intro _ w' log
  have before : (w.world.getIntArrayRegion 0 8 tmpArray).written = w.world.written := by
    unfold Phone.getIntArrayRegion
    split
    next => rfl
    next => rfl
  rw [log]
  change (w.world.getIntArrayRegion 0 8 tmpArray).written ++ _ = _
  rw [before]
  congr 1
  apply List.map_congr_left
  intro i member
  rw [getIntArrayRegion_mem long tmpArray (List.mem_range.mp member)]

/-- An upload from Java delivers the caller's data exactly when all of it but the first
element is zero: the driver reads the bytes of the first two `int`s. -/
theorem rdsUpload_delivers_iff (stackPower tmpArray : INT) (long : 8 ≤ w.world.rdsData.length)
    (small : ∀ x ∈ w.world.rdsData, x.toNat ≤ 255) :
    Achieves phone.env (comAndroidServerQn8006RDSLoadData true stackPower tmpArray 8 1)
      (fun _ w' => ∃ written, w'.world.written = w.world.written ++ written ∧
        (Delivered w.world.rdsData written ↔
          ∀ i, 1 ≤ i → i < 8 → w.world.rdsData.getD i 0 = 0)) w := by
  refine (rdsUpload_written stackPower tmpArray long).mono fun _ w' log => ⟨_, log, ?_⟩
  rw [delivered_map_iff]
  simp only [elementByte_small small]
  constructor
  · intro right i low high
    -- the bytes at 1, 2 and 3 are those of the first element, and the byte at 4 is the second
    have upper : ∀ i < 8, i % 4 ≠ 0 → w.world.rdsData.getD i 0 = 0 := by
      intro i high odd
      rw [← right i high, if_neg odd]
      rfl
    by_cases first : i % 4 = 0
    · obtain rfl : i = 4 := by omega
      rw [← right 4 (by decide), if_pos first, upper 1 (by decide) (by decide)]
      rfl
    · exact upper i high first
  · intro zero i high
    by_cases start : i = 0
    · subst start
      have byte := element_small small 0
      apply BitVec.eq_of_toNat_eq
      rw [if_pos rfl, Nat.zero_div, uchar, BitVec.toNat_setWidth, BitVec.toNat_setWidth]
      omega
    · rw [zero i (by omega) high]
      by_cases first : i % 4 = 0
      · obtain rfl : i = 4 := by omega
        rw [if_pos first, zero 1 (by decide) (by decide)]
        rfl
      · rw [if_neg first]
        rfl

/-- A download to Java leaves the registers in the buffer of the JNI function. -/
theorem rdsDownload_lands (stackPower tmpArray len : INT) :
    Achieves phone.env (comAndroidServerQn8006RDSLoadData true stackPower tmpArray len 0)
      (fun _ w' => w'.world.regs = w.world.regs ∧ w'.world.rdsData = w.world.rdsData ∧
        ∀ i < 8, w'.world.mem (tmpArray + BitVec.ofNat 32 i) =
          w.world.regs (RDSD0 + BitVec.ofNat 8 i)) w := by
  have copied : (w.world.getIntArrayRegion 0 len tmpArray).regs = w.world.regs ∧
      (w.world.getIntArrayRegion 0 len tmpArray).rdsData = w.world.rdsData := by
    unfold Phone.getIntArrayRegion
    split
    next => exact ⟨rfl, rfl⟩
    next => exact ⟨rfl, rfl⟩
  obtain ⟨regs, java⟩ := copied
  rw [jni_call]
  apply (phone_download tmpArray).mono
  intro _ w' done
  simpa only [regs, java] using done

/-- It ends with the array holding the registers exactly when it held them before, as the
buffer is not copied back. -/
theorem rdsDownload_matches_iff (stackPower tmpArray len : INT) :
    Achieves phone.env (comAndroidServerQn8006RDSLoadData true stackPower tmpArray len 0)
      (fun _ w' => w'.world.regs = w.world.regs ∧
        (MatchesChip w'.world ↔ MatchesChip w.world)) w := by
  apply (rdsDownload_lands stackPower tmpArray len).mono
  intro _ w' done
  obtain ⟨regs, java, _⟩ := done
  refine ⟨regs, ?_⟩
  rw [MatchesChip, MatchesChip, regs, java]

end

def handset (rdsData : List INT) (regs : UINT8 → UINT8) : Machine Phone :=
  ⟨Globals.initial, ⟨regs, [], fun _ => 0, rdsData⟩⟩

/-- An array with a single element that is not zero goes through. -/
theorem upload_single : ∃ w', Runs phone.env (comAndroidServerQn8006RDSLoadData true 0 0x1000 8 1)
    (handset [7, 0, 0, 0, 0, 0, 0, 0] fun _ => 0) () w' ∧
    Delivered [7, 0, 0, 0, 0, 0, 0, 0] w'.world.written := by
  have single : ∀ i, 1 ≤ i → i < 8 → ([7, 0, 0, 0, 0, 0, 0, 0] : List INT).getD i 0 = 0 := by
    intro i low high
    interval_cases i <;> rfl
  have small : ∀ x ∈ ([7, 0, 0, 0, 0, 0, 0, 0] : List INT), x.toNat ≤ 255 := by simp
  have upload := @rdsUpload_delivers_iff (handset [7, 0, 0, 0, 0, 0, 0, 0] fun _ => 0) 0 0x1000
    (by decide) small
  obtain ⟨_, w', run, written, log, delivers⟩ := upload
  refine ⟨w', run, ?_⟩
  rw [log]
  exact delivers.mpr single

/-- The data 1, 2, .., 8 does not: register RDSD0 + 1 is written with the second byte of the 1. -/
theorem upload_garbled : ∃ w', Runs phone.env (comAndroidServerQn8006RDSLoadData true 0 0x1000 8 1)
    (handset [1, 2, 3, 4, 5, 6, 7, 8] fun _ => 0) () w' ∧
    ¬Delivered [1, 2, 3, 4, 5, 6, 7, 8] w'.world.written := by
  have upload := @rdsUpload_written (handset [1, 2, 3, 4, 5, 6, 7, 8] fun _ => 0) 0 0x1000
    (by decide)
  obtain ⟨_, w', run, log⟩ := upload
  refine ⟨w', run, fun delivered => ?_⟩
  rw [log] at delivered
  exact absurd (delivered_map_iff.mp delivered 1 (by decide)) (by decide)

/-- The registers hold 0x5a, and the array stays zero. -/
theorem download_lost : ∃ w', Runs phone.env (comAndroidServerQn8006RDSLoadData true 0 0x1000 8 0)
    (handset [0, 0, 0, 0, 0, 0, 0, 0] fun _ => 0x5a) () w' ∧ ¬MatchesChip w'.world := by
  have download := @rdsDownload_lands (handset [0, 0, 0, 0, 0, 0, 0, 0] fun _ => 0x5a) 0 0x1000 8
  obtain ⟨_, w', run, regs, java, _⟩ := download
  refine ⟨w', run, fun found => ?_⟩
  rw [MatchesChip, regs, java] at found
  exact absurd (found 0 (by decide)) (by decide)

end Yika.Fm
