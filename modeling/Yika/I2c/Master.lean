import Yika.I2c.Bus

/-! The bit-banged bus of `qn8006_driver.c`. `udelay` is left out: it changes no pin. -/

namespace Yika.I2c
open Program

abbrev UINT8 := BitVec 8

/-- The 7-bit address of the chip. -/
def QN8006_I2C_ADDR : UINT8 := 0x2B
def I2C_TIME_OUT : UINT8 := 20

def qn8006SetSDA (data : UINT8) : Master Unit := pinSet .sda (data ≠ 0)
def qn8006SetSCL (data : UINT8) : Master Unit := pinSet .scl (data ≠ 0)

/-- `I2C_SDA_READ` -/
def i2cSdaRead : Master UINT8 := do
  let level ← readSda
  pure (if level then 1 else 0)

def qn8006I2cStart : Master Unit := do
  pinMode .sda
  pinMode .scl
  pinDir .sda true
  pinDir .scl true
  qn8006SetSCL 1
  qn8006SetSDA 1
  qn8006SetSDA 0
  qn8006SetSCL 0

def qn8006I2cStop : Master Unit := do
  pinDir .sda true
  pinDir .scl true
  qn8006SetSDA 0
  qn8006SetSCL 1
  qn8006SetSDA 1

def qn8006I2cSendAck (i : UINT8) : Master Unit := do
  qn8006SetSCL 0
  qn8006SetSDA i
  qn8006SetSCL 1
  qn8006SetSCL 0
  qn8006SetSDA 1

/-- One look at SDA in an ack slot; the locals are `time`. It leaves with the return value. -/
def pollAck (time : UINT8) : Master (UINT8 ⊕ UINT8) := do
  let level ← i2cSdaRead
  if level = 0 then pure (.inr 1)
  else if I2C_TIME_OUT < time + 1 then pure (.inr 0)
  else pure (.inl (time + 1))

def qn8006I2cCheckAck : Master UINT8 := do
  pinDir .sda false
  qn8006SetSCL 1
  let acked ← Prog.doWhile pollAck 0
  -- the time-out and the ack end alike
  qn8006SetSCL 0
  pinDir .sda true
  pure acked

def qn8006I2cWriteBit (i : UINT8) : Master Unit := do
  qn8006SetSCL 0
  qn8006SetSDA i
  qn8006SetSCL 1
  qn8006SetSCL 0

/-- The loop of `qn8006_i2c_Write_Byte` with `left` bits to go. -/
def writeBits : (left : Nat) → UINT8 → Master Unit
  | 0, _ => pure ()
  | left + 1, data => do
    qn8006I2cWriteBit (data >>> 7)
    writeBits left (data <<< 1)

def qn8006I2cWriteByte (data : UINT8) : Master Unit := writeBits 8 data

/-- The loop of `qn8006_i2c_Read_Byte` with `left` bits to go. -/
def readBits : (left : Nat) → UINT8 → Master UINT8
  | 0, data1 => pure data1
  | left + 1, data1 => do
    qn8006SetSCL 1
    let level ← i2cSdaRead
    qn8006SetSCL 0
    readBits left ((data1 <<< 1) ||| level)

def qn8006I2cReadByte : Master UINT8 := do
  pinDir .sda false
  let data1 ← readBits 8 0
  pinDir .sda true
  pure data1

/-- One turn of the loop that repeats an address that was not acknowledged; the locals are
`succ` and `time`. -/
def retryAddress (temp : UINT8) (l : UINT8 × UINT8) : Master ((UINT8 × UINT8) ⊕ UINT8) :=
  if l.1 ≠ 1 ∧ l.2 < 10 then do
    qn8006I2cStop
    qn8006I2cStart
    qn8006I2cWriteByte temp
    let succ ← qn8006I2cCheckAck
    pure (.inl (succ, l.2 + 1))
  else pure (.inr l.1)

/-- The address byte of a transfer, repeated up to ten times; the value is `succ`. -/
def sendAddress (temp : UINT8) : Master UINT8 := do
  qn8006I2cStart
  qn8006I2cWriteByte temp
  let succ ← qn8006I2cCheckAck
  Prog.doWhile (retryAddress temp) (succ, 0)

/-- The data loop of `qn8006_AI2C_Write_Nbyte`. -/
def writeData : List UINT8 → Master Unit
  | [] => pure ()
  | data :: rest => do
    qn8006I2cWriteByte data
    let _ ← qn8006I2cCheckAck
    writeData rest

/-- `data` is `Data[0..Length)`. -/
def qn8006AI2CWriteNbyte (slave regisAddr : UINT8) (data : List UINT8) : Master UINT8 := do
  let succ ← sendAddress (slave &&& 0xfe)
  qn8006I2cWriteByte regisAddr
  let _ ← qn8006I2cCheckAck
  writeData data
  qn8006I2cStop
  pure succ

/-- The data loop of `qn8006_AI2C_Read_Nbyte` from `i` on, with `left` bytes to go. The bytes
are listed in the order in which they are stored in `Data`. -/
def readData (length : Nat) : (left i : Nat) → Master (List UINT8)
  | 0, _ => pure []
  | left + 1, i => do
    let data ← qn8006I2cReadByte
    (if i = length - 1 then qn8006I2cSendAck 1 else qn8006I2cSendAck 0)
    let rest ← readData length left (i + 1)
    pure (data :: rest)

/-- The value is `succ` and what is stored in `Data[0..Length)`. -/
def qn8006AI2CReadNbyte (slave regisAddr length : UINT8) : Master (UINT8 × List UINT8) := do
  pinDir .sda true
  let succ ← sendAddress (slave ||| 0x01)
  qn8006I2cWriteByte regisAddr
  let _ ← qn8006I2cCheckAck
  pinDir .sda false
  let data ← readData length.toNat length.toNat 0
  qn8006I2cStop
  pure (succ, data)

/-- The pulls of the pins are not modelled: `Bus.lines` takes an input pin as pulled up. -/
def qn8006I2cInitial : Master Unit := do
  pinMode .sda
  pinMode .scl
  pinDir .sda true
  pinDir .scl true
  pinSet .sda true
  pinSet .scl true

/-- `QND_READ_N` of one byte; `ret` stays 0 if nothing is stored in it. -/
def qn8006GpioI2cReadReg (addr : UINT8) : Master UINT8 := do
  let read ← qn8006AI2CReadNbyte (QN8006_I2C_ADDR <<< 1) addr 1
  pure (read.2.headD 0)

/-- `QND_WRITE_N` of one byte; the C function returns 0 whatever happens. -/
def qn8006GpioI2cWriteReg (addr value : UINT8) : Master UINT8 := do
  let _ ← qn8006AI2CWriteNbyte (QN8006_I2C_ADDR <<< 1) addr [value]
  pure 0

end Yika.I2c
