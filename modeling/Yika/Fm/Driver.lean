import Yika.Fm.Board

/-! The functions of `qndriver.c`, as programs over the board. C expressions are evaluated
in `int` and cut to the width of the object they are stored in. -/

namespace Yika.Fm
open Program

/-- `FREQ2CHREG(freq)`, stored in a UINT16. -/
def freq2chreg (freq : UINT16) : UINT16 := BitVec.ofInt 16 (((freq.toNat : Int) - 7600).tdiv 5)

/-- `CHREG2FREQ(ch)`, returned as a UINT16. -/
def chreg2freq (ch : UINT16) : UINT16 := ch * 5 + 7600

/-- `(ch - 7710) % 240 == 0`. -/
def imageChannel (ch : UINT16) : Bool := ((ch.toNat : Int) - 7710).tmod 240 == 0

def qndDelay (_ms : UINT16) : Drv Unit := pure ()

def qnfSetRegBit (reg bitMask dataVal : UINT8) : Drv Unit := do
  let temp ← readReg reg
  writeReg reg ((temp &&& ~~~bitMask) ||| (dataVal &&& bitMask))

def qnfRXInit : Drv Unit := do
  qnfSetRegBit 77 0x80 0x80
  qnfSetRegBit 40 0x80 0x80
  qnfSetRegBit 64 0x3f 8
  qnfSetRegBit 66 0x3f 22
  qnfSetRegBit 65 0x7f 40

def qnfSetMute (on : Bool) : Drv Unit :=
  if on then qnfSetRegBit REG_PD2 0x0c 0x0c
  else do
    qndDelay 200
    qnfSetRegBit REG_PD2 0x0c 0x00

/-- `qnd_RSSInBB[i] = qnd_RSSInBB[i-1] + d * step` -/
def initRSSInBBEdge (d step : UINT8) (i : Nat) : Drv Unit := do
  let below ← load16 (.qndRSSInBB (i - 1))
  store16 (.qndRSSInBB i) (below + BitVec.ofNat 16 (d.toNat * step.toNat))

def qnfInitRSSInBB : Drv Unit := do
  let index ← load8 .qndCHSTEP
  let step ← stepTbl index
  let stop ← load16 .qndCHSTOP
  let start ← load16 .qndCHSTART
  let d1 := stop - start
  let d2 : UINT8 := step * 6
  let d : UINT8 := BitVec.ofNat 8 (d1.toNat / d2.toNat)
  let first ← load16 .qndCHSTART
  store16 (.qndRSSInBB 0) first
  Prog.forRange (initRSSInBBEdge d step) 1 5
  let last ← load16 .qndCHSTOP
  store16 (.qndRSSInBB 6) (last + step.setWidth 16)

/-- The search loop of `QNF_GetRSSInBandIndex`, from band `i` with `left` bands to go. -/
def bandIndexFrom (chfreq : UINT16) : (left i : Nat) → Drv UINT8
  | 0, _ => pure 0
  | left + 1, i => do
    let edge ← load16 (.qndRSSInBB (i + 1))
    if chfreq < edge then pure (BitVec.ofNat 8 i) else bandIndexFrom chfreq left (i + 1)

def qnfGetRSSInBandIndex (chfreq : UINT16) : Drv UINT8 := bandIndexFrom chfreq QND_BAND_NUM 0

def qnfGetRSSIn (chFreq : UINT16) : Drv UINT8 := do
  let idx ← qnfGetRSSInBandIndex chFreq
  load8 (.qndRSSIn idx.toNat)

def qnfGetCh : Drv UINT16 := do
  let tStep ← readReg CH_STEP
  let tCh ← readReg CH
  pure (chreg2freq ((((tStep &&& CH_CH).setWidth 16) <<< 8) + tCh.setWidth 16))

def qnfSetCh (freq : UINT16) : Drv Unit := do
  let f := freq2chreg freq
  writeReg CH (f.setWidth 8)
  let tStep ← readReg CH_STEP
  writeReg CH_STEP ((tStep &&& ~~~CH_CH) ||| ((f >>> 8).setWidth 8 &&& CH_CH))

def qnfConfigScan (start stop : UINT16) (step : UINT8) : Drv Unit := do
  let fStart := freq2chreg start
  let fStop := freq2chreg stop
  writeReg CH_START (fStart.setWidth 8)
  writeReg CH_STOP (fStop.setWidth 8)
  writeReg CH_STEP (((fStart >>> 6).setWidth 8 &&& CH_CH_START) |||
    ((fStop >>> 4).setWidth 8 &&& CH_CH_STOP) ||| (step <<< 6))

def qnfSetAudioMono (modemask mode : UINT8) : Drv Unit := do
  (if mode = QND_TX_AUDIO_MONO ∨ mode = QND_RX_AUDIO_MONO then writeReg TX_FDEV 0x20
  else writeReg TX_FDEV 0x6c)
  qnfSetRegBit SYSTEM2 modemask mode

/-- A change of working mode in the `default` branch of `QND_SetSysMode`. -/
def setWorkingMode (val : UINT8) : Drv Unit := do
  let now ← readReg SYSTEM1
  Prog.when ((now &&& R_TXRX_MASK) ≠ val) do
    qnfSetMute true
    qnfSetRegBit SYSTEM1 R_TXRX_MASK val
  qnfSetRegBit SYSTEM1 0x08 0x00

def qndSetSysMode (mode : UINT16) : Drv Unit :=
  if mode = 0 then do
    let now ← readReg SYSTEM1
    store8 .qndPrevMode now
    qnfSetRegBit SYSTEM1 R_TXRX_MASK STNBY
  else if mode = 1 then do
    let saved ← load8 .qndPrevMode
    writeReg SYSTEM1 saved
  else if mode = 2 then qnfSetRegBit SYSTEM2 0x80 0x80
  else
    let val : UINT8 := (mode >>> 8).setWidth 8
    Prog.when (val ≠ 0) do
      Prog.when (val = 0x40) (writeReg 73 0x44)
      Prog.when (val ≠ 0x40 ∧ val = 0x80) (writeReg 73 0x04)
      setWorkingMode val

def qndGetRSSI (ch : UINT16) : Drv UINT8 := do
  qndSetSysMode 0x8000
  qnfSetCh ch
  qnfSetRegBit SYSTEM1 CCA_CH_DIS CCA_CH_DIS
  qndDelay 10
  readReg RSSISIG

def qnChipInitialization : Drv Unit := do
  writeReg 0x01 0x89
  writeReg 0x50 0x00
  writeReg 0x01 0x49
  writeReg 0x01 0x09
  qndDelay 410
  writeReg 0x3C 0x89
  qnfSetRegBit 0x49 0xc0 0x00
  writeReg 0x4a 0xba
  writeReg 0x5c 0x05
  writeReg 0x52 0x0c
  qnfSetRegBit 49 0x30 0x00
  writeReg 0x38 0x2d
  writeReg 0x39 0x88
  writeReg 0x52 0x0c
  writeReg 0x00 0x81
  writeReg 0x57 0x80
  writeReg 0x57 0x00
  qndDelay 120
  writeReg 0x00 0x01
  writeReg 0x52 0x00
  qnfSetRegBit 31 0x38 0x28
  writeReg HYSTERSIS 0xff
  writeReg MPSTART 0x12
  qnfSetRegBit 58 0xf 0xf

def qndInit : Drv UINT8 := do
  qnChipInitialization
  qnfSetMute true
  qnfInitRSSInBB
  writeReg 0x00 0x01
  qnfSetMute false
  pure 1

/-- One look at the scan bit: `inl` while the scan of `QND_TXClearChannelScan` runs. -/
def pollClearChannel (_ : Unit) : Drv (Unit ⊕ Unit) := do
  qndDelay 20
  let regValue ← readReg SYSTEM1
  if regValue &&& CHSC ≠ 0 then pure (.inl ()) else pure (.inr ())

def qndTXClearChannelScan (start stop : UINT16) (step _db : UINT8) : Drv UINT16 := do
  qnfConfigScan start stop step
  qnfSetRegBit CCA 0xe0 0x20
  qnfSetRegBit SYSTEM1 0xe1 0x60
  Prog.doWhile pollClearChannel ()
  qnfGetCh

/-- The clear channel of band `i`, and its reading stored in `qnd_RSSIn[i]`. -/
def scanBand (i : Nat) : Drv (UINT16 × UINT8) := do
  let low ← load16 (.qndRSSInBB i)
  let high ← load16 (.qndRSSInBB (i + 1))
  let index ← load8 .qndCHSTEP
  let leap ← stepTbl index
  let step ← load8 .qndCHSTEP
  let ch ← qndTXClearChannelScan low (high - leap.setWidth 16) step 15
  let rssi ← qndGetRSSI ch
  store8 (.qndRSSIn i) rssi
  pure (ch, rssi)

/-- One turn of the rescan loop of `QNF_UpdateRSSIn`. -/
def rescanBand (i : Nat) : Drv (UINT16 × UINT8) := do
  let scanned ← scanBand i
  let floor ← load8 .qndRSSIns
  let rssi ← load8 (.qndRSSIn i)
  Prog.when (rssi < floor) do
    let rssi ← load8 (.qndRSSIn i)
    store8 .qndRSSIns rssi
    store16 .qndClearChannel scanned.1
  pure scanned

/-- The rescan loop, listing the channel and the reading each band gave. -/
def rescanBands : (left i : Nat) → Drv (List (UINT16 × UINT8))
  | 0, _ => pure []
  | left + 1, i => do
    let scanned ← rescanBand i
    let rest ← rescanBands left (i + 1)
    pure (scanned :: rest)

/-- The full rescan, `QNF_UpdateRSSIn(0)`, with what it measured. -/
def rescan : Drv (List (UINT16 × UINT8)) := do
  let r0 ← readReg SYSTEM1
  let measured ← rescanBands QND_BAND_NUM 0
  writeReg SYSTEM1 r0
  pure measured

def qnfUpdateRSSIn (chFreq : UINT16) : Drv Unit :=
  if chFreq = 0 then do
    let _ ← rescan
    pure ()
  else do
    let r0 ← readReg SYSTEM1
    let i ← qnfGetRSSInBandIndex chFreq
    let _ ← scanBand i.toNat
    writeReg SYSTEM1 r0

/-- The look at the clear channel in `QND_UpdateRSSIn`, before it decides to rescan. -/
def checkClearChannel : Drv Unit := do
  let clear ← load16 .qndClearChannel
  let temp ← qndGetRSSI clear
  let floor ← load8 .qndRSSIns
  let floor' ← load8 .qndRSSIns
  let vAbs := if floor < temp then temp - floor' else floor' - temp
  if vAbs < RSSINTHRESHOLD then store8 .qndClearScanFlag 0 else store8 .qndClearScanFlag 1

/-- The rescan of `QND_UpdateRSSIn`, when the flag, the first scan or the channel asks for it. -/
def rescanIfWanted (ch : UINT16) : Drv Unit := do
  let flag ← load8 .qndClearScanFlag
  -- `||` looks at qnd_FirstScan only when the flag is clear
  let wanted ← (if flag ≠ 0 then pure flag else load8 .qndFirstScan)
  Prog.when (wanted ≠ 0 ∨ ch ≠ 0) do
    qnfUpdateRSSIn ch
    store8 .qndFirstScan 0

def qndUpdateRSSIn (ch : UINT16) : Drv Unit := do
  let first ← load8 .qndFirstScan
  Prog.when (first = 0) checkClearChannel
  rescanIfWanted ch

def qndTuneToCH (ch : UINT16) : Drv Unit := do
  qnfRXInit
  let sys ← readReg SYSTEM1
  if sys &&& TXREQ ≠ 0 then do
    qnfSetRegBit SYSTEM1 CCA_CH_DIS CCA_CH_DIS
    qnfSetCh ch
  else do
    qnfSetMute true
    (if imageChannel ch then qnfSetRegBit TXAGC_GAIN IMR IMR
    else qnfSetRegBit TXAGC_GAIN IMR 0x00)
    qnfSetCh ch
    qnfSetRegBit SYSTEM1 CCA_CH_DIS CCA_CH_DIS
    let sys2 ← readReg SYSTEM2
    qnfSetRegBit GAIN_SEL 0x38 (if sys2 &&& 0x20 ≠ 0 then 0x00 else 0x28)
    qnfSetMute false

def qndSetCountry (country : UINT8) : Drv Unit := do
  store8 .qndCountry country
  if country = 0 then do
    store16 .qndCHSTART 7600
    store16 .qndCHSTOP 10800
    store8 .qndCHSTEP 1
  else Prog.when (country = 1) do
    store16 .qndCHSTART 8810
    store16 .qndCHSTOP 10790
    store8 .qndCHSTEP 2

def qndConfigFMModule (optiontype option : UINT8) : Drv Unit :=
  if optiontype = QND_CONFIG_AUDIOPEAK_DEV then
    writeReg 0x0e (BitVec.ofNat 8 (option.toNat * 100 / 69))
  else if optiontype = QND_CONFIG_PILOT_DEV then qnfSetRegBit 0x0f 0x3c (option <<< 2)
  else Prog.when (optiontype = QND_CONFIG_RDS_DEV)
    (qnfSetRegBit 0x18 0x7f (BitVec.ofNat 8 (option.toNat * 100 / 35)))

/-! Seeking. -/

/-- `rssi > minrssi + margin + db`, in `int`. -/
def rssiAbove (rssi minrssi : UINT8) (margin : Nat) (db : UINT8) : Bool :=
  decide (minrssi.toNat + margin + db.toNat < rssi.toNat)

/-- One look at the scan bit of a channel check; the locals are the time-out counter. -/
def pollScan (timeout : UINT8) : Drv (UINT8 ⊕ UINT8) := do
  qndDelay 5
  let regValue ← readReg SYSTEM1
  if regValue &&& CHSC ≠ 0 ∧ timeout + 1 < 200 then pure (.inl (timeout + 1))
  else pure (.inr (timeout + 1))

/-- `(ifcnt < 2268) && (ifcnt > 1828)` for the count read from CCA5 and CCA4. -/
def ifcntInBand (high low : UINT8) : Bool :=
  let ifcnt : UINT16 := ((high &&& 0x1f).setWidth 16 <<< 8) + low.setWidth 16
  decide (ifcnt < 2268 ∧ 1828 < ifcnt)

/-- The judgement of `QND_RXSeekCH` after the channel check has scanned: whether it ends with
`scanFlag = 0`, that is, with the channel accepted. -/
def judgeChannel (db minrssi rssi timeout : UINT8) : Drv Bool :=
  if timeout < 200 then do
    let high ← readReg CCA5
    let low ← readReg CCA4
    if ifcntInBand high low then
      if rssiAbove rssi minrssi 20 db then pure true
      else do
        qndDelay 70
        let status ← readReg STATUS1
        if status &&& 0x01 = 0 then pure true
        else do
          qndDelay 80
          let pilotSnr ← readReg SNR
          pure (decide (5 < pilotSnr ∧ pilotSnr < 55))
    else pure false
  else pure false

/-- The channel check of `QND_RXSeekCH` once the RSSI is high enough. -/
def checkChannel (start : UINT16) (step db minrssi rssi : UINT8) : Drv Bool := do
  qnfConfigScan start start step
  writeReg CCA (minrssi - 22 + db)
  qnfSetRegBit SYSTEM1 0xA1 0xA0
  let timeout ← Prog.doWhile pollScan 0
  judgeChannel db minrssi rssi timeout

/-- The inner test of `QND_RXSeekCH` at one frequency: tune there, read the RSSI and, when
it is high enough, check the channel. -/
def seekTest (start : UINT16) (step db : UINT8) : Drv Bool := do
  let minrssi ← qnfGetRSSIn start
  qnfSetCh start
  (if imageChannel start then qnfSetRegBit TXAGC_GAIN IMR IMR else qnfSetRegBit TXAGC_GAIN IMR 0)
  qnfSetRegBit SYSTEM1 0xA1 0x81
  qndDelay 10
  let rssi ← readReg RSSISIG
  if rssiAbove rssi minrssi 6 db then checkChannel start step db minrssi rssi else pure false

/-- The end of a turn of the seek loop: leave it with an accepted channel, or step on, and
leave it with 0 once the step passes `stop`. -/
def seekNext (stop : UINT16) (up : Bool) (stepvalue : UINT8) (start : UINT16) (accepted : Bool) :
    Drv (UINT16 ⊕ UINT16) :=
  if accepted then do
    let func ← load8 .qndCallBackFunc
    Prog.when (func ≠ 0) (act (.callBack start 0))
    pure (.inr start)
  else
    let next := if up then start + stepvalue.setWidth 16 else start - stepvalue.setWidth 16
    if (up ∧ stop < next) ∨ (¬up ∧ next < stop) then pure (.inr 0) else pure (.inl next)

/-- One turn of the `do .. while (scanFlag != 0)` loop; the locals are `start`. -/
def seekRound (stop : UINT16) (step db : UINT8) (up : Bool) (stepvalue : UINT8) (start : UINT16) :
    Drv (UINT16 ⊕ UINT16) := do
  let accepted ← seekTest start step db
  seekNext stop up stepvalue start accepted

/-- The parameter `up` of the C function is overwritten before it is used. -/
def qndRXSeekCH (start stop : UINT16) (step db _up : UINT8) : Drv UINT16 := do
  let all ← load8 .qndAutoScanAll
  Prog.when (all = 0) do
    qnfSetMute true
    qnfSetRegBit GAIN_SEL 0x38 0x38
    qndUpdateRSSIn 0
  let stepvalue ← stepTbl step
  let chfreq ← Prog.doWhile (seekRound stop step db (decide (start < stop)) stepvalue) start
  let all ← load8 .qndAutoScanAll
  Prog.when (all = 0) (qndTuneToCH (if chfreq = 0 then stop else chfreq))
  pure chfreq

/-- The part of `QND_RXSeekCHAll` before its loop: mute, the noise floor, an empty list. -/
def seekAllPrepare (step : UINT8) : Drv UINT8 := do
  qnfSetMute true
  store8 .qndAutoScanAll 1
  let stepvalue ← stepTbl step
  qnfSetRegBit GAIN_SEL 0x38 0x38
  qndUpdateRSSIn 0
  store8 .qndChCount 0
  pure stepvalue

/-- `qnd_ChList[qnd_ChCount++] = temp` -/
def appendChannel (temp : UINT16) : Drv Unit := do
  let count ← load8 .qndChCount
  store16 (.qndChList count.toNat) temp
  store8 .qndChCount (count + 1)

/-- One turn of the loop of `QND_RXSeekCHAll`; the locals are `pStart`. -/
def seekAllRound (pStop : UINT16) (step db up : UINT8) (stepvalue : UINT8) (pStart : UINT16) :
    Drv (UINT16 ⊕ Unit) := do
  let temp ← qndRXSeekCH pStart pStop step db up
  Prog.when (temp ≠ 0) (appendChannel temp)
  let temp := if temp ≠ 0 then temp else pStop
  let pStart := if up ≠ 0 then temp + stepvalue.setWidth 16 else temp - stepvalue.setWidth 16
  if (if up ≠ 0 then pStart ≤ pStop else pStop ≤ pStart) then do
    let count ← load8 .qndChCount
    if count.toNat < QN_CCA_MAX_CH then pure (.inl pStart) else pure (.inr ())
  else pure (.inr ())

/-- The channel tuned after the scan: `(qnd_ChCount >= 1) ? qnd_ChList[0] : pStop`. -/
def firstChannel (pStop : UINT16) : Drv UINT16 := do
  let count ← load8 .qndChCount
  if 1 ≤ count then load16 (.qndChList 0) else pure pStop

/-- `(stop > qnd_CH_STOP) ? qnd_CH_STOP : stop` -/
def stopInRange (stop : UINT16) : Drv UINT16 := do
  let limit ← load16 .qndCHSTOP
  if limit < stop then load16 .qndCHSTOP else pure stop

/-- The parameter `up` of the C function is overwritten before it is used. -/
def qndRXSeekCHAll (start stop : UINT16) (step db _up : UINT8) : Drv UINT8 := do
  let pStop ← stopInRange stop
  let up : UINT8 := if start < stop then 1 else 0
  let stepvalue ← seekAllPrepare step
  Prog.doWhile (seekAllRound pStop step db up stepvalue) start
  let ch ← firstChannel pStop
  qndTuneToCH ch
  store8 .qndAutoScanAll 0
  qnfSetMute false
  load8 .qndChCount

/-! Audio, transmit power and RDS. -/

def qndRXConfigAudio (optiontype option : UINT8) : Drv Unit :=
  if optiontype = QND_CONFIG_MONO then
    if option ≠ 0 then qnfSetAudioMono RX_MONO_MASK QND_RX_AUDIO_MONO
    else qnfSetAudioMono RX_MONO_MASK QND_RX_AUDIO_STEREO
  else Prog.when (optiontype = QND_CONFIG_MUTE) (if option ≠ 0 then qnfSetMute true else qnfSetMute false)

def qndTXSetPower (gain : UINT8) : Drv Unit := writeReg PAG_CAL (0x40 ||| gain)

def qndTXConfigAudio (optiontype option : UINT8) : Drv Unit :=
  if optiontype = QND_CONFIG_MONO then
    if option ≠ 0 then qnfSetAudioMono 0x10 QND_TX_AUDIO_MONO else qnfSetAudioMono 0x10 QND_TX_AUDIO_STEREO
  else if optiontype = QND_CONFIG_MUTE then
    if option ≠ 0 then qnfSetRegBit 0x28 0x18 0 else qnfSetRegBit 0x28 0x18 0x18
  else if optiontype = QND_CONFIG_SOFTCLIP then
    if option ≠ 0 then qnfSetRegBit TXAGC_GAIN 0x80 0x80 else qnfSetRegBit TXAGC_GAIN 0x80 0x00
  else if optiontype = QND_CONFIG_AUTOAGC then
    if option ≠ 0 then qnfSetRegBit TXAGC_GAIN 0x40 0 else qnfSetRegBit TXAGC_GAIN 0x41 0x41
  else Prog.when (optiontype = QND_CONFIG_AGCGAIN) (qnfSetRegBit TXAGC_GAIN 0x1f option)

def qndLoadDefalutSetting (country : UINT8) : Drv Unit :=
  Prog.when (country = 1) do
    qndConfigFMModule QND_CONFIG_AUDIOPEAK_DEV 75
    qndConfigFMModule QND_CONFIG_PILOT_DEV 9
    qndConfigFMModule QND_CONFIG_RDS_DEV 2
    qnfSetRegBit 0x01 0x08 0x08
    qnfSetRegBit 0x04 0x3f 0x3f
    qndTXConfigAudio QND_CONFIG_SOFTCLIP 1

def qndRDSEnable (on : UINT8) : Drv UINT8 := do
  let val ← readReg SYSTEM1
  if on = 1 then do
    qnfSetRegBit GAIN_SEL 0x08 0x00
    writeReg SYSTEM1 (val ||| RDSEN)
    pure 1
  else if on = 0 then do
    qnfSetRegBit GAIN_SEL 0x38 0x28
    writeReg SYSTEM1 (val &&& ~~~RDSEN)
    pure 1
  else pure 0

def qndRDSDetectSignal : Drv UINT8 := readReg STATUS3

/-- The buffer is a user-space address of bytes. -/
def qndRDSLoadData (rdsRawData : INT) (upload : UINT8) : Drv Unit :=
  if upload ≠ 0 then
    Prog.forRange (fun i => do
      let value ← peek (rdsRawData + BitVec.ofNat 32 i)
      writeReg (RDSD0 + BitVec.ofNat 8 i) value) 0 8
  else
    Prog.forRange (fun i => do
      let temp ← readReg (RDSD0 + BitVec.ofNat 8 i)
      act (.poke (rdsRawData + BitVec.ofNat 32 i) temp)) 0 8

/-- One look at STATUS3: `inr` once RDS_RXUPD differs from the first reading. -/
def pollRDSUpdate (rdsUpdated : UINT8) (_ : Unit) : Drv (Unit ⊕ Unit) := do
  let status ← readReg STATUS3
  if (status ^^^ rdsUpdated) &&& RDS_RXUPD = 0 then pure (.inl ()) else pure (.inr ())

def qndRDSCheckBufferReady : Drv UINT8 := do
  let rdsUpdated ← readReg STATUS3
  let sys ← readReg SYSTEM1
  if sys &&& TXREQ ≠ 0 then do
    let sys2 ← readReg SYSTEM2
    writeReg SYSTEM2 (sys2 ^^^ RDSTXRDY)
    pure 1
  else do
    Prog.doWhile (pollRDSUpdate rdsUpdated) ()
    pure 1

end Yika.Fm
