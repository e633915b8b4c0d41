import DmaCamera.BitstreamIoctl
set_option autoImplicit false

namespace DmaCamera
open Calls Readers

def eNoTty : Int := 25
def xdmaXclMagic : U32 := 0x586C0C6C
def xdma7v3InputFreq : U64 := 100
def xdmaKu3InputFreq : U64 := 200

structure XdmaOclClockwiz where
  ocl : U32
  divide : U32
  divideFrac : U32

def frequencyTable : List XdmaOclClockwiz :=
  [⟨25,0x28,0x0⟩,⟨50,0x14,0x0⟩,⟨75,0xd,0x14d⟩,⟨100,0xa,0x0⟩,⟨125,0x8,0x0⟩,⟨150,0x6,0x29a⟩,
    ⟨175,0x5,0x2ca⟩,⟨200,0x5,0x0⟩,⟨225,0x4,0x1bc⟩,⟨250,0x4,0x0⟩,⟨275,0x3,0x27c⟩,⟨300,0x3,0x14d⟩,
    ⟨325,0x3,0x4c⟩,⟨350,0x2,0x359⟩,⟨375,0x2,0x29a⟩,⟨400,0x2,0x1f4⟩]

section control

variable (env : BitEnv)

def busyUnits : Nat → Nat → BitCall U32
  | 0, _ => pure 0
  | n+1, i => do
    let r ← readRegister env (oclCtlrOffset+i*oclCuCtrlRange)
    let rest ← busyUnits n (i+1)
    pure (if r = 1 then (r <<< i) ||| rest else rest)

def computeUnitBusy : BitCall U32 := do
  let r ← readRegister env axiGateOffsetRead
  if r ≠ 3 then pure 0 else busyUnits env 16 0

def getOclFrequency : BitCall U64 := do
  let val ← readRegister env oclClkwizStatus
  if val &&& 1 = 0 then pure 0 else do
    let val ← readRegister env (oclClkwizConfig 0)
    let mulFrac0 : U32 := if val &&& (1 <<< 26) ≠ 0 then (val >>> 16) &&& 0x3ff else 0
    let mul0 : U32 := ((val &&& 0xff00) >>> 8)*1000+mulFrac0
    let div0 : U32 := (val &&& 0xff)*1000
    let val ← readRegister env (oclClkwizConfig 2)
    let divFrac1 : U32 := if val &&& (1 <<< 18) ≠ 0 then (val >>> 8) &&& 0x3ff else 0
    let div1 : U32 := (val &&& 0xff)*1000+divFrac1
    let div0 := div0*div1
    let mul0 := mul0*1000
    if div0 = 0 then pure 0
    else
      let input := if env.device = 0x8138 then xdmaKu3InputFreq else xdma7v3InputFreq
      pure ((input*mul0.setWidth 64)/div0.setWidth 64)

def resetOclIoctl : BitCall Int := do
  let busy ← computeUnitBusy env
  if busy = 0 then pure 0 else do
    freezeAXIGate env
    freeAXIGate env
    let busy ← computeUnitBusy env
    if busy = 0 then pure 0 else pure (-eBusy)

/-- The loop that waits for the lock: it has no way out before its end. -/
def lastStatus : Nat → U32 → BitCall U32
  | 0, val => pure val
  | n+1, _ => do
    let val ← readRegister env oclClkwizStatus
    lastStatus n val

@[irreducible] def lockReads : Nat := 1000

/-- The new clock is written, and given up where it does not lock. -/
def programClock (entry : XdmaOclClockwiz) : BitCall Int := do
  let config : U32 := if env.device = 0x8138 then 0x04000501 else 0x04000a01
  writeRegister config (oclClkwizConfig 0)
  let frac := entry.divideFrac <<< 8
  writeRegister ((if frac ≠ 0 then frac &&& (1 <<< 18) else frac) ||| entry.divide)
    (oclClkwizConfig 2)
  writeRegister 7 (oclClkwizConfig 23)
  writeRegister 2 (oclClkwizConfig 23)
  let val ← lastStatus env lockReads 1
  if val ≠ 1 then do
    writeRegister 4 (oclClkwizConfig 23)
    writeRegister 0 (oclClkwizConfig 23)
    pure (-eInval)
  else pure 0

def writeFrequency (entry : XdmaOclClockwiz) : BitCall Int := do
  let _ ← readRegister env (oclClkwizConfig 0)
  let _ ← readRegister env (oclClkwizConfig 2)
  let val ← readRegister env oclClkwizStatus
  if val ≠ 1 then pure (-eBusy) else programClock env entry

def scaleFrequency (entry : XdmaOclClockwiz) : BitCall Int := do
  freezeAXIGate env
  let err ← writeFrequency env entry
  let _ ← getOclFrequency env
  freeAXIGate env
  pure err

def oclFreqscalingIoctl : BitCall Int :=
  match env.copyFreqScaling with
  | none => pure (-eFault)
  | some freq => do
    let val ← readRegister env oclClkwizStatus
    if val &&& 1 = 0 then pure (-eBusy) else do
      let busy ← computeUnitBusy env
      if busy ≠ 0 then pure (-eBusy)
      else if freq > 250 ∨ freq < 25 then pure (-eInval)
      else do
        let _ ← getOclFrequency env
        -- the index is below 10, so the default is not taken
        scaleFrequency env (frequencyTable.getD ((freq/25).toNat-1) ⟨0,0,0⟩)

def charCtrlIoctl (cmd : CtrlCmd) : BitCall Int :=
  if env.userCharDev = false then pure (-eNoTty)
  else if env.accessOkArg = false then pure (-eFault)
  else match env.copyBase with
  | none => pure (-eFault)
  | some magic =>
    if magic ≠ xdmaXclMagic then pure (-eNoTty)
    else match cmd with
    | .icapDownload => bitstreamIoctl env .icapDownload
    | .mcapDownload => bitstreamIoctl env .mcapDownload
    | .oclReset => resetOclIoctl env
    | .freqScaling => oclFreqscalingIoctl env

end control

end DmaCamera
