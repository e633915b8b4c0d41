import DmaCamera.Library.Calls
import DmaCamera.XclBin
set_option autoImplicit false

namespace DmaCamera
open Calls Readers

/-! The card as the bitstream downloads find it: its registers, the gate to the user logic and
the clear bitstream that is kept for the next download. -/

def axiGateOffset : Nat := 0x030000
def axiGateOffsetRead : Nat := 0x030008
def oclCtlrOffset : Nat := 0x000000
def oclCuCtrlRange : Nat := 0x1000
def oclClkwizStatus : Nat := 0x050004
def oclClkwizConfig (n : Nat) : Nat := 0x050200+4*n
def hwicapOffset : Nat := 0x020000
def xhwicapWf : Nat := hwicapOffset+0x100
def xhwicapCr : Nat := hwicapOffset+0x10c
def xhwicapSr : Nat := hwicapOffset+0x110
def xhwicapWfv : Nat := hwicapOffset+0x114

def mcapControl : Nat := 0x14
def mcapData : Nat := 0x18

/-- How a call dies: in one of the two checks of the gate, in the check of the length of the
clear bitstream, or by an access to memory that is not there. -/
inductive BitFault where
  | gateFrozen | gateNotFrozen | noLength
  | header (stop : Stop HeaderFault)
  | outside
  deriving DecidableEq, Repr

structure BitDev where
  axiGateFrozen : Bool
  clearBitstream : Option (List Byte)
  clearBitstreamLength : U32
  /-- The control register of the MCAP returns what was last written to it. -/
  control : U32
  /-- What was read from and written to the registers of the user BAR, and written to those of
  the MCAP. -/
  reads : List (Nat × U32)
  writes : List (Nat × U32)
  mcapWrites : List (Nat × U32)
  /-- How many registers were read in all. -/
  time : Nat
  deriving DecidableEq

/-- What a call finds: the values of registers when they are read, whether memory is given and
copied, and what is in the memory of the user. -/
structure BitEnv where
  device : BitVec 16
  userCharDev : Bool
  accessOkArg : Bool
  copyBase : Option U32
  reg : Nat → Nat → U32
  mcapReg : Nat → U32
  kmallocBuffer : Bool
  kmallocString : Byte → Bool
  kmallocClear : Byte → Bool
  vmalloc : Bool
  copyBitstreamObj : Option U64
  copyBinObj : Option XclBin
  accessOk : U64 → U64 → Bool
  user : U64 → Byte
  copyHeader : Bool
  copyChunk : Nat → Bool
  copySecondary : Bool
  copyFreqScaling : Option U32

abbrev BitCall (α : Type) := Call BitFault BitDev α

section registers

variable (env : BitEnv)

def readRegister (offset : Nat) : BitCall U32 := do
  let s ← get
  modify fun s => { s with
    time := s.time+1
    reads := s.reads ++ [(offset,env.reg s.time offset)] }
  pure (env.reg s.time offset)

def writeRegister (value : U32) (offset : Nat) : BitCall Unit :=
  modify fun s => { s with writes := s.writes ++ [(offset,value)] }

def pollRegister (offset : Nat) (ready : U32 → Bool) : Nat → BitCall Bool
  | 0 => pure false
  | n+1 => do
    let value ← readRegister env offset
    if ready value = true then pure true else pollRegister offset ready n

def freezeAXIGate : BitCall Unit := do
  let s ← get
  if s.axiGateFrozen = true then throw .gateFrozen
  else do
    let _ ← readRegister env axiGateOffsetRead
    writeRegister 0 axiGateOffset
    let _ ← readRegister env axiGateOffsetRead
    modify fun s => { s with axiGateFrozen := true }

def pulseGate (w : U32) : BitCall Unit := do
  let _ ← readRegister env axiGateOffsetRead
  writeRegister w axiGateOffset

def freeAXIGate : BitCall Unit := do
  let s ← get
  if s.axiGateFrozen = false then throw .gateNotFrozen
  else do
    pulseGate env 2
    pulseGate env 0
    pulseGate env 2
    pulseGate env 3
    let _ ← readRegister env axiGateOffsetRead
    modify fun s => { s with axiGateFrozen := false }

end registers

def be32 (b₀ b₁ b₂ b₃ : Byte) : U32 :=
  shiftIn (shiftIn (shiftIn (b₀.setWidth 32) b₁) b₂) b₃

def wordAt (buffer : List Byte) (i : Nat) : Option U32 := do
  let b₀ ← buffer[i]?
  let b₁ ← buffer[i+1]?
  let b₂ ← buffer[i+2]?
  let b₃ ← buffer[i+3]?
  pure (be32 b₀ b₁ b₂ b₃)

def BitEnv.userWord (env : BitEnv) (addr : U64) : U32 :=
  be32 (env.user addr) (env.user (addr+1)) (env.user (addr+2)) (env.user (addr+3))

@[irreducible] def BitEnv.userBytes (env : BitEnv) (addr : U64) (n : Nat) : List Byte :=
  (List.range n).map fun i => env.user (addr+BitVec.ofNat 64 i)

/-- A header is parsed in a call: nothing comes of an invalid one, and the call dies where the
parser leaves the memory it was given. -/
def parseHeader (kmalloc : Byte → Bool) (buffer : List Byte) : BitCall (Option XHwIcapBitHeader) :=
  match bitstreamParseHeader kmalloc buffer with
  | .ok header => pure (some header)
  | .error (.refused .invalid) => pure none
  | .error stop => throw (.header stop)

def dmaHwicapBitfileBufferSize : Nat := 1024

end DmaCamera
