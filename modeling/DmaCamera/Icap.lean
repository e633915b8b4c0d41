import DmaCamera.Mcap
set_option autoImplicit false

namespace DmaCamera
open Calls Readers

def bodyChunksFuel : Nat → Nat → List Nat
  | 0, _ => []
  | fuel+1, remaining =>
    if remaining = 0 then [] else
      let numCharsRead := min remaining dmaHwicapBitfileBufferSize
      numCharsRead :: bodyChunksFuel fuel (remaining-numCharsRead)

def bodyChunks (bitstreamLength : Nat) : List Nat := bodyChunksFuel bitstreamLength bitstreamLength

/-- How the loop over the chunks ends: with all of them, at one that the device does not take,
or at one that is not copied. -/
inductive BodyEnd where
  | done | refused | fault
  deriving DecidableEq, Repr

section icap

variable (env : BitEnv)

def waitForDone : BitCall Bool := pollRegister env xhwicapSr (fun w => w &&& 5 != 0) 10

def writeWords (word : Nat → Option U32) : Nat → Nat → BitCall Unit
  | 0, _ => pure ()
  | size+1, i =>
    match word i with
    | none => throw .outside
    | some value => do
      writeRegister value xhwicapWf
      writeWords word size (i+1)

def hwicapWrite (word : Nat → Option U32) (i size : Nat) : BitCall Bool := do
  writeWords word size i
  writeRegister 1 xhwicapCr
  pollRegister env xhwicapCr (fun value => value &&& 1 == 0) 10

def icapRounds (word : Nat → Option U32) : Nat → Nat → Nat → BitCall Bool
  | 0, _, _ => pure true
  | fuel+1, i, remainWord =>
    if remainWord = 0 then pure true else do
      let wrFifoVacancy ← readRegister env xhwicapWfv
      if wrFifoVacancy.toInt ≤ 0 then pure false else do
        let wordWritten := min wrFifoVacancy.toNat remainWord
        let written ← hwicapWrite env word i wordWritten
        if written = true then icapRounds word fuel (i+wordWritten) (remainWord-wordWritten)
        else pure false

def bitstreamIcapHelper (word : Nat → Option U32) (wordCount : Nat) : BitCall Bool :=
  icapRounds env word wordCount 0 wordCount

def icapBody (chunk : Nat → Option (Nat → Option U32)) : Nat → List Nat → BitCall BodyEnd
  | _, [] => pure .done
  | c, numCharsRead :: rest =>
    match chunk c with
    | none => pure .fault
    | some word => do
      let taken ← bitstreamIcapHelper env word (numCharsRead/4)
      if taken = true then icapBody chunk (c+1) rest else pure .refused

def bufferChunk (buffer : List Byte) (headerLength c : Nat) : Option (Nat → Option U32) :=
  some fun i => wordAt buffer (headerLength+dmaHwicapBitfileBufferSize*c+4*i)

def userChunk (bitBuf : U64) (c : Nat) : Option (Nat → Option U32) :=
  if env.copyChunk c = true then
    some fun i => some (env.userWord (bitBuf+BitVec.ofNat 64 (dmaHwicapBitfileBufferSize*c+4*i)))
  else none

/-- What the downloads return for the end of the loop; a chunk that is not taken is no error. -/
def bodyVerdict : BodyEnd → BitCall Int
  | .fault => pure (-eFault)
  | .refused => pure 0
  | .done => do
    let done ← waitForDone env
    if done = true then pure 0 else pure (-eIo)

def bitstreamIcap (buffer : List Byte) (length : U32) : BitCall Int :=
  if length = 0 then throw .noLength else do
    let header ← parseHeader env.kmallocClear buffer
    match header with
    | none => pure (-eInval)
    | some bitHeader =>
      if bitstreamFits bitHeader (length.setWidth 64) = true then do
        let bodyEnd ← icapBody env (bufferChunk buffer bitHeader.headerLength.toNat) 0
          (bodyChunks bitHeader.bitstreamLength.toNat)
        bodyVerdict env bodyEnd
      else pure (-eInval)

def BitDev.clearStash (s : BitDev) : BitDev :=
  { s with clearBitstream := none, clearBitstreamLength := 0 }

def bitstreamClearIcap : BitCall Int := do
  let s ← get
  match s.clearBitstream with
  | none => pure 0
  | some buffer => do
    let err ← bitstreamIcap env buffer s.clearBitstreamLength
    modify BitDev.clearStash
    pure err

def icapPrimary (bitBuf length : U64) : BitCall Int :=
  if env.kmallocBuffer = false then pure (-eNoMem)
  else if env.copyHeader = false then pure (-eFault)
  else do
    let header ← parseHeader env.kmallocString (env.userBytes bitBuf dmaHwicapBitfileBufferSize)
    match header with
    | none => pure (-eInval)
    | some bitHeader =>
      if bitstreamFits bitHeader length = true then do
        let bodyEnd ← icapBody env (userChunk env (bitBuf+bitHeader.headerLength.setWidth 64)) 0
          (bodyChunks bitHeader.bitstreamLength.toNat)
        bodyVerdict env bodyEnd
      else pure (-eInval)

/-- All ways lead to the label at which the gate is freed. -/
def bitstreamIoctlIcap (bitBuf length : U64) : BitCall Int := do
  freezeAXIGate env
  let cleared ← bitstreamClearIcap env
  let err ← if cleared ≠ 0 then pure cleared else icapPrimary env bitBuf length
  freeAXIGate env
  pure err

end icap

end DmaCamera
