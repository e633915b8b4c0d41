import DmaCamera.Icap
set_option autoImplicit false

namespace DmaCamera
open Calls Readers

section mcap

variable (env : BitEnv)

def waitForEos : Nat → U32 → BitCall Bool
  | retries, sr =>
    if sr.has mcapStsEosMask = true then pure true else do
      modify fun s => { s with
        mcapWrites := s.mcapWrites ++ List.replicate emcapEosLoopCount (mcapData,emcapNoopVal) }
      let sr ← mcapReadStatus env
      match retries with
      | 0 => pure false
      | retries+1 => waitForEos retries sr

def checkforcompletion : BitCall Bool := do
  let sr ← mcapReadStatus env
  waitForEos env emcapEosRetryCount sr

def anyStatusSet : List U32 → BitCall Bool
  | [] => pure false
  | mask :: rest => do
    let set ← isStatusSet env mask
    if set = true then pure true else anyStatusSet rest

def mCapFullReset : BitCall Int := do
  let cleared ← mCapClearRequestByConfigure env mcapLoopCount
  if cleared.1 ≠ 0 then pure cleared.1 else do
    let control ← mcapReadControl
    mcapWriteControl (control ||| (mcapCtrlModeMask ||| mcapCtrlInUseMask ||| mcapCtrlResetMask |||
      mcapCtrlModResetMask))
    let failed ← isStatusSet env mcapStsErrMask
    let modReset ← isControlSet mcapCtrlModResetMask
    let reset ← isControlSet mcapCtrlResetMask
    mcapWriteControl cleared.2
    if failed = true ∨ modReset = false ∨ reset = false then pure (-eIo) else pure 0

/-- Returns the error and the value to restore. -/
def bitstreamMcapSetup (designSwitch : Bool) : BitCall (Int × U32) := do
  let cleared ← mCapClearRequestByConfigure env mcapLoopCount
  if cleared.1 ≠ 0 then pure cleared else do
    let failed ← anyStatusSet env [mcapStsErrMask,mcapStsRegReadCmpMask,mcapStsFifoOverflowMask]
    if failed = true then do
      mcapWriteControl cleared.2
      pure (-eIo,cleared.2)
    else do
      let control ← mcapReadControl
      let set := (control ||| (mcapCtrlModeMask ||| mcapCtrlInUseMask ||| mcapCtrlDataRegProtMask)) &&&
        ~~~(mcapCtrlResetMask ||| mcapCtrlModResetMask ||| mcapCtrlRegReadMask)
      mcapWriteControl (if designSwitch = true then set &&& ~~~mcapCtrlDesignSwitchMask else set)
      pure (0,cleared.2)

def bitstreamMcapHelper (word : Nat → Option U32) : Nat → Nat → BitCall Unit
  | 0, _ => pure ()
  | wordCount+1, i =>
    match word i with
    | none => throw .outside
    | some value => do
      mcapWriteData value
      bitstreamMcapHelper word wordCount (i+1)

/-- The clear bitstream is kept where its header is not accepted. -/
def bitstreamClearMcap : BitCall Int := do
  let s ← get
  match s.clearBitstream with
  | none => pure 0
  | some buffer => do
    let header ← parseHeader env.kmallocClear buffer
    match header with
    | none => pure (-eInval)
    | some bitHeader =>
      if bitstreamFits bitHeader (s.clearBitstreamLength.setWidth 64) = true then do
        bitstreamMcapHelper (fun i => wordAt buffer (bitHeader.headerLength.toNat+4*i))
          (bitHeader.bitstreamLength.toNat/4) 0
        modify BitDev.clearStash
        pure 0
      else pure (-eInval)

def mcapBody (chunk : Nat → Option (Nat → Option U32)) : Nat → List Nat → BitCall Bool
  | _, [] => pure true
  | c, numCharsRead :: rest =>
    match chunk c with
    | none => pure false
    | some word => do
      bitstreamMcapHelper word (numCharsRead/4) 0
      mcapBody chunk (c+1) rest

def downloadFailed : BitCall Bool := do
  let complete ← checkforcompletion env
  if complete = false then pure true
  else anyStatusSet env [mcapStsErrMask,mcapStsFifoOverflowMask]

/-- The part of `bitstream_ioctl_mcap` from the setting up of the port to the label
`design_switch`. -/
def mcapWriteBitstream (set : Int × U32) (bitBuf : U64) (bitHeader : XHwIcapBitHeader) :
    BitCall Int :=
  if set.1 ≠ 0 then pure set.1 else do
    let cleared ← bitstreamClearMcap env
    if cleared ≠ 0 then pure cleared else do
      let copied ← mcapBody (userChunk env (bitBuf+bitHeader.headerLength.setWidth 64)) 0
        (bodyChunks bitHeader.bitstreamLength.toNat)
      if copied = false then pure (-eFault) else do
        let failed ← downloadFailed env
        if failed = true then do
          mcapWriteControl set.2
          let _ ← mCapFullReset env
          pure (-eIo)
        else pure 0

def mcapPrimary (bitBuf length : U64) : BitCall Int :=
  if env.kmallocBuffer = false then pure (-eNoMem)
  else if env.copyHeader = false then pure (-eFault)
  else do
    let header ← parseHeader env.kmallocString (env.userBytes bitBuf dmaHwicapBitfileBufferSize)
    match header with
    | none => pure (-eInval)
    | some bitHeader =>
      if bitstreamFits bitHeader length = true then do
        let set ← bitstreamMcapSetup env false
        let err ← mcapWriteBitstream env set bitBuf bitHeader
        mcapWriteControl set.2
        pure err
      else pure (-eInval)

def bitstreamIoctlMcap (bitBuf length : U64) : BitCall Int :=
  if bitBuf = 0 ∨ length = 0 then pure (-eInval) else do
    freezeAXIGate env
    let err ← mcapPrimary env bitBuf length
    freeAXIGate env
    pure err

end mcap

inductive CtrlCmd where
  | icapDownload | mcapDownload | freqScaling | oclReset
  deriving DecidableEq, Repr

section ioctl

variable (env : BitEnv)

/-- The clear bitstream is copied for the next download; its length is cut to 32 bits. -/
def copySecondaryFirmware (buffer : U64) (binObj : XclBin) : BitCall Int := do
  modify fun s => { s with clearBitstream := none }
  if env.vmalloc = false then do
    modify fun s => { s with clearBitstreamLength := 0 }
    pure (-eNoMem)
  else if env.copySecondary = false then do
    modify BitDev.clearStash
    pure (-eFault)
  else do
    modify fun s => { s with
      clearBitstream := some
        (env.userBytes (buffer+binObj.secondaryFirmwareOffset) binObj.secondaryFirmwareLength.toNat)
      clearBitstreamLength := binObj.secondaryFirmwareLength.setWidth 32 }
    pure 0

def bitstreamDownload (cmd : CtrlCmd) (bitBuf length : U64) : Option (BitCall Int) :=
  match cmd with
  | .icapDownload => some (bitstreamIoctlIcap env bitBuf length)
  | .mcapDownload => some (bitstreamIoctlMcap env bitBuf length)
  | _ => none

/-- The error of the download is lost where the secondary bitstream is copied. -/
def bitstreamIoctl (cmd : CtrlCmd) : BitCall Int :=
  match env.copyBitstreamObj with
  | none => pure (-eFault)
  | some buffer =>
    match env.copyBinObj with
    | none => pure (-eFault)
    | some binObj =>
      match bitstreamIoctlChecks env.accessOk buffer binObj with
      | .error err => pure err
      | .ok () =>
        match bitstreamDownload env cmd (buffer+binObj.primaryFirmwareOffset)
            binObj.primaryFirmwareLength with
        | none => pure (-eInval)
        | some download => do
          let err ← download
          if binObj.secondaryFirmwareLength ≠ 0 then copySecondaryFirmware env buffer binObj
          else pure err

end ioctl

end DmaCamera
