import DmaCamera.McapPort
set_option autoImplicit false

namespace DmaCamera
open Calls Readers

/-- More numbers of a device, the files that can be requested for it, and what is in memory that
was just allocated. -/
structure BootEnv where
  vendor : BitVec 16
  subsystemDevice : BitVec 16
  featureId : U64
  requestFirmware : String → Option (List Byte)
  stale : Nat → Byte

def hexNumber (width n : Nat) : String := String.ofList ((Nat.toDigits 16 n).leftpad width '0')

def firmwareNames (env : BitEnv) (boot : BootEnv) : List String :=
  ["xilinx/" ++ hexNumber 4 boot.vendor.toNat ++ "-" ++ hexNumber 4 env.device.toNat ++ "-" ++
      hexNumber 4 boot.subsystemDevice.toNat ++ "-" ++ hexNumber 16 boot.featureId.toNat ++ ".dsabin",
    "xilinx/xdma-" ++ hexNumber 4 boot.vendor.toNat ++ "-" ++ hexNumber 4 env.device.toNat ++ ".dsabin",
    "xilinx/xilinx_adm-pcie-ku3_1ddr_2_0.dsabin"]

def bootFile (env : BitEnv) (boot : BootEnv) : Option (List Byte) :=
  (firmwareNames env boot).findSome? boot.requestFirmware

def fieldAt (data : List Byte) (i : Nat) : Option U64 := do
  let b₀ ← data[i]?
  let b₁ ← data[i+1]?
  let b₂ ← data[i+2]?
  let b₃ ← data[i+3]?
  let b₄ ← data[i+4]?
  let b₅ ← data[i+5]?
  let b₆ ← data[i+6]?
  let b₇ ← data[i+7]?
  pure (b₇ ++ b₆ ++ b₅ ++ b₄ ++ b₃ ++ b₂ ++ b₁ ++ b₀)

def fieldBytes (w : U64) : List Byte := (List.range 8).map fun i => w.extractLsb' (8*i) 8

def readField (data : List Byte) (i : Nat) : BitCall U64 :=
  match fieldAt data i with
  | some w => pure w
  | none => throw .outside

def lengthField : Nat := 8
def primaryOffsetField : Nat := 80
def primaryLengthField : Nat := 88
def secondaryOffsetField : Nat := 96
def secondaryLengthField : Nat := 104

section boot

variable (env : BitEnv)

def bitstreamMcap (buffer : List Byte) (length : U32) : BitCall Int :=
  if length = 0 then throw .noLength else do
    let header ← parseHeader env.kmallocString buffer
    match header with
    | none => pure (-eInval)
    | some bitHeader =>
      if bitstreamFits bitHeader (length.setWidth 64) = true then do
        let set ← bitstreamMcapSetup env true
        if set.1 ≠ 0 then pure set.1 else do
          bitstreamMcapHelper (bufferStream buffer bitHeader.headerLength.toNat)
            (bitHeader.bitstreamLength.toNat/4) 0
          let failed ← downloadFailed env
          if failed = true then do
            mcapWriteControl set.2
            let _ ← mCapFullReset env
            pure (-eIo)
          else do
            mcapWriteControl (set.2 ||| mcapCtrlDesignSwitchMask)
            pure 0
      else pure (-eInval)

def bootPrimary (data : List Byte) (binObj : XclBin) : BitCall Int :=
  if binObj.primaryFirmwareLength = 0 then pure 0 else do
    let err ← bitstreamMcap env (data.drop binObj.primaryFirmwareOffset.toNat)
      (binObj.primaryFirmwareLength.setWidth 32)
    modify BitDev.clearStash
    pure err

/-- Memory of the length of the clear bitstream, with what is copied of it. -/
def clearImage (boot : BootEnv) (data : List Byte) (binObj : XclBin) : List Byte :=
  let copied := (binObj.secondaryFirmwareLength.setWidth 32).toNat
  (data.drop binObj.secondaryFirmwareOffset.toNat).take copied ++
    (List.range' copied (binObj.secondaryFirmwareLength.toNat-copied)).map boot.stale

/-- The clear bitstream is kept, but where one is kept already and there is no second stage. -/
def bootSecondary (boot : BootEnv) (data : List Byte) (binObj : XclBin) : BitCall Int := do
  let s ← get
  if binObj.secondaryFirmwareLength ≠ 0 ∧
      (binObj.primaryFirmwareLength ≠ 0 ∨ s.clearBitstream = none) then
    if env.vmalloc = false then do
      modify BitDev.clearStash
      pure (-eNoMem)
    else do
      let copied := binObj.secondaryFirmwareLength.setWidth 32
      modify fun s => { s with
        clearBitstream := some (clearImage boot data binObj)
        clearBitstreamLength := copied }
      if 0 < copied.toNat ∧ data.length < binObj.secondaryFirmwareOffset.toNat+copied.toNat then
        throw .outside
      else pure 0
  else pure 0

def bootVerify : BitCall Int := do
  let s ← get
  match s.clearBitstream with
  | none => pure 0
  | some buffer => do
    let header ← parseHeader env.kmallocClear buffer
    if header = none then do
      modify BitDev.clearStash
      pure (-eInval)
    else pure 0

def bootImages (boot : BootEnv) (data : List Byte) (binObj : XclBin) : BitCall Int := do
  let err ← bootPrimary env data binObj
  if err ≠ 0 then pure err else do
    let err ← bootSecondary env boot data binObj
    if err ≠ 0 then pure err else bootVerify env

def loadBootFirmware (boot : BootEnv) : BitCall Int :=
  match bootFile env boot with
  | none => pure 0
  | some data => do
    let length ← readField data lengthField
    if data.length < length.toNat then pure (-eInval) else do
      let primaryOffset ← readField data primaryOffsetField
      let primaryLength ← readField data primaryLengthField
      if primaryOffset+primaryLength > length then pure (-eInval) else do
        let secondaryOffset ← readField data secondaryOffsetField
        let secondaryLength ← readField data secondaryLengthField
        let binObj := ⟨data.take 8,length,primaryOffset,primaryLength,secondaryOffset,secondaryLength⟩
        if secondaryOffset+secondaryLength > length then pure (-eInval)
        else bootImages env boot data binObj

end boot

end DmaCamera
