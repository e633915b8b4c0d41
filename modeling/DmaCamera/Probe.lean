import DmaCamera.BarAccess
import DmaCamera.Library.Ledger
import DmaCamera.Library.Loops
import Mathlib.Data.Fin.Basic
import Mathlib.Data.List.FinRange
set_option autoImplicit false

namespace DmaCamera.Probe
open Ledger Loops

/-! `probe` and the functions it calls, with what they acquire and release. -/

def maxXdmaDevices : Nat := 64
def maxUserIrq : Nat := 16
def xdmaBarSize : Nat := 0x8000
def xdmaMinorCount : Nat := 255
def xdmaIdH2c : U32 := 0x1fc0
def xdmaIdC2h : U32 := 0x1fc1
def irqBlockId : U32 := 0x1fc20000
def configBlockId : U32 := 0x1fc30000

/-- An element of `lro->engine`, by channel and `dir_from_dev`. -/
structure EngineSlot where
  channel : Fin 4
  fromDev : Bool
  deriving DecidableEq, Repr

inductive CharSlot where
  | user | ctrl | events (i : Fin 16)
  | sgdma (e : EngineSlot) | bypass (e : EngineSlot) | bypassBase
  deriving DecidableEq, Repr

inductive Resource where
  -- memory of the `struct xdma_dev`
  | lro
  | device | msix | msi | regions
  | bar (i : Fin 6)
  | userIrq (i : Nat)
  | irq
  -- memory of the engine, its interrupt and its write-back page
  | engine (e : EngineSlot) | engineIrq (e : EngineSlot) | writeback (e : EngineSlot)
  -- an element of `dev_present`
  | slot (i : Nat)
  | numbers (cdevno : U32) (count : Nat)
  -- memory of the `struct xdma_char`, the `cdev` and the node in sysfs
  | char (c : CharSlot) | cdev (c : CharSlot) | sysDevice (c : CharSlot)
  | attribute
  deriving DecidableEq, Repr

inductive DeviceCreated where
  | null | error | device
  deriving DecidableEq, Repr

/-- What the device is, how the module is loaded, and how the kernel answers. -/
structure Outcomes where
  pollMode : Bool
  lroAlloc : Bool
  enableDevice : Int
  msixCapable : Bool
  msiCapable : Bool
  pciEnableMsix : Int
  pciEnableMsi : Int
  -- the vectors that `pci_enable_msix` fills in; there is no interrupt 0
  vector : Int → Nat
  vector_pos : ∀ i, 0 < vector i
  pciRequestRegions : Int
  barLen : Fin 6 → Nat
  pciIomap : Fin 6 → Bool
  irqIdentifier : Fin 6 → U32
  cfgIdentifier : Fin 6 → U32
  dmaMask64 : Int
  dmaMask32 : Int
  pdevIrq : U32
  requestIrq : Int
  requestUserIrq : Nat → Int
  identifier : EngineSlot → U32
  engineAlloc : EngineSlot → Bool
  requestEngineIrq : EngineSlot → Int
  writebackAlloc : EngineSlot → Bool
  charAlloc : CharSlot → Bool
  -- the first of the 255 numbers; no major number is 0
  allocChrdevRegion : CharSlot → Option U32
  allocChrdevRegion_major : ∀ c n, allocChrdevRegion c = some n → n >>> 20 ≠ 0
  kobjectSetName : CharSlot → Int
  registerChrdevRegion : CharSlot → Int
  cdevAdd : CharSlot → Int
  deviceCreate : CharSlot → DeviceCreated
  deviceCreateFile : Int

structure XdmaEngine where
  msixIrqLine : Nat
  writeback : Bool
  deriving DecidableEq, Repr

structure XdmaDev where
  major : U32
  instanceNo : Nat
  charDev : CharSlot → Option U32
  bar : Fin 6 → Bool
  configBarIdx : Option (Fin 6)
  userBarIdx : Option (Fin 6)
  bypassBarIdx : Option (Fin 6)
  regionsInUse : Bool
  gotRegions : Bool
  irqLine : Int
  msiEnabled : Bool
  msixEnabled : Bool
  irqUserCount : Nat
  entry : Int → Nat
  enginesNum : Int
  engine : EngineSlot → Option XdmaEngine

def allocDevInstance : XdmaDev where
  major := 0
  instanceNo := 0
  charDev := fun _ => none
  bar := fun _ => false
  configBarIdx := none
  userBarIdx := none
  bypassBarIdx := none
  regionsInUse := false
  gotRegions := false
  irqLine := -1
  msiEnabled := false
  msixEnabled := false
  irqUserCount := 0
  entry := fun _ => 0
  enginesNum := 0
  engine := fun _ => none

/-- A device and the variables of the module, with what has been acquired and
released and which elements of `dev_present` the slot search has read. -/
structure ProbeState where
  lro : XdmaDev
  present : Nat → Bool
  major : U32
  slotReads : List Nat
  trace : List (Event Resource)

namespace ProbeState

variable (s : ProbeState)

def acquire (r : Resource) : ProbeState := { s with trace := s.trace ++ [.acquire r] }
def release (r : Resource) : ProbeState := { s with trace := s.trace ++ [.release r] }
def setLro (f : XdmaDev → XdmaDev) : ProbeState := { s with lro := f s.lro }
def mark (i : Nat) (b : Bool) : ProbeState := { s with present := Function.update s.present i b }

def holds (r : Resource) : Option Nat := balance r s.trace

end ProbeState

def probeScanForMsi (o : Outcomes) (s : ProbeState) : Int × ProbeState :=
  if o.msixCapable then
    let s := if o.pciEnableMsix = 0
      then (s.acquire .msix).setLro fun l => { l with entry := o.vector } else s
    -- whatever came of it
    (o.pciEnableMsix,s.setLro fun l => { l with msixEnabled := true })
  else if o.msiCapable then
    let s := if o.pciEnableMsi = 0 then s.acquire .msi else s
    (o.pciEnableMsi,s.setLro fun l => { l with msiEnabled := true })
  else (0,s)

def requestRegions (o : Outcomes) (s : ProbeState) : Int × ProbeState :=
  if o.pciRequestRegions ≠ 0 then
    (o.pciRequestRegions,s.setLro fun l => { l with regionsInUse := true })
  else (0,(s.acquire .regions).setLro fun l => { l with gotRegions := true })

def unmapBar (s : ProbeState) (i : Fin 6) : ProbeState :=
  if s.lro.bar i then
    (s.release (.bar i)).setLro fun l => { l with bar := Function.update l.bar i false }
  else s

def unmapBars (s : ProbeState) : ProbeState := (List.finRange 6).foldl unmapBar s

def mapSingleBar (o : Outcomes) (i : Fin 6) (s : ProbeState) : Int × ProbeState :=
  let s := s.setLro fun l => { l with bar := Function.update l.bar i false }
  -- not present
  if o.barLen i = 0 then (0,s) else
    let mapLen : Nat := if o.barLen i > intMax then intMax else o.barLen i
    if o.pciIomap i then
      (mapLen,(s.acquire (.bar i)).setLro fun l => { l with bar := Function.update l.bar i true })
    else (-1,s)

def isConfigBar (o : Outcomes) (i : Fin 6) : Bool :=
  let mask : U32 := 0xffff0000
  o.irqIdentifier i &&& mask = irqBlockId && o.cfgIdentifier i &&& mask = configBlockId

structure BarScan where
  state : ProbeState
  barIdList : List (Fin 6)
  configBarPos : Nat

def scanBar (o : Outcomes) (i : Fin 6) (m : BarScan) : Int × BarScan :=
  let (barLen,s) := mapSingleBar o i m.state
  if barLen = 0 then (0,{ m with state := s })
  else if barLen < 0 then (-1,{ m with state := s })
  else
    let m := if barLen ≥ xdmaBarSize ∧ s.lro.configBarIdx = none ∧ isConfigBar o i then
        { m with
          state := s.setLro fun l => { l with configBarIdx := some i }
          configBarPos := m.barIdList.length }
      else { m with state := s }
    (0,{ m with barIdList := m.barIdList ++ [i] })

def identifyBars (barIdList : List (Fin 6)) (configBarPos : Nat) (l : XdmaDev) : XdmaDev :=
  match barIdList with
  | [b₀,b₁] =>
    if configBarPos = 0 then { l with bypassBarIdx := some b₁ }
    else if configBarPos = 1 then { l with userBarIdx := some b₀ } else l
  | [b₀,_,b₂] =>
    if configBarPos = 1 then { l with userBarIdx := some b₀, bypassBarIdx := some b₂ } else l
  | _ => l

def mapBars (o : Outcomes) (s : ProbeState) : Int × ProbeState :=
  let (rc,m) := tryEach (scanBar o) (List.finRange 6) ⟨s,[],0⟩
  if rc ≠ 0 then (rc,unmapBars m.state)
  else if m.state.lro.configBarIdx = none then (-1,unmapBars m.state)
  else (0,m.state.setLro (identifyBars m.barIdList m.configBarPos))

def setDmaMask (o : Outcomes) : Int :=
  if o.dmaMask64 = 0 then 0 else if o.dmaMask32 = 0 then 0 else -1

def requestUserIrq (o : Outcomes) (i : Nat) (s : ProbeState) : Int × ProbeState :=
  if o.requestUserIrq i ≠ 0 then (o.requestUserIrq i,s) else (0,s.acquire (.userIrq i))

def firstRefused (o : Outcomes) : Nat :=
  (List.range maxUserIrq).findIdx fun i => o.requestUserIrq i ≠ 0

def msixIrqSetup (o : Outcomes) (s : ProbeState) : Int × ProbeState :=
  let (rc,s) := tryEach (requestUserIrq o) (List.range maxUserIrq) s
  if rc ≠ 0 then
    -- `while (--i >= 0)`
    (-1,(List.range (firstRefused o)).reverse.foldl (fun s i => s.release (.userIrq i)) s)
  else (0,s.setLro fun l => { l with irqUserCount := maxUserIrq })

def irqTeardown (s : ProbeState) : ProbeState :=
  if s.lro.msixEnabled then
    (List.range s.lro.irqUserCount).foldl (fun s i => s.release (.userIrq i)) s
  else if s.lro.irqLine ≠ -1 then s.release .irq
  else s

def irqSetup (o : Outcomes) (s : ProbeState) : Int × ProbeState :=
  if s.lro.msixEnabled then msixIrqSetup o s else
    let s := s.setLro fun l => { l with irqLine := o.pdevIrq.toInt }
    if o.requestIrq ≠ 0 then (o.requestIrq,s) else (0,s.acquire .irq)

def getEngineId (identifier : U32) : U32 := (identifier &&& 0xffff0000) >>> 16
def getEngineChannelId (identifier : U32) : U32 := (identifier &&& 0x00000f00) >>> 8

/-- The engine is there: the identifier of the slot's registers names it. -/
def enginePresent (o : Outcomes) (e : EngineSlot) : Bool :=
  getEngineId (o.identifier e) = (if e.fromDev then xdmaIdC2h else xdmaIdH2c) &&
    getEngineChannelId (o.identifier e) = BitVec.ofNat 32 e.channel.val

def engineMsixTeardown (e : EngineSlot) (eng : XdmaEngine) (s : ProbeState) : ProbeState :=
  if eng.msixIrqLine ≠ 0 then s.release (.engineIrq e) else s

def engineMsixSetup (o : Outcomes) (e : EngineSlot) (s : ProbeState) :
    Int × XdmaEngine × ProbeState :=
  let eng : XdmaEngine := ⟨0,false⟩
  let vector := s.lro.entry (s.lro.enginesNum+maxUserIrq)
  if o.requestEngineIrq e ≠ 0 then (o.requestEngineIrq e,eng,s)
  else (0,{ eng with msixIrqLine := vector },s.acquire (.engineIrq e))

def engineCreate (o : Outcomes) (e : EngineSlot) (s : ProbeState) :
    Option XdmaEngine × ProbeState :=
  if !o.engineAlloc e then (none,s) else
    let s := s.acquire (.engine e)
    let (rc,eng,s) := if s.lro.msixEnabled then engineMsixSetup o e s else (0,⟨0,false⟩,s)
    if rc ≠ 0 then (none,s.release (.engine e)) else
      let s := s.setLro fun l => { l with enginesNum := l.enginesNum+1 }
      if o.pollMode then
        if o.writebackAlloc e then (some { eng with writeback := true },s.acquire (.writeback e))
        else (none,(engineMsixTeardown e eng s).release (.engine e))
      else (some eng,s)

def engineDestroy (o : Outcomes) (e : EngineSlot) (eng : XdmaEngine) (s : ProbeState) :
    ProbeState :=
  let s := engineMsixTeardown e eng s
  let s := if o.pollMode && eng.writeback then s.release (.writeback e) else s
  (s.release (.engine e)).setLro fun l => { l with enginesNum := l.enginesNum-1 }

def engineSlots : List EngineSlot := (List.finRange 4).flatMap fun c => [⟨c,false⟩,⟨c,true⟩]

/-- The pointers stay. -/
def removeEngines (o : Outcomes) (s : ProbeState) : ProbeState :=
  engineSlots.foldl (fun s e => match s.lro.engine e with
    | some eng => engineDestroy o e eng s
    | none => s) s

def probeForEngine (o : Outcomes) (fromDev : Bool) (channel : Fin 4) (s : ProbeState) :
    Int × ProbeState :=
  let e : EngineSlot := ⟨channel,fromDev⟩
  if !enginePresent o e then (0,s) else
    let (eng,s) := engineCreate o e s
    let s := s.setLro fun l => { l with engine := Function.update l.engine e eng }
    (if eng.isSome then 0 else -1,s)

def probeEngines (o : Outcomes) (s : ProbeState) : Int × ProbeState :=
  let (rc,s) := tryEach (probeForEngine o false) (List.finRange 4) s
  if rc ≠ 0 then (-1,removeEngines o s)
  -- what comes of the other direction is not looked at
  else (0,(tryEach (probeForEngine o true) (List.finRange 4) s).2)

def mkdev (major minor : U32) : U32 := major <<< 20 ||| minor

def genDevMinor : CharSlot → U32
  | .user => 0
  | .ctrl => 1
  | .events i => 10 + BitVec.ofNat 32 i.val
  | .sgdma e => 32 + (if e.fromDev then 4 else 0) + BitVec.ofNat 32 e.channel.val
  | .bypass e => 64 + (if e.fromDev then 4 else 0) + BitVec.ofNat 32 e.channel.val
  | .bypassBase => 100

def genDevMajor (o : Outcomes) (c : CharSlot) (s : ProbeState) : U32 × ProbeState :=
  if s.major = 0 then
    match o.allocChrdevRegion c with
    | some n => (n >>> 20,s.acquire (.numbers n xdmaMinorCount))
    -- `cdevno` is still what `kzalloc` made it
    | none => (0,s)
  else (s.major,{ s with major := s.major-1 })

/-- `while ((dev_present[i] == 1) && (i < MAX_XDMA_DEVICES)) i++`. -/
def slotSearch (present : Nat → Bool) : Nat :=
  whileLoop (fun i => present i && decide (i < maxXdmaDevices)) (· + 1) maxXdmaDevices 0

/-- The instance number and the major number, taken by the first device created;
false if there is no instance left. -/
def newInstance (o : Outcomes) (c : CharSlot) (s : ProbeState) : Bool × ProbeState :=
  if s.lro.major ≠ 0 then (true,s) else
    let i := slotSearch s.present
    -- the condition reads an element before it looks at the index
    let s := { s with slotReads := s.slotReads ++ List.range (i+1) }
    if i = maxXdmaDevices then (false,s) else
      let s := ((s.mark i true).acquire (.slot i)).setLro fun l => { l with instanceNo := i }
      let (m,s) := genDevMajor o c s
      (true,s.setLro fun l => { l with major := m })

def registerChar (o : Outcomes) (c : CharSlot) (cdevno : U32) (s : ProbeState) :
    Option U32 × ProbeState :=
  if o.kobjectSetName c ≠ 0 then (none,s.release (.char c))
  else if s.major ≠ 0 ∧ o.registerChrdevRegion c < 0 then (none,s.release (.char c))
  else
    let s := if s.major ≠ 0 then s.acquire (.numbers cdevno 1) else s
    if o.cdevAdd c < 0 then
      (none,(s.release (.numbers cdevno xdmaMinorCount)).release (.char c))
    else
      let s := s.acquire (.cdev c)
      match o.deviceCreate c with
      | .null =>
        (none,((s.release (.cdev c)).release (.numbers cdevno xdmaMinorCount)).release (.char c))
      -- an `ERR_PTR` passes for a device
      | .error => (some cdevno,s)
      | .device => (some cdevno,s.acquire (.sysDevice c))

def createSgChar (o : Outcomes) (c : CharSlot) (s : ProbeState) : Option U32 × ProbeState :=
  if !o.charAlloc c then (none,s) else
    let (found,s) := newInstance o c (s.acquire (.char c))
    if !found then (none,s.release (.char c))
    else registerChar o c (mkdev s.lro.major (genDevMinor c)) s

def destroySgChar (c : CharSlot) (cdevno : U32) (s : ProbeState) : ProbeState :=
  (((s.release (.sysDevice c)).release (.cdev c)).release (.numbers cdevno 1)).release (.char c)

/-- Whether `create_interfaces` fails when this device cannot be created: for the
events it tests the array instead of its element, for the base nothing. -/
def CharSlot.required : CharSlot → Bool
  | .events _ => false
  | .bypassBase => false
  | _ => true

def interfaces (l : XdmaDev) : List CharSlot :=
  let channels (fromDev : Bool) : List EngineSlot :=
    (((List.finRange 4).map fun c => ⟨c,fromDev⟩).filter fun e => (l.engine e).isSome)
  (if l.userBarIdx.isSome then [.user] else []) ++ [.ctrl] ++ (List.finRange 16).map .events ++
    (channels false).map .sgdma ++ (channels true).map .sgdma ++
    if l.bypassBarIdx.isSome then
      (channels false).map .bypass ++ (channels true).map .bypass ++ [.bypassBase]
    else []

def createInterface (o : Outcomes) (c : CharSlot) (s : ProbeState) : Int × ProbeState :=
  let (cdev,s) := createSgChar o c s
  let s := s.setLro fun l => { l with charDev := Function.update l.charDev c cdev }
  (if c.required && cdev.isNone then -1 else 0,s)

def charSlots : List CharSlot :=
  ((List.finRange 4).flatMap fun c => [.sgdma ⟨c,false⟩,.sgdma ⟨c,true⟩,
      .bypass ⟨c,false⟩,.bypass ⟨c,true⟩]) ++
    [.bypassBase] ++ (List.finRange 16).map .events ++ [.ctrl,.user]

def destroyInterfaces (s : ProbeState) : ProbeState :=
  charSlots.foldl (fun s c => match s.lro.charDev c with
    | some cdevno => destroySgChar c cdevno s
    | none => s) s

def createInterfaces (o : Outcomes) (s : ProbeState) : Int × ProbeState :=
  let (rc,s) := tryEach (createInterface o) (interfaces s.lro) s
  if rc ≠ 0 then (-1,destroyInterfaces s) else (0,s)

/-! The labels at the end of `probe`, each with all that is below it. -/

def freeAlloc (s : ProbeState) : ProbeState := s.release .lro

def disableMsi (s : ProbeState) : ProbeState :=
  let s := if s.lro.msixEnabled then
      (s.release .msix).setLro fun l => { l with msixEnabled := false }
    else if s.lro.msiEnabled then
      (s.release .msi).setLro fun l => { l with msiEnabled := false }
    else s
  freeAlloc (if s.lro.regionsInUse then s else s.release .device)

def relRegion (s : ProbeState) : ProbeState :=
  disableMsi (if s.lro.gotRegions then
      (s.release .regions).setLro fun l => { l with gotRegions := false }
    else s)

def unmapBarLabel (s : ProbeState) : ProbeState := relRegion (unmapBars s)

def disableIrq (s : ProbeState) : ProbeState := unmapBarLabel (irqTeardown s)

def rmvEngine (o : Outcomes) (s : ProbeState) : ProbeState := disableIrq (removeEngines o s)

def rmvInterface (o : Outcomes) (s : ProbeState) : ProbeState :=
  rmvEngine o (destroyInterfaces s)

def rmvCdev (o : Outcomes) (s : ProbeState) : ProbeState :=
  rmvInterface o (((s.mark s.lro.instanceNo false).release (.slot s.lro.instanceNo)).release
    .attribute)

def probeDevices (o : Outcomes) (s : ProbeState) : Int × ProbeState :=
  let (rc,s) := probeEngines o s
  if rc ≠ 0 then (-1,rmvEngine o s) else
    let (rc,s) := createInterfaces o s
    if rc ≠ 0 then (-1,rmvInterface o s) else
      if o.deviceCreateFile ≠ 0 then (-1,rmvCdev o s) else (0,s.acquire .attribute)

def probeRegions (o : Outcomes) (s : ProbeState) : Int × ProbeState :=
  let (rc,s) := requestRegions o s
  if rc ≠ 0 then (-1,relRegion s) else
    let (rc,s) := mapBars o s
    if rc ≠ 0 then (-1,unmapBarLabel s) else
      if setDmaMask o ≠ 0 then (-1,unmapBarLabel s) else
        let (rc,s) := irqSetup o s
        if rc ≠ 0 then (-1,disableIrq s) else probeDevices o s

def probeStart (present : Nat → Bool) (major : U32) : ProbeState :=
  ⟨allocDevInstance,present,major,[],[]⟩

def probe (o : Outcomes) (present : Nat → Bool) (major : U32) : Int × ProbeState :=
  let s := probeStart present major
  if !o.lroAlloc then (-eNoMem,s) else
    let s := s.acquire .lro
    if o.enableDevice ≠ 0 then (-1,freeAlloc s) else
      let s := s.acquire .device
      let (rc,s) := probeScanForMsi o s
      if rc < 0 then (-1,disableMsi s) else probeRegions o s

end DmaCamera.Probe
