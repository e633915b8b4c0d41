import Mathlib.Data.BitVec
set_option autoImplicit false

namespace DmaCamera

abbrev Byte := BitVec 8
abbrev U32 := BitVec 32
abbrev U64 := BitVec 64

inductive BugSite where
  | engineStart | engineServiceTransferList | engineServiceFinalTransfer
  | engineTransferDequeue | engineRingProcess | transferQueue
  | sgmGetUserPages | sgmKernelPages
  | xdmaDescAlloc | transferBuild | transferCreate
  | sgAioReadWrite | xdmaPerformanceSubmit
  deriving DecidableEq, Repr

/-- A call that does not come back: a `BUG_ON` that fired, a null pointer that
was followed, an array element written past the end of its allocation, or a loop
that never ends. -/
inductive Fault where
  | bug (site : BugSite)
  | nullPointer
  | outOfBounds
  | endless
  deriving DecidableEq, Repr

def xdmaCtrlRunStop : U32 := 1 <<< 0
def xdmaCtrlIeDescStopped : U32 := 1 <<< 1
def xdmaCtrlIeDescCompleted : U32 := 1 <<< 2
def xdmaCtrlIeDescAlignMismatch : U32 := 1 <<< 3
def xdmaCtrlIeMagicStopped : U32 := 1 <<< 4
def xdmaCtrlIeIdleStopped : U32 := 1 <<< 6
def xdmaCtrlIeReadError : U32 := 0x1F <<< 9
def xdmaCtrlIeDescError : U32 := 0x1F <<< 19
def xdmaCtrlNonIncrAddr : U32 := 1 <<< 25
def xdmaCtrlPollModeWb : U32 := 1 <<< 26

def xdmaStatBusy : U32 := 1 <<< 0
def xdmaStatDescStopped : U32 := 1 <<< 1
def xdmaStatDescCompleted : U32 := 1 <<< 2
def xdmaStatAlignMismatch : U32 := 1 <<< 3
def xdmaStatMagicStopped : U32 := 1 <<< 4
def xdmaStatReadError : U32 := 0x1F <<< 9
def xdmaStatDescError : U32 := 0x1F <<< 19

def xdmaDescStopped : U32 := 1 <<< 0
def xdmaDescCompleted : U32 := 1 <<< 1
def xdmaDescEop : U32 := 1 <<< 4

def descMagic : U32 := 0xAD4B0000
def lsByteMask : U32 := 0x000000FF
def maxExtraAdj : Nat := 15

def wbCountMask : U32 := 0x00ffffff
def wbErrMask : U32 := 1 <<< 31

def xdmaTransferMaxBytes : Nat := 2048 * 4096
def xdmaDescMaxBytes : Nat := (1 <<< 18) - 1
def pageSize : Nat := 4096

def engineShutdownNone : U32 := 0
def engineShutdownRequest : U32 := 1
def engineShutdownIdle : U32 := 2

def rxBufBlock : Nat := 4096
def rxBufPages : Nat := 256
def rxStatusEop : U32 := 1

def c2hWb : U32 := 0x52B4

def eRestartSys : Int := 512
def eIo : Int := 5
def eInval : Int := 22
def eNoMem : Int := 12
def eNoDev : Int := 19
def eAgain : Int := 11
def eFault : Int := 14
def eBusy : Int := 16
def eProto : Int := 71

def U32.has (w mask : U32) : Bool := w &&& mask != 0

/-- The flags that `engine_service_final_transfer` collects into `err_flags`. -/
def errFlags : U32 :=
  xdmaStatMagicStopped ||| xdmaStatAlignMismatch ||| xdmaStatReadError ||| xdmaStatDescError

def pciDmaL (addr : U64) : U32 := (addr &&& 0xffffffff).setWidth 32

/-- The high half, `PCI_DMA_H`: two shifts by 16, as a shift by 32 is undefined
for a 32-bit address type. -/
def pciDmaH (addr : U64) : U32 := ((addr >>> 16) >>> 16).setWidth 32

def joinAddr (hi lo : U32) : U64 := hi ++ lo

theorem joinAddr_toNat (hi lo : U32) :
    (joinAddr hi lo).toNat = hi.toNat * 2^32 + lo.toNat := by
  have hl := lo.isLt
  rw [joinAddr, BitVec.toNat_append, Nat.shiftLeft_eq, Nat.mul_comm,
    ← Nat.two_pow_add_eq_or_of_lt hl]

theorem pciDmaL_toNat (addr : U64) : (pciDmaL addr).toNat = addr.toNat % 2^32 := by
  have h : (0xffffffff : U64).toNat = 2^32 - 1 := by decide
  rw [pciDmaL, BitVec.toNat_setWidth, BitVec.toNat_and, h, Nat.and_two_pow_sub_one_eq_mod,
    Nat.mod_mod]

theorem pciDmaH_toNat (addr : U64) : (pciDmaH addr).toNat = addr.toNat / 2^32 := by
  have h := addr.isLt
  simp only [pciDmaH, BitVec.toNat_setWidth, BitVec.toNat_ushiftRight, Nat.shiftRight_eq_div_pow]
  omega

@[simp] theorem joinAddr_pciDma (addr : U64) : joinAddr (pciDmaH addr) (pciDmaL addr) = addr := by
  apply BitVec.eq_of_toNat_eq
  rw [joinAddr_toNat, pciDmaL_toNat, pciDmaH_toNat]
  omega

end DmaCamera
