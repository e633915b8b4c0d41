import DmaCamera.McapDelivery
import DmaCamera.DownloadResult
set_option autoImplicit false

namespace DmaCamera
open Calls Readers

variable {env : BitEnv} {s t : BitDev}

def Harmless {α : Type} (p : BitCall α) : Prop := ∀ s, Ends p s (fun _ t => Spares s t) fun _ _ => False

theorem Harmless.bind {α β : Type} {p : BitCall α} {f : α → BitCall β} (hp : Harmless p)
    (hf : ∀ a, Harmless (f a)) : Harmless (p >>= f) := by
  intro s
  rw [ends_bind]
  exact (hp s).mono (fun a t h => (hf a t).mono (fun _ u h' => h.trans h') fun _ _ h' => h')
    fun _ _ h => h

theorem harmless_pure {α : Type} (a : α) : Harmless (pure a) := Spares.refl

theorem harmless_read (offset : Nat) : Harmless (readRegister env offset) := fun _ => ⟨rfl,rfl⟩

theorem harmless_write (value : U32) (offset : Nat) : Harmless (writeRegister value offset) :=
  fun _ => ⟨rfl,rfl⟩

theorem harmless_ite {α : Type} {c : Prop} [Decidable c] {p q : BitCall α} (hp : Harmless p)
    (hq : Harmless q) : Harmless (if c then p else q) := by
  split
  · exact hp
  · exact hq

theorem busyUnits_harmless (n i : Nat) : Harmless (busyUnits env n i) := by
  induction n generalizing i with
  | zero => exact harmless_pure 0
  | succ n ih =>
    exact (harmless_read _).bind fun r => (ih (i+1)).bind fun rest => harmless_pure _

theorem computeUnitBusy_harmless : Harmless (computeUnitBusy env) :=
  (harmless_read _).bind fun _ => harmless_ite (harmless_pure 0) (busyUnits_harmless 16 0)

theorem getOclFrequency_harmless : Harmless (getOclFrequency env) :=
  (harmless_read _).bind fun _ => harmless_ite (harmless_pure 0) <|
    (harmless_read _).bind fun _ => (harmless_read _).bind fun _ =>
      harmless_ite (harmless_pure 0) (harmless_pure _)

theorem lastStatus_harmless (n : Nat) (val : U32) : Harmless (lastStatus env n val) := by
  induction n generalizing val with
  | zero => exact harmless_pure val
  | succ n ih => exact (harmless_read _).bind fun val => ih val

theorem programClock_harmless (entry : XdmaOclClockwiz) : Harmless (programClock env entry) := by
  have hlast := @lastStatus_harmless env lockReads 1
  unfold programClock
  refine (harmless_write _ _).bind fun _ => (harmless_write _ _).bind fun _ =>
    (harmless_write _ _).bind fun _ => (harmless_write _ _).bind fun _ => hlast.bind fun _ => ?_
  exact harmless_ite
    ((harmless_write _ _).bind fun _ => (harmless_write _ _).bind fun _ => harmless_pure _)
    (harmless_pure 0)

def Returns (p : BitCall Int) (s : BitDev) : Prop :=
  Ends p s (fun _ t => t.axiGateFrozen = false ∧ t.control = s.control) fun _ _ => False

theorem Returns.after {α : Type} {p : BitCall α} {f : α → BitCall Int} (hp : Harmless p)
    (hunfrozen : s.axiGateFrozen = false)
    (hf : ∀ a t, t.axiGateFrozen = false → Returns (f a) t) : Returns (p >>= f) s := by
  rw [Returns, ends_bind]
  refine (hp s).mono (fun a t h => ?_) fun _ _ h => h
  exact (hf a t (h.gate.trans hunfrozen)).mono (fun _ u h' => ⟨h'.1,h'.2.trans h.control⟩)
    fun _ _ h' => h'

theorem Harmless.returns {p : BitCall Int} (hp : Harmless p) (hunfrozen : s.axiGateFrozen = false) :
    Returns p s :=
  (hp s).mono (fun _ _ h => ⟨h.gate.trans hunfrozen,h.control⟩) fun _ _ h => h

theorem returns_frozen {α : Type} {p : BitCall α} {f : α → BitCall Int} (hp : Harmless p)
    (hf : ∀ a t, t.axiGateFrozen = false → Returns (f a) t) (hunfrozen : s.axiGateFrozen = false) :
    Returns (freezeAXIGate env >>= fun _ => p >>= fun a => freeAXIGate env >>= fun _ => f a) s := by
  rw [Returns, ends_bind]
  refine freezeAXIGate_ends.mono (fun _ t h => ?_) fun e t h => ?_
  · rw [ends_bind]
    refine (hp t).mono (fun a u h' => ?_) fun _ _ h' => h'
    rw [ends_bind]
    refine freeAXIGate_ends.mono (fun _ v hv => ?_) fun e v hv => ?_
    · exact (hf a v hv.2.gate).mono (fun _ w hw => ⟨hw.1,hw.2.trans (hv.2.control.trans
        (h'.control.trans h.2.1.control))⟩) fun _ _ hw => hw
    · have hgate := h'.gate.trans h.2.1.gate
      rw [hv.1] at hgate
      cases hgate
  · rw [h.1] at hunfrozen
    cases hunfrozen

theorem resetOclIoctl_returns (hunfrozen : s.axiGateFrozen = false) : Returns (resetOclIoctl env) s := by
  refine Returns.after computeUnitBusy_harmless hunfrozen fun busy t ht => ?_
  split
  · exact (harmless_pure 0).returns ht
  · have hlast (a : Unit) (u : BitDev) (hu : u.axiGateFrozen = false) : Returns
        (computeUnitBusy env >>= fun busy => if busy = 0 then pure 0 else pure (-eBusy)) u :=
      (computeUnitBusy_harmless.bind fun _ =>
        harmless_ite (harmless_pure 0) (harmless_pure _)).returns hu
    have hfrozen := @returns_frozen env t Unit _ _ (harmless_pure ()) hlast ht
    simp only [pure_bind] at hfrozen
    exact hfrozen

theorem scaleFrequency_returns (entry : XdmaOclClockwiz) (hunfrozen : s.axiGateFrozen = false) :
    Returns (scaleFrequency env entry) s := by
  have hshape : scaleFrequency env entry = freezeAXIGate env >>= fun _ =>
      (writeFrequency env entry >>= fun err => getOclFrequency env >>= fun _ => pure err) >>=
        fun err => freeAXIGate env >>= fun _ => pure err := by
    simp only [scaleFrequency, bind_assoc, pure_bind]
  have hwrite : Harmless (writeFrequency env entry) :=
    (harmless_read _).bind fun _ => (harmless_read _).bind fun _ => (harmless_read _).bind fun _ =>
      harmless_ite (harmless_pure _) (programClock_harmless entry)
  rw [hshape]
  exact returns_frozen (hwrite.bind fun _ => getOclFrequency_harmless.bind fun _ => harmless_pure _)
    (fun err t ht => (harmless_pure err).returns ht) hunfrozen

theorem oclFreqscalingIoctl_returns (hunfrozen : s.axiGateFrozen = false) :
    Returns (oclFreqscalingIoctl env) s := by
  unfold oclFreqscalingIoctl
  cases env.copyFreqScaling with
  | none => exact (harmless_pure _).returns hunfrozen
  | some freq =>
    refine Returns.after (harmless_read _) hunfrozen fun val t ht => ?_
    split
    · exact (harmless_pure _).returns ht
    refine Returns.after computeUnitBusy_harmless ht fun busy u hu => ?_
    split
    · exact (harmless_pure _).returns hu
    split
    · exact (harmless_pure _).returns hu
    exact Returns.after getOclFrequency_harmless hu fun _ v hv => scaleFrequency_returns _ hv

structure Downloads (env : BitEnv) (buffer : U64) (binObj : XclBin) : Prop where
  userCharDev : env.userCharDev = true
  accessOkArg : env.accessOkArg = true
  magic : env.copyBase = some xdmaXclMagic
  address : env.copyBitstreamObj = some buffer
  container : env.copyBinObj = some binObj
  checks : bitstreamIoctlChecks env.accessOk buffer binObj = .ok ()

def DownloadDies (env : BitEnv) (s : BitDev) (cmd : CtrlCmd) (bitBuf length : U64) : Prop :=
  match cmd with
  | .icapDownload => IcapDies env bitBuf s
  | .mcapDownload => ¬ (bitBuf = 0 ∨ length = 0) ∧ McapDies env bitBuf length s (s.time+2)
  | _ => False

def CtrlDies (env : BitEnv) (cmd : CtrlCmd) (s : BitDev) : Prop :=
  ∃ buffer binObj, Downloads env buffer binObj ∧
    DownloadDies env s cmd (buffer+binObj.primaryFirmwareOffset) binObj.primaryFirmwareLength

structure Safely (s t : BitDev) : Prop where
  gate : t.axiGateFrozen = false
  control : t.control = s.control

structure DiesFrozen (e : BitFault) (t : BitDev) : Prop where
  gate : t.axiGateFrozen = true
  freeze : e ≠ .gateFrozen
  free : e ≠ .gateNotFrozen

theorem bitstreamDownload_ends {cmd : CtrlCmd} {bitBuf length : U64} {download : BitCall Int}
    (hunfrozen : s.axiGateFrozen = false)
    (hdownload : bitstreamDownload env cmd bitBuf length = some download) :
    Ends download s (fun _ t => Safely s t ∧ ¬ DownloadDies env s cmd bitBuf length)
      (fun e t => DiesFrozen e t ∧ DownloadDies env s cmd bitBuf length) := by
  cases cmd with
  | icapDownload =>
    cases hdownload
    refine (bitstreamIoctlIcap_ends bitBuf length).mono (fun rc t h => ?_) fun e t h => ?_
    · obtain ⟨_,_,_,_,_,hfree,_⟩ := h.steps
      exact ⟨⟨hfree.gate,h.control⟩,h.lives⟩
    · have hfault := h.fault
      rw [if_neg (by simp [hunfrozen])] at hfault
      exact ⟨⟨h.frozen,hfault.2.1,hfault.2.2⟩,hfault.1⟩
  | mcapDownload =>
    cases hdownload
    refine (bitstreamIoctlMcap_ends bitBuf length).mono (fun rc t h => ?_) fun e t h => ?_
    · obtain ⟨hcontrol,hnull,hdone⟩ := h
      by_cases hzero : bitBuf = 0 ∨ length = 0
      · exact ⟨⟨(hnull hzero).trans hunfrozen,hcontrol⟩,fun hd => hd.1 hzero⟩
      · exact ⟨⟨(hdone hzero).2.1,hcontrol⟩,fun hd => (hdone hzero).2.2 hd.2⟩
    · obtain ⟨hnull,hfrozen,hfault⟩ := h
      rw [if_neg (by simp [hunfrozen])] at hfault
      exact ⟨⟨hfrozen,hfault.2.1,hfault.2.2⟩,hnull,hfault.1⟩
  | freqScaling => cases hdownload
  | oclReset => cases hdownload

theorem copySecondaryFirmware_safely (buffer : U64) (binObj : XclBin) (h : Safely s t) :
    Ends (copySecondaryFirmware env buffer binObj) t (fun _ u => Safely s u) fun _ _ => False :=
  (copySecondaryFirmware_ends buffer binObj).mono
    (fun _ _ h' => ⟨h'.2.2.gate.trans h.gate,h'.2.2.control.trans h.control⟩) fun _ _ h => h

theorem Downloads.unique {b b' : U64} {x x' : XclBin} (h : Downloads env b x)
    (h' : Downloads env b' x') : b = b' ∧ x = x' := by
  have hb := h.address
  have hx := h.container
  rw [h'.address] at hb
  rw [h'.container] at hx
  cases hb
  cases hx
  exact ⟨rfl,rfl⟩

theorem bitstreamIoctl_ends {cmd : CtrlCmd} (hunfrozen : s.axiGateFrozen = false)
    (huser : env.userCharDev = true) (haccess : env.accessOkArg = true)
    (hmagic : env.copyBase = some xdmaXclMagic) : Ends (bitstreamIoctl env cmd) s
      (fun _ t => Safely s t ∧ ¬ CtrlDies env cmd s)
      (fun e t => DiesFrozen e t ∧ CtrlDies env cmd s) := by
  -- where no download is reached, nothing happens
  have hnone (err : Int) (hdownloads : ∀ b x, ¬ Downloads env b x) :
      Ends (pure err : BitCall Int) s (fun _ t => Safely s t ∧ ¬ CtrlDies env cmd s)
        (fun e t => DiesFrozen e t ∧ CtrlDies env cmd s) :=
    ⟨⟨hunfrozen,rfl⟩,fun ⟨b,x,h,_⟩ => hdownloads b x h⟩
  unfold bitstreamIoctl
  cases hbuffer : env.copyBitstreamObj with
  | none =>
    refine hnone _ fun b x h => ?_
    have := h.address
    rw [hbuffer] at this
    cases this
  | some buffer =>
    cases hbinObj : env.copyBinObj with
    | none =>
      refine hnone _ fun b x h => ?_
      have := h.container
      rw [hbinObj] at this
      cases this
    | some binObj =>
      dsimp only
      cases hchecks : bitstreamIoctlChecks env.accessOk buffer binObj with
      | error err =>
        refine hnone _ fun b x h => ?_
        have hb := h.address
        have hx := h.container
        rw [hbuffer] at hb
        rw [hbinObj] at hx
        cases hb
        cases hx
        have := h.checks
        rw [hchecks] at this
        cases this
      | ok _ =>
        have hdownloads : Downloads env buffer binObj :=
          ⟨huser,haccess,hmagic,hbuffer,hbinObj,hchecks⟩
        have hdies : CtrlDies env cmd s ↔ DownloadDies env s cmd
            (buffer+binObj.primaryFirmwareOffset) binObj.primaryFirmwareLength := by
          constructor
          · rintro ⟨b,x,h,hd⟩
            obtain ⟨rfl,rfl⟩ := h.unique hdownloads
            exact hd
          · exact fun hd => ⟨buffer,binObj,hdownloads,hd⟩
        rw [hdies]
        dsimp only
        cases hdownload : bitstreamDownload env cmd (buffer+binObj.primaryFirmwareOffset)
            binObj.primaryFirmwareLength with
        | none =>
          refine ⟨⟨hunfrozen,rfl⟩,fun hd => ?_⟩
          cases cmd with
          | icapDownload => cases hdownload
          | mcapDownload => cases hdownload
          | freqScaling => exact hd
          | oclReset => exact hd
        | some download =>
          dsimp only
          rw [ends_bind]
          refine (bitstreamDownload_ends hunfrozen hdownload).mono (fun err t h => ?_) fun _ _ h => h
          rw [ends_ite]
          split
          · exact (copySecondaryFirmware_safely buffer binObj h.1).mono
              (fun _ _ h' => ⟨h',h.2⟩) fun _ _ h' => h'.elim
          · exact h

/-- An ioctl that starts with the gate free returns with it free and the port as before, or it
dies with the gate frozen. -/
theorem charCtrlIoctl_ends {cmd : CtrlCmd} (hunfrozen : s.axiGateFrozen = false) :
    Ends (charCtrlIoctl env cmd) s (fun _ t => Safely s t ∧ ¬ CtrlDies env cmd s)
      (fun e t => DiesFrozen e t ∧ CtrlDies env cmd s) := by
  have hnone (err : Int) (hdownloads : ∀ b x, ¬ Downloads env b x) :
      Ends (pure err : BitCall Int) s (fun _ t => Safely s t ∧ ¬ CtrlDies env cmd s)
        (fun e t => DiesFrozen e t ∧ CtrlDies env cmd s) :=
    ⟨⟨hunfrozen,rfl⟩,fun ⟨b,x,h,_⟩ => hdownloads b x h⟩
  unfold charCtrlIoctl
  split
  · rename_i huser
    refine hnone _ fun b x h => ?_
    rw [h.userCharDev] at huser
    cases huser
  rename_i huser
  split
  · rename_i haccess
    refine hnone _ fun b x h => ?_
    rw [h.accessOkArg] at haccess
    cases haccess
  rename_i haccess
  rw [Bool.not_eq_false] at huser haccess
  cases hbase : env.copyBase with
  | none =>
    refine hnone _ fun b x h => ?_
    have := h.magic
    rw [hbase] at this
    cases this
  | some magic =>
    dsimp only
    split
    · rename_i hne
      refine hnone _ fun b x h => ?_
      have hmagic := h.magic
      rw [hbase, Option.some.injEq] at hmagic
      exact hne hmagic
    rename_i hmagic
    rw [not_not] at hmagic
    have hbase' : env.copyBase = some xdmaXclMagic := by rw [hbase, hmagic]
    cases cmd with
    | icapDownload => exact bitstreamIoctl_ends hunfrozen huser haccess hbase'
    | mcapDownload => exact bitstreamIoctl_ends hunfrozen huser haccess hbase'
    | oclReset =>
      exact (resetOclIoctl_returns hunfrozen).mono
        (fun _ _ h => ⟨⟨h.1,h.2⟩,fun ⟨_,_,_,hd⟩ => hd⟩) fun _ _ h => h.elim
    | freqScaling =>
      exact (oclFreqscalingIoctl_returns hunfrozen).mono
        (fun _ _ h => ⟨⟨h.1,h.2⟩,fun ⟨_,_,_,hd⟩ => hd⟩) fun _ _ h => h.elim

structure CtrlCall where
  cmd : CtrlCmd
  env : BitEnv

def CtrlCall.outcome (call : CtrlCall) (s : BitDev) : Except BitFault Int × BitDev :=
  (charCtrlIoctl call.env call.cmd).outcome s

/-- The gate is free between the calls, none of them dies in the checks of the gate, and downloads
through the MCAP leave the control register as it was. -/
def GateKept : BitDev → List CtrlCall → Prop
  | s, [] => s.axiGateFrozen = false
  | s, call :: rest => s.axiGateFrozen = false ∧ (call.outcome s).1 ≠ .error .gateFrozen ∧
      (call.outcome s).1 ≠ .error .gateNotFrozen ∧
      (call.cmd = .mcapDownload → (call.outcome s).2.control = s.control) ∧
      GateKept (call.outcome s).2 rest

def AllLive : BitDev → List CtrlCall → Prop
  | _, [] => True
  | s, call :: rest => ¬ CtrlDies call.env call.cmd s ∧ AllLive (call.outcome s).2 rest

theorem GateKept.unfrozen {calls : List CtrlCall} (h : GateKept s calls) : s.axiGateFrozen = false := by
  cases calls with
  | nil => exact h
  | cons call rest => exact h.1

/-- The gate and the register are kept over a sequence of calls exactly if all calls live. -/
theorem gateKept_iff (s : BitDev) (calls : List CtrlCall) (hunfrozen : s.axiGateFrozen = false) :
    GateKept s calls ↔ AllLive s calls := by
  induction calls generalizing s with
  | nil => exact ⟨fun _ => trivial,fun _ => hunfrozen⟩
  | cons call rest ih =>
    have hcall := @charCtrlIoctl_ends call.env s call.cmd hunfrozen
    rcases hrun : call.outcome s with ⟨e | rc,t⟩
    · obtain ⟨hdies,hctrl⟩ := hcall.of_error hrun
      constructor
      · intro h
        have hkept := h.2.2.2.2.unfrozen
        rw [hrun, hdies.gate] at hkept
        cases hkept
      · exact fun h => absurd hctrl h.1
    · obtain ⟨hsafely,hlives⟩ := hcall.of_ok hrun
      have hrest := ih t hsafely.gate
      constructor
      · rintro ⟨_,_,_,_,h⟩
        rw [hrun] at h
        exact ⟨hlives,by rw [hrun]; exact hrest.mp h⟩
      · rintro ⟨_,h⟩
        rw [hrun] at h
        refine ⟨hunfrozen,?_,?_,fun _ => ?_,?_⟩
        · rw [hrun]
          simp
        · rw [hrun]
          simp
        · rw [hrun]
          exact hsafely.control
        · rw [hrun]
          exact hrest.mpr h

def goodCall : CtrlCall := ⟨.icapDownload,fileEnv 0 16 true⟩
def emptyName : List Byte := [0,1,0,0,1,0x61,0,0]
def emptyNameCall : CtrlCall := ⟨.icapDownload,{ fileEnv 0 16 true with
  user := fun addr => emptyName.getD (addr-0x10000).toNat 0 }⟩

theorem gateKept_iff_good : GateKept restingDev [goodCall,⟨.oclReset,fileEnv 0 16 true⟩] ∧
    AllLive restingDev [goodCall,⟨.oclReset,fileEnv 0 16 true⟩] := by
  have hfree : ((CtrlCall.mk .oclReset (fileEnv 0 16 true)).outcome
      (goodCall.outcome restingDev).2).2.axiGateFrozen = false := by decide +kernel
  have hkept : GateKept restingDev [goodCall,⟨.oclReset,fileEnv 0 16 true⟩] :=
    ⟨rfl,by decide +kernel,by decide +kernel,nofun,by decide +kernel,by decide +kernel,
      by decide +kernel,nofun,hfree⟩
  exact ⟨hkept,(gateKept_iff restingDev [goodCall,⟨.oclReset,fileEnv 0 16 true⟩] rfl).mp hkept⟩

/-- Once a download died of an empty name, the next one dies in the check of the gate. -/
theorem emptyName_freezes :
    (emptyNameCall.outcome restingDev).1 = .error (.header (.refused .emptyString)) ∧
    (goodCall.outcome (emptyNameCall.outcome restingDev).2).1 = .error .gateFrozen ∧
    ¬ GateKept restingDev [emptyNameCall,goodCall] := by
  have hfrozen : (goodCall.outcome (emptyNameCall.outcome restingDev).2).1 = .error .gateFrozen := by
    decide +kernel
  refine ⟨by decide +kernel,hfrozen,fun h => ?_⟩
  exact h.2.2.2.2.2.1 hfrozen

end DmaCamera
