import DmaCamera.ProbeEngines
import DmaCamera.ProbeInterfaces
set_option autoImplicit false

namespace DmaCamera.Probe
open Ledger Loops

structure SameTable (s s' : ProbeState) : Prop where
  present : s'.present = s.present
  slotReads : s'.slotReads = s.slotReads
  major : s'.major = s.major

theorem SameTable.refl (s : ProbeState) : SameTable s s := ⟨rfl,rfl,rfl⟩

theorem SameTable.trans {s₁ s₂ s₃ : ProbeState} (h : SameTable s₁ s₂) (h' : SameTable s₂ s₃) :
    SameTable s₁ s₃ :=
  ⟨h'.present.trans h.present,h'.slotReads.trans h.slotReads,h'.major.trans h.major⟩

theorem foldl_sameTable {ι : Type*} {f : ProbeState → ι → ProbeState}
    (h : ∀ s i, SameTable s (f s i)) (is : List ι) (s : ProbeState) :
    SameTable s (is.foldl f s) := by
  induction is generalizing s with
  | nil => exact SameTable.refl s
  | cons i is ih => exact (h s i).trans (ih (f s i))

theorem probeScanForMsi_table (o : Outcomes) (s : ProbeState) :
    SameTable s (probeScanForMsi o s).2 := by
  unfold probeScanForMsi
  dsimp only
  split_ifs <;> exact ⟨rfl,rfl,rfl⟩

theorem requestRegions_table (o : Outcomes) (s : ProbeState) :
    SameTable s (requestRegions o s).2 := by
  unfold requestRegions
  split_ifs <;> exact ⟨rfl,rfl,rfl⟩

theorem unmapBars_table (s : ProbeState) : SameTable s (unmapBars s) := by
  refine foldl_sameTable (fun s i => ?_) _ s
  unfold unmapBar
  split_ifs <;> exact ⟨rfl,rfl,rfl⟩

theorem mapSingleBar_table (o : Outcomes) (i : Fin 6) (s : ProbeState) :
    SameTable s (mapSingleBar o i s).2 := by
  unfold mapSingleBar
  dsimp only
  split_ifs <;> exact ⟨rfl,rfl,rfl⟩

theorem scanBar_table (o : Outcomes) (i : Fin 6) (m : BarScan) :
    SameTable m.state (scanBar o i m).2.state := by
  have h := mapSingleBar_table o i m.state
  unfold scanBar
  dsimp only
  split_ifs <;> exact ⟨h.present,h.slotReads,h.major⟩

theorem mapBars_table (o : Outcomes) (s : ProbeState) : SameTable s (mapBars o s).2 := by
  have h : SameTable s (tryEach (scanBar o) (List.finRange 6) ⟨s,[],0⟩).2.state :=
    tryEach_invariant (fun m => SameTable s m.state) (SameTable.refl s)
      fun i _ m hm => hm.trans (scanBar_table o i m)
  unfold mapBars
  dsimp only
  split_ifs
  · exact h.trans (unmapBars_table _)
  · exact h.trans (unmapBars_table _)
  · exact ⟨h.present,h.slotReads,h.major⟩

theorem irqSetup_table (o : Outcomes) (s : ProbeState) : SameTable s (irqSetup o s).2 := by
  unfold irqSetup msixIrqSetup
  dsimp only
  split_ifs
  · rw [ProbeState.foldl_release, tryEach_requestUserIrq]
    exact ⟨rfl,rfl,rfl⟩
  · rw [tryEach_requestUserIrq]
    exact ⟨rfl,rfl,rfl⟩
  · exact ⟨rfl,rfl,rfl⟩
  · exact ⟨rfl,rfl,rfl⟩

theorem irqTeardown_table (s : ProbeState) : SameTable s (irqTeardown s) := by
  unfold irqTeardown
  split_ifs
  · rw [ProbeState.foldl_release]
    exact ⟨rfl,rfl,rfl⟩
  · exact ⟨rfl,rfl,rfl⟩
  · exact ⟨rfl,rfl,rfl⟩

theorem engineMsixTeardown_table (e : EngineSlot) (eng : XdmaEngine) (s : ProbeState) :
    SameTable s (engineMsixTeardown e eng s) := by
  unfold engineMsixTeardown
  split_ifs <;> exact ⟨rfl,rfl,rfl⟩

theorem engineBegun_table (e : EngineSlot) (s : ProbeState) : SameTable s (engineBegun e s).2 := by
  unfold engineBegun
  split_ifs <;> exact ⟨rfl,rfl,rfl⟩

theorem engineCreate_table (o : Outcomes) (e : EngineSlot) (s : ProbeState) :
    SameTable s (engineCreate o e s).2 := by
  have h := engineBegun_table e s
  have h' := engineMsixTeardown_table e (engineBegun e s).1
    ((engineBegun e s).2.setLro fun l => { l with enginesNum := l.enginesNum+1 })
  rw [engineCreate_cases]
  dsimp only
  split_ifs
  · exact SameTable.refl s
  · exact ⟨rfl,rfl,rfl⟩
  · exact ⟨h'.present.trans h.present,h'.slotReads.trans h.slotReads,h'.major.trans h.major⟩
  · exact ⟨h.present,h.slotReads,h.major⟩
  · exact ⟨h.present,h.slotReads,h.major⟩

theorem engineLoop_table (o : Outcomes) (d : Bool) (cs : List (Fin 4)) (s : ProbeState) :
    SameTable s (tryEach (probeForEngine o d) cs s).2 := by
  refine tryEach_invariant (SameTable s) (SameTable.refl s) fun c _ s' h => h.trans ?_
  cases hp : enginePresent o ⟨c,d⟩ with
  | false =>
    rw [probeForEngine_absent s' hp]
    exact SameTable.refl s'
  | true =>
    have hc := engineCreate_table o ⟨c,d⟩ s'
    rw [probeForEngine_present s' hp]
    exact ⟨hc.present,hc.slotReads,hc.major⟩

theorem removeEngines_table (o : Outcomes) (s : ProbeState) : SameTable s (removeEngines o s) := by
  refine foldl_sameTable (fun s e => ?_) _ s
  cases s.lro.engine e with
  | none => exact SameTable.refl s
  | some eng =>
    have h := engineMsixTeardown_table e eng s
    dsimp only
    unfold engineDestroy
    dsimp only
    split_ifs <;> exact ⟨h.present,h.slotReads,h.major⟩

theorem probeEngines_table (o : Outcomes) (s : ProbeState) :
    SameTable s (probeEngines o s).2 := by
  unfold probeEngines
  dsimp only
  split_ifs
  · exact (engineLoop_table o false _ s).trans (removeEngines_table o _)
  · exact (engineLoop_table o false _ s).trans (engineLoop_table o true _ _)

theorem disableMsi_table (s : ProbeState) : SameTable s (disableMsi s) := by
  unfold disableMsi
  dsimp only
  split_ifs <;> exact ⟨rfl,rfl,rfl⟩

theorem relRegion_table (s : ProbeState) : SameTable s (relRegion s) := by
  unfold relRegion
  split_ifs
  · have h := disableMsi_table ((s.release .regions).setLro fun l => { l with gotRegions := false })
    exact ⟨h.present,h.slotReads,h.major⟩
  · exact disableMsi_table s

theorem unmapBarLabel_table (s : ProbeState) : SameTable s (unmapBarLabel s) :=
  (unmapBars_table s).trans (relRegion_table _)

theorem disableIrq_table (s : ProbeState) : SameTable s (disableIrq s) :=
  (irqTeardown_table s).trans (unmapBarLabel_table _)

theorem rmvEngine_table (o : Outcomes) (s : ProbeState) : SameTable s (rmvEngine o s) :=
  (removeEngines_table o s).trans (disableIrq_table _)

theorem destroyInterfaces_table (s : ProbeState) : SameTable s (destroyInterfaces s) := by
  obtain ⟨-,hpresent,hreads,hmajor,-⟩ := destroyInterfaces_frame s
  exact ⟨hpresent,hreads,hmajor⟩

theorem rmvInterface_table (o : Outcomes) (s : ProbeState) : SameTable s (rmvInterface o s) :=
  (destroyInterfaces_table s).trans (rmvEngine_table o _)

def grantsAll : Outcomes where
  pollMode := false
  lroAlloc := true
  enableDevice := 0
  msixCapable := true
  msiCapable := false
  pciEnableMsix := 0
  pciEnableMsi := 0
  vector := fun i => i.toNat+1
  vector_pos := fun _ => Nat.succ_pos _
  pciRequestRegions := 0
  barLen := fun i => if i = 0 then 0x10000 else 0
  pciIomap := fun _ => true
  irqIdentifier := fun _ => irqBlockId
  cfgIdentifier := fun _ => configBlockId
  dmaMask64 := 0
  dmaMask32 := 0
  pdevIrq := 11
  requestIrq := 0
  requestUserIrq := fun _ => 0
  identifier := fun e => if e.fromDev then 0 else
    if e.channel = 0 then 0x1fc00000 else if e.channel = 1 then 0x1fc00100 else 0
  engineAlloc := fun _ => true
  requestEngineIrq := fun _ => 0
  writebackAlloc := fun _ => true
  charAlloc := fun _ => true
  allocChrdevRegion := fun _ => some (240 <<< 20)
  allocChrdevRegion_major := by
    rintro c n ⟨⟩
    decide
  kobjectSetName := fun _ => 0
  registerChrdevRegion := fun _ => 0
  cdevAdd := fun _ => 0
  deviceCreate := fun _ => .device
  deviceCreateFile := 0

end DmaCamera.Probe
