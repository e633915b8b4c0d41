import DmaCamera.ProbeTable
import DmaCamera.Library.Runs
set_option autoImplicit false

namespace DmaCamera.Probe
open Ledger Loops Runs

/-! `dev_present` from module load on, with probes and removals in any order. -/

/-- `remove`; of the outcomes, only `poll_mode` matters. -/
def remove (o : Outcomes) (s : ProbeState) : ProbeState :=
  let s := unmapBars (irqTeardown (removeEngines o (destroyInterfaces s)))
  let s := if s.lro.gotRegions then s.release .regions else s
  let s := if s.lro.msixEnabled then
      (s.release .msix).setLro fun l => { l with msixEnabled := false }
    else if s.lro.msiEnabled then
      (s.release .msi).setLro fun l => { l with msiEnabled := false }
    else s
  let s := if s.lro.regionsInUse then s else s.release .device
  let s := (s.mark s.lro.instanceNo false).release (.slot s.lro.instanceNo)
  (s.release .attribute).release .lro

structure XdmaModule where
  loaded : Bool
  present : Nat → Bool
  major : U32
  live : List XdmaDev
  slotReads : List Nat

inductive HotPlug where
  -- the class could be created, and these devices are plugged in
  | load (classCreated : Bool) (plugged : List Outcomes)
  | probe (o : Outcomes)
  | remove (o : Outcomes) (k : Nat)

def XdmaModule.probe (s : XdmaModule) (o : Outcomes) : XdmaModule :=
  let r := Probe.probe o s.present s.major
  { s with
    present := r.2.present
    major := r.2.major
    live := if r.1 = 0 then s.live ++ [r.2.lro] else s.live
    slotReads := s.slotReads ++ r.2.slotReads }

/-- `xdma_init`: the devices are probed by `pci_register_driver`, before the loop
that initializes the table. -/
def xdmaInit (s : XdmaModule) (classCreated : Bool) (plugged : List Outcomes) : XdmaModule :=
  if !classCreated then s else
    let s := plugged.foldl XdmaModule.probe s
    { s with
      loaded := true
      present := forLoop maxXdmaDevices (fun i t => Function.update t i false) s.present }

def XdmaModule.remove (s : XdmaModule) (o : Outcomes) (k : Nat) (l : XdmaDev) : XdmaModule :=
  let s' := Probe.remove o ⟨l,s.present,s.major,[],[]⟩
  { s with present := s'.present, live := s.live.eraseIdx k }

def hotPlugNext (s : XdmaModule) : HotPlug → Option XdmaModule
  | .load created plugged => if s.loaded then none else some (xdmaInit s created plugged)
  | .probe o => if s.loaded then some (s.probe o) else none
  | .remove o k => (s.live[k]?).map (s.remove o k)

def hotPlugStep (s : XdmaModule) (op : HotPlug) (s' : XdmaModule) : Prop := hotPlugNext s op = some s'

/-- Before the module is loaded its variables are as they were compiled; what lies
behind the table is anybody's. -/
def unloaded (behind : Nat → Bool) (major : U32) : XdmaModule :=
  ⟨false,fun i => decide (maxXdmaDevices ≤ i) && behind i,major,[],[]⟩

/-- A slot is marked if and only if a device holds it, no two devices hold the same one,
and the search has not left the table. -/
structure TableRight (s : XdmaModule) : Prop where
  marked : ∀ i < maxXdmaDevices, s.present i = true ↔ ∃ l ∈ s.live, l.instanceNo = i
  distinct : (s.live.map XdmaDev.instanceNo).Nodup
  inside : ∀ i ∈ s.slotReads, i < maxXdmaDevices

def Outcomes.vectorsNegative (o : Outcomes) : Bool :=
  if o.msixCapable then decide (o.pciEnableMsix < 0)
  else o.msiCapable && decide (o.pciEnableMsi < 0)

def Outcomes.reachesInterfaces (o : Outcomes) : Bool :=
  o.lroAlloc && decide (o.enableDevice = 0) && !o.vectorsNegative &&
    decide (o.pciRequestRegions = 0) && !o.barsFail && decide (setDmaMask o = 0) &&
    !o.irqsRefused && !o.h2cRefused

def Outcomes.takesSlot (o : Outcomes) : Bool := o.reachesInterfaces && o.charAlloc o.firstChar

def Outcomes.needs (o : Outcomes) : CharSlot → Bool
  | .user => o.hasUserBar
  | .ctrl => true
  | .sgdma e => o.engineThere e
  | .bypass e => o.engineThere e && o.hasBypassBar
  | _ => false

def Outcomes.charGranted (o : Outcomes) (major : U32) (c : CharSlot) : Bool :=
  o.charAlloc c && decide (o.kobjectSetName c = 0) &&
    !(decide (major ≠ 0) && decide (o.registerChrdevRegion c < 0)) &&
    !decide (o.cdevAdd c < 0) && decide (o.deviceCreate c ≠ .null)

def majorLeft (major : U32) : U32 := if major = 0 then 0 else major-1

/-- A probe that looks for a slot finds one, gets a major number, and can create every
character device it needs. -/
structure ProbeSound (s : XdmaModule) (o : Outcomes) : Prop where
  free : ∃ i < maxXdmaDevices, s.present i = false
  numbers : s.major ≠ 0 ∨ o.allocChrdevRegion o.firstChar ≠ none
  granted : ∀ c, o.needs c = true → o.charGranted (majorLeft s.major) c = true

def NonePlugged : XdmaModule → List Outcomes → Prop
  | _, [] => True
  | s, o :: os => (o.takesSlot = true → ProbeSound s o ∧ o.deviceCreateFile ≠ 0) ∧
      NonePlugged (s.probe o) os

def TableKept (s : XdmaModule) : HotPlug → Prop
  | .load created plugged => created = true → NonePlugged s plugged
  | .probe o => o.takesSlot = true → ProbeSound s o
  | .remove _ _ => True

def probeInterfaces (o : Outcomes) (s : ProbeState) : Int × ProbeState :=
  let (rc,s) := createInterfaces o s
  if rc ≠ 0 then (-1,rmvInterface o s) else
    if o.deviceCreateFile ≠ 0 then (-1,rmvCdev o s) else (0,s.acquire .attribute)

structure AtInterfaces (o : Outcomes) (s s' : ProbeState) : Prop where
  table : SameTable s s'
  charDev : ∀ c, s'.lro.charDev c = none
  major : s'.lro.major = 0
  user : s'.lro.userBarIdx.isSome = o.hasUserBar
  bypass : s'.lro.bypassBarIdx.isSome = o.hasBypassBar
  engine : ∀ e, (s'.lro.engine e).isSome = o.engineThere e

def EndsBefore (s : ProbeState) (r : Int × ProbeState) : Prop := r.1 ≠ 0 ∧ SameTable s r.2

theorem probeDevices_table {o : Outcomes} {s : ProbeState}
    (hx : s.lro.msixEnabled = o.msixCapable) (hengine : ∀ e, s.lro.engine e = none)
    (hchar : ∀ c, s.lro.charDev c = none) (hmajor : s.lro.major = 0)
    (huser : s.lro.userBarIdx.isSome = o.hasUserBar)
    (hbypass : s.lro.bypassBarIdx.isSome = o.hasBypassBar) :
    if o.h2cRefused then EndsBefore s (probeDevices o s)
    else ∃ s', AtInterfaces o s s' ∧ probeDevices o s = probeInterfaces o s' := by
  have hfails := probeEngines_fails hx
  have htable := probeEngines_table o s
  obtain ⟨n,engine,hl⟩ := probeEngines_lro o s
  cases hrefused : o.h2cRefused with
  | true =>
    rw [if_pos rfl]
    unfold probeDevices
    dsimp only
    rw [if_pos (hfails.mpr hrefused)]
    exact ⟨by simp,htable.trans (rmvEngine_table o _)⟩
  | false =>
    have hpass : ¬(probeEngines o s).1 ≠ 0 := fun hn => by simp [hfails.mp hn] at hrefused
    have hthere := probeEngines_there hx hengine hrefused
    rw [if_neg (by decide)]
    refine ⟨(probeEngines o s).2,⟨htable,?_,?_,?_,?_,hthere⟩,?_⟩
    · rw [hl]
      exact hchar
    · rw [hl]
      exact hmajor
    · rw [hl]
      exact huser
    · rw [hl]
      exact hbypass
    · unfold probeDevices
      dsimp only
      rw [if_neg hpass]
      rfl

theorem probeRegions_table {o : Outcomes} {s : ProbeState} {entry : Int → Nat} {msi msix : Bool}
    (hl : s.lro = { allocDevInstance with entry := entry, msiEnabled := msi, msixEnabled := msix })
    (hx : msix = o.msixCapable) :
    if decide (o.pciRequestRegions = 0) && !o.barsFail && decide (setDmaMask o = 0) &&
      !o.irqsRefused && !o.h2cRefused
    then ∃ s', AtInterfaces o s s' ∧ probeRegions o s = probeInterfaces o s'
    else EndsBefore s (probeRegions o s) := by
  subst hx
  have ht₁ := requestRegions_table o s
  have ht₂ : SameTable s (barsMapped o s) := ht₁.trans (mapBars_table o _)
  have ht₃ : SameTable s (irqsSet o s) := ht₂.trans (irqSetup_table o _)
  cases probeRegions_ends hl with
  | regions hregions heq =>
    rw [heq, if_neg (by simp [hregions])]
    exact ⟨by simp,ht₁.trans (relRegion_table _)⟩
  | bars _ hfails heq =>
    rw [heq, if_neg (by rcases hfails with h | h <;> simp [h])]
    exact ⟨by simp,ht₂.trans (unmapBarLabel_table _)⟩
  | irqs _ _ _ hrefused heq =>
    rw [heq, if_neg (by simp [hrefused])]
    exact ⟨by simp,ht₃.trans (disableIrq_table _)⟩
  | devices hregions hbars hmask hgranted heq =>
    obtain ⟨_,_,_,_,_,_,hl₂⟩ := barsMapped_lro hl
    obtain ⟨line,count,hl₃⟩ := irqsSet_lro o s
    have hfound := barsMapped_found hl hbars
    rw [hl₂] at hfound hl₃
    have hdevices := @probeDevices_table o (irqsSet o s) (by rw [hl₃])
      (fun e => by rw [hl₃]; rfl) (fun c => by rw [hl₃]; rfl)
      (by rw [hl₃]; rfl) (by rw [hl₃]; exact hfound.1)
      (by rw [hl₃]; exact hfound.2)
    simp only [hregions, hmask, hbars, hgranted, decide_true, Bool.not_false, Bool.and_self,
      Bool.true_and]
    rw [heq]
    cases hh2c : o.h2cRefused with
    | true =>
      rw [hh2c, if_pos rfl] at hdevices
      rw [if_neg (by decide)]
      exact ⟨hdevices.1,ht₃.trans hdevices.2⟩
    | false =>
      rw [hh2c, if_neg (by decide)] at hdevices
      obtain ⟨s',hat,heq'⟩ := hdevices
      rw [if_pos (by decide)]
      exact ⟨s',⟨ht₃.trans hat.table,hat.charDev,hat.major,hat.user,hat.bypass,hat.engine⟩,heq'⟩

theorem probeScanForMsi_negative (o : Outcomes) (s : ProbeState) :
    (probeScanForMsi o s).1 < 0 ↔ o.vectorsNegative = true := by
  unfold probeScanForMsi Outcomes.vectorsNegative
  dsimp only
  split_ifs <;> simp [*]

theorem probe_table (o : Outcomes) (present : Nat → Bool) (major : U32) :
    if o.reachesInterfaces then ∃ s', AtInterfaces o (probeStart present major) s' ∧
      probe o present major = probeInterfaces o s'
    else EndsBefore (probeStart present major) (probe o present major) := by
  obtain ⟨s₁,hs₁⟩ : ∃ s₁, s₁ = ((probeStart present major).acquire .lro).acquire .device :=
    ⟨_,rfl⟩
  have hl₁ : s₁.lro = allocDevInstance := by rw [hs₁]; rfl
  have ht₁ : SameTable (probeStart present major) s₁ := by
    rw [hs₁]
    exact ⟨rfl,rfl,rfl⟩
  have hscan := ht₁.trans (probeScanForMsi_table o s₁)
  unfold probe Outcomes.reachesInterfaces
  dsimp only
  rw [← hs₁]
  cases o.lroAlloc with
  | false =>
    rw [if_neg (by simp)]
    exact ⟨by simp [eNoMem],SameTable.refl _⟩
  | true =>
    simp only [Bool.not_true, Bool.false_eq_true, if_false, Bool.true_and]
    by_cases henable : o.enableDevice ≠ 0
    · rw [if_neg (by simp [henable]), if_pos henable]
      exact ⟨by simp,⟨rfl,rfl,rfl⟩⟩
    rw [if_neg henable]
    cases hnegative : o.vectorsNegative with
    | true =>
      rw [if_neg (by simp), if_pos ((probeScanForMsi_negative o s₁).mpr hnegative)]
      exact ⟨by simp,hscan.trans (disableMsi_table _)⟩
    | false =>
      have hneg : ¬(probeScanForMsi o s₁).1 < 0 := fun hn => by
        simp [(probeScanForMsi_negative o s₁).mp hn] at hnegative
      rw [if_neg hneg]
      obtain ⟨entry,msi,msix,hl⟩ := probeScanForMsi_lro o s₁
      have hx := (probeScanForMsi_flags (o := o) hl₁).1
      rw [hl₁] at hl
      rw [hl] at hx
      have hregions := probeRegions_table (o := o) hl hx
      have henable := not_not.mp henable
      simp only [henable, decide_true, Bool.not_false, Bool.and_self, Bool.true_and]
      split_ifs at hregions ⊢
      · obtain ⟨s',hat,heq⟩ := hregions
        exact ⟨s',⟨hscan.trans hat.table,hat.charDev,hat.major,hat.user,hat.bypass,hat.engine⟩,heq⟩
      · exact ⟨hregions.1,hscan.trans hregions.2⟩

theorem interfaces_needed {o : Outcomes} {l : XdmaDev}
    (hu : l.userBarIdx.isSome = o.hasUserBar) (hb : l.bypassBarIdx.isSome = o.hasBypassBar)
    (he : ∀ e, (l.engine e).isSome = o.engineThere e) {c : CharSlot} (hc : c ∈ interfaces l)
    (hreq : c.required = true) : o.needs c = true := by
  unfold interfaces at hc
  rw [hu, hb] at hc
  cases c with
  | user => simpa [Outcomes.needs] using hc
  | ctrl => rfl
  | events i => simp [CharSlot.required] at hreq
  | sgdma e =>
    have hsome : (l.engine e).isSome = true := by
      cases hbypass : o.hasBypassBar <;> cases huser : o.hasUserBar <;>
        simp [hbypass, huser] at hc <;> exact hc.elim And.right And.right
    rw [Outcomes.needs, ← he]
    exact hsome
  | bypass e =>
    cases hbypass : o.hasBypassBar with
    | false => cases huser : o.hasUserBar <;> simp [hbypass, huser] at hc
    | true =>
      have hsome : (l.engine e).isSome = true := by
        cases huser : o.hasUserBar <;> simp [hbypass, huser] at hc <;>
          exact hc.elim And.right And.right
      rw [Outcomes.needs, ← he, hsome, hbypass]
      rfl
  | bypassBase => simp [CharSlot.required] at hreq

theorem registerChar_isSome (o : Outcomes) (c : CharSlot) (n : U32) (s : ProbeState) :
    (registerChar o c n s).1.isSome = (decide (o.kobjectSetName c = 0) &&
      !(decide (s.major ≠ 0) && decide (o.registerChrdevRegion c < 0)) &&
      !decide (o.cdevAdd c < 0) && decide (o.deviceCreate c ≠ .null)) := by
  unfold registerChar
  dsimp only
  cases hd : o.deviceCreate c with
  | null => split_ifs <;> simp_all
  | error => split_ifs <;> simp_all
  | device => split_ifs <;> simp_all

structure HasInstance (i : Nat) (m left : U32) (present : Nat → Bool) (reads : List Nat)
    (s : ProbeState) : Prop where
  major : s.lro.major = m
  instanceNo : s.lro.instanceNo = i
  present : s.present = present
  slotReads : s.slotReads = reads
  left : s.major = left

theorem createInterface_again {o : Outcomes} {i : Nat} {m left : U32} {present : Nat → Bool}
    {reads : List Nat} (hm : m ≠ 0) (c : CharSlot) {s : ProbeState}
    (h : HasInstance i m left present reads s) :
    HasInstance i m left present reads (createInterface o c s).2 ∧
      ((c.required = true → o.charGranted left c = true) → (createInterface o c s).1 = 0) := by
  have hm' : s.lro.major ≠ 0 := by rw [h.major]; exact hm
  obtain ⟨hlro,hpresent,hreads,-⟩ := createSgChar_again (o := o) (c := c) hm'
  have hagain := newInstance_again (o := o) (c := c) (s := s.acquire (.char c)) hm'
  have hmajor : (createSgChar o c s).2.major = s.major := by
    unfold createSgChar
    rw [hagain]
    cases o.charAlloc c with
    | false => rfl
    | true => exact (registerChar_frame o c _ _).2.2.2
  refine ⟨⟨?_,?_,?_,?_,?_⟩,fun hgranted => ?_⟩
  · exact (congrArg XdmaDev.major hlro).trans h.major
  · exact (congrArg XdmaDev.instanceNo hlro).trans h.instanceNo
  · exact hpresent.trans h.present
  · exact hreads.trans h.slotReads
  · exact hmajor.trans h.left
  · unfold createInterface
    dsimp only
    cases hreq : c.required with
    | false => rfl
    | true =>
      have hgranted := hgranted hreq
      have hsome : (createSgChar o c s).1.isSome = true := by
        unfold createSgChar
        rw [hagain]
        simp only [Outcomes.charGranted, Bool.and_assoc] at hgranted
        obtain ⟨halloc,hgranted⟩ := Bool.and_eq_true_iff.mp hgranted
        rw [halloc]
        dsimp only
        rw [if_neg (by decide), if_neg (by decide), registerChar_isSome,
          ProbeState.major_acquire, h.left]
        simpa only [Bool.and_assoc] using hgranted
      rw [Option.isNone_eq_false_iff.mpr hsome]
      rfl

theorem createLoop_again {o : Outcomes} {i : Nat} {m left : U32} {present : Nat → Bool}
    {reads : List Nat} (hm : m ≠ 0) (cs : List CharSlot) {s : ProbeState}
    (h : HasInstance i m left present reads s) :
    HasInstance i m left present reads (tryEach (createInterface o) cs s).2 ∧
      ((∀ c ∈ cs, c.required = true → o.charGranted left c = true) →
        (tryEach (createInterface o) cs s).1 = 0) := by
  induction cs generalizing s with
  | nil => exact ⟨h,fun _ => rfl⟩
  | cons c cs ih =>
    obtain ⟨hc,hpass⟩ := createInterface_again (o := o) hm c h
    by_cases hrc : (createInterface o c s).1 = 0
    · rw [tryEach_cons_of_passes cs hrc]
      obtain ⟨hcs,hall⟩ := ih hc
      exact ⟨hcs,fun hgranted => hall fun c' hc' => hgranted c' (by simp [hc'])⟩
    · rw [tryEach_cons_of_fails cs hrc]
      exact ⟨hc,fun hgranted => absurd (hpass (hgranted c (by simp))) hrc⟩

theorem genDevMajor_left (o : Outcomes) (c : CharSlot) (s : ProbeState) :
    (genDevMajor o c s).2.major = majorLeft s.major := by
  unfold genDevMajor majorLeft
  split_ifs with h
  · cases o.allocChrdevRegion c <;> exact h
  · rfl

theorem newInstance_left {o : Outcomes} {c : CharSlot} {s : ProbeState} (h : s.lro.major = 0)
    (hfree : slotSearch s.present ≠ maxXdmaDevices) :
    (newInstance o c s).2.major = majorLeft s.major := by
  unfold newInstance
  rw [if_neg (not_not.mpr h)]
  dsimp only
  rw [if_neg hfree]
  exact genDevMajor_left o c _

theorem createInterface_first {o : Outcomes} {c : CharSlot} {s : ProbeState}
    (halloc : o.charAlloc c = true) (h : s.lro.major = 0)
    (hfree : slotSearch s.present ≠ maxXdmaDevices) :
    HasInstance (slotSearch s.present) (majorTaken o c s) (majorLeft s.major)
      (Function.update s.present (slotSearch s.present) true)
      (s.slotReads ++ List.range (slotSearch s.present+1)) (createInterface o c s).2 ∧
      (o.charGranted (majorLeft s.major) c = true → (createInterface o c s).1 = 0) := by
  obtain ⟨hclaimed,hmajor⟩ := createSgChar_claims halloc h hfree
  obtain ⟨hfound,-,-⟩ := newInstance_claimed (o := o) (c := c) (s := s.acquire (.char c)) h hfree
  have hleft : (newInstance o c (s.acquire (.char c))).2.major = majorLeft s.major :=
    newInstance_left h hfree
  have hstate : (createSgChar o c s).2.major = majorLeft s.major := by
    unfold createSgChar
    rw [halloc]
    dsimp only
    rw [hfound]
    exact (registerChar_frame o c _ _).2.2.2.trans hleft
  obtain ⟨m,hlro⟩ := hclaimed.lro
  refine ⟨⟨hmajor,?_,hclaimed.present,hclaimed.slotReads,hstate⟩,fun hgranted => ?_⟩
  · exact congrArg XdmaDev.instanceNo hlro
  · have hsome : (createSgChar o c s).1.isSome = true := by
      unfold createSgChar
      simp only [Outcomes.charGranted, Bool.and_assoc] at hgranted
      obtain ⟨-,hgranted⟩ := Bool.and_eq_true_iff.mp hgranted
      rw [halloc]
      dsimp only
      rw [hfound, if_neg (by decide), if_neg (by decide), registerChar_isSome, hleft]
      simpa only [Bool.and_assoc] using hgranted
    unfold createInterface
    dsimp only
    rw [Option.isNone_eq_false_iff.mpr hsome, Bool.and_false]
    rfl

theorem createInterfaces_granted {o : Outcomes} {s : ProbeState}
    (halloc : o.charAlloc (firstChar s.lro) = true) (h : s.lro.major = 0)
    (hfree : slotSearch s.present ≠ maxXdmaDevices)
    (hm : majorTaken o (firstChar s.lro) s ≠ 0)
    (hgranted : ∀ c ∈ interfaces s.lro, c.required = true →
      o.charGranted (majorLeft s.major) c = true) :
    (createInterfaces o s).1 = 0 ∧
      HasInstance (slotSearch s.present) (majorTaken o (firstChar s.lro) s) (majorLeft s.major)
        (Function.update s.present (slotSearch s.present) true)
        (s.slotReads ++ List.range (slotSearch s.present+1)) (createInterfaces o s).2 := by
  obtain ⟨cs,hcs⟩ := interfaces_cons s.lro
  obtain ⟨hfirst,hpass⟩ := createInterface_first halloc h hfree
  have hpass := hpass (hgranted _ (by rw [hcs]; simp) (firstChar_required s.lro))
  obtain ⟨hloop,hall⟩ := createLoop_again (o := o) hm cs hfirst
  have hall := hall fun c hc => hgranted c (by rw [hcs]; simp [hc])
  unfold createInterfaces
  rw [hcs, tryEach_cons_of_passes cs hpass]
  dsimp only
  rw [if_neg (not_not.mpr hall)]
  exact ⟨rfl,hloop⟩

theorem createInterfaces_noMemory {o : Outcomes} {s : ProbeState}
    (halloc : o.charAlloc (firstChar s.lro) = false) :
    EndsBefore s (createInterfaces o s) := by
  obtain ⟨cs,hcs⟩ := interfaces_cons s.lro
  have hnone : createSgChar o (firstChar s.lro) s = (none,s) := by
    unfold createSgChar
    rw [halloc]
    rfl
  have hfail : (createInterface o (firstChar s.lro) s).1 ≠ 0 := by
    unfold createInterface
    simp [hnone, firstChar_required]
  have htable : SameTable s (createInterface o (firstChar s.lro) s).2 := by
    unfold createInterface
    rw [hnone]
    exact ⟨rfl,rfl,rfl⟩
  unfold createInterfaces
  rw [hcs, tryEach_cons_of_fails cs hfail]
  dsimp only
  rw [if_pos hfail]
  exact ⟨by simp,htable.trans (destroyInterfaces_table _)⟩

theorem probe_idle {o : Outcomes} (present : Nat → Bool) (major : U32)
    (h : o.takesSlot = false) : EndsBefore (probeStart present major) (probe o present major) := by
  have htable := probe_table o present major
  cases hreach : o.reachesInterfaces with
  | false =>
    rw [hreach, if_neg (by decide)] at htable
    exact htable
  | true =>
    rw [hreach, if_pos rfl] at htable
    obtain ⟨s,hat,heq⟩ := htable
    have halloc : o.charAlloc (firstChar s.lro) = false := by
      rw [firstChar_eq hat.user]
      simpa [Outcomes.takesSlot, hreach] using h
    obtain ⟨hfail,hsame⟩ := createInterfaces_noMemory halloc
    rw [heq]
    unfold probeInterfaces
    dsimp only
    rw [if_pos hfail]
    exact ⟨by simp,(hat.table.trans hsame).trans (rmvInterface_table o _)⟩

/-- A probe that finds a slot and gets what it needs keeps the slot, unless the
attribute cannot be created. -/
theorem probe_takes {o : Outcomes} {s : XdmaModule} (h : o.takesSlot = true)
    (hs : ProbeSound s o) :
    (probe o s.present s.major).2.slotReads = List.range (slotSearch s.present+1) ∧
      slotSearch s.present < maxXdmaDevices ∧
      if o.deviceCreateFile = 0 then (probe o s.present s.major).1 = 0 ∧
        (probe o s.present s.major).2.present =
          Function.update s.present (slotSearch s.present) true ∧
        (probe o s.present s.major).2.lro.instanceNo = slotSearch s.present
      else (probe o s.present s.major).1 ≠ 0 ∧
        (probe o s.present s.major).2.present = s.present := by
  obtain ⟨hreach,halloc⟩ := Bool.and_eq_true_iff.mp h
  have htable := probe_table o s.present s.major
  rw [hreach, if_pos rfl] at htable
  obtain ⟨s₁,hat,heq⟩ := htable
  have hpresent : s₁.present = s.present := hat.table.present
  have hleft : s₁.major = s.major := hat.table.major
  have hfirst := firstChar_eq hat.user
  have hlt : slotSearch s.present < maxXdmaDevices := by
    obtain ⟨i,hi,hfree⟩ := hs.free
    refine Nat.lt_of_le_of_ne (slotSearch_spec s.present).1 fun hfull => ?_
    rw [slotSearch_full.mp hfull i hi] at hfree
    cases hfree
  have hm : majorTaken o (firstChar s₁.lro) s₁ ≠ 0 := by
    rw [Ne, majorTaken_eq_zero, hleft, hfirst]
    rintro ⟨hzero,hnone⟩
    exact hs.numbers.elim (fun hn => hn hzero) fun hn => hn hnone
  obtain ⟨hpass,hinst⟩ := createInterfaces_granted (by rw [hfirst]; exact halloc) hat.major
    (by rw [hpresent]; exact Nat.ne_of_lt hlt) hm fun c hc hreq => by
      rw [hleft]
      exact hs.granted c (interfaces_needed hat.user hat.bypass hat.engine hc hreq)
  have hreads := hinst.slotReads
  have hmarked := hinst.present
  have hno := hinst.instanceNo
  rw [show s₁.slotReads = [] from hat.table.slotReads, hpresent, List.nil_append] at hreads
  rw [hpresent] at hmarked hno
  rw [heq]
  unfold probeInterfaces
  dsimp only
  rw [if_neg (not_not.mpr hpass)]
  by_cases hfile : o.deviceCreateFile = 0
  · rw [if_neg (not_not.mpr hfile), if_pos hfile]
    exact ⟨hreads,hlt,rfl,hmarked,hno⟩
  · rw [if_pos hfile, if_neg hfile]
    obtain ⟨s₂,hs₂⟩ : ∃ s₂, s₂ = (createInterfaces o s₁).2 := ⟨_,rfl⟩
    rw [← hs₂] at hreads hmarked hno ⊢
    have hrmv := rmvInterface_table o
      (((s₂.mark s₂.lro.instanceNo false).release (.slot s₂.lro.instanceNo)).release .attribute)
    refine ⟨hrmv.slotReads.trans hreads,hlt,by simp,hrmv.present.trans ?_⟩
    simp only [ProbeState.present_release, ProbeState.mark]
    rw [hno, hmarked, Function.update_idem, ← (slotSearch_spec s.present).2.2 hlt,
      Function.update_eq_self]

theorem remove_present (o : Outcomes) (s : ProbeState) :
    (remove o s).present = Function.update s.present s.lro.instanceNo false := by
  obtain ⟨s₁,hs₁⟩ : ∃ s₁, s₁ =
    unmapBars (irqTeardown (removeEngines o (destroyInterfaces s))) := ⟨_,rfl⟩
  have htable : SameTable s s₁ :=
    hs₁ ▸ ((destroyInterfaces_table s).trans (removeEngines_table o _)).trans
      ((irqTeardown_table _).trans (unmapBars_table _))
  have hno : s₁.lro.instanceNo = s.lro.instanceNo := by
    obtain ⟨-,n,hl⟩ := removeEngines_eq o (destroyInterfaces s)
    rw [hs₁, unmapBars_lro, irqTeardown_lro, hl, (destroyInterfaces_frame s).1]
  unfold remove
  rw [← hs₁]
  dsimp only
  split_ifs <;> simp [ProbeState.mark, htable.present, hno]

/-- What every step keeps, with what holds while the module is not loaded. -/
structure TableInv (s : XdmaModule) : Prop where
  right : TableRight s
  bounded : ∀ l ∈ s.live, l.instanceNo < maxXdmaDevices
  fresh : s.loaded = false → s.live = []

theorem TableInv.probe_idle {s : XdmaModule} (h : TableInv s) {o : Outcomes}
    (ho : o.takesSlot = false) : TableInv (s.probe o) ∧ (s.probe o).live = s.live := by
  obtain ⟨hrc,htable⟩ := Probe.probe_idle s.present s.major ho
  have hlive : (s.probe o).live = s.live := if_neg hrc
  have hpresent : (s.probe o).present = s.present := htable.present
  have hreads : (s.probe o).slotReads = s.slotReads := by
    have hr : (Probe.probe o s.present s.major).2.slotReads = [] := htable.slotReads
    unfold XdmaModule.probe
    dsimp only
    rw [hr, List.append_nil]
  refine ⟨⟨⟨?_,?_,?_⟩,?_,?_⟩,hlive⟩
  · rw [hlive, hpresent]
    exact h.right.marked
  · rw [hlive]
    exact h.right.distinct
  · rw [hreads]
    exact h.right.inside
  · rw [hlive]
    exact h.bounded
  · rw [hlive]
    exact h.fresh

theorem TableInv.probe_takes {s : XdmaModule} (h : TableInv s) {o : Outcomes}
    (ho : o.takesSlot = true) (hs : ProbeSound s o)
    (hload : s.loaded = true ∨ o.deviceCreateFile ≠ 0) : TableInv (s.probe o) ∧
      (o.deviceCreateFile ≠ 0 → (s.probe o).live = s.live) := by
  obtain ⟨hreads,hlt,hrest⟩ := Probe.probe_takes ho hs
  have hread : ∀ i ∈ (s.probe o).slotReads, i < maxXdmaDevices := by
    intro i hi
    rcases List.mem_append.mp hi with hi | hi
    · exact h.right.inside i hi
    · rw [hreads, List.mem_range] at hi
      omega
  by_cases hfile : o.deviceCreateFile = 0
  · rw [if_pos hfile] at hrest
    obtain ⟨hrc,hpresent,hno⟩ := hrest
    have hlive : (s.probe o).live = s.live ++ [(Probe.probe o s.present s.major).2.lro] :=
      if_pos hrc
    have hpresent : (s.probe o).present = Function.update s.present (slotSearch s.present) true :=
      hpresent
    -- the slot was free, so no live device holds it
    have hfree : ∀ l ∈ s.live, l.instanceNo ≠ slotSearch s.present := by
      intro l hl heq
      have hmarked := (h.right.marked _ hlt).mpr ⟨l,hl,heq⟩
      rw [(slotSearch_spec s.present).2.2 hlt] at hmarked
      cases hmarked
    refine ⟨⟨⟨fun i hi => ?_,?_,hread⟩,?_,?_⟩,fun hn => absurd hfile hn⟩
    · rw [hpresent, hlive]
      by_cases hi' : i = slotSearch s.present
      · rw [hi', Function.update_self]
        exact iff_of_true rfl ⟨_,List.mem_append_right _ (List.mem_singleton_self _),hno⟩
      · rw [Function.update_of_ne hi', h.right.marked i hi]
        simp [hno, Ne.symm hi']
    · rw [hlive, List.map_append, List.nodup_append]
      refine ⟨h.right.distinct,List.nodup_singleton _,?_⟩
      intro a ha b hb
      obtain ⟨l,hl,rfl⟩ := List.mem_map.mp ha
      have hb' : b = slotSearch s.present := by simpa [hno] using hb
      rw [hb']
      exact hfree l hl
    · intro l hl
      rw [hlive] at hl
      rcases List.mem_append.mp hl with hl | hl
      · exact h.bounded l hl
      · rw [List.mem_singleton.mp hl, hno]
        exact hlt
    · intro hl
      have hl : s.loaded = false := hl
      rcases hload with hload | hload
      · rw [hl] at hload
        cases hload
      · exact absurd hfile hload
  · rw [if_neg hfile] at hrest
    obtain ⟨hrc,hpresent⟩ := hrest
    have hlive : (s.probe o).live = s.live := if_neg hrc
    have hpresent : (s.probe o).present = s.present := hpresent
    refine ⟨⟨⟨?_,?_,hread⟩,?_,?_⟩,fun _ => hlive⟩
    · rw [hlive, hpresent]
      exact h.right.marked
    · rw [hlive]
      exact h.right.distinct
    · rw [hlive]
      exact h.bounded
    · rw [hlive]
      exact h.fresh

theorem TableInv.plugged {s : XdmaModule} (h : TableInv s) {os : List Outcomes}
    (hos : NonePlugged s os) (hl : s.live = []) :
    TableInv (os.foldl XdmaModule.probe s) ∧ (os.foldl XdmaModule.probe s).live = [] := by
  induction os generalizing s with
  | nil => exact ⟨h,hl⟩
  | cons o os ih =>
    obtain ⟨ho,hrest⟩ := hos
    cases htakes : o.takesSlot with
    | false =>
      obtain ⟨hinv,hlive⟩ := h.probe_idle htakes
      exact ih hinv hrest (hlive.trans hl)
    | true =>
      obtain ⟨hs,hfile⟩ := ho htakes
      obtain ⟨hinv,hlive⟩ := h.probe_takes htakes hs (Or.inr hfile)
      exact ih hinv hrest ((hlive hfile).trans hl)

theorem TableInv.load {s : XdmaModule} (h : TableInv s) (hloaded : s.loaded = false)
    {created : Bool} {os : List Outcomes} (hos : created = true → NonePlugged s os) :
    TableInv (xdmaInit s created os) := by
  unfold xdmaInit
  cases created with
  | false => exact h
  | true =>
    obtain ⟨hinv,hlive⟩ := h.plugged (hos rfl) (h.fresh hloaded)
    rw [if_neg (by decide)]
    refine ⟨⟨fun i hi => ?_,hinv.right.distinct,hinv.right.inside⟩,hinv.bounded,fun hl => ?_⟩
    · dsimp only
      rw [forLoop_update maxXdmaDevices (fun _ _ => false), if_pos hi, hlive]
      simp
    · cases hl

theorem TableInv.remove {s : XdmaModule} (h : TableInv s) (o : Outcomes) {k : Nat} {l : XdmaDev}
    (hk : s.live[k]? = some l) : TableInv (s.remove o k l) := by
  have hpresent : (s.remove o k l).present = Function.update s.present l.instanceNo false :=
    remove_present o _
  obtain ⟨hlt,hget⟩ := List.getElem?_eq_some_iff.mp hk
  -- what remains holds other slots
  have hperm : (l :: s.live.eraseIdx k).Perm s.live := by
    rw [← hget]
    exact List.getElem_cons_eraseIdx_perm hlt
  have hnodup := (hperm.map XdmaDev.instanceNo).nodup_iff.mpr h.right.distinct
  rw [List.map_cons, List.nodup_cons] at hnodup
  refine ⟨⟨fun i hi => ?_,hnodup.2,h.right.inside⟩,fun l' hl' => ?_,fun hl => ?_⟩
  · rw [hpresent]
    by_cases hil : i = l.instanceNo
    · rw [hil, Function.update_self]
      refine iff_of_false (by decide) ?_
      rintro ⟨l',hl',heq⟩
      exact hnodup.1 (List.mem_map.mpr ⟨l',hl',heq⟩)
    · rw [Function.update_of_ne hil, h.right.marked i hi]
      constructor
      · rintro ⟨l',hl',heq⟩
        rcases List.mem_cons.mp (hperm.mem_iff.mpr hl') with rfl | hmem
        · exact absurd heq.symm hil
        · exact ⟨l',hmem,heq⟩
      · rintro ⟨l',hl',heq⟩
        exact ⟨l',List.mem_of_mem_eraseIdx hl',heq⟩
  · exact h.bounded l' (List.mem_of_mem_eraseIdx hl')
  · have hempty := h.fresh hl
    rw [hempty] at hk
    simp at hk

theorem TableInv.step {s s' : XdmaModule} {op : HotPlug} (h : TableInv s)
    (hok : TableKept s op) (hstep : hotPlugStep s op s') : TableInv s' := by
  unfold hotPlugStep hotPlugNext at hstep
  cases op with
  | load created plugged =>
    cases hl : s.loaded with
    | true => simp [hl] at hstep
    | false =>
      have heq : xdmaInit s created plugged = s' := by simpa [hl] using hstep
      rw [← heq]
      exact h.load hl hok
  | probe o =>
    cases hl : s.loaded with
    | false => simp [hl] at hstep
    | true =>
      have heq : s.probe o = s' := by simpa [hl] using hstep
      rw [← heq]
      cases ho : o.takesSlot with
      | false => exact (h.probe_idle ho).1
      | true => exact (h.probe_takes ho (hok ho) (Or.inl hl)).1
  | remove o k =>
    cases hk : s.live[k]? with
    | none => simp [hk] at hstep
    | some l =>
      have heq : s.remove o k l = s' := by simpa [hk] using hstep
      rw [← heq]
      exact h.remove o hk

theorem unloaded_inv (behind : Nat → Bool) (major : U32) : TableInv (unloaded behind major) := by
  refine ⟨⟨fun i hi => ?_,List.nodup_nil,fun i hi => ?_⟩,fun l hl => ?_,fun _ => rfl⟩
  · simp [unloaded, Nat.not_le_of_lt hi]
  · exact absurd hi (by simp [unloaded])
  · exact absurd hl (by simp [unloaded])

theorem run_tableRight (behind : Nat → Bool) (major : U32) {ops : List HotPlug} {s : XdmaModule}
    (r : Run hotPlugStep TableKept (unloaded behind major) ops s) : TableRight s :=
  (r.invariant TableInv (unloaded_inv behind major) fun _ _ _ h hok hs => h.step hok hs).right

/-- A device that is plugged in when the module is loaded loses its slot. -/
theorem loaded_unmarked : ∃ s,
    Run hotPlugStep anyStep (unloaded (fun _ => false) 0) [.load true [grantsAll]] s ∧
      ¬TableRight s := by
  refine ⟨xdmaInit (unloaded (fun _ => false) 0) true [grantsAll],Run.single trivial rfl,
    fun h => ?_⟩
  have hlive : 0 ∈ (xdmaInit (unloaded (fun _ => false) 0) true [grantsAll]).live.map
      XdmaDev.instanceNo := by decide +kernel
  obtain ⟨l,hl,h0⟩ := List.mem_map.mp hlive
  exact absurd ((h.marked 0 (by decide)).mpr ⟨l,hl,h0⟩) (by decide +kernel)

def twoPlugged : XdmaModule :=
  ((xdmaInit (unloaded (fun _ => false) 0) true []).probe grantsAll).probe grantsAll

theorem run_tableRight_two : TableRight twoPlugged ∧
    twoPlugged.live.map XdmaDev.instanceNo = [0,1] := by
  have hkept : ∀ s : XdmaModule, (∃ i < maxXdmaDevices, s.present i = false) →
      TableKept s (.probe grantsAll) := fun s hfree _ =>
    ⟨hfree,Or.inr (by simp [grantsAll]),fun c _ => by simp [Outcomes.charGranted, grantsAll]⟩
  have r₁ : Run hotPlugStep TableKept (unloaded (fun _ => false) 0) [.load true []]
      (xdmaInit (unloaded (fun _ => false) 0) true []) :=
    Run.single (fun _ => trivial) rfl
  have r₂ : Run hotPlugStep TableKept (unloaded (fun _ => false) 0)
      ([.load true []] ++ [.probe grantsAll])
      ((xdmaInit (unloaded (fun _ => false) 0) true []).probe grantsAll) :=
    r₁.snoc (hkept _ ⟨0,by decide,by decide +kernel⟩) rfl
  have r₃ : Run hotPlugStep TableKept (unloaded (fun _ => false) 0)
      (([.load true []] ++ [.probe grantsAll]) ++ [.probe grantsAll]) twoPlugged :=
    r₂.snoc (hkept _ ⟨1,by decide,by decide +kernel⟩) rfl
  exact ⟨run_tableRight _ _ r₃,by decide +kernel⟩

end DmaCamera.Probe
