import DmaCamera.ProbeTable
set_option autoImplicit false

namespace DmaCamera.Probe
open Ledger Loops

/-! When a probe that fails has given back what it took. -/

/-- Everything that was acquired has been released, as often and no sooner, except that
a device whose regions are in use stays enabled. -/
def Unwound (s : ProbeState) : Prop :=
  ∀ r, Settled r s.trace (if r = .device ∧ s.lro.regionsInUse = true then 1 else 0)

theorem unwound_iff {s : ProbeState} : Unwound s ↔ ∀ r, s.holds r =
    some (if r = .device ∧ s.lro.regionsInUse = true then 1 else 0) :=
  forall_congr' fun _ => balance_eq_some.symm

/-- A failure from `probe_engines` on leaves nothing behind: it is the first engine
towards the device that cannot be created, or all of those can be and the first
character device gets neither memory nor an instance. -/
def Outcomes.devicesUnwind (o : Outcomes) (present : Nat → Bool) : Bool :=
  if o.h2cRefused then o.firstH2cRefused
  else !o.charAlloc o.firstChar || (List.range maxXdmaDevices).all present

/-- When a failure leaves nothing behind, by the first step that fails: the vectors have
to be granted, `irq_line` to tell the truth. -/
def Outcomes.unwinds (o : Outcomes) (present : Nat → Bool) : Bool :=
  !o.lroAlloc || decide (o.enableDevice ≠ 0) ||
    (!o.vectorsRefused && (decide (o.pciRequestRegions ≠ 0) || o.barsFail ||
      decide (setDmaMask o ≠ 0) ||
        (o.irqLineTrue && (o.irqsRefused || o.devicesUnwind present))))

theorem freeAlloc_lro (s : ProbeState) : (freeAlloc s).lro = s.lro := rfl

theorem disableMsi_keeps (s : ProbeState) : Keeps (fun r => 2 < r.level) s (disableMsi s) := by
  have hk : ∀ {s' : ProbeState} {r : Resource}, Keeps (fun r => 2 < r.level) s s' →
      r.level ≤ 2 → Keeps (fun r => 2 < r.level) s (s'.release r) := fun h hr =>
    h.release (Nat.not_lt.mpr hr)
  have h₀ := Keeps.refl (fun r => 2 < r.level) s
  unfold disableMsi freeAlloc
  dsimp only
  split_ifs
  · exact hk (hk h₀ (by decide)) (by decide)
  · exact hk (hk (hk h₀ (by decide)) (by decide)) (by decide)
  · exact hk (hk h₀ (by decide)) (by decide)
  · exact hk (hk (hk h₀ (by decide)) (by decide)) (by decide)
  · exact hk h₀ (by decide)
  · exact hk (hk h₀ (by decide)) (by decide)

theorem relRegion_keeps (s : ProbeState) : Keeps (fun r => 3 < r.level) s (relRegion s) := by
  unfold relRegion
  split_ifs
  · exact (((Keeps.refl _ s).release (by simp [Resource.level])).setLro _).trans
      ((disableMsi_keeps _).mono fun _ hr => Nat.lt_of_succ_lt hr)
  · exact (disableMsi_keeps s).mono fun _ hr => Nat.lt_of_succ_lt hr

theorem unmapBarLabel_keeps (s : ProbeState) :
    Keeps (fun r => 4 < r.level) s (unmapBarLabel s) :=
  ((unmapBars_keeps s).mono fun _ hr => Nat.ne_of_gt hr).trans
    ((relRegion_keeps _).mono fun _ hr => Nat.lt_of_succ_lt hr)

def irqResources (l : XdmaDev) : List Resource :=
  if l.msixEnabled then (List.range l.irqUserCount).map .userIrq
  else if l.irqLine ≠ -1 then [.irq] else []

theorem irqTeardown_trace (s : ProbeState) :
    (irqTeardown s).trace = s.trace ++ (irqResources s.lro).map .release := by
  unfold irqTeardown irqResources
  split_ifs
  · rw [ProbeState.foldl_release]
  · rfl
  · simp

theorem mem_irqResources {o : Outcomes} {l : XdmaDev} {r : Resource} :
    r ∈ irqResources l ↔ r.level = 5 ∧ owed o l r = true := by
  unfold irqResources
  cases hm : l.msixEnabled with
  | true => cases r <;> simp [Resource.level, owed, hm]
  | false =>
    by_cases hl : l.irqLine = -1
    · cases r <;> simp [Resource.level, owed, hm, hl]
    · cases r <;> simp [Resource.level, owed, hm, hl]

theorem nodup_irqResources (l : XdmaDev) : (irqResources l).Nodup := by
  unfold irqResources
  split_ifs
  · exact nodup_userIrqs _
  · exact List.nodup_singleton _
  · exact List.nodup_nil

theorem irqTeardown_holds (o : Outcomes) (s : ProbeState) (r : Resource) :
    (irqTeardown s).holds r =
      if r.level = 5 ∧ owed o s.lro r = true then returned (s.holds r) else s.holds r := by
  rw [ProbeState.holds, irqTeardown_trace, balance_released r _ (nodup_irqResources _)]
  simp only [mem_irqResources (o := o)]
  rfl

theorem irqTeardown_keeps (o : Outcomes) (s : ProbeState) :
    Keeps (fun r => r.level ≠ 5) s (irqTeardown s) := fun r hr => by
  rw [irqTeardown_holds o, if_neg fun h => hr h.1]

theorem disableIrq_keeps (o : Outcomes) (s : ProbeState) :
    Keeps (fun r => 5 < r.level) s (disableIrq s) :=
  ((irqTeardown_keeps o s).mono fun _ hr => Nat.ne_of_gt hr).trans
    ((unmapBarLabel_keeps _).mono fun _ hr => Nat.lt_of_succ_lt hr)

theorem rmvEngine_keeps (o : Outcomes) (s : ProbeState) :
    Keeps (fun r => 6 < r.level) s (rmvEngine o s) :=
  ((removeEngines_keeps o s).mono fun _ hr => Nat.ne_of_gt hr).trans
    ((disableIrq_keeps o _).mono fun _ hr => Nat.lt_of_succ_lt hr)

def vectorsDisabled (s : ProbeState) : ProbeState :=
  if s.lro.msixEnabled then
    (s.release .msix).setLro fun l => { l with msixEnabled := false }
  else if s.lro.msiEnabled then
    (s.release .msi).setLro fun l => { l with msiEnabled := false }
  else s

theorem disableMsi_eq (s : ProbeState) : disableMsi s =
    freeAlloc (if (vectorsDisabled s).lro.regionsInUse then vectorsDisabled s
      else (vectorsDisabled s).release .device) := rfl

theorem vectorsDisabled_heldBelow {o : Outcomes} {s : ProbeState} (h : HeldBelow o 3 s)
    (hmsi : s.lro.msixEnabled = true → s.lro.msiEnabled = false) :
    HeldBelow o 2 (vectorsDisabled s) := by
  unfold vectorsDisabled
  split_ifs with hx hm
  · refine (h.release (r := .msix) (by decide) hx rfl fun r hr hlevel => ?_).lower fun r hr => ?_
    · cases r <;> simp [owed, hx, hmsi hx, Resource.level] at hr hlevel ⊢
    · cases r <;> simp [owed, hmsi hx, Resource.level] at hr ⊢
  · refine (h.release (by decide) (by simp [owed, hx, hm]) (by simp [owed])
      fun r hr hlevel => ?_).lower fun r hr => ?_
    · cases r <;> simp [owed, Resource.level] at hr hlevel ⊢
    · cases r <;> simp [owed, hx, Resource.level] at hr ⊢
  · refine h.lower fun r hr => ?_
    cases r <;> simp [owed, hx, hm, Resource.level] at hr ⊢

theorem disableMsi_unwound {o : Outcomes} {s : ProbeState} (h : HeldBelow o 3 s)
    (hmsi : s.lro.msixEnabled = true → s.lro.msiEnabled = false) : Unwound (disableMsi s) := by
  have hheld := vectorsDisabled_heldBelow h hmsi
  refine unwound_iff.mpr fun r => ?_
  rw [disableMsi_eq, freeAlloc_lro, freeAlloc, ProbeState.holds_release]
  cases huse : (vectorsDisabled s).lro.regionsInUse with
  | true =>
    simp only [if_true, hheld r, huse]
    cases r <;> simp [Resource.level, owed]
  | false =>
    simp only [Bool.false_eq_true, if_false, ProbeState.holds_release, hheld r,
      ProbeState.lro_release, huse, and_false]
    cases r <;> simp [Resource.level, owed]

theorem relRegion_unwound {o : Outcomes} {s : ProbeState} (h : HeldBelow o 4 s)
    (hmsi : s.lro.msixEnabled = true → s.lro.msiEnabled = false) : Unwound (relRegion s) := by
  unfold relRegion
  split_ifs with hg
  · refine disableMsi_unwound ((h.release (r := .regions) (by decide) hg rfl fun r hr _ => ?_).lower
      fun r hr => ?_) hmsi
    · cases r <;> simp [owed] at hr ⊢
    · cases r <;> simp [owed, Resource.level] at hr ⊢
  · refine disableMsi_unwound (h.lower fun r hr => ?_) hmsi
    cases r <;> simp [owed, hg, Resource.level] at hr ⊢

theorem unmapBarLabel_unwound {o : Outcomes} {s : ProbeState} (h : HeldBelow o 5 s)
    (hmsi : s.lro.msixEnabled = true → s.lro.msiEnabled = false) : Unwound (unmapBarLabel s) := by
  have hlro := unmapBars_lro s
  refine relRegion_unwound ((unmapBars_heldBelow h (by decide)).lower fun r hr => ?_) ?_
  · rw [hlro]
    cases r <;> simp [owed, Resource.level] at hr ⊢
  · rw [hlro]
    exact hmsi

theorem disableIrq_unwound {o : Outcomes} {s : ProbeState} (h : HeldBelow o 6 s)
    (hmsi : s.lro.msixEnabled = true → s.lro.msiEnabled = false) : Unwound (disableIrq s) := by
  refine unmapBarLabel_unwound (h.releaseAll (nodup_irqResources s.lro)
    (fun r => mem_irqResources) (irqTeardown_trace s) fun r _ => ?_) ?_
  · rw [irqTeardown_lro]
  · rw [irqTeardown_lro]
    exact hmsi

theorem rmvEngine_unwound {o : Outcomes} {s : ProbeState} (h : HeldBelow o 7 s)
    (hmsi : s.lro.msixEnabled = true → s.lro.msiEnabled = false) : Unwound (rmvEngine o s) := by
  obtain ⟨-,n,hl⟩ := removeEngines_eq o s
  refine disableIrq_unwound (removeEngines_heldBelow h) ?_
  rw [hl]
  exact hmsi

theorem HeldBelow.below {o : Outcomes} {j k : Nat} {s : ProbeState} (h : HeldBelow o j s)
    (hk : k ≤ j) (h0 : ∀ r, k ≤ r.level → owed o s.lro r = false) : HeldBelow o k s := by
  intro r
  rw [h r]
  by_cases hr : r.level < k
  · simp [hr, Nat.lt_of_lt_of_le hr hk]
  · simp [hr, h0 r (Nat.le_of_not_lt hr)]

/-! Every failure comes down the ladder with what it says on the lower rungs. -/

/-- The rungs up to `k` hold what they held, and go by what they went by. -/
structure Descends (k : Nat) (s s' : ProbeState) : Prop where
  msix : s'.lro.msixEnabled = s.lro.msixEnabled
  msi : s'.lro.msiEnabled = s.lro.msiEnabled
  line : 5 ≤ k → s'.lro.irqLine = s.lro.irqLine
  keeps : Keeps (fun r => r.level ≤ k) s s'

theorem Descends.trans {k : Nat} {s₁ s₂ s₃ : ProbeState} (h : Descends k s₁ s₂)
    (h' : Descends k s₂ s₃) : Descends k s₁ s₃ :=
  ⟨h'.msix.trans h.msix,h'.msi.trans h.msi,fun hk => (h'.line hk).trans (h.line hk),
    h.keeps.trans h'.keeps⟩

theorem Descends.refl (k : Nat) (s : ProbeState) : Descends k s s :=
  ⟨rfl,rfl,fun _ => rfl,Keeps.refl _ s⟩

theorem Descends.of_rung {k j : Nat} {s s' : ProbeState} (hkj : k < j)
    (hx : s'.lro.msixEnabled = s.lro.msixEnabled) (hm : s'.lro.msiEnabled = s.lro.msiEnabled)
    (hline : 5 ≤ k → s'.lro.irqLine = s.lro.irqLine)
    (h : Keeps (fun r => r.level ≠ j) s s') : Descends k s s' :=
  ⟨hx,hm,hline,h.mono fun _ hr => Nat.ne_of_lt (Nat.lt_of_le_of_lt hr hkj)⟩

theorem InterfaceStep.descends {k : Nat} {s s' : ProbeState} (h : InterfaceStep s s')
    (hk : k < 7) : Descends k s s' := by
  obtain ⟨d,m,i,hl⟩ := h.lro
  exact .of_rung hk (by rw [hl]) (by rw [hl]) (fun _ => by rw [hl])
    (h.keeps.mono fun _ hr => Or.inl hr)

theorem removeEngines_descends {k : Nat} (o : Outcomes) (s : ProbeState) (hk : k < 6) :
    Descends k s (removeEngines o s) := by
  obtain ⟨-,n,hl⟩ := removeEngines_eq o s
  exact .of_rung hk (by rw [hl]) (by rw [hl]) (fun _ => by rw [hl]) (removeEngines_keeps o s)

theorem probeEngines_descends {k : Nat} (o : Outcomes) (s : ProbeState) (hk : k < 6) :
    Descends k s (probeEngines o s).2 := by
  obtain ⟨n,engine,hl⟩ := probeEngines_lro o s
  exact .of_rung hk (by rw [hl]) (by rw [hl]) (fun _ => by rw [hl]) (probeEngines_keeps o s)

theorem rmvEngine_disableIrq (o : Outcomes) (s : ProbeState) :
    ∃ s', rmvEngine o s = disableIrq s' ∧ Descends 5 s s' :=
  ⟨removeEngines o s,rfl,removeEngines_descends o s (by decide)⟩

theorem rmvInterface_disableIrq (o : Outcomes) (s : ProbeState) :
    ∃ s', rmvInterface o s = disableIrq s' ∧ Descends 5 s s' := by
  obtain ⟨s',hs',hd⟩ := rmvEngine_disableIrq o (destroyInterfaces s)
  exact ⟨s',hs',((destroyInterfaces_step s).descends (by decide)).trans hd⟩

theorem rmvCdev_disableIrq (o : Outcomes) (s : ProbeState) :
    ∃ s', rmvCdev o s = disableIrq s' ∧ Descends 5 s s' := by
  obtain ⟨s',hs',hd⟩ := rmvInterface_disableIrq o
    (((s.mark s.lro.instanceNo false).release (.slot s.lro.instanceNo)).release .attribute)
  have hslot : Descends 5 s
      (((s.mark s.lro.instanceNo false).release (.slot s.lro.instanceNo)).release .attribute) :=
    ⟨rfl,rfl,fun _ => rfl,((Keeps.refl _ s).release (by simp [Resource.level])).release
      (by simp [Resource.level])⟩
  exact ⟨s',hs',hslot.trans hd⟩

theorem probeDevices_disableIrq {o : Outcomes} {s : ProbeState} (h : (probeDevices o s).1 ≠ 0) :
    ∃ s', (probeDevices o s).2 = disableIrq s' ∧ Descends 5 s s' := by
  have hengines : Descends 5 s (probeEngines o s).2 := probeEngines_descends o s (by decide)
  have hinterfaces : Descends 5 s (createInterfaces o (probeEngines o s).2).2 :=
    hengines.trans ((createInterfaces_step o (probeEngines o s).2).descends (by decide))
  unfold probeDevices at h ⊢
  dsimp only at h ⊢
  split_ifs at h ⊢
  · obtain ⟨s',hs',hd⟩ := rmvEngine_disableIrq o (probeEngines o s).2
    exact ⟨s',hs',hengines.trans hd⟩
  · obtain ⟨s',hs',hd⟩ := rmvInterface_disableIrq o (createInterfaces o (probeEngines o s).2).2
    exact ⟨s',hs',hinterfaces.trans hd⟩
  · obtain ⟨s',hs',hd⟩ := rmvCdev_disableIrq o (createInterfaces o (probeEngines o s).2).2
    exact ⟨s',hs',hinterfaces.trans hd⟩
  · exact absurd rfl h

theorem relRegion_disableMsi (s : ProbeState) :
    ∃ s', relRegion s = disableMsi s' ∧ Descends 2 s s' := by
  refine ⟨_,rfl,?_⟩
  split_ifs
  · exact ⟨rfl,rfl,fun _ => rfl,((Keeps.refl _ _).release (by simp [Resource.level])).setLro _⟩
  · exact Descends.refl 2 _

theorem unmapBarLabel_disableMsi (s : ProbeState) :
    ∃ s', unmapBarLabel s = disableMsi s' ∧ Descends 2 s s' := by
  obtain ⟨s',hs',hd⟩ := relRegion_disableMsi (unmapBars s)
  have hl := unmapBars_lro s
  exact ⟨s',hs',(Descends.of_rung (j := 4) (by decide) (by rw [hl]) (by rw [hl])
    (fun _ => by rw [hl]) (unmapBars_keeps s)).trans hd⟩

theorem disableIrq_disableMsi (o : Outcomes) (s : ProbeState) :
    ∃ s', disableIrq s = disableMsi s' ∧ Descends 2 s s' := by
  obtain ⟨s',hs',hd⟩ := unmapBarLabel_disableMsi (irqTeardown s)
  have hl := irqTeardown_lro s
  exact ⟨s',hs',(Descends.of_rung (j := 5) (by decide) (by rw [hl]) (by rw [hl])
    (fun _ => by rw [hl]) (irqTeardown_keeps o s)).trans hd⟩

theorem probeRegions_disableMsi {o : Outcomes} {s : ProbeState} (h : (probeRegions o s).1 ≠ 0)
    (hb : ∀ i, s.lro.bar i = false) (hc : s.lro.configBarIdx = none) :
    ∃ s', (probeRegions o s).2 = disableMsi s' ∧ Descends 2 s s' := by
  obtain ⟨inUse,got,hl⟩ := requestRegions_lro o s
  have hregions : Descends 2 s (requestRegions o s).2 :=
    .of_rung (by decide) (by rw [hl]) (by rw [hl]) (fun _ => by rw [hl])
      (requestRegions_keeps o s)
  obtain ⟨bar,config,user,bypass,hl'⟩ := mapBars_lro (o := o) (s := (requestRegions o s).2)
    (by rw [hl]; exact hb) (by rw [hl]; exact hc)
  have hbars : Descends 2 s (mapBars o (requestRegions o s).2).2 :=
    hregions.trans (.of_rung (j := 4) (by decide) (by rw [hl']) (by rw [hl'])
      (fun _ => by rw [hl']) (mapBars_keeps o _))
  obtain ⟨line,count,hl''⟩ := irqSetup_lro o (mapBars o (requestRegions o s).2).2
  have hirqs : Descends 2 s (irqSetup o (mapBars o (requestRegions o s).2).2).2 :=
    hbars.trans (.of_rung (j := 5) (by decide) (by rw [hl'']) (by rw [hl''])
      (fun hk => absurd hk (by decide)) (irqSetup_keeps o _))
  unfold probeRegions at h ⊢
  dsimp only at h ⊢
  split_ifs at h ⊢
  · obtain ⟨s',hs',hd⟩ := relRegion_disableMsi (requestRegions o s).2
    exact ⟨s',hs',hregions.trans hd⟩
  · obtain ⟨s',hs',hd⟩ := unmapBarLabel_disableMsi (mapBars o (requestRegions o s).2).2
    exact ⟨s',hs',hbars.trans hd⟩
  · obtain ⟨s',hs',hd⟩ := unmapBarLabel_disableMsi (mapBars o (requestRegions o s).2).2
    exact ⟨s',hs',hbars.trans hd⟩
  · obtain ⟨s',hs',hd⟩ :=
      disableIrq_disableMsi o (irqSetup o (mapBars o (requestRegions o s).2).2).2
    exact ⟨s',hs',hirqs.trans hd⟩
  · obtain ⟨s₁,hs₁,hd₁⟩ := probeDevices_disableIrq h
    obtain ⟨s',hs',hd⟩ := disableIrq_disableMsi o s₁
    have hlow : Descends 2 (irqSetup o (mapBars o (requestRegions o s).2).2).2 s₁ :=
      ⟨hd₁.msix,hd₁.msi,fun hk => absurd hk (by decide),
        hd₁.keeps.mono fun _ hr => Nat.le_trans hr (by decide)⟩
    exact ⟨s',hs₁.trans hs',(hirqs.trans hlow).trans hd⟩

structure SetUp (o : Outcomes) (s : ProbeState) : Prop where
  ready : EnginesReady o s
  oneMode : s.lro.msixEnabled = true → s.lro.msiEnabled = false
  engine : ∀ e, s.lro.engine e = none
  charDev : ∀ c, s.lro.charDev c = none
  major : s.lro.major = 0
  user : s.lro.userBarIdx.isSome = o.hasUserBar

theorem not_unwound_of {s : ProbeState} {r : Resource} (hr : r ≠ .device)
    (h : s.holds r ≠ some 0) : ¬Unwound s := fun hu =>
  h ((unwound_iff.mp hu r).trans (by simp [hr]))

theorem rmvEngine_twice {o : Outcomes} {s : ProbeState} {e : EngineSlot}
    (hsome : (s.lro.engine e).isSome = true) (h0 : s.holds (.engine e) = some 0) :
    ¬Unwound (rmvEngine o s) := by
  refine not_unwound_of (r := .engine e) (by simp) ?_
  have hnone : (removeEngines o s).holds (.engine e) = none := by
    rw [removeEngines_holds, if_pos ⟨rfl,hsome⟩, h0]
    rfl
  have hkeep := disableIrq_keeps o (removeEngines o s) (.engine e) (Nat.lt_succ_self 5)
  rw [rmvEngine, hkeep, hnone]
  simp

/-- A slot is not given back below the character devices. -/
theorem rmvInterface_slot {o : Outcomes} {s : ProbeState} {i n : Nat}
    (h : s.holds (.slot i) = some (n+1)) : ¬Unwound (rmvInterface o s) := by
  refine not_unwound_of (r := .slot i) (by simp) ?_
  obtain ⟨m,hle,hm⟩ := (destroyInterfaces_step s).slots i _ h
  have hkeep := rmvEngine_keeps o (destroyInterfaces s) (.slot i) (Nat.lt_succ_self 6)
  rw [rmvInterface, hkeep, hm]
  intro h0
  have hzero : m = 0 := Option.some.inj h0
  omega

/-- The attribute is removed where it could not be created. -/
theorem rmvCdev_attribute {o : Outcomes} {s : ProbeState} (h : s.holds .attribute = some 0) :
    ¬Unwound (rmvCdev o s) := by
  refine not_unwound_of (r := .attribute) (by simp) ?_
  have hkeep := rmvEngine_keeps o (destroyInterfaces
    (((s.mark s.lro.instanceNo false).release (.slot s.lro.instanceNo)).release .attribute))
    .attribute (by decide)
  have hdestroy := (destroyInterfaces_step
    (((s.mark s.lro.instanceNo false).release (.slot s.lro.instanceNo)).release .attribute)).keeps
    .attribute (Or.inr rfl)
  rw [rmvCdev, rmvInterface, hkeep, hdestroy]
  simp [h]

theorem createsNothing_first {o : Outcomes} {s : ProbeState} (hmajor : s.lro.major = 0)
    (huser : s.lro.userBarIdx.isSome = o.hasUserBar) :
    createsNothing o (firstChar s.lro) s =
      (!o.charAlloc o.firstChar || (List.range maxXdmaDevices).all s.present) := by
  have hfirst := firstChar_eq huser
  have hfull : decide (slotSearch s.present = maxXdmaDevices) =
      (List.range maxXdmaDevices).all s.present := by
    rw [Bool.eq_iff_iff, decide_eq_true_iff, slotSearch_full, List.all_eq_true]
    simp only [List.mem_range]
  rw [createsNothing, hfirst, hmajor, hfull]
  rfl

theorem probeDevices_unwound {o : Outcomes} {s : ProbeState} (hs : SetUp o s)
    (h : HeldBelow o 7 s) (hrc : (probeDevices o s).1 ≠ 0) :
    Unwound (probeDevices o s).2 ↔ o.devicesUnwind s.present = true := by
  have hfails := probeEngines_fails hs.ready.msix
  obtain ⟨n,engine,hl⟩ := probeEngines_lro o s
  have hmode : (probeEngines o s).2.lro.msixEnabled = true →
      (probeEngines o s).2.lro.msiEnabled = false := by
    rw [hl]
    exact hs.oneMode
  unfold Outcomes.devicesUnwind
  cases hrefused : o.h2cRefused with
  | true =>
    have hresult : (probeDevices o s).2 = rmvEngine o (probeEngines o s).2 := by
      unfold probeDevices
      dsimp only
      rw [if_pos (hfails.mpr hrefused)]
    rw [hresult, if_pos rfl]
    cases hfirst : o.firstH2cRefused with
    | true =>
      have hheld := probeEngines_firstRefused h hs.ready hs.engine hrefused hfirst
      exact iff_of_true (rmvEngine_unwound hheld hmode) rfl
    | false =>
      obtain ⟨e,hsome,h0⟩ := probeEngines_laterRefused h hs.ready hs.engine hrefused hfirst
      exact iff_of_false (rmvEngine_twice hsome h0) (by decide)
  | false =>
    have hpass : ¬(probeEngines o s).1 ≠ 0 := fun hn => by simp [hfails.mp hn] at hrefused
    have hheld := probeEngines_created h hs.ready hs.engine hrefused
    have hpresent := (probeEngines_table o s).present
    have hfirst := createsNothing_first (o := o) (s := (probeEngines o s).2)
      (by rw [hl]; exact hs.major) (by rw [hl]; exact hs.user)
    rw [hpresent] at hfirst
    have hchar : ∀ c, (probeEngines o s).2.lro.charDev c = none := by
      rw [hl]
      exact hs.charDev
    have hzero : ∀ r : Resource, r.level = 7 → (probeEngines o s).2.holds r = some 0 := by
      intro r hr
      rw [hheld r]
      simp [hr]
    rw [if_neg (by decide), ← hfirst]
    unfold probeDevices at hrc ⊢
    dsimp only at hrc ⊢
    rw [if_neg hpass] at hrc ⊢
    cases hnothing : createsNothing o (firstChar (probeEngines o s).2.lro)
        (probeEngines o s).2 with
    | true =>
      obtain ⟨hfail,hlro,-,hholds⟩ := createInterfaces_nothing hchar hnothing
      rw [if_pos hfail]
      have hdestroy : destroyInterfaces (createInterfaces o (probeEngines o s).2).2 =
          (createInterfaces o (probeEngines o s).2).2 :=
        destroyInterfaces_none fun c => by rw [hlro]; exact hchar c
      have hheld' : HeldBelow o 7 (createInterfaces o (probeEngines o s).2).2 := by
        intro r
        rw [hholds, hlro]
        exact hheld r
      refine iff_of_true ?_ rfl
      rw [rmvInterface, hdestroy]
      exact rmvEngine_unwound hheld' (by rw [hlro]; exact hmode)
    | false =>
      refine iff_of_false ?_ (by decide)
      obtain ⟨i,k,hslot⟩ := createInterfaces_slot (by rw [hl]; exact hs.major)
        (fun i => hzero _ rfl) hnothing
      by_cases hcreate : (createInterfaces o (probeEngines o s).2).1 ≠ 0
      · rw [if_pos hcreate]
        exact rmvInterface_slot hslot
      · rw [if_neg hcreate] at hrc ⊢
        by_cases hfile : o.deviceCreateFile ≠ 0
        · rw [if_pos hfile]
          refine rmvCdev_attribute ?_
          rw [(createInterfaces_step o _).keeps .attribute (Or.inr rfl)]
          exact hzero _ rfl
        · rw [if_neg hfile] at hrc
          exact absurd rfl hrc

/-- `irq_line` says the wrong thing, and the ladder goes by it. -/
theorem disableIrq_line (o : Outcomes) {s : ProbeState} (hx : s.lro.msixEnabled = false)
    (h : if s.lro.irqLine = -1 then s.holds .irq = some 1 else s.holds .irq = some 0) :
    ¬Unwound (disableIrq s) := by
  refine not_unwound_of (r := .irq) (by simp) ?_
  have hkeep := unmapBarLabel_keeps (irqTeardown s) .irq (by decide)
  rw [disableIrq, hkeep, irqTeardown_holds o]
  by_cases hline : s.lro.irqLine = -1
  · rw [if_pos hline] at h
    simp [owed, hline, h]
  · rw [if_neg hline] at h
    simp [owed, hx, hline, h, Resource.level]

theorem irqSetup_line {o : Outcomes} {s : ProbeState} (hx : s.lro.msixEnabled = o.msixCapable)
    (h0 : s.holds .irq = some 0) (hline : o.irqLineTrue = false) :
    (irqSetup o s).2.lro.msixEnabled = false ∧
      if (irqSetup o s).2.lro.irqLine = -1 then (irqSetup o s).2.holds .irq = some 1
      else (irqSetup o s).2.holds .irq = some 0 := by
  obtain ⟨hm,hline⟩ := Bool.or_eq_false_iff.mp hline
  have hx' : ¬s.lro.msixEnabled = true := by simp [hx, hm]
  unfold irqSetup
  dsimp only
  rw [if_neg hx']
  simp only [Outcomes.irqsRefused, hm, beq_eq_false_iff_ne] at hline
  by_cases hrefused : o.requestIrq ≠ 0
  · have hminus : o.pdevIrq.toInt ≠ -1 := by simpa [hrefused] using hline
    rw [if_pos hrefused]
    exact ⟨by simpa using hx',by simp [hminus, h0]⟩
  · have hminus : o.pdevIrq.toInt = -1 := by simpa [hrefused] using hline
    rw [if_neg hrefused]
    exact ⟨by simpa using hx',by simp [hminus, h0]⟩

/-- The driver gives back vectors it was not given. -/
theorem disableMsi_refused {s : ProbeState} (h : s.lro.msixEnabled = true ∧ s.holds .msix = some 0 ∨
    s.lro.msixEnabled = false ∧ s.lro.msiEnabled = true ∧ s.holds .msi = some 0) :
    ¬Unwound (disableMsi s) := by
  rcases h with ⟨hx,h0⟩ | ⟨hx,hm,h0⟩
  · refine not_unwound_of (r := .msix) (by simp) ?_
    have hnone : (vectorsDisabled s).holds .msix = none := by
      simp [vectorsDisabled, hx, h0]
    rw [disableMsi_eq, freeAlloc]
    split_ifs <;> simp [hnone]
  · refine not_unwound_of (r := .msi) (by simp) ?_
    have hnone : (vectorsDisabled s).holds .msi = none := by
      simp [vectorsDisabled, hx, hm, h0]
    rw [disableMsi_eq, freeAlloc]
    split_ifs <;> simp [hnone]

theorem probeScanForMsi_refused {o : Outcomes} {s : ProbeState} (hs : s.lro = allocDevInstance)
    (hx : s.holds .msix = some 0) (hm : s.holds .msi = some 0) (h : o.vectorsRefused = true) :
    (probeScanForMsi o s).2.lro.msixEnabled = true ∧
      (probeScanForMsi o s).2.holds .msix = some 0 ∨
    (probeScanForMsi o s).2.lro.msixEnabled = false ∧
      (probeScanForMsi o s).2.lro.msiEnabled = true ∧
      (probeScanForMsi o s).2.holds .msi = some 0 := by
  unfold Outcomes.vectorsRefused at h
  unfold probeScanForMsi
  dsimp only
  split_ifs at h ⊢ with hcap h0 hcap' h0
  · simp [h0] at h
  · exact Or.inl ⟨rfl,hx⟩
  · simp [h0] at h
  · exact Or.inr ⟨by simp [hs, allocDevInstance],rfl,hm⟩
  · simp [hcap'] at h

theorem probeScanForMsi_vectors {o : Outcomes} {s : ProbeState} (hs : s.lro = allocDevInstance)
    (h : o.vectorsRefused = false) : VectorsKnown (probeScanForMsi o s).2.lro := by
  unfold Outcomes.vectorsRefused at h
  unfold probeScanForMsi
  dsimp only
  split_ifs at h ⊢ with hcap h0 hcap' h0
  · exact fun _ => o.vector_pos
  · simp [h0] at h
  · exact fun hm => by simp [hs, allocDevInstance] at hm
  · exact fun hm => by simp [hs, allocDevInstance] at hm
  · exact fun hm => by simp [hs, allocDevInstance] at hm

def withVectors (o : Outcomes) (entry : Int → Nat) : XdmaDev :=
  { allocDevInstance with
    entry := entry
    msiEnabled := !o.msixCapable && o.msiCapable
    msixEnabled := o.msixCapable }

theorem probeRegions_unwound {o : Outcomes} {s : ProbeState} {entry : Int → Nat}
    (hl : s.lro = withVectors o entry) (hv : VectorsKnown s.lro) (h : HeldBelow o 7 s)
    (hrc : (probeRegions o s).1 ≠ 0) : Unwound (probeRegions o s).2 ↔
      (decide (o.pciRequestRegions ≠ 0) || o.barsFail || decide (setDmaMask o ≠ 0) ||
        (o.irqLineTrue && (o.irqsRefused || o.devicesUnwind s.present))) = true := by
  -- the book keeping is right after each step
  obtain ⟨hbar₁,hconfig₁,_,_⟩ := requestRegions_unmapped hl
  have h₁ : HeldBelow o 7 (requestRegions o s).2 := requestRegions_heldBelow h (by rw [hl]; rfl)
  have h₂ : HeldBelow o 7 (barsMapped o s) := mapBars_heldBelow h₁ hbar₁ hconfig₁
  have hmsix₂ := barsMapped_msix hl
  obtain ⟨_,_,_,_,_,_,hl₂⟩ := barsMapped_lro hl
  obtain ⟨line,count,hl₃⟩ := irqsSet_lro o s
  have huser := fun hbars => (barsMapped_found hl hbars).1
  have hpresent : (irqsSet o s).present = s.present := by
    rw [irqsSet, (irqSetup_table o _).present, barsMapped, (mapBars_table o _).present,
      (requestRegions_table o s).present]
  rw [hl₂] at hl₃ huser
  have hmode : ∀ {l : XdmaDev}, l.msixEnabled = o.msixCapable →
      l.msiEnabled = (!o.msixCapable && o.msiCapable) → l.msixEnabled = true →
        l.msiEnabled = false := by
    intro l hx hm htrue
    rw [hm, ← hx, htrue]
    rfl
  have hmode₃ := @hmode (irqsSet o s).lro (by rw [hl₃]) (by rw [hl₃])
  -- a wrong interrupt line is still wrong at the end of the ladder
  have hwrong : o.irqLineTrue = false → (irqsSet o s).lro.msixEnabled = false ∧
      if (irqsSet o s).lro.irqLine = -1 then (irqsSet o s).holds .irq = some 1
      else (irqsSet o s).holds .irq = some 0 := by
    intro hline
    refine irqSetup_line hmsix₂ ?_ hline
    rw [h₂ .irq, hl₂]
    simp [owed, allocDevInstance]
  have h₃ : o.irqLineTrue = true → HeldBelow o 7 (irqsSet o s) :=
    irqSetup_heldBelow h₂ hmsix₂ (by rw [hl₂]; rfl) (by rw [hl₂]; rfl)
  cases probeRegions_ends hl with
  | regions hregions heq =>
    rw [heq]
    obtain ⟨inUse,got,hl₁⟩ := requestRegions_lro o s
    rw [hl] at hl₁
    refine iff_of_true (relRegion_unwound (h₁.below (by decide) fun r hr => ?_)
      (hmode (by rw [hl₁]; rfl) (by rw [hl₁]; rfl))) (by simp [hregions])
    rw [hl₁]
    cases r <;> simp [owed, Resource.level, withVectors, allocDevInstance] at hr ⊢
  | bars _ hfails heq =>
    rw [heq]
    refine iff_of_true (unmapBarLabel_unwound (h₂.below (by decide) fun r hr => ?_)
      (hmode hmsix₂ (by rw [hl₂]))) (by rcases hfails with h | h <;> simp [h])
    rw [hl₂]
    cases r <;> simp [owed, Resource.level, allocDevInstance] at hr ⊢
  | irqs hregions hbars hmask hrefused heq =>
    rw [heq]
    simp only [hregions, hbars, hmask, hrefused, ne_eq, not_true_eq_false, decide_false,
      Bool.false_or, Bool.true_or, Bool.and_true]
    cases hline : o.irqLineTrue with
    | true =>
      refine iff_of_true (disableIrq_unwound ((h₃ hline).below (by decide) fun r hr => ?_) hmode₃) rfl
      rw [hl₃]
      cases r <;> simp [owed, Resource.level, allocDevInstance] at hr ⊢
    | false =>
      obtain ⟨hx,hirq⟩ := hwrong hline
      exact iff_of_false (disableIrq_line o hx hirq) (by decide)
  | devices hregions hbars hmask hgranted heq =>
    rw [heq] at hrc ⊢
    simp only [hregions, hbars, hmask, hgranted, ne_eq, not_true_eq_false, decide_false,
      Bool.false_or]
    cases hline : o.irqLineTrue with
    | true =>
      have hsetUp : SetUp o (irqsSet o s) :=
        { ready := ⟨by rw [hl₃],fun hx => by rw [hl₃] at hx ⊢; rw [hl] at hv; exact hv hx⟩
          oneMode := hmode₃
          engine := fun e => by rw [hl₃]; rfl
          charDev := fun c => by rw [hl₃]; rfl
          major := by rw [hl₃]; rfl
          user := by rw [hl₃]; exact huser hbars }
      rw [probeDevices_unwound hsetUp (h₃ hline) hrc, hpresent]
      rfl
    | false =>
      obtain ⟨hx,hirq⟩ := hwrong hline
      refine iff_of_false ?_ (by simp)
      obtain ⟨s',hs',hd⟩ := probeDevices_disableIrq hrc
      rw [hs']
      refine disableIrq_line o (hd.msix.trans hx) ?_
      rw [hd.line (by decide), hd.keeps .irq (by decide)]
      exact hirq

theorem probe_unwound (o : Outcomes) (present : Nat → Bool) (major : U32)
    (hrc : (probe o present major).1 ≠ 0) :
    Unwound (probe o present major).2 ↔ o.unwinds present = true := by
  have h₀ := enabled_heldBelow o present major
  obtain ⟨s₁,hs₁⟩ : ∃ s₁, s₁ = ((probeStart present major).acquire .lro).acquire .device :=
    ⟨_,rfl⟩
  rw [← hs₁] at h₀
  have hl₁ : s₁.lro = allocDevInstance := by rw [hs₁]; rfl
  unfold Outcomes.unwinds
  unfold probe at hrc ⊢
  dsimp only at hrc ⊢
  rw [← hs₁] at hrc ⊢
  cases halloc : o.lroAlloc with
  | false =>
    refine iff_of_true (unwound_iff.mpr fun r => ?_) rfl
    simp [ProbeState.holds, probeStart, allocDevInstance]
  | true =>
    rw [halloc] at hrc
    simp only [Bool.not_true, Bool.false_eq_true, if_false, Bool.false_or] at hrc ⊢
    by_cases henable : o.enableDevice ≠ 0
    · rw [if_pos henable]
      refine iff_of_true (unwound_iff.mpr fun r => ?_) (by simp [henable])
      cases r <;> rfl
    rw [if_neg henable] at hrc ⊢
    simp only [henable, decide_false, Bool.false_or]
    cases hvectors : o.vectorsRefused with
    | true =>
      refine iff_of_false ?_ (by simp)
      have hrefused := probeScanForMsi_refused hl₁ (by rw [h₀ .msix, hl₁]; rfl)
        (by rw [h₀ .msi, hl₁]; rfl) hvectors
      by_cases hneg : (probeScanForMsi o s₁).1 < 0
      · rw [if_pos hneg]
        exact disableMsi_refused hrefused
      · rw [if_neg hneg] at hrc ⊢
        obtain ⟨entry,msi,msix,hl⟩ := probeScanForMsi_lro o s₁
        obtain ⟨s',hs',hd⟩ := probeRegions_disableMsi hrc (by rw [hl, hl₁]; exact fun _ => rfl)
          (by rw [hl, hl₁]; rfl)
        rw [hs']
        refine disableMsi_refused ?_
        rw [hd.msix, hd.msi, hd.keeps .msix (by decide), hd.keeps .msi (by decide)]
        exact hrefused
    | false =>
      have hheld := probeScanForMsi_heldBelow h₀ hl₁ hvectors
      obtain ⟨hx,hm⟩ := probeScanForMsi_flags (o := o) hl₁
      obtain ⟨entry,msi,msix,hl⟩ := probeScanForMsi_lro o s₁
      have hneg : ¬(probeScanForMsi o s₁).1 < 0 := by
        unfold Outcomes.vectorsRefused at hvectors
        unfold probeScanForMsi
        dsimp only
        split_ifs at hvectors ⊢ with hcap h0 hcap' h0 <;> simp_all
      rw [if_neg hneg] at hrc ⊢
      have hl' : (probeScanForMsi o s₁).2.lro = withVectors o entry := by
        rw [hl] at hx hm ⊢
        rw [hl₁]
        simp only at hx hm
        rw [hx, hm]
        rfl
      have hpresent : (probeScanForMsi o s₁).2.present = present := by
        rw [(probeScanForMsi_table o s₁).present, hs₁]
        rfl
      rw [probeRegions_unwound hl' (probeScanForMsi_vectors hl₁ hvectors) hheld hrc, hpresent]
      rfl

/-- The regions are in use: the device stays enabled. -/
theorem probe_regionsInUse_not : (probe { grantsAll with pciRequestRegions := -eBusy }
      (fun _ => false) 0).1 ≠ 0 ∧
    ¬∀ r, Settled r (probe { grantsAll with pciRequestRegions := -eBusy }
      (fun _ => false) 0).2.trace 0 :=
  ⟨by decide +kernel,fun h => absurd (h .device).left (by decide +kernel)⟩

theorem probe_unwound_engines :
    Unwound (probe { grantsAll with charAlloc := fun _ => false } (fun _ => false) 0).2 ∧
      ¬Unwound (probe { grantsAll with engineAlloc := fun e => decide (e.channel = 0) }
        (fun _ => false) 0).2 :=
  ⟨(probe_unwound _ _ _ (by decide +kernel)).mpr (by decide +kernel),
    mt (probe_unwound _ _ _ (by decide +kernel)).mp (by decide +kernel)⟩

end DmaCamera.Probe
