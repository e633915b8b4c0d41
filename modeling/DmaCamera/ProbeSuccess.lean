import DmaCamera.InstanceTable
import DmaCamera.ProbeOutcome
set_option autoImplicit false

namespace DmaCamera.Probe
open Ledger Loops

def scanned (o : Outcomes) (present : Nat → Bool) (major : U32) : ProbeState :=
  (probeScanForMsi o (((probeStart present major).acquire .lro).acquire .device)).2

def atInterfaces (o : Outcomes) (present : Nat → Bool) (major : U32) : ProbeState :=
  (probeEngines o (irqsSet o (scanned o present major))).2

theorem probe_reaches {o : Outcomes} {present : Nat → Bool} {major : U32}
    (hrc : (probe o present major).1 = 0) : o.reachesInterfaces = true := by
  have htable := probe_table o present major
  cases hreach : o.reachesInterfaces with
  | true => rfl
  | false =>
    rw [hreach, if_neg (by decide)] at htable
    exact absurd hrc htable.1

section probe

variable (o : Outcomes) (present : Nat → Bool) (major : U32)

theorem scanned_lro : ∃ entry msi, (scanned o present major).lro =
    { allocDevInstance with
      entry := entry
      msiEnabled := msi
      msixEnabled := o.msixCapable } := by
  obtain ⟨s₁,hs₁⟩ : ∃ s₁, s₁ = ((probeStart present major).acquire .lro).acquire .device :=
    ⟨_,rfl⟩
  have hl₁ : s₁.lro = allocDevInstance := by rw [hs₁]; rfl
  obtain ⟨entry,msi,msix,hl⟩ := probeScanForMsi_lro o s₁
  have hx := (probeScanForMsi_flags (o := o) hl₁).1
  rw [hl₁] at hl
  rw [hl] at hx
  dsimp only at hx
  subst hx
  refine ⟨entry,msi,?_⟩
  rw [scanned, ← hs₁, hl]

theorem irqsSet_mapped : ∃ inUse got bar config user bypass line count entry msi,
    (irqsSet o (scanned o present major)).lro =
      { allocDevInstance with
        entry := entry
        msiEnabled := msi
        msixEnabled := o.msixCapable
        regionsInUse := inUse
        gotRegions := got
        bar := bar
        configBarIdx := config
        userBarIdx := user
        bypassBarIdx := bypass
        irqLine := line
        irqUserCount := count } := by
  obtain ⟨entry,msi,hl⟩ := scanned_lro o present major
  obtain ⟨inUse,got,bar,config,user,bypass,hl₂⟩ := barsMapped_lro hl
  obtain ⟨line,count,hl₃⟩ := irqsSet_lro o (scanned o present major)
  rw [hl₂] at hl₃
  exact ⟨_,_,_,_,_,_,_,_,_,_,hl₃⟩

theorem atInterfaces_descends : Descends 2 (scanned o present major) (atInterfaces o present major) ∧
    Descends 5 (irqsSet o (scanned o present major)) (atInterfaces o present major) := by
  have hengines := fun k hk =>
    probeEngines_descends (k := k) o (irqsSet o (scanned o present major)) hk
  refine ⟨Descends.trans ?_ (hengines 2 (by decide)),hengines 5 (by decide)⟩
  obtain ⟨entry,msi,hl⟩ := scanned_lro o present major
  obtain ⟨hbar,hconfig,-,-⟩ := requestRegions_unmapped hl
  obtain ⟨inUse,got,hl₁⟩ := requestRegions_lro o (scanned o present major)
  obtain ⟨_,_,_,_,hl₂⟩ := mapBars_lro (o := o) hbar hconfig
  obtain ⟨line,count,hl₃⟩ := irqsSet_lro o (scanned o present major)
  have hregions : Descends 2 (scanned o present major)
      (requestRegions o (scanned o present major)).2 :=
    .of_rung (by decide) (by rw [hl₁]) (by rw [hl₁]) (fun _ => by rw [hl₁])
      (requestRegions_keeps o _)
  have hbars : Descends 2 (requestRegions o (scanned o present major)).2
      (barsMapped o (scanned o present major)) :=
    .of_rung (j := 4) (by decide) (by rw [barsMapped, hl₂]) (by rw [barsMapped, hl₂])
      (fun _ => by rw [barsMapped, hl₂]) (mapBars_keeps o _)
  have hirqs : Descends 2 (barsMapped o (scanned o present major))
      (irqsSet o (scanned o present major)) :=
    .of_rung (j := 5) (by decide) (by rw [hl₃]) (by rw [hl₃])
      (fun hk => absurd hk (by decide)) (irqSetup_keeps o _)
  exact (hregions.trans hbars).trans hirqs

variable {o}

theorem probe_eq (hreach : o.reachesInterfaces = true) :
    probe o present major = probeInterfaces o (atInterfaces o present major) := by
  simp only [Outcomes.reachesInterfaces, Bool.and_eq_true, Bool.not_eq_true', decide_eq_true_eq]
    at hreach
  obtain ⟨⟨⟨⟨⟨⟨⟨halloc,henable⟩,hvectors⟩,hregions⟩,hbars⟩,hmask⟩,hirqs⟩,hh2c⟩ := hreach
  obtain ⟨entry,msi,hl⟩ := scanned_lro o present major
  obtain ⟨_,_,_,_,_,_,_,_,_,_,hl₃⟩ := irqsSet_mapped o present major
  have hneg : ¬(probeScanForMsi o
      (((probeStart present major).acquire .lro).acquire .device)).1 < 0 := fun hn => by
    simp [(probeScanForMsi_negative o _).mp hn] at hvectors
  have hprobe : probe o present major = probeRegions o (scanned o present major) := by
    unfold probe
    dsimp only
    rw [halloc, if_neg (by decide), if_neg (not_not.mpr henable), if_neg hneg]
    rfl
  have hpass : ¬(probeEngines o (irqsSet o (scanned o present major))).1 ≠ 0 := fun hn => by
    simp [(probeEngines_fails (by rw [hl₃])).mp hn] at hh2c
  rw [hprobe]
  cases probeRegions_ends hl with
  | regions hn _ => exact absurd hregions hn
  | bars _ hn _ =>
    rcases hn with hn | hn
    · rw [hbars] at hn
      cases hn
    · exact absurd hmask hn
  | irqs _ _ _ hn _ =>
    rw [hirqs] at hn
    cases hn
  | devices _ _ _ _ heq =>
    rw [heq]
    unfold probeDevices
    dsimp only
    rw [if_neg hpass]
    rfl

theorem atInterfaces_fresh (hreach : o.reachesInterfaces = true) :
    AtInterfaces o (probeStart present major) (atInterfaces o present major) := by
  simp only [Outcomes.reachesInterfaces, Bool.and_eq_true, Bool.not_eq_true', decide_eq_true_eq]
    at hreach
  obtain ⟨⟨⟨⟨-,hbars⟩,-⟩,-⟩,hh2c⟩ := hreach
  obtain ⟨entry,msi,hl⟩ := scanned_lro o present major
  obtain ⟨_,_,_,_,_,_,_,_,_,_,hl₃⟩ := irqsSet_mapped o present major
  obtain ⟨line,count,hl₃'⟩ := irqsSet_lro o (scanned o present major)
  obtain ⟨n,engine,hl₄⟩ := probeEngines_lro o (irqsSet o (scanned o present major))
  have hfound := barsMapped_found hl hbars
  have ht₁ : SameTable (probeStart present major)
      (((probeStart present major).acquire .lro).acquire .device) := ⟨rfl,rfl,rfl⟩
  have ht₂ : SameTable (probeStart present major) (scanned o present major) :=
    ht₁.trans (probeScanForMsi_table o _)
  have ht₃ : SameTable (scanned o present major) (irqsSet o (scanned o present major)) :=
    ((requestRegions_table o _).trans (mapBars_table o _)).trans (irqSetup_table o _)
  refine ⟨(ht₂.trans ht₃).trans (probeEngines_table o _),?_,?_,?_,?_,?_⟩
  · rw [atInterfaces, hl₄, hl₃]
    exact fun _ => rfl
  · rw [atInterfaces, hl₄, hl₃]
    rfl
  · rw [atInterfaces, hl₄, hl₃']
    exact hfound.1
  · rw [atInterfaces, hl₄, hl₃']
    exact hfound.2
  · exact probeEngines_there (by rw [hl₃]) (fun e => by rw [hl₃]; rfl) hh2c

theorem atInterfaces_regions (hreach : o.reachesInterfaces = true) :
    (atInterfaces o present major).lro.regionsInUse = false := by
  simp only [Outcomes.reachesInterfaces, Bool.and_eq_true, decide_eq_true_eq] at hreach
  obtain ⟨⟨⟨⟨⟨-,hregions⟩,-⟩,-⟩,-⟩,-⟩ := hreach
  obtain ⟨entry,msi,hl⟩ := scanned_lro o present major
  obtain ⟨hbar,hconfig,-,-⟩ := requestRegions_unmapped hl
  obtain ⟨_,_,_,_,hl₂⟩ := mapBars_lro (o := o) hbar hconfig
  obtain ⟨line,count,hl₃⟩ := irqsSet_lro o (scanned o present major)
  obtain ⟨n,engine,hl₄⟩ := probeEngines_lro o (irqsSet o (scanned o present major))
  have hgot : (requestRegions o (scanned o present major)).2.lro.regionsInUse = false := by
    unfold requestRegions
    rw [if_neg (not_not.mpr hregions)]
    simp [hl, allocDevInstance]
  rw [atInterfaces, hl₄, hl₃, barsMapped, hl₂]
  exact hgot

theorem atInterfaces_pages : PagesPolled o (atInterfaces o present major).lro := by
  obtain ⟨_,_,_,_,_,_,_,_,_,_,hl⟩ := irqsSet_mapped o present major
  refine probeEngines_pages fun e eng heng => ?_
  rw [hl] at heng
  cases heng

theorem barsMapped_held (hv : o.vectorsRefused = false) :
    HeldBelow o 7 (barsMapped o (scanned o present major)) := by
  have hscanned : HeldBelow o 7 (scanned o present major) :=
    probeScanForMsi_heldBelow (enabled_heldBelow o present major) rfl hv
  obtain ⟨entry,msi,hl⟩ := scanned_lro o present major
  obtain ⟨hbar,hconfig,-,-⟩ := requestRegions_unmapped hl
  exact mapBars_heldBelow (requestRegions_heldBelow hscanned (by rw [hl]; rfl)) hbar hconfig

theorem atInterfaces_held (hreach : o.reachesInterfaces = true) (hv : o.vectorsRefused = false)
    (hline : o.irqLineTrue = true) : HeldBelow o 7 (atInterfaces o present major) := by
  have hknown : VectorsKnown (scanned o present major).lro := probeScanForMsi_vectors rfl hv
  obtain ⟨entry,msi,hl⟩ := scanned_lro o present major
  obtain ⟨_,_,_,_,_,_,hl₂⟩ := barsMapped_lro hl
  obtain ⟨line,count,hl₃⟩ := irqsSet_lro o (scanned o present major)
  rw [hl₂] at hl₃
  have hirqs : HeldBelow o 7 (irqsSet o (scanned o present major)) :=
    irqSetup_heldBelow (barsMapped_held present major hv) (barsMapped_msix hl) (by rw [hl₂]; rfl)
      (by rw [hl₂]; rfl) hline
  have hready : EnginesReady o (irqsSet o (scanned o present major)) := by
    refine ⟨by rw [hl₃],fun hx => ?_⟩
    rw [hl₃] at hx ⊢
    rw [hl] at hknown
    exact hknown hx
  simp only [Outcomes.reachesInterfaces, Bool.and_eq_true, Bool.not_eq_true'] at hreach
  exact probeEngines_created hirqs hready (fun e => by rw [hl₃]; rfl) hreach.2

theorem atInterfaces_refused (hv : o.vectorsRefused = true) :
    (atInterfaces o present major).lro.msixEnabled = true ∧
      (atInterfaces o present major).holds .msix = some 0 ∨
    (atInterfaces o present major).lro.msixEnabled = false ∧
      (atInterfaces o present major).lro.msiEnabled = true ∧
      (atInterfaces o present major).holds .msi = some 0 := by
  have h₀ := enabled_heldBelow o present major
  have hrefused := probeScanForMsi_refused (o := o)
    (s := ((probeStart present major).acquire .lro).acquire .device) rfl (h₀ .msix) (h₀ .msi) hv
  have hlow := (atInterfaces_descends o present major).1
  rw [hlow.msix, hlow.msi, hlow.keeps .msix (by decide), hlow.keeps .msi (by decide)]
  exact hrefused

theorem atInterfaces_line (hv : o.vectorsRefused = false) (hline : o.irqLineTrue = false) :
    (atInterfaces o present major).lro.msixEnabled = false ∧
      if (atInterfaces o present major).lro.irqLine = -1
      then (atInterfaces o present major).holds .irq = some 1
      else (atInterfaces o present major).holds .irq = some 0 := by
  obtain ⟨entry,msi,hl⟩ := scanned_lro o present major
  obtain ⟨_,_,_,_,_,_,hl₂⟩ := barsMapped_lro hl
  have hirq : (barsMapped o (scanned o present major)).holds .irq = some 0 := by
    rw [barsMapped_held present major hv .irq, hl₂]
    simp [owed, allocDevInstance]
  have hwrong := irqSetup_line (barsMapped_msix hl) hirq hline
  have hlow := (atInterfaces_descends o present major).2
  rw [hlow.msix, hlow.line (Nat.le_refl 5), hlow.keeps .irq (by decide)]
  exact hwrong

end probe

end DmaCamera.Probe
