import DmaCamera.InstanceTable
import DmaCamera.ProbeOutcome
set_option autoImplicit false

namespace DmaCamera.Probe
open Ledger Loops

theorem mem_charSlots (c : CharSlot) : c ∈ charSlots := by
  cases c with
  | user | ctrl | events i | bypassBase => simp [charSlots]
  | sgdma e | bypass e =>
    obtain ⟨channel,fromDev⟩ := e
    cases fromDev <;> simp [charSlots]

theorem nodup_charSlots : charSlots.Nodup := by decide +kernel

theorem genDevMinor_injective {c d : CharSlot} (h : genDevMinor c = genDevMinor d) : c = d := by
  have hnodup : (charSlots.map genDevMinor).Nodup := by decide +kernel
  exact List.inj_on_of_nodup_map hnodup (mem_charSlots c) (mem_charSlots d) h

theorem genDevMinor_small (c : CharSlot) : genDevMinor c < 128#32 := by
  have hall : ∀ c ∈ charSlots, genDevMinor c < 128#32 := by decide +kernel
  exact hall c (mem_charSlots c)

theorem mkdev_getLsbD (major : U32) (c : CharSlot) {i : Nat} (hi : i < 20) :
    (mkdev major (genDevMinor c)).getLsbD i = (genDevMinor c).getLsbD i := by
  simp [mkdev, hi]

theorem mkdev_injective {major major' : U32} {c d : CharSlot}
    (h : mkdev major (genDevMinor c) = mkdev major' (genDevMinor d)) : c = d := by
  refine genDevMinor_injective (BitVec.eq_of_getLsbD_eq fun i _ => ?_)
  by_cases hi : i < 20
  · rw [← mkdev_getLsbD major c hi, h, mkdev_getLsbD major' d hi]
  · have hsmall : ∀ c, (genDevMinor c).getLsbD i = false := by
      intro c
      have hlt := BitVec.lt_def.mp (genDevMinor_small c)
      refine Nat.testBit_lt_two_pow (Nat.lt_of_lt_of_le hlt ?_)
      calc (128#32 : U32).toNat = 2^7 := rfl
        _ ≤ 2^i := Nat.pow_le_pow_right (by decide) (by omega)
    rw [hsmall c, hsmall d]

def Numbered (l : XdmaDev) : Prop :=
  ∀ c n, l.charDev c = some n → ∃ major, n = mkdev major (genDevMinor c)

theorem Numbered.apart {l : XdmaDev} (h : Numbered l) {c d : CharSlot} {n : U32}
    (hc : l.charDev c = some n) (hd : l.charDev d = some n) : c = d := by
  obtain ⟨major,rfl⟩ := h c n hc
  obtain ⟨major',hn⟩ := h d _ hd
  exact mkdev_injective hn

def CharSlot.resources (c : CharSlot) (cdevno : U32) : List Resource :=
  [.sysDevice c,.cdev c,.numbers cdevno 1,.char c]

def charResources (l : XdmaDev) : List Resource :=
  charSlots.flatMap fun c => ((l.charDev c).map c.resources).getD []

theorem mem_charResources {l : XdmaDev} {r : Resource} :
    r ∈ charResources l ↔ ∃ c n, l.charDev c = some n ∧ r ∈ c.resources n := by
  simp only [charResources, List.mem_flatMap, mem_charSlots, true_and]
  constructor
  · rintro ⟨c,hc⟩
    cases hn : l.charDev c with
    | none => simp [hn] at hc
    | some n => exact ⟨c,n,hn,by simpa [hn] using hc⟩
  · rintro ⟨c,n,hn,hr⟩
    exact ⟨c,by simpa [hn] using hr⟩

theorem nodup_charResources {l : XdmaDev} (h : Numbered l) : (charResources l).Nodup := by
  refine List.nodup_flatMap.mpr ⟨fun c _ => ?_,nodup_charSlots.imp fun {c d} hne => ?_⟩
  · cases l.charDev c <;> simp [CharSlot.resources]
  · intro r hr hr'
    cases hc : l.charDev c with
    | none => simp [hc] at hr
    | some n =>
      cases hd : l.charDev d with
      | none => simp [hd] at hr'
      | some m =>
        have hnumber : n ≠ m := fun hnm => hne (h.apart hc (hnm ▸ hd))
        simp only [hc, hd, Option.map_some, Option.getD_some, CharSlot.resources, List.mem_cons,
          List.not_mem_nil, or_false] at hr hr'
        rcases hr with rfl | rfl | rfl | rfl <;> simp [hne, hnumber] at hr'

theorem destroyInterfaces_trace (s : ProbeState) :
    (destroyInterfaces s).trace = s.trace ++ (charResources s.lro).map .release := by
  unfold destroyInterfaces charResources
  generalize charSlots = cs
  induction cs generalizing s with
  | nil => simp
  | cons c cs ih =>
    rw [List.foldl_cons]
    cases hc : s.lro.charDev c with
    | none =>
      dsimp only
      rw [ih s]
      simp [hc]
    | some n =>
      dsimp only
      rw [ih (destroySgChar c n s)]
      simp [destroySgChar, ProbeState.release, CharSlot.resources, hc]

theorem destroyInterfaces_holds {s : ProbeState} (h : Numbered s.lro) (r : Resource) :
    (destroyInterfaces s).holds r =
      if r ∈ charResources s.lro then returned (s.holds r) else s.holds r := by
  rw [ProbeState.holds, destroyInterfaces_trace, balance_released r _ (nodup_charResources h)]
  rfl

theorem unmapBars_holds (s : ProbeState) (r : Resource) : (unmapBars s).holds r =
    if ∃ i, r = .bar i ∧ s.lro.bar i = true then returned (s.holds r) else s.holds r := by
  have hloop : ∀ (is : List (Fin 6)) (s : ProbeState), is.Nodup → (is.foldl unmapBar s).holds r =
      if ∃ i ∈ is, r = .bar i ∧ s.lro.bar i = true then returned (s.holds r) else s.holds r := by
    intro is
    induction is with
    | nil => simp
    | cons i is ih =>
      intro s hnodup
      obtain ⟨hi,hnodup⟩ := List.nodup_cons.mp hnodup
      rw [List.foldl_cons, ih _ hnodup, unmapBar_lro]
      by_cases hr : r = .bar i
      · subst hr
        have hrest : ¬∃ j ∈ is, Resource.bar i = .bar j ∧
            Function.update s.lro.bar i false j = true := by
          rintro ⟨j,hj,heq,-⟩
          exact hi (Resource.bar.inj heq ▸ hj)
        rw [if_neg hrest, unmapBar]
        cases hb : s.lro.bar i with
        | true => simp [hb]
        | false => simp [hb, hi]
      · have hkeep : (unmapBar s i).holds r = s.holds r := by
          unfold unmapBar
          split_ifs
          · simp [Ne.symm hr]
          · rfl
        have hiff : (∃ j ∈ is, r = .bar j ∧ Function.update s.lro.bar i false j = true) ↔
            ∃ j ∈ i :: is, r = .bar j ∧ s.lro.bar j = true := by
          constructor
          · rintro ⟨j,hj,rfl,hb⟩
            have hne : j ≠ i := fun h => hr (h ▸ rfl)
            exact ⟨j,List.mem_cons_of_mem _ hj,rfl,by simpa [hne] using hb⟩
          · rintro ⟨j,hj,rfl,hb⟩
            have hne : j ≠ i := fun h => hr (h ▸ rfl)
            exact ⟨j,(List.mem_cons.mp hj).resolve_left hne,rfl,by simpa [hne] using hb⟩
        rw [hkeep, if_congr hiff rfl rfl]
  have hall := hloop (List.finRange 6) s (List.nodup_finRange 6)
  exact hall.trans (if_congr (by simp) rfl rfl)

def Given (o : Outcomes) (l : XdmaDev) (r : Resource) : Prop :=
  r ∈ charResources l ∨ (r.level < 7 ∧ r ≠ .device ∧ owed o l r = true) ∨
    (r = .device ∧ l.regionsInUse = false) ∨ r = .slot l.instanceNo ∨ r = .attribute

theorem charResources_level {l : XdmaDev} {r : Resource} (h : r ∈ charResources l) :
    r.ofChar = true := by
  obtain ⟨c,n,-,hr⟩ := mem_charResources.mp h
  simp only [CharSlot.resources, List.mem_cons, List.not_mem_nil, or_false] at hr
  rcases hr with rfl | rfl | rfl | rfl <;> rfl

def removedDevices (o : Outcomes) (s : ProbeState) : ProbeState :=
  unmapBars (irqTeardown (removeEngines o (destroyInterfaces s)))

theorem removedDevices_lro (o : Outcomes) (s : ProbeState) : ∃ n, (removedDevices o s).lro =
    { s.lro with bar := fun _ => false, enginesNum := n } := by
  obtain ⟨-,n,hl⟩ := removeEngines_eq o (destroyInterfaces s)
  refine ⟨n,?_⟩
  rw [removedDevices, unmapBars_lro, irqTeardown_lro, hl, (destroyInterfaces_frame s).1]

theorem removedDevices_holds (o : Outcomes) {s : ProbeState} (h : Numbered s.lro) (r : Resource) :
    (removedDevices o s).holds r =
      if r ∈ charResources s.lro ∨ (4 ≤ r.level ∧ r.level < 7 ∧ owed o s.lro r = true)
      then returned (s.holds r) else s.holds r := by
  have hlro := (destroyInterfaces_frame s).1
  obtain ⟨-,n,hengines⟩ := removeEngines_eq o (destroyInterfaces s)
  have howed : ∀ r, owed o (removeEngines o (destroyInterfaces s)).lro r = owed o s.lro r := by
    intro r
    rw [hengines, hlro]
    cases r <;> rfl
  have hbar : (irqTeardown (removeEngines o (destroyInterfaces s))).lro.bar = s.lro.bar := by
    rw [irqTeardown_lro, hengines, hlro]
  have hchar : r ∈ charResources s.lro → r.level = 7 := by
    intro hr
    have hof := charResources_level hr
    cases r <;> simp [Resource.ofChar] at hof <;> rfl
  rw [removedDevices, unmapBars_holds, hbar, irqTeardown_holds o, howed, removeEngines_holds, hlro,
    destroyInterfaces_holds h]
  by_cases hr : r ∈ charResources s.lro
  · have hlevel := hchar hr
    have hnot : ¬∃ i, r = .bar i ∧ s.lro.bar i = true := by
      rintro ⟨i,rfl,-⟩
      cases hlevel
    simp [hr, hlevel, hnot]
  · cases r with
    | bar i => simp [hr, Resource.level, owed]
    | _ => simp [hr, Resource.level]

def lastResources (l : XdmaDev) : List Resource :=
  (if l.gotRegions then [.regions] else []) ++
    (if l.msixEnabled then [.msix] else if l.msiEnabled then [.msi] else []) ++
    (if l.regionsInUse then [] else [.device]) ++ [.slot l.instanceNo,.attribute,.lro]

theorem mem_lastResources {o : Outcomes} {l : XdmaDev} {r : Resource} :
    r ∈ lastResources l ↔ (r.level < 4 ∧ r ≠ .device ∧ owed o l r = true) ∨
      (r = .device ∧ l.regionsInUse = false) ∨ r = .slot l.instanceNo ∨ r = .attribute := by
  have hvectors : (r ∈ if l.msixEnabled then [Resource.msix]
        else if l.msiEnabled then [.msi] else []) ↔
      (l.msixEnabled = true ∧ r = .msix) ∨
        (l.msixEnabled = false ∧ l.msiEnabled = true ∧ r = .msi) := by
    cases l.msixEnabled <;> cases l.msiEnabled <;> simp
  unfold lastResources
  simp only [List.mem_append, hvectors]
  cases r <;> simp [Resource.level, owed]

theorem nodup_lastResources (l : XdmaDev) : (lastResources l).Nodup := by
  unfold lastResources
  split_ifs <;> simp

theorem remove_trace (o : Outcomes) (s : ProbeState) : (remove o s).trace =
    (removedDevices o s).trace ++ (lastResources s.lro).map .release := by
  obtain ⟨n,hl⟩ := removedDevices_lro o s
  unfold remove lastResources
  rw [← removedDevices]
  generalize removedDevices o s = s₁ at hl
  simp only [ProbeState.release, ProbeState.setLro, ProbeState.mark]
  split_ifs <;> simp_all

theorem remove_holds (o : Outcomes) {s : ProbeState} (h : Numbered s.lro) (r : Resource)
    [Decidable (Given o s.lro r)] : (remove o s).holds r =
      if Given o s.lro r then returned (s.holds r) else s.holds r := by
  have hdevices := removedDevices_holds o h r
  rw [ProbeState.holds, remove_trace, balance_released r _ (nodup_lastResources _)]
  change (if _ then returned ((removedDevices o s).holds r) else (removedDevices o s).holds r) = _
  rw [hdevices]
  have hlast := mem_lastResources (o := o) (l := s.lro) (r := r)
  by_cases hr : r ∈ charResources s.lro
  · have hnot : r ∉ lastResources s.lro := by
      have hof := charResources_level hr
      rw [hlast]
      cases r <;> simp [Resource.ofChar, Resource.level] at hof ⊢
    simp [hr, hnot, Given]
  · simp only [hr, false_or]
    by_cases hlow : r.level < 4
    · have hmid : ¬(4 ≤ r.level ∧ r.level < 7 ∧ owed o s.lro r = true) := fun hm => by omega
      have hgiven : Given o s.lro r ↔ r ∈ lastResources s.lro := by
        rw [hlast, Given]
        have h7 : r.level < 7 := by omega
        simp [hr, hlow, h7]
      rw [if_neg hmid, if_congr hgiven rfl rfl]
    · cases r <;> simp [Resource.level, Given, hlast, hr] at hlow ⊢

end DmaCamera.Probe
