import DmaCamera.ProbeUnwind
set_option autoImplicit false

namespace DmaCamera.Probe
open Ledger Loops

def Resource.ofChar : Resource → Bool
  | .numbers _ _ | .char _ | .cdev _ | .sysDevice _ => true
  | _ => false

/-- How the search of the table ends. -/
theorem slotSearch_spec (present : Nat → Bool) : slotSearch present ≤ maxXdmaDevices ∧
    (∀ j < slotSearch present, present j = true) ∧
    (slotSearch present < maxXdmaDevices → present (slotSearch present) = false) := by
  have hkeep : ∀ k i, (i = k ∧ ∀ j < k, present j = true) →
      (present i && decide (i < maxXdmaDevices)) = true →
      i+1 = k+1 ∧ ∀ j < k+1, present j = true := by
    rintro k i ⟨rfl,hall⟩ hmore
    refine ⟨rfl,fun j hj => ?_⟩
    rcases Nat.lt_succ_iff_lt_or_eq.mp hj with hj | rfl
    · exact hall j hj
    · exact (Bool.and_eq_true_iff.mp hmore).1
  obtain ⟨k,hk,⟨heq,hall⟩,hend⟩ := whileLoop_rounds
    (fun k i => i = k ∧ ∀ j < k, present j = true) maxXdmaDevices
    (a := 0) (z := 0) ⟨rfl,fun j hj => absurd hj (Nat.not_lt_zero j)⟩ hkeep
  have hi : slotSearch present = k := heq.trans (Nat.zero_add k)
  rw [hi]
  rw [Nat.zero_add] at hall
  refine ⟨hk,hall,fun hlt => ?_⟩
  rcases hend with hend | hend
  · rw [heq, Nat.zero_add] at hend
    simpa [hlt] using hend
  · omega

theorem slotSearch_full {present : Nat → Bool} :
    slotSearch present = maxXdmaDevices ↔ ∀ i < maxXdmaDevices, present i = true := by
  obtain ⟨hle,hall,hfree⟩ := slotSearch_spec present
  constructor
  · intro h i hi
    exact hall i (h ▸ hi)
  · intro h
    by_contra hne
    have hlt : slotSearch present < maxXdmaDevices := by omega
    rw [h _ hlt] at hfree
    exact absurd (hfree hlt) (by decide)

theorem registerChar_frame (o : Outcomes) (c : CharSlot) (n : U32) (s : ProbeState) :
    (registerChar o c n s).2.lro = s.lro ∧ (registerChar o c n s).2.present = s.present ∧
      (registerChar o c n s).2.slotReads = s.slotReads ∧
      (registerChar o c n s).2.major = s.major := by
  unfold registerChar
  dsimp only
  cases o.deviceCreate c with
  | null => split_ifs <;> exact ⟨rfl,rfl,rfl,rfl⟩
  | error => split_ifs <;> exact ⟨rfl,rfl,rfl,rfl⟩
  | device => split_ifs <;> exact ⟨rfl,rfl,rfl,rfl⟩

theorem registerChar_keeps (o : Outcomes) (c : CharSlot) (n : U32) (s : ProbeState) :
    Keeps (fun r => r.ofChar = false) s (registerChar o c n s).2 := by
  intro r hr
  have hne : ∀ r' : Resource, r'.ofChar = true → r' ≠ r := by
    rintro r' hr' rfl
    rw [hr'] at hr
    cases hr
  have hchar := hne (.char c) rfl
  have hcdev := hne (.cdev c) rfl
  have hsys := hne (.sysDevice c) rfl
  have hone := hne (.numbers n 1) rfl
  have hmany := hne (.numbers n xdmaMinorCount) rfl
  unfold registerChar
  dsimp only
  cases o.deviceCreate c with
  | null => split_ifs <;> simp [hchar, hcdev, hone, hmany]
  | error => split_ifs <;> simp [hchar, hcdev, hone, hmany]
  | device => split_ifs <;> simp [hchar, hcdev, hsys, hone, hmany]

theorem newInstance_again {o : Outcomes} {c : CharSlot} {s : ProbeState} (h : s.lro.major ≠ 0) :
    newInstance o c s = (true,s) := if_pos h

/-- No slot is free; the element behind the table has been read. -/
theorem newInstance_full {o : Outcomes} {c : CharSlot} {s : ProbeState} (h : s.lro.major = 0)
    (hfull : slotSearch s.present = maxXdmaDevices) : newInstance o c s =
      (false,{ s with slotReads := s.slotReads ++ List.range (maxXdmaDevices+1) }) := by
  unfold newInstance
  rw [if_neg (not_not.mpr h), hfull]
  rfl

/-- The major number that an instance begins with: 0 if none was to be had. -/
def majorTaken (o : Outcomes) (c : CharSlot) (s : ProbeState) : U32 := (genDevMajor o c s).1

theorem majorTaken_eq_zero {o : Outcomes} {c : CharSlot} {s : ProbeState} :
    majorTaken o c s = 0 ↔ s.major = 0 ∧ o.allocChrdevRegion c = none := by
  unfold majorTaken genDevMajor
  split_ifs with h
  · cases hn : o.allocChrdevRegion c with
    | none => simp [h]
    | some n => simpa [h] using o.allocChrdevRegion_major c n hn
  · exact iff_of_false h fun hn => h hn.1

theorem genDevMajor_frame (o : Outcomes) (c : CharSlot) (s : ProbeState) :
    (genDevMajor o c s).2.lro = s.lro ∧ (genDevMajor o c s).2.present = s.present ∧
      (genDevMajor o c s).2.slotReads = s.slotReads ∧
      Keeps (fun r => r.ofChar = false) s (genDevMajor o c s).2 := by
  unfold genDevMajor
  split_ifs
  · cases o.allocChrdevRegion c with
    | none => exact ⟨rfl,rfl,rfl,Keeps.refl _ s⟩
    | some n => exact ⟨rfl,rfl,rfl,(Keeps.refl _ s).acquire (by simp [Resource.ofChar])⟩
  · exact ⟨rfl,rfl,rfl,Keeps.refl _ s⟩

theorem majorTaken_congr {o : Outcomes} {c : CharSlot} {s s' : ProbeState}
    (h : s'.major = s.major) : majorTaken o c s' = majorTaken o c s := by
  unfold majorTaken genDevMajor
  rw [h]
  split_ifs
  · cases o.allocChrdevRegion c <;> rfl
  · rfl

structure Claimed (i : Nat) (s s' : ProbeState) : Prop where
  present : s'.present = Function.update s.present i true
  slotReads : s'.slotReads = s.slotReads ++ List.range (i+1)
  lro : ∃ m, s'.lro = { s.lro with instanceNo := i, major := m }
  slot : s'.holds (.slot i) = (s.holds (.slot i)).map (· + 1)
  keeps : Keeps (fun r => r.ofChar = false ∧ r ≠ .slot i) s s'

theorem newInstance_claimed {o : Outcomes} {c : CharSlot} {s : ProbeState} (h : s.lro.major = 0)
    (hfree : slotSearch s.present ≠ maxXdmaDevices) : (newInstance o c s).1 = true ∧
      Claimed (slotSearch s.present) s (newInstance o c s).2 ∧
      (newInstance o c s).2.lro.major = majorTaken o c s := by
  unfold newInstance
  rw [if_neg (not_not.mpr h)]
  dsimp only
  rw [if_neg hfree]
  obtain ⟨s₁,hs₁⟩ : ∃ s₁, s₁ = (((({ s with
      slotReads := s.slotReads ++ List.range (slotSearch s.present+1) } : ProbeState).mark
      (slotSearch s.present) true).acquire (.slot (slotSearch s.present))).setLro
      fun l => { l with instanceNo := slotSearch s.present }) := ⟨_,rfl⟩
  rw [← hs₁]
  obtain ⟨hlro,hpresent,hreads,hkeeps⟩ := genDevMajor_frame o c s₁
  have hmajor : majorTaken o c s₁ = majorTaken o c s := majorTaken_congr (by rw [hs₁]; rfl)
  refine ⟨rfl,⟨hpresent.trans ?_,hreads.trans ?_,⟨(genDevMajor o c s₁).1,?_⟩,?_,?_⟩,hmajor⟩
  · rw [hs₁]
    rfl
  · rw [hs₁]
    rfl
  · rw [ProbeState.lro_setLro, hlro, hs₁]
    rfl
  · rw [ProbeState.holds_setLro, hkeeps _ rfl, hs₁, ProbeState.holds_setLro,
      ProbeState.holds_acquire, if_pos rfl]
    rfl
  · rintro r ⟨hr,hne⟩
    rw [ProbeState.holds_setLro, hkeeps _ hr, hs₁, ProbeState.holds_setLro,
      ProbeState.holds_acquire, if_neg (Ne.symm hne)]
    rfl

/-- A creation that gets no further than the memory and the instance number. -/
def createsNothing (o : Outcomes) (c : CharSlot) (s : ProbeState) : Bool :=
  !o.charAlloc c ||
    (decide (s.lro.major = 0) && decide (slotSearch s.present = maxXdmaDevices))

theorem createSgChar_nothing {o : Outcomes} {c : CharSlot} {s : ProbeState}
    (h : createsNothing o c s = true) : (createSgChar o c s).1 = none ∧
      (createSgChar o c s).2.lro = s.lro ∧ (createSgChar o c s).2.present = s.present ∧
      ∀ r, (createSgChar o c s).2.holds r = s.holds r := by
  unfold createSgChar
  cases halloc : o.charAlloc c with
  | false => exact ⟨rfl,rfl,rfl,fun _ => rfl⟩
  | true =>
    simp only [createsNothing, halloc, Bool.not_true, Bool.false_or, Bool.and_eq_true,
      decide_eq_true_eq] at h
    have hfull := newInstance_full (o := o) (c := c) (s := s.acquire (.char c)) h.1 h.2
    rw [hfull]
    exact ⟨rfl,rfl,rfl,ProbeState.holds_undo fun _ => rfl⟩

theorem createSgChar_claims {o : Outcomes} {c : CharSlot} {s : ProbeState}
    (halloc : o.charAlloc c = true) (h : s.lro.major = 0)
    (hfree : slotSearch s.present ≠ maxXdmaDevices) :
    Claimed (slotSearch s.present) s (createSgChar o c s).2 ∧
      (createSgChar o c s).2.lro.major = majorTaken o c s := by
  obtain ⟨hfound,hclaimed,hmajor⟩ := newInstance_claimed (o := o) (c := c)
    (s := s.acquire (.char c)) h hfree
  unfold createSgChar
  rw [halloc]
  dsimp only
  rw [hfound]
  obtain ⟨s₁,hs₁⟩ : ∃ s₁, s₁ = (newInstance o c (s.acquire (.char c))).2 := ⟨_,rfl⟩
  rw [← hs₁] at hclaimed hmajor ⊢
  obtain ⟨hlro,hpresent,hreads,-⟩ :=
    registerChar_frame o c (mkdev s₁.lro.major (genDevMinor c)) s₁
  have hkeeps := registerChar_keeps o c (mkdev s₁.lro.major (genDevMinor c)) s₁
  have hchar : ∀ {r : Resource}, r.ofChar = false → Resource.char c ≠ r := by
    rintro r hr rfl
    cases hr
  refine ⟨⟨hpresent.trans hclaimed.present,hreads.trans hclaimed.slotReads,?_,?_,?_⟩,?_⟩
  · obtain ⟨m,hm⟩ := hclaimed.lro
    exact ⟨m,hlro.trans hm⟩
  · refine (hkeeps _ rfl).trans (hclaimed.slot.trans ?_)
    rw [ProbeState.holds_acquire, if_neg (hchar rfl)]
    rfl
  · rintro r ⟨hr,hne⟩
    refine (hkeeps r hr).trans ((hclaimed.keeps r ⟨hr,hne⟩).trans ?_)
    rw [ProbeState.holds_acquire, if_neg (hchar hr)]
  · exact (congrArg XdmaDev.major hlro).trans (hmajor.trans (majorTaken_congr rfl))

theorem createSgChar_again {o : Outcomes} {c : CharSlot} {s : ProbeState}
    (h : s.lro.major ≠ 0) : (createSgChar o c s).2.lro = s.lro ∧
      (createSgChar o c s).2.present = s.present ∧
      (createSgChar o c s).2.slotReads = s.slotReads ∧
      Keeps (fun r => r.ofChar = false) s (createSgChar o c s).2 := by
  unfold createSgChar
  cases halloc : o.charAlloc c with
  | false => exact ⟨rfl,rfl,rfl,Keeps.refl _ s⟩
  | true =>
    have hagain := newInstance_again (o := o) (c := c) (s := s.acquire (.char c)) h
    rw [hagain]
    obtain ⟨hlro,hpresent,hreads,-⟩ :=
      registerChar_frame o c (mkdev s.lro.major (genDevMinor c)) (s.acquire (.char c))
    exact ⟨hlro,hpresent,hreads,((Keeps.refl _ s).acquire (by simp [Resource.ofChar])).trans
      (registerChar_keeps o c _ _)⟩

def SlotsGrow (s s' : ProbeState) : Prop :=
  ∀ i n, s.holds (.slot i) = some n → ∃ m, n ≤ m ∧ s'.holds (.slot i) = some m

theorem SlotsGrow.of_keeps {s s' : ProbeState} (h : Keeps (fun r => r.ofChar = false) s s') :
    SlotsGrow s s' := fun i n hn => ⟨n,Nat.le_refl n,(h (.slot i) rfl).trans hn⟩

theorem SlotsGrow.trans {s₁ s₂ s₃ : ProbeState} (h : SlotsGrow s₁ s₂) (h' : SlotsGrow s₂ s₃) :
    SlotsGrow s₁ s₃ := fun i n hn => by
  obtain ⟨m,hm,hs⟩ := h i n hn
  obtain ⟨k,hk,ht⟩ := h' i m hs
  exact ⟨k,hm.trans hk,ht⟩

/-- What holds of any creation: it reaches the character devices, the slots and the
numbers of the device, and no slot is given up. -/
structure InterfaceStep (s s' : ProbeState) : Prop where
  lro : ∃ charDev m i,
    s'.lro = { s.lro with charDev := charDev, major := m, instanceNo := i }
  keeps : Keeps (fun r => r.level ≠ 7 ∨ r = .attribute) s s'
  slots : SlotsGrow s s'

theorem ofChar_of_level {r : Resource} (h : r.level ≠ 7 ∨ r = .attribute) :
    r.ofChar = false ∧ ∀ i, r ≠ .slot i := by
  cases r <;> simp [Resource.level, Resource.ofChar] at h ⊢

theorem InterfaceStep.refl (s : ProbeState) : InterfaceStep s s :=
  ⟨⟨_,_,_,rfl⟩,Keeps.refl _ s,SlotsGrow.of_keeps (Keeps.refl _ s)⟩

theorem InterfaceStep.trans {s₁ s₂ s₃ : ProbeState} (h : InterfaceStep s₁ s₂)
    (h' : InterfaceStep s₂ s₃) : InterfaceStep s₁ s₃ := by
  obtain ⟨d,m,i,hl⟩ := h.lro
  obtain ⟨d',m',i',hl'⟩ := h'.lro
  rw [hl] at hl'
  exact ⟨⟨d',m',i',hl'⟩,h.keeps.trans h'.keeps,h.slots.trans h'.slots⟩

theorem createSgChar_step (o : Outcomes) (c : CharSlot) (s : ProbeState) :
    InterfaceStep s (createSgChar o c s).2 := by
  cases hn : createsNothing o c s with
  | true =>
    obtain ⟨-,hlro,-,hholds⟩ := createSgChar_nothing hn
    exact ⟨⟨_,_,_,hlro⟩,fun r _ => hholds r,SlotsGrow.of_keeps fun r _ => hholds r⟩
  | false =>
    simp only [createsNothing, Bool.or_eq_false_iff, Bool.and_eq_false_iff,
      decide_eq_false_iff_not] at hn
    obtain ⟨halloc,hn⟩ := hn
    have halloc : o.charAlloc c = true := by simpa using halloc
    by_cases hm : s.lro.major = 0
    · have hfree := hn.resolve_left (not_not.mpr hm)
      obtain ⟨⟨-,-,⟨m,hlro⟩,hslot,hkeeps⟩,-⟩ := createSgChar_claims halloc hm hfree
      refine ⟨⟨_,_,_,hlro⟩,fun r hr => ?_,fun i n hi => ?_⟩
      · exact hkeeps r ⟨(ofChar_of_level hr).1,(ofChar_of_level hr).2 _⟩
      · by_cases his : i = slotSearch s.present
        · rw [his] at hi ⊢
          exact ⟨n+1,Nat.le_succ n,by rw [hslot, hi]; rfl⟩
        · refine ⟨n,Nat.le_refl n,(hkeeps (.slot i) ⟨rfl,fun heq => his ?_⟩).trans hi⟩
          exact Resource.slot.inj heq
    · obtain ⟨hlro,-,-,hkeeps⟩ := createSgChar_again (o := o) (c := c) hm
      exact ⟨⟨_,_,_,hlro⟩,hkeeps.mono fun r hr => (ofChar_of_level hr).1,SlotsGrow.of_keeps hkeeps⟩

theorem createInterface_step (o : Outcomes) (c : CharSlot) (s : ProbeState) :
    InterfaceStep s (createInterface o c s).2 := by
  obtain ⟨⟨d,m,i,hl⟩,hkeeps,hslots⟩ := createSgChar_step o c s
  unfold createInterface
  exact ⟨⟨_,_,_,by rw [ProbeState.lro_setLro, hl]⟩,hkeeps.setLro _,hslots⟩

theorem destroyInterfaces_frame (s : ProbeState) :
    (destroyInterfaces s).lro = s.lro ∧ (destroyInterfaces s).present = s.present ∧
      (destroyInterfaces s).slotReads = s.slotReads ∧
      (destroyInterfaces s).major = s.major ∧
      Keeps (fun r => r.ofChar = false) s (destroyInterfaces s) := by
  unfold destroyInterfaces
  generalize charSlots = cs
  induction cs generalizing s with
  | nil => exact ⟨rfl,rfl,rfl,rfl,Keeps.refl _ s⟩
  | cons c cs ih =>
    rw [List.foldl_cons]
    cases s.lro.charDev c with
    | none => exact ih s
    | some n =>
      obtain ⟨h₁,h₂,h₃,h₄,h₅⟩ := ih (destroySgChar c n s)
      refine ⟨h₁,h₂,h₃,h₄,Keeps.trans ?_ h₅⟩
      unfold destroySgChar
      exact ((((Keeps.refl _ s).release (by simp [Resource.ofChar])).release
        (by simp [Resource.ofChar])).release (by simp [Resource.ofChar])).release
        (by simp [Resource.ofChar])

theorem destroyInterfaces_none {s : ProbeState} (h : ∀ c, s.lro.charDev c = none) :
    destroyInterfaces s = s := by
  unfold destroyInterfaces
  generalize charSlots = cs
  induction cs with
  | nil => rfl
  | cons c cs ih =>
    rw [List.foldl_cons]
    simp only [h]
    simpa [h] using ih

def firstChar (l : XdmaDev) : CharSlot := if l.userBarIdx.isSome then .user else .ctrl

def Outcomes.firstChar (o : Outcomes) : CharSlot := if o.hasUserBar then .user else .ctrl

theorem firstChar_eq {o : Outcomes} {l : XdmaDev} (h : l.userBarIdx.isSome = o.hasUserBar) :
    firstChar l = o.firstChar := by
  unfold firstChar Outcomes.firstChar
  rw [h]

theorem firstChar_required (l : XdmaDev) : (firstChar l).required = true := by
  unfold firstChar
  split_ifs <;> rfl

theorem interfaces_cons (l : XdmaDev) : ∃ cs, interfaces l = firstChar l :: cs := by
  unfold interfaces firstChar
  cases l.userBarIdx.isSome with
  | true => exact ⟨_,rfl⟩
  | false => exact ⟨_,rfl⟩

theorem createLoop_step (o : Outcomes) (cs : List CharSlot) (s : ProbeState) :
    InterfaceStep s (tryEach (createInterface o) cs s).2 :=
  tryEach_invariant (InterfaceStep s) (InterfaceStep.refl s)
    fun c _ s' h => h.trans (createInterface_step o c s')

theorem destroyInterfaces_step (s : ProbeState) : InterfaceStep s (destroyInterfaces s) := by
  obtain ⟨hlro,-,-,-,hkeeps⟩ := destroyInterfaces_frame s
  exact ⟨⟨_,_,_,hlro⟩,hkeeps.mono fun r hr => (ofChar_of_level hr).1,SlotsGrow.of_keeps hkeeps⟩

theorem createInterfaces_step (o : Outcomes) (s : ProbeState) :
    InterfaceStep s (createInterfaces o s).2 := by
  unfold createInterfaces
  dsimp only
  split_ifs
  · exact (createLoop_step o _ s).trans (destroyInterfaces_step _)
  · exact createLoop_step o _ s

theorem createInterfaces_nothing {o : Outcomes} {s : ProbeState}
    (hnone : ∀ c, s.lro.charDev c = none) (h : createsNothing o (firstChar s.lro) s = true) :
    (createInterfaces o s).1 ≠ 0 ∧ (createInterfaces o s).2.lro = s.lro ∧
      (createInterfaces o s).2.present = s.present ∧
      ∀ r, (createInterfaces o s).2.holds r = s.holds r := by
  obtain ⟨hnothing,hlro,hpresent,hholds⟩ := createSgChar_nothing h
  obtain ⟨cs,hcs⟩ := interfaces_cons s.lro
  have hstate : (createInterface o (firstChar s.lro) s).2.lro = s.lro := by
    unfold createInterface
    dsimp only
    rw [hnothing, ProbeState.lro_setLro, hlro, ← hnone (firstChar s.lro), Function.update_eq_self]
  have hfail : (createInterface o (firstChar s.lro) s).1 ≠ 0 := by
    unfold createInterface
    simp [hnothing, firstChar_required]
  have hdestroy : destroyInterfaces (createInterface o (firstChar s.lro) s).2 =
      (createInterface o (firstChar s.lro) s).2 :=
    destroyInterfaces_none fun c => by rw [hstate]; exact hnone c
  unfold createInterfaces
  rw [hcs, tryEach_cons_of_fails cs hfail]
  dsimp only
  rw [if_pos hfail, hdestroy]
  exact ⟨by simp,hstate,hpresent,hholds⟩

/-- Otherwise a slot has been taken, for good. -/
theorem createInterfaces_slot {o : Outcomes} {s : ProbeState} (hm : s.lro.major = 0)
    (hzero : ∀ i, s.holds (.slot i) = some 0)
    (h : createsNothing o (firstChar s.lro) s = false) :
    ∃ i n, (createInterfaces o s).2.holds (.slot i) = some (n+1) := by
  obtain ⟨cs,hcs⟩ := interfaces_cons s.lro
  simp only [createsNothing, hm, Bool.or_eq_false_iff, decide_true, Bool.true_and,
    decide_eq_false_iff_not] at h
  obtain ⟨halloc,hfree⟩ := h
  have hclaimed := (createSgChar_claims (by simpa using halloc) hm hfree).1
  have hone : (createInterface o (firstChar s.lro) s).2.holds (.slot (slotSearch s.present)) =
      some 1 := by
    refine hclaimed.slot.trans ?_
    rw [hzero]
    rfl
  have hgrow : SlotsGrow (createInterface o (firstChar s.lro) s).2 (createInterfaces o s).2 := by
    have hloop : SlotsGrow (createInterface o (firstChar s.lro) s).2
        (tryEach (createInterface o) (interfaces s.lro) s).2 := by
      rw [hcs]
      by_cases hrc : (createInterface o (firstChar s.lro) s).1 = 0
      · rw [tryEach_cons_of_passes cs hrc]
        exact (createLoop_step o cs _).slots
      · rw [tryEach_cons_of_fails cs hrc]
        exact (InterfaceStep.refl _).slots
    unfold createInterfaces
    dsimp only
    split_ifs
    · exact hloop.trans (destroyInterfaces_step _).slots
    · exact hloop
  obtain ⟨m,hle,hs⟩ := hgrow _ _ hone
  exact ⟨_,m-1,by rw [hs, Nat.sub_add_cancel hle]⟩

end DmaCamera.Probe
