import DmaCamera.ProbeUnwind
set_option autoImplicit false

namespace DmaCamera.Probe
open Ledger Loops

def XdmaEngine.resources (o : Outcomes) (e : EngineSlot) (eng : XdmaEngine) : List Resource :=
  (if eng.msixIrqLine ≠ 0 then [.engineIrq e] else []) ++
    (if o.pollMode && eng.writeback then [.writeback e] else []) ++ [.engine e]

def engineResources (o : Outcomes) (l : XdmaDev) : List Resource :=
  engineSlots.flatMap fun e => ((l.engine e).map (XdmaEngine.resources o e)).getD []

theorem mem_resources {o : Outcomes} {e : EngineSlot} {eng : XdmaEngine} {r : Resource} :
    r ∈ eng.resources o e ↔ r = .engine e ∨ (r = .engineIrq e ∧ eng.msixIrqLine ≠ 0) ∨
      (r = .writeback e ∧ (o.pollMode && eng.writeback) = true) := by
  simp only [XdmaEngine.resources, List.mem_append, List.mem_ite_nil_right, List.mem_singleton]
  tauto

theorem nodup_resources (o : Outcomes) (e : EngineSlot) (eng : XdmaEngine) :
    (eng.resources o e).Nodup := by
  unfold XdmaEngine.resources
  split_ifs <;> simp

theorem mem_engineSlots (e : EngineSlot) : e ∈ engineSlots := by
  obtain ⟨c,d⟩ := e
  cases d <;> simp [engineSlots]

theorem nodup_engineSlots : engineSlots.Nodup := by decide

theorem mem_engineResources {o : Outcomes} {l : XdmaDev} {r : Resource} :
    r ∈ engineResources o l ↔ r.level = 6 ∧ owed o l r = true := by
  have hmem : r ∈ engineResources o l ↔
      ∃ e eng, l.engine e = some eng ∧ r ∈ eng.resources o e := by
    simp only [engineResources, List.mem_flatMap, mem_engineSlots, true_and]
    constructor
    · rintro ⟨e,he⟩
      cases heng : l.engine e with
      | none => simp [heng] at he
      | some eng => exact ⟨e,eng,heng,by simpa [heng] using he⟩
    · rintro ⟨e,eng,heng,he⟩
      exact ⟨e,by simpa [heng] using he⟩
  rw [hmem]
  constructor
  · rintro ⟨e,eng,heng,he⟩
    rcases mem_resources.mp he with rfl | ⟨rfl,hl⟩ | ⟨rfl,hw⟩
    · exact ⟨rfl,by simp [owed, heng]⟩
    · exact ⟨rfl,by simp [owed, heng, hl]⟩
    · exact ⟨rfl,by simpa [owed, heng] using hw⟩
  · rintro ⟨hlevel,howed⟩
    cases r with
    | engine e =>
      obtain ⟨eng,heng⟩ := Option.isSome_iff_exists.mp howed
      exact ⟨e,eng,heng,mem_resources.mpr (Or.inl rfl)⟩
    | engineIrq e =>
      obtain ⟨eng,heng,hl⟩ := (Option.any_eq_true _ _).mp howed
      exact ⟨e,eng,heng,mem_resources.mpr (Or.inr (Or.inl ⟨rfl,by simpa using hl⟩))⟩
    | writeback e =>
      obtain ⟨eng,heng,hw⟩ := (Option.any_eq_true _ _).mp howed
      exact ⟨e,eng,heng,mem_resources.mpr (Or.inr (Or.inr ⟨rfl,hw⟩))⟩
    | _ => simp [Resource.level] at hlevel

theorem nodup_engineResources (o : Outcomes) (l : XdmaDev) : (engineResources o l).Nodup := by
  refine List.nodup_flatMap.mpr ⟨fun e _ => ?_,nodup_engineSlots.imp fun {e e'} hne => ?_⟩
  · cases l.engine e with
    | none => simp
    | some eng => exact nodup_resources o e eng
  · intro r hr hr'
    cases heng : l.engine e with
    | none => simp [heng] at hr
    | some eng =>
      cases heng' : l.engine e' with
      | none => simp [heng'] at hr'
      | some eng' =>
        have hm := mem_resources.mp (by simpa [heng] using hr)
        have hm' := mem_resources.mp (by simpa [heng'] using hr')
        rcases hm with rfl | ⟨rfl,-⟩ | ⟨rfl,-⟩ <;> simp [hne] at hm'

theorem engineDestroy_eq (o : Outcomes) (e : EngineSlot) (eng : XdmaEngine) (s : ProbeState) :
    (engineDestroy o e eng s).trace = s.trace ++ (eng.resources o e).map .release ∧
      (engineDestroy o e eng s).lro = { s.lro with enginesNum := s.lro.enginesNum-1 } := by
  unfold engineDestroy engineMsixTeardown XdmaEngine.resources
  split_ifs <;> simp [ProbeState.release, ProbeState.setLro]

theorem removeEngines_eq (o : Outcomes) (s : ProbeState) :
    (removeEngines o s).trace = s.trace ++ (engineResources o s.lro).map .release ∧
      ∃ n, (removeEngines o s).lro = { s.lro with enginesNum := n } := by
  unfold removeEngines engineResources
  generalize engineSlots = es
  induction es generalizing s with
  | nil => exact ⟨by simp,_,rfl⟩
  | cons e es ih =>
    rw [List.foldl_cons]
    cases heng : s.lro.engine e with
    | none =>
      obtain ⟨ht,hl⟩ := ih s
      exact ⟨by rw [ht]; simp [heng],hl⟩
    | some eng =>
      obtain ⟨ht,n,hl⟩ := ih (engineDestroy o e eng s)
      obtain ⟨ht',hl'⟩ := engineDestroy_eq o e eng s
      refine ⟨?_,n,?_⟩
      · dsimp only
        rw [ht, ht', hl']
        simp [heng]
      · dsimp only
        rw [hl, hl']

theorem removeEngines_holds (o : Outcomes) (s : ProbeState) (r : Resource) :
    (removeEngines o s).holds r =
      if r.level = 6 ∧ owed o s.lro r = true then returned (s.holds r) else s.holds r := by
  rw [ProbeState.holds, (removeEngines_eq o s).1, balance_released r _ (nodup_engineResources _ _)]
  simp only [mem_engineResources]
  rfl

theorem removeEngines_keeps (o : Outcomes) (s : ProbeState) :
    Keeps (fun r => r.level ≠ 6) s (removeEngines o s) := fun r hr => by
  rw [removeEngines_holds, if_neg fun h => hr h.1]

theorem removeEngines_heldBelow {o : Outcomes} {s : ProbeState} (h : HeldBelow o 7 s) :
    HeldBelow o 6 (removeEngines o s) := by
  obtain ⟨ht,n,hl⟩ := removeEngines_eq o s
  refine h.releaseAll (nodup_engineResources o s.lro) (fun r => mem_engineResources) ht
    fun r hr => ?_
  rw [hl]
  cases r <;> rfl

theorem removeEngines_none {o : Outcomes} {k : Nat} {s : ProbeState} (h : HeldBelow o k s)
    (hnone : ∀ e, s.lro.engine e = none) : HeldBelow o k (removeEngines o s) := by
  obtain ⟨-,n,hl⟩ := removeEngines_eq o s
  intro r
  have hnot : ¬(r.level = 6 ∧ owed o s.lro r = true) := by
    rintro ⟨hlevel,howed⟩
    cases r <;> simp [owed, hnone, Resource.level] at howed hlevel
  rw [removeEngines_holds, if_neg hnot, h r, hl]
  cases r <;> rfl

def VectorsKnown (l : XdmaDev) : Prop := l.msixEnabled = true → ∀ i, 0 < l.entry i

def Outcomes.engineRefused (o : Outcomes) (e : EngineSlot) : Bool :=
  !o.engineAlloc e || (o.msixCapable && decide (o.requestEngineIrq e ≠ 0)) ||
    (o.pollMode && !o.writebackAlloc e)

def engineBegun (e : EngineSlot) (s : ProbeState) : XdmaEngine × ProbeState :=
  if s.lro.msixEnabled then
    (⟨s.lro.entry (s.lro.enginesNum+maxUserIrq),false⟩,
      (s.acquire (.engine e)).acquire (.engineIrq e))
  else (⟨0,false⟩,s.acquire (.engine e))

theorem engineCreate_cases (o : Outcomes) (e : EngineSlot) (s : ProbeState) :
    engineCreate o e s =
      if !o.engineAlloc e then (none,s)
      else if s.lro.msixEnabled && decide (o.requestEngineIrq e ≠ 0) then
        (none,(s.acquire (.engine e)).release (.engine e))
      else
        let eng := (engineBegun e s).1
        let s' := (engineBegun e s).2.setLro fun l => { l with enginesNum := l.enginesNum+1 }
        if o.pollMode && !o.writebackAlloc e then
          (none,(engineMsixTeardown e eng s').release (.engine e))
        else if o.pollMode then (some { eng with writeback := true },s'.acquire (.writeback e))
        else (some eng,s') := by
  unfold engineCreate engineMsixSetup engineBegun
  cases o.engineAlloc e with
  | false => rfl
  | true =>
    cases hm : s.lro.msixEnabled with
    | false => cases hp : o.pollMode <;> cases hw : o.writebackAlloc e <;> simp [hm]
    | true =>
      by_cases hi : o.requestEngineIrq e = 0
      · cases hp : o.pollMode <;> cases hw : o.writebackAlloc e <;> simp [hm, hi]
      · simp [hm, hi]

theorem engineBegun_lro (e : EngineSlot) (s : ProbeState) : (engineBegun e s).2.lro = s.lro := by
  unfold engineBegun
  split_ifs <;> rfl

theorem engineCreate_lro (o : Outcomes) (e : EngineSlot) (s : ProbeState) : ∃ n,
    (engineCreate o e s).2.lro = { s.lro with enginesNum := n } := by
  have hbegun := engineBegun_lro e s
  rw [engineCreate_cases]
  unfold engineMsixTeardown
  dsimp only
  split_ifs
  · exact ⟨s.lro.enginesNum,rfl⟩
  · exact ⟨s.lro.enginesNum,rfl⟩
  · exact ⟨s.lro.enginesNum+1,by simp [hbegun]⟩
  · exact ⟨s.lro.enginesNum+1,by simp [hbegun]⟩
  · exact ⟨s.lro.enginesNum+1,by simp [hbegun]⟩
  · exact ⟨s.lro.enginesNum+1,by simp [hbegun]⟩

theorem engineCreate_isNone {o : Outcomes} {e : EngineSlot} {s : ProbeState}
    (hx : s.lro.msixEnabled = o.msixCapable) :
    (engineCreate o e s).1.isNone = o.engineRefused e := by
  rw [engineCreate_cases]
  unfold Outcomes.engineRefused
  rw [← hx]
  dsimp only
  split_ifs with h₁ h₂ h₃ h₄
  · rw [h₁]
    rfl
  · rw [h₂, Bool.or_true]
    rfl
  · rw [h₃, Bool.or_true]
    rfl
  · rw [Bool.not_eq_true] at h₁ h₂ h₃
    rw [h₁, h₂, h₃]
    rfl
  · rw [Bool.not_eq_true] at h₁ h₂ h₃
    rw [h₁, h₂, h₃]
    rfl

theorem engineBegun_line {e : EngineSlot} {s : ProbeState} (hv : VectorsKnown s.lro) :
    (engineBegun e s).1.msixIrqLine ≠ 0 ↔ s.lro.msixEnabled = true := by
  unfold engineBegun
  split_ifs with hm
  · exact iff_of_true (Nat.pos_iff_ne_zero.mp (hv hm _)) hm
  · exact iff_of_false (fun h => h rfl) hm

theorem engineBegun_holds (e : EngineSlot) (s : ProbeState) (r : Resource) :
    (engineBegun e s).2.holds r =
      if r = .engine e ∨ (r = .engineIrq e ∧ s.lro.msixEnabled = true)
      then (s.holds r).map (· + 1) else s.holds r := by
  unfold engineBegun
  cases s.lro.msixEnabled with
  | true => cases r <;> simp [eq_comm]
  | false => simp [eq_comm]

theorem engineCreate_refused {o : Outcomes} {e : EngineSlot} {s : ProbeState}
    (hx : s.lro.msixEnabled = o.msixCapable) (hv : VectorsKnown s.lro)
    (h : o.engineRefused e = true) :
    (engineCreate o e s).1 = none ∧ ∀ r, (engineCreate o e s).2.holds r = s.holds r := by
  unfold Outcomes.engineRefused at h
  rw [engineCreate_cases, hx]
  dsimp only
  split_ifs with h₁ h₂ h₃
  · exact ⟨rfl,fun _ => rfl⟩
  · exact ⟨rfl,ProbeState.holds_undo fun _ => rfl⟩
  · refine ⟨rfl,ProbeState.holds_undo ?_⟩
    have hline := engineBegun_line (e := e) hv
    unfold engineMsixTeardown
    by_cases hm : s.lro.msixEnabled = true
    · rw [if_pos (hline.mpr hm), engineBegun, if_pos hm]
      exact ProbeState.holds_undo fun _ => rfl
    · rw [if_neg (mt hline.mp hm), engineBegun, if_neg hm]
      exact fun _ => rfl
  · simp_all
  · simp_all

theorem engineBegun_page (e : EngineSlot) (s : ProbeState) :
    (engineBegun e s).1.writeback = false := by
  unfold engineBegun
  split_ifs <;> rfl

theorem engineCreate_page {o : Outcomes} {e : EngineSlot} {s : ProbeState} {eng : XdmaEngine}
    (h : (engineCreate o e s).1 = some eng) : eng.writeback = o.pollMode := by
  rw [engineCreate_cases] at h
  dsimp only at h
  split_ifs at h with _ _ _ hp
  · cases h
    exact hp.symm
  · cases h
    rw [engineBegun_page]
    exact (Bool.eq_false_iff.mpr hp).symm

theorem engineCreate_granted {o : Outcomes} {e : EngineSlot} {s : ProbeState}
    (hx : s.lro.msixEnabled = o.msixCapable) (hv : VectorsKnown s.lro)
    (h : o.engineRefused e = false) : ∃ eng, (engineCreate o e s).1 = some eng ∧
      ∀ r, (engineCreate o e s).2.holds r =
        if r ∈ eng.resources o e then (s.holds r).map (· + 1) else s.holds r := by
  have hline := engineBegun_line (e := e) hv
  have hwb := engineBegun_page e s
  unfold Outcomes.engineRefused at h
  obtain ⟨h,h₃⟩ := Bool.or_eq_false_iff.mp h
  obtain ⟨h₁,h₂⟩ := Bool.or_eq_false_iff.mp h
  rw [engineCreate_cases, hx, h₁, h₂, h₃]
  dsimp only
  rw [if_neg (by decide), if_neg (by decide), if_neg (by decide)]
  split_ifs with hp
  · refine ⟨_,rfl,fun r => ?_⟩
    simp only [mem_resources, ProbeState.holds_acquire, ProbeState.holds_setLro,
      engineBegun_holds, hline, hp, Bool.and_true, and_true]
    by_cases hr : .writeback e = r
    · subst hr
      simp
    · simp [hr, Ne.symm hr]
  · refine ⟨_,rfl,fun r => ?_⟩
    simp only [mem_resources, ProbeState.holds_setLro, engineBegun_holds, hline, hwb,
      Bool.and_false, Bool.false_eq_true, and_false, or_false]

theorem engineCreate_keeps (o : Outcomes) (e : EngineSlot) (s : ProbeState) :
    Keeps (fun r => r.level ≠ 6) s (engineCreate o e s).2 := by
  have hbegun : Keeps (fun r => r.level ≠ 6) s (engineBegun e s).2 := by
    intro r hr
    rw [engineBegun_holds, if_neg]
    rintro (rfl | ⟨rfl,-⟩) <;> exact hr rfl
  have hteardown : ∀ eng s', Keeps (fun r => r.level ≠ 6) s s' →
      Keeps (fun r => r.level ≠ 6) s (engineMsixTeardown e eng s') := by
    intro eng s' hs
    unfold engineMsixTeardown
    split_ifs
    · exact hs.release (by simp [Resource.level])
    · exact hs
  rw [engineCreate_cases]
  dsimp only
  split_ifs
  · exact Keeps.refl _ s
  · exact ((Keeps.refl _ s).acquire (by simp [Resource.level])).release (by simp [Resource.level])
  · exact (hteardown _ _ (hbegun.setLro _)).release (by simp [Resource.level])
  · exact (hbegun.setLro _).acquire (by simp [Resource.level])
  · exact hbegun.setLro _

theorem probeForEngine_absent {o : Outcomes} {d : Bool} {c : Fin 4} (s : ProbeState)
    (hp : enginePresent o ⟨c,d⟩ = false) : probeForEngine o d c s = (0,s) := by
  unfold probeForEngine
  dsimp only
  rw [hp]
  rfl

theorem probeForEngine_present {o : Outcomes} {d : Bool} {c : Fin 4} (s : ProbeState)
    (hp : enginePresent o ⟨c,d⟩ = true) : probeForEngine o d c s =
      (if (engineCreate o ⟨c,d⟩ s).1.isSome then 0 else -1,(engineCreate o ⟨c,d⟩ s).2.setLro
        fun l => { l with engine := Function.update l.engine ⟨c,d⟩ (engineCreate o ⟨c,d⟩ s).1 }) := by
  unfold probeForEngine
  dsimp only
  rw [hp]
  rfl

theorem probeForEngine_lro (o : Outcomes) (d : Bool) (c : Fin 4) (s : ProbeState) :
    ∃ n, (probeForEngine o d c s).2.lro = { s.lro with
      enginesNum := n
      engine := if enginePresent o ⟨c,d⟩
        then Function.update s.lro.engine ⟨c,d⟩ (engineCreate o ⟨c,d⟩ s).1 else s.lro.engine } := by
  obtain ⟨n,hn⟩ := engineCreate_lro o ⟨c,d⟩ s
  cases hp : enginePresent o ⟨c,d⟩ with
  | false => exact ⟨s.lro.enginesNum,by rw [probeForEngine_absent s hp]; rfl⟩
  | true =>
    refine ⟨n,?_⟩
    rw [probeForEngine_present s hp, ProbeState.lro_setLro, hn]
    rfl

theorem probeForEngine_keeps (o : Outcomes) (d : Bool) (c : Fin 4) (s : ProbeState) :
    Keeps (fun r => r.level ≠ 6) s (probeForEngine o d c s).2 := by
  cases hp : enginePresent o ⟨c,d⟩ with
  | false =>
    rw [probeForEngine_absent s hp]
    exact Keeps.refl _ s
  | true =>
    rw [probeForEngine_present s hp]
    exact (engineCreate_keeps o ⟨c,d⟩ s).setLro _

def Outcomes.slotRefused (o : Outcomes) (e : EngineSlot) : Bool :=
  enginePresent o e && o.engineRefused e

/-- What the loops over the engines do not change, and what they need. -/
structure EnginesReady (o : Outcomes) (s : ProbeState) : Prop where
  msix : s.lro.msixEnabled = o.msixCapable
  vectors : VectorsKnown s.lro

theorem EnginesReady.step {o : Outcomes} {s : ProbeState} (h : EnginesReady o s) (d : Bool)
    (c : Fin 4) : EnginesReady o (probeForEngine o d c s).2 := by
  obtain ⟨n,hl⟩ := probeForEngine_lro o d c s
  exact ⟨by rw [hl]; exact h.msix,by rw [hl]; exact h.vectors⟩

theorem probeForEngine_fails {o : Outcomes} {s : ProbeState}
    (hx : s.lro.msixEnabled = o.msixCapable) (d : Bool) (c : Fin 4) :
    (probeForEngine o d c s).1 ≠ 0 ↔ o.slotRefused ⟨c,d⟩ = true := by
  unfold Outcomes.slotRefused
  cases hp : enginePresent o ⟨c,d⟩ with
  | false => simp [probeForEngine_absent s hp]
  | true =>
    rw [probeForEngine_present s hp, ← engineCreate_isNone hx]
    cases (engineCreate o ⟨c,d⟩ s).1 <;> simp

theorem probeForEngine_msix (o : Outcomes) (d : Bool) (c : Fin 4) (s : ProbeState) :
    (probeForEngine o d c s).2.lro.msixEnabled = s.lro.msixEnabled := by
  obtain ⟨n,hl⟩ := probeForEngine_lro o d c s
  rw [hl]

theorem probeForEngine_heldBelow {o : Outcomes} {s : ProbeState} (h : HeldBelow o 7 s)
    (hs : EnginesReady o s) {d : Bool} {c : Fin 4} (hnone : s.lro.engine ⟨c,d⟩ = none) :
    HeldBelow o 7 (probeForEngine o d c s).2 := by
  obtain ⟨n,hl⟩ := probeForEngine_lro o d c s
  cases hp : enginePresent o ⟨c,d⟩ with
  | false => rwa [probeForEngine_absent s hp]
  | true =>
    rw [hp, if_pos rfl] at hl
    intro r
    rw [hl, probeForEngine_present s hp, ProbeState.holds_setLro]
    cases hr : o.engineRefused ⟨c,d⟩ with
    | true =>
      obtain ⟨he,hholds⟩ := engineCreate_refused hs.msix hs.vectors hr
      rw [hholds, he, ← hnone, Function.update_eq_self, h r]
      cases r <;> rfl
    | false =>
      obtain ⟨eng,he,hholds⟩ := engineCreate_granted hs.msix hs.vectors hr
      rw [hholds, he, h r]
      simp only [mem_resources]
      cases r with
      | engine e =>
        by_cases hec : e = ⟨c,d⟩
        · subst hec
          simp [owed, Resource.level, hnone]
        · simp [owed, Resource.level, hec]
      | engineIrq e =>
        by_cases hec : e = ⟨c,d⟩
        · subst hec
          by_cases hline : eng.msixIrqLine = 0 <;> simp [owed, Resource.level, hnone, hline]
        · simp [owed, Resource.level, hec]
      | writeback e =>
        by_cases hec : e = ⟨c,d⟩
        · subst hec
          cases hw : o.pollMode && eng.writeback <;> simp [owed, Resource.level, hnone, hw]
        · simp [owed, Resource.level, hec]
      | _ => simp [owed, Resource.level]

theorem engineLoop_lro (o : Outcomes) (d : Bool) (cs : List (Fin 4)) (s : ProbeState) :
    ∃ n engine, (tryEach (probeForEngine o d) cs s).2.lro =
      { s.lro with enginesNum := n, engine := engine } := by
  refine tryEach_invariant
    (fun (s' : ProbeState) => ∃ n engine, s'.lro = { s.lro with enginesNum := n, engine := engine })
    ⟨s.lro.enginesNum,s.lro.engine,rfl⟩ fun c _ s' h => ?_
  obtain ⟨n,engine,h⟩ := h
  obtain ⟨n',h'⟩ := probeForEngine_lro o d c s'
  rw [h] at h'
  exact ⟨_,_,h'⟩

theorem engineLoop_keeps (o : Outcomes) (d : Bool) (cs : List (Fin 4)) (s : ProbeState) :
    Keeps (fun r => r.level ≠ 6) s (tryEach (probeForEngine o d) cs s).2 :=
  tryEach_invariant (Keeps _ s) (Keeps.refl _ s)
    fun c _ s' h => h.trans (probeForEngine_keeps o d c s')

theorem engineLoop_ready {o : Outcomes} {s : ProbeState} (h : EnginesReady o s) (d : Bool)
    (cs : List (Fin 4)) : EnginesReady o (tryEach (probeForEngine o d) cs s).2 :=
  tryEach_invariant (EnginesReady o) h fun c _ _ h => h.step d c

theorem engineLoop_fails {o : Outcomes} {s : ProbeState}
    (hx : s.lro.msixEnabled = o.msixCapable) (d : Bool) (cs : List (Fin 4)) :
    (tryEach (probeForEngine o d) cs s).1 ≠ 0 ↔ ∃ c ∈ cs, o.slotRefused ⟨c,d⟩ = true :=
  tryEach_fails (fun s : ProbeState => s.lro.msixEnabled = o.msixCapable) cs hx
    (fun c s h => (probeForEngine_msix o d c s).trans h) fun c _ h => probeForEngine_fails h d c

theorem probeForEngine_others (o : Outcomes) {d : Bool} {c : Fin 4} (s : ProbeState)
    {e : EngineSlot} (he : e ≠ ⟨c,d⟩) :
    (probeForEngine o d c s).2.lro.engine e = s.lro.engine e := by
  obtain ⟨n,hl⟩ := probeForEngine_lro o d c s
  rw [hl]
  dsimp only
  split_ifs
  · exact Function.update_of_ne he _ _
  · rfl

theorem engineLoop_others (o : Outcomes) {d : Bool} {cs : List (Fin 4)} (s : ProbeState)
    {e : EngineSlot} (he : ∀ c ∈ cs, e ≠ ⟨c,d⟩) :
    (tryEach (probeForEngine o d) cs s).2.lro.engine e = s.lro.engine e :=
  tryEach_invariant (fun s' : ProbeState => s'.lro.engine e = s.lro.engine e) rfl
    fun c hc s' h => (probeForEngine_others o s' (he c hc)).trans h

theorem engineLoop_heldBelow {o : Outcomes} {d : Bool} {cs : List (Fin 4)} {s : ProbeState}
    (h : HeldBelow o 7 s) (hs : EnginesReady o s) (hn : cs.Nodup)
    (hnone : ∀ c ∈ cs, s.lro.engine ⟨c,d⟩ = none) :
    HeldBelow o 7 (tryEach (probeForEngine o d) cs s).2 := by
  induction cs generalizing s with
  | nil => exact h
  | cons c cs ih =>
    have hc := probeForEngine_heldBelow h hs (hnone c (by simp))
    by_cases hrc : (probeForEngine o d c s).1 = 0
    · rw [tryEach_cons_of_passes cs hrc]
      refine ih hc (hs.step d c) (List.nodup_cons.mp hn).2 fun c' hc' => ?_
      have hne : (⟨c',d⟩ : EngineSlot) ≠ ⟨c,d⟩ := fun heq =>
        (List.nodup_cons.mp hn).1 (EngineSlot.mk.inj heq |>.1 ▸ hc')
      rw [probeForEngine_others o s hne]
      exact hnone c' (by simp [hc'])
    · rw [tryEach_cons_of_fails cs hrc]
      exact hc

/-- A loop that fails has created no engine if the first one it met was refused,
and has created some otherwise. -/
theorem engineLoop_created {o : Outcomes} {d : Bool} {cs : List (Fin 4)} {s : ProbeState}
    (hs : EnginesReady o s) (hn : cs.Nodup) (hnone : ∀ c ∈ cs, s.lro.engine ⟨c,d⟩ = none)
    (hrc : (tryEach (probeForEngine o d) cs s).1 ≠ 0) :
    if (cs.find? fun c => enginePresent o ⟨c,d⟩).any fun c => o.engineRefused ⟨c,d⟩
    then (tryEach (probeForEngine o d) cs s).2.lro.engine = s.lro.engine
    else ∃ c ∈ cs, ((tryEach (probeForEngine o d) cs s).2.lro.engine ⟨c,d⟩).isSome = true := by
  induction cs generalizing s with
  | nil => simp at hrc
  | cons c cs ih =>
    have hnodup := List.nodup_cons.mp hn
    have hother : ∀ c' ∈ cs, (⟨c',d⟩ : EngineSlot) ≠ ⟨c,d⟩ := fun c' hc' heq =>
      hnodup.1 (EngineSlot.mk.inj heq |>.1 ▸ hc')
    cases hp : enginePresent o ⟨c,d⟩ with
    | false =>
      have hpass := probeForEngine_absent (d := d) (c := c) s hp
      rw [tryEach_cons_of_passes cs (by rw [hpass]), hpass] at hrc ⊢
      have h := ih hs hnodup.2 (fun c' hc' => hnone c' (by simp [hc'])) hrc
      simp only [List.find?_cons, hp]
      split_ifs at h ⊢
      · exact h
      · obtain ⟨c',hc',hsome⟩ := h
        exact ⟨c',by simp [hc'],hsome⟩
    | true =>
      simp only [List.find?_cons, hp, Option.any_some]
      cases hr : o.engineRefused ⟨c,d⟩ with
      | true =>
        have hfail : (probeForEngine o d c s).1 ≠ 0 :=
          (probeForEngine_fails hs.msix d c).mpr (by simp [Outcomes.slotRefused, hp, hr])
        rw [if_pos rfl, tryEach_cons_of_fails cs hfail, probeForEngine_present s hp,
          ProbeState.lro_setLro, (engineCreate_refused hs.msix hs.vectors hr).1,
          ← hnone c (by simp)]
        obtain ⟨n,hl⟩ := engineCreate_lro o ⟨c,d⟩ s
        rw [hl]
        exact Function.update_eq_self _ _
      | false =>
        have hpass : (probeForEngine o d c s).1 = 0 := by
          by_contra hfail
          have hbad := (probeForEngine_fails hs.msix d c).mp hfail
          simp [Outcomes.slotRefused, hr] at hbad
        obtain ⟨eng,heng,-⟩ := engineCreate_granted hs.msix hs.vectors hr
        rw [if_neg (by decide), tryEach_cons_of_passes cs hpass]
        refine ⟨c,by simp,?_⟩
        rw [engineLoop_others o _ fun c' hc' => (hother c' hc').symm,
          probeForEngine_present s hp, ProbeState.lro_setLro, heng]
        simp

theorem engineLoop_there {o : Outcomes} {d : Bool} {cs : List (Fin 4)} {s : ProbeState}
    (hx : s.lro.msixEnabled = o.msixCapable) (hn : cs.Nodup)
    (hnone : ∀ c ∈ cs, s.lro.engine ⟨c,d⟩ = none) {c : Fin 4} (hc : c ∈ cs) :
    ((tryEach (probeForEngine o d) cs s).2.lro.engine ⟨c,d⟩).isSome =
      (enginePresent o ⟨c,d⟩ && decide (c ∈ cs.takeWhile fun c => !o.slotRefused ⟨c,d⟩)) := by
  induction cs generalizing s with
  | nil => simp at hc
  | cons c' cs ih =>
    have hnodup := List.nodup_cons.mp hn
    have hother : ∀ c ∈ cs, (⟨c,d⟩ : EngineSlot) ≠ ⟨c',d⟩ := fun c hc heq =>
      hnodup.1 (EngineSlot.mk.inj heq |>.1 ▸ hc)
    have hself : ((probeForEngine o d c' s).2.lro.engine ⟨c',d⟩).isSome =
        (enginePresent o ⟨c',d⟩ && !o.slotRefused ⟨c',d⟩) := by
      unfold Outcomes.slotRefused
      cases hp : enginePresent o ⟨c',d⟩ with
      | false => simp [probeForEngine_absent s hp, hnone c' (by simp)]
      | true =>
        rw [probeForEngine_present s hp, ← engineCreate_isNone hx]
        cases (engineCreate o ⟨c',d⟩ s).1 <;> simp
    cases hrefused : o.slotRefused ⟨c',d⟩ with
    | true =>
      rw [tryEach_cons_of_fails cs ((probeForEngine_fails hx d c').mpr hrefused)]
      simp only [List.takeWhile_cons, hrefused, Bool.not_true, Bool.false_eq_true, if_false,
        List.not_mem_nil, decide_false, Bool.and_false]
      rcases List.mem_cons.mp hc with rfl | hc
      · rw [hself, hrefused]
        simp
      · rw [probeForEngine_others o s (hother c hc), hnone c (by simp [hc])]
        rfl
    | false =>
      have hpass : (probeForEngine o d c' s).1 = 0 := by
        by_contra hfail
        rw [(probeForEngine_fails hx d c').mp hfail] at hrefused
        cases hrefused
      rw [tryEach_cons_of_passes cs hpass]
      simp only [List.takeWhile_cons, hrefused, Bool.not_false, if_true, List.mem_cons]
      rcases List.mem_cons.mp hc with rfl | hc
      · rw [engineLoop_others o _ fun c'' hc'' => (hother c'' hc'').symm, hself, hrefused]
        simp
      · rw [ih ((probeForEngine_msix o d c' s).trans hx) hnodup.2 (fun c'' hc'' => by
          rw [probeForEngine_others o s (hother c'' hc'')]
          exact hnone c'' (by simp [hc''])) hc]
        have hne : c ≠ c' := fun heq => hnodup.1 (heq ▸ hc)
        simp [hne]

def Outcomes.h2cRefused (o : Outcomes) : Bool :=
  (List.finRange 4).any fun c => o.slotRefused ⟨c,false⟩

def Outcomes.firstH2cRefused (o : Outcomes) : Bool :=
  ((List.finRange 4).find? fun c => enginePresent o ⟨c,false⟩).any
    fun c => o.engineRefused ⟨c,false⟩

theorem probeEngines_fails {o : Outcomes} {s : ProbeState}
    (hx : s.lro.msixEnabled = o.msixCapable) :
    (probeEngines o s).1 ≠ 0 ↔ o.h2cRefused = true := by
  have hfails := engineLoop_fails hx false (List.finRange 4)
  rw [Outcomes.h2cRefused, List.any_eq_true, ← hfails]
  unfold probeEngines
  dsimp only
  split_ifs with h <;> simp [h]

def Outcomes.engineThere (o : Outcomes) (e : EngineSlot) : Bool :=
  enginePresent o e && decide (e.channel ∈
    (List.finRange 4).takeWhile fun c => !o.slotRefused ⟨c,e.fromDev⟩)

theorem probeEngines_there {o : Outcomes} {s : ProbeState}
    (hx : s.lro.msixEnabled = o.msixCapable) (hnone : ∀ e, s.lro.engine e = none)
    (hrc : o.h2cRefused = false) (e : EngineSlot) :
    ((probeEngines o s).2.lro.engine e).isSome = o.engineThere e := by
  obtain ⟨c,d⟩ := e
  have hpass : ¬(tryEach (probeForEngine o false) (List.finRange 4) s).1 ≠ 0 := by
    intro hn
    have hbad := (engineLoop_fails hx false (List.finRange 4)).mp hn
    rw [← Bool.not_eq_true, Outcomes.h2cRefused, List.any_eq_true] at hrc
    exact hrc hbad
  have hx' : (tryEach (probeForEngine o false) (List.finRange 4) s).2.lro.msixEnabled =
      o.msixCapable := by
    obtain ⟨n,engine,hl⟩ := engineLoop_lro o false (List.finRange 4) s
    rw [hl]
    exact hx
  unfold probeEngines
  dsimp only
  rw [if_neg hpass]
  cases d with
  | false =>
    rw [engineLoop_others o _ fun c' _ heq => by simp at heq]
    exact engineLoop_there hx (List.nodup_finRange 4) (fun c _ => hnone _) (List.mem_finRange c)
  | true =>
    refine engineLoop_there hx' (List.nodup_finRange 4) (fun c _ => ?_) (List.mem_finRange c)
    rw [engineLoop_others o _ fun c' _ heq => by simp at heq]
    exact hnone _

theorem probeEngines_lro (o : Outcomes) (s : ProbeState) : ∃ n engine,
    (probeEngines o s).2.lro = { s.lro with enginesNum := n, engine := engine } := by
  obtain ⟨n,engine,hl⟩ := engineLoop_lro o false (List.finRange 4) s
  unfold probeEngines
  dsimp only
  split_ifs
  · obtain ⟨-,m,hm⟩ := removeEngines_eq o (tryEach (probeForEngine o false) (List.finRange 4) s).2
    exact ⟨_,_,by rw [hm, hl]⟩
  · obtain ⟨m,engine',hm⟩ := engineLoop_lro o true (List.finRange 4)
      (tryEach (probeForEngine o false) (List.finRange 4) s).2
    exact ⟨_,_,by rw [hm, hl]⟩

def PagesPolled (o : Outcomes) (l : XdmaDev) : Prop :=
  ∀ e eng, l.engine e = some eng → eng.writeback = o.pollMode

theorem probeForEngine_pages {o : Outcomes} {fromDev : Bool} {c : Fin 4} {s : ProbeState}
    (h : PagesPolled o s.lro) : PagesPolled o (probeForEngine o fromDev c s).2.lro := by
  unfold probeForEngine
  by_cases hpresent : (!enginePresent o ⟨c,fromDev⟩) = true
  · rwa [if_pos hpresent]
  · rw [if_neg hpresent]
    intro e eng heng
    obtain ⟨n,hl⟩ := engineCreate_lro o ⟨c,fromDev⟩ s
    by_cases he : e = ⟨c,fromDev⟩
    · subst he
      simp only [ProbeState.setLro, Function.update_self] at heng
      exact engineCreate_page heng
    · simp only [ProbeState.setLro, Function.update_of_ne he, hl] at heng
      exact h e eng heng

theorem probeEngines_pages {o : Outcomes} {s : ProbeState} (h : PagesPolled o s.lro) :
    PagesPolled o (probeEngines o s).2.lro := by
  have hloop : ∀ d, ∀ s, PagesPolled o s.lro →
      PagesPolled o (tryEach (probeForEngine o d) (List.finRange 4) s).2.lro := fun d s hs =>
    tryEach_invariant (fun s : ProbeState => PagesPolled o s.lro) hs
      fun c _ s' hs' => probeForEngine_pages hs'
  unfold probeEngines
  dsimp only
  split_ifs
  · obtain ⟨-,n,hl⟩ := removeEngines_eq o (tryEach (probeForEngine o false) (List.finRange 4) s).2
    rw [hl]
    exact hloop false s h
  · exact hloop true _ (hloop false s h)

theorem probeEngines_keeps (o : Outcomes) (s : ProbeState) :
    Keeps (fun r => r.level ≠ 6) s (probeEngines o s).2 := by
  unfold probeEngines
  dsimp only
  split_ifs
  · exact (engineLoop_keeps o false _ s).trans (removeEngines_keeps o _)
  · exact (engineLoop_keeps o false _ s).trans (engineLoop_keeps o true _ _)

theorem probeEngines_created {o : Outcomes} {s : ProbeState} (h : HeldBelow o 7 s)
    (hs : EnginesReady o s) (hnone : ∀ e, s.lro.engine e = none)
    (hrc : o.h2cRefused = false) : HeldBelow o 7 (probeEngines o s).2 := by
  have hrc : (tryEach (probeForEngine o false) (List.finRange 4) s).1 = 0 := by
    by_contra hn
    have hbad := (engineLoop_fails hs.msix false (List.finRange 4)).mp hn
    rw [← Bool.not_eq_true, Outcomes.h2cRefused, List.any_eq_true] at hrc
    exact hrc hbad
  have hfirst := engineLoop_heldBelow (d := false) h hs (List.nodup_finRange 4) fun c _ => hnone _
  unfold probeEngines
  dsimp only
  rw [if_neg (not_not.mpr hrc)]
  refine engineLoop_heldBelow hfirst (engineLoop_ready hs _ _) (List.nodup_finRange 4)
    fun c _ => ?_
  rw [engineLoop_others o s fun c' _ heq => by simp at heq]
  exact hnone _

/-- When it fails at the first engine, the ladder finds nothing to remove. -/
theorem probeEngines_firstRefused {o : Outcomes} {s : ProbeState} (h : HeldBelow o 7 s)
    (hs : EnginesReady o s) (hnone : ∀ e, s.lro.engine e = none) (hrc : o.h2cRefused = true)
    (hfirst : o.firstH2cRefused = true) : HeldBelow o 7 (probeEngines o s).2 := by
  have hfail : (tryEach (probeForEngine o false) (List.finRange 4) s).1 ≠ 0 :=
    (engineLoop_fails hs.msix false (List.finRange 4)).mpr (List.any_eq_true.mp hrc)
  have hcreated := engineLoop_created hs (List.nodup_finRange 4) (fun c _ => hnone _) hfail
  rw [if_pos (by rw [← Outcomes.firstH2cRefused, hfirst])] at hcreated
  unfold probeEngines
  dsimp only
  rw [if_pos hfail]
  refine removeEngines_none (engineLoop_heldBelow h hs (List.nodup_finRange 4)
    fun c _ => hnone _) fun e => ?_
  rw [hcreated]
  exact hnone e

/-- Otherwise it destroys an engine that the ladder will destroy again. -/
theorem probeEngines_laterRefused {o : Outcomes} {s : ProbeState} (h : HeldBelow o 7 s)
    (hs : EnginesReady o s) (hnone : ∀ e, s.lro.engine e = none) (hrc : o.h2cRefused = true)
    (hfirst : o.firstH2cRefused = false) :
    ∃ e, ((probeEngines o s).2.lro.engine e).isSome = true ∧
      (probeEngines o s).2.holds (.engine e) = some 0 := by
  have hfail : (tryEach (probeForEngine o false) (List.finRange 4) s).1 ≠ 0 :=
    (engineLoop_fails hs.msix false (List.finRange 4)).mpr (List.any_eq_true.mp hrc)
  have hheld := engineLoop_heldBelow (d := false) h hs (List.nodup_finRange 4) fun c _ => hnone _
  have hcreated := engineLoop_created hs (List.nodup_finRange 4) (fun c _ => hnone _) hfail
  rw [if_neg (by rw [← Outcomes.firstH2cRefused, hfirst]; decide)] at hcreated
  obtain ⟨c,-,hsome⟩ := hcreated
  unfold probeEngines
  dsimp only
  rw [if_pos hfail]
  obtain ⟨-,n,hl⟩ := removeEngines_eq o (tryEach (probeForEngine o false) (List.finRange 4) s).2
  refine ⟨⟨c,false⟩,by rw [hl]; exact hsome,?_⟩
  rw [removeEngines_holds, if_pos ⟨rfl,hsome⟩, hheld]
  simp [owed, hsome, Resource.level]

end DmaCamera.Probe
