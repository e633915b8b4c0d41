import DmaCamera.Isr
import DmaCamera.ProbeSuccess
set_option autoImplicit false

namespace DmaCamera.Probe
open Loops

/-! Which handler a message runs: the vectors that are programmed, the numbers that the
engines are given, and the interrupts they ask for. -/

def bypassModeSpacing : Nat := 0x0100

/-- A device that is being probed, with what the engines created so far go by: their
interrupt bit and their place on the bypass BAR. -/
structure EngineTable where
  state : ProbeState
  irqBitmask : EngineSlot → U32
  bypassOffset : EngineSlot → Nat

/-- `probe_for_engine`; the bookkeeping goes by `engines_num` at the time. -/
def probeForEngineTable (o : Outcomes) (fromDev : Bool) (channel : Fin 4) (t : EngineTable) :
    Int × EngineTable :=
  let e : EngineSlot := ⟨channel,fromDev⟩
  let n := t.state.lro.enginesNum.toNat
  let (rc,s) := probeForEngine o fromDev channel t.state
  if enginePresent o e then
    (rc,⟨s,Function.update t.irqBitmask e (irqBitmask n),
      Function.update t.bypassOffset e (n*bypassModeSpacing)⟩)
  else (rc,{ t with state := s })

def engineTable (o : Outcomes) (t : EngineTable) : EngineTable :=
  (tryEach (probeForEngineTable o true) (List.finRange 4)
    (tryEach (probeForEngineTable o false) (List.finRange 4) t).2).2

theorem probeForEngineTable_state (o : Outcomes) (d : Bool) (c : Fin 4) (t : EngineTable) :
    (probeForEngineTable o d c t).1 = (probeForEngine o d c t.state).1 ∧
      (probeForEngineTable o d c t).2.state = (probeForEngine o d c t.state).2 := by
  unfold probeForEngineTable
  dsimp only
  split_ifs <;> exact ⟨rfl,rfl⟩

theorem tryEach_engineTable (o : Outcomes) (d : Bool) (cs : List (Fin 4)) (t : EngineTable) :
    (tryEach (probeForEngineTable o d) cs t).1 = (tryEach (probeForEngine o d) cs t.state).1 ∧
      (tryEach (probeForEngineTable o d) cs t).2.state =
        (tryEach (probeForEngine o d) cs t.state).2 := by
  induction cs generalizing t with
  | nil => exact ⟨rfl,rfl⟩
  | cons c cs ih =>
    obtain ⟨hrc,hstate⟩ := probeForEngineTable_state o d c t
    by_cases hpass : (probeForEngine o d c t.state).1 = 0
    · rw [tryEach_cons_of_passes cs hpass, tryEach_cons_of_passes cs (hrc.trans hpass), ← hstate]
      exact ih _
    · rw [tryEach_cons_of_fails cs hpass, tryEach_cons_of_fails cs (by rw [hrc]; exact hpass)]
      exact ⟨hrc,hstate⟩

def madeEngines (o : Outcomes) (d : Bool) (cs : List (Fin 4)) : List (Fin 4) :=
  (cs.takeWhile fun c => !o.slotRefused ⟨c,d⟩).filter fun c => enginePresent o ⟨c,d⟩

structure Entered (t : EngineTable) (e : EngineSlot) (n : Nat) : Prop where
  line : ∃ eng, t.state.lro.engine e = some eng ∧ (t.state.lro.msixEnabled = true →
    eng.msixIrqLine = t.state.lro.entry (n+maxUserIrq : Nat))
  irqBitmask : t.irqBitmask e = irqBitmask n
  bypassOffset : t.bypassOffset e = n*bypassModeSpacing

structure SameEntry (t t' : EngineTable) (e : EngineSlot) : Prop where
  engine : t'.state.lro.engine e = t.state.lro.engine e
  msix : t'.state.lro.msixEnabled = t.state.lro.msixEnabled
  entry : t'.state.lro.entry = t.state.lro.entry
  irqBitmask : t'.irqBitmask e = t.irqBitmask e
  bypassOffset : t'.bypassOffset e = t.bypassOffset e

theorem SameEntry.trans {t₁ t₂ t₃ : EngineTable} {e : EngineSlot} (h : SameEntry t₁ t₂ e)
    (h' : SameEntry t₂ t₃ e) : SameEntry t₁ t₃ e :=
  ⟨h'.engine.trans h.engine,h'.msix.trans h.msix,h'.entry.trans h.entry,
    h'.irqBitmask.trans h.irqBitmask,h'.bypassOffset.trans h.bypassOffset⟩

theorem Entered.same {t t' : EngineTable} {e : EngineSlot} {n : Nat} (h : Entered t e n)
    (hs : SameEntry t t' e) : Entered t' e n where
  line := by
    rw [hs.engine, hs.msix, hs.entry]
    exact h.line
  irqBitmask := hs.irqBitmask.trans h.irqBitmask
  bypassOffset := hs.bypassOffset.trans h.bypassOffset

theorem probeForEngineTable_others (o : Outcomes) {d : Bool} {c : Fin 4} (t : EngineTable)
    {e : EngineSlot} (he : e ≠ ⟨c,d⟩) : SameEntry t (probeForEngineTable o d c t).2 e := by
  obtain ⟨n,hl⟩ := probeForEngine_lro o d c t.state
  have hengine := probeForEngine_others o t.state he
  have hstate := (probeForEngineTable_state o d c t).2
  refine ⟨by rw [hstate, hengine],by rw [hstate, hl],by rw [hstate, hl],?_,?_⟩
  · unfold probeForEngineTable
    dsimp only
    split_ifs
    · exact Function.update_of_ne he _ _
    · rfl
  · unfold probeForEngineTable
    dsimp only
    split_ifs
    · exact Function.update_of_ne he _ _
    · rfl

theorem tryEach_engineTable_others (o : Outcomes) {d : Bool} {cs : List (Fin 4)} (t : EngineTable)
    {e : EngineSlot} (he : ∀ c ∈ cs, e ≠ ⟨c,d⟩) :
    SameEntry t (tryEach (probeForEngineTable o d) cs t).2 e :=
  tryEach_invariant (fun t' => SameEntry t t' e) ⟨rfl,rfl,rfl,rfl,rfl⟩
    fun c hc t' h => h.trans (probeForEngineTable_others o t' (he c hc))

theorem engineCreate_numbered {o : Outcomes} {e : EngineSlot} {s : ProbeState}
    (hx : s.lro.msixEnabled = o.msixCapable) (hr : o.engineRefused e = false) :
    ∃ eng, (engineCreate o e s).1 = some eng ∧
      (s.lro.msixEnabled = true →
        eng.msixIrqLine = s.lro.entry (s.lro.enginesNum+maxUserIrq)) ∧
      (engineCreate o e s).2.lro = { s.lro with enginesNum := s.lro.enginesNum+1 } := by
  have hl := engineBegun_lro e s
  have hline : s.lro.msixEnabled = true →
      (engineBegun e s).1.msixIrqLine = s.lro.entry (s.lro.enginesNum+maxUserIrq) := by
    intro hm
    rw [engineBegun, if_pos hm]
  unfold Outcomes.engineRefused at hr
  obtain ⟨hr,hwb⟩ := Bool.or_eq_false_iff.mp hr
  obtain ⟨halloc,hirq⟩ := Bool.or_eq_false_iff.mp hr
  rw [engineCreate_cases, hx, halloc, hirq, hwb]
  dsimp only
  rw [if_neg (by decide), if_neg (by decide), if_neg (by decide)]
  split_ifs
  · exact ⟨_,rfl,fun hm => hline (hx.trans hm),by simp [hl]⟩
  · exact ⟨_,rfl,fun hm => hline (hx.trans hm),by simp [hl]⟩

theorem probeForEngineTable_entered {o : Outcomes} {d : Bool} {c : Fin 4} {t : EngineTable}
    {k : Nat} (hx : t.state.lro.msixEnabled = o.msixCapable) (hk : t.state.lro.enginesNum = k)
    (hp : enginePresent o ⟨c,d⟩ = true) (hr : o.engineRefused ⟨c,d⟩ = false) :
    Entered (probeForEngineTable o d c t).2 ⟨c,d⟩ k ∧
      (probeForEngineTable o d c t).2.state.lro.enginesNum = (k+1 : Nat) := by
  obtain ⟨eng,heng,hline,hl⟩ := engineCreate_numbered hx hr
  have hstate := (probeForEngineTable_state o d c t).2
  rw [probeForEngine_present _ hp, heng] at hstate
  have hlro : (probeForEngineTable o d c t).2.state.lro = { t.state.lro with
      enginesNum := t.state.lro.enginesNum+1
      engine := Function.update t.state.lro.engine ⟨c,d⟩ (some eng) } := by
    rw [hstate, ProbeState.lro_setLro, hl]
  refine ⟨⟨⟨eng,by rw [hlro]; exact Function.update_self ..,fun hm => ?_⟩,?_,?_⟩,?_⟩
  · rw [hlro] at hm ⊢
    rw [hline hm, hk]
    rfl
  · unfold probeForEngineTable
    simp [hp, hk]
  · unfold probeForEngineTable
    simp [hp, hk]
  · rw [hlro, hk]
    rfl

theorem probeForEngineTable_absent {o : Outcomes} {d : Bool} {c : Fin 4} (t : EngineTable)
    (hp : enginePresent o ⟨c,d⟩ = false) : probeForEngineTable o d c t = (0,t) := by
  unfold probeForEngineTable
  simp [hp, probeForEngine_absent t.state hp]

theorem tryEach_entered {o : Outcomes} {d : Bool} {cs : List (Fin 4)} {t : EngineTable} {k : Nat}
    (hx : t.state.lro.msixEnabled = o.msixCapable) (hk : t.state.lro.enginesNum = k)
    (hcs : cs.Nodup) :
    (∀ c ∈ madeEngines o d cs, Entered (tryEach (probeForEngineTable o d) cs t).2 ⟨c,d⟩
      (k+(madeEngines o d cs).idxOf c)) ∧
    ((tryEach (probeForEngineTable o d) cs t).1 = 0 →
      (tryEach (probeForEngineTable o d) cs t).2.state.lro.enginesNum =
        (k+(madeEngines o d cs).length : Nat)) := by
  induction cs generalizing t k with
  | nil => exact ⟨by simp [madeEngines],fun _ => by simpa [madeEngines] using hk⟩
  | cons c cs ih =>
    obtain ⟨hc,hcs⟩ := List.nodup_cons.mp hcs
    have hfails := probeForEngine_fails hx d c
    have hrc := (probeForEngineTable_state o d c t).1
    cases hrefused : o.slotRefused ⟨c,d⟩ with
    | true =>
      have hfail : (probeForEngineTable o d c t).1 ≠ 0 := by
        rw [hrc]
        exact hfails.mpr hrefused
      rw [tryEach_cons_of_fails cs hfail]
      exact ⟨by simp [madeEngines, hrefused],fun h => absurd h hfail⟩
    | false =>
      have hpass : (probeForEngineTable o d c t).1 = 0 := by
        rw [hrc]
        by_contra hn
        rw [hfails.mp hn] at hrefused
        cases hrefused
      rw [tryEach_cons_of_passes cs hpass]
      cases hp : enginePresent o ⟨c,d⟩ with
      | false =>
        have hmade : madeEngines o d (c :: cs) = madeEngines o d cs := by
          simp [madeEngines, hrefused, hp]
        rw [probeForEngineTable_absent t hp, hmade]
        exact ih hx hk hcs
      | true =>
        have hmade : madeEngines o d (c :: cs) = c :: madeEngines o d cs := by
          simp [madeEngines, hrefused, hp]
        have hr : o.engineRefused ⟨c,d⟩ = false := by
          simpa [Outcomes.slotRefused, hp] using hrefused
        obtain ⟨hentered,hnext⟩ := probeForEngineTable_entered hx hk hp hr
        have hx' : (probeForEngineTable o d c t).2.state.lro.msixEnabled = o.msixCapable := by
          rw [(probeForEngineTable_state o d c t).2, probeForEngine_msix, hx]
        obtain ⟨hall,hnum⟩ := ih hx' hnext hcs
        have hmem : ∀ {c'}, c' ∈ madeEngines o d cs → c' ∈ cs := fun h =>
          (List.takeWhile_sublist _).mem (List.mem_of_mem_filter h)
        rw [hmade]
        refine ⟨fun c' hc' => ?_,fun h => ?_⟩
        · rcases List.mem_cons.mp hc' with rfl | hc'
          · rw [List.idxOf_cons_self, Nat.add_zero]
            refine hentered.same (tryEach_engineTable_others o _ fun c'' hc'' heq => ?_)
            exact hc (EngineSlot.mk.inj heq |>.1 ▸ hc'')
          · have hne : c ≠ c' := fun heq => hc (heq ▸ hmem hc')
            rw [List.idxOf_cons_ne _ hne]
            have h := hall c' hc'
            rwa [Nat.add_assoc, Nat.add_comm 1] at h
        · rw [hnum h, List.length_cons]
          congr 1
          omega

theorem madeEngines_eq {o : Outcomes} {d : Bool} {cs : List (Fin 4)} (hcs : cs.Nodup) :
    madeEngines o d cs = cs.filter fun c => enginePresent o ⟨c,d⟩ &&
      decide (c ∈ cs.takeWhile fun c => !o.slotRefused ⟨c,d⟩) := by
  unfold madeEngines
  induction cs with
  | nil => rfl
  | cons c cs ih =>
    obtain ⟨hc,hcs⟩ := List.nodup_cons.mp hcs
    cases hrefused : o.slotRefused ⟨c,d⟩ with
    | true => simp [hrefused]
    | false =>
      have hrest : ∀ c' ∈ cs, (decide (c' ∈ c :: cs.takeWhile fun c => !o.slotRefused ⟨c,d⟩)) =
          decide (c' ∈ cs.takeWhile fun c => !o.slotRefused ⟨c,d⟩) := by
        intro c' hc'
        have hne : c' ≠ c := fun heq => hc (heq ▸ hc')
        simp [hne]
      have htake : ((c :: cs).takeWhile fun c => !o.slotRefused ⟨c,d⟩) =
          c :: cs.takeWhile fun c => !o.slotRefused ⟨c,d⟩ := by
        simp [hrefused]
      rw [htake, List.filter_cons, List.filter_cons, ih hcs]
      have hfilter : (cs.filter fun c' => enginePresent o ⟨c',d⟩ &&
            decide (c' ∈ c :: cs.takeWhile fun c => !o.slotRefused ⟨c,d⟩)) =
          cs.filter fun c' => enginePresent o ⟨c',d⟩ &&
            decide (c' ∈ cs.takeWhile fun c => !o.slotRefused ⟨c,d⟩) :=
        List.filter_congr fun c' hc' => by rw [hrest c' hc']
      rw [hfilter]
      simp

theorem madeEngines_there (o : Outcomes) (d : Bool) :
    (madeEngines o d (List.finRange 4)).map (⟨·,d⟩) =
      ((List.finRange 4).map fun c => EngineSlot.mk c d).filter o.engineThere := by
  rw [madeEngines_eq (List.nodup_finRange 4), List.filter_map]
  rfl

theorem isrSlots_there (o : Outcomes) : isrSlots.filter o.engineThere =
    (madeEngines o false (List.finRange 4)).map (⟨·,false⟩) ++
      (madeEngines o true (List.finRange 4)).map (⟨·,true⟩) := by
  rw [isrSlots, List.filter_append, madeEngines_there, madeEngines_there]

theorem idxOf_slot (cs : List (Fin 4)) (d : Bool) (c : Fin 4) :
    (cs.map fun c => EngineSlot.mk c d).idxOf ⟨c,d⟩ = cs.idxOf c := by
  induction cs with
  | nil => rfl
  | cons c' cs ih =>
    rw [List.map_cons]
    by_cases h : c' = c
    · subst h
      rw [List.idxOf_cons_self, List.idxOf_cons_self]
    · have hne : (EngineSlot.mk c' d) ≠ ⟨c,d⟩ := fun heq => h (EngineSlot.mk.inj heq).1
      rw [List.idxOf_cons_ne _ hne, List.idxOf_cons_ne _ h, ih]

/-- Every engine that comes of `probe_engines` has the number it has among them all. -/
theorem engineTable_entered {o : Outcomes} {t : EngineTable}
    (hx : t.state.lro.msixEnabled = o.msixCapable) (hnum : t.state.lro.enginesNum = 0)
    (hrc : o.h2cRefused = false) {e : EngineSlot} {n : Nat}
    (he : (IrqLines.probed o.engineThere).engine e = some n) : Entered (engineTable o t) e n := by
  obtain ⟨hthere,rfl⟩ : o.engineThere e = true ∧ (isrSlots.filter o.engineThere).idxOf e = n := by
    simpa [IrqLines.probed] using he
  have hmem : e ∈ isrSlots.filter o.engineThere := by simp [mem_isrSlots, hthere]
  obtain ⟨t₁,ht₁⟩ : ∃ t₁, t₁ = (tryEach (probeForEngineTable o false) (List.finRange 4) t).2 :=
    ⟨_,rfl⟩
  obtain ⟨hto,hcount⟩ := tryEach_entered (d := false) hx (k := 0) hnum (List.nodup_finRange 4)
  have hpass : (tryEach (probeForEngineTable o false) (List.finRange 4) t).1 = 0 := by
    rw [(tryEach_engineTable o false _ t).1]
    by_contra hn
    have hbad := (engineLoop_fails hx false (List.finRange 4)).mp hn
    rw [← Bool.not_eq_true, Outcomes.h2cRefused, List.any_eq_true] at hrc
    exact hrc hbad
  have hnext := hcount hpass
  rw [← ht₁] at hto hnext
  have hx₁ : t₁.state.lro.msixEnabled = o.msixCapable := by
    obtain ⟨n,engine,hl⟩ := engineLoop_lro o false (List.finRange 4) t.state
    rw [ht₁, (tryEach_engineTable o false _ t).2, hl]
    exact hx
  obtain ⟨hfrom,-⟩ := tryEach_entered (d := true) hx₁ hnext (List.nodup_finRange 4)
  unfold engineTable
  rw [← ht₁]
  rw [isrSlots_there] at hmem ⊢
  rcases List.mem_append.mp hmem with h | h
  · rw [List.idxOf_append_of_mem h]
    obtain ⟨c,hc,rfl⟩ := List.mem_map.mp h
    rw [idxOf_slot]
    have hentered := hto c hc
    rw [Nat.zero_add] at hentered
    exact hentered.same (tryEach_engineTable_others o t₁ fun c' _ heq => by simp at heq)
  · obtain ⟨c,hc,rfl⟩ := List.mem_map.mp h
    have hnot : (⟨c,true⟩ : EngineSlot) ∉
        (madeEngines o false (List.finRange 4)).map (⟨·,false⟩) := by simp
    rw [List.idxOf_append_of_notMem hnot, idxOf_slot, List.length_map]
    have hentered := hfrom c hc
    rwa [Nat.zero_add] at hentered

structure VectorRegs where
  userMsiVector : Nat → U32
  channelMsiVector : Nat → U32

def buildVectorReg (a b c d : U32) : U32 :=
  (a &&& 0x1f) <<< 0 ||| (b &&& 0x1f) <<< 8 ||| (c &&& 0x1f) <<< 16 ||| (d &&& 0x1f) <<< 24

def writeMsixVectors (regs : VectorRegs) : VectorRegs where
  userMsiVector i :=
    if i = 0 then buildVectorReg 0 1 2 3
    else if i = 1 then buildVectorReg 4 5 6 7
    else if i = 2 then buildVectorReg 8 9 10 11
    else if i = 3 then buildVectorReg 12 13 14 15
    else regs.userMsiVector i
  channelMsiVector i :=
    if i = 0 then buildVectorReg 16 17 18 19
    else if i = 1 then buildVectorReg 20 21 22 23
    else regs.channelMsiVector i

/-- What the device takes for the vector of interrupt `i`: five bits of every byte. -/
def msiVector (regs : Nat → U32) (i : Nat) : Nat := ((regs (i/4) >>> (8*(i%4))) &&& 0x1f).toNat

inductive IrqHandler where
  -- `xdma_user_irq` for `user_irq[i]`
  | user (i : Nat)
  -- `xdma_channel_irq` for an engine
  | channel (e : EngineSlot)
  deriving DecidableEq, Repr

def handlers (l : XdmaDev) (vector : Nat) : List IrqHandler :=
  ((List.range l.irqUserCount).filter fun i : Nat => l.entry i = vector).map .user ++
    (isrSlots.filter fun e => (l.engine e).any fun eng =>
      decide (eng.msixIrqLine ≠ 0) && decide (eng.msixIrqLine = vector)).map .channel

theorem msiVector_user (regs : VectorRegs) {i : Nat} (hi : i < maxUserIrq) :
    msiVector (writeMsixVectors regs).userMsiVector i = i := by
  unfold maxUserIrq at hi
  interval_cases i <;> simp [msiVector, writeMsixVectors, buildVectorReg]

theorem msiVector_channel (regs : VectorRegs) {n : Nat} (hn : n < 8) :
    msiVector (writeMsixVectors regs).channelMsiVector n = n+maxUserIrq := by
  interval_cases n <;> simp [msiVector, writeMsixVectors, buildVectorReg, maxUserIrq]

structure Registered (o : Outcomes) (l : XdmaDev) : Prop where
  entry : l.entry = o.vector
  count : l.irqUserCount = maxUserIrq
  there : ∀ e, (l.engine e).isSome = o.engineThere e
  line : ∀ e n, (IrqLines.probed o.engineThere).engine e = some n →
    ∃ eng, l.engine e = some eng ∧ eng.msixIrqLine = o.vector (n+maxUserIrq : Nat)

section routes

variable {o : Outcomes} {l : XdmaDev}

def Outcomes.VectorsApart (o : Outcomes) : Prop :=
  ∀ i j : Nat, i < maxUserIrq+8 → j < maxUserIrq+8 → o.vector i = o.vector j → i = j

theorem Registered.line_iff (h : Registered o l) (ha : o.VectorsApart)
    (hpos : ∀ i, 0 < o.vector i) (e : EngineSlot) {i : Nat} (hi : i < maxUserIrq+8) :
    ((l.engine e).any fun eng =>
      decide (eng.msixIrqLine ≠ 0) && decide (eng.msixIrqLine = l.entry i)) = true ↔
      ∃ n, (IrqLines.probed o.engineThere).engine e = some n ∧ n+maxUserIrq = i := by
  rw [h.entry]
  cases hn : (IrqLines.probed o.engineThere).engine e with
  | none =>
    have hthere : o.engineThere e = false := by
      simpa [IrqLines.probed] using hn
    have hnone : l.engine e = none := by
      rw [← Option.not_isSome_iff_eq_none, h.there e, hthere]
      decide
    simp [hnone]
  | some n =>
    obtain ⟨eng,heng,hline⟩ := h.line e n hn
    have hlt := (IrqLines.probed o.engineThere).small e n hn
    have hne : o.vector (n+maxUserIrq : Nat) ≠ 0 := Nat.pos_iff_ne_zero.mp (hpos _)
    simp only [heng, Option.any_some, hline, Bool.and_eq_true, decide_eq_true_eq, ne_eq, hne,
      not_false_eq_true, true_and, Option.some.injEq, exists_eq_left']
    exact ⟨fun heq => ha _ _ (by omega) hi heq,fun heq => by rw [heq]⟩

theorem Registered.user (h : Registered o l) (ha : o.VectorsApart) {i : Nat}
    (hi : i < maxUserIrq) : handlers l (l.entry i) = [.user i] := by
  have huser : ((List.range l.irqUserCount).filter fun j : Nat => l.entry j = l.entry i) = [i] := by
    have hiff : ((List.range maxUserIrq).filter fun j : Nat => l.entry j = l.entry i) =
        (List.range maxUserIrq).filter fun j => j = i := by
      refine List.filter_congr fun j hj => decide_eq_decide.mpr ⟨fun heq => ?_,fun heq => by rw [heq]⟩
      rw [h.entry] at heq
      exact ha j i (by have := List.mem_range.mp hj; omega) (by omega) heq
    rw [h.count, hiff, List.filter_eq]
    have hone : (List.range maxUserIrq).count i = 1 :=
      List.count_eq_one_of_mem List.nodup_range (List.mem_range.mpr hi)
    rw [hone]
    rfl
  have hchannel : (isrSlots.filter fun e => (l.engine e).any fun eng =>
      decide (eng.msixIrqLine ≠ 0) && decide (eng.msixIrqLine = l.entry i)) = [] := by
    refine List.filter_eq_nil_iff.mpr fun e _ hline => ?_
    obtain ⟨n,-,hn⟩ := (h.line_iff ha o.vector_pos e (by omega)).mp hline
    omega
  rw [handlers, huser, hchannel]
  rfl

theorem Registered.channel (h : Registered o l) (ha : o.VectorsApart) {n : Nat}
    (hn : n < 8) : handlers l (l.entry (n+maxUserIrq : Nat)) =
      (isrSlots.filter ((IrqLines.probed o.engineThere).fired ((1 : U32) <<< n))).map .channel := by
  have huser : ((List.range l.irqUserCount).filter
      fun j : Nat => l.entry j = l.entry (n+maxUserIrq : Nat)) = [] := by
    refine List.filter_eq_nil_iff.mpr fun j hj heq => ?_
    have hlt := List.mem_range.mp hj
    rw [h.count] at hlt
    rw [h.entry] at heq
    have hj := ha j (n+maxUserIrq) (by omega) (by omega) (of_decide_eq_true heq)
    omega
  rw [handlers, huser, List.map_nil, List.nil_append]
  congr 1
  refine List.filter_congr fun e _ => Bool.eq_iff_iff.mpr ?_
  rw [h.line_iff ha o.vector_pos e (by omega)]
  unfold IrqLines.fired
  cases hm : (IrqLines.probed o.engineThere).engine e with
  | none => simp
  | some m =>
    have hlt := (IrqLines.probed o.engineThere).small e m hm
    have hbit : (irqBitmask m &&& ((1 : U32) <<< n) != 0) = decide (n = m) := by
      have htwo : (1 : U32) <<< n = BitVec.twoPow 32 n := rfl
      rw [irqBitmask_and hlt, htwo, BitVec.getLsbD_twoPow]
      have h32 : n < 32 := by omega
      simp [h32]
    rw [Option.map_some, Option.getD_some, hbit]
    simp [eq_comm]

end routes

theorem engineTable_state {o : Outcomes} {t : EngineTable}
    (hx : t.state.lro.msixEnabled = o.msixCapable) (hrc : o.h2cRefused = false) :
    (engineTable o t).state = (probeEngines o t.state).2 := by
  have hpass : ¬(tryEach (probeForEngine o false) (List.finRange 4) t.state).1 ≠ 0 := by
    intro hn
    have hbad := (engineLoop_fails hx false (List.finRange 4)).mp hn
    rw [← Bool.not_eq_true, Outcomes.h2cRefused, List.any_eq_true] at hrc
    exact hrc hbad
  unfold engineTable probeEngines
  dsimp only
  rw [if_neg hpass, (tryEach_engineTable o true _ _).2, (tryEach_engineTable o false _ t).2]

def probedTable (o : Outcomes) (present : Nat → Bool) (major : U32) : EngineTable :=
  engineTable o ⟨irqsSet o (scanned o present major),fun _ => 0,fun _ => 0⟩

theorem probe_lro {o : Outcomes} {present : Nat → Bool} {major : U32}
    (hrc : (probe o present major).1 = 0) : ∃ charDev m i,
    (probe o present major).2.lro = { (atInterfaces o present major).lro with
      charDev := charDev
      major := m
      instanceNo := i } := by
  have heq := probe_eq present major (probe_reaches hrc)
  rw [heq] at hrc ⊢
  unfold probeInterfaces at hrc ⊢
  dsimp only at hrc ⊢
  obtain ⟨charDev,m,i,hl⟩ := (createInterfaces_step o (atInterfaces o present major)).lro
  split_ifs at hrc ⊢
  · exact absurd hrc (by simp)
  · exact absurd hrc (by simp)
  · exact ⟨charDev,m,i,(ProbeState.lro_acquire _ _).trans hl⟩

section probe

variable {o : Outcomes} (present : Nat → Bool) (major : U32)

theorem probedTable_entered (hreach : o.reachesInterfaces = true) {e : EngineSlot} {n : Nat}
    (he : (IrqLines.probed o.engineThere).engine e = some n) :
    Entered (probedTable o present major) e n ∧
      (probedTable o present major).state = atInterfaces o present major := by
  obtain ⟨_,_,_,_,_,_,_,_,_,_,hl⟩ := irqsSet_mapped o present major
  simp only [Outcomes.reachesInterfaces, Bool.and_eq_true, Bool.not_eq_true'] at hreach
  have hx : (irqsSet o (scanned o present major)).lro.msixEnabled = o.msixCapable := by rw [hl]
  exact ⟨engineTable_entered hx (by rw [hl]; rfl) hreach.2 he,engineTable_state hx hreach.2⟩

theorem scanned_entry (hx : o.msixCapable = true) (hv : o.vectorsRefused = false) :
    (scanned o present major).lro.entry = o.vector := by
  have hgranted : o.pciEnableMsix = 0 := by
    simpa [Outcomes.vectorsRefused, hx] using hv
  unfold scanned probeScanForMsi
  simp [hx, hgranted]

theorem atInterfaces_entry (hx : o.msixCapable = true) (hv : o.vectorsRefused = false)
    (hreach : o.reachesInterfaces = true) :
    (atInterfaces o present major).lro.entry = o.vector ∧
      (atInterfaces o present major).lro.irqUserCount = maxUserIrq := by
  obtain ⟨entry,msi,hl⟩ := scanned_lro o present major
  obtain ⟨hbar,hconfig,-,-⟩ := requestRegions_unmapped hl
  obtain ⟨_,_,hl₁⟩ := requestRegions_lro o (scanned o present major)
  obtain ⟨_,_,_,_,hl₂⟩ := mapBars_lro (o := o) hbar hconfig
  obtain ⟨n,engine,hl₄⟩ := probeEngines_lro o (irqsSet o (scanned o present major))
  simp only [Outcomes.reachesInterfaces, Bool.and_eq_true, Bool.not_eq_true'] at hreach
  have hx₂ : (barsMapped o (scanned o present major)).lro.msixEnabled = true :=
    (barsMapped_msix hl).trans hx
  have hgranted : (msixIrqSetup o (barsMapped o (scanned o present major))).1 = 0 := by
    by_contra hn
    have hfails := (irqSetup_fails (barsMapped_msix hl)).mp
      (by rw [irqSetup, if_pos hx₂]; exact hn)
    rw [hreach.1.2] at hfails
    cases hfails
  have hl₃ : (irqsSet o (scanned o present major)).lro =
      { (barsMapped o (scanned o present major)).lro with irqUserCount := maxUserIrq } := by
    rw [irqsSet, irqSetup, if_pos hx₂]
    exact (msixIrqSetup_granted hgranted).1
  rw [atInterfaces, hl₄, hl₃, barsMapped, hl₂, hl₁]
  exact ⟨scanned_entry present major hx hv,rfl⟩

variable {present} {major} in
theorem probe_registered (hrc : (probe o present major).1 = 0) (hx : o.msixCapable = true)
    (hv : o.vectorsRefused = false) : Registered o (probe o present major).2.lro := by
  have hreach := probe_reaches hrc
  obtain ⟨charDev,m,i,hl⟩ := probe_lro hrc
  obtain ⟨hentry,hcount⟩ := atInterfaces_entry present major hx hv hreach
  have hfresh := atInterfaces_fresh present major hreach
  rw [hl]
  refine ⟨hentry,hcount,hfresh.engine,fun e n he => ?_⟩
  obtain ⟨hentered,hstate⟩ := probedTable_entered present major hreach he
  obtain ⟨eng,heng,hline⟩ := hentered.line
  have hmsix : (atInterfaces o present major).lro.msixEnabled = true := by
    obtain ⟨_,_,_,_,_,_,_,_,_,_,hl₃⟩ := irqsSet_mapped o present major
    obtain ⟨n,engine,hl₄⟩ := probeEngines_lro o (irqsSet o (scanned o present major))
    rw [atInterfaces, hl₄, hl₃]
    exact hx
  rw [hstate] at heng hline
  rw [hentry] at hline
  exact ⟨eng,heng,hline hmsix⟩

end probe

/-- A message of an interrupt runs the handler that the interrupt is for: with an engine's
interrupt, that of the engines which `xdma_isr` would find had it read this one bit. -/
structure Routed (l : XdmaDev) (irqBitmask : EngineSlot → U32) (regs : VectorRegs) : Prop where
  user : ∀ i < maxUserIrq, handlers l (l.entry (msiVector regs.userMsiVector i)) = [.user i]
  channel : ∀ n < 8, handlers l (l.entry (msiVector regs.channelMsiVector n)) =
    (isrSlots.filter fun e =>
      (l.engine e).isSome && irqBitmask e &&& ((1 : U32) <<< n) != 0).map .channel

/-- After a probe every message finds its handler. -/
theorem probe_routed {o : Outcomes} {present : Nat → Bool} {major : U32}
    (hrc : (probe o present major).1 = 0) (hx : o.msixCapable = true)
    (hv : o.vectorsRefused = false) (ha : o.VectorsApart) (regs : VectorRegs) :
    Routed (probe o present major).2.lro (probedTable o present major).irqBitmask
      (writeMsixVectors regs) := by
  have hregistered := probe_registered hrc hx hv
  refine ⟨fun i hi => ?_,fun n hn => ?_⟩
  · rw [msiVector_user regs hi]
    exact hregistered.user ha hi
  · rw [msiVector_channel regs hn, hregistered.channel ha hn]
    congr 1
    refine List.filter_congr fun e _ => ?_
    rw [hregistered.there e]
    unfold IrqLines.fired
    cases he : (IrqLines.probed o.engineThere).engine e with
    | none =>
      have hthere : o.engineThere e = false := by
        simpa [IrqLines.probed] using he
      simp [hthere]
    | some m =>
      have hthere : o.engineThere e = true := by
        by_contra hn
        simp [IrqLines.probed, hn] at he
      obtain ⟨hentered,-⟩ := probedTable_entered present major (probe_reaches hrc) he
      rw [hentered.irqBitmask, hthere]
      simp

theorem probe_routed_grantsAll : Routed (probe grantsAll (fun _ => false) 0).2.lro
    (probedTable grantsAll (fun _ => false) 0).irqBitmask
    (writeMsixVectors ⟨fun _ => 0,fun _ => 0⟩) :=
  probe_routed (by decide +kernel) rfl rfl (fun i j _ _ h => by simpa [grantsAll] using h) _

end DmaCamera.Probe
