import DmaCamera.Probe
import Mathlib.Data.Bool.Basic
import Mathlib.Data.List.TakeWhile
set_option autoImplicit false

namespace DmaCamera.Probe
open Ledger Loops

/-! What a device that is being set up holds, and what each rung of the ladder at the
end of `probe` gives back. -/

/-- The rung that gives a resource back, counted from the bottom. -/
def Resource.level : Resource → Nat
  | .lro => 0
  | .device => 1
  | .msix | .msi => 2
  | .regions => 3
  | .bar _ => 4
  | .userIrq _ | .irq => 5
  | .engine _ | .engineIrq _ | .writeback _ => 6
  | _ => 7

/-- What the device's own book keeping says is held, below the character devices. -/
def owed (o : Outcomes) (l : XdmaDev) : Resource → Bool
  | .lro | .device => true
  | .msix => l.msixEnabled
  | .msi => !l.msixEnabled && l.msiEnabled
  | .regions => l.gotRegions
  | .bar i => l.bar i
  | .userIrq i => l.msixEnabled && decide (i < l.irqUserCount)
  | .irq => !l.msixEnabled && decide (l.irqLine ≠ -1)
  | .engine e => (l.engine e).isSome
  | .engineIrq e => (l.engine e).any fun eng => decide (eng.msixIrqLine ≠ 0)
  | .writeback e => (l.engine e).any fun eng => o.pollMode && eng.writeback
  | _ => false

/-- The book keeping is right about the rungs below `k`; above, nothing is held. -/
def HeldBelow (o : Outcomes) (k : Nat) (s : ProbeState) : Prop :=
  ∀ r, s.holds r = some (decide (r.level < k) && owed o s.lro r).toNat

def Keeps (p : Resource → Prop) (s s' : ProbeState) : Prop := ∀ r, p r → s'.holds r = s.holds r

namespace ProbeState

variable (s : ProbeState) (r r' : Resource) (i : Nat) (b : Bool) (f : XdmaDev → XdmaDev)

@[simp] theorem holds_acquire : (s.acquire r').holds r =
    if r' = r then (s.holds r).map (· + 1) else s.holds r := balance_snoc r s.trace (.acquire r')

@[simp] theorem holds_release : (s.release r').holds r =
    if r' = r then returned (s.holds r) else s.holds r := balance_snoc r s.trace (.release r')

@[simp] theorem holds_setLro : (s.setLro f).holds r = s.holds r := rfl
@[simp] theorem holds_mark : (s.mark i b).holds r = s.holds r := rfl
@[simp] theorem lro_acquire : (s.acquire r).lro = s.lro := rfl
@[simp] theorem lro_release : (s.release r).lro = s.lro := rfl
@[simp] theorem lro_setLro : (s.setLro f).lro = f s.lro := rfl
@[simp] theorem lro_mark : (s.mark i b).lro = s.lro := rfl
@[simp] theorem major_acquire : (s.acquire r).major = s.major := rfl
@[simp] theorem major_release : (s.release r).major = s.major := rfl
@[simp] theorem major_setLro : (s.setLro f).major = s.major := rfl
@[simp] theorem present_acquire : (s.acquire r).present = s.present := rfl
@[simp] theorem present_release : (s.release r).present = s.present := rfl
@[simp] theorem present_setLro : (s.setLro f).present = s.present := rfl
@[simp] theorem slotReads_acquire : (s.acquire r).slotReads = s.slotReads := rfl
@[simp] theorem slotReads_release : (s.release r).slotReads = s.slotReads := rfl
@[simp] theorem slotReads_setLro : (s.setLro f).slotReads = s.slotReads := rfl

theorem holds_undo {s s' : ProbeState} {r : Resource}
    (h : ∀ q, s'.holds q = (s.acquire r).holds q) (q : Resource) :
    (s'.release r).holds q = s.holds q := by
  rw [holds_release, h q, holds_acquire]
  split_ifs
  · exact returned_map_succ _
  · rfl

theorem foldl_release {ι : Type*} (g : ι → Resource) (is : List ι) :
    is.foldl (fun s i => s.release (g i)) s =
      { s with trace := s.trace ++ (is.map g).map .release } := by
  induction is generalizing s with
  | nil => simp
  | cons i is ih =>
    rw [List.foldl_cons, ih]
    simp [release]

end ProbeState

theorem Keeps.refl (p : Resource → Prop) (s : ProbeState) : Keeps p s s := fun _ _ => rfl

theorem Keeps.trans {p : Resource → Prop} {s₁ s₂ s₃ : ProbeState} (h : Keeps p s₁ s₂)
    (h' : Keeps p s₂ s₃) : Keeps p s₁ s₃ := fun r hr => (h' r hr).trans (h r hr)

theorem Keeps.mono {p q : Resource → Prop} {s s' : ProbeState} (h : Keeps p s s')
    (hq : ∀ r, q r → p r) : Keeps q s s' := fun r hr => h r (hq r hr)

theorem Keeps.release {p : Resource → Prop} {s s' : ProbeState} (h : Keeps p s s') {r : Resource}
    (hr : ¬p r) : Keeps p s (s'.release r) := by
  intro r' hr'
  have hne : r ≠ r' := fun hrr => hr (hrr ▸ hr')
  rw [ProbeState.holds_release, if_neg hne]
  exact h r' hr'

theorem Keeps.acquire {p : Resource → Prop} {s s' : ProbeState} (h : Keeps p s s') {r : Resource}
    (hr : ¬p r) : Keeps p s (s'.acquire r) := by
  intro r' hr'
  have hne : r ≠ r' := fun hrr => hr (hrr ▸ hr')
  rw [ProbeState.holds_acquire, if_neg hne]
  exact h r' hr'

theorem Keeps.setLro {p : Resource → Prop} {s s' : ProbeState} (h : Keeps p s s')
    (f : XdmaDev → XdmaDev) : Keeps p s (s'.setLro f) := h

theorem HeldBelow.acquire {o : Outcomes} {k : Nat} {s : ProbeState} (h : HeldBelow o k s)
    {r : Resource} {f : XdmaDev → XdmaDev} (hk : r.level < k) (hr : owed o s.lro r = false)
    (hr' : owed o (f s.lro) r = true) (hother : ∀ r', r' ≠ r → owed o (f s.lro) r' = owed o s.lro r') :
    HeldBelow o k ((s.acquire r).setLro f) := by
  intro r'
  simp only [ProbeState.holds_setLro, ProbeState.holds_acquire, ProbeState.lro_setLro,
    ProbeState.lro_acquire]
  by_cases hrr : r = r'
  · subst hrr
    rw [if_pos rfl, h r, hr, hr']
    simp [hk]
  · rw [if_neg hrr, h r', hother r' (Ne.symm hrr)]

theorem HeldBelow.release {o : Outcomes} {k : Nat} {s : ProbeState} (h : HeldBelow o k s)
    {r : Resource} {f : XdmaDev → XdmaDev} (hk : r.level < k) (hr : owed o s.lro r = true)
    (hr' : owed o (f s.lro) r = false)
    (hother : ∀ r', r' ≠ r → r'.level < k → owed o (f s.lro) r' = owed o s.lro r') :
    HeldBelow o k ((s.release r).setLro f) := by
  intro r'
  simp only [ProbeState.holds_setLro, ProbeState.holds_release, ProbeState.lro_setLro,
    ProbeState.lro_release]
  by_cases hrr : r = r'
  · subst hrr
    rw [if_pos rfl, h r, hr, hr']
    simp [hk]
  · rw [if_neg hrr, h r']
    by_cases hlevel : r'.level < k
    · rw [hother r' (Ne.symm hrr) hlevel]
    · simp [hlevel]

theorem HeldBelow.setLro {o : Outcomes} {k : Nat} {s : ProbeState} (h : HeldBelow o k s)
    {f : XdmaDev → XdmaDev} (hf : ∀ r, r.level < k → owed o (f s.lro) r = owed o s.lro r) :
    HeldBelow o k (s.setLro f) := by
  intro r
  rw [ProbeState.holds_setLro, h r, ProbeState.lro_setLro]
  by_cases hr : r.level < k
  · rw [hf r hr]
  · simp [hr]

theorem HeldBelow.lower {o : Outcomes} {k : Nat} {s : ProbeState} (h : HeldBelow o (k+1) s)
    (h0 : ∀ r, r.level = k → owed o s.lro r = false) : HeldBelow o k s := by
  intro r
  rw [h r]
  rcases Nat.lt_trichotomy r.level k with hr | hr | hr
  · simp [hr, Nat.lt_succ_of_lt hr]
  · simp [h0 r hr]
  · have hle : ¬r.level < k+1 := by omega
    simp [hle, Nat.not_lt_of_gt hr]

theorem HeldBelow.releaseAll {o : Outcomes} {k : Nat} {s s' : ProbeState}
    (h : HeldBelow o (k+1) s) {rs : List Resource} (hn : rs.Nodup)
    (hmem : ∀ r, r ∈ rs ↔ r.level = k ∧ owed o s.lro r = true)
    (ht : s'.trace = s.trace ++ rs.map .release)
    (hl : ∀ r, r.level < k → owed o s'.lro r = owed o s.lro r) : HeldBelow o k s' := by
  intro r
  have hb : s'.holds r = if r ∈ rs then returned (s.holds r) else s.holds r := by
    rw [ProbeState.holds, ht, balance_released r s.trace hn]
    rfl
  rw [hb, h r]
  rcases Nat.lt_trichotomy r.level k with hr | hr | hr
  · have hnot : r ∉ rs := fun hrs => Nat.ne_of_lt hr ((hmem r).mp hrs).1
    rw [if_neg hnot, hl r hr]
    simp [hr, Nat.lt_succ_of_lt hr]
  · cases howed : owed o s.lro r with
    | true => simp [(hmem r).mpr ⟨hr,howed⟩, hr]
    | false =>
      have hnot : r ∉ rs := fun hrs => by
        rw [((hmem r).mp hrs).2] at howed
        cases howed
      simp [hnot, hr]
  · have hnot : r ∉ rs := fun hrs => Nat.ne_of_gt hr ((hmem r).mp hrs).1
    have hle : ¬r.level < k+1 := by omega
    simp [hnot, hle, Nat.not_lt_of_gt hr]

/-- The vectors were asked for and not given, though the driver goes by the request. -/
def Outcomes.vectorsRefused (o : Outcomes) : Bool :=
  if o.msixCapable then decide (o.pciEnableMsix ≠ 0)
  else o.msiCapable && decide (o.pciEnableMsi ≠ 0)

theorem enabled_heldBelow (o : Outcomes) (present : Nat → Bool) (major : U32) :
    HeldBelow o 7 (((probeStart present major).acquire .lro).acquire .device) := by
  intro r
  cases r <;> rfl

theorem probeScanForMsi_lro (o : Outcomes) (s : ProbeState) : ∃ entry msi msix,
    (probeScanForMsi o s).2.lro =
      { s.lro with entry := entry, msiEnabled := msi, msixEnabled := msix } := by
  unfold probeScanForMsi
  split_ifs <;> exact ⟨_,_,_,rfl⟩

theorem probeScanForMsi_flags {o : Outcomes} {s : ProbeState} (hs : s.lro = allocDevInstance) :
    (probeScanForMsi o s).2.lro.msixEnabled = o.msixCapable ∧
      (probeScanForMsi o s).2.lro.msiEnabled = (!o.msixCapable && o.msiCapable) := by
  unfold probeScanForMsi
  dsimp only
  split_ifs with hx h0 hm h0 <;> simp [allocDevInstance, *]

theorem probeScanForMsi_heldBelow {o : Outcomes} {s : ProbeState} (h : HeldBelow o 7 s)
    (hs : s.lro = allocDevInstance) (hv : o.vectorsRefused = false) :
    HeldBelow o 7 (probeScanForMsi o s).2 := by
  unfold probeScanForMsi Outcomes.vectorsRefused at *
  split_ifs at * with hx h0 hm h0
  · have hmsix := h.acquire (r := .msix) (f := fun l => { l with entry := o.vector, msixEnabled := true })
      (by simp [Resource.level]) (by simp [owed, hs, allocDevInstance]) rfl ?_
    · exact hmsix
    · intro r hr
      cases r <;> simp [owed, hs, allocDevInstance] at hr ⊢
  · simp [h0] at hv
  · refine h.acquire (r := .msi) (by simp [Resource.level]) (by simp [owed, hs, allocDevInstance])
      (by simp [owed, hs, allocDevInstance]) ?_
    intro r hr
    cases r <;> simp [owed, hs, allocDevInstance] at hr ⊢
  · simp [h0] at hv
    simp [hv] at hm
  · exact h

theorem requestRegions_fails (o : Outcomes) (s : ProbeState) :
    (requestRegions o s).1 ≠ 0 ↔ o.pciRequestRegions ≠ 0 := by
  unfold requestRegions
  split_ifs with h <;> simp [h]

theorem requestRegions_lro (o : Outcomes) (s : ProbeState) : ∃ inUse got,
    (requestRegions o s).2.lro = { s.lro with regionsInUse := inUse, gotRegions := got } := by
  unfold requestRegions
  split_ifs <;> exact ⟨_,_,rfl⟩

theorem requestRegions_keeps (o : Outcomes) (s : ProbeState) :
    Keeps (fun r => r.level ≠ 3) s (requestRegions o s).2 := by
  unfold requestRegions
  split_ifs
  · exact Keeps.refl _ s
  · exact ((Keeps.refl _ s).acquire (by simp [Resource.level])).setLro _

theorem requestRegions_heldBelow {o : Outcomes} {s : ProbeState} (h : HeldBelow o 7 s)
    (hg : s.lro.gotRegions = false) : HeldBelow o 7 (requestRegions o s).2 := by
  unfold requestRegions
  split_ifs
  · exact h.setLro fun r _ => by cases r <;> rfl
  · refine h.acquire (by simp [Resource.level]) hg rfl fun r hr => ?_
    cases r <;> simp [owed] at hr ⊢

def Outcomes.presentBars (o : Outcomes) : List (Fin 6) :=
  (List.finRange 6).filter fun i => decide (o.barLen i ≠ 0)

def Outcomes.looksConfig (o : Outcomes) (i : Fin 6) : Bool :=
  decide (xdmaBarSize ≤ o.barLen i) && isConfigBar o i

def Outcomes.barUnmappable (o : Outcomes) (i : Fin 6) : Bool :=
  decide (o.barLen i ≠ 0) && !o.pciIomap i

def Outcomes.barsFail (o : Outcomes) : Bool :=
  (List.finRange 6).any o.barUnmappable || (o.presentBars.findIdx? o.looksConfig).isNone

theorem scanBar_present {o : Outcomes} {i : Fin 6} {m : BarScan} (h0 : o.barLen i ≠ 0)
    (hio : o.pciIomap i = true) :
    (scanBar o i m).1 = 0 ∧ (scanBar o i m).2.barIdList = m.barIdList ++ [i] ∧
      (scanBar o i m).2.state.trace = m.state.trace ++ [.acquire (.bar i)] ∧
      (scanBar o i m).2.state.lro = { m.state.lro with
        bar := Function.update m.state.lro.bar i true
        configBarIdx := if m.state.lro.configBarIdx = none ∧ o.looksConfig i then some i
          else m.state.lro.configBarIdx } ∧
      (scanBar o i m).2.configBarPos =
        if m.state.lro.configBarIdx = none ∧ o.looksConfig i then m.barIdList.length
        else m.configBarPos := by
  have hpos : 0 < o.barLen i := Nat.pos_of_ne_zero h0
  have hlen : ∀ n : Nat, (n : Int) ≥ (xdmaBarSize : Nat) ↔ xdmaBarSize ≤ n := fun n =>
    Int.ofNat_le
  have hsize : xdmaBarSize ≤ (if o.barLen i > intMax then intMax else o.barLen i) ↔
      xdmaBarSize ≤ o.barLen i := by
    unfold xdmaBarSize intMax
    split_ifs <;> omega
  have hne : ((if o.barLen i > intMax then intMax else o.barLen i : Nat) : Int) ≠ 0 := by
    unfold intMax
    split_ifs <;> omega
  have hneg : ¬((if o.barLen i > intMax then intMax else o.barLen i : Nat) : Int) < 0 :=
    Int.not_lt.mpr (Int.natCast_nonneg _)
  simp only [scanBar, mapSingleBar, h0, hio, if_true, if_false, hne, hneg, hlen, hsize,
    ProbeState.lro_setLro, ProbeState.lro_acquire]
  have hcond : (xdmaBarSize ≤ o.barLen i ∧ m.state.lro.configBarIdx = none ∧
      isConfigBar o i = true) ↔ (m.state.lro.configBarIdx = none ∧ o.looksConfig i = true) := by
    simp only [Outcomes.looksConfig, Bool.and_eq_true, decide_eq_true_eq]
    tauto
  by_cases hc : m.state.lro.configBarIdx = none ∧ o.looksConfig i = true
  · simp [hc, hcond.mpr hc, ProbeState.setLro, ProbeState.acquire]
  · simp [hc, mt hcond.mp hc, ProbeState.setLro, ProbeState.acquire]

theorem scanBar_absent {o : Outcomes} {i : Fin 6} {m : BarScan}
    (h : o.barLen i = 0 ∨ o.pciIomap i = false) :
    ((scanBar o i m).1 ≠ 0 ↔ o.barUnmappable i) ∧ (scanBar o i m).2 = { m with
      state := m.state.setLro fun l => { l with bar := Function.update l.bar i false } } := by
  unfold scanBar mapSingleBar Outcomes.barUnmappable
  by_cases h0 : o.barLen i = 0
  · simp [h0]
  · have hio : o.pciIomap i = false := h.resolve_left h0
    simp [h0, hio]

theorem scanBar_fails (o : Outcomes) (i : Fin 6) (m : BarScan) :
    (scanBar o i m).1 ≠ 0 ↔ o.barUnmappable i := by
  by_cases h : o.barLen i = 0 ∨ o.pciIomap i = false
  · exact (scanBar_absent h).1
  · obtain ⟨h0,hio⟩ := not_or.mp h
    have hio : o.pciIomap i = true := by simpa using hio
    simp [(scanBar_present h0 hio).1, Outcomes.barUnmappable, hio]

theorem scanBar_keeps (o : Outcomes) (i : Fin 6) (m : BarScan) :
    Keeps (fun r => r.level ≠ 4) m.state (scanBar o i m).2.state := by
  by_cases h : o.barLen i = 0 ∨ o.pciIomap i = false
  · rw [(scanBar_absent h).2]
    exact Keeps.refl _ _
  · obtain ⟨h0,hio⟩ := not_or.mp h
    intro r hr
    have ht := (scanBar_present (m := m) h0 (by simpa using hio)).2.2.1
    have hne : Resource.bar i ≠ r := fun hir => hr (hir ▸ rfl)
    rw [ProbeState.holds, ht, balance_snoc, post, if_neg hne]
    rfl

structure Scanning (o : Outcomes) (l : XdmaDev) (is : List (Fin 6)) (m : BarScan) : Prop where
  lro : ∃ bar config,
    m.state.lro = { l with bar := bar, configBarIdx := config }
  unmapped : ∀ i ∈ is, m.state.lro.bar i = false
  found : m.state.lro.configBarIdx.isSome = (m.barIdList.findIdx? o.looksConfig).isSome
  pos : ∀ k, m.barIdList.findIdx? o.looksConfig = some k → m.configBarPos = k

theorem Scanning.step {o : Outcomes} {l : XdmaDev} {i : Fin 6} {is : List (Fin 6)} {m : BarScan}
    (h : Scanning o l (i :: is) m) (hi : i ∉ is) : Scanning o l is (scanBar o i m).2 := by
  obtain ⟨bar,config,hl⟩ := h.lro
  have hother : ∀ (b : Bool), ∀ j ∈ is, Function.update m.state.lro.bar i b j = false := by
    intro b j hj
    have hji : j ≠ i := fun hji => hi (hji ▸ hj)
    rw [Function.update_of_ne hji]
    exact h.unmapped j (List.mem_cons_of_mem i hj)
  by_cases hp : o.barLen i = 0 ∨ o.pciIomap i = false
  · rw [(scanBar_absent hp).2]
    exact ⟨⟨_,_,by rw [ProbeState.lro_setLro, hl]⟩,hother false,h.found,h.pos⟩
  · obtain ⟨h0,hio⟩ := not_or.mp hp
    obtain ⟨-,hlist,-,hlro,hpos⟩ := scanBar_present (m := m) h0 (by simpa using hio)
    refine ⟨⟨_,_,by rw [hlro, hl]⟩,?_,?_,?_⟩
    · rw [hlro]
      exact hother true
    · have hfound := h.found
      rw [hlro, hlist, List.findIdx?_append]
      cases hc : m.state.lro.configBarIdx with
      | none =>
        rw [hc] at hfound
        cases hlook : o.looksConfig i <;> simp_all
      | some j =>
        rw [hc] at hfound
        simp_all
    · intro k hk
      have hfound := h.found
      rw [hlist, List.findIdx?_append] at hk
      rw [hpos]
      cases hidx : m.barIdList.findIdx? o.looksConfig with
      | some j =>
        have hsome : m.state.lro.configBarIdx ≠ none := by
          intro hn
          simp [hn, hidx] at hfound
        rw [hidx, Option.some_or, Option.some.injEq] at hk
        simp [hsome, h.pos j hidx, hk]
      | none =>
        have hnone : m.state.lro.configBarIdx = none := by simpa [hidx] using hfound
        cases hlook : o.looksConfig i with
        | true => simpa [hidx, hlook, hnone] using hk
        | false => simp [hidx, hlook] at hk

theorem scanBar_heldBelow {o : Outcomes} {i : Fin 6} {m : BarScan} (h : HeldBelow o 7 m.state)
    (hi : m.state.lro.bar i = false) : HeldBelow o 7 (scanBar o i m).2.state := by
  by_cases hp : o.barLen i = 0 ∨ o.pciIomap i = false
  · rw [(scanBar_absent hp).2]
    refine h.setLro fun r _ => ?_
    cases r <;> simp [owed, ← hi]
  · obtain ⟨h0,hio⟩ := not_or.mp hp
    obtain ⟨-,-,ht,hlro,-⟩ := scanBar_present (m := m) h0 (by simpa using hio)
    have hup := h.acquire (r := .bar i)
      (f := fun l => { l with bar := Function.update l.bar i true }) (by simp [Resource.level]) hi
      (by simp [owed]) ?_
    · intro r
      have hr := hup r
      rw [ProbeState.holds, ht]
      refine hr.trans ?_
      rw [hlro]
      cases r <;> rfl
    · intro r hr
      cases r with
      | bar j =>
        have hji : j ≠ i := fun hji => hr (hji ▸ rfl)
        simp [owed, hji]
      | _ => rfl

theorem scanBars {o : Outcomes} {l : XdmaDev} {is : List (Fin 6)} {m : BarScan}
    (h : Scanning o l is m) (hn : is.Nodup) :
    Scanning o l [] (tryEach (scanBar o) is m).2 ∧
      ((tryEach (scanBar o) is m).1 = 0 → (tryEach (scanBar o) is m).2.barIdList =
        m.barIdList ++ is.filter fun i => decide (o.barLen i ≠ 0)) ∧
      (HeldBelow o 7 m.state → HeldBelow o 7 (tryEach (scanBar o) is m).2.state) := by
  induction is generalizing m with
  | nil => exact ⟨h,fun _ => by simp,id⟩
  | cons i is ih =>
    have hstep := h.step (List.nodup_cons.mp hn).1
    have hheld := fun hh => scanBar_heldBelow (o := o) hh (h.unmapped i (by simp))
    by_cases hrc : (scanBar o i m).1 = 0
    · rw [tryEach_cons_of_passes is hrc]
      obtain ⟨hs,hlist,hh⟩ := ih hstep (List.nodup_cons.mp hn).2
      refine ⟨hs,fun h0 => ?_,fun hm => hh (hheld hm)⟩
      rw [hlist h0]
      by_cases h0 : o.barLen i = 0
      · simp [(scanBar_absent (m := m) (Or.inl h0)).2, h0]
      · have hio : o.pciIomap i = true := by
          have hm := mt (scanBar_fails o i m).mpr (not_not.mpr hrc)
          simpa [Outcomes.barUnmappable, h0] using hm
        simp [(scanBar_present (m := m) h0 hio).2.1, h0]
    · rw [tryEach_cons_of_fails is hrc]
      refine ⟨⟨hstep.lro,fun j hj => ?_,hstep.found,hstep.pos⟩,fun h0 => absurd h0 hrc,hheld⟩
      exact absurd hj (by simp)

theorem unmapBar_keeps (s : ProbeState) (i : Fin 6) :
    Keeps (fun r => r.level ≠ 4) s (unmapBar s i) := by
  unfold unmapBar
  split_ifs
  · exact ((Keeps.refl _ s).release (by simp [Resource.level])).setLro _
  · exact Keeps.refl _ s

theorem unmapBar_lro (s : ProbeState) (i : Fin 6) :
    (unmapBar s i).lro = { s.lro with bar := Function.update s.lro.bar i false } := by
  unfold unmapBar
  split_ifs with h
  · rfl
  · have hb : s.lro.bar i = false := by simpa using h
    rw [← hb, Function.update_eq_self]

theorem unmapBar_heldBelow {o : Outcomes} {k : Nat} {s : ProbeState} (h : HeldBelow o k s)
    (hk : 4 < k) (i : Fin 6) : HeldBelow o k (unmapBar s i) := by
  unfold unmapBar
  split_ifs with hb
  · refine h.release hk hb (by simp [owed]) fun r hr _ => ?_
    cases r with
    | bar j =>
      have hji : j ≠ i := fun hji => hr (hji ▸ rfl)
      simp [owed, hji]
    | _ => rfl
  · exact h

theorem foldl_unmapBar (is : List (Fin 6)) (s : ProbeState) :
    (∃ bar, (is.foldl unmapBar s).lro = { s.lro with bar := bar } ∧
      (∀ i ∈ is, bar i = false) ∧ ∀ i, s.lro.bar i = false → bar i = false) ∧
      Keeps (fun r => r.level ≠ 4) s (is.foldl unmapBar s) ∧
      ∀ o k, HeldBelow o k s → 4 < k → HeldBelow o k (is.foldl unmapBar s) := by
  induction is generalizing s with
  | nil => exact ⟨⟨s.lro.bar,rfl,fun i hi => absurd hi (by simp),fun _ => id⟩,Keeps.refl _ s,
      fun _ _ h _ => h⟩
  | cons i is ih =>
    obtain ⟨⟨bar,hlro,hmem,hfalse⟩,hkeeps,hheld⟩ := ih (unmapBar s i)
    have hl := unmapBar_lro s i
    rw [hl] at hlro hfalse
    refine ⟨⟨bar,hlro,fun j hj => ?_,fun j hj => hfalse j ?_⟩,(unmapBar_keeps s i).trans hkeeps,
      fun o k h hk => hheld o k (unmapBar_heldBelow h hk i) hk⟩
    · rcases List.mem_cons.mp hj with rfl | hj
      · exact hfalse j (by simp)
      · exact hmem j hj
    · by_cases hji : j = i
      · simp [hji]
      · simp [hji, hj]

theorem unmapBars_lro (s : ProbeState) :
    (unmapBars s).lro = { s.lro with bar := fun _ => false } := by
  obtain ⟨⟨bar,hlro,hmem,-⟩,-⟩ := foldl_unmapBar (List.finRange 6) s
  have hbar : bar = fun _ => false := funext fun i => hmem i (List.mem_finRange i)
  rw [unmapBars, hlro, hbar]

theorem unmapBars_keeps (s : ProbeState) : Keeps (fun r => r.level ≠ 4) s (unmapBars s) :=
  (foldl_unmapBar (List.finRange 6) s).2.1

theorem unmapBars_heldBelow {o : Outcomes} {k : Nat} {s : ProbeState} (h : HeldBelow o k s)
    (hk : 4 < k) : HeldBelow o k (unmapBars s) :=
  (foldl_unmapBar (List.finRange 6) s).2.2 o k h hk

def Outcomes.hasUserBar (o : Outcomes) : Bool :=
  decide (o.presentBars.findIdx? o.looksConfig = some 1) &&
    (decide (o.presentBars.length = 2) || decide (o.presentBars.length = 3))

theorem identifyBars_lro (ids : List (Fin 6)) (pos : Nat) (l : XdmaDev) : ∃ user bypass,
    identifyBars ids pos l = { l with userBarIdx := user, bypassBarIdx := bypass } := by
  unfold identifyBars
  split
  · split_ifs <;> exact ⟨_,_,rfl⟩
  · split_ifs <;> exact ⟨_,_,rfl⟩
  · exact ⟨_,_,rfl⟩

def Outcomes.hasBypassBar (o : Outcomes) : Bool :=
  (decide (o.presentBars.findIdx? o.looksConfig = some 0) && decide (o.presentBars.length = 2)) ||
    (decide (o.presentBars.findIdx? o.looksConfig = some 1) && decide (o.presentBars.length = 3))

theorem identifyBars_found (ids : List (Fin 6)) (pos : Nat) (l : XdmaDev)
    (hu : l.userBarIdx = none) (hb : l.bypassBarIdx = none) :
    (identifyBars ids pos l).userBarIdx.isSome =
      (decide (pos = 1) && (decide (ids.length = 2) || decide (ids.length = 3))) ∧
    (identifyBars ids pos l).bypassBarIdx.isSome =
      ((decide (pos = 0) && decide (ids.length = 2)) ||
        (decide (pos = 1) && decide (ids.length = 3))) := by
  rcases ids with _ | ⟨a,_ | ⟨b,_ | ⟨c,_ | ⟨d,ids⟩⟩⟩⟩
  · simp [identifyBars, hu, hb]
  · simp [identifyBars, hu, hb]
  · by_cases h0 : pos = 0
    · simp [identifyBars, hu, h0]
    · by_cases h1 : pos = 1 <;> simp [identifyBars, hu, hb, h0, h1]
  · by_cases h1 : pos = 1 <;> simp [identifyBars, hu, hb, h1]
  · simp [identifyBars, hu, hb]

theorem scanning_start (o : Outcomes) {s : ProbeState} (hb : ∀ i, s.lro.bar i = false)
    (hc : s.lro.configBarIdx = none) : Scanning o s.lro (List.finRange 6) ⟨s,[],0⟩ :=
  ⟨⟨_,_,rfl⟩,fun i _ => hb i,by simp [hc],fun k hk => by simp at hk⟩

theorem mapBars_fails {o : Outcomes} {s : ProbeState} (hb : ∀ i, s.lro.bar i = false)
    (hc : s.lro.configBarIdx = none) : (mapBars o s).1 ≠ 0 ↔ o.barsFail = true := by
  obtain ⟨hscan,hlist,-⟩ := scanBars (scanning_start o hb hc) (List.nodup_finRange 6)
  have hfails := tryEach_fails (fun _ => True) (f := scanBar o) (List.finRange 6)
    (a := ⟨s,[],0⟩) trivial (fun _ _ _ => trivial) fun i m _ => scanBar_fails o i m
  unfold mapBars Outcomes.barsFail
  by_cases hrc : (tryEach (scanBar o) (List.finRange 6) ⟨s,[],0⟩).1 = 0
  · have hany : (List.finRange 6).any o.barUnmappable = false := by
      rw [List.any_eq_false]
      exact fun i hi hbad => hfails.mpr ⟨i,hi,hbad⟩ hrc
    have hfound := hscan.found
    rw [hlist hrc, List.nil_append] at hfound
    rw [hany, Bool.false_or, Outcomes.presentBars, ← Option.not_isSome, ← hfound]
    cases hconfig : (tryEach (scanBar o) (List.finRange 6)
      ⟨s,[],0⟩).2.state.lro.configBarIdx <;> simp [hrc, hconfig]
  · obtain ⟨i,hi,hbad⟩ := hfails.mp hrc
    have hany : (List.finRange 6).any o.barUnmappable = true :=
      List.any_eq_true.mpr ⟨i,hi,hbad⟩
    simp [hrc, hany]

theorem mapBars_lro {o : Outcomes} {s : ProbeState} (hb : ∀ i, s.lro.bar i = false)
    (hc : s.lro.configBarIdx = none) : ∃ bar config user bypass, (mapBars o s).2.lro =
      { s.lro with
        bar := bar
        configBarIdx := config
        userBarIdx := user
        bypassBarIdx := bypass } := by
  obtain ⟨bar,config,hl⟩ := (scanBars (scanning_start o hb hc) (List.nodup_finRange 6)).1.lro
  unfold mapBars
  dsimp only
  split_ifs
  · exact ⟨_,_,_,_,by rw [unmapBars_lro, hl]⟩
  · exact ⟨_,_,_,_,by rw [unmapBars_lro, hl]⟩
  · obtain ⟨user,bypass,hid⟩ := identifyBars_lro
      (tryEach (scanBar o) (List.finRange 6) ⟨s,[],0⟩).2.barIdList
      (tryEach (scanBar o) (List.finRange 6) ⟨s,[],0⟩).2.configBarPos
      (tryEach (scanBar o) (List.finRange 6) ⟨s,[],0⟩).2.state.lro
    exact ⟨_,_,_,_,by rw [ProbeState.lro_setLro, hid, hl]⟩

theorem mapBars_keeps (o : Outcomes) (s : ProbeState) :
    Keeps (fun r => r.level ≠ 4) s (mapBars o s).2 := by
  have hscan : Keeps (fun r => r.level ≠ 4) s
      (tryEach (scanBar o) (List.finRange 6) ⟨s,[],0⟩).2.state :=
    tryEach_invariant (fun m => Keeps _ s m.state) (Keeps.refl _ s)
      fun i _ m hm => hm.trans (scanBar_keeps o i m)
  unfold mapBars
  dsimp only
  split_ifs
  · exact hscan.trans (unmapBars_keeps _)
  · exact hscan.trans (unmapBars_keeps _)
  · exact hscan.setLro _

theorem mapBars_heldBelow {o : Outcomes} {s : ProbeState} (h : HeldBelow o 7 s)
    (hb : ∀ i, s.lro.bar i = false) (hc : s.lro.configBarIdx = none) :
    HeldBelow o 7 (mapBars o s).2 := by
  have hheld := (scanBars (scanning_start o hb hc) (List.nodup_finRange 6)).2.2 h
  unfold mapBars
  dsimp only
  split_ifs
  · exact unmapBars_heldBelow hheld (by decide)
  · exact unmapBars_heldBelow hheld (by decide)
  · refine hheld.setLro fun r _ => ?_
    obtain ⟨user,bypass,hid⟩ := identifyBars_lro
      (tryEach (scanBar o) (List.finRange 6) ⟨s,[],0⟩).2.barIdList
      (tryEach (scanBar o) (List.finRange 6) ⟨s,[],0⟩).2.configBarPos
      (tryEach (scanBar o) (List.finRange 6) ⟨s,[],0⟩).2.state.lro
    rw [hid]
    cases r <;> rfl

theorem mapBars_found {o : Outcomes} {s : ProbeState} (hb : ∀ i, s.lro.bar i = false)
    (hc : s.lro.configBarIdx = none) (hu : s.lro.userBarIdx = none)
    (hy : s.lro.bypassBarIdx = none) (h : (mapBars o s).1 = 0) :
    (mapBars o s).2.lro.userBarIdx.isSome = o.hasUserBar ∧
      (mapBars o s).2.lro.bypassBarIdx.isSome = o.hasBypassBar := by
  obtain ⟨hscan,hlist,-⟩ := scanBars (scanning_start o hb hc) (List.nodup_finRange 6)
  unfold mapBars at h ⊢
  dsimp only at h ⊢
  split_ifs at h ⊢ with hrc hconfig
  · exact absurd h hrc
  · simp at h
  · have hrc := not_not.mp hrc
    obtain ⟨bar,config,hl⟩ := hscan.lro
    obtain ⟨huser,hbypass⟩ := identifyBars_found
      (tryEach (scanBar o) (List.finRange 6) ⟨s,[],0⟩).2.barIdList
      (tryEach (scanBar o) (List.finRange 6) ⟨s,[],0⟩).2.configBarPos
      (tryEach (scanBar o) (List.finRange 6) ⟨s,[],0⟩).2.state.lro
      (by rw [hl]; exact hu) (by rw [hl]; exact hy)
    rw [ProbeState.lro_setLro, huser, hbypass, Outcomes.hasUserBar, Outcomes.hasBypassBar,
      Outcomes.presentBars, hlist hrc, List.nil_append]
    have hpos := hscan.pos
    have hfound := hscan.found
    rw [hlist hrc, List.nil_append] at hpos hfound
    obtain ⟨k,hk⟩ := Option.isSome_iff_exists.mp
      (hfound.symm.trans (Option.isSome_iff_ne_none.mpr hconfig))
    rw [hk, hpos k hk]
    simp

def Outcomes.irqsRefused (o : Outcomes) : Bool :=
  if o.msixCapable then (List.range maxUserIrq).any fun i => decide (o.requestUserIrq i ≠ 0)
  else decide (o.requestIrq ≠ 0)

theorem requestUserIrq_fails (o : Outcomes) (i : Nat) (s : ProbeState) :
    (requestUserIrq o i s).1 ≠ 0 ↔ o.requestUserIrq i ≠ 0 := by
  unfold requestUserIrq
  split_ifs with h <;> simp [h]

theorem tryEach_requestUserIrq (o : Outcomes) (is : List Nat) (s : ProbeState) :
    (tryEach (requestUserIrq o) is s).2 = { s with trace := s.trace ++
      ((is.takeWhile fun i => !decide (o.requestUserIrq i ≠ 0)).map .userIrq).map .acquire } := by
  induction is generalizing s with
  | nil => simp
  | cons i is ih =>
    by_cases h : o.requestUserIrq i = 0
    · have hr : requestUserIrq o i s = (0,s.acquire (.userIrq i)) := by simp [requestUserIrq, h]
      rw [tryEach_cons_of_passes is (by rw [hr]), ih, hr]
      simp [h, ProbeState.acquire]
    · have hr : requestUserIrq o i s = (o.requestUserIrq i,s) := by simp [requestUserIrq, h]
      rw [tryEach_cons_of_fails is (by rw [hr]; exact h), hr]
      simp [h]

theorem takeWhile_granted (o : Outcomes) :
    ((List.range maxUserIrq).takeWhile fun i => !decide (o.requestUserIrq i ≠ 0)) =
      List.range (firstRefused o) := by
  have hle : firstRefused o ≤ maxUserIrq := by
    have h : firstRefused o ≤ (List.range maxUserIrq).length := List.findIdx_le_length
    rwa [List.length_range] at h
  rw [List.takeWhile_eq_take_findIdx_not, List.take_range]
  simp only [Bool.not_not]
  congr 1
  exact Nat.min_eq_left hle

theorem nodup_userIrqs (n : Nat) : ((List.range n).map Resource.userIrq).Nodup :=
  List.nodup_range.map fun _ _ h => Resource.userIrq.inj h

theorem msixIrqSetup_fails (o : Outcomes) (s : ProbeState) : (msixIrqSetup o s).1 ≠ 0 ↔
    ((List.range maxUserIrq).any fun i => decide (o.requestUserIrq i ≠ 0)) = true := by
  have hfails := tryEach_fails (fun _ => True) (f := requestUserIrq o) (List.range maxUserIrq)
    (a := s) trivial (fun _ _ _ => trivial) fun i s _ => requestUserIrq_fails o i s
  rw [List.any_eq_true]
  simp only [decide_eq_true_eq]
  rw [← hfails]
  unfold msixIrqSetup
  dsimp only
  split_ifs with h <;> simp [h]

/-- What was granted is given back when the rest is refused. -/
theorem msixIrqSetup_refused {o : Outcomes} {s : ProbeState} (h : (msixIrqSetup o s).1 ≠ 0) :
    (msixIrqSetup o s).2.lro = s.lro ∧ ∀ r, (msixIrqSetup o s).2.holds r = s.holds r := by
  unfold msixIrqSetup at h ⊢
  dsimp only at h ⊢
  split_ifs at h ⊢ with hrc
  · rw [ProbeState.foldl_release, tryEach_requestUserIrq, takeWhile_granted]
    refine ⟨rfl,fun r => ?_⟩
    have hrev : ((List.range (firstRefused o)).reverse.map Resource.userIrq).Nodup := by
      rw [List.map_reverse]
      exact List.nodup_reverse.mpr (nodup_userIrqs _)
    rw [ProbeState.holds, balance_released r _ hrev, balance_acquired r _ (nodup_userIrqs _)]
    simp only [List.map_reverse, List.mem_reverse]
    split_ifs
    · exact returned_map_succ _
    · rfl
  · simp at h

theorem msixIrqSetup_granted {o : Outcomes} {s : ProbeState} (h : (msixIrqSetup o s).1 = 0) :
    (msixIrqSetup o s).2.lro = { s.lro with irqUserCount := maxUserIrq } ∧
      ∀ r, (msixIrqSetup o s).2.holds r =
        if r ∈ (List.range maxUserIrq).map Resource.userIrq then (s.holds r).map (· + 1)
        else s.holds r := by
  have hall : ∀ i ∈ List.range maxUserIrq, o.requestUserIrq i = 0 := by
    intro i hi
    by_contra hn
    exact (msixIrqSetup_fails o s).mpr (List.any_eq_true.mpr ⟨i,hi,by simpa using hn⟩) h
  have htake : ((List.range maxUserIrq).takeWhile fun i => !decide (o.requestUserIrq i ≠ 0)) =
      List.range maxUserIrq :=
    List.takeWhile_eq_self_iff.mpr fun i hi => by simp [hall i hi]
  unfold msixIrqSetup at h ⊢
  dsimp only at h ⊢
  split_ifs at h ⊢ with hrc
  · simp at h
  · rw [tryEach_requestUserIrq, htake]
    exact ⟨rfl,fun r => balance_acquired r _ (nodup_userIrqs _)⟩

theorem irqSetup_fails {o : Outcomes} {s : ProbeState} (hx : s.lro.msixEnabled = o.msixCapable) :
    (irqSetup o s).1 ≠ 0 ↔ o.irqsRefused = true := by
  unfold irqSetup Outcomes.irqsRefused
  rw [hx]
  split_ifs with h hr
  · exact msixIrqSetup_fails o s
  · simp [hr]
  · simp [hr]

theorem irqSetup_lro (o : Outcomes) (s : ProbeState) : ∃ line count,
    (irqSetup o s).2.lro = { s.lro with irqLine := line, irqUserCount := count } := by
  unfold irqSetup
  dsimp only
  split_ifs
  · by_cases h : (msixIrqSetup o s).1 = 0
    · exact ⟨_,_,(msixIrqSetup_granted h).1⟩
    · exact ⟨_,_,(msixIrqSetup_refused h).1⟩
  · exact ⟨_,_,rfl⟩
  · exact ⟨_,_,rfl⟩

theorem irqSetup_keeps (o : Outcomes) (s : ProbeState) :
    Keeps (fun r => r.level ≠ 5) s (irqSetup o s).2 := by
  unfold irqSetup
  dsimp only
  split_ifs
  · intro r hr
    by_cases h : (msixIrqSetup o s).1 = 0
    · have hnot : r ∉ (List.range maxUserIrq).map Resource.userIrq := by
        intro hmem
        obtain ⟨i,-,rfl⟩ := List.mem_map.mp hmem
        exact hr rfl
      rw [(msixIrqSetup_granted h).2, if_neg hnot]
    · exact (msixIrqSetup_refused h).2 r
  · exact Keeps.refl _ s
  · exact ((Keeps.refl _ s).setLro _).acquire (by simp [Resource.level])

theorem irqTeardown_lro (s : ProbeState) : (irqTeardown s).lro = s.lro := by
  unfold irqTeardown
  split_ifs
  · rw [ProbeState.foldl_release]
  · rfl
  · rfl

/-- `irq_line` tells the truth: it is set in any case, and -1 means no interrupt. -/
def Outcomes.irqLineTrue (o : Outcomes) : Bool :=
  o.msixCapable || (o.irqsRefused == decide (o.pdevIrq.toInt = -1))

theorem irqSetup_heldBelow {o : Outcomes} {s : ProbeState} (h : HeldBelow o 7 s)
    (hx : s.lro.msixEnabled = o.msixCapable) (hcount : s.lro.irqUserCount = 0)
    (hl : s.lro.irqLine = -1) (hline : o.irqLineTrue = true) : HeldBelow o 7 (irqSetup o s).2 := by
  unfold irqSetup
  dsimp only
  cases hm : o.msixCapable with
  | true =>
    rw [hx, hm, if_pos rfl]
    by_cases hrc : (msixIrqSetup o s).1 = 0
    · obtain ⟨hlro,hholds⟩ := msixIrqSetup_granted hrc
      intro r
      rw [hholds, hlro, h r]
      cases r with
      | userIrq i =>
        by_cases hi : i < maxUserIrq <;> simp [owed, Resource.level, hx, hm, hcount, hi]
      | _ => simp [owed, Resource.level, hx, hm]
    · obtain ⟨hlro,hholds⟩ := msixIrqSetup_refused hrc
      intro r
      rw [hholds, hlro, h r]
  | false =>
    have hx' : ¬s.lro.msixEnabled = true := by simp [hx, hm]
    rw [if_neg hx']
    simp only [Outcomes.irqLineTrue, Outcomes.irqsRefused, hm, Bool.false_or, beq_iff_eq] at hline
    split_ifs with hrefused
    · have hminus : o.pdevIrq.toInt = -1 := by simpa [hrefused, hm] using hline
      refine h.setLro fun r _ => ?_
      cases r <;> simp [owed, hminus, hl]
    · have hminus : o.pdevIrq.toInt ≠ -1 := by simpa [hrefused, hm] using hline
      refine h.acquire (r := .irq) (f := fun l => { l with irqLine := o.pdevIrq.toInt })
        (by simp [Resource.level]) (by simp [owed, hl]) (by simp [owed, hx, hm, hminus]) ?_
      intro r hr
      cases r <;> simp [owed] at hr ⊢

def barsMapped (o : Outcomes) (s : ProbeState) : ProbeState :=
  (mapBars o (requestRegions o s).2).2

def irqsSet (o : Outcomes) (s : ProbeState) : ProbeState := (irqSetup o (barsMapped o s)).2

theorem probeRegions_eq (o : Outcomes) (s : ProbeState) : probeRegions o s =
    if (requestRegions o s).1 ≠ 0 then (-1,relRegion (requestRegions o s).2)
    else if (mapBars o (requestRegions o s).2).1 ≠ 0 then (-1,unmapBarLabel (barsMapped o s))
    else if setDmaMask o ≠ 0 then (-1,unmapBarLabel (barsMapped o s))
    else if (irqSetup o (barsMapped o s)).1 ≠ 0 then (-1,disableIrq (irqsSet o s))
    else probeDevices o (irqsSet o s) := rfl

inductive RegionsEnd (o : Outcomes) (s : ProbeState) : Prop
  | regions : o.pciRequestRegions ≠ 0 →
      probeRegions o s = (-1,relRegion (requestRegions o s).2) → RegionsEnd o s
  | bars : o.pciRequestRegions = 0 → o.barsFail = true ∨ setDmaMask o ≠ 0 →
      probeRegions o s = (-1,unmapBarLabel (barsMapped o s)) → RegionsEnd o s
  | irqs : o.pciRequestRegions = 0 → o.barsFail = false → setDmaMask o = 0 →
      o.irqsRefused = true → probeRegions o s = (-1,disableIrq (irqsSet o s)) → RegionsEnd o s
  | devices : o.pciRequestRegions = 0 → o.barsFail = false → setDmaMask o = 0 →
      o.irqsRefused = false → probeRegions o s = probeDevices o (irqsSet o s) → RegionsEnd o s

section regions

variable {o : Outcomes} {s : ProbeState} {entry : Int → Nat} {msi : Bool}

theorem requestRegions_unmapped
    (hl : s.lro = { allocDevInstance with entry := entry, msiEnabled := msi, msixEnabled := o.msixCapable }) :
    (∀ i, (requestRegions o s).2.lro.bar i = false) ∧
      (requestRegions o s).2.lro.configBarIdx = none ∧
      (requestRegions o s).2.lro.userBarIdx = none ∧
      (requestRegions o s).2.lro.bypassBarIdx = none := by
  obtain ⟨inUse,got,hl₁⟩ := requestRegions_lro o s
  rw [hl₁, hl]
  exact ⟨fun _ => rfl,rfl,rfl,rfl⟩

theorem barsMapped_lro
    (hl : s.lro = { allocDevInstance with entry := entry, msiEnabled := msi, msixEnabled := o.msixCapable }) :
    ∃ inUse got bar config user bypass, (barsMapped o s).lro =
      { allocDevInstance with
        entry := entry
        msiEnabled := msi
        msixEnabled := o.msixCapable
        regionsInUse := inUse
        gotRegions := got
        bar := bar
        configBarIdx := config
        userBarIdx := user
        bypassBarIdx := bypass } := by
  obtain ⟨hbar,hconfig,_,_⟩ := requestRegions_unmapped hl
  obtain ⟨inUse,got,hl₁⟩ := requestRegions_lro o s
  obtain ⟨bar,config,user,bypass,hl₂⟩ := mapBars_lro (o := o) hbar hconfig
  rw [hl₁, hl] at hl₂
  exact ⟨_,_,_,_,_,_,hl₂⟩

theorem irqsSet_lro (o : Outcomes) (s : ProbeState) : ∃ line count, (irqsSet o s).lro =
    { (barsMapped o s).lro with irqLine := line, irqUserCount := count } :=
  irqSetup_lro o (barsMapped o s)

theorem barsMapped_msix
    (hl : s.lro = { allocDevInstance with entry := entry, msiEnabled := msi, msixEnabled := o.msixCapable }) :
    (barsMapped o s).lro.msixEnabled = o.msixCapable := by
  obtain ⟨_,_,_,_,_,_,hl₂⟩ := barsMapped_lro hl
  rw [hl₂]

theorem barsMapped_found
    (hl : s.lro = { allocDevInstance with entry := entry, msiEnabled := msi, msixEnabled := o.msixCapable })
    (h : o.barsFail = false) :
    (barsMapped o s).lro.userBarIdx.isSome = o.hasUserBar ∧
      (barsMapped o s).lro.bypassBarIdx.isSome = o.hasBypassBar := by
  obtain ⟨hbar,hconfig,huser,hbypass⟩ := requestRegions_unmapped hl
  refine mapBars_found hbar hconfig huser hbypass (not_not.mp fun hn => ?_)
  rw [(mapBars_fails hbar hconfig).mp hn] at h
  cases h

theorem probeRegions_ends
    (hl : s.lro = { allocDevInstance with entry := entry, msiEnabled := msi, msixEnabled := o.msixCapable }) :
    RegionsEnd o s := by
  obtain ⟨hbar,hconfig,_,_⟩ := requestRegions_unmapped hl
  have hmapped := mapBars_fails (o := o) hbar hconfig
  have hirqs := irqSetup_fails (barsMapped_msix hl)
  by_cases hregions : (requestRegions o s).1 ≠ 0
  · exact .regions ((requestRegions_fails o s).mp hregions) (by rw [probeRegions_eq, if_pos hregions])
  have hregions' := not_not.mp (mt (requestRegions_fails o s).mpr hregions)
  by_cases hbars : (mapBars o (requestRegions o s).2).1 ≠ 0
  · exact .bars hregions' (Or.inl (hmapped.mp hbars))
      (by rw [probeRegions_eq, if_neg hregions, if_pos hbars])
  have hbars' : o.barsFail = false := by
    rw [← Bool.not_eq_true]
    exact mt hmapped.mpr hbars
  by_cases hmask : setDmaMask o ≠ 0
  · exact .bars hregions' (Or.inr hmask)
      (by rw [probeRegions_eq, if_neg hregions, if_neg hbars, if_pos hmask])
  by_cases hrefused : (irqSetup o (barsMapped o s)).1 ≠ 0
  · exact .irqs hregions' hbars' (not_not.mp hmask) (hirqs.mp hrefused)
      (by rw [probeRegions_eq, if_neg hregions, if_neg hbars, if_neg hmask, if_pos hrefused])
  · refine .devices hregions' hbars' (not_not.mp hmask) ?_
      (by rw [probeRegions_eq, if_neg hregions, if_neg hbars, if_neg hmask, if_neg hrefused])
    rw [← Bool.not_eq_true]
    exact mt hirqs.mpr hrefused

end regions

end DmaCamera.Probe
