import DmaCamera.ProbeSuccess
import DmaCamera.Removal
set_option autoImplicit false

namespace DmaCamera.Probe
open Ledger Loops

def Outcomes.offers (o : Outcomes) : CharSlot → Bool
  | .user => o.hasUserBar
  | .ctrl | .events _ => true
  | .sgdma e => o.engineThere e
  | .bypass e => o.engineThere e && o.hasBypassBar
  | .bypassBase => o.hasBypassBar

def Outcomes.charClean (o : Outcomes) (c : CharSlot) : Bool :=
  !o.charAlloc c || decide (o.kobjectSetName c ≠ 0) || decide (o.registerChrdevRegion c < 0) ||
    (!decide (o.cdevAdd c < 0) && decide (o.deviceCreate c = .device))

/-- When a removal that meets `o'` gives everything back: the probe was told the truth
about vectors and interrupt, the module has a major number of its own to give and one
left, every character device is clean, and `poll_mode` was not switched off under an
engine. -/
structure Outcomes.Removable (o o' : Outcomes) (major : U32) : Prop where
  vectors : o.vectorsRefused = false
  line : o.irqLineTrue = true
  major : 2 ≤ major.toNat
  clean : ∀ c, o.offers c = true → o.charClean c = true
  polled : o.pollMode = true → o'.pollMode = false → ∀ e, o.engineThere e = false

def charOwed (l : XdmaDev) : Resource → Bool
  | .char c | .cdev c | .sysDevice c => (l.charDev c).isSome
  | .numbers n k => decide (k = 1) && charSlots.any fun c => decide (l.charDev c = some n)
  | .slot i => decide (l.major ≠ 0) && decide (i = l.instanceNo)
  | _ => false

def TopRight (s : ProbeState) : Prop :=
  ∀ r : Resource, r.level = 7 → s.holds r = some (charOwed s.lro r).toNat

structure Instanced (s : ProbeState) : Prop where
  major : s.lro.major ≠ 0
  left : s.major ≠ 0
  number : ∀ c n, s.lro.charDev c = some n → n = mkdev s.lro.major (genDevMinor c)
  pool : ∀ n, s.holds (.numbers n xdmaMinorCount) = some 0 ∨
    s.holds (.numbers n xdmaMinorCount) = none
  nodes : ∀ c, s.lro.charDev c = none → s.holds (.sysDevice c) = some 0

inductive CharMade (o : Outcomes) (c : CharSlot) (n : U32) (s : ProbeState) :
    Option U32 × ProbeState → Prop
  | memory : o.charAlloc c = false → CharMade o c n s (none,s)
  | named : o.charAlloc c = true → o.charClean c = true →
      CharMade o c n s (none,(s.acquire (.char c)).release (.char c))
  | added : o.charClean c = false → CharMade o c n s
      (none,(((s.acquire (.char c)).acquire (.numbers n 1)).release
        (.numbers n xdmaMinorCount)).release (.char c))
  | created : o.charClean c = false → CharMade o c n s
      (none,(((((s.acquire (.char c)).acquire (.numbers n 1)).acquire (.cdev c)).release
        (.cdev c)).release (.numbers n xdmaMinorCount)).release (.char c))
  | error : o.charClean c = false → CharMade o c n s
      (some n,((s.acquire (.char c)).acquire (.numbers n 1)).acquire (.cdev c))
  | device : o.charAlloc c = true → o.charClean c = true → CharMade o c n s
      (some n,(((s.acquire (.char c)).acquire (.numbers n 1)).acquire (.cdev c)).acquire
        (.sysDevice c))

theorem createSgChar_made {o : Outcomes} {c : CharSlot} {s : ProbeState} (hm : s.lro.major ≠ 0)
    (hleft : s.major ≠ 0) :
    CharMade o c (mkdev s.lro.major (genDevMinor c)) s (createSgChar o c s) := by
  have hagain := newInstance_again (o := o) (c := c) (s := s.acquire (.char c)) hm
  unfold createSgChar
  rw [hagain]
  cases halloc : o.charAlloc c with
  | false => exact .memory halloc
  | true =>
    simp only [Bool.not_true, Bool.false_eq_true, if_false, ProbeState.lro_acquire]
    unfold registerChar
    simp only [ProbeState.major_acquire, ne_eq, hleft, not_false_eq_true, true_and, if_true]
    by_cases hname : o.kobjectSetName c = 0
    · by_cases hregister : o.registerChrdevRegion c < 0
      · rw [if_neg (not_not.mpr hname), if_pos hregister]
        exact .named halloc (by simp [Outcomes.charClean, hregister])
      · rw [if_neg (not_not.mpr hname), if_neg hregister]
        by_cases hadd : o.cdevAdd c < 0
        · rw [if_pos hadd]
          exact .added (by simp [Outcomes.charClean, halloc, hname, hregister, hadd])
        · rw [if_neg hadd]
          cases hcreate : o.deviceCreate c with
          | null => exact .created (by simp [Outcomes.charClean, halloc, hname, hregister, hcreate])
          | error => exact .error (by simp [Outcomes.charClean, halloc, hname, hregister, hcreate])
          | device => exact .device halloc (by simp [Outcomes.charClean, hadd, hcreate])
    · rw [if_pos hname]
      exact .named halloc (by simp [Outcomes.charClean, hname])

theorem charOwed_numbers {l : XdmaDev} {n : U32} :
    charOwed l (.numbers n 1) = true ↔ ∃ c, l.charDev c = some n := by
  simp [charOwed, mem_charSlots]

theorem charOwed_update {l : XdmaDev} {c : CharSlot} (hc : l.charDev c = none) (n : U32)
    (r : Resource) : charOwed { l with charDev := Function.update l.charDev c (some n) } r = true ↔
      r ∈ c.resources n ∨ charOwed l r = true := by
  have hdev : ∀ d, (Function.update l.charDev c (some n) d).isSome = true ↔
      d = c ∨ (l.charDev d).isSome = true := by
    intro d
    by_cases hd : d = c
    · simp [hd]
    · simp [hd]
  cases r with
  | char d | cdev d | sysDevice d => simpa [charOwed, CharSlot.resources] using hdev d
  | slot i => simp [charOwed, CharSlot.resources]
  | numbers m k =>
    by_cases hk : k = 1
    · subst hk
      rw [charOwed_numbers, charOwed_numbers]
      simp only [CharSlot.resources, List.mem_cons, Resource.numbers.injEq, and_true,
        List.not_mem_nil, or_false, reduceCtorEq, false_or]
      constructor
      · rintro ⟨d,hd⟩
        by_cases hdc : d = c
        · rw [hdc, Function.update_self] at hd
          exact .inl (Option.some.inj hd).symm
        · rw [Function.update_of_ne hdc] at hd
          exact .inr ⟨d,hd⟩
      · rintro (rfl | ⟨d,hd⟩)
        · exact ⟨c,Function.update_self ..⟩
        · have hdc : d ≠ c := by
            rintro rfl
            rw [hc] at hd
            cases hd
          exact ⟨d,by rw [Function.update_of_ne hdc, hd]⟩
    · simp [charOwed, CharSlot.resources, hk]
  | _ => simp [charOwed, CharSlot.resources]

theorem Instanced.unowed {s : ProbeState} (h : Instanced s) {c : CharSlot}
    (hc : s.lro.charDev c = none) {r : Resource}
    (hr : r ∈ c.resources (mkdev s.lro.major (genDevMinor c))) : charOwed s.lro r = false := by
  simp only [CharSlot.resources, List.mem_cons, List.not_mem_nil, or_false] at hr
  rcases hr with rfl | rfl | rfl | rfl
  · simp [charOwed, hc]
  · simp [charOwed, hc]
  · rw [← Bool.not_eq_true, charOwed_numbers]
    rintro ⟨d,hd⟩
    rw [← mkdev_injective (h.number d _ hd), hc] at hd
    cases hd
  · simp [charOwed, hc]

theorem Instanced.entered {s t : ProbeState} (h : Instanced s) {c : CharSlot} {cdev : Option U32}
    (hl : t.lro = { s.lro with charDev := Function.update s.lro.charDev c cdev })
    (hm : t.major = s.major) (hn : ∀ n, cdev = some n → n = mkdev s.lro.major (genDevMinor c))
    (hpool : ∀ n, t.holds (.numbers n xdmaMinorCount) = s.holds (.numbers n xdmaMinorCount) ∨
      t.holds (.numbers n xdmaMinorCount) = none)
    (hnodes : ∀ d, d ≠ c ∨ cdev = none → t.holds (.sysDevice d) = s.holds (.sysDevice d))
    (hc : s.lro.charDev c = none) : Instanced t where
  major := by
    rw [hl]
    exact h.major
  left := hm ▸ h.left
  number d n hd := by
    rw [hl] at hd ⊢
    by_cases hdc : d = c
    · subst hdc
      simp only [Function.update_self] at hd
      exact hn n hd
    · simp only [Function.update_of_ne hdc] at hd
      exact h.number d n hd
  pool n := by
    rcases hpool n with heq | hnone
    · rw [heq]
      exact h.pool n
    · exact .inr hnone
  nodes d hd := by
    rw [hl] at hd
    by_cases hdc : d = c
    · subst hdc
      simp only [Function.update_self] at hd
      rw [hnodes d (.inr hd), h.nodes d hc]
    · simp only [Function.update_of_ne hdc] at hd
      rw [hnodes d (.inl hdc), h.nodes d hd]

theorem TopRight.congr {s t : ProbeState} (hl : t.lro = s.lro) (hh : ∀ r, t.holds r = s.holds r) :
    TopRight t ↔ TopRight s := by
  unfold TopRight
  simp only [hl, hh]

/-- The pool of numbers was given back, which nobody had. -/
theorem not_topRight_pool {s : ProbeState} {n : U32}
    (h : s.holds (.numbers n xdmaMinorCount) = none) : ¬TopRight s := by
  intro hright
  rw [hright _ rfl] at h
  cases h

theorem CharSlot.holds_resources (c : CharSlot) (n : U32) (s : ProbeState) (r : Resource) :
    ((((s.acquire (.char c)).acquire (.numbers n 1)).acquire (.cdev c)).acquire
      (.sysDevice c)).holds r =
      if r ∈ c.resources n then (s.holds r).map (· + 1) else s.holds r := by
  have hperm : ((((s.acquire (.char c)).acquire (.numbers n 1)).acquire (.cdev c)).acquire
      (.sysDevice c)).trace =
      s.trace ++ [Resource.char c,.numbers n 1,.cdev c,.sysDevice c].map .acquire := by
    simp [ProbeState.acquire]
  rw [ProbeState.holds, hperm, balance_acquired r _ (by simp)]
  refine if_congr ?_ rfl rfl
  simp only [CharSlot.resources, List.mem_cons, List.not_mem_nil, or_false]
  tauto

theorem TopRight.entered {s t : ProbeState} (h : Instanced s) {c : CharSlot} {n : U32}
    (hc : s.lro.charDev c = none) (hn : n = mkdev s.lro.major (genDevMinor c))
    (hl : t.lro = { s.lro with charDev := Function.update s.lro.charDev c (some n) })
    (hholds : ∀ r, t.holds r =
      if r ∈ c.resources n then (s.holds r).map (· + 1) else s.holds r) :
    TopRight t ↔ TopRight s := by
  refine forall_congr' fun r => imp_congr_right fun _ => ?_
  have howed := charOwed_update hc n r
  rw [← hl] at howed
  rw [hholds r]
  by_cases hr : r ∈ c.resources n
  · have hyes : charOwed t.lro r = true := howed.mpr (.inl hr)
    have hno : charOwed s.lro r = false := h.unowed hc (hn ▸ hr)
    rw [if_pos hr, hyes, hno]
    cases s.holds r <;> simp
  · have hsame : charOwed t.lro r = charOwed s.lro r := by
      rw [Bool.eq_iff_iff, howed]
      simp [hr]
    rw [if_neg hr, hsame]

theorem createInterface_state (o : Outcomes) (c : CharSlot) (s : ProbeState) :
    (createInterface o c s).2 = (createSgChar o c s).2.setLro fun l =>
      { l with charDev := Function.update l.charDev c (createSgChar o c s).1 } := rfl

theorem createInterface_books {o : Outcomes} {c : CharSlot} {s : ProbeState} (h : Instanced s)
    (hc : s.lro.charDev c = none) : Instanced (createInterface o c s).2 ∧
      (∀ d, d ≠ c → (createInterface o c s).2.lro.charDev d = s.lro.charDev d) ∧
      (TopRight (createInterface o c s).2 ↔ TopRight s ∧ o.charClean c = true) := by
  obtain ⟨n,hn⟩ : ∃ n, n = mkdev s.lro.major (genDevMinor c) := ⟨_,rfl⟩
  have hmade := createSgChar_made (o := o) (c := c) h.major h.left
  rw [← hn] at hmade
  have hsame : { s.lro with charDev := Function.update s.lro.charDev c none } = s.lro := by
    rw [← hc, Function.update_eq_self]
  have hcount : xdmaMinorCount ≠ 1 := by decide
  have hpool : returned (s.holds (.numbers n xdmaMinorCount)) = none := by
    rcases h.pool n with h0 | hnone
    · rw [h0, returned_some_zero]
    · rw [hnone]
      rfl
  rw [createInterface_state]
  generalize createSgChar o c s = r at hmade
  cases hmade with
  | memory halloc =>
    refine ⟨h.entered rfl rfl (by simp) (fun _ => .inl rfl) (fun _ _ => rfl) hc,
      fun d hd => by simp [hd],?_⟩
    refine (@TopRight.congr s
      (s.setLro fun l => { l with charDev := Function.update l.charDev c none }) hsame
      fun _ => rfl).trans ?_
    simp [Outcomes.charClean, halloc]
  | named halloc hclean =>
    have hholds : ∀ r, ((s.acquire (.char c)).release (.char c)).holds r = s.holds r :=
      ProbeState.holds_undo fun _ => rfl
    refine ⟨h.entered rfl rfl (by simp) (fun _ => .inl (hholds _)) (fun _ _ => hholds _) hc,
      fun d hd => by simp [hd],?_⟩
    refine (@TopRight.congr s (((s.acquire (.char c)).release (.char c)).setLro fun l =>
      { l with charDev := Function.update l.charDev c none }) hsame hholds).trans ?_
    simp [hclean]
  | added hclean | created hclean =>
    refine ⟨h.entered rfl rfl (by simp) (fun m => ?_) (fun d _ => by simp) hc,
      fun d hd => by simp [hd],iff_of_false (@not_topRight_pool _ n ?_) (by simp [hclean])⟩
    · by_cases hm : n = m
      · subst hm
        simp [Ne.symm hcount, hpool]
      · simp [hm]
    · simp [Ne.symm hcount, hpool]
  | error hclean =>
    refine ⟨h.entered rfl rfl (fun m hm => ?_) (fun m => ?_) (fun d _ => by simp) hc,
      fun d hd => by simp [hd],iff_of_false (fun hright => ?_) (by simp [hclean])⟩
    · rw [← Option.some.inj hm, hn]
    · simp [Ne.symm hcount]
    · have hnode := hright (.sysDevice c) rfl
      simp [charOwed, h.nodes c hc] at hnode
  | device halloc hclean =>
    refine ⟨h.entered rfl rfl (fun m hm => ?_) (fun m => ?_) (fun d hd => ?_) hc,
      fun d hd => by simp [hd],?_⟩
    · rw [← Option.some.inj hm, hn]
    · simp [Ne.symm hcount]
    · have hne : c ≠ d := by
        rintro rfl
        simp at hd
      simp [hne]
    · refine (TopRight.entered h hc hn rfl fun r => ?_).trans (by simp [hclean])
      rw [ProbeState.holds_setLro, c.holds_resources]

theorem nodup_interfaces (l : XdmaDev) : (interfaces l).Nodup := by
  obtain ⟨full,huser,hbypass,hengine,hfull⟩ : ∃ full : XdmaDev, full.userBarIdx.isSome = true ∧
      full.bypassBarIdx.isSome = true ∧ (∀ e, (full.engine e).isSome = true) ∧
      (interfaces full).Nodup :=
    ⟨{ allocDevInstance with
        userBarIdx := some 0
        bypassBarIdx := some 0
        engine := fun _ => some ⟨0,false⟩ },rfl,rfl,fun _ => rfl,by decide +kernel⟩
  refine List.Sublist.nodup ?_ hfull
  unfold interfaces
  simp only [huser, hbypass, hengine, List.filter_true, if_true]
  have hchannels := fun fromDev => List.filter_sublist
    (p := fun e => (l.engine e).isSome) (l := (List.finRange 4).map fun c => EngineSlot.mk c fromDev)
  refine List.Sublist.append (List.Sublist.append (List.Sublist.append
    (List.Sublist.append (List.Sublist.append ?_ ?_) ?_) ?_) ?_) ?_
  · split_ifs <;> simp
  · exact List.Sublist.refl _
  · exact List.Sublist.refl _
  · exact (hchannels false).map _
  · exact (hchannels true).map _
  · split_ifs
    · exact (((hchannels false).map _).append ((hchannels true).map _)).append
        (List.Sublist.refl _)
    · exact List.nil_sublist _

theorem mem_interfaces {o : Outcomes} {l : XdmaDev}
    (hu : l.userBarIdx.isSome = o.hasUserBar) (hb : l.bypassBarIdx.isSome = o.hasBypassBar)
    (he : ∀ e, (l.engine e).isSome = o.engineThere e) {c : CharSlot} :
    c ∈ interfaces l ↔ o.offers c = true := by
  unfold interfaces
  rw [hu, hb]
  cases c with
  | user => cases hbypass : o.hasBypassBar <;> cases huser : o.hasUserBar <;>
      simp [Outcomes.offers, huser]
  | ctrl => simp [Outcomes.offers]
  | events i => simp [Outcomes.offers]
  | sgdma e =>
    obtain ⟨channel,fromDev⟩ := e
    cases hbypass : o.hasBypassBar <;> cases huser : o.hasUserBar <;> cases fromDev <;>
      simp [Outcomes.offers, he]
  | bypass e =>
    obtain ⟨channel,fromDev⟩ := e
    cases hbypass : o.hasBypassBar <;> cases huser : o.hasUserBar <;> cases fromDev <;>
      simp [Outcomes.offers, he, hbypass]
  | bypassBase => cases hbypass : o.hasBypassBar <;> cases huser : o.hasUserBar <;>
      simp [Outcomes.offers, hbypass]

theorem createLoop_books {o : Outcomes} {cs : List CharSlot} {s : ProbeState} (h : Instanced s)
    (hcs : cs.Nodup) (hnone : ∀ c ∈ cs, s.lro.charDev c = none)
    (hrc : (tryEach (createInterface o) cs s).1 = 0) :
    Instanced (tryEach (createInterface o) cs s).2 ∧
      (TopRight (tryEach (createInterface o) cs s).2 ↔
        TopRight s ∧ ∀ c ∈ cs, o.charClean c = true) := by
  induction cs generalizing s with
  | nil => exact ⟨h,by simp⟩
  | cons c cs ih =>
    obtain ⟨hc,hcs⟩ := List.nodup_cons.mp hcs
    obtain ⟨hbooks,hothers,hright⟩ := createInterface_books (o := o) h (hnone c (by simp))
    by_cases hfirst : (createInterface o c s).1 = 0
    · rw [tryEach_cons_of_passes cs hfirst] at hrc ⊢
      have hrest : ∀ d ∈ cs, (createInterface o c s).2.lro.charDev d = none := by
        intro d hd
        rw [hothers d fun hdc => hc (hdc ▸ hd)]
        exact hnone d (by simp [hd])
      obtain ⟨hinst,hiff⟩ := ih hbooks hcs hrest hrc
      refine ⟨hinst,hiff.trans ?_⟩
      rw [hright]
      simp [and_assoc]
    · rw [tryEach_cons_of_fails cs hfirst] at hrc
      exact absurd hrc hfirst

structure Alike (s t : ProbeState) : Prop where
  lro : t.lro = s.lro
  major : t.major = s.major
  holds : ∀ r, t.holds r = s.holds r

theorem Alike.acquire {s t : ProbeState} (h : Alike s t) (r : Resource) :
    Alike (s.acquire r) (t.acquire r) :=
  ⟨h.lro,h.major,fun r' => by simp [h.holds]⟩

theorem Alike.release {s t : ProbeState} (h : Alike s t) (r : Resource) :
    Alike (s.release r) (t.release r) :=
  ⟨h.lro,h.major,fun r' => by simp [h.holds]⟩

theorem Alike.setLro {s t : ProbeState} (h : Alike s t) (f : XdmaDev → XdmaDev) :
    Alike (s.setLro f) (t.setLro f) :=
  ⟨congrArg f h.lro,h.major,h.holds⟩

theorem registerChar_alike {s t : ProbeState} (h : Alike s t) (o : Outcomes) (c : CharSlot)
    (n : U32) : (registerChar o c n t).1 = (registerChar o c n s).1 ∧
      Alike (registerChar o c n s).2 (registerChar o c n t).2 := by
  unfold registerChar
  dsimp only
  rw [h.major]
  by_cases hname : o.kobjectSetName c ≠ 0
  · rw [if_pos hname, if_pos hname]
    exact ⟨rfl,h.release _⟩
  rw [if_neg hname, if_neg hname]
  by_cases hregister : s.major ≠ 0 ∧ o.registerChrdevRegion c < 0
  · rw [if_pos hregister, if_pos hregister]
    exact ⟨rfl,h.release _⟩
  rw [if_neg hregister, if_neg hregister]
  have hnumbers : Alike (if s.major ≠ 0 then s.acquire (.numbers n 1) else s)
      (if s.major ≠ 0 then t.acquire (.numbers n 1) else t) := by
    by_cases hm : s.major ≠ 0
    · rw [if_pos hm, if_pos hm]
      exact h.acquire _
    · rw [if_neg hm, if_neg hm]
      exact h
  by_cases hadd : o.cdevAdd c < 0
  · rw [if_pos hadd, if_pos hadd]
    exact ⟨rfl,(hnumbers.release _).release _⟩
  rw [if_neg hadd, if_neg hadd]
  cases o.deviceCreate c with
  | null => exact ⟨rfl,(((hnumbers.acquire _).release _).release _).release _⟩
  | error => exact ⟨rfl,hnumbers.acquire _⟩
  | device => exact ⟨rfl,(hnumbers.acquire _).acquire _⟩

theorem Instanced.congr {s t : ProbeState} (h : Alike s t) (hs : Instanced s) : Instanced t where
  major := h.lro ▸ hs.major
  left := h.major ▸ hs.left
  number := h.lro ▸ hs.number
  pool n := h.holds _ ▸ hs.pool n
  nodes c hc := (h.holds _).trans (hs.nodes c (h.lro ▸ hc))

theorem newInstance_own {o : Outcomes} {c : CharSlot} {s : ProbeState} (h : s.lro.major = 0)
    (hfree : slotSearch s.present ≠ maxXdmaDevices) (hm : s.major ≠ 0) :
    newInstance o c s = (true,
      { lro := { s.lro with instanceNo := slotSearch s.present, major := s.major }
        present := Function.update s.present (slotSearch s.present) true
        major := s.major-1
        trace := s.trace ++ [.acquire (.slot (slotSearch s.present))]
        slotReads := s.slotReads ++ List.range (slotSearch s.present+1) }) := by
  unfold newInstance
  rw [if_neg (not_not.mpr h)]
  dsimp only
  rw [if_neg hfree]
  unfold genDevMajor
  rw [if_neg (by simpa [ProbeState.mark] using hm)]
  rfl

def instanceBegun (s : ProbeState) : ProbeState where
  lro := { s.lro with instanceNo := slotSearch s.present, major := s.major }
  present := Function.update s.present (slotSearch s.present) true
  major := s.major-1
  trace := s.trace ++ [.acquire (.slot (slotSearch s.present))]
  slotReads := s.slotReads ++ List.range (slotSearch s.present+1)

theorem createInterface_begun {o : Outcomes} {c : CharSlot} {s : ProbeState}
    (halloc : o.charAlloc c = true) (h : s.lro.major = 0)
    (hfree : slotSearch s.present ≠ maxXdmaDevices) (hm : s.major ≠ 0) :
    (createInterface o c s).1 = (createInterface o c (instanceBegun s)).1 ∧
      Alike (createInterface o c (instanceBegun s)).2 (createInterface o c s).2 := by
  have hown := newInstance_own (o := o) (c := c) (s := s.acquire (.char c)) h hfree hm
  have hagain := newInstance_again (o := o) (c := c)
    (s := (instanceBegun s).acquire (.char c)) (by exact hm)
  have hstart : Alike ((instanceBegun s).acquire (.char c))
      (newInstance o c (s.acquire (.char c))).2 := by
    rw [hown]
    refine ⟨rfl,rfl,fun r => ?_⟩
    simp only [ProbeState.holds, ProbeState.acquire, instanceBegun, balance_snoc, post]
    split_ifs with h₁ h₂
    · exact absurd (h₁.trans h₂.symm) (by simp)
    all_goals rfl
  have hregister := registerChar_alike hstart o c (mkdev s.major (genDevMinor c))
  have hfirst : createSgChar o c s = registerChar o c (mkdev s.major (genDevMinor c))
      (newInstance o c (s.acquire (.char c))).2 := by
    unfold createSgChar
    rw [halloc, hown]
    rfl
  have hbegun : createSgChar o c (instanceBegun s) =
      registerChar o c (mkdev s.major (genDevMinor c)) ((instanceBegun s).acquire (.char c)) := by
    unfold createSgChar
    rw [halloc, hagain]
    rfl
  rw [← hfirst, ← hbegun] at hregister
  obtain ⟨hcdev,halike⟩ := hregister
  unfold createInterface
  dsimp only
  rw [hcdev]
  exact ⟨rfl,halike.setLro _⟩

theorem instanceBegun_books {s : ProbeState} (hm : 2 ≤ s.major.toNat)
    (hnone : ∀ c, s.lro.charDev c = none)
    (hzero : ∀ r : Resource, r.level = 7 → s.holds r = some 0) :
    Instanced (instanceBegun s) ∧ TopRight (instanceBegun s) := by
  have hmajor : s.major ≠ 0 := by
    rintro h0
    rw [h0] at hm
    simp at hm
  have hholds : ∀ r, (instanceBegun s).holds r = if .slot (slotSearch s.present) = r
      then (s.holds r).map (· + 1) else s.holds r := fun r => balance_snoc r s.trace _
  refine ⟨⟨hmajor,?_,fun c n hc => ?_,fun n => .inl ?_,fun c _ => ?_⟩,fun r hr => ?_⟩
  · change s.major-1 ≠ 0
    bv_omega
  · rw [show (instanceBegun s).lro.charDev c = s.lro.charDev c from rfl, hnone] at hc
    cases hc
  · rw [hholds, if_neg (by simp)]
    exact hzero _ rfl
  · rw [hholds, if_neg (by simp)]
    exact hzero _ rfl
  · rw [hholds, hzero r hr]
    cases r with
    | slot i =>
      by_cases hi : slotSearch s.present = i
      · simp [charOwed, instanceBegun, hi, show ¬s.major = 0#32 from hmajor]
      · simp [charOwed, instanceBegun, hi, Ne.symm hi]
    | numbers n k =>
      have hany : (charSlots.any fun c => decide (s.lro.charDev c = some n)) = false := by
        simp [hnone]
      rw [charOwed, instanceBegun, hany, Bool.and_false]
      rfl
    | _ => simp [charOwed, instanceBegun, hnone]

theorem createInterfaces_passes {o : Outcomes} {s : ProbeState} (h : (createInterfaces o s).1 = 0) :
    (tryEach (createInterface o) (interfaces s.lro) s).1 = 0 ∧
      (createInterfaces o s).2 = (tryEach (createInterface o) (interfaces s.lro) s).2 := by
  unfold createInterfaces at h ⊢
  dsimp only at h ⊢
  by_cases hrc : (tryEach (createInterface o) (interfaces s.lro) s).1 = 0
  · rw [if_neg (not_not.mpr hrc)]
    exact ⟨hrc,rfl⟩
  · rw [if_pos hrc] at h
    exact absurd h (by simp)

theorem TopRight.alike {s t : ProbeState} (h : Alike s t) : TopRight t ↔ TopRight s :=
  TopRight.congr h.lro h.holds

theorem createInterfaces_books {o : Outcomes} {s : ProbeState} (hm : 2 ≤ s.major.toNat)
    (hmajor : s.lro.major = 0) (hnone : ∀ c, s.lro.charDev c = none)
    (hzero : ∀ r : Resource, r.level = 7 → s.holds r = some 0)
    (hrc : (createInterfaces o s).1 = 0) : (createInterfaces o s).2.lro.major ≠ 0 ∧
      (TopRight (createInterfaces o s).2 ↔ ∀ c ∈ interfaces s.lro, o.charClean c = true) := by
  obtain ⟨hloop,hstate⟩ := createInterfaces_passes hrc
  have hbegins : createsNothing o (firstChar s.lro) s = false := by
    rw [← Bool.not_eq_true]
    exact fun hn => (createInterfaces_nothing hnone hn).1 hrc
  simp only [createsNothing, hmajor, Bool.or_eq_false_iff, decide_true, Bool.true_and,
    decide_eq_false_iff_not, Bool.not_eq_false'] at hbegins
  obtain ⟨halloc,hfree⟩ := hbegins
  have hzero' : s.major ≠ 0 := by
    rintro h0
    rw [h0] at hm
    simp at hm
  obtain ⟨hinst,hright⟩ := instanceBegun_books hm hnone hzero
  obtain ⟨hfirst,halike⟩ := createInterface_begun halloc hmajor hfree hzero'
  obtain ⟨hinst₁,hothers,hright₁⟩ := createInterface_books (o := o) hinst (hnone (firstChar s.lro))
  obtain ⟨cs,hcs⟩ := interfaces_cons s.lro
  have hnodup := nodup_interfaces s.lro
  rw [hcs] at hloop hstate hnodup ⊢
  obtain ⟨hmem,hnodup⟩ := List.nodup_cons.mp hnodup
  by_cases hpass : (createInterface o (firstChar s.lro) s).1 = 0
  · rw [tryEach_cons_of_passes cs hpass] at hloop hstate
    have hrest : ∀ c ∈ cs, (createInterface o (firstChar s.lro) s).2.lro.charDev c = none := by
      intro c hc
      rw [halike.lro, hothers c fun heq => hmem (heq ▸ hc)]
      exact hnone c
    obtain ⟨hinst₂,hright₂⟩ := createLoop_books (hinst₁.congr halike) hnodup hrest hloop
    rw [hstate]
    refine ⟨hinst₂.major,hright₂.trans ?_⟩
    rw [TopRight.alike halike, hright₁]
    simp [hright]
  · rw [tryEach_cons_of_fails cs hpass] at hloop
    exact absurd hloop hpass

theorem registerChar_number {o : Outcomes} {c : CharSlot} {n m : U32} {s : ProbeState}
    (h : (registerChar o c n s).1 = some m) : m = n := by
  unfold registerChar at h
  dsimp only at h
  cases hd : o.deviceCreate c with
  | null =>
    simp only [hd] at h
    split_ifs at h
  | error | device =>
    simp only [hd] at h
    split_ifs at h <;> exact (Option.some.inj h).symm

theorem newInstance_charDev (o : Outcomes) (c : CharSlot) (s : ProbeState) :
    (newInstance o c s).2.lro.charDev = s.lro.charDev := by
  unfold newInstance
  dsimp only
  split_ifs
  · rfl
  · rfl
  · rw [ProbeState.lro_setLro, (genDevMajor_frame o c _).1]
    rfl

theorem createSgChar_number (o : Outcomes) (c : CharSlot) (s : ProbeState) :
    (createSgChar o c s).2.lro.charDev = s.lro.charDev ∧
      ∀ n, (createSgChar o c s).1 = some n → ∃ major, n = mkdev major (genDevMinor c) := by
  have hinstance := newInstance_charDev o c (s.acquire (.char c))
  unfold createSgChar
  split_ifs
  · exact ⟨rfl,fun n hn => by cases hn⟩
  · dsimp only
    split_ifs
    · exact ⟨hinstance,fun n hn => by cases hn⟩
    · refine ⟨?_,fun n hn => ⟨_,registerChar_number hn⟩⟩
      rw [(registerChar_frame o c _ _).1, hinstance]
      rfl

theorem createInterface_charDev (o : Outcomes) (c : CharSlot) (s : ProbeState) :
    (createInterface o c s).2.lro.charDev =
      Function.update s.lro.charDev c (createSgChar o c s).1 := by
  rw [createInterface_state, ProbeState.lro_setLro, (createSgChar_number o c s).1]

theorem createLoop_numbered (o : Outcomes) (cs : List CharSlot) {s : ProbeState}
    (h : Numbered s.lro) : Numbered (tryEach (createInterface o) cs s).2.lro := by
  refine tryEach_invariant (fun s : ProbeState => Numbered s.lro) h fun c _ s h d n hd => ?_
  rw [createInterface_charDev] at hd
  by_cases hdc : d = c
  · subst hdc
    rw [Function.update_self] at hd
    exact (createSgChar_number o d s).2 n hd
  · rw [Function.update_of_ne hdc] at hd
    exact h d n hd

def Exhausted (s : ProbeState) : Prop := s.major = 0 ∨ (s.major = 1 ∧ s.lro.major = 0)

theorem genDevMajor_numbers (o : Outcomes) (c : CharSlot) (n : U32) (s : ProbeState) :
    (genDevMajor o c s).2.holds (.numbers n 1) = s.holds (.numbers n 1) := by
  have hcount : xdmaMinorCount ≠ 1 := by decide
  unfold genDevMajor
  split_ifs
  · cases o.allocChrdevRegion c with
    | none => rfl
    | some m => simp [hcount]
  · rfl

theorem newInstance_exhausted {o : Outcomes} {c : CharSlot} {s : ProbeState} (h : Exhausted s) :
    Exhausted (newInstance o c s).2 ∧
      ((newInstance o c s).1 = true → (newInstance o c s).2.major = 0) ∧
      ∀ n, (newInstance o c s).2.holds (.numbers n 1) = s.holds (.numbers n 1) := by
  unfold newInstance
  by_cases hm : s.lro.major = 0
  · rw [if_neg (not_not.mpr hm)]
    dsimp only
    by_cases hfull : slotSearch s.present = maxXdmaDevices
    · rw [if_pos hfull]
      exact ⟨h,by simp,fun _ => rfl⟩
    · rw [if_neg hfull]
      have hleft : ∀ t : ProbeState, t.major = s.major → (genDevMajor o c t).2.major = 0 := by
        intro t ht
        rw [genDevMajor_left, ht, majorLeft]
        rcases h with h0 | ⟨h1,-⟩
        · rw [if_pos h0]
        · rw [h1]
          rfl
      have hmajor := hleft ((({ s with
        slotReads := s.slotReads ++ List.range (slotSearch s.present+1) } : ProbeState).mark
        (slotSearch s.present) true).acquire (.slot (slotSearch s.present)) |>.setLro
        fun l => { l with instanceNo := slotSearch s.present }) rfl
      refine ⟨.inl hmajor,fun _ => hmajor,fun n => ?_⟩
      rw [ProbeState.holds_setLro, genDevMajor_numbers, ProbeState.holds_setLro,
        ProbeState.holds_acquire, if_neg (by simp)]
      rfl
  · rw [if_pos hm]
    have h0 : s.major = 0 := h.resolve_right fun h => hm h.2
    exact ⟨h,fun _ => h0,fun _ => rfl⟩

theorem registerChar_exhausted {o : Outcomes} {c : CharSlot} {m : U32} {s : ProbeState}
    (h : s.major = 0) (n : U32) :
    (registerChar o c m s).2.holds (.numbers n 1) = s.holds (.numbers n 1) := by
  have hcount : xdmaMinorCount ≠ 1 := by decide
  unfold registerChar
  simp only [h, ne_eq, not_true_eq_false, false_and, if_false]
  cases o.deviceCreate c <;> split_ifs <;> simp [hcount]

theorem createInterface_exhausted {o : Outcomes} {c : CharSlot} {s : ProbeState}
    (h : Exhausted s) : Exhausted (createInterface o c s).2 ∧
      ∀ n, (createInterface o c s).2.holds (.numbers n 1) = s.holds (.numbers n 1) := by
  obtain ⟨hleft,hfound,hholds⟩ := newInstance_exhausted (o := o) (c := c)
    (s := s.acquire (.char c)) h
  have hcreate : Exhausted (createSgChar o c s).2 ∧
      ∀ n, (createSgChar o c s).2.holds (.numbers n 1) = s.holds (.numbers n 1) := by
    unfold createSgChar
    dsimp only
    by_cases halloc : (!o.charAlloc c) = true
    · rw [if_pos halloc]
      exact ⟨h,fun _ => rfl⟩
    rw [if_neg halloc]
    cases hf : (newInstance o c (s.acquire (.char c))).1 with
    | false => exact ⟨hleft,fun n => by simpa using hholds n⟩
    | true =>
      have h0 := hfound hf
      refine ⟨.inl ((registerChar_frame o c _ _).2.2.2.trans h0),fun n => ?_⟩
      exact (registerChar_exhausted h0 n).trans (by simpa using hholds n)
  exact hcreate

/-- The device that `create_interfaces` began with has a number which nobody holds. -/
theorem createInterfaces_exhausted {o : Outcomes} {s : ProbeState} (h : Exhausted s)
    (hzero : ∀ n, s.holds (.numbers n 1) = some 0) (hrc : (createInterfaces o s).1 = 0) :
    ∃ c n, (createInterfaces o s).2.lro.charDev c = some n ∧
      (createInterfaces o s).2.holds (.numbers n 1) = some 0 := by
  obtain ⟨hloop,hstate⟩ := createInterfaces_passes hrc
  have hholds : ∀ n, (createInterfaces o s).2.holds (.numbers n 1) = some 0 := by
    have hinv : Exhausted (tryEach (createInterface o) (interfaces s.lro) s).2 ∧
        ∀ n, (tryEach (createInterface o) (interfaces s.lro) s).2.holds (.numbers n 1) = some 0 :=
      tryEach_invariant (fun s => Exhausted s ∧ ∀ n, s.holds (.numbers n 1) = some 0) ⟨h,hzero⟩
        fun c _ s hs => ⟨(createInterface_exhausted hs.1).1,fun n => by
          rw [(createInterface_exhausted hs.1).2 n]
          exact hs.2 n⟩
    rw [hstate]
    exact hinv.2
  obtain ⟨cs,hcs⟩ := interfaces_cons s.lro
  have hnodup := nodup_interfaces s.lro
  rw [hcs] at hloop hstate hnodup
  obtain ⟨hmem,-⟩ := List.nodup_cons.mp hnodup
  by_cases hpass : (createInterface o (firstChar s.lro) s).1 = 0
  · rw [tryEach_cons_of_passes cs hpass] at hstate
    obtain ⟨n,hn⟩ : ∃ n, (createSgChar o (firstChar s.lro) s).1 = some n := by
      unfold createInterface at hpass
      simpa [firstChar_required, ← Option.isSome_iff_exists, Option.isSome_iff_ne_none] using hpass
    have hkept : (tryEach (createInterface o) cs
        (createInterface o (firstChar s.lro) s).2).2.lro.charDev (firstChar s.lro) = some n :=
      tryEach_invariant (fun s' : ProbeState => s'.lro.charDev (firstChar s.lro) = some n)
        (by rw [createInterface_charDev, Function.update_self, hn])
        fun c hc s' hs' => by
          have hne : firstChar s.lro ≠ c := fun heq => hmem (heq ▸ hc)
          rw [createInterface_charDev, Function.update_of_ne hne]
          exact hs'
    refine ⟨firstChar s.lro,n,?_,hholds n⟩
    rw [hstate]
    exact hkept
  · rw [tryEach_cons_of_fails cs hpass] at hloop
    exact absurd hloop hpass

theorem remove_regions (o : Outcomes) {s : ProbeState} (h : s.lro.regionsInUse = false) :
    (remove o s).lro.regionsInUse = false := by
  obtain ⟨n,hl⟩ := removedDevices_lro o s
  unfold remove
  rw [← removedDevices]
  generalize removedDevices o s = s₁ at hl
  have h₁ : s₁.lro.regionsInUse = false := by
    rw [hl]
    exact h
  simp only [ProbeState.release, ProbeState.setLro, ProbeState.mark]
  split_ifs <;> simp_all

theorem remove_unwound_iff (o : Outcomes) {s : ProbeState} (hn : Numbered s.lro)
    (hg : s.lro.regionsInUse = false) : Unwound (remove o s) ↔
      ∀ r, (Given o s.lro r → s.holds r = some 1) ∧ (¬Given o s.lro r → s.holds r = some 0) := by
  classical
  rw [unwound_iff, remove_regions o hg]
  refine forall_congr' fun r => ?_
  rw [remove_holds o hn r]
  by_cases hgiven : Given o s.lro r
  · simp [hgiven, returned_eq_some]
  · simp [hgiven]

theorem given_low {o : Outcomes} {l : XdmaDev} (hg : l.regionsInUse = false) {r : Resource}
    (hr : r.level < 7) : Given o l r ↔ owed o l r = true := by
  have hchar : r ∉ charResources l := fun hmem => by
    have hof := charResources_level hmem
    cases r <;> simp [Resource.ofChar, Resource.level] at hof hr
  unfold Given
  cases r <;> simp [Resource.level, owed, hchar, hg] at hr ⊢

theorem given_top {o : Outcomes} {l : XdmaDev} (hm : l.major ≠ 0) {r : Resource}
    (hr : r.level = 7) (hne : r ≠ .attribute) : Given o l r ↔ charOwed l r = true := by
  unfold Given
  rw [mem_charResources]
  cases r with
  | numbers n k =>
    by_cases hk : k = 1
    · subst hk
      rw [charOwed_numbers]
      simp [CharSlot.resources, Resource.level]
    · simp [CharSlot.resources, Resource.level, charOwed, hk]
  | slot i =>
    have hm' : ¬l.major = 0#32 := hm
    simp [CharSlot.resources, Resource.level, charOwed, hm']
  | char c | cdev c | sysDevice c =>
    simp [CharSlot.resources, Resource.level, charOwed, Option.isSome_iff_exists]
  | _ => simp [Resource.level] at hr hne

theorem remove_unwound_top {o : Outcomes} {s : ProbeState} (hn : Numbered s.lro)
    (hg : s.lro.regionsInUse = false) (hm : s.lro.major ≠ 0)
    (hlow : ∀ r : Resource, r.level < 7 → s.holds r = some (owed o s.lro r).toNat)
    (hfile : s.holds .attribute = some 1) : Unwound (remove o s) ↔
      ∀ r : Resource, r.level = 7 → r ≠ .attribute →
        s.holds r = some (charOwed s.lro r).toNat := by
  rw [remove_unwound_iff o hn hg]
  refine forall_congr' fun r => ?_
  by_cases hr : r.level < 7
  · have hne : r.level ≠ 7 := Nat.ne_of_lt hr
    rw [given_low hg hr, hlow r hr]
    cases owed o s.lro r <;> simp [hne]
  · have h7 : r.level = 7 := by
      cases r <;> simp [Resource.level] at hr ⊢
    by_cases hattribute : r = .attribute
    · subst hattribute
      simp [Given, hfile]
    · rw [given_top hm h7 hattribute]
      cases charOwed s.lro r <;> simp [h7, hattribute]

def SamePages (o o' : Outcomes) (l : XdmaDev) : Prop :=
  ∀ e, owed o' l (.writeback e) = owed o l (.writeback e)

theorem SamePages.given {o o' : Outcomes} {l : XdmaDev} (h : SamePages o o' l) (r : Resource) :
    Given o' l r ↔ Given o l r := by
  have howed : owed o' l r = owed o l r := by
    cases r with
    | writeback e => exact h e
    | _ => rfl
  unfold Given
  rw [howed]

theorem samePages_iff {o o' : Outcomes} {l : XdmaDev} (h : PagesPolled o l) : SamePages o o' l ↔
    (o.pollMode = true → o'.pollMode = false → ∀ e, (l.engine e).isSome = false) := by
  unfold SamePages
  constructor
  · intro hsame hp hp' e
    cases heng : l.engine e with
    | none => rfl
    | some eng =>
      have hpage := hsame e
      simp [owed, heng, h e eng heng, hp, hp'] at hpage
  · intro hnone e
    cases heng : l.engine e with
    | none => simp [owed, heng]
    | some eng =>
      have hnone := fun hp hp' => hnone hp hp' e
      rw [heng] at hnone
      cases hp : o.pollMode <;> cases hp' : o'.pollMode <;>
        simp [owed, heng, h e eng heng, hp, hp'] at hnone ⊢

theorem remove_unwound_polled {o o' : Outcomes} {s : ProbeState} (hn : Numbered s.lro)
    (hg : s.lro.regionsInUse = false)
    (hpages : ∀ e, s.holds (.writeback e) = some (owed o s.lro (.writeback e)).toNat) :
    Unwound (remove o' s) ↔ Unwound (remove o s) ∧ SamePages o o' s.lro := by
  rw [remove_unwound_iff o' hn hg, remove_unwound_iff o hn hg]
  constructor
  · intro h
    have hsame : SamePages o o' s.lro := by
      intro e
      have hlevel : (Resource.writeback e).level < 7 := Nat.lt_succ_self 6
      obtain ⟨hgiven,hkept⟩ := h (.writeback e)
      rw [given_low hg hlevel, hpages e] at hgiven hkept
      cases hp' : owed o' s.lro (.writeback e) <;> cases hp : owed o s.lro (.writeback e) <;>
        simp [hp, hp'] at hgiven hkept ⊢
    exact ⟨fun r => by rw [← hsame.given r]; exact h r,hsame⟩
  · rintro ⟨h,hsame⟩ r
    rw [hsame.given r]
    exact h r

structure Probed (o : Outcomes) (s t : ProbeState) : Prop where
  created : (createInterfaces o s).1 = 0
  state : t = (createInterfaces o s).2.acquire .attribute

theorem probeInterfaces_probed {o : Outcomes} {s : ProbeState} (h : (probeInterfaces o s).1 = 0) :
    Probed o s (probeInterfaces o s).2 := by
  unfold probeInterfaces at h ⊢
  dsimp only at h ⊢
  by_cases hcreated : (createInterfaces o s).1 = 0
  · rw [if_neg (not_not.mpr hcreated)] at h ⊢
    by_cases hfile : o.deviceCreateFile ≠ 0
    · rw [if_pos hfile] at h
      exact absurd h (by simp)
    · rw [if_neg hfile]
      exact ⟨hcreated,rfl⟩
  · rw [if_pos hcreated] at h
    exact absurd h (by simp)

theorem Probed.low {o : Outcomes} {s t : ProbeState} (h : Probed o s t) (o' : Outcomes)
    {r : Resource} (hr : r.level < 7) :
    t.holds r = s.holds r ∧ owed o' t.lro r = owed o' s.lro r := by
  obtain ⟨charDev,m,i,hl⟩ := (createInterfaces_step o s).lro
  have hne : r ≠ .attribute := by
    rintro rfl
    simp [Resource.level] at hr
  rw [h.state, ProbeState.holds_acquire, if_neg (Ne.symm hne), ProbeState.lro_acquire, hl,
    (createInterfaces_step o s).keeps r (.inl (Nat.ne_of_lt hr))]
  exact ⟨rfl,by cases r <;> rfl⟩

theorem Probed.regions {o : Outcomes} {s t : ProbeState} (h : Probed o s t)
    (hg : s.lro.regionsInUse = false) : t.lro.regionsInUse = false := by
  obtain ⟨charDev,m,i,hl⟩ := (createInterfaces_step o s).lro
  rw [h.state, ProbeState.lro_acquire, hl]
  exact hg

theorem Probed.numbered {o : Outcomes} {s t : ProbeState} (h : Probed o s t)
    (hnone : ∀ c, s.lro.charDev c = none) : Numbered t.lro := by
  have hstart : Numbered s.lro := fun c n hc => by
    rw [hnone] at hc
    cases hc
  rw [h.state, ProbeState.lro_acquire, (createInterfaces_passes h.created).2]
  exact createLoop_numbered o _ hstart

theorem Probed.not_unwound {o o' : Outcomes} {s t : ProbeState} (h : Probed o s t)
    (hnone : ∀ c, s.lro.charDev c = none) (hg : s.lro.regionsInUse = false) {r : Resource}
    (hr : r.level < 7) {n : Nat} (hs : s.holds r = some n) (hn : (owed o' s.lro r).toNat ≠ n) :
    ¬Unwound (remove o' t) := by
  obtain ⟨hholds,howed⟩ := h.low o' hr
  rw [remove_unwound_iff o' (h.numbered hnone) (h.regions hg)]
  intro hall
  have hgiven := hall r
  rw [given_low (h.regions hg) hr, howed, hholds, hs] at hgiven
  cases hb : owed o' s.lro r with
  | true => exact hn (by rw [hb]; exact (Option.some.inj (hgiven.1 hb)).symm)
  | false => exact hn (by rw [hb]; exact (Option.some.inj (hgiven.2 (by simp [hb]))).symm)

theorem Probed.unwound {o : Outcomes} {s t : ProbeState} (h : Probed o s t)
    (hheld : HeldBelow o 7 s) (hg : s.lro.regionsInUse = false) (hmajor : s.lro.major = 0)
    (hnone : ∀ c, s.lro.charDev c = none) : Unwound (remove o t) ↔
      2 ≤ s.major.toNat ∧ ∀ c ∈ interfaces s.lro, o.charClean c = true := by
  have hzero : ∀ r : Resource, r.level = 7 → s.holds r = some 0 := by
    intro r hr
    rw [hheld r]
    simp [hr]
  have hnumbered := h.numbered hnone
  have hstate := h.state
  by_cases hm : 2 ≤ s.major.toNat
  · obtain ⟨hinst,hbooks⟩ := createInterfaces_books hm hmajor hnone hzero h.created
    have hfile : (createInterfaces o s).2.holds .attribute = some 0 := by
      rw [(createInterfaces_step o s).keeps .attribute (.inr rfl)]
      exact hzero _ rfl
    have hlow : ∀ r : Resource, r.level < 7 → t.holds r = some (owed o t.lro r).toNat := by
      intro r hr
      rw [(h.low o hr).1, (h.low o hr).2, hheld r]
      simp [hr]
    rw [remove_unwound_top hnumbered (h.regions hg) (by rw [hstate]; exact hinst) hlow
      (by rw [hstate, ProbeState.holds_acquire, if_pos rfl, hfile]; rfl),
      and_iff_right hm, ← hbooks, hstate]
    refine forall_congr' fun r => imp_congr_right fun hr => ?_
    by_cases hattribute : r = .attribute
    · subst hattribute
      simp [hfile, charOwed]
    · simp [hattribute, Ne.symm hattribute]
  · refine iff_of_false ?_ fun hn => hm hn.1
    have hexhausted : Exhausted s := by
      have hlt : s.major.toNat < 2 := Nat.lt_of_not_le hm
      by_cases h0 : s.major = 0
      · exact .inl h0
      · refine .inr ⟨BitVec.eq_of_toNat_eq ?_,hmajor⟩
        have hpos : s.major.toNat ≠ 0 := fun hn => h0 (BitVec.eq_of_toNat_eq hn)
        change s.major.toNat = 1
        omega
    obtain ⟨c,n,hc,h0⟩ := createInterfaces_exhausted hexhausted (fun n => hzero _ rfl) h.created
    rw [remove_unwound_iff o hnumbered (h.regions hg)]
    intro hall
    have hgiven : Given o t.lro (.numbers n 1) :=
      .inl (mem_charResources.mpr ⟨c,n,by rw [hstate]; exact hc,by simp [CharSlot.resources]⟩)
    have hone := (hall (.numbers n 1)).1 hgiven
    rw [hstate, ProbeState.holds_acquire, if_neg (by simp), h0] at hone
    cases hone

theorem Probed.pages {o : Outcomes} {s t : ProbeState} (h : Probed o s t) :
    t.lro.engine = s.lro.engine := by
  obtain ⟨charDev,m,i,hl⟩ := (createInterfaces_step o s).lro
  rw [h.state, ProbeState.lro_acquire, hl]

end DmaCamera.Probe
