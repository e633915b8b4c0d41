import DmaCamera.RequestRuns
set_option autoImplicit false

namespace DmaCamera
open Countdown Runs

def XdmaTransfer.pinnedPages (x : XdmaTransfer) : Nat :=
  if x.userspace then (x.sgm.map SgMapping.mappedPages).getD 0 else 0

def Driver.pages (d : Driver) (t : TransferId) : Nat := (d.transfers t).pinnedPages

def IoSystem.Held (s : IoSystem) (t : TransferId) : Prop := ∃ i, s.own i = some t

def IoSystem.Live (s : IoSystem) (t : TransferId) : Prop :=
  t ∈ s.driver.engine.transferList ∨ s.Held t

/-- A transfer is on the list or with a call and not freed, or it is neither and
has been freed once. With nothing on the list and no call all pages are put. -/
structure IoSystem.Conserved (s : IoSystem) : Prop where
  each : ∀ t ∈ s.driver.queued, (s.Live t ∧ t ∉ s.driver.destroyed) ∨
    (¬ s.Live t ∧ s.driver.destroyed.count t = 1)
  drained : s.driver.engine.transferList = [] → (∀ i, s.own i = none) →
    s.driver.destroyed.Perm s.driver.queued ∧
      total s.driver.pages s.driver.destroyed = total s.driver.pages s.driver.queued

/-- A call of `engine_service` takes off only what is freed then and there, or what
a synchronous call still has. -/
def keepsTrack (s : IoSystem) (w : U32 × RegisterReads) : Prop :=
  ∀ t ∈ s.driver.takesOff w.1 w.2, s.driver.frees t = true ∨ s.Held t

/-- Nothing is lost from sight, and no call that gets to examine its transfer finds
it settled and on the list. -/
def losesNothing (s : IoSystem) (op : IoOp) : Prop :=
  (∀ w ∈ s.services op, keepsTrack s w) ∧
    ∀ i status, op = .call (.account i status) → ∀ t, s.own i = some t →
      s.driver.state t ≠ .submitted → t ∉ s.driver.engine.transferList

theorem conserved_drained {s : IoSystem} (h : s.Steady)
    (each : ∀ t ∈ s.driver.queued, (s.Live t ∧ t ∉ s.driver.destroyed) ∨
      (¬ s.Live t ∧ s.driver.destroyed.count t = 1))
    (hlist : s.driver.engine.transferList = []) (hown : ∀ i, s.own i = none) :
    s.driver.destroyed.Perm s.driver.queued := by
  rw [List.perm_iff_count]
  intro t
  by_cases ht : t ∈ s.driver.queued
  · rw [List.count_eq_one_of_mem h.sound.nodup ht]
    rcases each t ht with ⟨hlive,_⟩ | ⟨_,hcount⟩
    · rcases hlive with hlisted | ⟨i,hi⟩
      · rw [hlist] at hlisted
        cases hlisted
      · rw [hown i] at hi
        cases hi
    · exact hcount
  · rw [List.count_eq_zero.mpr ht, List.count_eq_zero.mpr fun hd => ht (h.freed t hd)]

theorem conserved_iff {s : IoSystem} (h : s.Steady) : s.Conserved ↔ ∀ t ∈ s.driver.queued,
    (s.Live t ∧ t ∉ s.driver.destroyed) ∨ (¬ s.Live t ∧ s.driver.destroyed.count t = 1) := by
  refine ⟨IoSystem.Conserved.each,fun each => ⟨each,fun hlist hown => ?_⟩⟩
  have hperm := conserved_drained h each hlist hown
  exact ⟨hperm,total_perm hperm⟩

theorem IoSystem.Steady.held {s : IoSystem} (h : s.Steady) {t : TransferId} (ht : s.Held t) :
    s.driver.frees t = false := by
  obtain ⟨i,hi⟩ := ht
  rw [Driver.frees, (h.owned i t hi).2]
  rfl

theorem IoSystem.Steady.listed {s : IoSystem} (h : s.Steady) {t : TransferId}
    (ht : t ∈ s.driver.engine.transferList) : t ∈ s.driver.queued := by
  rw [h.sound.order]
  exact List.mem_append_right _ ht

theorem held_same {s s' : IoSystem} (hown : s'.own = s.own) (t : TransferId) :
    s'.Held t ↔ s.Held t := by
  rw [IoSystem.Held, hown, IoSystem.Held]

theorem IoSystem.Conserved.serviced {s s' : IoSystem} {wb : U32} {reads : RegisterReads}
    (h : s.Steady) (h' : s'.Steady) (hended : Ended s.driver wb reads s'.driver)
    (hown : s'.own = s.own) (hc : s.Conserved) : s'.Conserved ↔ keepsTrack s (wb,reads) := by
  have hnodup := h.sound.listNodup
  have hlist := hended.list
  rw [hlist, List.nodup_append] at hnodup
  obtain ⟨hoffNodup,_,hdisj⟩ := hnodup
  have hnotListed : ∀ t ∈ s.driver.takesOff wb reads, t ∉ s'.driver.engine.transferList :=
    fun t ht hl => hdisj t ht t hl rfl
  have hdestroyed := hended.completed.destroyed
  -- what a call takes off has not been freed so far
  have hfresh : ∀ t ∈ s.driver.takesOff wb reads, t ∉ s.driver.destroyed := by
    intro t ht
    have hl : t ∈ s.driver.engine.transferList := by
      rw [hlist]
      exact List.mem_append_left _ ht
    rcases hc.each t (h.listed hl) with ⟨_,hnot⟩ | ⟨hdead,_⟩
    · exact hnot
    · exact absurd (Or.inl hl) hdead
  rw [conserved_iff h']
  constructor
  · intro each t ht
    by_contra hlost
    rw [not_or] at hlost
    obtain ⟨hfrees,hheld⟩ := hlost
    have hq : t ∈ s'.driver.queued := by
      rw [hended.queued]
      refine h.listed ?_
      rw [hlist]
      exact List.mem_append_left _ ht
    rcases each t hq with ⟨hlive,_⟩ | ⟨_,hcount⟩
    · rcases hlive with hl | hl
      · exact hnotListed t ht hl
      · exact hheld ((held_same hown t).mp hl)
    · have hnot : t ∉ s'.driver.destroyed := by
        rw [hdestroyed, List.mem_append, List.mem_filter]
        rintro (hd | hd)
        · exact hfresh t ht hd
        · exact hfrees hd.2
      rw [List.count_eq_zero.mpr hnot] at hcount
      cases hcount
  · intro hkeeps t ht
    rw [hended.queued] at ht
    by_cases hoff : t ∈ s.driver.takesOff wb reads
    · cases hfrees : s.driver.frees t with
      | true =>
        refine Or.inr ⟨?_,?_⟩
        · rintro (hl | hl)
          · exact hnotListed t hoff hl
          · have hheld := h.held ((held_same hown t).mp hl)
            rw [hfrees] at hheld
            cases hheld
        · rw [hdestroyed, List.count_append, List.count_eq_zero.mpr (hfresh t hoff), Nat.zero_add]
          exact List.count_eq_one_of_mem (hoffNodup.filter _) (List.mem_filter.mpr ⟨hoff,hfrees⟩)
      | false =>
        have hheld : s.Held t := by
          rcases hkeeps t hoff with hf | hheld
          · rw [hfrees] at hf
            cases hf
          · exact hheld
        refine Or.inl ⟨Or.inr ((held_same hown t).mpr hheld),?_⟩
        rw [hdestroyed, List.mem_append, List.mem_filter]
        rintro (hd | hd)
        · exact hfresh t hoff hd
        · rw [hfrees] at hd
          cases hd.2
    · have hlive : s'.Live t ↔ s.Live t := by
        rw [IoSystem.Live, IoSystem.Live, held_same hown, hlist, List.mem_append]
        simp [hoff]
      have hcount : s'.driver.destroyed.count t = s.driver.destroyed.count t := by
        have hnot : t ∉ (s.driver.takesOff wb reads).filter s.driver.frees := fun hd =>
          hoff (List.mem_filter.mp hd).1
        rw [hdestroyed, List.count_append, List.count_eq_zero.mpr hnot, Nat.add_zero]
      rw [hlive, hcount, ← List.count_eq_zero, hcount, List.count_eq_zero]
      exact hc.each t ht

theorem IoSystem.Conserved.accepted {s s' : IoSystem} {x : PlainTransfer} (h : s.Steady)
    (h' : s'.Steady) (ha : Accepted s.driver x s'.driver)
    (hheld : ∀ t ∈ s.driver.queued, s'.Held t ↔ s.Held t) (hc : s.Conserved) : s'.Conserved := by
  rw [conserved_iff h']
  intro t ht
  rw [ha.queued] at ht
  rcases List.mem_append.mp ht with ht | ht
  · have hlive : s'.Live t ↔ s.Live t := by
      have hne := h.sound.newId ht
      rw [IoSystem.Live, IoSystem.Live, hheld t ht, ha.list, List.mem_append]
      simp [hne]
    rw [hlive, ha.destroyed]
    exact hc.each t ht
  · rw [List.mem_singleton.mp ht, ha.destroyed]
    refine Or.inl ⟨Or.inl ?_,fun hd => h.sound.newId (h.freed _ hd) rfl⟩
    rw [ha.list]
    exact List.mem_append_right _ (List.mem_singleton_self _)

theorem IoSystem.Conserved.left {s s' : IoSystem} {i : Nat} {t : TransferId} {rc : Int} {status : U32}
    (h : s.Steady) (h' : s'.Steady) (hi : s.own i = some t)
    (hdriver : s'.driver = leaveTransfer s.driver t rc status)
    (hown : s'.own = Function.update s.own i none) (hc : s.Conserved) :
    s'.Conserved ↔ (s.driver.state t ≠ .submitted → t ∉ s.driver.engine.transferList) := by
  obtain ⟨_,hqueued,_,hlist,hdestroyed⟩ := leaveTransfer_work s.driver t rc status
  rw [← hdriver] at hqueued hlist hdestroyed
  have ht := (h.owned i t hi).1
  have hfresh : t ∉ s.driver.destroyed := by
    rcases hc.each t ht with ⟨_,hnot⟩ | ⟨hdead,_⟩
    · exact hnot
    · exact absurd (Or.inr ⟨i,hi⟩) hdead
  have hgone : ¬ s'.Held t := by
    rintro ⟨k,hk⟩
    rw [hown] at hk
    by_cases hki : k = i
    · rw [hki, Function.update_self] at hk
      cases hk
    · rw [Function.update_of_ne hki] at hk
      exact hki (h.sole k i t hk hi)
  have hothers : ∀ u, u ≠ t → (s'.Held u ↔ s.Held u) := by
    intro u hu
    constructor
    · rintro ⟨k,hk⟩
      rw [hown] at hk
      by_cases hki : k = i
      · rw [hki, Function.update_self] at hk
        cases hk
      · rw [Function.update_of_ne hki] at hk
        exact ⟨k,hk⟩
    · rintro ⟨k,hk⟩
      have hki : k ≠ i := by
        rintro rfl
        exact hu (Option.some.inj (hk.symm.trans hi))
      exact ⟨k,by rw [hown, Function.update_of_ne hki]; exact hk⟩
  rw [conserved_iff h']
  constructor
  · intro each hset hl
    rw [if_pos hset] at hdestroyed
    rcases each t (by rw [hqueued]; exact ht) with ⟨_,hnot⟩ | ⟨hdead,_⟩
    · refine hnot ?_
      rw [hdestroyed]
      exact List.mem_append_right _ (List.mem_singleton_self _)
    · refine hdead (Or.inl ?_)
      rw [hlist]
      exact hl
  · intro hnotListed u hu
    rw [hqueued] at hu
    by_cases hut : u = t
    · subst u
      by_cases hset : s.driver.state t = .submitted
      · -- still in flight, and so on the list
        rw [if_neg (not_not_intro hset), List.append_nil] at hdestroyed
        rw [hdestroyed]
        refine Or.inl ⟨Or.inl ?_,hfresh⟩
        rw [hlist]
        obtain ⟨_,front,back,hcut⟩ := h.sound.split_list ht hset
        rw [hcut]
        simp
      · rw [if_pos hset] at hdestroyed
        refine Or.inr ⟨?_,?_⟩
        · rintro (hl | hl)
          · rw [hlist] at hl
            exact hnotListed hset hl
          · exact hgone hl
        · rw [hdestroyed, List.count_append, List.count_eq_zero.mpr hfresh]
          simp
    · have hlive : s'.Live u ↔ s.Live u := by
        rw [IoSystem.Live, IoSystem.Live, hothers u hut, hlist]
      have hcount : s'.driver.destroyed.count u = s.driver.destroyed.count u := by
        rw [hdestroyed, List.count_append]
        have hnot : u ∉ if s.driver.state t ≠ .submitted then [t] else [] := by
          split <;> simp [hut]
        rw [List.count_eq_zero.mpr hnot, Nat.add_zero]
      rw [hlive, hcount, ← List.count_eq_zero, hcount, List.count_eq_zero]
      exact hc.each u hu

theorem IoSystem.Conserved.step {p : Params} {s s' : IoSystem} {op : IoOp} (h : s.Steady)
    (hstep : ioNext p s op = some s') (hc : s.Conserved) : s'.Conserved ↔ losesNothing s op := by
  have h' := h.step hstep
  cases ioNext_step h.notCyclic hstep with
  | serviced wb reads hop hcall hown =>
    rw [IoSystem.Conserved.serviced h h' (opStep_ended h.sound hcall) hown hc]
    constructor
    · intro hw
      refine ⟨fun w hw' => ?_,?_⟩
      · cases hop.symm.trans hw'
        exact hw
      · rintro i status rfl
        cases hop
    · exact fun hw => hw.1 _ hop
  | queued i x data hop hpc hcall hown =>
    have hheld : ∀ t ∈ s.driver.queued, s'.Held t ↔ s.Held t := by
      intro t ht
      have hnone : s.own i = none := by
        rw [IoSystem.own, hpc]
        rfl
      constructor
      · rintro ⟨k,hk⟩
        rw [hown] at hk
        by_cases hki : k = i
        · rw [hki, Function.update_self] at hk
          cases hk
          exact absurd rfl (h.sound.newId ht)
        · rw [Function.update_of_ne hki] at hk
          exact ⟨k,hk⟩
      · rintro ⟨k,hk⟩
        have hki : k ≠ i := by
          rintro rfl
          rw [hnone] at hk
          cases hk
        exact ⟨k,by rw [hown, Function.update_of_ne hki]; exact hk⟩
    subst hop
    exact ⟨fun _ => ⟨fun w hw => (by cases hw),fun _ _ heq => by cases heq⟩,
      fun _ => hc.accepted h h' (opStep_accepted h.sound hcall) hheld⟩
  | submitted j x seg iov hop hpc hcall hown =>
    subst hop
    exact ⟨fun _ => ⟨fun w hw => (by cases hw),fun _ _ heq => by cases heq⟩,
      fun _ => hc.accepted h h' (opStep_accepted h.sound hcall) fun t _ => held_same hown t⟩
  | left i t rc status hop hpc hdriver hown =>
    have hi : s.own i = some t := by
      rw [IoSystem.own, hpc]
      rfl
    rw [IoSystem.Conserved.left h h' hi hdriver hown hc]
    subst hop
    constructor
    · intro hset
      refine ⟨fun w hw => (by cases hw),?_⟩
      rintro _ _ ⟨⟩ u hu
      cases hi.symm.trans hu
      exact hset
    · exact fun hw => hw.2 i status rfl t hi
  | passed value hop hdriver hown =>
    obtain ⟨hnone,_⟩ := passes_services (s := s) hop
    refine ⟨fun _ => ⟨fun w hw => ?_,?_⟩,fun _ => ?_⟩
    · rw [hnone] at hw
      cases hw
    · rintro i status rfl
      cases hop
    · rw [conserved_iff h', hdriver]
      intro t ht
      have hlive : s'.Live t ↔ s.Live t := by
        rw [IoSystem.Live, IoSystem.Live, held_same hown, hdriver]
        rfl
      rw [hlive]
      exact hc.each t ht

/-- In a run of any calls on an engine all transfers and their pages are accounted
for, all along, exactly if no step loses sight of one. -/
theorem run_losesNothing {p : Params} {s₀ s : IoSystem} {ops : List IoOp} (h₀ : s₀.Starting)
    (r : Run (stepOf (ioNext p)) anyStep s₀ ops s) :
    (∀ ops' t, ops' <+: ops → Run (stepOf (ioNext p)) anyStep s₀ ops' t → t.Conserved) ↔
      Run (stepOf (ioNext p)) losesNothing s₀ ops s := by
  have hnone : s₀.Conserved := by
    rw [conserved_iff h₀.steady]
    intro t ht
    have hq : s₀.driver.queued = [] := h₀.data.fresh.queued
    rw [hq] at ht
    cases ht
  exact (r.always_iff IoSystem.Steady IoSystem.Conserved h₀.steady hnone
    fun _ _ _ h hstep => ⟨h.step hstep,IoSystem.Conserved.step h hstep⟩).2

theorem IoStep.own_none {p : Params} {s s' : IoSystem} {op : IoOp} (h : IoStep p s op s') {i : Nat}
    (hi : s.own i = none) (hop : op ≠ .call (.queue i)) : s'.own i = none := by
  cases h with
  | serviced wb reads _ _ hown => rw [hown, hi]
  | queued k x data hop' _ _ hown =>
    have hne : i ≠ k := by
      rintro rfl
      exact hop hop'
    rw [hown, Function.update_of_ne hne, hi]
  | submitted j x seg iov _ _ _ hown => rw [hown, hi]
  | left k t rc status _ _ _ hown =>
    rw [hown]
    by_cases hk : i = k
    · rw [hk, Function.update_self]
    · rw [Function.update_of_ne hk, hi]
  | passed value _ _ hown => rw [hown, hi]

def IoSystem.loaded : List IoOp :=
  [.call (.create 0 (.ample fun page => BitVec.ofNat 64 (page*pageSize))),.call (.queue 0)]

theorem run_losesNothing_page : (replay (ioNext ⟨false,false⟩) .pages
    (IoSystem.loaded ++ [.call (.interrupt ⟨⟨0,1⟩,[]⟩),.call (.wait 0 false),
      .call (.account 0 0)])).Conserved := by
  have hqueue : Run (stepOf (ioNext ⟨false,false⟩)) losesNothing .pages IoSystem.loaded _ :=
    (replay_run (by decide +kernel)).labels
      (by simp [IoSystem.loaded, losesNothing, IoSystem.services])
  have hserviced := hqueue.snoc (i := .call (.interrupt ⟨⟨0,1⟩,[]⟩))
    ⟨fun w hw t ht => Or.inr ⟨0,by cases hw; revert t; decide +kernel⟩,
      fun _ _ heq => by cases heq⟩
    (replay_step (by decide +kernel))
  have hwoken := hserviced.snoc (i := .call (.wait 0 false)) ⟨fun w hw => (by cases hw),fun _ _ heq => by cases heq⟩
    (replay_step (by decide +kernel))
  have hdone := hwoken.snoc (i := .call (.account 0 0))
    ⟨fun w hw => (by cases hw),fun i status heq t _ _ hl => by
      have hempty : (replay (ioNext ⟨false,false⟩) .pages (IoSystem.loaded ++
          [.call (.interrupt ⟨⟨0,1⟩,[]⟩),.call (.wait 0 false)])).driver.engine.transferList = [] := by
        decide +kernel
      exact absurd (hempty ▸ hl) List.not_mem_nil⟩
    (replay_step (by decide +kernel))
  have hrun : Run (stepOf (ioNext ⟨false,false⟩)) anyStep .pages
    (IoSystem.loaded ++ [.call (.interrupt ⟨⟨0,1⟩,[]⟩),.call (.wait 0 false),
      .call (.account 0 0)]) _ := replay_run (by decide +kernel)
  refine (run_losesNothing starting_ioPages hrun).mpr ?_ _ _ (List.prefix_refl _) hrun
  exact hdone

/-- A call that a signal interrupts leaves its transfer to the engine, and the
engine, done with it, to nobody. -/
theorem interrupted_leaks : ¬ ∀ (p : Params) (s₀ s : IoSystem) (ops : List IoOp), s₀.Starting →
    Run (stepOf (ioNext p)) anyStep s₀ ops s → s.Conserved := by
  intro hall
  let ops := IoSystem.loaded ++
    [.call (.wait 0 true),.call (.account 0 0),.call (.interrupt ⟨⟨0,1⟩,[]⟩)]
  obtain ⟨s,hs⟩ : ∃ s, s = replay (ioNext ⟨false,false⟩) .pages ops := ⟨_,rfl⟩
  have hrun : Run (stepOf (ioNext ⟨false,false⟩)) anyStep .pages ops s := by
    rw [hs]
    exact replay_run (by decide +kernel)
  have hempty : s.driver.engine.transferList = [] ∧ s.own 0 = none ∧ s.driver.destroyed = [] ∧
      s.driver.queued = [0] := by
    rw [hs]
    decide +kernel
  obtain ⟨hlist,hfirst,hdestroyed,hqueued⟩ := hempty
  have hnamed : Run (stepOf (ioNext ⟨false,false⟩)) (fun _ op => ∀ i, i ≠ 0 → op ≠ .call (.queue i))
      .pages ops s := by
    refine hrun.labels fun op hop _ i hi => ?_
    rintro rfl
    simp [ops, IoSystem.loaded, hi] at hop
  have hothers : s.Steady ∧ ∀ i, i ≠ 0 → s.own i = none :=
    hnamed.invariant (fun s => s.Steady ∧ ∀ i, i ≠ 0 → s.own i = none)
      ⟨starting_ioPages.steady,fun _ _ => rfl⟩ fun _ _ _ h hok hstep => ⟨h.1.step hstep,fun i hi =>
        (ioNext_step h.1.notCyclic hstep).own_none (h.2 i hi) (hok i hi)⟩
  have hperm := ((hall _ _ _ _ starting_ioPages hrun).drained hlist fun i => ?_).1
  · rw [hdestroyed, hqueued] at hperm
    simp at hperm
  · by_cases hi : i = 0
    · rw [hi, hfirst]
    · exact hothers.2 i hi

end DmaCamera
