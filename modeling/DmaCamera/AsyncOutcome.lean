import DmaCamera.RequestRuns
set_option autoImplicit false

namespace DmaCamera
open Countdown Runs

def reportedSize (size : Nat) : Int := Int.bmod size (2^64)

theorem reportedSize_eq {size : Nat} (h : size < 2^63) : reportedSize size = size :=
  Int.bmod_eq_of_le (by norm_num) (by norm_num; omega)

def IoSystem.completions (s : IoSystem) (j : Nat) : List Int :=
  (s.driver.notices.filter fun n => decide (n.transfer ∈ (s.requests j).queued)).filterMap fun n =>
    n.completes.map fun c => reportedSize c.2

/-- A request is completed with a byte count only when all its transfers have
completed, and one that failed is completed with an error. -/
structure IoSystem.Reported (s : IoSystem) (j : Nat) : Prop where
  completed : ∀ v ∈ s.completions j, 0 ≤ v →
    ∀ t ∈ (s.requests j).queued, s.driver.state t = .completed
  failed : ∀ t ∈ (s.requests j).queued, s.driver.state t = .failed → ∃ v ∈ s.completions j, v < 0

/-- A call of `engine_service` fails no transfer of request `j`, and takes the last
one of a segment off only with all that are on the list. -/
def endsWell (j : Nat) (s : IoSystem) (w : U32 × RegisterReads) : Prop :=
  (∀ t ∈ (s.requests j).queued, s.driver.failsOn w.1 w.2 ≠ some t) ∧
    ∀ t ∈ (s.requests j).queued, t ∈ s.driver.takesOff w.1 w.2 → s.driver.frees t = true →
      ∀ u ∈ (s.requests j).queued, u ∈ s.driver.engine.transferList →
        u ∈ s.driver.takesOff w.1 w.2

/-- The request queues nothing once its control block has been completed, and no
call ends it badly. -/
def keepsWord (j : Nat) (s : IoSystem) (op : IoOp) : Prop :=
  (op = .queue j → s.completions j = []) ∧ ∀ w ∈ s.services op, endsWell j s w

instance (j : Nat) (s : IoSystem) (w : U32 × RegisterReads) : Decidable (endsWell j s w) :=
  inferInstanceAs (Decidable (_ ∧ _))

theorem mem_completions {s : IoSystem} (h : s.Steady) {j : Nat} {v : Int} :
    v ∈ s.completions j ↔ ∃ t ∈ (s.requests j).queued, t ∈ s.driver.removed ∧
      ∃ c ∈ (s.driver.transfers t).completes, v = reportedSize c.2 := by
  simp only [IoSystem.completions, List.mem_filterMap, List.mem_filter, decide_eq_true_eq]
  constructor
  · rintro ⟨n,⟨hn,hmine⟩,hv⟩
    obtain ⟨c,hc,rfl⟩ := Option.map_eq_some_iff.mp hv
    refine ⟨n.transfer,hmine,?_,c,?_,rfl⟩
    · rw [← h.sound.notified]
      exact List.mem_map_of_mem hn
    · rw [← (h.told n hn).2]
      exact hc
  · rintro ⟨t,hmine,ht,c,hc,hv⟩
    rw [← h.sound.notified] at ht
    obtain ⟨n,hn,rfl⟩ := List.mem_map.mp ht
    refine ⟨n,⟨hn,hmine⟩,?_⟩
    have hcompletes : (s.driver.transfers n.transfer).completes = some c := hc
    rw [(h.told n hn).2, hcompletes, Option.map_some, hv]

theorem completions_nonneg {s : IoSystem} (h : s.Steady) {j : Nat} {v : Int}
    (hv : v ∈ s.completions j) : 0 ≤ v := by
  obtain ⟨t,hmine,_,c,hc,hsize⟩ := (mem_completions h).mp hv
  rw [hsize, reportedSize_eq ((h.mine j t hmine).2 c hc)]
  exact Int.natCast_nonneg c.2

/-- A request is reported as it ended if none of its transfers has failed, and
none is left once one has been reported. -/
theorem reported_iff {s : IoSystem} (h : s.Steady) (j : Nat) : s.Reported j ↔
    (∀ t ∈ (s.requests j).queued, s.driver.state t ≠ .failed) ∧
      ((∃ t ∈ (s.requests j).queued, t ∈ s.driver.removed ∧ s.driver.frees t = true) →
        ∀ t ∈ (s.requests j).queued, s.driver.state t = .completed) := by
  constructor
  · rintro ⟨hcompleted,hfailed⟩
    refine ⟨fun t ht hf => ?_,?_⟩
    · obtain ⟨v,hv,hneg⟩ := hfailed t ht hf
      have hpos := completions_nonneg h hv
      omega
    · rintro ⟨t,ht,hoff,hfrees⟩
      obtain ⟨c,hc⟩ := Option.isSome_iff_exists.mp hfrees
      have hv := (mem_completions h).mpr ⟨t,ht,hoff,c,hc,rfl⟩
      exact hcompleted _ hv (completions_nonneg h hv)
  · rintro ⟨hnone,hall⟩
    refine ⟨fun v hv _ => ?_,fun t ht hf => absurd hf (hnone t ht)⟩
    obtain ⟨t,ht,hoff,c,hc,_⟩ := (mem_completions h).mp hv
    refine hall ⟨t,ht,hoff,?_⟩
    rw [Driver.frees, hc]
    rfl

theorem removed_or_listed {d : Driver} (hd : Sound d) {t : TransferId} (ht : t ∈ d.queued) :
    t ∈ d.removed ∨ t ∈ d.engine.transferList := by
  rw [hd.order] at ht
  exact List.mem_append.mp ht

theorem IoSystem.Reported.same {s s' : IoSystem} {j : Nat}
    (hmine : (s'.requests j).queued = (s.requests j).queued)
    (hnotices : s'.driver.notices = s.driver.notices)
    (hstate : ∀ t ∈ (s.requests j).queued, s'.driver.state t = s.driver.state t) :
    s'.Reported j ↔ s.Reported j := by
  have hcompletions : s'.completions j = s.completions j := by
    rw [IoSystem.completions, IoSystem.completions, hmine, hnotices]
  constructor
  · rintro ⟨hc,hf⟩
    rw [hcompletions, hmine] at hc hf
    exact ⟨fun v hv h t ht => (hstate t ht).symm.trans (hc v hv h t ht),
      fun t ht h => hf t ht ((hstate t ht).trans h)⟩
  · rintro ⟨hc,hf⟩
    refine ⟨fun v hv h t ht => ?_,fun t ht h => ?_⟩
    · rw [hcompletions] at hv
      rw [hmine] at ht
      exact (hstate t ht).trans (hc v hv h t ht)
    · rw [hmine] at ht
      rw [hcompletions]
      exact hf t ht ((hstate t ht).symm.trans h)

theorem IoSystem.Reported.serviced {s s' : IoSystem} {j : Nat} {wb : U32} {reads : RegisterReads}
    (h : s.Steady) (h' : s'.Steady) (hended : Ended s.driver wb reads s'.driver)
    (hmine : (s'.requests j).queued = (s.requests j).queued) (hr : s.Reported j) :
    s'.Reported j ↔ endsWell j s (wb,reads) := by
  have hfrees : s'.driver.frees = s.driver.frees := by
    funext t
    rw [Driver.frees, hended.completed.completes, Driver.frees]
  obtain ⟨hnone,hall⟩ := (reported_iff h j).mp hr
  rw [reported_iff h', hmine, hfrees]
  constructor
  · rintro ⟨hnone',hall'⟩
    refine ⟨fun t ht hfail => ?_,fun t ht hoff hlast u hu hlist => ?_⟩
    · refine hnone' t ht ?_
      rw [hended.state, if_pos hfail]
    · -- what is left on the list has not completed
      by_contra hleft
      have hoff' : t ∈ s'.driver.removed := by
        rw [hended.removed]
        exact List.mem_append_right _ hoff
      have hdone := hall' ⟨t,ht,hoff',hlast⟩ u hu
      have hnotFailed := hnone' u hu
      rw [hended.state] at hdone hnotFailed
      by_cases hfail : s.driver.failsOn wb reads = some u
      · rw [if_pos hfail] at hnotFailed
        exact hnotFailed rfl
      · rw [if_neg hfail, if_neg hleft] at hdone
        exact h.sound.listed u hlist hdone
  · rintro ⟨hfail,htogether⟩
    have hstate : ∀ t ∈ (s.requests j).queued, s'.driver.state t =
        if t ∈ s.driver.takesOff wb reads then .completed else s.driver.state t := fun t ht => by
      rw [hended.state, if_neg (hfail t ht)]
    refine ⟨fun t ht => ?_,?_⟩
    · rw [hstate t ht]
      split
      · decide
      · exact hnone t ht
    · rintro ⟨t,ht,hoff,hlast⟩ u hu
      rw [hstate u hu]
      rw [hended.removed] at hoff
      rcases List.mem_append.mp hoff with hold | hnew
      · rw [hall ⟨t,ht,hold,hlast⟩ u hu]
        exact ite_self _
      · rcases removed_or_listed h.sound (h.mine j u hu).1 with hu' | hu'
        · -- taken off before, and not as failed
          have hsub := h.sound.settled u hu'
          have hfailed := hnone u hu
          have hsettled := h.settled u (h.mine j u hu).1
          cases hs : s.driver.state u with
          | new => exact absurd hs hsettled
          | submitted => exact absurd hs hsub
          | completed => exact ite_self _
          | failed => exact absurd hs hfailed
        · rw [if_pos (htogether t ht hnew hlast u hu hu')]

theorem IoSystem.Reported.submitted {s s' : IoSystem} {j : Nat} {x : PlainTransfer} (h : s.Steady)
    (h' : s'.Steady) (ha : Accepted s.driver x s'.driver)
    (hmine : (s'.requests j).queued = (s.requests j).queued ++ [s.driver.queued.length])
    (hr : s.Reported j) : s'.Reported j ↔ s.completions j = [] := by
  have hnew : s.driver.queued.length ∉ s.driver.queued := fun hm => h.sound.newId hm rfl
  have hcompletions : s'.completions j = s.completions j := by
    rw [IoSystem.completions, IoSystem.completions, ha.notices, hmine]
    refine congrArg _ (List.filter_congr fun n hn => decide_eq_decide.mpr ?_)
    have hne : n.transfer ≠ s.driver.queued.length := fun heq => hnew (heq ▸ (h.told n hn).1)
    simp [hne]
  have hmem : s.driver.queued.length ∈ (s'.requests j).queued := by
    rw [hmine]
    exact List.mem_append_right _ (List.mem_singleton_self _)
  constructor
  · rintro ⟨hcompleted,_⟩
    by_contra hne
    obtain ⟨v,hv⟩ := List.exists_mem_of_ne_nil _ hne
    rw [← hcompletions] at hv
    have hdone := hcompleted v hv (completions_nonneg h' hv) _ hmem
    rw [ha.state] at hdone
    cases hdone
  · intro hnil
    rw [hnil] at hcompletions
    obtain ⟨hnone,_⟩ := (reported_iff h j).mp hr
    refine ⟨fun v hv => ?_,fun t ht hf => ?_⟩
    · rw [hcompletions] at hv
      cases hv
    · rw [hmine] at ht
      rcases List.mem_append.mp ht with ht | ht
      · rw [(ha.old t (h.mine j t ht).1).1] at hf
        exact absurd hf (hnone t ht)
      · rw [List.mem_singleton.mp ht, ha.state] at hf
        cases hf

theorem IoSystem.Reported.step {p : Params} {s s' : IoSystem} {op : IoOp} (j : Nat) (h : s.Steady)
    (hstep : ioNext p s op = some s') (hr : s.Reported j) : s'.Reported j ↔ keepsWord j s op := by
  have h' := h.step hstep
  -- a step that neither queues for the request nor has the engine serviced
  have hquiet : op ≠ .queue j → s.services op = none → keepsWord j s op := fun hop hnone =>
    ⟨fun heq => absurd heq hop,fun w hw => by rw [hnone] at hw; cases hw⟩
  cases ioNext_step h.notCyclic hstep with
  | serviced wb reads hop hcall hown hrequests =>
    rw [IoSystem.Reported.serviced h h' (opStep_ended h.sound hcall) (hrequests j) hr]
    constructor
    · intro hw
      refine ⟨?_,?_⟩
      · rintro rfl
        cases hop
      · rintro w hw'
        cases hop.symm.trans hw'
        exact hw
    · exact fun hw => hw.2 _ hop
  | queued i x data hop hpc hcall hown hrequests =>
    have ha := opStep_accepted h.sound hcall
    have hsame := IoSystem.Reported.same (hrequests j) ha.notices fun t ht =>
      (ha.old t (h.mine j t ht).1).1
    subst hop
    exact ⟨fun _ => hquiet (fun heq => by cases heq) rfl,fun _ => hsame.mpr hr⟩
  | submitted k x seg iov hop hpc hcall hown hmine hothers =>
    have ha := opStep_accepted h.sound hcall
    subst hop
    by_cases hk : j = k
    · subst k
      rw [IoSystem.Reported.submitted h h' ha hmine hr]
      exact ⟨fun hnil => ⟨fun _ => hnil,fun w hw => by cases hw⟩,fun hw => hw.1 rfl⟩
    · have hsame := IoSystem.Reported.same (hothers j hk) ha.notices fun t ht =>
        (ha.old t (h.mine j t ht).1).1
      refine ⟨fun _ => hquiet (fun heq => ?_) rfl,fun _ => hsame.mpr hr⟩
      cases heq
      exact hk rfl
  | left i t rc status hop hpc hdriver hown hrequests =>
    obtain ⟨htr,_,hn,_,_⟩ := leaveTransfer_work s.driver t rc status
    rw [← hdriver] at htr hn
    have hsame := IoSystem.Reported.same (hrequests j) hn fun u _ => by
      rw [Driver.state, htr, Driver.state]
    subst hop
    exact ⟨fun _ => hquiet (fun heq => by cases heq) rfl,fun _ => hsame.mpr hr⟩
  | passed value hop hdriver hown hrequests =>
    have hsame := IoSystem.Reported.same (hrequests j) (by rw [hdriver]; rfl) fun u _ => by
      rw [hdriver]
      rfl
    obtain ⟨hnone,hqueue⟩ := passes_services (s := s) hop
    exact ⟨fun _ => hquiet (hqueue j) hnone,fun _ => hsame.mpr hr⟩

theorem IoSystem.Starting.reported {s : IoSystem} (h : s.Starting) (j : Nat) : s.Reported j := by
  obtain ⟨r,iov,_,hj⟩ := h.requests j
  refine ⟨fun v hv => ?_,fun t ht => ?_⟩
  · have hn : s.driver.notices = [] := h.data.fresh.notices
    simp [IoSystem.completions, hn] at hv
  · rw [hj] at ht
    cases ht

/-- In a run of any calls on an engine a request is reported as it ended, all along,
exactly if every step keeps its word to it. -/
theorem sgAioReadWrite_reported {p : Params} {s₀ s : IoSystem} {ops : List IoOp} (h₀ : s₀.Starting)
    (j : Nat) (r : Run (stepOf (ioNext p)) anyStep s₀ ops s) :
    (∀ ops' t, ops' <+: ops → Run (stepOf (ioNext p)) anyStep s₀ ops' t → t.Reported j) ↔
      Run (stepOf (ioNext p)) (keepsWord j) s₀ ops s :=
  (r.always_iff IoSystem.Steady (fun s => s.Reported j) h₀.steady (h₀.reported j)
    fun _ _ _ h hstep => ⟨h.step hstep,IoSystem.Reported.step j h hstep⟩).2

def AsyncPc.segmentsLeft : AsyncPc → Nat
  | .segments iov => iov.countP Iovec.nonEmpty
  | .chunk seg iov => (if 0 < seg.remaining then 1 else 0)+iov.countP Iovec.nonEmpty
  | .created _ seg iov => (if 0 < seg.remaining then 1 else 0)+iov.countP Iovec.nonEmpty
  | .returned _ => 0

structure AsyncCall.Single (d : Driver) (c : AsyncCall) : Prop where
  few : c.pc.segmentsLeft ≤ 1
  sorted : c.queued.Pairwise (· < ·)
  last : ∀ t ∈ c.queued, d.frees t = true → c.queued.getLast? = some t ∧ c.pc.segmentsLeft = 0

theorem segmentNext_left (e : Engine) (a : Alignment) (r : AsyncRequest) (iov : List Iovec) :
    (segmentNext e a r iov).segmentsLeft ≤ (AsyncPc.segments iov).segmentsLeft := by
  cases iov with
  | nil => exact Nat.le_refl _
  | cons v iov =>
    unfold segmentNext
    simp only
    split
    · exact Nat.zero_le _
    · simp only [AsyncPc.segmentsLeft, List.countP_cons, Iovec.nonEmpty, decide_eq_true_eq]
      omega

theorem chunkNext_left {kernel : Platform} {r : AsyncRequest} {seg : SegState} {iov : List Iovec}
    {pc : AsyncPc} (h : chunkNext kernel r seg iov = some pc) :
    pc.segmentsLeft = (AsyncPc.chunk seg iov).segmentsLeft := by
  unfold chunkNext at h
  split at h
  · split at h
    · obtain ⟨x',_,rfl⟩ := Option.map_eq_some_iff.mp h
      rfl
    · cases h
  · rename_i hdone
    cases h
    simp [AsyncPc.segmentsLeft, hdone]

theorem AsyncCall.Single.goOn {d d' : Driver} {c : AsyncCall} {pc : AsyncPc} (h : c.Single d)
    (hf : ∀ t ∈ c.queued, d'.frees t = d.frees t) (hpc : pc.segmentsLeft ≤ c.pc.segmentsLeft) :
    AsyncCall.Single d' { c with pc := pc } := by
  refine ⟨Nat.le_trans hpc h.few,h.sorted,fun t ht hfrees => ?_⟩
  rw [hf t ht] at hfrees
  obtain ⟨hlast,hleft⟩ := h.last t ht hfrees
  rw [hleft] at hpc
  exact ⟨hlast,Nat.le_zero.mp hpc⟩

theorem AsyncCall.Single.queue {d d' : Driver} {r : AsyncRequest} {x : PlainTransfer} {seg : SegState}
    {iov : List Iovec} {queued : List TransferId} (hd : Sound d)
    (h : AsyncCall.Single d ⟨r,.created x seg iov,queued⟩)
    (hfits : (AsyncPc.created x seg iov).Fits) (hmine : ∀ t ∈ queued, t ∈ d.queued)
    (ha : Accepted d x d') :
    AsyncCall.Single d' ⟨r,.chunk seg.next iov,queued ++ [d.queued.length]⟩ := by
  obtain ⟨⟨hmore,_,hmark,_⟩,_⟩ := hfits
  have hfew : (if 0 < seg.remaining then 1 else 0)+iov.countP Iovec.nonEmpty ≤ 1 := h.few
  rw [if_pos hmore] at hfew
  have hiov : iov.countP Iovec.nonEmpty = 0 := by omega
  have hfrees : ∀ t ∈ queued, d.frees t = false := by
    intro t ht
    by_contra hne
    have hleft : (if 0 < seg.remaining then 1 else 0)+iov.countP Iovec.nonEmpty = 0 :=
      (h.last t ht (Bool.of_not_eq_false hne)).2
    rw [if_pos hmore] at hleft
    omega
  refine ⟨?_,?_,fun t ht hf => ?_⟩
  · simp only [AsyncPc.segmentsLeft, hiov]
    split <;> omega
  · refine List.pairwise_append.mpr ⟨h.sorted,List.pairwise_singleton _ _,fun t ht u hu => ?_⟩
    have hlt := hmine t ht
    rw [hd.ids, List.mem_range] at hlt
    rw [List.mem_singleton.mp hu]
    exact hlt
  · rcases List.mem_append.mp ht with ht | ht
    · rw [Driver.frees, (ha.old t (hmine t ht)).2] at hf
      rw [← Driver.frees, hfrees t ht] at hf
      cases hf
    · rw [List.mem_singleton.mp ht] at hf ⊢
      rw [Driver.frees, ha.new] at hf
      refine ⟨List.getLast?_concat ..,?_⟩
      simp only [AsyncPc.segmentsLeft, hmark.mp hf, hiov]
      rfl

theorem IoStep.frees {p : Params} {s s' : IoSystem} {op : IoOp} (h : s.Steady)
    (hio : IoStep p s op s') : ∀ t ∈ s.driver.queued, s'.driver.frees t = s.driver.frees t := by
  intro t ht
  simp only [Driver.frees]
  cases hio with
  | serviced wb reads hop hcall => rw [(opStep_ended h.sound hcall).kept.completes t ht]
  | queued i x data hop hpc hcall => rw [(opStep_accepted h.sound hcall).kept.completes t ht]
  | submitted j x seg iov hop hpc hcall => rw [(opStep_accepted h.sound hcall).kept.completes t ht]
  | left i u rc status hop hpc hdriver => rw [hdriver, (leaveTransfer_work _ _ _ _).1]
  | passed value hop hdriver => rw [hdriver, (writtenBack_kept _ _).completes t ht]

theorem AsyncCall.Single.step {p : Params} {s s' : IoSystem} {op : IoOp} {j : Nat} (h : s.Steady)
    (hj : (s.requests j).Single s.driver) (hstep : ioNext p s op = some s') :
    (s'.requests j).Single s'.driver := by
  have hio := ioNext_step h.notCyclic hstep
  have hf : ∀ t ∈ (s.requests j).queued, s'.driver.frees t = s.driver.frees t := fun t ht =>
    hio.frees h t (h.mine j t ht).1
  cases ioNext_request hstep j with
  | same hsame =>
    rw [hsame]
    exact hj.goOn hf (Nat.le_refl _)
  | segment alignment r iov queued hop hpc hnext =>
    rw [hpc] at hj hf
    rw [hnext]
    exact hj.goOn hf (segmentNext_left _ _ _ _)
  | create kernel r seg iov pc queued hop hpc hchunk hnext =>
    rw [hpc] at hj hf
    rw [hnext]
    exact hj.goOn hf (Nat.le_of_eq (chunkNext_left hchunk))
  | queue r x seg iov rc queued hop hpc hcall hnext =>
    have ha := opStep_accepted h.sound (p := p) ⟨rc,hcall⟩
    have hfits := h.made.requests j
    have hmine := fun t ht => (h.mine j t ht).1
    rw [hpc] at hj hfits hmine
    rw [hnext]
    exact hj.queue h.sound hfits hmine ha

theorem mem_front {front back all : List TransferId} {t u : TransferId}
    (hall : all.Pairwise (· < ·)) (hcut : all = front ++ back) (ht : t ∈ front) (hu : u ∈ all)
    (hle : u ≤ t) : u ∈ front := by
  subst hcut
  rcases List.mem_append.mp hu with hu | hu
  · exact hu
  · have hlt := (List.pairwise_append.mp hall).2.2 t ht u hu
    exact absurd hle (Nat.not_le_of_lt hlt)

theorem Sound.listSorted {d : Driver} (hd : Sound d) : d.engine.transferList.Pairwise (· < ·) := by
  have hsorted : d.queued.Pairwise (· < ·) := by
    rw [hd.ids]
    exact List.pairwise_lt_range
  rw [hd.order] at hsorted
  exact (List.pairwise_append.mp hsorted).2.1

theorem le_getLast {all : List TransferId} {t u : TransferId} (hall : all.Pairwise (· < ·))
    (hlast : all.getLast? = some t) (hu : u ∈ all) : u ≤ t := by
  obtain ⟨front,rfl⟩ := List.getLast?_eq_some_iff.mp hlast
  rcases List.mem_append.mp hu with hu | hu
  · exact Nat.le_of_lt ((List.pairwise_append.mp hall).2.2 u hu t (List.mem_singleton_self _))
  · rw [List.mem_singleton.mp hu]

theorem keepsWord_single {p : Params} {s₀ s s' : IoSystem} {ops : List IoOp} {op : IoOp} {j : Nat}
    (h₀ : s₀.Starting) (hone : (s₀.requests j).pc.segmentsLeft ≤ 1)
    (r : Run (stepOf (ioNext p)) anyStep s₀ ops s) (hstep : ioNext p s op = some s') :
    keepsWord j s op ↔ ∀ w ∈ s.services op, ∀ t ∈ (s.requests j).queued,
      s.driver.failsOn w.1 w.2 ≠ some t := by
  have hsingle : (s₀.requests j).Single s₀.driver := by
    obtain ⟨req,iov,_,hj⟩ := h₀.requests j
    rw [hj] at hone ⊢
    exact ⟨hone,List.Pairwise.nil,fun t ht => by cases ht⟩
  obtain ⟨h,hj⟩ := r.invariant (fun s => s.Steady ∧ (s.requests j).Single s.driver)
    ⟨h₀.steady,hsingle⟩ fun _ _ _ hs _ hnext => ⟨hs.1.step hnext,hs.2.step hs.1 hnext⟩
  refine ⟨fun hw w hop => (hw.2 w hop).1,fun hfails => ⟨?_,fun w hop => ⟨hfails w hop,?_⟩⟩⟩
  · -- with a transfer still to queue none that is marked has been queued
    rintro rfl
    by_contra hne
    obtain ⟨v,hv⟩ := List.exists_mem_of_ne_nil _ hne
    obtain ⟨t,ht,_,c,hc,_⟩ := (mem_completions h).mp hv
    have hfrees : s.driver.frees t = true := by
      rw [Driver.frees, hc]
      rfl
    have hleft := (hj.last t ht hfrees).2
    simp only [ioNext] at hstep
    split at hstep
    · rename_i req x seg iov queued hpc
      have hfits := h.made.requests j
      rw [hpc] at hfits hleft
      simp only [AsyncPc.segmentsLeft, if_pos hfits.1.1] at hleft
      omega
    · cases hstep
  · intro t ht hoff hfrees u hu hlist
    have hle := le_getLast hj.sorted (hj.last t ht hfrees).1 hu
    have hcut : ∃ back, s.driver.engine.transferList = s.driver.takesOff w.1 w.2 ++ back := by
      obtain ⟨wb,reads⟩ := w
      cases ioNext_step h.notCyclic hstep with
      | serviced wb' reads' hop' hcall =>
        cases hop.symm.trans hop'
        exact ⟨_,(opStep_ended h.sound hcall).list⟩
      | queued i x data hop' =>
        subst hop'
        cases hop
      | submitted k x seg iov hop' =>
        subst hop'
        cases hop
      | left i v rc status hop' =>
        subst hop'
        cases hop
      | passed value hop' =>
        rw [(passes_services hop').1] at hop
        cases hop
    obtain ⟨back,hcut⟩ := hcut
    exact mem_front h.sound.listSorted hcut hoff hlist hle

def IoSystem.asked : List IoOp :=
  [.segment 0 ⟨1,1⟩,.create 0 (.ample fun page => BitVec.ofNat 64 (page*pageSize)),.queue 0]

theorem sgAioReadWrite_reported_page : (replay (ioNext ⟨false,false⟩) .pages
    (IoSystem.asked ++ [.call (.interrupt ⟨⟨0,1⟩,[]⟩)])).Reported 0 := by
  have hquiet : Run (stepOf (ioNext ⟨false,false⟩)) (keepsWord 0) .pages
      [.segment 0 ⟨1,1⟩,.create 0 (.ample fun page => BitVec.ofNat 64 (page*pageSize))] _ :=
    (replay_run (by decide +kernel)).labels (by simp [keepsWord, IoSystem.services])
  have hqueue := hquiet.snoc (i := .queue 0) ⟨fun _ => by decide +kernel,by simp [IoSystem.services]⟩
    (replay_step (by decide +kernel))
  have hdone := hqueue.snoc (i := .call (.interrupt ⟨⟨0,1⟩,[]⟩))
    ⟨fun h => (by cases h),fun w hw => by cases hw; decide +kernel⟩ (replay_step (by decide +kernel))
  have hrun : Run (stepOf (ioNext ⟨false,false⟩)) anyStep .pages
    (IoSystem.asked ++ [.call (.interrupt ⟨⟨0,1⟩,[]⟩)]) _ := replay_run (by decide +kernel)
  refine (sgAioReadWrite_reported starting_ioPages 0 hrun).mpr ?_ _ _ (List.prefix_refl _) hrun
  exact hdone

/-- The engine stops with no descriptor done, and a whole page is reported. -/
theorem sgAioReadWrite_reported_not : ¬ ∀ (p : Params) (s₀ s : IoSystem) (ops : List IoOp) (j : Nat),
    s₀.Starting → Run (stepOf (ioNext p)) anyStep s₀ ops s → s.Reported j := by
  intro hall
  let ops := IoSystem.asked ++ [.call (.interrupt ⟨⟨0,0⟩,[]⟩)]
  obtain ⟨s,hs⟩ : ∃ s, s = replay (ioNext ⟨false,false⟩) .pages ops := ⟨_,rfl⟩
  have hrun : Run (stepOf (ioNext ⟨false,false⟩)) anyStep .pages ops s := by
    rw [hs]
    exact replay_run (by decide +kernel)
  have hstate : 0 ∈ (s.requests 0).queued ∧ s.driver.state 0 = .failed := by
    rw [hs]
    decide +kernel
  have hsteady := hrun.invariant IoSystem.Steady starting_ioPages.steady
    fun _ _ _ h _ hstep => h.step hstep
  obtain ⟨v,hv,hneg⟩ := (hall _ _ _ _ 0 starting_ioPages hrun).failed 0 hstate.1 hstate.2
  have hpos := completions_nonneg hsteady hv
  omega

end DmaCamera
