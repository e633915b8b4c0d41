import DmaCamera.RequestSystem
set_option autoImplicit false

namespace DmaCamera
open Countdown Runs

theorem transferCreate_unasked {k : Platform} {start cnt : Nat} {ep : U64} {m : BuildMode}
    {x : XdmaTransfer} (h : transferCreate k start cnt ep m = .ok (some x)) :
    x.iocb = none ∧ x.lastInRequest = false := by
  obtain ⟨sgm,nents,bus,d,d',last,rfl,_⟩ := transferCreate_some h
  exact ⟨rfl,rfl⟩

theorem markLast_completes {x : XdmaTransfer} (s : DataState) (h : x.iocb = none) :
    (markLast x s).completes = none := by
  have hiocb : (markLast x s).iocb = none := by
    unfold markLast
    split <;> exact h
  simp [XdmaTransfer.completes, XdmaTransfer.asyncLast, hiocb]

theorem mark_completes {x : XdmaTransfer} (r : AsyncRequest) (seg : SegState)
    (hlast : x.lastInRequest = false) (hmore : 0 < seg.remaining) :
    (r.mark seg x).completes =
      if seg.next.remaining = 0 then some (r.iocb,seg.done+seg.remaining) else none := by
  have hlen := chunkLength_bounds hmore
  have hnext : seg.next.remaining = seg.remaining-chunkLength seg.remaining := rfl
  by_cases hend : chunkLength seg.remaining ≥ seg.remaining
  · have heq : chunkLength seg.remaining = seg.remaining := Nat.le_antisymm hlen.2.2 hend
    rw [if_pos (by omega)]
    simp [AsyncRequest.mark, XdmaTransfer.completes, XdmaTransfer.asyncLast, heq]
  · rw [if_neg (by omega)]
    simp [AsyncRequest.mark, XdmaTransfer.completes, XdmaTransfer.asyncLast, hend, hlast]

theorem PlainTransfer.of?_some {x : XdmaTransfer} {y : PlainTransfer}
    (h : PlainTransfer.of? x = some y) : y.transfer = x := by
  unfold PlainTransfer.of? at h
  split at h
  · cases h
    rfl
  · cases h

def AsyncPc.Fits : AsyncPc → Prop
  | .segments iov => ∀ v ∈ iov, v.iovLen < 2^63
  | .chunk seg iov => seg.done+seg.remaining < 2^63 ∧ ∀ v ∈ iov, v.iovLen < 2^63
  | .created x seg iov => (0 < seg.remaining ∧ seg.done+seg.remaining < 2^63 ∧
      (x.transfer.completes.isSome = true ↔ seg.next.remaining = 0) ∧
      ∀ c ∈ x.transfer.completes, c.2 < 2^63) ∧ ∀ v ∈ iov, v.iovLen < 2^63
  | .returned _ => True

/-- The transfers that wait to be queued are marked as their calls mark them. -/
structure IoSystem.Made (s : IoSystem) : Prop where
  callers : ∀ i x data, s.data.callers i = ⟨.created x,data⟩ → x.transfer.completes = none
  requests : ∀ j, (s.requests j).pc.Fits

theorem IoSystem.Starting.made {s : IoSystem} (h : s.Starting) : s.Made := by
  refine ⟨fun i x data hi => ?_,fun j => ?_⟩
  · obtain ⟨addr,count,pos,hc⟩ := h.data.callers i
    rw [hc] at hi
    cases hi
  · obtain ⟨r,iov,hlen,hj⟩ := h.requests j
    rw [hj]
    exact hlen

theorem setCaller_created {s : DataSystem} {d : Driver} {i k : Nat} {c : Caller} {x : PlainTransfer}
    {data : DataState} (h : (s.setCaller d i c).callers k = ⟨.created x,data⟩) :
    c = ⟨.created x,data⟩ ∨ s.callers k = ⟨.created x,data⟩ := by
  by_cases hk : k = i
  · subst k
    simp only [DataSystem.setCaller, Function.update_self] at h
    exact Or.inl h
  · simp only [DataSystem.setCaller, Function.update_of_ne hk] at h
    exact Or.inr h

theorem createNext_created {s s' : DataSystem} {i k : Nat} {data : DataState} {kernel : Platform}
    {x : PlainTransfer} {data' : DataState} (h : createNext s i data kernel = some s')
    (hk : s'.callers k = ⟨.created x,data'⟩) :
    s.callers k = ⟨.created x,data'⟩ ∨ x.transfer.completes = none := by
  unfold createNext at h
  split at h
  · split at h
    · cases h
    · cases h
      rcases setCaller_created hk with hc | hc
      · cases hc
      · exact Or.inl hc
    · rename_i x₀ hcreate
      obtain ⟨x',hx',rfl⟩ := Option.map_eq_some_iff.mp h
      rcases setCaller_created hk with hc | hc
      · cases hc
        rw [PlainTransfer.of?_some hx']
        exact Or.inr (markLast_completes data (transferCreate_unasked hcreate).1)
      · exact Or.inl hc
  · cases h
    rcases setCaller_created hk with hc | hc
    · cases hc
    · exact Or.inl hc

theorem dataNext_created {p : Params} {s s' : DataSystem} {op : DataOp} {k : Nat} {x : PlainTransfer}
    {data : DataState} (h : dataNext p s op = some s') (hk : s'.callers k = ⟨.created x,data⟩) :
    s.callers k = ⟨.created x,data⟩ ∨ x.transfer.completes = none := by
  cases op with
  | create i kernel =>
    simp only [dataNext] at h
    split at h
    · exact createNext_created h hk
    · cases h
  | poll i timeout =>
    simp only [dataNext] at h
    split at h
    · obtain ⟨descWb,_,rfl⟩ := Option.map_eq_some_iff.mp h
      rcases setCaller_created hk with hc | hc
      · cases hc
      · exact Or.inl hc
    · cases h
  | monitor i =>
    simp only [dataNext] at h
    split at h
    · split at h
      · cases h
        rcases setCaller_created hk with hc | hc
        · have hpc := congrArg Caller.pc hc
          split at hpc <;> cases hpc
        · exact Or.inl hc
      · cases h
    · cases h
  | writeBack value =>
    cases h
    exact Or.inl hk
  | interrupt o =>
    simp only [dataNext] at h
    repeat' split at h
    all_goals cases h
    exact Or.inl hk
  | _ i =>
    simp only [dataNext] at h
    split at h
    · repeat' split at h
      all_goals cases h
      all_goals
        rcases setCaller_created hk with hc | hc
        · cases hc
        · exact Or.inl hc
    · cases h

theorem segmentNext_fits {e : Engine} {a : Alignment} {r : AsyncRequest} {iov : List Iovec}
    (h : ∀ v ∈ iov, v.iovLen < 2^63) : (segmentNext e a r iov).Fits := by
  cases iov with
  | nil => trivial
  | cons v iov =>
    unfold segmentNext
    simp only
    split
    · trivial
    · refine ⟨?_,fun w hw => h w (List.mem_cons_of_mem _ hw)⟩
      rw [Nat.zero_add]
      exact h v (List.mem_cons_self ..)

theorem chunkNext_fits {kernel : Platform} {r : AsyncRequest} {seg : SegState} {iov : List Iovec}
    {pc : AsyncPc} (hfits : (AsyncPc.chunk seg iov).Fits) (h : chunkNext kernel r seg iov = some pc) :
    pc.Fits := by
  obtain ⟨hlen,hiov⟩ := hfits
  unfold chunkNext at h
  split at h
  · rename_i hmore
    split at h
    · rename_i x hrun
      obtain ⟨x',hx',rfl⟩ := Option.map_eq_some_iff.mp h
      have hmark := mark_completes r seg (transferCreate_unasked hrun).2 hmore
      refine ⟨⟨hmore,hlen,?_,?_⟩,hiov⟩
      · rw [PlainTransfer.of?_some hx', hmark]
        split <;> simp [*]
      · intro c hc
        rw [PlainTransfer.of?_some hx', hmark] at hc
        split at hc
        · cases hc
          exact hlen
        · cases hc
    · cases h
  · cases h
    exact hiov

theorem SegState.next_fits {seg : SegState} (hmore : 0 < seg.remaining)
    (h : seg.done+seg.remaining < 2^63) : seg.next.done+seg.next.remaining < 2^63 := by
  have hlen := chunkLength_bounds hmore
  simp only [SegState.next]
  omega

theorem IoSystem.Made.step {p : Params} {s s' : IoSystem} {op : IoOp} (h : s.Made)
    (hstep : ioNext p s op = some s') : s'.Made := by
  refine ⟨fun i x data hi => ?_,fun j => ?_⟩
  · cases op with
    | call op =>
      obtain ⟨t,ht,rfl⟩ := Option.map_eq_some_iff.mp hstep
      rcases dataNext_created ht hi with hold | hnew
      · exact h.callers i x data hold
      · exact hnew
    | segment j alignment | create j kernel | queue j =>
      rw [ioNext_callers hstep (by simp)] at hi
      exact h.callers i x data hi
  · have hj := h.requests j
    cases ioNext_request hstep j with
    | same hsame =>
      rw [hsame]
      exact hj
    | segment alignment r iov queued hop hpc hnext =>
      rw [hpc] at hj
      rw [hnext]
      exact segmentNext_fits hj
    | create kernel r seg iov pc queued hop hpc hchunk hnext =>
      rw [hpc] at hj
      rw [hnext]
      exact chunkNext_fits hj hchunk
    | queue r x seg iov rc queued hop hpc hcall hnext =>
      rw [hpc] at hj
      rw [hnext]
      obtain ⟨⟨hmore,hlen,_⟩,hiov⟩ := hj
      exact ⟨SegState.next_fits hmore hlen,hiov⟩

structure IoSystem.Steady (s : IoSystem) : Prop where
  made : s.Made
  sound : Sound s.driver
  notCyclic : s.driver.engine.rxTransferCyclic = none
  owned : ∀ i t, s.own i = some t →
    t ∈ s.driver.queued ∧ (s.driver.transfers t).completes = none
  sole : ∀ i k t, s.own i = some t → s.own k = some t → i = k
  mine : ∀ j, ∀ t ∈ (s.requests j).queued, t ∈ s.driver.queued ∧
    ∀ c ∈ (s.driver.transfers t).completes, c.2 < 2^63
  told : ∀ n ∈ s.driver.notices, n.transfer ∈ s.driver.queued ∧
    n.completes = (s.driver.transfers n.transfer).completes
  freed : ∀ t ∈ s.driver.destroyed, t ∈ s.driver.queued
  settled : ∀ t ∈ s.driver.queued, s.driver.state t ≠ .new

theorem IoSystem.Starting.steady {s : IoSystem} (h : s.Starting) : s.Steady := by
  have hf := h.data.fresh
  have hq : s.driver.queued = [] := hf.queued
  have hn : s.driver.notices = [] := hf.notices
  have hown : ∀ i, s.own i = none := by
    intro i
    obtain ⟨addr,count,pos,hc⟩ := h.data.callers i
    rw [IoSystem.own, hc]
    rfl
  refine ⟨h.made,hf.sound,h.data.notCyclic,?_,?_,?_,?_,?_,?_⟩
  · intro i t ht
    rw [hown i] at ht
    cases ht
  · intro i k t ht
    rw [hown i] at ht
    cases ht
  · intro j t ht
    obtain ⟨r,iov,_,hj⟩ := h.requests j
    rw [hj] at ht
    cases ht
  · simp [hn]
  · simp [h.freed]
  · simp [hq]

structure Kept (d d' : Driver) : Prop where
  queued : ∀ t ∈ d.queued, t ∈ d'.queued
  completes : ∀ t ∈ d.queued, (d'.transfers t).completes = (d.transfers t).completes

theorem writtenBack_kept (d : Driver) (value : U32) : Kept d (d.writtenBack value) :=
  ⟨fun _ => id,fun _ _ => rfl⟩

theorem Ended.kept {d d' : Driver} {wb : U32} {reads : RegisterReads} (h : Ended d wb reads d') :
    Kept d d' := ⟨fun _ ht => h.queued ▸ ht,fun t _ => h.completed.completes t⟩

structure Accepted (d : Driver) (x : PlainTransfer) (d' : Driver) : Prop where
  list : d'.engine.transferList = d.engine.transferList ++ [d.queued.length]
  queued : d'.queued = d.queued ++ [d.queued.length]
  notices : d'.notices = d.notices
  destroyed : d'.destroyed = d.destroyed
  new : (d'.transfers d.queued.length).completes = x.transfer.completes
  state : d'.state d.queued.length = .submitted
  old : ∀ t ∈ d.queued, d'.state t = d.state t ∧
    (d'.transfers t).completes = (d.transfers t).completes

theorem opStep_accepted {p : Params} {d d' : Driver} {x : PlainTransfer} (hd : Sound d)
    (h : opStep p d (.queue x) d') : Accepted d x d' := by
  have hq := opStep_queue hd h
  have hdestroyed := (opStep_queue_completed h).destroyed
  refine ⟨hq.same.transferList,hq.queued,hq.notices,?_,?_,?_,fun t ht => ?_⟩
  · rw [hdestroyed]
    exact List.append_nil _
  · rw [hq.new]
    rfl
  · rw [Driver.state, hq.new]
    rfl
  · rw [Driver.state, hq.old (hd.newId ht)]
    exact ⟨rfl,rfl⟩

theorem Accepted.kept {d d' : Driver} {x : PlainTransfer} (h : Accepted d x d') : Kept d d' :=
  ⟨fun _ ht => h.queued ▸ List.mem_append_left _ ht,fun t ht => (h.old t ht).2⟩

theorem Ended.settled {d d' : Driver} {wb : U32} {reads : RegisterReads} (h : Ended d wb reads d')
    {t : TransferId} (ht : d.state t ≠ .new) : d'.state t ≠ .new := by
  rw [h.state]
  split
  · decide
  · split
    · decide
    · exact ht

theorem Ended.told {d d' : Driver} {wb : U32} {reads : RegisterReads} (hd : Sound d)
    (h : Ended d wb reads d') (hold : ∀ n ∈ d.notices, n.transfer ∈ d.queued ∧
      n.completes = (d.transfers n.transfer).completes) :
    ∀ n ∈ d'.notices, n.transfer ∈ d'.queued ∧
      n.completes = (d'.transfers n.transfer).completes := by
  intro n hn
  rw [h.completed.completes, h.queued]
  rw [h.completed.notices] at hn
  rcases List.mem_append.mp hn with hn | hn
  · exact hold n hn
  · obtain ⟨t,ht,rfl⟩ := List.mem_map.mp hn
    rw [told_transfer, told_completes]
    refine ⟨?_,rfl⟩
    rw [hd.order, h.list]
    exact List.mem_append_right _ (List.mem_append_left _ ht)

theorem leaveTransfer_work (d : Driver) (t : TransferId) (rc : Int) (status : U32) :
    (leaveTransfer d t rc status).transfers = d.transfers ∧
      (leaveTransfer d t rc status).queued = d.queued ∧
      (leaveTransfer d t rc status).notices = d.notices ∧
      (leaveTransfer d t rc status).engine.transferList = d.engine.transferList ∧
      (leaveTransfer d t rc status).destroyed =
        d.destroyed ++ if d.state t ≠ .submitted then [t] else [] := by
  unfold leaveTransfer
  split
  · exact ⟨rfl,rfl,rfl,rfl,rfl⟩
  · split <;> exact ⟨rfl,rfl,rfl,rfl,(List.append_nil _).symm⟩

theorem IoSystem.Steady.mineKept {s s' : IoSystem} (h : s.Steady) (hk : Kept s.driver s'.driver)
    (hr : SameRequests s s') : ∀ j, ∀ t ∈ (s'.requests j).queued, t ∈ s'.driver.queued ∧
      ∀ c ∈ (s'.driver.transfers t).completes, c.2 < 2^63 := by
  intro j t ht
  rw [hr j] at ht
  obtain ⟨hq,hc⟩ := h.mine j t ht
  exact ⟨hk.queued t hq,by rw [hk.completes t hq]; exact hc⟩

theorem IoSystem.Steady.ownedKept {s s' : IoSystem} (h : s.Steady) (hk : Kept s.driver s'.driver)
    {i : Nat} {t : TransferId} (ht : s.own i = some t) :
    t ∈ s'.driver.queued ∧ (s'.driver.transfers t).completes = none := by
  obtain ⟨hq,hc⟩ := h.owned i t ht
  exact ⟨hk.queued t hq,by rw [hk.completes t hq]; exact hc⟩

theorem IoStep.sound {p : Params} {s s' : IoSystem} {op : IoOp} (h : IoStep p s op s')
    (hd : Sound s.driver) (hc : s.driver.engine.rxTransferCyclic = none) :
    Sound s'.driver ∧ s'.driver.engine.rxTransferCyclic = none := by
  cases h with
  | serviced wb reads hop hstep => exact ⟨hd.step hstep,(opStep_later hd hstep).2.trans hc⟩
  | queued i x data hop hpc hstep => exact ⟨hd.step hstep,(opStep_later hd hstep).2.trans hc⟩
  | submitted j x seg iov hop hpc hstep => exact ⟨hd.step hstep,(opStep_later hd hstep).2.trans hc⟩
  | left i t rc status hop hpc hdriver =>
    obtain ⟨hs,_,hrx⟩ := leaveTransfer_sound hd t rc status
    rw [hdriver]
    exact ⟨hs,hrx.trans hc⟩
  | passed value hop hdriver =>
    rw [hdriver]
    exact ⟨⟨hd.order,hd.ids,hd.plain,hd.nonempty,hd.shutdown,hd.listed,hd.settled,hd.known,
      hd.behind,hd.idle,hd.progress,hd.notified⟩,hc⟩

theorem IoSystem.Steady.serviced {s s' : IoSystem} (h : s.Steady) {wb : U32} {reads : RegisterReads}
    (hended : Ended s.driver wb reads s'.driver) (hown : s'.own = s.own) (hr : SameRequests s s')
    (hmade : s'.Made) (hsound : Sound s'.driver)
    (hc : s'.driver.engine.rxTransferCyclic = none) : s'.Steady := by
  have hk := hended.kept
  refine ⟨hmade,hsound,hc,?_,?_,h.mineKept hk hr,hended.told h.sound h.told,?_,?_⟩
  · rw [hown]
    exact fun i t => h.ownedKept hk
  · rw [hown]
    exact h.sole
  · intro t ht
    rw [hended.completed.destroyed] at ht
    rcases List.mem_append.mp ht with ht | ht
    · exact hk.queued t (h.freed t ht)
    · have hoff := (List.mem_filter.mp ht).1
      rw [hended.queued, h.sound.order, hended.list]
      exact List.mem_append_right _ (List.mem_append_left _ hoff)
  · intro t ht
    rw [hended.queued] at ht
    exact hended.settled (h.settled t ht)

theorem IoSystem.Steady.accepted {s s' : IoSystem} (h : s.Steady) {x : PlainTransfer}
    (ha : Accepted s.driver x s'.driver) :
    (∀ n ∈ s'.driver.notices, n.transfer ∈ s'.driver.queued ∧
      n.completes = (s'.driver.transfers n.transfer).completes) ∧
      (∀ t ∈ s'.driver.destroyed, t ∈ s'.driver.queued) ∧
      ∀ t ∈ s'.driver.queued, s'.driver.state t ≠ .new := by
  refine ⟨fun n hn => ?_,fun t ht => ?_,fun t ht => ?_⟩
  · rw [ha.notices] at hn
    obtain ⟨hq,hc⟩ := h.told n hn
    exact ⟨ha.kept.queued _ hq,by rw [ha.kept.completes _ hq]; exact hc⟩
  · rw [ha.destroyed] at ht
    exact ha.kept.queued t (h.freed t ht)
  · rw [ha.queued] at ht
    rcases List.mem_append.mp ht with ht | ht
    · rw [(ha.old t ht).1]
      exact h.settled t ht
    · rw [List.mem_singleton.mp ht, ha.state]
      decide

theorem IoSystem.Steady.newId {s : IoSystem} (h : s.Steady) {i : Nat} :
    s.own i ≠ some s.driver.queued.length := fun hi =>
  h.sound.newId (h.owned i _ hi).1 rfl

theorem IoSystem.Steady.step {p : Params} {s s' : IoSystem} {op : IoOp} (h : s.Steady)
    (hstep : ioNext p s op = some s') : s'.Steady := by
  have hio := ioNext_step h.notCyclic hstep
  have hmade := h.made.step hstep
  obtain ⟨hsound,hc⟩ := hio.sound h.sound h.notCyclic
  cases hio with
  | serviced wb reads hop hcall hown hr =>
    exact h.serviced (opStep_ended h.sound hcall) hown hr hmade hsound hc
  | queued i x data hop hpc hcall hown hr =>
    have ha := opStep_accepted h.sound hcall
    obtain ⟨htold,hfreed,hsettled⟩ := h.accepted ha
    refine ⟨hmade,hsound,hc,fun k t hk => ?_,fun k l t hk hl => ?_,h.mineKept ha.kept hr,htold,hfreed,
      hsettled⟩
    · rw [hown] at hk
      by_cases hki : k = i
      · rw [hki, Function.update_self] at hk
        cases hk
        refine ⟨?_,ha.new.trans (h.made.callers i x data hpc)⟩
        rw [ha.queued]
        exact List.mem_append_right _ (List.mem_singleton_self _)
      · rw [Function.update_of_ne hki] at hk
        exact h.ownedKept ha.kept hk
    · rw [hown] at hk hl
      by_cases hki : k = i <;> by_cases hli : l = i
      · rw [hki, hli]
      · rw [hki, Function.update_self] at hk
        cases hk
        rw [Function.update_of_ne hli] at hl
        exact absurd hl h.newId
      · rw [hli, Function.update_self] at hl
        cases hl
        rw [Function.update_of_ne hki] at hk
        exact absurd hk h.newId
      · rw [Function.update_of_ne hki] at hk
        rw [Function.update_of_ne hli] at hl
        exact h.sole k l t hk hl
  | submitted j x seg iov hop hpc hcall hown hmine hothers =>
    have ha := opStep_accepted h.sound hcall
    obtain ⟨htold,hfreed,hsettled⟩ := h.accepted ha
    refine ⟨hmade,hsound,hc,?_,?_,fun k t ht => ?_,htold,hfreed,hsettled⟩
    · rw [hown]
      exact fun i t => h.ownedKept ha.kept
    · rw [hown]
      exact h.sole
    · have hkept : t ∈ (s.requests k).queued → t ∈ s'.driver.queued ∧
          ∀ c ∈ (s'.driver.transfers t).completes, c.2 < 2^63 := by
        intro hold
        obtain ⟨hq,hsize⟩ := h.mine k t hold
        exact ⟨ha.kept.queued t hq,by rw [ha.kept.completes t hq]; exact hsize⟩
      by_cases hk : k = j
      · subst k
        rw [hmine] at ht
        rcases List.mem_append.mp ht with ht | ht
        · exact hkept ht
        · have hfits := h.made.requests j
          rw [hpc] at hfits
          rw [List.mem_singleton.mp ht, ha.new, ha.queued]
          exact ⟨List.mem_append_right _ (List.mem_singleton_self _),hfits.1.2.2.2⟩
      · rw [hothers k hk] at ht
        exact hkept ht
  | left i t rc status hop hpc hdriver hown hr =>
    obtain ⟨htr,hq,hn,_,hd⟩ := leaveTransfer_work s.driver t rc status
    rw [← hdriver] at htr hq hn hd
    have hk : Kept s.driver s'.driver := ⟨fun v hv => by rw [hq]; exact hv,fun v _ => by rw [htr]⟩
    have hti : s.own i = some t := by
      rw [IoSystem.own, hpc]
      rfl
    have hstate : s'.driver.state = s.driver.state := by
      funext v
      rw [Driver.state, htr, Driver.state]
    refine ⟨hmade,hsound,hc,fun k u hu => ?_,fun k l u hk' hl => ?_,h.mineKept hk hr,?_,
      fun u hu => ?_,?_⟩
    · rw [hown] at hu
      by_cases hki : k = i
      · rw [hki, Function.update_self] at hu
        cases hu
      · rw [Function.update_of_ne hki] at hu
        exact h.ownedKept hk hu
    · rw [hown] at hk' hl
      by_cases hki : k = i
      · rw [hki, Function.update_self] at hk'
        cases hk'
      · by_cases hli : l = i
        · rw [hli, Function.update_self] at hl
          cases hl
        · rw [Function.update_of_ne hki] at hk'
          rw [Function.update_of_ne hli] at hl
          exact h.sole k l u hk' hl
    · rw [hn, htr, hq]
      exact h.told
    · rw [hd] at hu
      rw [hq]
      rcases List.mem_append.mp hu with hu | hu
      · exact h.freed u hu
      · split at hu
        · rw [List.mem_singleton.mp hu]
          exact (h.owned i t hti).1
        · cases hu
    · rw [hstate, hq]
      exact h.settled
  | passed value hop hdriver hown hr =>
    have hk : Kept s.driver s'.driver := by
      rw [hdriver]
      exact writtenBack_kept _ _
    refine ⟨hmade,hsound,hc,?_,?_,h.mineKept hk hr,?_,?_,?_⟩
    · rw [hown]
      exact fun i t => h.ownedKept hk
    · rw [hown]
      exact h.sole
    · rw [hdriver]
      exact h.told
    · rw [hdriver]
      exact h.freed
    · rw [hdriver]
      exact h.settled

def IoSystem.pages : IoSystem where
  data := ⟨.created ⟨false,false⟩,fun i => ⟨.loop,⟨0,0,i*pageSize,pageSize,0,[]⟩⟩⟩
  requests j := ⟨⟨j,0,false⟩,.segments [⟨0x10000,4096,by decide⟩],[]⟩

theorem starting_ioPages : IoSystem.pages.Starting :=
  ⟨⟨fresh_created _,rfl,fun _ => ⟨_,_,_,rfl⟩⟩,rfl,fun _ => ⟨_,_,by decide,rfl⟩⟩

end DmaCamera
