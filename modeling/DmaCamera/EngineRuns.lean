import DmaCamera.EngineSpec
import DmaCamera.Library.Runs
set_option autoImplicit false

namespace DmaCamera
open Countdown Runs

structure PlainTransfer where
  transfer : XdmaTransfer
  plain : transfer.cyclic = false
  nonempty : 1 ≤ transfer.descNum
  small : transfer.descNum < 2^31

def PlainTransfer.ofLength (n : Nat) (h₁ : 1 ≤ n) (h₂ : n < 2^31) : PlainTransfer :=
  ⟨{ XdmaTransfer.zero with descNum := n, descAdjacent := n },rfl,h₁,h₂⟩

def PlainTransfer.one : PlainTransfer := .ofLength 1 (by decide) (by decide)

def PlainTransfer.two : PlainTransfer := .ofLength 2 (by decide) (by decide)

def PlainTransfer.three : PlainTransfer := .ofLength 3 (by decide) (by decide)

inductive EngineOp where
  | queue (x : PlainTransfer)
  | service (descWriteback : U32) (reads : RegisterReads)

/-- A new transfer object in memory; its identity is one never used before. -/
def Driver.submit (d : Driver) (x : PlainTransfer) : Driver :=
  { d with transfers := Function.update d.transfers d.queued.length x.transfer }

def applyOp (p : Params) (d : Driver) : EngineOp → Except Fault (Driver × Int)
  | .queue x => transferQueue p (d.submit x) d.queued.length
  | .service descWriteback reads => engineService p d descWriteback reads

def opStep (p : Params) (d : Driver) (op : EngineOp) (d' : Driver) : Prop :=
  ∃ rc, applyOp p d op = .ok (d',rc)

def opNext (p : Params) (d : Driver) (op : EngineOp) : Option Driver :=
  match applyOp p d op with
  | .ok (d',_) => some d'
  | .error _ => none

theorem opNext_step (p : Params) (d : Driver) (op : EngineOp) (d' : Driver)
    (h : opNext p d op = some d') : opStep p d op d' := by
  unfold opNext at h
  split at h
  · rename_i rc hok
    cases h
    exact ⟨rc,hok⟩
  · cases h

def Driver.after (p : Params) : Driver → List EngineOp → Driver := replay (opNext p)

theorem opStep_after {p : Params} {d : Driver} {op : EngineOp}
    (h : (opNext p d op).isSome = true) : opStep p d op (d.after p [op]) :=
  takes_step (opNext_step p) h

theorem run_after {p : Params} {d : Driver} {ops : List EngineOp}
    (h : takes (opNext p) d ops = true) : Run (opStep p) anyStep d ops (d.after p ops) :=
  takes_run (opNext_step p) h

structure Fresh (d : Driver) : Prop where
  running : d.engine.running = false
  list : d.engine.transferList = []
  shutdown : d.engine.shutdown = engineShutdownNone
  queued : d.queued = []
  started : d.started = []
  removed : d.removed = []
  notices : d.notices = []

/-- A driver with a memory-mapped engine to the device, as created. -/
def Driver.created (p : Params) : Driver := .withEngine (engineCreate p 0 false true) fun _ => .zero

theorem fresh_created (p : Params) : Fresh (.created p) := ⟨rfl,rfl,rfl,rfl,rfl,rfl,rfl⟩

/-- What holds of an engine whatever the hardware returns. -/
structure Sound (d : Driver) : Prop where
  order : d.queued = d.removed ++ d.engine.transferList
  ids : d.queued = List.range d.queued.length
  plain : ∀ t ∈ d.queued, (d.transfers t).cyclic = false
  nonempty : ∀ t ∈ d.queued, 1 ≤ d.need t
  shutdown : d.engine.shutdown.has engineShutdownRequest = false
  listed : ∀ t ∈ d.engine.transferList, d.state t ≠ .completed
  settled : ∀ t ∈ d.removed, d.state t ≠ .submitted
  known : ∀ t ∈ d.started, t ∈ d.queued
  behind : ∀ t ∈ d.engine.transferList.tail, t ∉ d.started
  idle : d.engine.running = false → d.engine.transferList = []
  /-- Either nothing has been dequeued since the last start, or at least what
  was started then. -/
  progress : d.engine.running = true → ∃ t, d.started.getLast? = some t ∧
    ((d.engine.descDequeued = 0 ∧ d.engine.transferList.head? = some t) ∨
      d.need t ≤ d.engine.descDequeued)
  notified : d.notices.map Notice.transfer = d.removed

theorem Fresh.sound {d : Driver} (h : Fresh d) : Sound d where
  order := by rw [h.queued, h.removed, h.list]; rfl
  ids := by rw [h.queued]; rfl
  plain := by simp [h.queued]
  nonempty := by simp [h.queued]
  shutdown := by rw [h.shutdown]; decide
  listed := by simp [h.list]
  settled := by simp [h.removed]
  known := by simp [h.started]
  behind := by simp [h.list]
  idle _ := h.list
  progress hr := by simp [h.running] at hr
  notified := by rw [h.notices, h.removed]; rfl

theorem Sound.nodup {d : Driver} (h : Sound d) : d.queued.Nodup := by
  rw [h.ids]
  exact List.nodup_range

theorem Sound.listNodup {d : Driver} (h : Sound d) : d.engine.transferList.Nodup := by
  have hn := h.nodup
  rw [h.order] at hn
  exact hn.of_append_right

theorem Sound.notListed {d : Driver} (h : Sound d) {t : TransferId} (ht : t ∈ d.removed) :
    t ∉ d.engine.transferList := by
  have hn := h.nodup
  rw [h.order, List.nodup_append] at hn
  exact fun hl => hn.2.2 t ht t hl rfl

theorem Sound.listPlain {d : Driver} (h : Sound d) :
    ∀ t ∈ d.engine.transferList, (d.transfers t).cyclic = false := fun t ht =>
  h.plain t (by rw [h.order]; exact List.mem_append_right _ ht)

theorem Sound.newId {d : Driver} (h : Sound d) {t : TransferId} (ht : t ∈ d.queued) :
    t ≠ d.queued.length := by
  rw [h.ids] at ht
  exact Nat.ne_of_lt (List.mem_range.mp ht)

theorem opStep_queue {p : Params} {d d' : Driver} {x : PlainTransfer} (hd : Sound d)
    (h : opStep p d (.queue x) d') : Queued (d.submit x) d.queued.length d' := by
  obtain ⟨rc,h⟩ := h
  have hnum : ((d.submit x).transfers d.queued.length).descNum ≠ 0 := by
    have hx := x.nonempty
    simp only [Driver.submit, Function.update_self]
    omega
  obtain ⟨d₁,hok,hq⟩ := transferQueue_spec (p := p) hnum hd.shutdown
  rw [applyOp, hok] at h
  cases h
  exact hq

theorem opStep_service {p : Params} {d d' : Driver} {wb : U32} {reads : RegisterReads} (hd : Sound d)
    (h : opStep p d (.service wb reads) d') :
    (d.engine.running = false ∧
        d' = d.withStatus (if wb = 0 then reads.status else d.engine.status)) ∨
      (d.engine.running = true ∧ ∃ gone t rest left,
        split d.need d.engine.transferList (pendingCount d.engine (serviceCount wb reads)) =
          (gone,t :: rest,left) ∧ Serviced d wb reads gone t rest left d') := by
  obtain ⟨rc,h⟩ := h
  rw [applyOp] at h
  rcases Bool.eq_false_or_eq_true d.engine.running with hrun | hrun
  · obtain ⟨r,hr⟩ : ∃ r, r =
        split d.need d.engine.transferList (pendingCount d.engine (serviceCount wb reads)) := ⟨_,rfl⟩
    obtain ⟨gone,stop,left⟩ := r
    cases stop with
    | nil =>
      obtain ⟨site,hbug⟩ := engineService_bug (p := p) hrun hd.listPlain (by rw [← hr])
      rw [hbug] at h
      cases h
    | cons t rest =>
      obtain ⟨d₁,hok,hs⟩ := engineService_spec (p := p) hrun hd.listPlain hd.shutdown hr.symm
      rw [hok] at h
      cases h
      exact Or.inr ⟨hrun,gone,t,rest,left,hr.symm,hs⟩
  · rw [engineService_idle hrun] at h
    cases h
    exact Or.inl ⟨hrun,rfl⟩

theorem opStep_queue_returns {p : Params} {d : Driver} (hd : Sound d) (x : PlainTransfer) :
    ∃ d', opStep p d (.queue x) d' := by
  have hnum : ((d.submit x).transfers d.queued.length).descNum ≠ 0 := by
    have hx := x.nonempty
    simp only [Driver.submit, Function.update_self]
    omega
  obtain ⟨d',hok,_⟩ := transferQueue_spec (p := p) hnum hd.shutdown
  exact ⟨d',0,hok⟩

def Driver.first (p : Params) (x : PlainTransfer) : Driver := (Driver.created p).after p [.queue x]

theorem first_step (p : Params) (x : PlainTransfer) :
    opStep p (.created p) (.queue x) (.first p x) := by
  obtain ⟨d,rc,h⟩ := opStep_queue_returns (p := p) (fresh_created p).sound x
  exact opStep_after (by rw [opNext, h]; rfl)

theorem first_run (p : Params) (x : PlainTransfer) :
    Run (opStep p) anyStep (.created p) [.queue x] (.first p x) :=
  Run.single trivial (first_step p x)

section serviced

variable {d d' : Driver} {wb : U32} {reads : RegisterReads} {gone rest : List TransferId}
  {t : TransferId} {left : Nat} (h : Serviced d wb reads gone t rest left d')
include h

theorem Serviced.need : d'.need = d.need := by
  funext v
  rw [Driver.need, h.transfers, settle_descNum, settle_descNum]
  rfl

theorem Serviced.plain (v : TransferId) : (d'.transfers v).cyclic = (d.transfers v).cyclic := by
  rw [h.transfers, settle_cyclic, settle_cyclic]

theorem Serviced.state_final : d'.state t = finalState (d.faulty wb reads) left (d.need t) := by
  rw [Driver.state, h.transfers, settle_mem (List.mem_singleton.mpr rfl), inState_state]

theorem Serviced.state_gone {v : TransferId} (hv : v ∈ gone) (hne : v ≠ t) :
    d'.state v = .completed := by
  rw [Driver.state, h.transfers, settle_notMem (by simpa using hne), settle_mem hv, inState_state]

theorem Serviced.state_other {v : TransferId} (hv : v ∉ gone) (hne : v ≠ t) :
    d'.state v = d.state v := by
  rw [Driver.state, h.transfers, settle_notMem (by simpa using hne), settle_notMem hv, Driver.state]

theorem Serviced.started_sub {v : TransferId} (hv : v ∈ d'.started) :
    v ∈ d.started ∨ v ∈ d'.engine.transferList.head?.toList := by
  rw [h.started] at hv
  rcases List.mem_append.mp hv with hv | hv
  · exact Or.inl hv
  · cases hstop : d.stops wb reads with
    | true => exact Or.inr (by simpa [hstop] using hv)
    | false => simp [hstop] at hv

theorem Serviced.started_keep {v : TransferId} (hv : v ∈ d.started) : v ∈ d'.started := by
  rw [h.started]
  exact List.mem_append_left _ hv

end serviced

theorem finalState_settled (faulty : Bool) (left need : Nat) :
    finalState faulty left need ≠ .submitted := by
  unfold finalState
  split
  · decide
  · split <;> decide

theorem Queued.new {d d' : Driver} {x : PlainTransfer} (hq : Queued (d.submit x) d.queued.length d') :
    d'.transfers d.queued.length = x.transfer.inState .submitted := by
  rw [hq.transfers, settle_mem (List.mem_singleton.mpr rfl)]
  simp [Driver.submit]

theorem Queued.old {d d' : Driver} {x : PlainTransfer} (hq : Queued (d.submit x) d.queued.length d')
    {v : TransferId} (hv : v ≠ d.queued.length) : d'.transfers v = d.transfers v := by
  rw [hq.transfers, settle_notMem (by simpa using hv)]
  simp [Driver.submit, hv]

theorem Sound.withStatus {d : Driver} (h : Sound d) (status : U32) : Sound (d.withStatus status) :=
  ⟨h.order,h.ids,h.plain,h.nonempty,h.shutdown,h.listed,h.settled,h.known,h.behind,h.idle,h.progress,
    h.notified⟩

theorem Sound.queue {d d' : Driver} {x : PlainTransfer} (h : Sound d)
    (hq : Queued (d.submit x) d.queued.length d') : Sound d' := by
  have hlist : d'.engine.transferList = d.engine.transferList ++ [d.queued.length] :=
    hq.same.transferList
  have hqueued : d'.queued = d.queued ++ [d.queued.length] := hq.queued
  have hremoved : d'.removed = d.removed := hq.removed
  have hstarted : d'.started = d.started ++
    if d.engine.running then [] else (d.engine.transferList ++ [d.queued.length]).head?.toList :=
      hq.started
  have hdeq : d'.engine.descDequeued = if d.engine.running then d.engine.descDequeued else 0 :=
    hq.descDequeued
  have hmem : ∀ v ∈ d.engine.transferList, v ∈ d.queued := fun v hv => by
    rw [h.order]
    exact List.mem_append_right _ hv
  have hmem' : ∀ v ∈ d.removed, v ∈ d.queued := fun v hv => by
    rw [h.order]
    exact List.mem_append_left _ hv
  have hsub : ∀ v, v ∈ d'.started → v ∈ d.started ∨ (d.engine.running = false ∧
      v ∈ (d.engine.transferList ++ [d.queued.length]).head?.toList) := by
    intro v hv
    rw [hstarted] at hv
    rcases List.mem_append.mp hv with hv | hv
    · exact Or.inl hv
    · cases hrun : d.engine.running with
      | true => simp [hrun] at hv
      | false => exact Or.inr ⟨rfl,by simpa [hrun] using hv⟩
  refine ⟨?_,?_,?_,?_,hq.same.shutdown h.shutdown,?_,?_,?_,?_,?_,?_,?_⟩
  · rw [hqueued, hremoved, hlist, ← List.append_assoc, ← h.order]
  · rw [hqueued, List.length_append, List.length_singleton, List.range_succ, ← h.ids]
  · intro v hv
    rw [hqueued] at hv
    rcases List.mem_append.mp hv with hv | hv
    · rw [hq.old (h.newId hv)]
      exact h.plain v hv
    · rw [List.mem_singleton.mp hv, hq.new, inState_cyclic]
      exact x.plain
  · intro v hv
    rw [hqueued] at hv
    rcases List.mem_append.mp hv with hv | hv
    · rw [Driver.need, hq.old (h.newId hv)]
      exact h.nonempty v hv
    · rw [List.mem_singleton.mp hv, Driver.need, hq.new, inState_descNum]
      exact x.nonempty
  · intro v hv
    rw [hlist] at hv
    rcases List.mem_append.mp hv with hv | hv
    · rw [Driver.state, hq.old (h.newId (hmem v hv))]
      exact h.listed v hv
    · rw [List.mem_singleton.mp hv, Driver.state, hq.new]
      simp
  · intro v hv
    rw [hremoved] at hv
    rw [Driver.state, hq.old (h.newId (hmem' v hv))]
    exact h.settled v hv
  · intro v hv
    rw [hqueued]
    rcases hsub v hv with hv | ⟨hrun,hv⟩
    · exact List.mem_append_left _ (h.known v hv)
    · rw [h.idle hrun] at hv
      exact List.mem_append_right _ (by simpa using hv)
  · intro v hv
    rw [hlist] at hv
    intro hs
    rcases hsub v hs with hs | ⟨hrun,hs⟩
    · cases hcons : d.engine.transferList with
      | nil => simp [hcons] at hv
      | cons u us =>
        rw [hcons, List.cons_append, List.tail_cons] at hv
        rcases List.mem_append.mp hv with hv | hv
        · exact h.behind v (by rw [hcons]; exact hv) hs
        · exact h.newId (h.known v hs) (List.mem_singleton.mp hv)
    · rw [h.idle hrun] at hv
      simp at hv
  · intro hrun
    rw [hq.running] at hrun
    cases hrun
  · intro _
    cases hrun : d.engine.running with
    | true =>
      obtain ⟨t,hlast,hp⟩ := h.progress hrun
      have ht := h.newId (h.known t (List.mem_of_getLast? hlast))
      refine ⟨t,by rw [hstarted, hrun]; simpa using hlast,?_⟩
      rw [hdeq, hrun, if_pos rfl, hlist, Driver.need, hq.old ht]
      rcases hp with ⟨h0,hhead⟩ | hp
      · refine Or.inl ⟨h0,?_⟩
        rw [List.head?_append, hhead]
        rfl
      · exact Or.inr hp
    | false =>
      have hnil := h.idle hrun
      refine ⟨d.queued.length,?_,Or.inl ⟨by rw [hdeq, hrun]; rfl,by rw [hlist, hnil]; rfl⟩⟩
      rw [hstarted, hrun, hnil]
      simp
  · rw [hq.notices, hremoved]
    exact h.notified

theorem Serviced.cut {d d' : Driver} {wb : U32} {reads : RegisterReads} {gone rest : List TransferId}
    {t : TransferId} {left : Nat} (hs : Serviced d wb reads gone t rest left d')
    (hlist : d.engine.transferList = gone ++ t :: rest) :
    d.engine.transferList =
      (gone ++ if d.faulty wb reads then [] else [t]) ++ d'.engine.transferList := by
  rw [hlist, hs.list]
  cases d.faulty wb reads <;> simp

theorem Sound.serviced {d d' : Driver} {wb : U32} {reads : RegisterReads}
    {gone rest : List TransferId} {t : TransferId} {left : Nat} (h : Sound d)
    (hrun : d.engine.running = true) (hlist : d.engine.transferList = gone ++ t :: rest)
    (hs : Serviced d wb reads gone t rest left d') : Sound d' := by
  obtain ⟨off,hoff⟩ : ∃ off, off = gone ++ if d.faulty wb reads then [] else [t] := ⟨_,rfl⟩
  have hcut : d.engine.transferList = off ++ d'.engine.transferList := by
    rw [hoff]
    exact hs.cut hlist
  have hremoved : d'.removed = d.removed ++ off := by rw [hoff]; exact hs.removed
  have hnodup := h.listNodup
  have htail : ∀ v ∈ d'.engine.transferList.tail, v ∈ d.engine.transferList.tail := by
    intro v hv
    rw [hcut]
    cases off with
    | nil => exact hv
    | cons u us => exact List.mem_append_right _ (List.mem_of_mem_tail hv)
  have hsettled : ∀ v, d'.state v = .submitted → d.state v = .submitted ∧ v ∉ gone ∧ v ≠ t := by
    intro v hv
    by_cases hvt : v = t
    · rw [hvt, hs.state_final] at hv
      exact absurd hv (finalState_settled _ _ _)
    · by_cases hvg : v ∈ gone
      · rw [hs.state_gone hvg hvt] at hv
        cases hv
      · rw [hs.state_other hvg hvt] at hv
        exact ⟨hv,hvg,hvt⟩
  refine ⟨?_,?_,?_,?_,hs.same.shutdown h.shutdown,?_,?_,?_,?_,?_,?_,?_⟩
  · rw [hs.queued, hremoved, List.append_assoc, ← hcut, ← h.order]
  · rw [hs.queued]
    exact h.ids
  · intro v hv
    rw [hs.queued] at hv
    rw [hs.plain]
    exact h.plain v hv
  · intro v hv
    rw [hs.queued] at hv
    rw [hs.need]
    exact h.nonempty v hv
  · intro v hv
    by_cases hvt : v = t
    · -- only a faulty transfer stays on the list
      cases hf : d.faulty wb reads with
      | true =>
        rw [hvt, hs.state_final, hf]
        simp [finalState]
      | false =>
        rw [hs.list, hf, if_neg Bool.false_ne_true] at hv
        rw [hlist] at hnodup
        have hn := hnodup.of_append_right
        rw [List.nodup_cons] at hn
        exact absurd (hvt ▸ hv) hn.1
    · have hvg : v ∉ gone := by
        intro hg
        rw [hcut] at hnodup
        exact (List.nodup_append.mp hnodup).2.2 v
          (by rw [hoff]; exact List.mem_append_left _ hg) v hv rfl
      rw [hs.state_other hvg hvt]
      exact h.listed v (by rw [hcut]; exact List.mem_append_right _ hv)
  · intro v hv hsub
    obtain ⟨hold,hvg,hvt⟩ := hsettled v hsub
    rw [hremoved, hoff] at hv
    rcases List.mem_append.mp hv with hv | hv
    · exact h.settled v hv hold
    · rcases List.mem_append.mp hv with hv | hv
      · exact hvg hv
      · split at hv
        · cases hv
        · exact hvt (List.mem_singleton.mp hv)
  · intro v hv
    rw [hs.queued, h.order, hcut]
    rcases hs.started_sub hv with hv | hv
    · have hk := h.known v hv
      rw [h.order, hcut] at hk
      exact hk
    · refine List.mem_append_right _ (List.mem_append_right _ ?_)
      exact List.mem_of_mem_head? (Option.mem_toList.mp hv)
  · intro v hv hstart
    rcases hs.started_sub hstart with hold | hhead
    · exact h.behind v (htail v hv) hold
    · rw [hcut] at hnodup
      have hn := hnodup.of_append_right
      cases hcons : d'.engine.transferList with
      | nil => simp [hcons] at hv
      | cons u us =>
        rw [hcons] at hn hv hhead
        simp only [List.head?_cons, Option.toList_some, List.mem_singleton] at hhead
        exact (List.nodup_cons.mp hn).1 (hhead ▸ hv)
  · intro hidle
    rw [hs.running, Bool.or_eq_false_iff] at hidle
    simpa using hidle.2
  · intro hrunning
    rw [hs.need]
    cases hstop : d.stops wb reads with
    | true =>
      cases hcons : d'.engine.transferList with
      | nil => simp [hs.running, hstop, hcons] at hrunning
      | cons u us =>
        refine ⟨u,?_,Or.inl ⟨?_,rfl⟩⟩
        · rw [hs.started, hstop, hcons]
          simp
        · rw [hs.descDequeued, hstop, hcons]
          rfl
    | false =>
      obtain ⟨u,hlast,hp⟩ := h.progress hrun
      have hdeq : d'.engine.descDequeued = d.engine.descDequeued+total d.need off := by
        rw [hs.descDequeued, hstop, hoff]
        rfl
      refine ⟨u,by rw [hs.started, hstop]; simpa using hlast,?_⟩
      rcases hp with ⟨h0,hhead⟩ | hp
      · rw [hcut] at hhead
        cases hcons : off with
        | nil =>
          rw [hcons] at hdeq hhead
          exact Or.inl ⟨by rw [hdeq, h0]; rfl,hhead⟩
        | cons o os =>
          rw [hcons] at hdeq hhead
          have ho : o = u := by simpa using hhead
          refine Or.inr ?_
          rw [hdeq, total_cons, ho]
          omega
      · exact Or.inr (by omega)
  · obtain ⟨new,hnew,hmap⟩ := hs.notices
    rw [hnew, List.map_append, hmap, h.notified, hremoved, hoff]

theorem Sound.step {p : Params} {d d' : Driver} {op : EngineOp} (h : Sound d)
    (hstep : opStep p d op d') : Sound d' := by
  cases op with
  | queue x => exact h.queue (opStep_queue h hstep)
  | service wb reads =>
    rcases opStep_service h hstep with ⟨_,rfl⟩ | ⟨hrun,gone,t,rest,left,hsplit,hs⟩
    · exact h.withStatus _
    · exact h.serviced hrun (split_cut hsplit) hs

/-- Every state an engine can reach is sound. -/
theorem run_sound {p : Params} {ok : Driver → EngineOp → Prop} {d₀ d : Driver} {ops : List EngineOp}
    (h₀ : Fresh d₀) (r : Run (opStep p) ok d₀ ops d) : Sound d :=
  r.invariant Sound h₀.sound fun _ _ _ hs _ hstep => hs.step hstep

end DmaCamera
