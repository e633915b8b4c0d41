import DmaCamera.AsyncRequest
import DmaCamera.EngineRuns
set_option autoImplicit false

namespace DmaCamera
open Countdown

/-! What a call of `engine_service` ends: which transfers it takes off the list,
which one it fails, and whom it tells. -/

def Driver.told (d : Driver) (t : TransferId) : Notice :=
  match (d.transfers t).completes with
  | some (iocb,size) => .aioComplete t iocb size
  | none => .wake t

def Driver.frees (d : Driver) (t : TransferId) : Bool := (d.transfers t).completes.isSome

def Driver.reach (d : Driver) (wb : U32) (reads : RegisterReads) :
    List TransferId × List TransferId × Nat :=
  split d.need d.engine.transferList (pendingCount d.engine (serviceCount wb reads))

def Driver.takesOff (d : Driver) (wb : U32) (reads : RegisterReads) : List TransferId :=
  if d.engine.running then
    (d.reach wb reads).1 ++
      if d.faulty wb reads then [] else (d.reach wb reads).2.1.head?.toList
  else []

/-- The transfer a call fails: the last one inspected, if there is an error flag
or it has not got the descriptors it needs. -/
def Driver.failsOn (d : Driver) (wb : U32) (reads : RegisterReads) : Option TransferId :=
  if d.engine.running then
    (d.reach wb reads).2.1.head?.filter fun t =>
      d.faulty wb reads || decide ((d.reach wb reads).2.2 < d.need t)
  else none

theorem told_transfer (d : Driver) (t : TransferId) : (d.told t).transfer = t := by
  unfold Driver.told
  split <;> rfl

theorem told_completes (d : Driver) (t : TransferId) :
    (d.told t).completes = (d.transfers t).completes := by
  unfold Driver.told
  split
  · rename_i h
    rw [h]
    rfl
  · rename_i h
    rw [h]
    rfl

structure Completed (d : Driver) (ended : List TransferId) (d' : Driver) : Prop where
  notices : d'.notices = d.notices ++ ended.map d.told
  destroyed : d'.destroyed = d.destroyed ++ ended.filter d.frees
  completes : ∀ v, (d'.transfers v).completes = (d.transfers v).completes

theorem Completed.nothing {d d' : Driver} (hn : d'.notices = d.notices)
    (hd : d'.destroyed = d.destroyed)
    (hc : ∀ v, (d'.transfers v).completes = (d.transfers v).completes) : Completed d [] d' :=
  ⟨hn.trans (List.append_nil _).symm,hd.trans (List.append_nil _).symm,hc⟩

theorem Completed.trans {d₁ d₂ d₃ : Driver} {as bs : List TransferId} (h : Completed d₁ as d₂)
    (h' : Completed d₂ bs d₃) : Completed d₁ (as ++ bs) d₃ := by
  have htold : d₂.told = d₁.told := by
    funext v
    rw [Driver.told, h.completes, Driver.told]
  have hfrees : d₂.frees = d₁.frees := by
    funext v
    rw [Driver.frees, h.completes, Driver.frees]
  refine ⟨?_,?_,fun v => (h'.completes v).trans (h.completes v)⟩
  · rw [h'.notices, h.notices, htold, List.map_append, List.append_assoc]
  · rw [h'.destroyed, h.destroyed, hfrees, List.filter_append, List.append_assoc]

theorem engineTransferCompletion_completed (d : Driver) (t : TransferId) :
    Completed d [t] (engineTransferCompletion d t) := by
  have hcompletes : (d.transfers t).completes =
    (d.transfers t).asyncLast.map fun iocb => (iocb,(d.transfers t).sizeOfRequest) := rfl
  unfold engineTransferCompletion
  cases hlast : (d.transfers t).asyncLast with
  | some iocb =>
    rw [hlast, Option.map_some] at hcompletes
    exact ⟨by simp [Driver.told, hcompletes],by simp [Driver.frees, hcompletes],fun _ => rfl⟩
  | none =>
    rw [hlast, Option.map_none] at hcompletes
    exact ⟨by simp [Driver.told, hcompletes],by simp [Driver.frees, hcompletes],fun _ => rfl⟩

theorem retire_completed (d : Driver) (t : TransferId) (s : TransferState) :
    Completed d [t] (retire d t s) := by
  have hset : Completed d [] { d with
      engine := { d.engine with
        transferList := d.engine.transferList.tail
        descDequeued := d.engine.descDequeued + (d.transfers t).descNum }
      transfers := Function.update d.transfers t { d.transfers t with state := s }
      removed := d.removed ++ d.engine.transferList.head?.toList } :=
    .nothing rfl rfl (update_completes d.transfers t s)
  exact hset.trans (engineTransferCompletion_completed _ t)

theorem serviceListLoop_completed (ts : List TransferId) (d : Driver) (c : Nat) :
    ∃ ended, Completed d ended (serviceListLoop ts d c).1 := by
  induction ts generalizing d c with
  | nil => exact ⟨[],.nothing rfl rfl fun _ => rfl⟩
  | cons t rest ih =>
    unfold serviceListLoop
    split
    · obtain ⟨ended,h⟩ := ih (retire d t .completed) (c-(d.transfers t).descNum)
      exact ⟨_,(retire_completed d t .completed).trans h⟩
    · exact ⟨[],.nothing rfl rfl fun _ => rfl⟩

theorem engineServiceFinalTransfer_completed {p : Params} {d d' : Driver}
    {transfer : Option TransferId} {n : Nat}
    (h : engineServiceFinalTransfer p d transfer n = .ok d') : ∃ ended, Completed d ended d' := by
  unfold engineServiceFinalTransfer at h
  split at h
  · cases h
  · rename_i t
    split at h
    · cases h
      exact ⟨[],.nothing rfl rfl (update_completes d.transfers t .failed)⟩
    · cases h
      exact ⟨_,retire_completed d t _⟩

theorem engineStart_completed {p : Params} {d d' : Driver} (h : engineStart p d = .ok d') :
    Completed d [] d' := by
  unfold engineStart at h
  split at h
  · cases h
  · split at h <;> cases h
    exact .nothing rfl rfl fun _ => rfl

theorem engineServiceResume_completed {p : Params} {d d' : Driver}
    (h : engineServiceResume p d = .ok d') : Completed d [] d' := by
  unfold engineServiceResume at h
  split at h
  · split at h
    · cases h
      exact .nothing rfl rfl fun _ => rfl
    · split at h
      · exact engineStart_completed h
      · cases h
        exact .nothing rfl rfl fun _ => rfl
  · cases h
    exact .nothing rfl rfl fun _ => rfl

theorem engineService_completed {p : Params} {d d' : Driver} {wb : U32} {reads : RegisterReads}
    {rc : Int} (h : engineService p d wb reads = .ok (d',rc)) : ∃ ended, Completed d ended d' := by
  unfold engineService at h
  simp only at h
  split at h
  · split at h <;> cases h <;> exact ⟨[],.nothing rfl rfl fun _ => rfl⟩
  · split at h
    · cases h
    · rename_i d₁ transfer n hlist
      have h₁ : ∃ ended, Completed d ended d₁ := by
        unfold engineServiceTransferList at hlist
        split at hlist
        · cases hlist
        · have hd₁ : _ = d₁ := congrArg Prod.fst (Except.ok.inj hlist)
          rw [← hd₁]
          have hprep : Completed d [] { d with engine := servicePrepare p d.engine wb reads } :=
            .nothing rfl rfl fun _ => rfl
          obtain ⟨ended,hloop⟩ := serviceListLoop_completed _ _ _
          exact ⟨_,hprep.trans hloop⟩
      obtain ⟨ended₁,h₁⟩ := h₁
      split at h
      · cases h
      · rename_i d₂ hfinal
        obtain ⟨ended₂,h₂⟩ := engineServiceFinalTransfer_completed hfinal
        split at h
        · cases h
        · rename_i d₃ hresume
          cases h
          have hclear : Completed d₂ [] { d₂ with engine := clearWriteback p d₂.engine } :=
            .nothing rfl rfl fun _ => rfl
          exact ⟨_,(h₁.trans h₂).trans (hclear.trans (engineServiceResume_completed hresume))⟩

theorem opStep_queue_completed {p : Params} {d d' : Driver} {x : PlainTransfer}
    (h : opStep p d (.queue x) d') : Completed (d.submit x) [] d' := by
  obtain ⟨rc,h⟩ := h
  simp only [applyOp, transferQueue] at h
  have henlist : Completed (d.submit x) [] ((d.submit x).enlist d.queued.length) :=
    .nothing rfl rfl (update_completes _ _ .submitted)
  split at h
  · cases h
  · split at h
    · cases h
      exact .nothing rfl rfl fun _ => rfl
    · split at h
      · split at h
        · cases h
        · rename_i d₁ hstart
          cases h
          exact henlist.trans (engineStart_completed hstart)
      · cases h
        exact henlist

structure Ended (d : Driver) (wb : U32) (reads : RegisterReads) (d' : Driver) : Prop where
  list : d.engine.transferList = d.takesOff wb reads ++ d'.engine.transferList
  removed : d'.removed = d.removed ++ d.takesOff wb reads
  queued : d'.queued = d.queued
  fails : ∀ v, d.failsOn wb reads = some v → v ∈ d.engine.transferList
  state : ∀ v, d'.state v =
    if d.failsOn wb reads = some v then .failed
    else if v ∈ d.takesOff wb reads then .completed else d.state v
  completed : Completed d (d.takesOff wb reads) d'

theorem opStep_ended {p : Params} {d d' : Driver} {wb : U32} {reads : RegisterReads} (hd : Sound d)
    (h : opStep p d (.service wb reads) d') : Ended d wb reads d' := by
  obtain ⟨ended,hcompleted⟩ : ∃ ended, Completed d ended d' := by
    obtain ⟨rc,hcall⟩ := h
    exact engineService_completed hcall
  have htransfers : d'.notices.map Notice.transfer = d.removed ++ ended := by
    have hid : Notice.transfer ∘ d.told = id := funext fun t => told_transfer d t
    rw [hcompleted.notices, List.map_append, hd.notified, List.map_map, hid, List.map_id]
  have hremoved : d'.removed = d.removed ++ ended := (hd.step h).notified.symm.trans htransfers
  rcases opStep_service hd h with ⟨hrun,rfl⟩ | ⟨hrun,gone,t,rest,left,hsplit,hs⟩
  · have hoff : d.takesOff wb reads = [] := by simp [Driver.takesOff, hrun]
    have hfail : d.failsOn wb reads = none := by simp [Driver.failsOn, hrun]
    have hended : ended = [] := List.append_cancel_left (hremoved.symm.trans (List.append_nil _).symm)
    rw [hended] at hcompleted hremoved
    refine ⟨?_,?_,rfl,?_,?_,?_⟩
    · rw [hoff]
      rfl
    · rw [hoff]
      exact hremoved
    · rw [hfail]
      intro v hv
      cases hv
    · intro v
      rw [hfail, hoff]
      rfl
    · rw [hoff]
      exact hcompleted
  · have hlist := split_cut hsplit
    have hreach : d.reach wb reads = (gone,t :: rest,left) := hsplit
    have hoff : d.takesOff wb reads = gone ++ if d.faulty wb reads then [] else [t] := by
      rw [Driver.takesOff, if_pos hrun, hreach]
      rfl
    have hfail : d.failsOn wb reads =
        (some t).filter fun t => d.faulty wb reads || decide (left < d.need t) := by
      rw [Driver.failsOn, if_pos hrun, hreach]
      rfl
    have hended : ended = d.takesOff wb reads := by
      rw [hoff]
      exact List.append_cancel_left (hremoved.symm.trans hs.removed)
    rw [hended] at hcompleted hremoved
    refine ⟨?_,hremoved,hs.queued,?_,?_,hcompleted⟩
    · rw [hoff]
      exact hs.cut hlist
    · intro v hv
      rw [hfail, Option.filter_eq_some_iff] at hv
      obtain ⟨rfl⟩ := hv.1
      rw [hlist]
      exact List.mem_append_right _ (List.mem_cons_self ..)
    · intro v
      by_cases hvt : v = t
      · subst v
        rw [hs.state_final, hfail, hoff]
        cases hf : d.faulty wb reads with
        | true => simp [finalState]
        | false => by_cases hleft : left < d.need t <;> simp [finalState, hleft]
      · have hne : ¬ d.failsOn wb reads = some v := by
          rw [hfail, Option.filter_eq_some_iff]
          rintro ⟨⟨⟩,_⟩
          exact hvt rfl
        rw [if_neg hne]
        by_cases hvg : v ∈ gone
        · rw [hs.state_gone hvg hvt, if_pos (by rw [hoff]; exact List.mem_append_left _ hvg)]
        · rw [hs.state_other hvg hvt, if_neg]
          rw [hoff, List.mem_append, not_or]
          refine ⟨hvg,fun hv => ?_⟩
          split at hv
          · cases hv
          · exact hvt (List.mem_singleton.mp hv)

end DmaCamera
