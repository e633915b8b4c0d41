import DmaCamera.ReadFlow
set_option autoImplicit false

namespace DmaCamera
open Circular Countdown Framing Runs

/-! One reader at a time: slots are taken and returned in order, and the index is
where the reader is. -/

def ReadPc.left : ReadPc → Nat
  | .copying remaining _ => remaining
  | .bumping _ remaining _ => remaining
  | _ => 0

structure ReadSystem.Sole (s : ReadSystem) : Prop where
  sent : s.rx.consumed ≤ s.sent.length
  taken : s.sent.take s.rx.consumed = s.returns.flatMap Return.took ++ (s.readers 0).took
  index : (s.readers 0).pc ≠ .idle →
    s.userBufferIndex+(s.readers 0).pc.left = (payloads (s.readers 0).took).length

theorem ReadSystem.opened_sole (creditMode : Bool) : (ReadSystem.opened creditMode).Sole :=
  ⟨Nat.zero_le _,rfl,fun h => absurd rfl h⟩

section sole

variable {s t : ReadSystem}

theorem ReadSystem.Sole.sent_eq (h : s.Sole) :
    s.sent = s.returns.flatMap Return.took ++ ((s.readers 0).took ++ s.pending) := by
  rw [← List.append_assoc, ← h.taken]
  exact (List.take_append_drop ..).symm

theorem ReadSystem.Sole.move (h : s.Sole) (hsent : t.sent = s.sent)
    (hconsumed : t.rx.consumed = s.rx.consumed) (hreturns : t.returns = s.returns)
    (htook : (t.readers 0).took = (s.readers 0).took) (hbusy : (s.readers 0).pc ≠ .idle)
    (hindex : s.userBufferIndex+(s.readers 0).pc.left = (payloads (s.readers 0).took).length →
      t.userBufferIndex+(t.readers 0).pc.left = (payloads (s.readers 0).took).length) : t.Sole := by
  refine ⟨?_,?_,fun _ => ?_⟩
  · rw [hsent, hconsumed]
    exact h.sent
  · rw [hsent, hconsumed, hreturns, htook]
    exact h.taken
  · rw [htook]
    exact hindex (h.index hbusy)

theorem ReadSystem.Sole.leave {rc : Int} (h : s.Sole) : (s.leave 0 rc).Sole := by
  refine ⟨h.sent,?_,fun hpc => ?_⟩
  · rw [ReadSystem.leave_self]
    simp only [ReadSystem.leave, List.flatMap_append, List.flatMap_singleton, Reader.idle,
      List.append_nil]
    exact h.taken
  · simp [Reader.idle] at hpc

theorem ReadSystem.Sole.lock (h : s.Sole) (hpc : (s.readers 0).pc = .entering)
    (hstored : s.Stored) (hoff : s.rx.ring.rxOverrun = false) :
    (s.lock 0 (s.rx.lock 0)).Sole := by
  have htaking := hstored.taking hoff
  have hreader : (s.lock 0 (s.rx.lock 0)).readers 0 =
      (s.readers 0).copies (payloads s.batch).length s.rx.ring.rxHead s.batch := by
    rw [htaking.reader, Function.update_self]
  refine ⟨(hstored.lock hoff 0).consumed_le,?_,fun _ => ?_⟩
  · rw [hreader, htaking.sent, h.taken]
    exact List.append_assoc ..
  · have hindex := h.index (by simp [hpc])
    rw [hpc] at hindex
    rw [hreader]
    simp only [Reader.copies, ReadPc.left, payloads_append, List.length_append] at hindex ⊢
    simp only [ReadSystem.lock]
    omega

theorem ReadSystem.Sole.inPlace (h : s.Sole) (hreading : s.Reading 1) (i : Nat) :
    s.inPlace i = true := by
  cases i with
  | succ i =>
    have hidle := hreading.absent (i+1) (by omega)
    simp [ReadSystem.inPlace, hidle, Reader.idle]
  | zero =>
    simp only [ReadSystem.inPlace]
    split
    · rename_i remaining head call hpc hcall
      obtain ⟨front,rest,rcLen,c,hr,hc,_,_,_,_,_,hlen⟩ := (hreading.progress 0).copying_inv hpc
      obtain rfl := Option.some.inj (hcall.symm.trans hc)
      have hindex := h.index (by simp [hpc])
      rw [hr] at hindex
      simp only [ReadPc.left] at hindex
      simp only [hr, beq_iff_eq]
      omega
    · rfl

theorem ReadSystem.Sole.step {c : RxSetting} {op : ReadOp} (hc : c.readers = 1) (h : s.Sole)
    (hreading : s.Reading 1) (hcopies : keepsCopies 1 s op)
    (hlock : ∀ i, op = .lock i → s.Stored ∧ s.rx.ring.rxOverrun = false)
    (hfit : (payloads (s.readers 0).took).length < 2^32) (hstep : ReadStep c s op t) : t.Sole := by
  cases hstep with
  | fill _ _ _ =>
    refine ⟨?_,?_,h.index⟩
    · simpa [ReadSystem.fill, RxSystem.fill] using Nat.le_succ_of_le h.sent
    · simp only [ReadSystem.fill, RxSystem.fill, List.take_append_of_le_length h.sent]
      exact h.taken
  | service => exact ⟨h.sent,h.taken,h.index⟩
  | @start i _ hi hpc _ =>
    obtain rfl : i = 0 := by omega
    have htook := hreading.idle 0 hpc
    have htaken := h.taken
    rw [htook] at htaken
    refine ⟨h.sent,?_,fun _ => ?_⟩
    · rw [ReadSystem.start_self]
      exact htaken
    · simp [ReadSystem.start, ReadSystem.setReader, ReadPc.left]
  | wait hpc | again hpc | enter hpc | copy hpc | copied hpc | clear hpc | credit hpc =>
    obtain rfl := hreading.sole hpc (by simp)
    refine h.move rfl rfl rfl (by simp) (by simp [hpc]) ?_
    simp [hpc, ReadPc.left]
  | interrupted hpc _ =>
    obtain rfl := hreading.sole hpc (by simp)
    exact h.leave
  | lock hpc _ _ =>
    obtain rfl := hreading.sole hpc (by simp)
    obtain ⟨hstored,hoff⟩ := hlock 0 rfl
    exact h.lock hpc hstored hoff
  | copyFails _ hpos _ => exact absurd hcopies.1 hpos
  | @bump i copy remaining head hpc =>
    obtain rfl := hreading.sole hpc (by simp)
    have hle := (hreading.progress 0).bumping_le hpc
    refine h.move rfl rfl rfl (by simp) (by simp [hpc]) fun hindex => ?_
    rw [hpc] at hindex
    simp only [ReadPc.left] at hindex
    have hmod : bumpIndex s.userBufferIndex copy = s.userBufferIndex+copy :=
      Nat.mod_eq_of_lt (by omega)
    simp only [ReadSystem.bump_self, ReadPc.left]
    simp only [ReadSystem.bump, hmod]
    omega
  | test hpc =>
    obtain rfl := hreading.sole hpc (by simp)
    refine h.move rfl rfl rfl (by simp) (by simp [hpc]) ?_
    cases s.eopFound <;> simp [hpc, ReadPc.left]
  | finish hpc =>
    obtain rfl := hreading.sole hpc (by simp)
    have hleft : (s.leave 0 (s.readers 0).rcLen).Sole := h.leave
    exact ⟨hleft.sent,hleft.taken,hleft.index⟩

theorem ReadSystem.Sole.step_flow {c : RxSetting} {op : ReadOp} (hc : c.readers = 1) (h : s.Sole)
    (hflow : s.Flow 1) (hok : keepsBytes 1 s op) (hfit : (payloads (s.readers 0).took).length < 2^32)
    (hstep : ReadStep c s op t) : t.Sole := by
  refine h.step hc hflow.toReading hok.copies ?_ hfit hstep
  rintro i rfl
  exact ⟨hflow.toStored,hok⟩

theorem ReadSystem.Sole.short_lt (h : s.Sole) (hformed : ∀ x ∈ s.sent, x.WellFormed)
    (hshort : (s.readers 0).took.length ≤ rxBufPages) :
    (payloads (s.readers 0).took).length < 2^32 := by
  have hsizes : ∀ x ∈ (s.readers 0).took, 1 ≤ x.payload.length ∧ x.payload.length ≤ rxBufBlock := by
    intro x hx
    refine (hformed x ?_).bounds
    rw [h.sent_eq]
    simp [hx]
  have hb := (total_bounds (fun x : Slot => x.payload.length) hsizes).2
  rw [payloads_length]
  simp only [rxBufPages, rxBufBlock] at hshort hb
  omega

end sole

/-! Without credits nothing resets `eop_found`, so that a call takes one section. -/

def ReadPc.early : ReadPc → Bool
  | .idle | .waiting | .checking _ | .entering => true
  | _ => false

def ReadPc.woken : ReadPc → Bool
  | .idle | .waiting => false
  | .checking rc => rc == 0
  | _ => true

structure Reader.OnePass (r : Reader) (eopFound : Bool) : Prop where
  fresh : r.pc.early = true → r.rcLen = 0 ∧ r.took = []
  signal : ∀ rc, r.pc = .checking rc → rc ≤ 0
  flagged : r.pc.woken = true → eopFound = true
  short : r.took.length ≤ rxBufPages

theorem Reader.idle_onePass (eopFound : Bool) : Reader.idle.OnePass eopFound where
  fresh _ := ⟨rfl,rfl⟩
  signal _ h := by cases h
  flagged h := by cases h
  short := Nat.zero_le _

theorem Reader.OnePass.late {r r' : Reader} {eopFound : Bool} (h : r.OnePass eopFound)
    (htook : r'.took = r.took) (hlate : r'.pc.early = false) (hwoken : r.pc.woken = true) :
    r'.OnePass eopFound where
  fresh hp := by
    rw [hlate] at hp
    cases hp
  signal rc hp := by
    rw [hp] at hlate
    cases hlate
  flagged _ := h.flagged hwoken
  short := htook ▸ h.short

theorem ReadStep.eopFound_kept {c : RxSetting} {s t : ReadSystem} {op : ReadOp}
    (hc : c.creditMode = false) (h : ReadStep c s op t) (he : s.eopFound = true) :
    t.eopFound = true := by
  cases h with
  | service => simp [ReadSystem.service, he]
  | lock => simp [ReadSystem.lock, he]
  | finish => simp [ReadSystem.finish, hc, he]
  | _ => exact he

theorem ReadStep.onePass {c : RxSetting} {s t : ReadSystem} {op : ReadOp}
    (hc : c.creditMode = false) (h : ∀ i, (s.readers i).OnePass s.eopFound)
    (hstep : ReadStep c s op t) : ∀ i, (t.readers i).OnePass t.eopFound := by
  intro j
  by_cases hj : op.reader = some j
  · have hr := h j
    cases hstep with
    | fill => cases hj
    | service => cases hj
    | start =>
      obtain rfl := Option.some.inj hj
      rw [ReadSystem.start_self]
      exact ⟨fun _ => ⟨rfl,rfl⟩,fun _ h => (by cases h),fun h => (by cases h),Nat.zero_le _⟩
    | @wait _ signal hpc hsignal =>
      obtain rfl := Option.some.inj hj
      rw [ReadSystem.goto_self]
      refine ⟨fun _ => hr.fresh (by rw [hpc]; rfl),fun rc hrc => ?_,fun hw => ?_,hr.short⟩
      · cases hrc
        split
        · decide
        · exact Int.le_refl 0
      · cases signal with
        | true => simp [ReadPc.woken, eRestartSys] at hw
        | false =>
          simp only [ReadSystem.awaited, hc, Bool.false_eq_true, if_false] at hsignal
          simpa [ReadSystem.goto, ReadSystem.setReader] using hsignal.symm
    | again hpc =>
      obtain rfl := Option.some.inj hj
      rw [ReadSystem.goto_self]
      exact ⟨fun _ => hr.fresh (by rw [hpc]; rfl),fun _ h => (by cases h),fun h => (by cases h),
        hr.short⟩
    | interrupted =>
      obtain rfl := Option.some.inj hj
      rw [ReadSystem.leave_self]
      exact Reader.idle_onePass _
    | enter hpc =>
      obtain rfl := Option.some.inj hj
      rw [ReadSystem.goto_self]
      exact ⟨fun _ => hr.fresh (by rw [hpc]; rfl),fun _ h => (by cases h),
        fun _ => hr.flagged (by rw [hpc]; rfl),hr.short⟩
    | lock hpc =>
      obtain rfl := Option.some.inj hj
      have htook := (hr.fresh (by rw [hpc]; rfl)).2
      have hflag := hr.flagged (by rw [hpc]; rfl)
      simp only [ReadSystem.lock, Function.update_self, hflag, Bool.true_or]
      split
      · exact ⟨fun h => (by cases h),fun _ h => (by cases h),fun _ => rfl,hr.short⟩
      · refine ⟨fun h => (by cases h),fun _ h => (by cases h),fun _ => rfl,?_⟩
        simp only [Reader.copies, htook, List.nil_append, ReadSystem.batch, List.length_take]
        have hle := s.rx.ring.complete_spec.1.numCredit_le
        omega
    | copy hpc | copied hpc | bump hpc | clear hpc | credit hpc =>
      obtain rfl := Option.some.inj hj
      exact hr.late (by simp) (by simp [ReadPc.early]) (by rw [hpc]; rfl)
    | copyFails hpc hpos =>
      obtain rfl := Option.some.inj hj
      exact hr.late (by simp) (by simp [hpos, ReadPc.early]) (by rw [hpc]; rfl)
    | test hpc =>
      obtain rfl := Option.some.inj hj
      have hflag := hr.flagged (by rw [hpc]; rfl)
      rw [ReadSystem.goto_self, if_pos hflag]
      exact hr.late rfl rfl (by rw [hpc]; rfl)
    | finish =>
      obtain rfl := Option.some.inj hj
      rw [ReadSystem.finish_self]
      exact Reader.idle_onePass _
  · rw [hstep.others hj]
    have hr := h j
    exact ⟨hr.fresh,hr.signal,fun hw => hstep.eopFound_kept hc (hr.flagged hw),hr.short⟩

end DmaCamera
