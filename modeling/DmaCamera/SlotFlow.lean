import DmaCamera.ReadSystem
import DmaCamera.Library.Framing
set_option autoImplicit false

namespace DmaCamera
open Circular Countdown Framing Runs

def Slot.eop (x : Slot) : Bool := x.result.eop

/-- As the device completes slots: magic, a length, and a full slot unless it ends
a packet. -/
structure Slot.WellFormed (x : Slot) : Prop where
  valid : x.result.malformed = false
  length : x.result.length.toNat = x.payload.length
  full : x.eop = false → x.payload.length = rxBufBlock

theorem Slot.wellFormed_iff (x : Slot) : (x.result.malformed = false ∧
    x.result.length.toNat = x.payload.length ∧ (x.eop = false → x.payload.length = rxBufBlock)) ↔
      x.WellFormed :=
  ⟨fun h => ⟨h.1,h.2.1,h.2.2⟩,fun h => ⟨h.valid,h.length,h.full⟩⟩

instance (x : Slot) : Decidable x.WellFormed := decidable_of_iff _ x.wellFormed_iff

theorem Slot.WellFormed.bounds {x : Slot} (h : x.WellFormed) :
    0 < x.payload.length ∧ x.payload.length ≤ rxBufBlock := by
  have hv := h.valid
  simp only [XdmaResult.malformed, Bool.or_eq_false_iff, decide_eq_false_iff_not, Nat.not_lt,
    beq_eq_false_iff_ne, ne_eq] at hv
  rw [← h.length]
  refine ⟨Nat.pos_of_ne_zero fun h0 => hv.2 ?_,hv.1.2⟩
  exact BitVec.eq_of_toNat_eq h0

def payloads (l : List Slot) : List Byte := l.flatMap Slot.payload

@[simp] theorem payloads_nil : payloads [] = [] := rfl
@[simp] theorem payloads_cons (x : Slot) (l : List Slot) : payloads (x :: l) = x.payload ++ payloads l := rfl
@[simp] theorem payloads_append (l m : List Slot) : payloads (l ++ m) = payloads l ++ payloads m :=
  List.flatMap_append

theorem payloads_length (l : List Slot) :
    (payloads l).length = total (fun x => x.payload.length) l := by
  induction l with
  | nil => rfl
  | cons x l ih => simp [ih]

theorem resultBytes_map {l : List Slot} (h : ∀ x ∈ l, x.WellFormed) :
    resultBytes (l.map Slot.result) = (payloads l).length := by
  induction l with
  | nil => rfl
  | cons x l ih =>
    have hl := ih fun y hy => h y (by simp [hy])
    have hx := (h x (by simp)).length
    simp only [resultBytes] at hl
    simp [resultBytes, hl, hx]

def UserBuffer.holding (l : List Byte) : UserBuffer := fun o => l[o]?

theorem UserBuffer.write_holding {l m : List Byte} {data : Nat → Byte}
    (h : ∀ k < m.length, data k = m.getD k 0) :
    (holding l).write l.length m.length data = holding (l ++ m) := by
  funext o
  unfold write holding
  split
  · rename_i ho
    rw [List.getElem?_append_right ho.1, h _ (by omega), List.getD_eq_getElem?_getD,
      List.getElem?_eq_getElem (by omega)]
    rfl
  · rename_i ho
    rcases Nat.lt_or_ge o l.length with hlt | hge
    · rw [List.getElem?_append_left hlt]
    · rw [List.getElem?_eq_none hge, List.getElem?_eq_none (by simp; omega)]

def HoldsAt (rxBuffer : Nat → Byte) (a : Nat) (x : Slot) : Prop :=
  ∀ k < x.payload.length, rxBuffer (a % rxBufPages*rxBufBlock+k) = x.payload.getD k 0

def ReadPc.uncopied : ReadPc → List Nat
  | .copying remaining head => span rxBufPages head ((remaining+(rxBufBlock-1))/rxBufBlock)
  | .bumping copy remaining head =>
    span rxBufPages (head+1) ((remaining-copy+(rxBufBlock-1))/rxBufBlock)
  | _ => []

def ReadPc.between : ReadPc → Bool
  | .copying .. | .bumping .. | .clearing | .crediting => false
  | _ => true

/-- A part of a packet, in slots that are full but for the last. -/
def Stretch (l : List Slot) : Prop := (∀ x ∈ l, x.WellFormed) ∧ Unbroken Slot.eop l

inductive Progress (rxBuffer : Nat → Byte) : Reader → Option CyclicCall → Prop
  | between {pc : ReadPc} {took : List Slot} (hpc : pc.between = true) :
    Progress rxBuffer ⟨pc,(payloads took).length,.holding (payloads took),took⟩ none
  | copying {front rest : List Slot} {head : Nat} {rcLen : Int} {call : CyclicCall}
    (hhead : head < rxBufPages) (hrest : Stretch rest)
    (hdata : Along (HoldsAt rxBuffer) head rest) (hrc : call.rc = none)
    (hlen : rcLen+call.pktLength = (payloads (front ++ rest)).length) :
    Progress rxBuffer ⟨.copying (payloads rest).length head,rcLen,.holding (payloads front),front ++ rest⟩
      (some call)
  | bumping {front rest : List Slot} {x : Slot} {head : Nat} {rcLen : Int} {call : CyclicCall}
    (hhead : head < rxBufPages) (hrest : Stretch (x :: rest))
    (hdata : Along (HoldsAt rxBuffer) (head+1) rest)
    (hrc : call.rc = none) (hlen : rcLen+call.pktLength = (payloads (front ++ x :: rest)).length) :
    Progress rxBuffer ⟨.bumping x.payload.length (payloads (x :: rest)).length head,rcLen,
      .holding (payloads (front ++ [x])),front ++ x :: rest⟩ (some call)
  | leaving {pc : ReadPc} {took : List Slot} {rcLen : Int} {call : CyclicCall}
    (hpc : pc = .clearing ∨ pc = .crediting) (hrc : call.rc = some call.pktLength)
    (hlen : rcLen+call.pktLength = (payloads took).length) :
    Progress rxBuffer ⟨pc,rcLen,.holding (payloads took),took⟩ (some call)

theorem Stretch.tail {x : Slot} {l : List Slot} (h : Stretch (x :: l)) : Stretch l := by
  refine ⟨fun y hy => h.1 y (by simp [hy]),fun y hy => ?_⟩
  cases l with
  | nil => simp at hy
  | cons z l => exact h.2 y (by simp [hy])

theorem Stretch.full {x y : Slot} {l : List Slot} (h : Stretch (x :: y :: l)) :
    x.payload.length = rxBufBlock := (h.1 x (by simp)).full (h.2 x (by simp))

theorem Stretch.blocks {l : List Slot} (h : Stretch l) :
    ((payloads l).length+(rxBufBlock-1))/rxBufBlock = l.length := by
  induction l with
  | nil => rfl
  | cons x l ih =>
    have hl := ih h.tail
    have hx := (h.1 x (by simp)).bounds
    simp only [rxBufBlock] at hl hx
    cases l with
    | nil =>
      simp only [payloads_cons, payloads_nil, List.append_nil, List.length_cons, List.length_nil,
        rxBufBlock]
      omega
    | cons y l =>
      have hfull := h.full
      rw [payloads_cons, List.length_append, hfull, List.length_cons]
      simp only [rxBufBlock]
      omega

theorem Stretch.copyLength {x : Slot} {l : List Slot} (h : Stretch (x :: l)) :
    copyLength (payloads (x :: l)).length = x.payload.length := by
  have hx := (h.1 x (by simp)).bounds
  unfold DmaCamera.copyLength
  cases l with
  | nil =>
    simp only [payloads_cons, payloads_nil, List.append_nil]
    split <;> omega
  | cons y l =>
    have hfull := h.full
    have hy := (h.1 y (by simp)).bounds
    simp only [payloads_cons, List.length_append]
    split <;> omega

theorem Stretch.eq_nil {l : List Slot} (h : Stretch l) (hzero : (payloads l).length = 0) : l = [] := by
  cases l with
  | nil => rfl
  | cons x l =>
    have hx := (h.1 x (by simp)).bounds
    simp only [payloads_cons, List.length_append] at hzero
    omega

theorem Progress.fresh {rxBuffer : Nat → Byte} {pc : ReadPc} (hpc : pc.between = true) :
    Progress rxBuffer ⟨pc,0,.untouched,[]⟩ none := by
  have h : Progress rxBuffer ⟨pc,(payloads []).length,.holding (payloads []),[]⟩ none := .between hpc
  exact h

section progress

variable {rxBuffer rxBuffer' : Nat → Byte} {r : Reader} {call : Option CyclicCall}

theorem HoldsAt.buffer {a : Nat} {x : Slot} (h : HoldsAt rxBuffer a x)
    (hx : x.payload.length ≤ rxBufBlock)
    (hsame : ∀ k < rxBufBlock, rxBuffer' (a % rxBufPages*rxBufBlock+k) =
      rxBuffer (a % rxBufPages*rxBufBlock+k)) : HoldsAt rxBuffer' a x := by
  intro k hk
  rw [hsame k (by omega)]
  exact h k hk

theorem HoldsAt.along {a : Nat} {l : List Slot} (h : Along (HoldsAt rxBuffer) a l) (hl : Stretch l)
    (hsame : ∀ i ∈ span rxBufPages a (((payloads l).length+(rxBufBlock-1))/rxBufBlock),
      ∀ k < rxBufBlock, rxBuffer' (i*rxBufBlock+k) = rxBuffer (i*rxBufBlock+k)) :
    Along (HoldsAt rxBuffer') a l := by
  rw [hl.blocks] at hsame
  refine h.mono fun j x hj hx => ?_
  have hlt : j < l.length := (List.getElem?_eq_some_iff.mp hj).1
  exact hx.buffer (hl.1 x (List.mem_of_getElem? hj)).bounds.2
    (hsame _ (mem_span.mpr ⟨j,hlt,rfl⟩))

theorem Progress.buffer (h : Progress rxBuffer r call)
    (hsame : ∀ i ∈ r.pc.uncopied, ∀ k < rxBufBlock,
      rxBuffer' (i*rxBufBlock+k) = rxBuffer (i*rxBufBlock+k)) : Progress rxBuffer' r call := by
  cases h with
  | between hpc => exact .between hpc
  | copying hhead hrest hdata hrc hlen =>
    exact .copying hhead hrest (HoldsAt.along hdata hrest hsame) hrc hlen
  | bumping hhead hrest hdata hrc hlen =>
    refine .bumping hhead hrest (HoldsAt.along hdata hrest.tail fun i hi => hsame i ?_) hrc hlen
    simpa [ReadPc.uncopied] using hi
  | leaving hpc hrc hlen => exact .leaving hpc hrc hlen

theorem Progress.late (h : Progress rxBuffer r call) (raises : Bool) :
    Progress rxBuffer r (call.map fun c => { c with late := c.late || raises }) := by
  cases h with
  | between hpc => exact .between hpc
  | copying hhead hrest hdata hrc hlen => exact .copying hhead hrest hdata hrc hlen
  | bumping hhead hrest hdata hrc hlen => exact .bumping hhead hrest hdata hrc hlen
  | leaving hpc hrc hlen => exact .leaving hpc hrc hlen

theorem Progress.copying_inv {remaining head : Nat} (h : Progress rxBuffer r call)
    (hpc : r.pc = .copying remaining head) : ∃ front rest rcLen c, r = ⟨.copying remaining head,rcLen,
      .holding (payloads front),front ++ rest⟩ ∧ call = some c ∧ remaining = (payloads rest).length ∧
      head < rxBufPages ∧ Stretch rest ∧ Along (HoldsAt rxBuffer) head rest ∧ c.rc = none ∧
      rcLen+c.pktLength = (payloads (front ++ rest)).length := by
  cases h with
  | between hrest =>
    cases hpc
    cases hrest
  | bumping => cases hpc
  | leaving hleave => rcases hleave with rfl | rfl <;> cases hpc
  | copying hhead hrest hdata hrc hlen =>
    obtain ⟨rfl,rfl⟩ := ReadPc.copying.inj hpc
    exact ⟨_,_,_,_,rfl,rfl,rfl,hhead,hrest,hdata,hrc,hlen⟩

theorem Progress.bumping_inv {copy remaining head : Nat} (h : Progress rxBuffer r call)
    (hpc : r.pc = .bumping copy remaining head) : ∃ front rest x rcLen c,
      r = ⟨.bumping copy remaining head,rcLen,.holding (payloads (front ++ [x])),front ++ x :: rest⟩ ∧
      call = some c ∧ copy = x.payload.length ∧ remaining = (payloads (x :: rest)).length ∧
      Stretch (x :: rest) ∧ Along (HoldsAt rxBuffer) (head+1) rest ∧ c.rc = none ∧
      rcLen+c.pktLength = (payloads (front ++ x :: rest)).length := by
  cases h with
  | between hrest =>
    cases hpc
    cases hrest
  | copying => cases hpc
  | leaving hleave => rcases hleave with rfl | rfl <;> cases hpc
  | bumping hhead hrest hdata hrc hlen =>
    obtain ⟨rfl,rfl,rfl⟩ := ReadPc.bumping.inj hpc
    exact ⟨_,_,_,_,_,rfl,rfl,rfl,rfl,hrest,hdata,hrc,hlen⟩

theorem Progress.bumping_le {copy remaining head : Nat} (h : Progress rxBuffer r call)
    (hpc : r.pc = .bumping copy remaining head) : copy ≤ remaining := by
  obtain ⟨_,rest,x,_,_,_,_,hcopy,hleft,_⟩ := h.bumping_inv hpc
  rw [hcopy, hleft, payloads_cons, List.length_append]
  exact Nat.le_add_right ..

theorem Progress.leaving_inv (h : Progress rxBuffer r call)
    (hpc : r.pc = .clearing ∨ r.pc = .crediting) : ∃ rcLen c,
      r = ⟨r.pc,rcLen,.holding (payloads r.took),r.took⟩ ∧ call = some c ∧
      c.rc = some c.pktLength ∧ rcLen+c.pktLength = (payloads r.took).length := by
  cases h with
  | between hrest => rcases hpc with hpc | hpc <;> cases hpc <;> cases hrest
  | copying => rcases hpc with hpc | hpc <;> cases hpc
  | bumping => rcases hpc with hpc | hpc <;> cases hpc
  | leaving _ hrc hlen => exact ⟨_,_,rfl,rfl,hrc,hlen⟩

end progress

def ReadSystem.pending (s : ReadSystem) : List Slot := s.sent.drop s.rx.consumed

/-- The ring holds what waits: the results in place, and the data. -/
structure ReadSystem.Stored (s : ReadSystem) : Prop where
  order : s.rx.InOrder
  filled : s.sent.length = s.rx.filled
  formed : ∀ x ∈ s.sent, x.WellFormed
  result : Along (fun a x => s.rx.ring.result (a % rxBufPages) = x.result) s.rx.consumed s.pending
  data : Along (HoldsAt s.rxBuffer) s.rx.consumed s.pending

theorem ReadSystem.opened_stored (creditMode : Bool) : (ReadSystem.opened creditMode).Stored where
  order := cyclicTransferSetup_inOrder creditMode
  filled := rfl
  formed := by simp [ReadSystem.opened]
  result := Along.nil
  data := Along.nil

def ReadSystem.hasRoom (s : ReadSystem) : Prop := s.rx.filled % rxBufPages ∉ s.rx.waiting

instance (s : ReadSystem) : Decidable s.hasRoom := inferInstanceAs (Decidable (¬ _))

section stored

variable {s t : ReadSystem}

theorem ReadSystem.Stored.pending_length (h : s.Stored) :
    s.pending.length = s.rx.waiting.length := by
  rw [ReadSystem.pending, List.length_drop, h.filled, h.order.filled, Nat.add_sub_cancel_left]

theorem ReadSystem.Stored.consumed_le (h : s.Stored) : s.rx.consumed ≤ s.sent.length := by
  rw [h.filled, h.order.filled]
  omega

theorem ReadSystem.Stored.keep (h : s.Stored) (horder : t.rx.InOrder) (hsent : t.sent = s.sent)
    (hfilled : t.rx.filled = s.rx.filled) (hconsumed : t.rx.consumed = s.rx.consumed)
    (hresult : t.rx.ring.result = s.rx.ring.result) (hbuffer : t.rxBuffer = s.rxBuffer) :
    t.Stored := by
  have hpending : t.pending = s.pending := by
    rw [ReadSystem.pending, ReadSystem.pending, hsent, hconsumed]
  refine ⟨horder,?_,?_,?_,?_⟩
  · rw [hsent, hfilled]
    exact h.filled
  · rw [hsent]
    exact h.formed
  · rw [hpending, hconsumed, hresult]
    exact h.result
  · rw [hpending, hconsumed, hbuffer]
    exact h.data

theorem ReadSystem.Stored.service {creditMode : Bool} (h : s.Stored) :
    (s.service creditMode s.rx.process).Stored := by
  obtain ⟨k,hk,_⟩ := s.rx.ring.process_spec
  exact h.keep h.order.process rfl rfl rfl hk.result rfl

theorem ReadSystem.fill_elsewhere {x : Slot} (hx : x.WellFormed) {i k : Nat}
    (hi : i ≠ s.rx.filled % rxBufPages) (hk : k < rxBufBlock) :
    (s.fill x (s.rx.fill x.result)).rxBuffer (i*rxBufBlock+k) = s.rxBuffer (i*rxBufBlock+k) := by
  have hblock := hx.bounds.2
  simp only [ReadSystem.fill]
  rw [if_neg]
  simp only [rxBufBlock] at hk hblock ⊢
  omega

theorem ReadSystem.Stored.fill {x : Slot} (h : s.Stored) (hx : x.WellFormed) (hslot : s.hasRoom) :
    (s.fill x (s.rx.fill x.result)).Stored := by
  have hroom := h.order.room
  have hfilled := h.order.filled
  have hlen := h.pending_length
  have hblock := hx.bounds.2
  -- the slot is on the ring
  have hfew : s.rx.waiting.length < rxBufPages := by
    by_contra hge
    refine hslot ?_
    rw [h.order.waiting, show s.rx.waiting.length = rxBufPages by omega]
    exact mem_span_round (Nat.mod_lt _ (by decide))
  have hother : ∀ j x', s.pending[j]? = some x' →
      (s.rx.consumed+j) % rxBufPages ≠ s.rx.filled % rxBufPages := by
    intro j x' hj
    have hlt : j < s.pending.length := (List.getElem?_eq_some_iff.mp hj).1
    exact slot_ne (by omega) (by omega)
  have hpending : (s.fill x (s.rx.fill x.result)).pending = s.pending ++ [x] := by
    simp only [ReadSystem.fill, ReadSystem.pending, RxSystem.fill,
      List.drop_append_of_le_length h.consumed_le]
  have hconsumed : (s.fill x (s.rx.fill x.result)).rx.consumed = s.rx.consumed := rfl
  refine ⟨h.order.fill hfew x.result,?_,fun y hy => ?_,?_,?_⟩
  · simp [ReadSystem.fill, RxSystem.fill, h.filled]
  · simp only [ReadSystem.fill, List.mem_append, List.mem_singleton] at hy
    rcases hy with hy | rfl
    · exact h.formed y hy
    · exact hx
  · rw [hpending]
    refine Along.snoc (h.result.mono fun j y hj hy => ?_) ?_
    · rw [← hy]
      exact Function.update_of_ne (hother j y hj) _ _
    · rw [hlen, hconsumed, ← hfilled]
      exact Function.update_self ..
  · rw [hpending]
    refine Along.snoc (h.data.mono fun j y hj hy => ?_) ?_
    · exact hy.buffer (h.formed y (List.mem_of_mem_drop (List.mem_of_getElem? hj))).bounds.2
        fun k hk => ReadSystem.fill_elsewhere hx (hother j y hj) hk
    · intro k hk
      rw [hlen, hconsumed, ← hfilled]
      simp only [ReadSystem.fill]
      rw [if_pos ⟨by omega,by omega⟩, Nat.add_sub_cancel_left]

structure ReadSystem.Taking (s : ReadSystem) : Prop where
  fault : s.rx.ring.complete.fault = false
  length : s.batch.length = s.rx.ring.complete.numCredit
  waiting : s.rx.ring.complete.numCredit ≤ s.rx.waiting.length
  noticed : s.rx.ring.complete.numCredit ≤ s.rx.noticed.length
  pktLength : s.rx.ring.complete.pktLength = (payloads s.batch).length
  stretch : Stretch s.batch
  closes : closes Slot.eop s.batch = s.rx.ring.complete.eop
  drained : s.rx.ring.complete.eop = false →
    s.rx.ring.complete.numCredit = s.rx.noticed.length

theorem ReadSystem.Taking.taken (h : s.Taking) :
    s.rx.ring.complete.taken = s.rx.ring.complete.numCredit := by
  simp [Completion.taken, h.fault]

theorem ReadSystem.Taking.consumed (h : s.Taking) (i : Nat) :
    (s.lock i (s.rx.lock i)).rx.consumed = s.rx.consumed+s.rx.ring.complete.numCredit := by
  rw [← h.taken]
  rfl

theorem ReadSystem.Taking.sent (h : s.Taking) (i : Nat) :
    (s.lock i (s.rx.lock i)).sent.take (s.lock i (s.rx.lock i)).rx.consumed =
      s.sent.take s.rx.consumed ++ s.batch := by
  rw [h.consumed]
  exact List.take_add

theorem ReadSystem.Taking.reader (h : s.Taking) (i : Nat) :
    (s.lock i (s.rx.lock i)).readers = Function.update s.readers i
      ((s.readers i).copies (payloads s.batch).length s.rx.ring.rxHead s.batch) := by
  simp [ReadSystem.lock, h.fault, h.pktLength]

theorem ReadSystem.Taking.calls (h : s.Taking) (i : Nat) :
    (s.lock i (s.rx.lock i)).rx.calls = Function.update s.rx.calls i (some s.rx.ring.unlocked) := by
  simp [ReadSystem.lock, RxSystem.lock, h.fault]

theorem ReadSystem.Stored.ahead (h : s.Stored) {j : Nat} {x : Slot} (hj : s.pending[j]? = some x)
    (hlt : j < rxBufPages) : s.rx.ring.ahead j = x.result := by
  rw [RxRing.ahead, if_pos hlt, h.order.head, Nat.mod_add_mod]
  exact h.result j x hj

theorem ReadSystem.Stored.taking (h : s.Stored) (hoff : s.rx.ring.rxOverrun = false) : s.Taking := by
  obtain ⟨hspec,hend⟩ := s.rx.ring.complete_spec
  have hnoticed := h.order.toTracked.taken_le hoff
  have hahead := h.order.ahead
  have hlen := h.pending_length
  have hround : s.rx.noticed.length < rxBufPages := by
    have hne := mt h.order.overrun.mpr (by simp [hoff])
    have := h.order.within
    omega
  have hlook : ∀ j < s.rx.noticed.length, ∃ x, s.pending[j]? = some x ∧
      s.rx.ring.ahead j = x.result := by
    intro j hj
    have hx : s.pending[j]? = some _ := List.getElem?_eq_getElem (by omega)
    exact ⟨_,hx,h.ahead hx (by omega)⟩
  have hformed : ∀ x ∈ s.pending, x.WellFormed := fun x hx => h.formed x (List.mem_of_mem_drop hx)
  have hfault : s.rx.ring.complete.fault = false := by
    by_contra hf
    have hf := Bool.eq_true_of_not_eq_false hf
    have hcount : s.rx.ring.complete.taken = s.rx.ring.complete.numCredit+1 := by
      simp [Completion.taken, hf]
    obtain ⟨x,hx,heq⟩ := hlook s.rx.ring.complete.numCredit (by omega)
    have hmal := hspec.fault hf
    rw [heq, (hformed x (List.mem_of_getElem? hx)).valid] at hmal
    cases hmal
  have hcount : s.rx.ring.complete.taken = s.rx.ring.complete.numCredit := by
    simp [Completion.taken, hfault]
  rw [hcount] at hnoticed
  have hbatch : ∀ x ∈ s.batch, x.WellFormed := fun x hx => hformed x (List.mem_of_mem_take hx)
  have hsize : s.batch.length = s.rx.ring.complete.numCredit := by
    rw [ReadSystem.batch, List.length_take, ← ReadSystem.pending]
    omega
  have hfront : s.rx.ring.front s.rx.ring.complete.numCredit = s.batch.map Slot.result := by
    refine List.ext_getElem? fun j => ?_
    rcases Nat.lt_or_ge j s.rx.ring.complete.numCredit with hlt | hge
    · obtain ⟨x,hx,heq⟩ := hlook j (by omega)
      have hxb : s.batch[j]? = some x := by
        rw [ReadSystem.batch, List.getElem?_take, if_pos hlt]
        exact hx
      rw [List.getElem?_map, hxb, RxRing.front, List.getElem?_map, List.getElem?_range hlt,
        Option.map_some, Option.map_some, heq]
    · rw [List.getElem?_eq_none (by simpa [RxRing.front] using hge),
        List.getElem?_eq_none (by simpa [hsize] using hge)]
  have hat : ∀ j x, s.batch[j]? = some x → (s.rx.ring.ahead j).eop = x.eop := by
    intro j x hx
    rw [ReadSystem.batch, List.getElem?_take] at hx
    split at hx
    · rw [h.ahead hx (by omega)]
      rfl
    · cases hx
  refine ⟨hfault,hsize,by omega,hnoticed,?_,⟨hbatch,fun x hx => ?_⟩,?_,fun heop => ?_⟩
  · rw [hspec.length, hfront, resultBytes_map hbatch]
  · rw [List.dropLast_eq_take] at hx
    obtain ⟨j,hj⟩ := List.mem_iff_getElem?.mp hx
    rw [List.getElem?_take] at hj
    split at hj
    · rw [← hat j x hj]
      exact hspec.plain j (by omega)
    · cases hj
  · rw [Bool.eq_iff_iff, hspec.eop, Framing.closes, List.getLast?_eq_getElem?, hsize]
    cases hzero : s.rx.ring.complete.numCredit with
    | zero =>
      have hnil : s.batch = [] := List.eq_nil_of_length_eq_zero (by omega)
      simp [hnil]
    | succ k =>
      obtain ⟨x,hx⟩ : ∃ x, s.batch[k]? = some x := ⟨_,List.getElem?_eq_getElem (by omega)⟩
      simp [hx, ← hat k x hx]
  · -- it came to the tail
    simp only [Completion.more, hfault, heop, hspec.overrun, hoff, hspec.head, hspec.tail, hcount,
      Bool.or_self, Bool.or_false, Bool.not_false, Bool.and_true, bne_eq_false_iff_eq, h.order.head,
      h.order.tail, Nat.mod_add_mod] at hend
    have hsame := slot_inj hend (by omega) (by omega)
    omega

theorem ReadSystem.Stored.lock (h : s.Stored) (hoff : s.rx.ring.rxOverrun = false) (i : Nat) :
    (s.lock i (s.rx.lock i)).Stored := by
  have hspec := s.rx.ring.complete_spec.1
  have htaking := h.taking hoff
  have hroom := h.order.room
  have hlen := h.pending_length
  have hwaiting := htaking.waiting
  have hconsumed := htaking.consumed i
  have hpending : (s.lock i (s.rx.lock i)).pending =
      s.pending.drop s.rx.ring.complete.numCredit := by
    rw [ReadSystem.pending, hconsumed, ReadSystem.pending, List.drop_drop]
    rfl
  refine ⟨(h.order.lock hoff i).1,h.filled,h.formed,?_,?_⟩
  · rw [hpending, hconsumed]
    refine Along.mono (h.result.drop s.rx.ring.complete.numCredit) fun j x hj hx => ?_
    have hlt := (List.getElem?_eq_some_iff.mp hj).1
    rw [List.length_drop] at hlt
    have hout : (s.rx.consumed+s.rx.ring.complete.numCredit+j) % rxBufPages ∉
        span rxBufPages s.rx.ring.rxHead s.rx.ring.complete.taken := by
      rw [h.order.head, span_mod, htaking.taken, mem_span_slot (by omega) (by omega) (by omega)]
      omega
    rw [← hx]
    exact (hspec.result _).trans (if_neg hout)
  · rw [hpending, hconsumed]
    exact h.data.drop s.rx.ring.complete.numCredit

theorem ReadSystem.Stored.step {c : RxSetting} {op : ReadOp} (h : s.Stored)
    (hfill : ∀ x, op = .fill x → x.WellFormed ∧ s.hasRoom)
    (hoff : ∀ i, op = .lock i ∨ op = .clear i → s.rx.ring.rxOverrun = false)
    (hstep : ReadStep c s op t) : t.Stored := by
  cases hstep with
  | @fill x =>
    obtain ⟨hx,hslot⟩ := hfill x rfl
    exact h.fill hx hslot
  | service => exact h.service
  | @lock i => exact h.lock (hoff i (Or.inl rfl)) i
  | @clear i call _ _ _ =>
    exact h.keep (h.order.clear (hoff i (Or.inr rfl)) i call) rfl rfl rfl rfl rfl
  | copyFails | copied | credit =>
    exact h.keep (h.order.keep rfl rfl rfl rfl rfl) rfl rfl rfl rfl rfl
  | _ => exact h.keep h.order rfl rfl rfl rfl rfl

end stored

end DmaCamera
