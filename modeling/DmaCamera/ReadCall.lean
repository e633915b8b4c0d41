import DmaCamera.Receive
set_option autoImplicit false

namespace DmaCamera
open Circular Countdown

/-- The caller's memory as far as a read has written it, by the offset from `buf`. -/
abbrev UserBuffer := Nat → Option Byte

def UserBuffer.untouched : UserBuffer := fun _ => none

def UserBuffer.write (user : UserBuffer) (index n : Nat) (data : Nat → Byte) : UserBuffer :=
  fun o => if index ≤ o ∧ o < index+n then some (data (o-index)) else user o

def copyLength (remaining : Nat) : Nat :=
  if remaining > rxBufBlock then rxBufBlock else remaining

def bumpIndex (index copy : Nat) : Nat := (index+copy) % 2^32

/-- What `copy_cyclic_to_user` leaves: the bytes of a block that `copy_to_user` did
not copy, if it failed, the index and the memory. -/
structure CopyResult where
  uncopied : Option Nat
  index : Nat
  user : UserBuffer

/-- The loop of `copy_cyclic_to_user`; `left` says how much of a block cannot be
copied. The fuel is more than the blocks. -/
def copyLoop (rxBuffer : Nat → Byte) (left : Nat → Nat) :
    Nat → Nat → Nat → Nat → UserBuffer → CopyResult
  | 0, _, _, index, user => ⟨none,index,user⟩
  | fuel+1, remaining, head, index, user =>
    if remaining = 0 then ⟨none,index,user⟩ else
      let copy := copyLength remaining
      let uncopied := min (left fuel) copy
      let user := user.write index (copy-uncopied) fun k => rxBuffer (head*rxBufBlock+k)
      if uncopied ≠ 0 then ⟨some uncopied,index,user⟩
      else copyLoop rxBuffer left fuel (remaining-copy) ((head+1) % rxBufPages)
        (bumpIndex index copy) user

/-- What a pass of the loop of `char_sgdma_read_cyclic` meets: a signal while it
waits, or the ring and its data when it takes the lock, and `eop_found` at its end. -/
inductive Pass where
  | signal
  | locked (ring : RxRing) (rxBuffer : Nat → Byte) (eopFound : Bool)

def readCyclicLoop (left : Nat → Nat → Nat) :
    List Pass → Int → Nat → UserBuffer → Option Int × UserBuffer
  | [], _, _, user => (none,user)
  | .signal :: _, _, _, user => (some (-eRestartSys),user)
  | .locked ring rxBuffer eopFound :: rest, rcLen, index, user =>
    let c := ring.complete
    let r := if c.fault then ⟨none,index,user⟩
      else copyLoop rxBuffer (left rest.length) c.pktLength c.pktLength ring.rxHead index user
    let rc : Int := if c.fault then -eIo else (r.uncopied.getD c.pktLength : Nat)
    if eopFound then (some (rcLen+rc),r.user)
    else readCyclicLoop left rest (rcLen+rc) r.index r.user

/-- `rc_len` is an `int`. -/
def charSgdmaReadCyclic (left : Nat → Nat → Nat) (passes : List Pass) : Option Int × UserBuffer :=
  let r := readCyclicLoop left passes 0 0 .untouched
  (r.1.map fun rcLen => Int.bmod rcLen (2^32),r.2)

/-- The count is not passed on. -/
def charSgdmaRead (left : Nat → Nat → Nat) (passes : List Pass) (_count : Nat) :
    Option Int × UserBuffer := charSgdmaReadCyclic left passes

/-- The bytes of results up to the first EOP; nothing if a malformed one comes first. -/
def sectionBytes : List XdmaResult → Option Nat
  | [] => some 0
  | r :: rs => if r.malformed then none else
    if r.eop then some r.length.toNat else (sectionBytes rs).map (r.length.toNat + ·)

/-- The results that head, tail and flag offer; with the flag up, all the slots and
then the first one again. -/
def RxRing.pending (r : RxRing) : List XdmaResult :=
  r.front (if r.rxOverrun then rxBufPages+1 else (r.rxTail+rxBufPages-r.rxHead) % rxBufPages)

theorem sectionBytes_append {l : List XdmaResult} (rest : List XdmaResult)
    (h : ∀ r ∈ l, r.malformed = false ∧ r.eop = false) :
    sectionBytes (l ++ rest) = (sectionBytes rest).map (resultBytes l + ·) := by
  induction l with
  | nil => simp [resultBytes]
  | cons r l ih =>
    have hr := h r (by simp)
    simp only [List.cons_append, sectionBytes, hr.1, hr.2, Bool.false_eq_true, if_false,
      ih fun x hx => h x (by simp [hx]), Option.map_map, resultBytes, total_cons]
    congr 1
    funext n
    simp [Nat.add_assoc]

theorem front_split (r : RxRing) {k n : Nat} (h : k < n) :
    ∃ rest, r.front n = r.front k ++ r.ahead k :: rest := by
  induction n with
  | zero => omega
  | succ n ih =>
    rcases Nat.lt_succ_iff_lt_or_eq.mp h with hlt | rfl
    · obtain ⟨rest,hrest⟩ := ih hlt
      exact ⟨rest ++ [r.ahead n],by simp [front_succ, hrest]⟩
    · exact ⟨[],front_succ r k⟩

theorem complete_bytes (r : RxRing) : sectionBytes r.pending =
    if r.complete.fault then none else some r.complete.pktLength := by
  obtain ⟨h,hend⟩ := r.complete_spec
  have hle := h.numCredit_le
  have htail : r.rxOverrun = false →
      (r.rxHead+(r.rxTail+rxBufPages-r.rxHead) % rxBufPages) % rxBufPages = r.rxTail :=
    fun _ => add_distance r.head_lt r.tail_lt
  obtain ⟨n,hn⟩ : ∃ n, n = if r.rxOverrun then rxBufPages+1
    else (r.rxTail+rxBufPages-r.rxHead) % rxBufPages := ⟨_,rfl⟩
  have htaken : r.complete.taken ≤ n := by
    cases ho : r.rxOverrun with
    | true =>
      have := Bool.toNat_le r.complete.fault
      simp only [ho, if_true] at hn
      simp only [Completion.taken]
      omega
    | false =>
      by_contra hlt
      simp only [ho, Bool.false_eq_true, if_false] at hn
      exact h.within ho n (by omega) (by rw [hn]; exact htail ho)
  have hfront : ∀ k, k < r.complete.taken → k ≤ r.complete.numCredit →
      ∀ x ∈ r.front k, x.malformed = false ∧ x.eop = false := by
    intro k hk hk' x hx
    obtain ⟨j,hj,rfl⟩ := List.mem_map.mp hx
    have hj := List.mem_range.mp hj
    exact ⟨h.valid j (by omega),h.plain j (by omega)⟩
  rw [RxRing.pending, ← hn]
  cases hf : r.complete.fault with
  | true =>
    have hcount : r.complete.taken = r.complete.numCredit+1 := by simp [Completion.taken, hf]
    obtain ⟨rest,hrest⟩ := front_split r (k := r.complete.numCredit) (n := n) (by omega)
    rw [hrest, sectionBytes_append _ (hfront _ (by omega) (Nat.le_refl _))]
    simp [sectionBytes, h.fault hf]
  | false =>
    have hcount : r.complete.taken = r.complete.numCredit := by simp [Completion.taken, hf]
    by_cases he : r.complete.eop = true
    · obtain ⟨j,hj,hjeop⟩ := h.eop.mp he
      obtain ⟨rest,hrest⟩ := front_split r (k := j) (n := n) (by omega)
      rw [hrest, sectionBytes_append _ (hfront _ (by omega) (by omega)), h.length, hj, front_succ]
      simp [sectionBytes, h.valid j (by omega), hjeop, resultBytes, total_append]
    · simp only [Completion.more, hf, he, h.overrun, h.head, h.tail, hcount, Bool.or_self,
        Bool.not_false, Bool.and_true, Bool.or_eq_false_iff, bne_eq_false_iff_eq] at hend
      obtain ⟨hmet,ho⟩ := hend
      have hdist := htail ho
      simp only [ho, Bool.false_eq_true, if_false] at hn
      have hnN : n < rxBufPages := hn ▸ Nat.mod_lt _ (by decide)
      have hall : r.complete.numCredit = n := by
        have := slot_inj (hmet.trans (hn ▸ hdist).symm) (by omega) (by omega)
        omega
      have hplain : ∀ x ∈ r.front n, x.malformed = false ∧ x.eop = false := by
        intro x hx
        obtain ⟨j,hj,rfl⟩ := List.mem_map.mp hx
        have hj := List.mem_range.mp hj
        refine ⟨h.valid j (by omega),?_⟩
        by_contra hjeop
        have hjeop := Bool.eq_true_of_not_eq_false hjeop
        rcases Nat.lt_or_ge (j+1) r.complete.taken with hlt | hge
        · simp [h.plain j hlt] at hjeop
        · exact he (h.eop.mpr ⟨j,by omega,hjeop⟩)
      have hbytes := sectionBytes_append [] hplain
      rw [List.append_nil] at hbytes
      rw [hbytes, h.length, hall]
      simp [sectionBytes]

theorem sectionBytes_getD (r : RxRing) : (sectionBytes r.pending).getD 0 =
    if r.complete.fault then 0 else r.complete.pktLength := by
  rw [complete_bytes]
  split <;> rfl

def readBytes : List Pass → Nat
  | [] => 0
  | .signal :: _ => 0
  | .locked ring _ eopFound :: rest =>
    (sectionBytes ring.pending).getD 0 + if eopFound then 0 else readBytes rest

/-- Nothing is written outside the caller's buffer, nor more returned than it holds. -/
def Within (count : Nat) (r : Option Int × UserBuffer) : Prop :=
  (∀ o, r.2 o ≠ none → o < count) ∧ ∀ rc, r.1 = some rc → rc ≤ count

/-- The `MAX_RW_COUNT` of the kernel, which no count passed to `read` exceeds. -/
def maxRwCount : Nat := 0x7ffff000

theorem copyLength_le (remaining : Nat) : copyLength remaining ≤ remaining := by
  unfold copyLength
  split <;> omega

theorem copyLength_pos {remaining : Nat} (h : remaining ≠ 0) : 0 < copyLength remaining := by
  unfold copyLength
  split
  · decide
  · omega

structure Below (T : Nat) (index : Nat) (user : UserBuffer) : Prop where
  index : index ≤ T
  user : ∀ o, user o ≠ none → o < T

theorem Below.write {T index : Nat} {user : UserBuffer} (h : Below T index user) {n copy : Nat}
    (hn : n ≤ copy) (data : Nat → Byte) (o : Nat) (ho : user.write index n data o ≠ none) :
    o < T+copy := by
  have hi := h.index
  unfold UserBuffer.write at ho
  split at ho
  · omega
  · have := h.user o ho
    omega

theorem copyLoop_below (rxBuffer : Nat → Byte) (left : Nat → Nat) (fuel remaining head : Nat)
    {T index : Nat} {user : UserBuffer} (h : Below T index user) (hT : T+remaining < 2^32) :
    Below (T+remaining) (copyLoop rxBuffer left fuel remaining head index user).index
      (copyLoop rxBuffer left fuel remaining head index user).user ∧
    ∀ u, (copyLoop rxBuffer left fuel remaining head index user).uncopied = some u →
      u ≤ remaining := by
  have hi := h.index
  induction fuel generalizing remaining head T index user with
  | zero => exact ⟨⟨Nat.le_add_right_of_le hi,fun o ho => Nat.lt_add_right _ (h.user o ho)⟩,by
      simp [copyLoop]⟩
  | succ fuel ih =>
    have hle := copyLength_le remaining
    simp only [copyLoop]
    split
    · exact ⟨⟨Nat.le_add_right_of_le hi,fun o ho => Nat.lt_add_right _ (h.user o ho)⟩,by simp⟩
    · split
      · refine ⟨⟨Nat.le_add_right_of_le hi,fun o ho => ?_⟩,fun u hu => ?_⟩
        · have := h.write (Nat.sub_le (copyLength remaining) (min (left fuel) (copyLength remaining)))
            (fun k => rxBuffer (head*rxBufBlock+k)) o ho
          omega
        · cases hu
          omega
      · rename_i hdone
        have hmod : bumpIndex index (copyLength remaining) = index+copyLength remaining :=
          Nat.mod_eq_of_lt (by omega)
        have hnext : Below (T+copyLength remaining) (bumpIndex index (copyLength remaining))
            (user.write index (copyLength remaining-min (left fuel) (copyLength remaining))
              fun k => rxBuffer (head*rxBufBlock+k)) :=
          ⟨by omega,fun o ho => h.write (Nat.sub_le _ _) _ o ho⟩
        have hrest := ih (remaining-copyLength remaining) ((head+1) % rxBufPages) hnext (by omega)
          hnext.index
        rw [show T+copyLength remaining+(remaining-copyLength remaining) = T+remaining by omega]
          at hrest
        exact ⟨hrest.1,fun u hu => by
          have := hrest.2 u hu
          omega⟩

structure Covers (w : Nat) (index : Nat) (user : UserBuffer) : Prop where
  index : index = w % 2^32
  user : ∀ o, o < w → o < 2^32 → user o ≠ none

theorem Covers.write {w index : Nat} {user : UserBuffer} (h : Covers w index user) (n : Nat)
    (data : Nat → Byte) : Covers (w+n) (bumpIndex index n) (user.write index n data) := by
  refine ⟨by simp [bumpIndex, h.index],fun o ho hlt => ?_⟩
  unfold UserBuffer.write
  split
  · simp
  · rename_i hout
    refine h.user o ?_ hlt
    have hi := h.index
    by_contra hge
    rw [Nat.mod_eq_of_lt (by omega)] at hi
    omega

theorem copyLoop_covers (rxBuffer : Nat → Byte) (fuel remaining head : Nat) {w index : Nat}
    {user : UserBuffer} (h : Covers w index user) (hfuel : remaining ≤ fuel) :
    Covers (w+remaining) (copyLoop rxBuffer (fun _ => 0) fuel remaining head index user).index
      (copyLoop rxBuffer (fun _ => 0) fuel remaining head index user).user := by
  induction fuel generalizing remaining head w index user with
  | zero =>
    obtain rfl : remaining = 0 := by omega
    simpa [copyLoop] using h
  | succ fuel ih =>
    simp only [copyLoop]
    split
    · rename_i hzero
      simpa [hzero] using h
    · rename_i hpos
      have hle := copyLength_le remaining
      have hlt := copyLength_pos hpos
      simp only [Nat.zero_min, Nat.sub_zero, ne_eq, not_true, if_false]
      have hrest := ih (remaining-copyLength remaining) ((head+1) % rxBufPages)
        (h.write (copyLength remaining) fun k => rxBuffer (head*rxBufBlock+k)) (by omega)
      rwa [show w+copyLength remaining+(remaining-copyLength remaining) = w+remaining by omega]
        at hrest

theorem readCyclicLoop_within (left : Nat → Nat → Nat) (passes : List Pass) {T index : Nat}
    {rcLen : Int} {user : UserBuffer} (h : Below T index user) (hrc : rcLen ≤ T)
    (hT : T+readBytes passes < 2^32) :
    Within (T+readBytes passes) (readCyclicLoop left passes rcLen index user) := by
  induction passes generalizing T index rcLen user with
  | nil => exact ⟨fun o ho => Nat.lt_add_right _ (h.user o ho),by simp [readCyclicLoop]⟩
  | cons pass rest ih =>
    cases pass with
    | signal =>
      refine ⟨fun o ho => Nat.lt_add_right _ (h.user o ho),fun rc hrc => ?_⟩
      simp only [readCyclicLoop, Option.some.injEq] at hrc
      simp only [eRestartSys] at hrc
      omega
    | locked ring rxBuffer eopFound =>
      simp only [readBytes, sectionBytes_getD] at hT ⊢
      simp only [readCyclicLoop]
      obtain ⟨L,hL⟩ : ∃ L, L = if ring.complete.fault then 0 else ring.complete.pktLength := ⟨_,rfl⟩
      rw [← hL] at hT ⊢
      -- what one pass leaves
      obtain ⟨r,hr⟩ : ∃ r, r = if ring.complete.fault then ⟨none,index,user⟩
        else copyLoop rxBuffer (left rest.length) ring.complete.pktLength ring.complete.pktLength
          ring.rxHead index user := ⟨_,rfl⟩
      obtain ⟨rc,hrcdef⟩ : ∃ rc : Int, rc = if ring.complete.fault then -eIo
        else (r.uncopied.getD ring.complete.pktLength : Nat) := ⟨_,rfl⟩
      have hpass : Below (T+L) r.index r.user ∧ rc ≤ L := by
        cases hf : ring.complete.fault with
        | true =>
          simp only [hf, if_true] at hr hL hrcdef
          subst hr hL hrcdef
          exact ⟨h,by simp [eIo]⟩
        | false =>
          simp only [hf, Bool.false_eq_true, if_false] at hr hL hrcdef
          subst hL
          obtain ⟨hb,hu⟩ := copyLoop_below rxBuffer (left rest.length) ring.complete.pktLength
            ring.complete.pktLength ring.rxHead h (by omega)
          rw [← hr] at hb hu
          refine ⟨hb,?_⟩
          rw [hrcdef, Int.ofNat_le]
          cases hc : r.uncopied with
          | none => exact Nat.le_refl _
          | some u => exact hu u hc
      rw [← hr, ← hrcdef]
      cases eopFound with
      | true =>
        refine ⟨fun o ho => ?_,fun x hx => ?_⟩
        · simpa using hpass.1.user o ho
        · simp only [if_true, Option.some.injEq] at hx
          simp only [if_true]
          omega
      | false =>
        simp only [Bool.false_eq_true, if_false] at hT ⊢
        rw [← Nat.add_assoc]
        exact ih hpass.1 (by push_cast; omega) (by omega)

theorem readCyclicLoop_covers (passes : List Pass) {w index : Nat} (rcLen : Int)
    {user : UserBuffer} (h : Covers w index user) {o : Nat} (ho : o < w+readBytes passes)
    (hlt : o < 2^32) : (readCyclicLoop (fun _ _ => 0) passes rcLen index user).2 o ≠ none := by
  induction passes generalizing w index rcLen user with
  | nil => exact h.user o (by simpa [readBytes] using ho) hlt
  | cons pass rest ih =>
    cases pass with
    | signal => exact h.user o (by simpa [readBytes] using ho) hlt
    | locked ring rxBuffer eopFound =>
      simp only [readBytes, sectionBytes_getD] at ho
      simp only [readCyclicLoop]
      obtain ⟨r,hr⟩ : ∃ r, r = if ring.complete.fault then ⟨none,index,user⟩
        else copyLoop rxBuffer (fun _ => 0) ring.complete.pktLength ring.complete.pktLength
          ring.rxHead index user := ⟨_,rfl⟩
      have hpass : Covers (w+if ring.complete.fault then 0 else ring.complete.pktLength) r.index
          r.user := by
        cases hf : ring.complete.fault with
        | true =>
          simp only [hf, if_true] at hr ⊢
          subst hr
          exact h
        | false =>
          simp only [hf, Bool.false_eq_true, if_false] at hr ⊢
          subst hr
          exact copyLoop_covers rxBuffer _ _ _ h (Nat.le_refl _)
      rw [← hr]
      cases eopFound with
      | true => exact hpass.user o (by simpa using ho) hlt
      | false =>
        simp only [Bool.false_eq_true, if_false] at ho ⊢
        exact ih _ hpass (by omega)

def onePacketRing (length : U32) : RxRing :=
  ⟨0,1,false,Function.update (fun _ => .cleared) 0 ⟨0x52B40001,length⟩,rxBufPages_pos,one_lt_rxBufPages⟩

end DmaCamera
