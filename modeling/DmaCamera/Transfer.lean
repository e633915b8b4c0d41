import DmaCamera.Mapper
set_option autoImplicit false

namespace DmaCamera
open Loops Spans

inductive TransferState where
  | new | submitted | completed | failed
  deriving DecidableEq, Repr

abbrev Kiocb := Nat

structure XdmaTransfer where
  descVirt : Nat → XdmaDesc
  descBus : U64
  descAdjacent : Nat
  descNum : Nat
  dirToDev : Bool
  iocb : Option Kiocb
  sglNents : Nat
  sgm : Option SgMapping
  userspace : Bool
  state : TransferState
  cyclic : Bool
  lastInRequest : Bool
  sizeOfRequest : Nat

def XdmaTransfer.zero : XdmaTransfer where
  descVirt := default
  descBus := 0
  descAdjacent := 0
  descNum := 0
  dirToDev := false
  iocb := none
  sglNents := 0
  sgm := none
  userspace := false
  state := .new
  cyclic := false
  lastInRequest := false
  sizeOfRequest := 0

instance : Inhabited XdmaTransfer := ⟨.zero⟩

structure BuildMode where
  dirToDev : Bool
  nonIncrAddr : Bool
  forceNewDesc : Bool
  userspace : Bool

/-- The locals of `transfer_build`: the descriptor being filled, and the
contiguous block collected for it so far. -/
structure BuildState where
  j : Nat
  contAddr : U64
  contLen : Nat
  epAddr : U64
  descVirt : Nat → XdmaDesc

def BuildState.setDesc (st : BuildState) (nents : Nat) (dirToDev : Bool) :
    Except Fault (Nat → XdmaDesc) :=
  if st.j < nents then
    .ok (Function.update st.descVirt st.j
      (xdmaDescSet (st.descVirt st.j) st.contAddr st.epAddr st.contLen dirToDev))
  else .error .outOfBounds

/-- The entry at `next` is not contiguous with `entry`, or the block has reached
the maximum transfer size, or every entry must have its own descriptor. -/
def needsNewDesc (m : BuildMode) (entry next : SgEntry) (contLen : Nat) : Bool :=
  next.dmaAddress != entry.dmaAddress + BitVec.ofNat 64 entry.dmaLength ||
    decide (contLen > xdmaDescMaxBytes - pageSize) || (m.forceNewDesc && !m.userspace)

def BuildState.advance (st : BuildState) (m : BuildMode) (next : SgEntry)
    (descVirt : Nat → XdmaDesc) : BuildState where
  j := st.j+1
  contAddr := next.dmaAddress
  contLen := 0
  -- for non-incremental mode of a user buffer the device address stays
  epAddr := if m.userspace && m.nonIncrAddr then st.epAddr
    else st.epAddr + BitVec.ofNat 64 st.contLen
  descVirt := descVirt

/-- The loop over the scatterlist, and the code behind it that writes the last
descriptor; it returns the index of that descriptor. -/
def transferBuildLoop (nents : Nat) (m : BuildMode) :
    List SgEntry → BuildState → Except Fault (Nat × (Nat → XdmaDesc))
  | [], _ => .error .outOfBounds
  | [entry], st =>
    let st := { st with contLen := (st.contLen+entry.dmaLength) % 2^32 }
    if st.j > nents then .error (.bug .transferBuild) else
      (st.setDesc nents m.dirToDev).map fun d => (st.j,d)
  | entry :: next :: rest, st =>
    let st := { st with contLen := (st.contLen+entry.dmaLength) % 2^32 }
    if needsNewDesc m entry next st.contLen then
      match st.setDesc nents m.dirToDev with
      | .error f => .error f
      | .ok d => transferBuildLoop nents m (next :: rest) (st.advance m next d)
    else transferBuildLoop nents m (next :: rest) st

def transferBuild (sgl : List SgEntry) (descVirt : Nat → XdmaDesc) (epAddr : U64) (m : BuildMode) :
    Except Fault (Nat × (Nat → XdmaDesc)) :=
  let contAddr := match sgl with
    | [] => 0
    | entry :: _ => entry.dmaAddress
  transferBuildLoop sgl.length m sgl ⟨0,contAddr,0,epAddr,descVirt⟩

/-- Terminate the last descriptor and let it stop the engine, with EOP for AXI
ST and an interrupt request; `transfer_create` repeats it for kernel buffers. -/
def transferPerf (descVirt : Nat → XdmaDesc) (last : Nat) : Nat → XdmaDesc :=
  Function.update descVirt last (xdmaDescControl (xdmaDescLink (descVirt last) none)
    (xdmaDescStopped ||| xdmaDescEop ||| xdmaDescCompleted))

def fillAdjacent (descNum : Nat) (descVirt : Nat → XdmaDesc) : Nat → XdmaDesc :=
  forLoop descNum (fun i d => Function.update d i (xdmaDescAdjacent (d i) (descNum-i-1))) descVirt

def filledIn (m : BuildMode) (sgm : SgMapping) (sglNents : Nat) (descBus : U64)
    (descVirt : Nat → XdmaDesc) (last : Nat) : XdmaTransfer :=
  { XdmaTransfer.zero with
    dirToDev := m.dirToDev
    sgm := some sgm
    userspace := m.userspace
    sglNents := sglNents
    descBus := descBus
    descNum := last+1
    descAdjacent := last+1
    descVirt := fillAdjacent (last+1) (transferPerf descVirt last) }

def transferCreate (k : Platform) (start cnt : Nat) (epAddr : U64) (m : BuildMode) :
    Except Fault (Option XdmaTransfer) :=
  if !k.kzallocTransfer then .ok none else
    match sgCreateMapper k cnt with
    | none => .error (.bug .transferCreate)
    | some sgm =>
      match (if m.userspace then sgmGetUserPages k sgm start cnt else sgmKernelPages k sgm start cnt) with
      | .error f => .error f
      | .ok (rc,sgm) =>
        if rc < 0 || sgm.mappedPages == 0 then .error (.bug .transferCreate) else
          let sgl := k.pciMapSg sgm.sgl
          match xdmaDescAlloc sgl.length (k.pciAllocConsistent sgl.length) with
          | .error f => .error f
          -- the result is not checked before transfer_build writes through it
          | .ok none => .error .nullPointer
          | .ok (some (descBus,descVirt)) =>
            match transferBuild sgl descVirt epAddr m with
            | .error f => .error f
            | .ok (last,descVirt) =>
              .ok (some (filledIn m sgm sgl.length descBus descVirt last))

/-! `transfer_build` keeps the chain: it writes addresses and lengths only. -/

/-- Two descriptor arrays with the same chain: next pointers and control fields. -/
def SameChain (d e : Nat → XdmaDesc) : Prop :=
  ∀ i, (e i).control = (d i).control ∧ (e i).next = (d i).next

theorem SameChain.refl (d : Nat → XdmaDesc) : SameChain d d := fun _ => ⟨rfl,rfl⟩

theorem SameChain.trans {d e f : Nat → XdmaDesc} (h : SameChain d e) (h' : SameChain e f) :
    SameChain d f := fun i => ⟨(h' i).1.trans (h i).1,(h' i).2.trans (h i).2⟩

theorem BuildState.setDesc_ok {st : BuildState} {nents : Nat} (h : st.j < nents) (dir : Bool) :
    st.setDesc nents dir = .ok (Function.update st.descVirt st.j
      (xdmaDescSet (st.descVirt st.j) st.contAddr st.epAddr st.contLen dir)) := by
  simp [setDesc, h]

theorem sameChain_set (d : Nat → XdmaDesc) (j : Nat) (rc ep : U64) (len : Nat) (dir : Bool) :
    SameChain d (Function.update d j (xdmaDescSet (d j) rc ep len dir)) := by
  intro i
  by_cases h : i = j
  · subst i
    simp
  · simp [Function.update_of_ne h]

/-- Whatever the scatterlist looks like, the loop stays inside the array and
returns an index of it. -/
theorem transferBuildLoop_chain (nents : Nat) (m : BuildMode) (es : List SgEntry) (st : BuildState)
    (hne : es ≠ []) (hfit : st.j+es.length ≤ nents) :
    ∃ last d, transferBuildLoop nents m es st = .ok (last,d) ∧ st.j ≤ last ∧ last < nents ∧
      SameChain st.descVirt d := by
  fun_induction transferBuildLoop nents m es st with
  | case1 st => exact absurd rfl hne
  | case2 entry st st' hj =>
    simp only [List.length_cons, List.length_nil] at hfit
    have : st'.j = st.j := rfl
    omega
  | case3 entry st st' hj =>
    have hlt : st'.j < nents := hfit
    refine ⟨st'.j,_,by rw [BuildState.setDesc_ok hlt]; rfl,Nat.le_refl _,hlt,?_⟩
    exact sameChain_set _ _ _ _ _ _
  | case4 entry next rest st st' hnew f hset =>
    have hlt : st'.j < nents := by
      simp only [List.length_cons] at hfit
      have : st'.j = st.j := rfl
      omega
    rw [BuildState.setDesc_ok hlt] at hset
    cases hset
  | case5 entry next rest st st' hnew d hset ih =>
    have hj : st'.j = st.j := rfl
    simp only [List.length_cons] at hfit ih
    have hlt : st'.j < nents := by omega
    rw [BuildState.setDesc_ok hlt] at hset
    cases hset
    obtain ⟨last,d,hok,hle,hlast,hc⟩ := ih (by simp) (by simp only [BuildState.advance]; omega)
    simp only [BuildState.advance] at hle
    exact ⟨last,d,hok,by omega,hlast,(sameChain_set _ _ _ _ _ _).trans hc⟩
  | case6 entry next rest st st' hnew ih =>
    simp only [List.length_cons] at hfit ih
    exact ih (by simp) (by have : st'.j = st.j := rfl; omega)

theorem transferBuild_chain {sgl : List SgEntry} (hne : sgl ≠ []) (d : Nat → XdmaDesc) (ep : U64)
    (m : BuildMode) :
    ∃ last d', transferBuild sgl d ep m = .ok (last,d') ∧ last < sgl.length ∧ SameChain d d' := by
  obtain ⟨entry,rest,rfl⟩ := List.exists_cons_of_ne_nil hne
  obtain ⟨last,d',hok,_,hlast,hc⟩ := transferBuildLoop_chain (entry :: rest).length m
    (entry :: rest) ⟨0,entry.dmaAddress,0,ep,d⟩ hne (Nat.le_of_eq (Nat.zero_add _))
  exact ⟨last,d',hok,hlast,hc⟩

structure Block where
  contAddr : U64
  contLen : Nat
  epAddr : U64

def BuildState.block (st : BuildState) : Block := ⟨st.contAddr,st.contLen,st.epAddr⟩

def Block.grow (b : Block) (entry : SgEntry) : Block :=
  { b with contLen := (b.contLen+entry.dmaLength) % 2^32 }

def Block.advance (b : Block) (m : BuildMode) (next : SgEntry) : Block where
  contAddr := next.dmaAddress
  contLen := 0
  epAddr := if m.userspace && m.nonIncrAddr then b.epAddr
    else b.epAddr + BitVec.ofNat 64 b.contLen

def transferBlocks (m : BuildMode) : List SgEntry → Block → List Block
  | [], _ => []
  | [entry], b => [b.grow entry]
  | entry :: next :: rest, b =>
    let b := b.grow entry
    if needsNewDesc m entry next b.contLen then b :: transferBlocks m (next :: rest) (b.advance m next)
    else transferBlocks m (next :: rest) b

def Block.write (b : Block) (dirToDev : Bool) (desc : XdmaDesc) : XdmaDesc :=
  xdmaDescSet desc b.contAddr b.epAddr b.contLen dirToDev

theorem transferBlocks_last (m : BuildMode) (entry : SgEntry) (b : Block) :
    transferBlocks m [entry] b = [b.grow entry] := rfl

theorem transferBlocks_new {m : BuildMode} {entry next : SgEntry} {rest : List SgEntry} {b : Block}
    (h : needsNewDesc m entry next (b.grow entry).contLen = true) :
    transferBlocks m (entry :: next :: rest) b =
      b.grow entry :: transferBlocks m (next :: rest) ((b.grow entry).advance m next) := if_pos h

theorem transferBlocks_same {m : BuildMode} {entry next : SgEntry} {rest : List SgEntry} {b : Block}
    (h : ¬ needsNewDesc m entry next (b.grow entry).contLen = true) :
    transferBlocks m (entry :: next :: rest) b = transferBlocks m (next :: rest) (b.grow entry) :=
  if_neg h

/-- The loop writes the blocks to the elements from `j` on, and nothing in front of them. -/
theorem transferBuildLoop_blocks {nents : Nat} {m : BuildMode} {es : List SgEntry} {st : BuildState}
    {last : Nat} {d : Nat → XdmaDesc} (h : transferBuildLoop nents m es st = .ok (last,d)) :
    (∀ i, i < st.j → d i = st.descVirt i) ∧
      last+1 = st.j+(transferBlocks m es st.block).length ∧
      ∀ i b, (transferBlocks m es st.block)[i]? = some b →
        d (st.j+i) = b.write m.dirToDev (st.descVirt (st.j+i)) := by
  fun_induction transferBuildLoop nents m es st with
  | case1 st => cases h
  | case2 entry st st' hj => cases h
  | case3 entry st st' hj =>
    by_cases hfit : st'.j < nents
    · rw [BuildState.setDesc_ok hfit] at h
      cases h
      refine ⟨fun i hi => Function.update_of_ne (Nat.ne_of_lt hi) _ _,rfl,fun i b hb => ?_⟩
      rw [transferBlocks_last, List.getElem?_singleton] at hb
      split at hb
      · rename_i hi
        cases hb
        rw [hi]
        exact Function.update_self _ _ _
      · cases hb
    · simp [BuildState.setDesc, hfit, Except.map] at h
  | case4 entry next rest st st' hnew f hset => cases h
  | case5 entry next rest st st' hnew d' hset ih =>
    obtain ⟨hframe,hlast,hwritten⟩ := ih h
    have hj : (st'.advance m next d').j = st.j+1 := rfl
    have hblocks : transferBlocks m (entry :: next :: rest) st.block =
        st'.block :: transferBlocks m (next :: rest) (st'.advance m next d').block :=
      transferBlocks_new hnew
    rw [hj] at hframe hlast hwritten
    by_cases hfit : st'.j < nents
    · rw [BuildState.setDesc_ok hfit] at hset
      cases hset
      rw [hblocks]
      refine ⟨fun i hi => ?_,?_,fun i b hb => ?_⟩
      · rw [hframe i (Nat.lt_succ_of_lt hi)]
        exact Function.update_of_ne (Nat.ne_of_lt hi) _ _
      · rw [List.length_cons, hlast]
        omega
      · cases i with
        | zero =>
          -- the descriptor that was just written
          cases hb
          rw [Nat.add_zero, hframe st.j (Nat.lt_succ_self _)]
          exact Function.update_self _ _ _
        | succ i =>
          have hi : st.j+(i+1) = st.j+1+i := by omega
          rw [hi, hwritten i b hb]
          congr 1
          exact Function.update_of_ne (by show st.j+1+i ≠ st.j; omega) _ _
    · simp [BuildState.setDesc, hfit] at hset
  | case6 entry next rest st st' hnew ih =>
    have hblocks : transferBlocks m (entry :: next :: rest) st.block =
        transferBlocks m (next :: rest) st'.block := transferBlocks_same hnew
    rw [hblocks]
    exact ih h

def firstBlock (sgl : List SgEntry) (epAddr : U64) : Block where
  contAddr := match sgl with
    | [] => 0
    | entry :: _ => entry.dmaAddress
  contLen := 0
  epAddr := epAddr

theorem transferBuild_blocks {sgl : List SgEntry} {d d' : Nat → XdmaDesc} {ep : U64} {m : BuildMode}
    {last : Nat} (h : transferBuild sgl d ep m = .ok (last,d')) :
    last+1 = (transferBlocks m sgl (firstBlock sgl ep)).length ∧
      ∀ i b, (transferBlocks m sgl (firstBlock sgl ep))[i]? = some b →
        d' i = b.write m.dirToDev (d i) := by
  obtain ⟨_,hlast,hwritten⟩ := transferBuildLoop_blocks h
  simp only [Nat.zero_add] at hlast hwritten
  exact ⟨hlast,hwritten⟩

theorem transferBuild_written {sgl : List SgEntry} {d d' : Nat → XdmaDesc} {ep : U64} {m : BuildMode}
    {last : Nat} (h : transferBuild sgl d ep m = .ok (last,d')) {i : Nat} (hi : i ≤ last) :
    ∃ b ∈ transferBlocks m sgl (firstBlock sgl ep), d' i = b.write m.dirToDev (d i) := by
  obtain ⟨hlast,hwritten⟩ := transferBuild_blocks h
  have hlt : i < (transferBlocks m sgl (firstBlock sgl ep)).length := by omega
  exact ⟨_,List.getElem_mem hlt,hwritten i _ (List.getElem?_eq_getElem hlt)⟩

theorem transferBuild_map {α : Type} {sgl : List SgEntry} {d d' : Nat → XdmaDesc} {ep : U64}
    {m : BuildMode} {last : Nat} (h : transferBuild sgl d ep m = .ok (last,d')) (f : XdmaDesc → α)
    (g : Block → α) (hread : ∀ b ∈ transferBlocks m sgl (firstBlock sgl ep), ∀ desc,
      f (b.write m.dirToDev desc) = g b) :
    (List.range (last+1)).map (fun i => f (d' i)) =
      (transferBlocks m sgl (firstBlock sgl ep)).map g := by
  obtain ⟨hlast,hwritten⟩ := transferBuild_blocks h
  apply List.ext_getElem
  · simp [hlast]
  · intro i h₁ h₂
    have hlt : i < (transferBlocks m sgl (firstBlock sgl ep)).length := by simpa using h₂
    simp only [List.getElem_map, List.getElem_range]
    rw [hwritten i _ (List.getElem?_eq_getElem hlt)]
    exact hread _ (List.getElem_mem hlt) _

theorem Block.grow_contLen {b : Block} {entry : SgEntry} (h : b.contLen+entry.dmaLength < 2^32) :
    (b.grow entry).contLen = b.contLen+entry.dmaLength :=
  Nat.mod_eq_of_lt h

/-- A block that the builder has not closed takes one more entry without wrapping. -/
theorem Block.grow_open {b : Block} {entry : SgEntry} (hb : b.contLen ≤ xdmaDescMaxBytes-pageSize)
    (he : entry.dmaLength ≤ dmaMaxSegSize) :
    (b.grow entry).contLen = b.contLen+entry.dmaLength := by
  apply Block.grow_contLen
  unfold xdmaDescMaxBytes pageSize dmaMaxSegSize at *
  omega

theorem transferBlocks_lt {m : BuildMode} {es : List SgEntry} {b : Block} :
    ∀ b' ∈ transferBlocks m es b, b'.contLen < 2^32 := by
  have hgrow (b : Block) (entry : SgEntry) : (b.grow entry).contLen < 2^32 :=
    Nat.mod_lt _ (by decide)
  fun_induction transferBlocks m es b with
  | case1 b => simp
  | case2 entry b =>
    intro b' hb
    rw [List.mem_singleton.mp hb]
    exact hgrow b entry
  | case3 entry next rest b b₁ hnew ih =>
    intro b' hb
    rcases List.mem_cons.mp hb with rfl | hb
    · exact hgrow b entry
    · exact ih b' hb
  | case4 entry next rest b b₁ hnew ih => exact ih

theorem sgCreateMapper_empty {k : Platform} {maxLen : Nat} {sgm : SgMapping}
    (h : sgCreateMapper k maxLen = some sgm) : sgm.sgl = [] := by
  unfold sgCreateMapper at h
  repeat' split at h
  all_goals cases h
  rfl

theorem xdmaDescAlloc_some {number : Nat} {alloc : Option (U64 × (Nat → XdmaDesc))} {bus : U64}
    {d : Nat → XdmaDesc} (h : xdmaDescAlloc number alloc = .ok (some (bus,d))) :
    1 ≤ number ∧ Allocated d bus number := by
  by_cases hn : number < 1
  · simp [xdmaDescAlloc, hn] at h
  · have h1 : 1 ≤ number := Nat.le_of_not_lt hn
    cases alloc with
    | none => simp [xdmaDescAlloc, hn] at h
    | some am =>
      obtain ⟨bus',memory⟩ := am
      obtain ⟨d',hd',hall⟩ := xdmaDescAlloc_spec h1 bus' memory
      rw [hd'] at h
      cases h
      exact ⟨h1,hall⟩

theorem transferCreate_steps {k : Platform} {start cnt : Nat} {ep : U64} {m : BuildMode}
    {x : XdmaTransfer} (h : transferCreate k start cnt ep m = .ok (some x)) :
    k.kzallocTransfer = true ∧ ∃ sgm₀ rc sgm bus d last d',
      sgCreateMapper k cnt = some sgm₀ ∧
      (if m.userspace then sgmGetUserPages k sgm₀ start cnt
        else sgmKernelPages k sgm₀ start cnt) = .ok (rc,sgm) ∧
      0 ≤ rc ∧ sgm.mappedPages ≠ 0 ∧
      xdmaDescAlloc (k.pciMapSg sgm.sgl).length
        (k.pciAllocConsistent (k.pciMapSg sgm.sgl).length) = .ok (some (bus,d)) ∧
      transferBuild (k.pciMapSg sgm.sgl) d ep m = .ok (last,d') ∧
      x = filledIn m sgm (k.pciMapSg sgm.sgl).length bus d' last := by
  unfold transferCreate at h
  split at h
  · cases h
  rename_i hkz
  cases hcreate : sgCreateMapper k cnt with
  | none => simp [hcreate] at h
  | some sgm₀ =>
    simp only [hcreate] at h
    split at h
    · cases h
    · rename_i rc sgm hpages
      split at h
      · cases h
      · rename_i hrc
        simp only [Bool.or_eq_true, decide_eq_true_eq, beq_iff_eq, not_or] at hrc
        split at h
        · cases h
        · cases h
        · rename_i bus d halloc
          split at h
          · cases h
          · rename_i last d' hbuild
            cases h
            exact ⟨by simpa using hkz,sgm₀,rc,sgm,bus,d,last,d',rfl,hpages,
              Int.not_lt.mp hrc.1,hrc.2,halloc,hbuild,rfl⟩

theorem transferCreate_some {k : Platform} {start cnt : Nat} {ep : U64} {m : BuildMode}
    {x : XdmaTransfer} (h : transferCreate k start cnt ep m = .ok (some x)) :
    ∃ sgm nents bus d d' last, x = filledIn m sgm nents bus d' last ∧ last < nents ∧
      nents < 2^31 ∧ Allocated d bus nents ∧ SameChain d d' ∧
      ∃ sgl, transferBuild sgl d ep m = .ok (last,d') := by
  obtain ⟨_,sgm₀,rc,sgm,bus,d,last,d',hcreate,hpages,_,_,halloc,hbuild,rfl⟩ :=
    transferCreate_steps h
  have hempty := sgCreateMapper_empty hcreate
  have hlen : sgm.sgl.length < 2^31 := by
    cases hu : m.userspace with
    | true => exact sgmGetUserPages_length hempty (by simpa [hu] using hpages)
    | false => exact sgmKernelPages_length hempty (by simpa [hu] using hpages)
  have hn : (k.pciMapSg sgm.sgl).length < 2^31 :=
    Nat.lt_of_le_of_lt (k.pciMapSg_length sgm.sgl) hlen
  obtain ⟨h1,hall⟩ := xdmaDescAlloc_some halloc
  have hne : k.pciMapSg sgm.sgl ≠ [] := List.length_pos_iff.mp h1
  obtain ⟨last',d'',hbuild',hlast,hchain⟩ := transferBuild_chain hne d ep m
  rw [hbuild] at hbuild'
  cases hbuild'
  exact ⟨sgm,_,bus,d,d',last,rfl,hlast,hn,hall,hchain,_,hbuild⟩

end DmaCamera
