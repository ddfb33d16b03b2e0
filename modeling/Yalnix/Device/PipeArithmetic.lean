import Yalnix.Device.PipeHistory
import Yalnix.Memory.Bytes
import Yalnix.Sample

/-! The arithmetic of `pipe.c` on 32-bit integers. The buffer check bounds what a
call may write and the kernel heap bounds what a pipe may hold, so that the sums and
the doubling stay in range. -/
namespace Yalnix

open Hardware Identifiers

section

variable [Hardware]

/-- `VMEM_0_SIZE`. -/
def vmem0Size : Nat := region0Vpns * pageSize

/-- `VMEM_1_SIZE`. -/
def vmem1Size : Nat := region1Vpns * pageSize

end

namespace Pipe

/-- An `int` with the value of this counter. -/
abbrev int (n : Nat) : Word := BitVec.ofNat 32 n

theorem toInt_int {n : Nat} (h : n < 2 ^ 31) : (int n).toInt = n := by
  rw [BitVec.toInt_eq_toNat_of_lt (by rw [BitVec.toNat_ofNat]; omega), BitVec.toNat_ofNat]
  omega

/-- The loop `while (new_cap < needed) new_cap *= 2` ends with `final`, and none of
its products overflows. -/
inductive Doubles (needed : Word) : Word → Word → Prop where
  | done {cap : Word} (h : ¬cap.toInt < needed.toInt) : Doubles needed cap cap
  | turn {cap final : Word} (h : cap.toInt < needed.toInt) (hFits : cap.smulOverflow 2 = false)
      (rest : Doubles needed (cap * 2) final) : Doubles needed cap final

/-- The loop on 32-bit integers does what the loop on natural numbers does. -/
theorem doubles_doubled {needed cap fuel : Nat} (hNeeded : needed ≤ 2 ^ 30) (hCap : 0 < cap) (hInt : cap < 2 ^ 31)
    (hFuel : needed ≤ cap + fuel) : Doubles (int needed) (int cap) (int (doubled needed fuel cap)) := by
  induction fuel generalizing cap with
  | zero =>
      refine .done ?_
      rw [toInt_int hInt, toInt_int (by omega)]
      omega
  | succ fuel ih =>
      unfold doubled
      split_ifs with hSmall
      · have hTwice : int cap * 2 = int (cap * 2) := by
          simp only [int, BitVec.ofNat_mul]
          rfl
        refine .turn ?_ ?_ (hTwice ▸ ih (by omega) (by omega) (by omega))
        · rw [toInt_int hInt, toInt_int (by omega)]
          omega
        · have hTwo : (2 : Word).toInt = 2 := rfl
          simp only [BitVec.smulOverflow, toInt_int hInt, hTwo, Bool.or_eq_false_iff, decide_eq_false_iff_not]
          omega
      · refine .done ?_
        rw [toInt_int hInt, toInt_int (by omega)]
        omega

/-- The counters of the pipe are non-negative integers, and so is the sum of the
head and any offset into the buffer. -/
structure FitsInt (pipe : Pipe) : Prop where
  cap : pipe.cap < 2 ^ 31
  head : pipe.head ≤ pipe.cap
  len : pipe.len ≤ pipe.cap
  sum : ∀ k ≤ pipe.cap, (int pipe.head).saddOverflow (int k) = false

theorem saddOverflow_int {a b : Nat} (ha : a ≤ 2 ^ 29) (hb : b ≤ 2 ^ 29) :
    (int a).saddOverflow (int b) = false := by
  simp only [BitVec.saddOverflow, toInt_int (show a < 2 ^ 31 by omega), toInt_int (show b < 2 ^ 31 by omega),
    Bool.or_eq_false_iff, decide_eq_false_iff_not]
  omega

@[simp] theorem cap_appendBytes (pipe : Pipe) (bytes : List Byte) :
    (pipe.appendBytes bytes).cap = pipe.cap := by
  induction bytes generalizing pipe with
  | nil => rfl
  | cons byte rest ih =>
      rw [appendBytes, ih]

@[simp] theorem cap_takeBytes (pipe : Pipe) (count : Nat) : (pipe.takeBytes count).1.cap = pipe.cap := by
  induction count generalizing pipe with
  | zero => rfl
  | succ count ih =>
      rw [takeBytes, ih]

@[simp] theorem cap_readBytes (pipe : Pipe) (len : Nat) : (pipe.readBytes len).1.cap = pipe.cap :=
  (cap_takeBytes pipe (if pipe.len < len then pipe.len else len) :)

/-- A pipe is enlarged by the loop, and only when the allocation succeeds. -/
theorem cap_ensureCapacity {pipe grown : Pipe} {needed : Nat} {growOk : Bool}
    (hGrown : pipe.ensureCapacity needed growOk = some grown) : grown.cap = pipe.cap ∨
      pipe.cap < needed ∧ growOk = true ∧ grown.cap = doubled needed needed pipe.cap := by
  unfold ensureCapacity at hGrown
  split_ifs at hGrown with hRoom hOk
  · obtain rfl := Option.some.inj hGrown
    exact Or.inl rfl
  · obtain rfl := Option.some.inj hGrown
    exact Or.inr ⟨by omega, by simpa using hOk, rfl⟩

theorem Wf.fitsInt {pipe : Pipe} (h : pipe.Wf) (hCap : pipe.cap ≤ 2 ^ 28) : pipe.FitsInt where
  cap := by omega
  head := h.head_lt.le
  len := h.len_le
  sum k hk := by
    have hHead := h.head_lt
    exact saddOverflow_int (by omega) (by omega)

end Pipe

namespace Kernel

variable [Hardware] {s t : Kernel}

/-- `malloc` in `ensure_capacity` fails for requests larger than `VMEM_0_SIZE`. -/
def MallocBounded (s : Kernel) : Label → Prop
  | .syscall .pipeWrite uc o => ∀ pipe ∈ s.getPipe (getId (uc.regs 0)),
      pipe.cap < pipe.len + (uc.regs 2).toInt.toNat →
        vmem0Size < Pipe.doubled (pipe.len + (uc.regs 2).toInt.toNat)
          (pipe.len + (uc.regs 2).toInt.toNat) pipe.cap → o.alloc 0 = false
  | _ => True

instance (s : Kernel) (label : Label) : Decidable (s.MallocBounded label) := by
  cases label with
  | syscall call uc o =>
      cases call
      case pipeWrite => exact inferInstanceAs (Decidable (∀ pipe ∈ s.getPipe (getId (uc.regs 0)), _))
      all_goals exact .isTrue trivial
  | _ => exact .isTrue trivial

/-- No pipe is larger than region 0. -/
def CapsBounded (s : Kernel) : Prop := ∀ id, (s.pipes.entries id).cap ≤ vmem0Size

theorem capsBounded_of_view (h : t.pipeView = s.pipeView) : t.CapsBounded ↔ s.CapsBounded := by
  have hData := congrArg PipeView.data h
  have hCap (id : Nat) : (t.pipes.entries id).cap = (s.pipes.entries id).cap := by
    have hSame : (t.pipes.entries id).data = (s.pipes.entries id).data := congrFun hData id
    exact (congrArg Pipe.cap hSame :)
  unfold CapsBounded
  simp only [hCap]

/-- A pipe is created with `PIPE_BUFFER_LEN` bytes. -/
theorem capsBounded_newPipe (h : s.CapsBounded) (hPipes : s.pipes.Wf Pipe.inUse .blank)
    (hBuffer : pipeBufferLen ≤ vmem0Size) (growOk bufOk : Bool) : (s.newPipe growOk bufOk).1.CapsBounded := by
  obtain ⟨-, hSome, hNone⟩ := hPipes.create .fresh rfl (Or.inr rfl) growOk bufOk
  have hUpdate {entries : Nat → Pipe} {id : Nat} {pipe : Pipe}
      (hEntries : entries = Function.update s.pipes.entries id pipe) (hCap : pipe.cap ≤ vmem0Size) (k : Nat) :
      (entries k).cap ≤ vmem0Size := by
    rw [hEntries]
    by_cases hk : k = id
    · rw [hk, Function.update_self]
      exact hCap
    · rw [Function.update_of_ne hk]
      exact h k
  unfold newPipe
  dsimp only
  split
  · rename_i hResult
    rcases hNone hResult with hSame | hClear
    · intro id
      show ((s.pipes.create Pipe.inUse .blank .fresh s.pipes.size growOk bufOk).1.entries id).cap ≤ vmem0Size
      rw [hSame]
      exact h id
    · exact hUpdate hClear (Nat.zero_le _)
  · rename_i id hResult
    obtain ⟨-, hFill⟩ := hSome id hResult
    exact hUpdate hFill hBuffer

/-- No other call enlarges a pipe. -/
theorem capsBounded_pipeStep {label : Label} (h : s.CapsBounded) (hSound : KernelStart.Sound s)
    (hBuffer : pipeBufferLen ≤ vmem0Size) (hCall : label.isPipeWrite = false) (hStep : PipeStep label s t) :
    t.CapsBounded := by
  cases hStep with
  | new => exact capsBounded_newPipe h hSound.settled.pipes hBuffer _ _
  | @reclaim id =>
      unfold Kernel.pipeReclaim
      split
      · exact h
      split_ifs
      · exact h
      · intro k
        show ((s.pipes.lower .blank id).entries k).cap ≤ vmem0Size
        by_cases hk : k = id
        · subst hk
          simp [Table.lower, Pipe.blank]
        · simpa [Table.lower, hk] using h k
  | @read id len pipe hPipe hSome hLen =>
      obtain ⟨-, -, rfl⟩ := getPipe_eq_some.mp hPipe
      intro k
      show (((s.setPipe id _).pipes).entries k).cap ≤ vmem0Size
      by_cases hk : k = id
      · subst hk
        simpa [setPipe, Table.set] using h k
      · simpa [setPipe, Table.set, hk] using h k
  | write hPipe hGrown hWrite =>
      rw [hCall] at hWrite
      cases hWrite

/-- A write enlarges its pipe by what `malloc` grants. -/
theorem capsBounded_pipeWriteImpl {o : Outcomes} (h : s.CapsBounded)
    (hMalloc : ∀ pipe ∈ s.getPipe (getId (s.reg 0)), pipe.cap < pipe.len + (s.reg 2).toInt.toNat →
      vmem0Size < Pipe.doubled (pipe.len + (s.reg 2).toInt.toNat) (pipe.len + (s.reg 2).toInt.toNat)
        pipe.cap → o.alloc 0 = false)
    (hWrite : s.pipeWriteImpl o = .ok t) : t.CapsBounded := by
  unfold pipeWriteImpl at hWrite
  dsimp only at hWrite
  split_ifs at hWrite
  · obtain rfl := Except.ok.inj hWrite
    exact h
  · obtain rfl := Except.ok.inj hWrite
    exact h
  · split at hWrite
    · obtain rfl := Except.ok.inj hWrite
      exact h
    · rename_i grown hPipe
      obtain ⟨bytes, -, hReturn⟩ := Transition.bind_eq_ok.mp hWrite
      obtain rfl := Except.ok.inj hReturn
      obtain ⟨old, hOld, hGrown⟩ := Option.bind_eq_some_iff.mp hPipe
      have hEntry := (getPipe_eq_some.mp hOld).2.2
      have hCap : grown.cap ≤ vmem0Size := by
        rcases Pipe.cap_ensureCapacity hGrown with hSame | ⟨hSmall, hOk, hFinal⟩
        · rw [hSame, ← hEntry]
          exact h _
        · rw [hFinal]
          apply Nat.le_of_not_lt
          intro hLarge
          rw [hMalloc old hOld hSmall hLarge] at hOk
          cases hOk
      refine (capsBounded_of_view (pipeView_wakeReaders _ _ _)).mpr ?_
      intro k
      show (((s.setPipe _ (grown.appendBytes bytes)).pipes).entries k).cap ≤ vmem0Size
      by_cases hk : k = getId (s.reg 0)
      · subst hk
        simpa [setPipe, Table.set] using hCap
      · simpa [setPipe, Table.set, hk] using h k

theorem capsBounded_kernelPipeWrite {uc : UserContext} {o : Outcomes} (h : s.CapsBounded)
    (hMalloc : s.MallocBounded (.syscall .pipeWrite uc o)) (hStep : s.step (.syscall .pipeWrite uc o) = .ok t) :
    t.CapsBounded := by
  simp only [step] at hStep
  split_ifs at hStep with hUser
  obtain ⟨u, hCall, hLeave⟩ := Transition.bind_eq_ok.mp hStep
  obtain rfl := Except.ok.inj hLeave
  have hCall : (s.saveUc uc).kernelPipeWrite o = .ok u := hCall
  unfold kernelPipeWrite guardBuf at hCall
  unfold CapsBounded
  rw [leave_pipes]
  split_ifs at hCall
  · refine capsBounded_pipeWriteImpl (s := s.saveUc uc) h ?_ hCall
    simp only [reg_saveUc]
    exact hMalloc
  · obtain rfl := Except.ok.inj hCall
    exact h

end Kernel

namespace KernelStart

open Kernel

/-- No pipe outgrows region 0, if `malloc` never grants more than that. -/
theorem capsBounded_reach [Hardware] (hBuffer : pipeBufferLen ≤ vmem0Size) {s : Kernel}
    (run : system.Reach MallocBounded s) : s.CapsBounded := by
  refine run.invariant (I := CapsBounded) ?_ fun s label t hRun h hMalloc hStep => ?_
  · rintro s ⟨uctxt, early, late, rfl⟩ id
    rw [show (kernelStart uctxt early late).pipes = _ from
      congrArg Devices.pipes (devices_kernelStart uctxt early late)]
    exact Nat.zero_le _
  · have hSound := sound_reachable hRun.reachable
    by_cases hCall : label.isPipeWrite = true
    · cases label with
      | syscall call uc o =>
          cases call <;> try cases hCall
          exact capsBounded_kernelPipeWrite h hMalloc hStep
      | _ => cases hCall
    · have hCall : label.isPipeWrite = false := by simpa using hCall
      refine hSound.preserve (I := CapsBounded) (fun u v hu hOld hEffect => ?_) h hStep ?_ ?_
      · rcases pipe_effect hEffect with hPipe | hSame
        · exact capsBounded_pipeStep hOld hu hBuffer hCall hPipe
        · exact (capsBounded_of_view hSame).mpr hOld
      · exact fun uc o id len _ _ _ hSaved => (capsBounded_of_view (pipeView_read _ id len)).mpr hSaved
      · exact fun o id _ _ _ => (capsBounded_of_view (pipeView_read _ id _)).mpr h

/-- A buffer that passes the check lies in region 1. -/
theorem len_le_of_checkCBuf [Hardware] {m : Memory} {buf : Word} {len : Int} {needsWrite : Bool}
    (hCheck : checkCBuf m buf len needsWrite = true) (hLen : 0 < len) : len ≤ vmem1Size := by
  unfold checkCBuf at hCheck
  rw [Bool.and_eq_true, List.all_eq_true] at hCheck
  have hMapped (i : Nat) (hi : (i : Int) < len) : m.Mapped (buf.toInt + i) :=
    (Memory.hasPerms_iff.mp (hCheck.2 i (List.mem_range.mpr (by omega)))).1
  have hFirst := (hMapped 0 (by omega)).low
  have hLast := (hMapped (len - 1).toNat (by omega)).high
  have hLimit : (vmem1Limit : Int) = vmem1Base + vmem1Size := by
    unfold vmem1Limit vmem1Base region1LimitVpn vmem1Size
    rw [Int.add_mul]
    simp
  omega

/-- The arithmetic of the pipe functions never overflows. The sum of the length and
the requested number of bytes is in range, the loop that doubles the capacity ends
without an overflow, and the head and the length of the pipe fit together in every
turn of the loops that append and read bytes. -/
theorem pipe_arithmetic [Hardware] (hRegion0 : vmem0Size ≤ 2 ^ 28) (hRegion1 : vmem1Size ≤ 2 ^ 28)
    (hBuffer : pipeBufferLen ≤ vmem0Size) {s : Kernel} (run : system.Reach MallocBounded s) {id : Nat} {pipe : Pipe}
    (hPipe : s.getPipe id = some pipe) :
    pipe.FitsInt ∧ (∀ count, (pipe.takeBytes count).1.FitsInt) ∧
    ∀ uc o (needed : Nat), getId (uc.regs 0) = id → checkCBuf s.mem (uc.regs 1) (uc.regs 2).toInt false = true →
      0 < (uc.regs 2).toInt → (needed : Int) = pipe.len + (uc.regs 2).toInt →
      (Pipe.int pipe.len).saddOverflow (uc.regs 2) = false ∧ Pipe.int pipe.len + uc.regs 2 = Pipe.int needed ∧
      Pipe.Doubles (Pipe.int needed) (Pipe.int pipe.cap) (Pipe.int (Pipe.doubled needed needed pipe.cap)) ∧
      ∀ grown (bytes : List Byte), s.MallocBounded (.syscall .pipeWrite uc o) →
        pipe.ensureCapacity needed (o.alloc 0) = some grown → pipe.len + bytes.length ≤ needed →
          (grown.appendBytes bytes).FitsInt := by
  obtain ⟨-, hUse, hEntry⟩ := getPipe_eq_some.mp hPipe
  have hWf : pipe.Wf := by
    have hData := (fifo_reachable run.reachable id hUse).1
    rw [← hEntry]
    exact (Pipe.wf_data _).mp hData
  have hCaps : pipe.cap ≤ vmem0Size := hEntry ▸ capsBounded_reach hBuffer run id
  have hPos := hWf.cap_pos
  have hLen := hWf.len_le
  refine ⟨hWf.fitsInt (by omega), fun count => ?_, ?_⟩
  · obtain ⟨hHead, hSame, -, -⟩ := pipe.takeBytes_spec hWf.head_lt count 0
    rw [hSame]
    exact Pipe.Wf.fitsInt ⟨hPos, hHead, hLen⟩ (by show pipe.cap ≤ 2 ^ 28; omega)
  · intro uc o needed hName hCheck hBytes hNeeded
    have hBuf := len_le_of_checkCBuf hCheck hBytes
    obtain ⟨len, hReg⟩ : ∃ len : Nat, uc.regs 2 = Pipe.int len ∧ (len : Int) = (uc.regs 2).toInt := by
      refine ⟨(uc.regs 2).toInt.toNat, ?_, by omega⟩
      apply BitVec.eq_of_toInt_eq
      rw [Pipe.toInt_int (by omega)]
      omega
    obtain ⟨hReg, hInt⟩ := hReg
    obtain rfl : needed = pipe.len + len := by omega
    refine ⟨?_, ?_, ?_, ?_⟩
    · rw [hReg]
      exact Pipe.saddOverflow_int (by omega) (by omega)
    · rw [hReg]
      exact (BitVec.ofNat_add pipe.len len).symm
    · exact Pipe.doubles_doubled (by omega) hPos (by omega) (by omega)
    · intro grown bytes hMalloc hGrown hRoom
      obtain ⟨hGrownWf, -, hNeeds, hSameLen⟩ := Pipe.ensureCapacity_spec hWf hGrown
      have hCap : grown.cap ≤ vmem0Size := by
        rcases Pipe.cap_ensureCapacity hGrown with hSame | ⟨hSmall, hOk, hFinal⟩
        · rw [hSame]
          exact hCaps
        · rw [hFinal]
          apply Nat.le_of_not_lt
          intro hLarge
          have hLength : (uc.regs 2).toInt.toNat = len := by omega
          have hRefused := hMalloc pipe (hName ▸ hPipe)
          rw [hLength] at hRefused
          rw [hRefused hSmall hLarge] at hOk
          cases hOk
      have hWritten := (Pipe.appendBytes_spec hGrownWf bytes (by omega)).1
      refine hWritten.fitsInt ?_
      rw [Pipe.cap_appendBytes]
      omega

open Sample in
/-- A pipe with three bytes is enlarged for three more. -/
theorem pipe_arithmetic_grown : ∃ (s : Kernel) (pipe grown : Pipe), system.Reach MallocBounded s ∧
    s.getPipe 0 = some pipe ∧ pipe.FitsInt ∧ pipe.ensureCapacity 6 true = some grown ∧ grown.cap = 8 ∧
    Pipe.Doubles 6 4 8 ∧ grown.FitsInt := by
  have hRun : ∃ s, system.Reach MallocBounded s ∧ ((0 < s.pipes.size ∧ (s.pipes.entries 0).inUse = true ∧
      (s.pipes.entries 0).len = 3 ∧ (s.pipes.entries 0).cap = 4) ∧ checkCBuf s.mem 208 3 false = true) :=
    Transition.System.exists_reach
      (turn ++ [call .pipeInit [208], call .pipeWrite [createId pipeFlag 0, 208, 3]]) initial_booted
      (by decide +kernel)
  obtain ⟨s, run, ⟨hSize, hUse, hLen, hCap⟩, hCheck⟩ := hRun
  have hPipe : s.getPipe 0 = some (s.pipes.entries 0) := getPipe_eq_some.mpr ⟨hSize, hUse, rfl⟩
  obtain ⟨hFits, -, hWrite⟩ := pipe_arithmetic (by decide) (by decide) (by decide) run hPipe
  have hEight : Pipe.doubled 6 6 4 = 8 := rfl
  obtain ⟨-, -, hLoop, hGrows⟩ := hWrite (context [createId pipeFlag 0, 208, 3]) outcomes 6 (by decide)
    hCheck (by decide) (by rw [hLen]; decide)
  rw [hCap, hEight] at hLoop
  obtain ⟨grown, hGrown⟩ : ∃ grown, (s.pipes.entries 0).ensureCapacity 6 true = some grown := by
    simp [Pipe.ensureCapacity, hCap]
  have hMalloc : s.MallocBounded (.syscall .pipeWrite (context [createId pipeFlag 0, 208, 3]) outcomes) := by
    intro pipe hSame hSmall hLarge
    obtain rfl : s.pipes.entries 0 = pipe := Option.some.inj (hPipe.symm.trans hSame)
    have hThree : ((context [createId pipeFlag 0, 208, 3]).regs 2).toInt.toNat = 3 := rfl
    rw [hThree, hLen, hCap] at hLarge
    exact absurd hLarge (by decide)
  refine ⟨s, _, grown, run, hPipe, hFits, hGrown, ?_, hLoop, ?_⟩
  · rcases Pipe.cap_ensureCapacity hGrown with hSame | ⟨-, -, hFinal⟩
    · have hWf := (Pipe.wf_data _).mp (fifo_reachable run.reachable 0 hUse).1
      have hNeeds := (Pipe.ensureCapacity_spec hWf hGrown).2.2.1
      omega
    · rw [hFinal, hCap]
      rfl
  · exact hGrows grown [] hMalloc hGrown (by rw [hLen]; decide)

end KernelStart
end Yalnix
