import Yalnix.Process.Contexts
import Yalnix.Process.Registers
import Yalnix.Sample

/-! What the kernel writes through pointers of user processes. The buffers of the read
calls are checked, and stay writable for a caller that blocks. The pointers of `Wait`
and of the init calls are not checked. -/
namespace Yalnix

open Hardware Identifiers Transition

/-- The buffer a call writes to, as the registers of its caller name it. -/
def Syscall.buffer (call : Syscall) (uc : UserContext) : Option (Word × Nat) :=
  match call with
  | .lockInit | .semInit | .cvarInit | .pipeInit => some (uc.regs 0, 4)
  | .wait => if uc.regs 0 = 0 then none else some (uc.regs 0, 4)
  | .ttyRead | .pipeRead => some (uc.regs 1, (uc.regs 2).toInt.toNat)
  | _ => none

/-- The buffer of a read call that blocks. -/
def KernelContext.reads (kc : KernelContext) (request : Word × Nat) : Option (Word × Nat) :=
  match kc with
  | .pipeRead _ buf len => some (buf, len)
  | .ttyRead _ => some request
  | _ => none

/-- The buffer that a process still has to fill when it continues its call. -/
def Pcb.buffer (pcb : Pcb) : Option (Word × Nat) :=
  match pcb.kc with
  | none => none
  | some .wait => Syscall.buffer .wait pcb.uc
  | some kc => kc.reads pcb.request

/-- A slot is free or the table can grow, and the object gets its own memory. -/
def Table.Creates {α : Type} (t : Table α) (growOk entryOk : Bool) : Prop :=
  (t.openIdx < t.size ∨ growOk = true) ∧ entryOk = true

theorem Table.create_isSome {α : Type} (t : Table α) (inUse : α → Bool) (blank fresh : α) (copied : Nat)
    (growOk entryOk : Bool) :
    (t.create inUse blank fresh copied growOk entryOk).2.isSome = true ↔ t.Creates growOk entryOk := by
  unfold Table.create Table.Creates
  dsimp only
  by_cases hFull : t.size ≤ t.openIdx ∧ growOk = false
  · rw [if_pos hFull]
    simp [hFull.2, Nat.not_lt.mpr hFull.1]
  · have hRoom : t.openIdx < t.size ∨ growOk = true := by
      rwa [not_and_or, not_le, Bool.not_eq_false] at hFull
    rw [if_neg hFull]
    cases entryOk with
    | false => simp
    | true => simp [hRoom]

namespace Kernel

variable [Hardware] {s t : Kernel} {buf : Word} {len : Nat} {r : Except Stop Kernel} {uc : UserContext} {o : Outcomes}

omit [Hardware] in
/-- The buffer that a step fills through a pointer of the running process. -/
def buffer (s : Kernel) : Label → Option (Word × Nat)
  | .syscall call uc _ => call.buffer uc
  | .resume _ => (s.pcb s.runningProc).buffer
  | _ => none

/-- Every byte that is written lies in the buffer, where the process may write. If there
is a byte of the buffer where it may not, a call that returns has written nothing, and
its result is `ERROR`. -/
structure Isolates (s : Kernel) (buf : Word) (len : Nat) (r : Except Stop Kernel) : Prop where
  tame : ∀ x, r ≠ .error (.wildStore x)
  inside : ∀ t, r = .ok t → ∀ frame offset, t.mem.pmem frame offset ≠ s.mem.pmem frame offset →
    ∃ x, buf.toInt ≤ x ∧ x < buf.toInt + len ∧ s.mem.hasPerms x true = true ∧ s.mem.frameOf x = frame ∧
      Memory.offsetOf x = offset
  refused : ¬s.mem.Writable buf.toInt len → ∀ t, r = .ok t → t.mode = .user →
    (t.pcb s.runningProc).uc.regs 0 = errorCode ∧ t.mem.pmem = s.mem.pmem

/-- The ways in which a call uses its buffer. `wrote` tells whether it is filled. -/
inductive Fills (s : Kernel) (buf : Word) (len : Nat) : Bool → Except Stop Kernel → Prop where
  | stored {bytes : List Byte} {f : Memory → Kernel} (hLen : bytes.length ≤ len) (hMem : ∀ m, (f m).mem = m) :
      Fills s buf len true (do let m ← s.mem.storeBytes buf.toInt bytes; return f m)
  | declined {t : Kernel} (hMem : t.mem.pmem = s.mem.pmem) (hResult : (t.pcb s.runningProc).uc.regs 0 = errorCode) :
      Fills s buf len false (.ok t)
  | away {t : Kernel} (hMem : t.mem.pmem = s.mem.pmem) (hMode : t.mode = .resuming) : Fills s buf len false (.ok t)

variable {wrote : Bool}

theorem Fills.leave (h : Fills s buf len wrote r) : Fills s buf len wrote (do let t ← r; return t.leave) := by
  cases h with
  | @stored bytes f hLen hMem =>
      have hSame : (do let t ← (do let m ← s.mem.storeBytes buf.toInt bytes; return f m); return t.leave) =
          (do let m ← s.mem.storeBytes buf.toInt bytes; return (f m).leave : Except Stop Kernel) := by
        cases s.mem.storeBytes buf.toInt bytes <;> rfl
      rw [hSame]
      exact .stored hLen fun m => (leave_mem _).trans (hMem m)
  | @declined t hMem hResult =>
      refine .declined (t := t.leave) ((congrArg Memory.pmem (leave_mem t)).trans hMem) ?_
      rw [leave_pcb]
      exact hResult
  | @away t hMem hMode =>
      refine .away (t := t.leave) ((congrArg Memory.pmem (leave_mem t)).trans hMem) ?_
      unfold Kernel.leave
      rw [hMode]
      exact hMode

/-- What is written to a writable buffer stays inside. -/
theorem Fills.isolates (h : Fills s buf len wrote r) (hBuf : wrote = true → s.mem.Writable buf.toInt len) :
    s.Isolates buf len r := by
  cases h with
  | @stored bytes f hLen hMem =>
      have hWritable := hBuf rfl
      obtain ⟨m, hStore⟩ := hWritable.exists_store hLen
      rw [hStore]
      refine ⟨nofun, ?_, fun hNot => absurd hWritable hNot⟩
      intro t hOk frame offset hNew
      obtain rfl := Except.ok.inj hOk
      rw [hMem] at hNew
      obtain ⟨x, hLow, hHigh, hIn⟩ := Memory.pmem_storeBytes hStore hNew
      exact ⟨x, hLow, by omega, hIn⟩
  | declined hMem hResult =>
      refine ⟨nofun, ?_, ?_⟩
      · intro t hOk frame offset hNew
        obtain rfl := Except.ok.inj hOk
        exact absurd (congrFun (congrFun hMem frame) offset) hNew
      · intro _ t hOk _
        obtain rfl := Except.ok.inj hOk
        exact ⟨hResult, hMem⟩
  | away hMem hMode =>
      refine ⟨nofun, ?_, ?_⟩
      · intro t hOk frame offset hNew
        obtain rfl := Except.ok.inj hOk
        exact absurd (congrFun (congrFun hMem frame) offset) hNew
      · intro _ t hOk hUser
        obtain rfl := Except.ok.inj hOk
        rw [hMode] at hUser
        cases hUser

/-- A call that stores one word under a condition, without a check of the pointer. -/
inductive Puts (s : Kernel) (ptr : Word) (wrote : Prop) : Except Stop Kernel → Prop where
  | stored {value : Word} {f : Memory → Kernel} (h : wrote) (hMem : ∀ m, (f m).mem = m) :
      Puts s ptr wrote (do let m ← s.mem.storeWord ptr.toInt value; return f m)
  | spared {r : Except Stop Kernel} (h : ¬wrote) (hFills : Fills s ptr 4 false r) : Puts s ptr wrote r

variable {ptr : Word} {wrote : Prop}

theorem Puts.leave (h : Puts s ptr wrote r) : Puts s ptr wrote (do let t ← r; return t.leave) := by
  cases h with
  | @stored value f h hMem =>
      have hSame : (do let t ← (do let m ← s.mem.storeWord ptr.toInt value; return f m); return t.leave) =
          (do let m ← s.mem.storeWord ptr.toInt value; return (f m).leave : Except Stop Kernel) := by
        cases s.mem.storeWord ptr.toInt value <;> rfl
      rw [hSame]
      exact .stored h fun m => (leave_mem _).trans (hMem m)
  | spared h hFills => exact .spared h hFills.leave

/-- The store goes astray exactly where the process may not write. -/
theorem Puts.isolates_iff (h : Puts s ptr wrote r) :
    s.Isolates ptr 4 r ↔ (wrote → s.mem.Writable ptr.toInt 4) := by
  cases h with
  | @stored value f h hMem =>
      constructor
      · intro hIsolates _
        by_contra hBuf
        have hBytes : ¬s.mem.Writable ptr.toInt (Memory.wordBytes value).length := hBuf
        obtain ⟨x, hWild⟩ := Memory.exists_wildStore hBytes
        have hStore : s.mem.storeWord ptr.toInt value = .error (.wildStore x) := hWild
        refine hIsolates.tame x ?_
        rw [hStore]
        rfl
      · intro hBuf
        have hFills : Fills s ptr 4 true
            (do let m ← s.mem.storeBytes ptr.toInt (Memory.wordBytes value); return f m) := .stored le_rfl hMem
        exact hFills.isolates fun _ => hBuf h
  | spared h hFills => exact ⟨fun _ hWrote => absurd hWrote h, fun _ => hFills.isolates (by simp)⟩

/-- The end of the four init calls. -/
theorem puts_init (flag : Word) {created : Kernel × Option Nat}
    (hResult : r = match created with
      | (u, none) => .ok (u.ret errorCode)
      | (u, some id) => u.storeId ptr (createId flag id))
    (hWrote : created.2.isSome = true ↔ wrote) (hMem : created.1.mem = s.mem)
    (hRunning : created.1.runningProc = s.runningProc) : Puts s ptr wrote r := by
  obtain ⟨u, none | id⟩ := created
  · subst hResult
    refine .spared (fun h => by simpa using hWrote.mpr h) (.declined (congrArg Memory.pmem hMem) ?_)
    rw [← hRunning]
    exact ret_result u errorCode
  · subst hResult
    have hStore : u.storeId ptr (createId flag id) =
        do let m ← s.mem.storeWord ptr.toInt (createId flag id); return (u.setMem m).ret successCode := by
      rw [← hMem]
      rfl
    dsimp only
    rw [hStore]
    exact .stored (hWrote.mp rfl) fun _ => rfl

theorem puts_null (hNot : ¬wrote) : Puts s ptr wrote (.ok (s.ret errorCode)) :=
  .spared hNot (.declined rfl (ret_result s errorCode))

omit [Hardware] in
theorem isSome_newLock (s : Kernel) (capacity : Nat) (growOk pidsOk : Bool) :
    (s.newLock capacity growOk pidsOk).2.isSome = true ↔ s.locks.Creates growOk pidsOk := by
  rw [← Table.create_isSome s.locks Lock.inUse .blank (.fresh capacity) s.locks.openIdx]
  unfold newLock
  dsimp only
  split <;> simp_all

theorem isSome_newPipe (s : Kernel) (growOk bufOk : Bool) :
    (s.newPipe growOk bufOk).2.isSome = true ↔ s.pipes.Creates growOk bufOk := by
  rw [← Table.create_isSome s.pipes Pipe.inUse .blank Pipe.fresh s.pipes.size]
  unfold newPipe
  dsimp only
  split <;> simp_all

theorem puts_kernelLockInit : Puts s (s.reg 0) (s.reg 0 ≠ 0 ∧ s.locks.Creates (o.alloc 0) (o.alloc 1))
    (s.kernelLockInit o) := by
  unfold kernelLockInit
  dsimp only
  split_ifs with hNull
  · exact puts_null fun h => h.1 hNull
  · refine puts_init lockFlag rfl ?_ (congrArg Space.mem (space_newLock s 1 (o.alloc 0) (o.alloc 1)))
      (runningProc_of_cpu (cpu_of_outside (outside_newLock s 1 (o.alloc 0) (o.alloc 1))))
    rw [isSome_newLock]
    exact (and_iff_right hNull).symm

theorem puts_kernelSemInit : Puts s (s.reg 0)
    (s.reg 0 ≠ 0 ∧ 1 ≤ (s.reg 1).toInt ∧ s.locks.Creates (o.alloc 0) (o.alloc 1)) (s.kernelSemInit o) := by
  unfold kernelSemInit
  dsimp only
  split_ifs with hArgs
  · exact puts_null fun h => hArgs.elim h.1 (by omega)
  · rw [not_or, not_lt] at hArgs
    refine puts_init semFlag rfl ?_
      (congrArg Space.mem (space_newLock s (s.reg 1).toInt.toNat (o.alloc 0) (o.alloc 1)))
      (runningProc_of_cpu (cpu_of_outside (outside_newLock s (s.reg 1).toInt.toNat (o.alloc 0) (o.alloc 1))))
    rw [isSome_newLock]
    exact ((and_iff_right hArgs.1).trans (and_iff_right hArgs.2)).symm

theorem puts_kernelCvarInit : Puts s (s.reg 0) (s.reg 0 ≠ 0 ∧ s.cvars.Creates (o.alloc 0) true)
    (s.kernelCvarInit o) := by
  unfold kernelCvarInit
  dsimp only
  split_ifs with hNull
  · exact puts_null fun h => h.1 hNull
  · refine puts_init cvarFlag rfl ?_ (congrArg Space.mem (space_newCvar s (o.alloc 0)))
      (runningProc_of_cpu (cpu_of_outside (outside_newCvar s (o.alloc 0))))
    exact (Table.create_isSome s.cvars _ _ _ _ _ _).trans (and_iff_right hNull).symm

theorem puts_kernelPipeInit : Puts s (s.reg 0) (s.reg 0 ≠ 0 ∧ s.pipes.Creates (o.alloc 0) (o.alloc 1))
    (s.kernelPipeInit o) := by
  unfold kernelPipeInit
  dsimp only
  split_ifs with hNull
  · exact puts_null fun h => h.1 hNull
  · refine puts_init pipeFlag rfl ?_ (congrArg Space.mem (space_newPipe s (o.alloc 0) (o.alloc 1)))
      (runningProc_of_cpu (cpu_newPipe s (o.alloc 0) (o.alloc 1)))
    rw [isSome_newPipe]
    exact (and_iff_right hNull).symm

/-- Being switched away changes no byte. -/
theorem pmem_switchAway (s : Kernel) (kc : KernelContext) : (s.switchAway kc).mem.pmem = s.mem.pmem := by
  have hChosen : s.getNextProcess.1.mem.pmem = s.mem.pmem := congrArg (fun x => x.mem.pmem) (space_getNextProcess s)
  have hSwitch : (s.switchAway kc).mem.pmem = s.getNextProcess.1.mem.pmem := congrArg (fun x => x.mem.pmem)
    (space_fullContextSwitch s.getNextProcess.1 (some (s.runningProc, kc)) s.getNextProcess.2)
  exact hSwitch.trans hChosen

theorem fills_switchAway {u : Kernel} (kc : KernelContext) (hMem : u.mem = s.mem) :
    Fills s buf len false (.ok (u.switchAway kc)) :=
  .away ((pmem_switchAway u kc).trans (congrArg Memory.pmem hMem)) (congrArg Cpu.mode (cpu_switchAway u kc))

omit [Hardware] in
/-- A child that has exited is found. -/
theorem findExitedChild_isSome (s : Kernel) (parent : Proc) (shrinkOk : Bool) :
    (s.findExitedChild parent shrinkOk).isSome = true ↔ (s.exitedChildIdx parent).isSome = true := by
  unfold findExitedChild
  cases hIdx : s.exitedChildIdx parent with
  | none => simp
  | some i =>
      have hExited : s.isExited ((s.pcb parent).relations.children i) = true := by
        unfold exitedChildIdx at hIdx
        simpa using List.find?_some hIdx
      cases hChild : (s.pcb parent).relations.children i with
      | none =>
          rw [hChild] at hExited
          cases hExited
      | some child => simp [hChild]

theorem puts_kernelWait (hPtr : s.reg 0 ≠ 0) :
    Puts s (s.reg 0) ((s.exitedChildIdx s.runningProc).isSome = true) (s.kernelWait o) := by
  rw [← findExitedChild_isSome s s.runningProc (o.alloc 0)]
  unfold kernelWait
  dsimp only
  split
  · rename_i hNone
    exact .spared (by simp [hNone]) (fills_switchAway .wait (congrArg Space.mem (space_waitBlockProcess s s.runningProc)))
  · rename_i u code hFound
    have hMem : u.mem = s.mem := congrArg Space.mem (space_findExitedChild hFound)
    rw [if_neg hPtr, hMem]
    exact .stored (by simp [hFound]) fun _ => rfl

theorem puts_waitReturn (hPtr : s.reg 0 ≠ 0) : Puts s (s.reg 0) True s.waitReturn := by
  unfold waitReturn
  rw [if_neg hPtr]
  exact .stored trivial fun _ => rfl

omit [Hardware] in
theorem length_takeBytes (pipe : Pipe) (count : Nat) : (pipe.takeBytes count).2.length = count := by
  induction count generalizing pipe with
  | zero => rfl
  | succ count ih => exact congrArg (· + 1) (ih _)

omit [Hardware] in
theorem length_readBytes_le (pipe : Pipe) (len : Nat) : (pipe.readBytes len).2.length ≤ len := by
  have hTaken := length_takeBytes pipe (if pipe.len < len then pipe.len else len)
  show (pipe.takeBytes _).2.length ≤ len
  rw [hTaken]
  split_ifs <;> omega

omit [Hardware] in
theorem length_consume_le (s : Kernel) (id len : Nat) : (s.consume id len).2.length ≤ len := by
  unfold consume
  split
  · exact Nat.zero_le len
  · rename_i node hNode
    dsimp only
    split_ifs <;> simp <;> omega

theorem fills_pipeReadLoop (s : Kernel) (id : Nat) (buf : Word) (len : Nat) :
    ∃ wrote, Fills s buf len wrote (s.pipeReadLoop id buf len) := by
  unfold pipeReadLoop
  split
  · exact ⟨false, .declined rfl (ret_result s errorCode)⟩
  · rename_i pipe hPipe
    split_ifs
    · exact ⟨false, fills_switchAway _ rfl⟩
    · exact ⟨true, .stored (length_readBytes_le pipe len) fun _ => rfl⟩

theorem fills_consumeIntoUser (s : Kernel) (id : Nat) (buf : Word) (len : Nat) :
    Fills s buf len true (s.consumeIntoUser id buf len) := by
  have hMem : (s.consume id len).1.mem = s.mem := congrArg Space.mem (space_consume s id len)
  unfold consumeIntoUser
  dsimp only
  rw [hMem]
  exact .stored (length_consume_le s id len) fun _ => rfl

/-- A read of no bytes. -/
theorem fills_nothing : Fills s buf len true (.ok (s.ret 0)) := by
  have hFills : Fills s buf len true (do let m ← s.mem.storeBytes buf.toInt []; return (s.setMem m).ret 0) :=
    .stored (Nat.zero_le len) fun _ => rfl
  exact hFills

theorem fills_pipeReadImpl (s : Kernel) :
    ∃ wrote, Fills s (s.reg 1) (s.reg 2).toInt.toNat wrote s.pipeReadImpl := by
  unfold pipeReadImpl
  dsimp only
  split_ifs
  · exact ⟨false, .declined rfl (ret_result s errorCode)⟩
  · exact ⟨true, fills_nothing⟩
  · exact fills_pipeReadLoop s _ _ _

theorem fills_kernelTtyReadImpl (s : Kernel) :
    ∃ wrote, Fills s (s.reg 1) (s.reg 2).toInt.toNat wrote s.kernelTtyReadImpl := by
  unfold kernelTtyReadImpl
  dsimp only
  split_ifs
  · exact ⟨false, .declined rfl (ret_result s errorCode)⟩
  · exact ⟨true, fills_nothing⟩
  · exact ⟨true, fills_consumeIntoUser s _ _ _⟩
  · exact ⟨false, fills_switchAway _ rfl⟩

theorem writable_of_checkCBuf {m : Memory} {len : Int} (h : checkCBuf m buf len true = true) :
    m.Writable buf.toInt len.toNat := by
  unfold checkCBuf at h
  rw [Bool.and_eq_true, List.all_eq_true] at h
  intro x hLow hHigh
  have hByte := h.2 (x - buf.toInt).toNat (List.mem_range.mpr (by omega))
  have hAddr : buf.toInt + ((x - buf.toInt).toNat : Int) = x := by omega
  rwa [hAddr] at hByte

/-- The buffer of a read call is checked before it is used. -/
theorem fills_guardBuf {body : Except Stop Kernel}
    (hBody : ∃ wrote, Fills s (s.reg 1) (s.reg 2).toInt.toNat wrote body) :
    ∃ wrote, Fills s (s.reg 1) (s.reg 2).toInt.toNat wrote (s.guardBuf true body) ∧
      (wrote = true → s.mem.Writable (s.reg 1).toInt (s.reg 2).toInt.toNat) := by
  unfold guardBuf
  split_ifs with hCheck
  · obtain ⟨wrote, hFills⟩ := hBody
    exact ⟨wrote, hFills, fun _ => writable_of_checkCBuf hCheck⟩
  · exact ⟨false, .declined rfl (ret_result s errorCode), nofun⟩

variable {label : Label} {p : Proc} {kc : KernelContext}

/-- How the running process is left inside the kernel by a trap. -/
inductive Departs (s t : Kernel) (label : Label) : Prop where
  | back (hMode : t.mode = .user) (hRunning : t.runningProc = s.runningProc)
  | tick (hKc : (t.pcb s.runningProc).kc = some .clock)
  | call {call : Syscall} {uc : UserContext} {o : Outcomes} {kc : KernelContext} (hLabel : label = .syscall call uc o)
      (hLeaves : (s.saveUc uc).Leaves call kc (t.pcb s.runningProc).request)
      (hKc : (t.pcb s.runningProc).kc = some kc)

/-- A call leaves its caller as the call allows it. -/
theorem departs_dispatch {call : Syscall} (hUser : s.inUser) (hLt : s.runningProc < s.numPcbs)
    (h : (s.saveUc uc).dispatch call o = .ok t) (hLives : ¬t.Gone s.runningProc) :
    Departs s t (.syscall call uc o) := by
  by_cases hExit : call = .exit
  · subst hExit
    exact absurd (gone_of_kernelExit hLt hUser.2 (cpu_modifyPcb rfl rfl) h) hLives
  by_cases hFork : call = .fork
  · subst hFork
    obtain ⟨kc, -, hCpu⟩ := cpu_kernelFork h
    exact .back ((congrArg Cpu.mode hCpu).trans hUser.1) (congrArg Cpu.runningProc hCpu)
  by_cases hExec : call = .exec
  · subst hExec
    rcases registers_kernelExec h with ⟨left, hCpu, hKill⟩ | ⟨hMode, hRunning, -⟩
    · exact absurd (gone_of_kernelExit hLt hUser.2 (hCpu.trans (cpu_modifyPcb rfl rfl)) hKill) hLives
    · exact .back (hMode.trans hUser.1) hRunning
  · cases handled_dispatch hExit hFork hExec h with
    | back h => exact .back ((congrArg Desk.mode h :).trans hUser.1) (congrArg Desk.runningProc h :)
    | @away u kc hDesk hLeaves =>
        have hRunning : u.runningProc = s.runningProc := congrArg Desk.runningProc hDesk
        have hCpu := cpu_switchAway u kc
        have hKc : ((u.switchAway kc).pcb u.runningProc).kc = some kc :=
          (congrFun (congrArg Cpu.kc hCpu) u.runningProc).trans (Function.update_self _ _ _)
        have hRequest : ((u.switchAway kc).pcb s.runningProc).request = (u.pcb s.runningProc).request :=
          congrFun (congrArg Cpu.request hCpu) s.runningProc
        refine .call rfl ?_ (hRunning ▸ hKc)
        rw [hRequest]
        exact hLeaves

theorem departs_trap (hLt : s.runningProc < s.numPcbs) (hMode : s.mode = .user) (hStep : s.step label = .ok t)
    (hLives : ¬t.Gone s.runningProc) : Departs s t label := by
  have hSame (hCpu : t.cpu = s.cpu) : Departs s t label :=
    .back ((mode_of_cpu hCpu).trans hMode) (runningProc_of_cpu hCpu)
  cases label with
  | syscall call uc o =>
      simp only [step] at hStep
      split_ifs at hStep with hUser
      obtain ⟨done, hDone, hStep⟩ := bind_eq_ok.mp hStep
      obtain rfl := Except.ok.inj hStep
      have hCpu := leave_cpu done
      cases departs_dispatch hUser hLt hDone fun hGone => hLives hGone.leave with
      | back hMode hRunning =>
          exact .back ((mode_of_cpu hCpu).trans hMode) ((runningProc_of_cpu hCpu).trans hRunning)
      | tick hKc => exact .tick ((kc_of_cpu hCpu _).trans hKc)
      | call hLabel hLeaves hKc => exact .call hLabel (request_of_cpu hCpu _ ▸ hLeaves) ((kc_of_cpu hCpu _).trans hKc)
  | clock uc o =>
      simp only [step] at hStep
      split_ifs at hStep
      obtain rfl := Except.ok.inj hStep
      have hTick : ((s.tick o).saveUc uc).cpu = s.cpu :=
        (cpu_modifyPcb rfl rfl).trans (cpu_of_outside (outside_tick s o))
      have hLeave := leave_cpu ((s.tick o).saveUc uc).preempt
      rcases cpu_preempt ((s.tick o).saveUc uc) with hCpu | hCpu
      · exact hSame (hLeave.trans (hCpu.trans hTick))
      · refine .tick ((kc_of_cpu hLeave _).trans ?_)
        rw [← runningProc_of_cpu hTick]
        exact (congrFun (congrArg Cpu.kc hCpu) _).trans (Function.update_self _ _ _)
  | memory uc =>
      simp only [step] at hStep
      split_ifs at hStep with hUser
      unfold trapMemoryHandler at hStep
      dsimp only at hStep
      split_ifs at hStep
      · obtain rfl := Except.ok.inj hStep
        exact hSame rfl
      · exact absurd (gone_of_kernelExit hLt hUser.2 (cpu_setMem s _) hStep) hLives
  | math | illegal =>
      simp only [step] at hStep
      split_ifs at hStep with hUser
      exact absurd (gone_kernelExit hLt hUser.2 hStep) hLives
  | ttyReceive uc ttyId line lineOk =>
      simp only [step] at hStep
      split_ifs at hStep
      obtain rfl := Except.ok.inj hStep
      exact hSame ((leave_cpu _).trans ((cpu_ttyReceiveDone (s.saveUc uc) _ _ _).trans (cpu_modifyPcb rfl rfl)))
  | ttyTransmit uc ttyId =>
      simp only [step] at hStep
      split_ifs at hStep
      obtain rfl := Except.ok.inj hStep
      exact hSame ((leave_cpu _).trans ((cpu_ttyTransmitDone (s.saveUc uc) _).trans (cpu_modifyPcb rfl rfl)))
  | resume o =>
      simp only [step] at hStep
      split_ifs at hStep with hResuming
      rw [hMode] at hResuming
      cases hResuming
  | heap addr =>
      obtain rfl := Except.ok.inj hStep
      exact hSame rfl
  | userStore addr byte =>
      simp only [step] at hStep
      split_ifs at hStep
      obtain rfl := Except.ok.inj hStep
      exact hSame rfl

/-- The address space of a process, as it is seen when the process runs. -/
def view (s : Kernel) (p : Proc) : Memory := { s.mem with active := p }

/-- A process that has to fill a buffer when it continues a read may write to it. -/
def Granted (s : Kernel) : Prop := ∀ p kc, s.Live p → s.Parked p (some kc) → ∀ buf len,
  kc.reads (s.pcb p).request = some (buf, len) → (s.view p).Writable buf.toInt len

theorem writable_congr {m m' : Memory} (h : m'.region1Pt = m.region1Pt) {addr : Int} (hWritable : m.Writable addr len) :
    m'.Writable addr len := fun x hLow hHigh => (Memory.hasPerms_congr h x true).trans (hWritable x hLow hHigh)

theorem writable_view {t : Kernel} (h : t.mem.ctx p = s.mem.ctx p) {addr : Int}
    (hWritable : (s.view p).Writable addr len) : (t.view p).Writable addr len :=
  writable_congr (congrArg MemCtx.region1Pt h) hWritable

omit [Hardware] in
theorem not_parked (hMode : t.mode = .user) (hRunning : t.runningProc = p) {saved : Option KernelContext} :
    ¬t.Parked p saved := by
  intro hParked
  have hResuming := hParked.2 hRunning.symm
  rw [hMode] at hResuming
  cases hResuming

/-- Only the read calls leave a buffer to be filled, and they have checked it. -/
theorem Leaves.reads {call : Syscall} {request : Word × Nat} (h : s.Leaves call kc request)
    (hReads : kc.reads request = some (buf, len)) : (call = .pipeRead ∨ call = .ttyRead) ∧
      checkCBuf s.mem (s.reg 1) (s.reg 2).toInt true = true ∧ (buf, len) = (s.reg 1, (s.reg 2).toInt.toNat) := by
  unfold Leaves at h
  split at h
  all_goals try cases hReads
  · exact ⟨Or.inl rfl, h⟩
  · exact ⟨Or.inr rfl, h⟩
  · exact h.elim

/-- A read that blocks finds its buffer writable. -/
theorem granted_trap (hSound : KernelStart.Sound s) (hServed : s.space.Served) (hEnd : KernelStart.Sound t)
    (hMode : s.mode = .user) (hStep : s.step label = .ok t) (hLives : ¬t.Gone s.runningProc)
    (hParked : t.Parked s.runningProc (some kc)) (hReads : kc.reads (t.pcb s.runningProc).request = some (buf, len)) :
    (t.view s.runningProc).Writable buf.toInt len := by
  cases departs_trap hSound.running_lt hMode hStep hLives with
  | back hUser hRunning => exact absurd hParked (not_parked hUser hRunning)
  | tick hKc =>
      obtain rfl := Option.some.inj (hKc.symm.trans hParked.1)
      cases hReads
  | @call call uc o kc' hLabel hLeaves hKc =>
      obtain rfl := Option.some.inj (hKc.symm.trans hParked.1)
      -- the read calls do not touch the table of their caller
      have hSame (hRead : call = .pipeRead ∨ call = .ttyRead) : t.mem.ctx s.runningProc = s.mem.ctx s.runningProc := by
        obtain ⟨z, hCall, hSteps⟩ :=
          trap_step hSound.running_lt hSound.contexts.idle_lt (KernelStart.fates_gone hEnd) hStep
        have hSteps' : t.mem.ctx s.runningProc = z.mem.ctx s.runningProc := hSteps.ctx (hServed.call hCall) hLives
        rw [hSteps']
        subst hLabel
        rcases hRead with rfl | rfl
        · cases hCall with
          | none => rfl
          | brk h | fork h | grow h | load h => cases h
        · cases hCall with
          | none => rfl
          | brk h | fork h | grow h | load h => cases h
      have hActive : (s.view s.runningProc).region1Pt = s.mem.region1Pt := by
        have hSame : s.mem.active = s.runningProc := hServed.current.active
        rw [← hSame]
        rfl
      obtain ⟨hRead, hCheck, hBuffer⟩ := hLeaves.reads hReads
      obtain ⟨rfl, rfl⟩ := Prod.mk.inj hBuffer
      exact writable_view (hSame hRead) (writable_congr hActive (writable_of_checkCBuf hCheck))

/-- A reader that continues and is left again keeps its buffer. -/
theorem granted_resume (h : s.Granted) (hLive : s.Live s.runningProc) (hServed : s.space.Served)
    (hEnd : KernelStart.Sound t) (hStep : s.step (.resume o) = .ok t) (hLives : ¬t.Gone s.runningProc)
    (hParked : t.Parked s.runningProc (some kc)) (hReads : kc.reads (t.pcb s.runningProc).request = some (buf, len)) :
    (t.view s.runningProc).Writable buf.toInt len := by
  have hContinues := hStep
  simp only [step] at hContinues
  split_ifs at hContinues with hMode
  unfold resume at hContinues
  split at hContinues
  · cases hContinues
  · rename_i saved hSaved
    obtain ⟨done, hDone, hContinues⟩ := bind_eq_ok.mp hContinues
    obtain rfl := Except.ok.inj hContinues
    have hParked' : done.Parked s.runningProc (some kc) := by
      refine ⟨(kc_of_cpu (leave_cpu done) _).symm.trans hParked.1, fun hp => ?_⟩
      rw [← mode_of_cpu (leave_cpu done)]
      exact hParked.2 (hp.trans (runningProc_of_cpu (leave_cpu done)).symm)
    by_cases hBoot : saved = .boot
    · subst hBoot
      obtain ⟨loaded, hLoad, hDone⟩ := bind_eq_ok.mp hDone
      cases hResult : loaded.result with
      | success =>
          simp only [hResult] at hDone
          obtain rfl := Except.ok.inj hDone
          exact absurd hParked' (not_parked rfl rfl)
      | error | kill =>
          simp only [hResult] at hDone
          cases hDone
    · cases handled_continueAt hBoot hDone with
      | back hDesk =>
          exact absurd hParked' (not_parked (congrArg Desk.mode hDesk :) (congrArg Desk.runningProc hDesk :))
      | @away u left hDesk hLeaves =>
          obtain ⟨rfl, id, buf', len', rfl⟩ := hLeaves
          have hRunning : u.runningProc = s.runningProc := (congrArg Desk.runningProc hDesk :)
          have hKc : ((u.switchAway (.pipeRead id buf' len')).pcb u.runningProc).kc = some (.pipeRead id buf' len') :=
            (congrFun (congrArg Cpu.kc (cpu_switchAway u _)) u.runningProc).trans (Function.update_self _ _ _)
          rw [hRunning] at hKc
          obtain rfl := Option.some.inj (hKc.symm.trans hParked'.1)
          have hSame := resumed_step hEnd hServed (by simp [hSaved]) hStep hLives
          exact writable_view hSame (h s.runningProc _ hLive ⟨hSaved, fun _ => hMode⟩ buf len hReads)

/-- A new child has no buffer to fill. -/
theorem reads_child (hStep : s.step (.syscall .fork uc o) = .ok t) (hKc : (t.pcb s.numPcbs).kc = some kc)
    (request : Word × Nat) : kc.reads request = none := by
  simp only [step] at hStep
  split_ifs at hStep
  obtain ⟨done, hDone, hStep⟩ := bind_eq_ok.mp hStep
  obtain rfl := Except.ok.inj hStep
  obtain ⟨kc', hFork, hCpu⟩ := cpu_kernelFork hDone
  have hChild : (done.leave.pcb s.numPcbs).kc = kc' :=
    (kc_of_cpu (leave_cpu done) _).trans ((congrFun (congrArg Cpu.kc hCpu) s.numPcbs).trans (Function.update_self _ _ _))
  rw [hKc] at hChild
  subst hChild
  rcases hFork with hNone | hFork
  · cases hNone
  · obtain rfl := Option.some.inj hFork
    rfl

/-- Nothing but the own calls of a process touches its table. -/
theorem ctx_aside (hServed : s.space.Served) (hLives : ¬t.Gone p) (hOld : p < s.numPcbs) {z : Space}
    (hCall : Space.Call t.Gone label s.space z) (hSteps : Space.Steps t.Gone z t.space)
    (hAside : p = s.runningProc → s.mode = .resuming ∧ label.isResume = false) (hStep : s.step label = .ok t) :
    t.mem.ctx p = s.mem.ctx p := by
  have hSame : t.mem.ctx p = z.mem.ctx p := hSteps.ctx (hServed.call hCall) hLives
  rw [hSame]
  by_cases hp : p = s.runningProc
  · obtain ⟨hMode, hLabel⟩ := hAside hp
    cases hCall with
    | none => rfl
    | brk h | fork h =>
        subst h
        simp [step, inUser, hMode] at hStep
    | grow h =>
        subst h
        simp [step, inUser, hMode] at hStep
    | load h =>
        cases label with
        | syscall call uc o => simp [step, inUser, hMode] at hStep
        | resume o => cases hLabel
        | _ => cases h
  · exact hCall.others hServed hp hOld

theorem Granted.step (h : s.Granted) (hSound : KernelStart.Sound s) (hServed : s.space.Served)
    (hEnd : KernelStart.Sound t) (hStep : s.step label = .ok t) : t.Granted := by
  obtain ⟨z, hCall, hSteps⟩ := trap_step hSound.running_lt hSound.contexts.idle_lt (KernelStart.fates_gone hEnd) hStep
  have hOutlived := outlived_step hSound hStep
  intro p kc hLive hParked buf len hReads
  have hLives : ¬t.Gone p := fun hGone => hGone.2.2 hLive
  by_cases hOld : p < s.numPcbs
  · have hLiveOld := hOutlived.live p hOld hLive
    by_cases hAside : p = s.runningProc → s.mode = .resuming ∧ label.isResume = false
    · have hOther : ¬(p = s.runningProc ∧ label.isResume = true) := by
        rintro ⟨hp, hResume⟩
        rw [(hAside hp).2] at hResume
        cases hResume
      have hBefore : s.Parked p (s.pcb p).kc := ⟨rfl, fun hp => (hAside hp).1⟩
      have hKc : (s.pcb p).kc = some kc := (hBefore.step hSound hOld hOther hStep).1.symm.trans hParked.1
      rw [hBefore.request_step hSound hOld hOther hStep] at hReads
      rw [hKc] at hBefore
      exact writable_view (ctx_aside hServed hLives hOld hCall hSteps hAside hStep)
        (h p kc hLiveOld hBefore buf len hReads)
    · obtain ⟨rfl, hActs⟩ := Classical.not_imp.mp hAside
      cases hMode : s.mode with
      | user => exact granted_trap hSound hServed hEnd hMode hStep hLives hParked hReads
      | resuming =>
          cases label with
          | resume o => exact granted_resume h hLiveOld hServed hEnd hStep hLives hParked hReads
          | _ => exact absurd ⟨hMode, rfl⟩ hActs
  · have hNew : p < t.numPcbs := hLive.2.1
    have hSize : t.numPcbs = z.numPcbs := hSteps.numPcbs
    rcases hCall.numPcbs with hNone | ⟨hMore, uc, o, hFork⟩
    · rw [hSize, hNone] at hNew
      exact absurd hNew hOld
    · obtain rfl : p = s.numPcbs := by
        rw [hSize, hMore] at hNew
        exact Nat.le_antisymm (Nat.lt_succ_iff.mp hNew) (Nat.not_lt.mp hOld)
      subst hFork
      rw [reads_child hStep hParked.1] at hReads
      cases hReads

/-- Every write of the step through a pointer of the running process is isolated. -/
def Contained (s : Kernel) (label : Label) : Prop :=
  ∀ buf len, s.buffer label = some (buf, len) → s.Isolates buf len (s.step label)

/-- The step stores a word through a pointer that nobody checks, and the process may not
write there: an init call that succeeds, or a `Wait` that has an exit status. -/
def Overreaches (s : Kernel) : Label → Prop
  | .syscall .lockInit uc o => s.inUser ∧ ¬s.mem.Writable (uc.regs 0).toInt 4 ∧
      uc.regs 0 ≠ 0 ∧ s.locks.Creates (o.alloc 0) (o.alloc 1)
  | .syscall .semInit uc o => s.inUser ∧ ¬s.mem.Writable (uc.regs 0).toInt 4 ∧
      uc.regs 0 ≠ 0 ∧ 1 ≤ (uc.regs 1).toInt ∧ s.locks.Creates (o.alloc 0) (o.alloc 1)
  | .syscall .cvarInit uc o => s.inUser ∧ ¬s.mem.Writable (uc.regs 0).toInt 4 ∧
      uc.regs 0 ≠ 0 ∧ s.cvars.Creates (o.alloc 0) true
  | .syscall .pipeInit uc o => s.inUser ∧ ¬s.mem.Writable (uc.regs 0).toInt 4 ∧
      uc.regs 0 ≠ 0 ∧ s.pipes.Creates (o.alloc 0) (o.alloc 1)
  | .syscall .wait uc _ => s.inUser ∧ ¬s.mem.Writable (uc.regs 0).toInt 4 ∧
      uc.regs 0 ≠ 0 ∧ (s.exitedChildIdx s.runningProc).isSome = true
  | .resume _ => s.mode = .resuming ∧ (s.pcb s.runningProc).kc = some .wait ∧
      ¬s.mem.Writable ((s.pcb s.runningProc).uc.regs 0).toInt 4 ∧ (s.pcb s.runningProc).uc.regs 0 ≠ 0
  | _ => False

theorem isolates_saveUc : (s.saveUc uc).Isolates buf len r ↔ s.Isolates buf len r :=
  ⟨fun h => ⟨h.tame, h.inside, h.refused⟩, fun h => ⟨h.tame, h.inside, h.refused⟩⟩

theorem isolates_error {stop : Stop} (h : ∀ x, stop ≠ .wildStore x) : s.Isolates buf len (.error stop) where
  tame x hError := h x (Except.error.inj hError)
  inside := nofun
  refused := nofun

omit [Hardware] in
theorem exitedChildIdx_saveUc (s : Kernel) (uc : UserContext) (parent : Proc) :
    (s.saveUc uc).exitedChildIdx parent = s.exitedChildIdx parent := by
  have hRelations (p : Proc) : ((s.saveUc uc).pcb p).relations = (s.pcb p).relations :=
    pcb_modifyPcb (v := Pcb.relations) rfl p
  have hState (p : Proc) : ((s.saveUc uc).pcb p).state = (s.pcb p).state := pcb_modifyPcb (v := Pcb.state) rfl p
  simp only [exitedChildIdx, isExited, hRelations, hState]

theorem step_syscall (hUser : s.inUser) (call : Syscall) : s.step (.syscall call uc o) =
    do let t ← (s.saveUc uc).dispatch call o; return t.leave := by
  simp only [step, if_pos hUser]
  rfl

/-- A call that stores a word is contained unless it overreaches. -/
theorem contained_of_puts {call : Syscall} (hUser : s.inUser) (hBuffer : call.buffer uc = some (uc.regs 0, 4))
    (hPuts : Puts (s.saveUc uc) (uc.regs 0) wrote ((s.saveUc uc).dispatch call o)) :
    s.Contained (.syscall call uc o) ↔
      ¬(s.inUser ∧ ¬s.mem.Writable (uc.regs 0).toInt 4 ∧ wrote) := by
  have hIff := isolates_saveUc.symm.trans hPuts.leave.isolates_iff
  rw [← step_syscall hUser] at hIff
  have hContained : s.Contained (.syscall call uc o) ↔ s.Isolates (uc.regs 0) 4 (s.step (.syscall call uc o)) := by
    constructor
    · exact fun h => h _ _ hBuffer
    · intro h buf len hOther
      obtain ⟨rfl, rfl⟩ := Prod.mk.inj (Option.some.inj (hBuffer.symm.trans hOther))
      exact h
  rw [hContained, hIff]
  constructor
  · exact fun h hNot => hNot.2.1 (h hNot.2.2)
  · intro h hWrote
    by_contra hBuf
    exact h ⟨hUser, hBuf, hWrote⟩

/-- The transfer calls are always contained. -/
theorem contained_of_fills {call : Syscall} (hUser : s.inUser)
    (hBuffer : call.buffer uc = some (uc.regs 1, (uc.regs 2).toInt.toNat))
    (hFills : ∃ wrote, Fills (s.saveUc uc) (uc.regs 1) (uc.regs 2).toInt.toNat wrote ((s.saveUc uc).dispatch call o) ∧
      (wrote = true → s.mem.Writable (uc.regs 1).toInt (uc.regs 2).toInt.toNat)) :
    s.Contained (.syscall call uc o) := by
  intro buf len hOther
  obtain ⟨rfl, rfl⟩ := Prod.mk.inj (Option.some.inj (hBuffer.symm.trans hOther))
  obtain ⟨wrote, hFills, hBuf⟩ := hFills
  rw [step_syscall hUser]
  exact isolates_saveUc.mp (hFills.leave.isolates hBuf)

theorem contained_syscall (call : Syscall) : s.Contained (.syscall call uc o) ↔ ¬s.Overreaches (.syscall call uc o) := by
  by_cases hUser : s.inUser
  · have hReg := reg_saveUc s uc
    cases call with
    | lockInit =>
        refine contained_of_puts hUser rfl ?_
        rw [← hReg]
        exact puts_kernelLockInit
    | semInit =>
        refine contained_of_puts hUser rfl ?_
        rw [← hReg, ← hReg]
        exact puts_kernelSemInit
    | cvarInit =>
        refine contained_of_puts hUser rfl ?_
        rw [← hReg]
        exact puts_kernelCvarInit
    | pipeInit =>
        refine contained_of_puts hUser rfl ?_
        rw [← hReg]
        exact puts_kernelPipeInit
    | wait =>
        by_cases hNull : uc.regs 0 = 0
        · refine iff_of_true (fun buf len hOther => ?_) fun h => h.2.2.1 hNull
          simp [Kernel.buffer, Syscall.buffer, hNull] at hOther
        · have hPuts : Puts (s.saveUc uc) (uc.regs 0) (uc.regs 0 ≠ 0 ∧ (s.exitedChildIdx s.runningProc).isSome = true)
              ((s.saveUc uc).kernelWait o) := by
            rw [and_iff_right hNull, ← exitedChildIdx_saveUc s uc, ← hReg]
            exact puts_kernelWait (by rwa [hReg])
          exact contained_of_puts hUser (if_neg hNull) hPuts
    | ttyRead =>
        refine iff_of_true (contained_of_fills hUser rfl ?_) (fun h => h)
        rw [← hReg, ← hReg]
        exact fills_guardBuf (fills_kernelTtyReadImpl _)
    | pipeRead =>
        refine iff_of_true (contained_of_fills hUser rfl ?_) (fun h => h)
        rw [← hReg, ← hReg]
        exact fills_guardBuf (fills_pipeReadImpl _)
    | _ => exact iff_of_true nofun (fun h => h)
  · have hStep : s.step (.syscall call uc o) = .error .disabled := by
      simp only [step, if_neg hUser]
    refine iff_of_true (fun buf len _ => ?_) ?_
    · rw [hStep]
      exact isolates_error (by simp)
    · cases call <;> first | exact fun h => hUser h.1 | exact fun h => h

theorem isolates_user : ({ s with mode := .user } : Kernel).Isolates buf len r ↔ s.Isolates buf len r :=
  ⟨fun h => ⟨h.tame, h.inside, h.refused⟩, fun h => ⟨h.tame, h.inside, h.refused⟩⟩

/-- A caller that continues is contained, unless it continues a `Wait`. -/
theorem contained_resume (h : s.Granted) (hSound : KernelStart.Sound s) (hServed : s.space.Served) :
    s.Contained (.resume o) ↔ ¬s.Overreaches (.resume o) := by
  by_cases hMode : s.mode = .resuming
  · cases hKc : (s.pcb s.runningProc).kc with
    | none =>
        refine iff_of_true (fun buf len hBuffer => ?_) fun h => ?_
        · simp [Kernel.buffer, Pcb.buffer, hKc] at hBuffer
        · rw [h.2.1] at hKc
          cases hKc
    | some kc =>
        have hStep : s.step (.resume o) =
            do let t ← ({ s with mode := .user } : Kernel).continueAt kc o; return t.leave := by
          simp only [step, if_pos hMode, resume, hKc]
        by_cases hWait : kc = .wait
        · subst hWait
          by_cases hNull : (s.pcb s.runningProc).uc.regs 0 = 0
          · refine iff_of_true (fun buf len hBuffer => ?_) fun h => h.2.2.2 hNull
            simp [Kernel.buffer, Pcb.buffer, Syscall.buffer, hKc, hNull] at hBuffer
          · have hPuts := puts_waitReturn (s := { s with mode := .user }) hNull
            have hIff := isolates_user.symm.trans hPuts.leave.isolates_iff
            have hBuffer : s.buffer (.resume o) = some ((s.pcb s.runningProc).uc.regs 0, 4) := by
              simp only [Kernel.buffer, Pcb.buffer, hKc]
              exact if_neg hNull
            constructor
            · intro hContained hOver
              have hIsolates := hContained _ _ hBuffer
              rw [hStep] at hIsolates
              exact hOver.2.2.1 (hIff.mp hIsolates trivial)
            · intro hNot buf len hOther
              obtain ⟨rfl, rfl⟩ := Prod.mk.inj (Option.some.inj (hBuffer.symm.trans hOther))
              rw [hStep]
              refine hIff.mpr fun _ => ?_
              by_contra hBuf
              exact hNot ⟨hMode, hKc, hBuf, hNull⟩
        · refine iff_of_true (fun buf len hBuffer => ?_) fun h => ?_
          · have hReads : kc.reads (s.pcb s.runningProc).request = some (buf, len) := by
              simp only [Kernel.buffer, Pcb.buffer, hKc] at hBuffer
              exact hBuffer
            have hOwn : (s.view s.runningProc).Writable buf.toInt len := by
              refine h s.runningProc kc ?_ ⟨hKc, fun _ => hMode⟩ buf len hReads
              have hIdle : s.runningProc ≠ s.idleProc := by
                intro hIs
                have hIdleKc : s.cpu.kc s.cpu.idleProc = some kc :=
                  (congrArg (fun p => (s.pcb p).kc) hIs).symm.trans hKc
                obtain rfl := hSound.contexts.idle kc hIdleKc
                cases hReads
              by_contra hNot
              exact (KernelStart.fates_gone hSound).running ⟨hSound.running_lt, hIdle, hNot⟩
            have hActive : s.mem.active = s.runningProc := hServed.current.active
            have hWritable : s.mem.Writable buf.toInt len := by
              refine writable_congr ?_ hOwn
              rw [← hActive]
              rfl
            rw [hStep]
            cases kc with
            | pipeRead id buf' len' =>
                obtain ⟨rfl, rfl⟩ := Prod.mk.inj (Option.some.inj hReads)
                obtain ⟨wrote, hFills⟩ := fills_pipeReadLoop { s with mode := .user } id buf' len'
                exact isolates_user.mp (hFills.leave.isolates fun _ => hWritable)
            | ttyRead id =>
                obtain ⟨rfl, rfl⟩ := Prod.mk.inj (Option.some.inj hReads)
                have hFills := fills_consumeIntoUser { s with mode := .user } id (s.pcb s.runningProc).ioUserBuf
                  (s.pcb s.runningProc).ioLen
                exact isolates_user.mp (hFills.leave.isolates fun _ => hWritable)
            | _ => cases hReads
          · rw [h.2.1] at hKc
            exact hWait (Option.some.inj hKc).symm
  · have hStep : s.step (.resume o) = .error .disabled := by
      simp only [step, if_neg hMode]
    refine iff_of_true (fun buf len _ => ?_) fun h => hMode h.1
    rw [hStep]
    exact isolates_error (by simp)

end Kernel

namespace KernelStart

open Kernel

theorem granted_reachable [Hardware] {s : Kernel} (run : system.Reachable s) : s.Granted := by
  refine run.invariant (I := Granted) ?_ fun s label t hRun hGranted _ hStep => ?_
  · rintro s ⟨uctxt, early, late, rfl⟩ p kc hLive hParked buf len hReads
    obtain ⟨first, hFirst, hCpu⟩ := cpu_kernelStart uctxt early late
    have hKc : Function.update (fun _ => none) 1 first p = some kc :=
      (congrFun (congrArg Cpu.kc hCpu) p).symm.trans hParked.1
    by_cases hp : p = 1
    · subst hp
      rw [Function.update_self] at hKc
      subst hKc
      rcases hFirst with hNone | hBoot
      · cases hNone
      · obtain rfl := Option.some.inj hBoot
        cases hReads
    · rw [Function.update_of_ne hp] at hKc
      cases hKc
  · exact hGranted.step (sound_reachable hRun) (served_reachable hRun)
      (sound_reachable (reachable_step hRun hStep)) hStep

/-- What a step writes through a pointer of the running process is isolated exactly when
the step is none of those that store through an unchecked pointer. -/
theorem user_writes_contained [Hardware] {s : Kernel} (label : Label)
    (hRun : label.isResume = true → system.Reachable s) : s.Contained label ↔ ¬s.Overreaches label := by
  cases label with
  | syscall call uc o => exact contained_syscall call
  | resume o =>
      have run := hRun rfl
      exact contained_resume (granted_reachable run) (sound_reachable run) (served_reachable run)
  | _ => exact iff_of_true nofun fun h => h

open Sample in
/-- A process that blocked in `TtyRead` gets its line where it asked for it. -/
theorem user_writes_contained_read : ∃ s, system.Reachable s ∧ s.buffer (.resume outcomes) = some (208, 4) ∧
    s.Contained (.resume outcomes) := by
  obtain ⟨s, run, hBuffer, hKc⟩ := System.exists_reachable
    (P := fun s : Kernel => s.buffer (.resume outcomes) = some (208, 4) ∧ (s.pcb s.runningProc).kc ≠ some .wait)
    (turn ++ [call .ttyRead [0, 208, 4], .resume outcomes, .ttyReceive (context []) 0 [65, 66] true,
      .clock (context []) outcomes]) initial_booted (by decide +kernel)
  exact ⟨s, run, hBuffer, (user_writes_contained (.resume outcomes) fun _ => run).mpr fun h => hKc h.2.1⟩

open Sample in
/-- `LockInit` writes the identifier to the kernel address 16. -/
theorem kernel_memory_written : ∃ s, system.Reachable s ∧ s.inUser ∧
    s.step (call .lockInit [16]) = .error (.wildStore 16) ∧ ¬s.Contained (call .lockInit [16]) := by
  obtain ⟨s, run, hUser, hWild⟩ := System.exists_reachable
    (P := fun s : Kernel => s.inUser ∧ (match s.step (call .lockInit [16]) with
      | .error (.wildStore addr) => some addr
      | _ => none) = some 16)
    turn initial_booted (by decide +kernel)
  have hStep : s.step (call .lockInit [16]) = .error (.wildStore 16) := by
    split at hWild
    · rename_i addr hError
      rw [hError, Option.some.inj hWild]
    · cases hWild
  exact ⟨s, run, hUser, hStep, fun h => (h 16 4 rfl).tame 16 hStep⟩

end KernelStart
end Yalnix
