import Yalnix.Device.Reads

/-! Terminal input over whole runs: it is read once and in order. A read of a
woken process returns a byte as long as nobody overtakes it, and no reader is
forgotten as long as no read leaves input behind. -/
namespace Yalnix

open Hardware

namespace Kernel

variable [Hardware] {s t : Kernel} {id k : Nat} {nodes : Nat → List Nat}

/-- The lines are well linked, and whoever is blocked is inside its call. -/
structure Reading (s : Kernel) : Prop where
  lines : ∃ nodes, s.Lines nodes
  waiting : s.Waiting

namespace Reading

theorem effect {label : Label} (h : s.Reading) (hSound : KernelStart.Sound s) (hEffect : Effect label s t) : t.Reading :=
  ⟨(input_effect hSound h.lines hEffect).1, h.waiting.effect hSound hEffect⟩

theorem read (h : s.Reading) (hSound : KernelStart.Sound s) (k len : Nat) : (s.read k len).Reading := by
  obtain ⟨nodes, hLines⟩ := h.lines
  exact ⟨(input_read hSound hLines k len).1, h.waiting.read hSound k len⟩

omit [Hardware] in
theorem user (h : s.Reading) : ({ s with mode := .user } : Kernel).Reading := by
  obtain ⟨nodes, hLines⟩ := h.lines
  exact ⟨⟨nodes, hLines.placed, hLines.linked, hLines.bound⟩, h.waiting⟩

/-- Blocked readers are inside their read, once each. -/
theorem wf (h : s.Reading) (hSound : KernelStart.Sound s) (id : Nat) : (s.input id).Wf where
  nodup := hSound.settled.placement.placed.nodup (.queue (.reader id))
  inside := by
    intro p hp
    have hMem : p ∈ s.contents (.queue (.reader id)) := hp
    obtain ⟨kc, hKc, hAt⟩ := h.waiting _ rfl p hMem
    have hRead : kc = .ttyRead id := hAt
    rw [input, mem_inside]
    exact ⟨hSound.settled.placement.live_of_mem hMem, hRead ▸ hKc,
      fun hRunning => absurd hRunning (ne_running hSound rfl hMem)⟩

end Reading

/-- A process that continues its read was woken. -/
theorem woken_running (h : KernelStart.Sound s) (hMode : s.mode = .resuming)
    (hKc : (s.pcb s.runningProc).kc = some (.ttyRead id)) : s.runningProc ∈ (s.input id).woken := by
  obtain ⟨hCpu, hLive⟩ := h.running hKc (by simp)
  have hMem : s.runningProc ∈ s.contents .cpu := by simp [hCpu]
  have hFree : s.runningProc ∉ s.contents (.queue (.reader id)) :=
    h.settled.placement.placed.not_mem_of_ne hMem (by simp)
  rw [Input.woken, Finset.mem_filter, input, mem_inside]
  exact ⟨⟨hLive, hKc, fun _ => hMode⟩, hFree⟩

/-- Quiet changes keep the input side. -/
theorem input_quiet (h : KernelStart.Sound s) (hQuiet : Quiet s t) : t.input id = s.input id := by
  have hLive : t.Live = s.Live := funext fun p => propext (hQuiet.live_iff p)
  refine input_congr ?_ (fun p => inside_iff_of_cpu (cpu_of_outside hQuiet.outside) hLive)
    (lineView_of_devices (devices_of_outside hQuiet.outside))
  rw [(h.settled.quiet hQuiet).contents_eq]

end Kernel

namespace KernelStart

open Kernel

variable [Hardware] {s : Kernel} {allowed : Kernel → Label → Prop}

/-- At boot there is no input. -/
theorem input_kernelStart (uctxt : UserContext) (early late : List Word) (id : Nat) :
    (kernelStart uctxt early late).Reading ∧
      (kernelStart uctxt early late).input id = ⟨[], ∅, [], [], []⟩ := by
  have hView : (kernelStart uctxt early late).lineView = (image uctxt).lineView :=
    lineView_of_devices (devices_kernelStart uctxt early late)
  have hImage : (image uctxt).Lines fun _ => [] :=
    ⟨⟨fun _ => List.nodup_nil, by simp⟩, fun _ => IntrusiveQueue.isQueue_empty _, by simp⟩
  have hLines := hImage.of_view hView
  refine ⟨⟨⟨_, hLines⟩, fun _ ha _ hp => absurd hp (not_blocked_kernelStart uctxt early late ha)⟩, ?_⟩
  rw [input_eq hLines]
  refine Input.ext ?_ ?_ rfl (congrArg (LineView.received · id) hView)
    (congrArg (LineView.reads · id) hView)
  · exact List.eq_nil_iff_forall_not_mem.mpr fun p =>
      not_blocked_kernelStart (a := .queue (.reader id)) uctxt early late rfl
  · ext p
    rw [mem_inside]
    simpa using fun hInside => nomatch inside_kernelStart uctxt early late hInside

theorem reading_reachable (run : system.Reachable s) : s.Reading :=
  invariant (I := Reading) (fun uctxt early late => (input_kernelStart uctxt early late 0).1)
    (fun _ _ _ h hReading hEffect => hReading.effect h hEffect)
    (fun _ k len h hReading => hReading.read h k len) (fun _ _ _ hReading _ _ => hReading.user) run

/-- The invariant rule for input sides. It is enough that arrivals keep the
property, and that the reads that are allowed do. -/
theorem input_invariant {P : Input → Prop} (hEmpty : P ⟨[], ∅, [], [], []⟩)
    (hArrival : ∀ i j, i.Wf → P i → Input.Arrival i j → P j)
    (hRead : ∀ s uc o id len, allowed s (.syscall .ttyRead uc o) → s.ReadCall uc id len →
      P (s.input id) → P ((s.input id).read len))
    (hResume : ∀ s o id, allowed s (.resume o) → (s.pcb s.runningProc).kc = some (.ttyRead id) →
      s.runningProc ∈ (s.input id).woken → P (s.input id) →
      P ((s.input id).resume s.runningProc (s.pcb s.runningProc).ioLen))
    (run : system.Reach allowed s) (id : Nat) : P (s.input id) := by
  have hInv : s.Reading ∧ ∀ id, P (s.input id) := by
    refine run.invariant (I := fun s => s.Reading ∧ ∀ id, P (s.input id)) ?_
      fun s label t hRun hInv hAllowed hStep => ?_
    · rintro s ⟨uctxt, early, late, rfl⟩
      refine ⟨(input_kernelStart uctxt early late 0).1, fun id => ?_⟩
      rw [(input_kernelStart uctxt early late id).2]
      exact hEmpty
    · have h := sound_reachable hRun.reachable
      refine h.preserve (I := fun s => s.Reading ∧ ∀ id, P (s.input id)) ?_ hInv hStep ?_ ?_
      · intro s t h hInv hEffect
        refine ⟨hInv.1.effect h hEffect, fun id => ?_⟩
        rcases (input_effect h hInv.1.lines hEffect).2 id with hSame | hNew
        · rw [hSame]
          exact hInv.2 id
        · exact hArrival _ _ (hInv.1.wf h id) (hInv.2 id) hNew
      · intro uc o k len hLabel hCall hSaved hKept
        subst hLabel
        obtain ⟨nodes, hLines⟩ := hKept.1.lines
        refine ⟨hKept.1.read hSaved k len, fun id => ?_⟩
        rw [(input_read hSaved hLines k len).2 id, input_quiet h (.saveUc s uc)]
        split_ifs with hk
        · exact hRead s uc o id len hAllowed (hk ▸ hCall) (hInv.2 id)
        · exact hInv.2 id
      · intro o k hLabel hMode hKc
        subst hLabel
        have hUser := hInv.1.user
        obtain ⟨nodes, hLines⟩ := hUser.lines
        refine ⟨hUser.read h.user k _, fun id => ?_⟩
        rw [(input_read h.user hLines k _).2 id, input_user hKc id]
        split_ifs with hk
        · subst hk
          exact hResume s o id hAllowed hKc (woken_running h hMode hKc) (hInv.2 id)
        · exact hInv.2 id
  exact hInv.2 id

end KernelStart

namespace Kernel

variable [Hardware] {s t : Kernel} {id len : Nat} {buf : Word} {o : Outcomes}

/-- A read returns `bytes`, the next ones of the first line: they are stored in
the buffer and their number is the result. -/
structure ReturnsRead (s t : Kernel) (id : Nat) (buf : Word) (len : Nat) (bytes : List Byte) : Prop where
  next : bytes = (Input.consume (s.input id).lines len).2
  recorded : (t.input id).reads = (s.input id).reads ++ [bytes]
  stored : s.mem.storeBytes buf.toInt bytes = .ok t.mem
  result : (t.pcb s.runningProc).uc.regs 0 = BitVec.ofNat 32 bytes.length

/-- What a read of at least one byte does: it fails, it blocks as long as there
is no line, or it returns. -/
inductive ReadsTty (s t : Kernel) (id : Nat) (buf : Word) (len : Nat) : Prop where
  | error (hArgs : ¬(id < numTerminals ∧ checkCBuf s.mem buf len true = true))
      (hResult : (t.pcb s.runningProc).uc.regs 0 = errorCode)
      (hReads : (t.input id).reads = (s.input id).reads)
  | blocked (hEmpty : (s.input id).lines = []) (hInside : t.Inside s.runningProc (.ttyRead id))
      (hLen : (t.pcb s.runningProc).ioLen = len) (hReads : (t.input id).reads = (s.input id).reads)
  | returned {bytes : List Byte} (hLine : (s.input id).lines ≠ []) (h : ReturnsRead s t id buf len bytes)

theorem returnsRead_consumeIntoUser (hLines : ∃ nodes, s.Lines nodes)
    (h : s.consumeIntoUser id buf len = .ok t) : ∃ bytes, ReturnsRead s t.leave id buf len bytes := by
  obtain ⟨nodes, hLines⟩ := hLines
  obtain ⟨mem, hStore, h⟩ := Transition.bind_eq_ok.mp h
  obtain rfl := Except.ok.inj h
  obtain ⟨lines, rx, hConsumed⟩ := consume_eq s id len
  obtain ⟨-, -, -, hBytes, -⟩ := hLines.consume id len
  refine ⟨(s.consume id len).2, ?_, ?_, ?_, ?_⟩
  · rw [hBytes, input_eq hLines]
    rfl
  · have hTrace (u : Kernel) : u.leave.trace = u.trace := by
      unfold leave
      split <;> rfl
    have hReads (u : Kernel) : (u.input id).reads = u.trace.filterMap (Event.readOn id) := rfl
    rw [hReads, hReads, hTrace, ret, setResult, hConsumed]
    simp [modifyPcb, emit, setMem, setTty, Event.readOn]
  · have hMem (u : Kernel) : u.leave.mem = u.mem := by
      unfold leave
      split <;> rfl
    rw [hMem]
    rw [hConsumed] at hStore
    exact hStore
  · rw [leave_pcb]
    have hRunning : s.runningProc =
        (((s.consume id len).1.setMem mem).emit (.ttyRead id s.runningProc len (s.consume id len).2)).runningProc := by
      rw [hConsumed]
      rfl
    rw [hRunning]
    exact ret_result _ _

omit [Hardware] in
theorem ReturnsRead.bounds [Hardware] {bytes : List Byte} (h : ReturnsRead s t id buf len bytes)
    (hBytes : 1 ≤ (Input.consume (s.input id).lines len).2.length ∧
      (Input.consume (s.input id).lines len).2.length ≤ len) (hShort : len < 2 ^ 31) :
    1 ≤ ((t.pcb s.runningProc).uc.regs 0).toInt ∧ ((t.pcb s.runningProc).uc.regs 0).toInt ≤ len := by
  rw [← h.next] at hBytes
  have hNat : (BitVec.ofNat 32 bytes.length).toNat = bytes.length := by
    rw [BitVec.toNat_ofNat, Nat.mod_eq_of_lt (by omega)]
  rw [h.result, BitVec.toInt_eq_toNat_of_lt (by omega), hNat]
  omega

/-- `kernel_tty_read` with a positive length. -/
theorem readsTty_step {uc : UserContext} (h : KernelStart.Sound s) (hLines : ∃ nodes, s.Lines nodes)
    (hReg : (uc.regs 0).toInt = id) (hLen : (uc.regs 2).toInt = len) (hPos : 0 < len)
    (hStep : s.step (.syscall .ttyRead uc o) = .ok t) : s.ReadsTty t id (uc.regs 1) len := by
  simp only [step] at hStep
  split_ifs at hStep with hUser
  obtain ⟨u, hCall, hLeave⟩ := Transition.bind_eq_ok.mp hStep
  obtain rfl := Except.ok.inj hLeave
  have hSave := Quiet.saveUc s uc
  have hSaved := h.quiet hSave
  have hSame : (s.saveUc uc).input id = s.input id := input_quiet h hSave
  have hError (hArgs : ¬(id < numTerminals ∧ checkCBuf s.mem (uc.regs 1) len true = true))
      (hErr : (.ok ((s.saveUc uc).ret errorCode) : Except Stop Kernel) = .ok u) :
      s.ReadsTty u.leave id (uc.regs 1) len := by
    obtain rfl := Except.ok.inj hErr
    refine .error hArgs ?_ ?_
    · rw [leave_pcb]
      exact ret_result (s.saveUc uc) errorCode
    · rw [input_quiet (hSaved.quiet (.ret _ _)) (.leave _), input_quiet hSaved (.ret _ _), hSame]
  simp only [dispatch, kernelTtyRead, guardBuf, reg_saveUc] at hCall
  split at hCall
  · rename_i hBuf
    have hNull : uc.regs 1 ≠ 0 := by
      intro hNull
      simp [checkCBuf, hNull] at hBuf
    have hTty : (uc.regs 0).toInt.toNat = id := by omega
    have hNat : (uc.regs 2).toInt.toNat = len := by omega
    unfold kernelTtyReadImpl at hCall
    simp only [reg_saveUc, hTty, hNat] at hCall
    split_ifs at hCall with hArgs hZero hFirst
    · refine hError (fun hValid => ?_) hCall
      have hId := hValid.1
      rcases hArgs with hArgs | hArgs | hArgs | hArgs
      · omega
      · omega
      · omega
      · exact hNull hArgs
    · omega
    · obtain ⟨nodes, hNodes⟩ := hLines
      have hSavedLines : (s.saveUc uc).Lines nodes :=
        hNodes.of_view (lineView_of_devices (devices_of_outside hSave.outside))
      obtain ⟨bytes, hReturns⟩ := returnsRead_consumeIntoUser ⟨nodes, hSavedLines⟩ hCall
      have hRead : ReturnsRead s u.leave id (uc.regs 1) len bytes := ⟨hSame ▸ hReturns.next,
        hSame ▸ hReturns.recorded, hReturns.stored, hReturns.result⟩
      refine .returned ?_ hRead
      rw [input_eq hNodes]
      intro hNil
      have hQueue := (hNodes.linked id).1
      rw [List.map_eq_nil_iff.mp hNil] at hQueue
      exact hFirst hQueue
    · obtain rfl := Except.ok.inj hCall
      have hQuiet := Quiet.refl ((s.saveUc uc).ttyReadBlock id (uc.regs 1) len)
      have hBlocked := input_readBlock hSaved (hSave.inUser hUser) hQuiet id
      have hShort := BitVec.toInt_lt (x := uc.regs 2)
      have hEffect : Effect (.syscall .ttyRead uc o) (s.saveUc uc) _ := .block (hSave.inUser hUser)
        (.ttyRead (by omega) (not_not.mp hFirst) ⟨hPos, by omega⟩)
        (.refl ((s.saveUc uc).ttyReadBlock id (uc.regs 1) len))
      have hNext := hSaved.effects hEffect.one
      refine .blocked ?_ ?_ ?_ ?_
      · have hNone : (s.ttys id).rx.first = none := not_not.mp hFirst
        simp [input, inputOf, buffered, hNone]
      · have hLive : (((s.saveUc uc).ttyReadBlock id (uc.regs 1) len).switchAway (.ttyRead id)).leave.Live =
            (((s.saveUc uc).ttyReadBlock id (uc.regs 1) len).switchAway (.ttyRead id)).Live :=
          funext fun p => propext ((Quiet.leave _).live_iff p)
        rw [inside_iff_of_cpu (cpu_of_outside (Quiet.leave _).outside) hLive,
          hSaved.inside_readBlock (hSave.inUser hUser) hQuiet]
        exact Or.inr ⟨rfl, rfl⟩
      · rw [leave_pcb]
        have hRequest := congrArg (fun c => (c.request s.runningProc).2)
          (cpu_switchAway ((s.saveUc uc).ttyReadBlock id (uc.regs 1) len) (.ttyRead id))
        refine hRequest.trans ?_
        rw [cpu_ttyReadBlock]
        exact congrArg Prod.snd (Function.update_self (f := (s.saveUc uc).cpu.request) _ _)
      · rw [input_quiet hNext (.leave _), hBlocked, if_pos rfl, hSame]
        rfl
  · rename_i hBuf
    refine hError (fun hValid => hBuf ?_) hCall
    rw [hLen]
    exact hValid.2

/-- `kernel_tty_read` once its caller was woken. -/
theorem returnsRead_resume (hLines : ∃ nodes, s.Lines nodes)
    (hKc : (s.pcb s.runningProc).kc = some (.ttyRead id)) (hStep : s.step (.resume o) = .ok t) :
    s.mode = .resuming ∧ ∃ bytes, ReturnsRead s t id (s.pcb s.runningProc).ioUserBuf
      (s.pcb s.runningProc).ioLen bytes := by
  simp only [step] at hStep
  split_ifs at hStep with hMode
  simp only [resume, hKc, continueAt] at hStep
  obtain ⟨u, hReturn, hLeave⟩ := Transition.bind_eq_ok.mp hStep
  obtain rfl := Except.ok.inj hLeave
  obtain ⟨nodes, hNodes⟩ := hLines
  have hUser : ({ s with mode := .user } : Kernel).Lines nodes :=
    ⟨hNodes.placed, hNodes.linked, hNodes.bound⟩
  obtain ⟨bytes, hReturns⟩ := returnsRead_consumeIntoUser ⟨nodes, hUser⟩ hReturn
  exact ⟨hMode, bytes, hReturns.next, hReturns.recorded, hReturns.stored, hReturns.result⟩

/-- `tty_receive_done` with a line it accepts. -/
theorem received_step {uc : UserContext} {line : List Byte} (h : KernelStart.Sound s)
    (hLines : ∃ nodes, s.Lines nodes) (hId : id < numTerminals)
    (hStep : s.step (.ttyReceive uc id line true) = .ok t) :
    (t.input id).received = (s.input id).received ++ [line] := by
  simp only [step] at hStep
  split_ifs at hStep with hMode
  obtain rfl := Except.ok.inj hStep
  have hSave := Quiet.saveUc s uc
  obtain ⟨nodes, hNodes⟩ := hLines
  have hSavedLines : (s.saveUc uc).Lines nodes :=
    hNodes.of_view (lineView_of_devices (devices_of_outside hSave.outside))
  have hDone : (s.saveUc uc).ttyReceiveDone id line true = (s.saveUc uc).ttyDeliver id line := by
    rw [ttyReceiveDone, if_neg (by omega), if_neg (by simp), Int.toNat_natCast]
  have hDelivered : Effect (.ttyReceive uc id line true) (s.saveUc uc) ((s.saveUc uc).ttyReceiveDone id line true) := .received
  rw [trapTtyHandler, input_quiet ((h.quiet hSave).effects hDelivered.one) (.leave _), hDone,
    (input_ttyDeliver (h.quiet hSave) hSavedLines id line).2 id, if_pos rfl, input_quiet h hSave]
  rfl

end Kernel

/-- The context of a terminal read. -/
def Label.readCall : Label → Option UserContext
  | .syscall .ttyRead uc _ => some uc
  | _ => none

/-- The terminal a process was reading from when it was switched away. -/
def KernelContext.readsFrom : KernelContext → Option Nat
  | .ttyRead id => some id
  | _ => none

namespace Kernel

variable [Hardware] {s t : Kernel}

/-- A valid read takes the line that a woken reader needs. -/
def Overtaken (s : Kernel) (label : Label) : Prop :=
  ∃ uc ∈ label.readCall, s.inUser ∧ 0 ≤ (uc.regs 0).toInt ∧ (uc.regs 0).toInt < numTerminals ∧
    0 < (uc.regs 2).toInt ∧ checkCBuf s.mem (uc.regs 1) (uc.regs 2).toInt true = true ∧
    (s.input (uc.regs 0).toInt.toNat).Overtakes (uc.regs 2).toInt.toNat

instance (s : Kernel) (label : Label) : Decidable (s.Overtaken label) :=
  inferInstanceAs (Decidable (∃ uc ∈ label.readCall, _ ∧ _))

omit [Hardware] in
/-- The read of a woken process leaves input behind that nobody else was woken
for, although a reader is blocked. -/
def Stranded (s : Kernel) (label : Label) : Prop :=
  label.isResume = true ∧ ∃ kc ∈ (s.pcb s.runningProc).kc, ∃ id ∈ kc.readsFrom,
    (s.input id).Strands s.runningProc (s.pcb s.runningProc).ioLen

instance (s : Kernel) (label : Label) : Decidable (s.Stranded label) :=
  inferInstanceAs (Decidable (_ ∧ ∃ kc ∈ (s.pcb s.runningProc).kc, ∃ id ∈ kc.readsFrom, _))

end Kernel

namespace KernelStart

open Kernel

/-- What was read from a terminal, followed by what is buffered, is what it has
received; every read takes its bytes from one line. -/
theorem tty_read_order [Hardware] {s : Kernel} (run : system.Reachable s) (id : Nat) :
    let received := s.trace.filterMap (Event.receivedOn id)
    let reads := s.trace.filterMap (Event.readOn id)
    let lines := (s.buffered id).map s.lines
    IntrusiveQueue.IsQueue s.lineNext (s.ttys id).rx (s.buffered id) ∧
    reads.flatten ++ (lines.map fun line => line.buf.drop line.off).flatten = received.flatten ∧
    (∃ (done : List (List (List Byte))) (part : List (List Byte)), reads = done.flatten ++ part ∧
      received = done.map List.flatten ++ lines.map RxLine.buf ∧
      part.flatten = (lines.head?.map fun line => line.buf.take line.off).getD []) ∧
    (∀ line ∈ lines, line.off < line.buf.length ∨ line.off = 0 ∧ line.buf = []) ∧
    (∀ uc line t, id < Hardware.numTerminals → s.step (.ttyReceive uc id line true) = .ok t →
      t.trace.filterMap (Event.receivedOn id) = received ++ [line]) ∧
    (∀ uc o t (len : Nat), (uc.regs 0).toInt = (id : Int) → (uc.regs 2).toInt = (len : Int) → 0 < len →
      s.step (.syscall .ttyRead uc o) = .ok t → s.ReadsTty t id (uc.regs 1) len) ∧
    (∀ o t, (s.pcb s.runningProc).kc = some (.ttyRead id) → s.step (.resume o) = .ok t →
      ∃ bytes, s.ReturnsRead t id (s.pcb s.runningProc).ioUserBuf (s.pcb s.runningProc).ioLen bytes) := by
  intro received reads lines
  have h := sound_reachable run
  have hLines := (reading_reachable run).lines
  obtain ⟨nodes, hNodes⟩ := hLines
  obtain ⟨done, part, hSplit⟩ : ∃ done part, (s.input id).Split done part := by
    refine input_invariant (P := fun i => ∃ done part, i.Split done part) ?_ ?_ ?_ ?_ run id
    · exact ⟨[], [], rfl, rfl, rfl, by simp, by simp⟩
    · rintro i j - ⟨done, part, hSplit⟩ hArrival
      exact ⟨done, part, hSplit.arrival hArrival⟩
    · rintro s uc o id len - - ⟨done, part, hSplit⟩
      exact hSplit.read len
    · rintro s o id - - - ⟨done, part, hSplit⟩
      exact hSplit.resume _ _
  refine ⟨?_, hSplit.delivered, ⟨done, part, hSplit.reads, hSplit.received, hSplit.first⟩, hSplit.unread,
    fun uc line t hId hStep => received_step h ⟨nodes, hNodes⟩ hId hStep,
    fun uc o t len hReg hLen hPos hStep => readsTty_step h ⟨nodes, hNodes⟩ hReg hLen hPos hStep,
    fun o t hKc hStep => (returnsRead_resume ⟨nodes, hNodes⟩ hKc hStep).2⟩
  rw [hNodes.buffered_eq]
  exact hNodes.linked id

open Sample in
/-- Two of three bytes were read. -/
theorem tty_read_order_part : ∃ s : Kernel, system.Reachable s ∧
    s.trace.filterMap (Event.readOn 0) = [[1, 2]] ∧
    (s.trace.filterMap (Event.readOn 0)).flatten ++
      (((s.buffered 0).map s.lines).map fun line => line.buf.drop line.off).flatten = [1, 2, 3] := by
  obtain ⟨s, run, hReads, hReceived⟩ := Transition.System.exists_reachable
    (P := fun s : Kernel => s.trace.filterMap (Event.readOn 0) = [[1, 2]] ∧
      (s.trace.filterMap (Event.receivedOn 0)).flatten = [1, 2, 3])
    (turn ++ [.ttyReceive (context []) 0 [1, 2, 3] true, call .ttyRead [0, 208, 2]]) initial_booted
    (by decide +kernel)
  exact ⟨s, run, hReads, (tty_read_order run 0).2.1.trans hReceived⟩

/-- As long as no read overtakes a woken reader, a read with valid arguments
that returns has read something. -/
theorem tty_read_nonempty [Hardware] {s : Kernel} {id : Nat}
    (run : system.Reach (fun s label => ¬s.Overtaken label) s)
    (hReceived : ∀ line ∈ s.trace.filterMap (Event.receivedOn id), line ≠ []) :
    (∀ uc o t (len : Nat), id < Hardware.numTerminals → (uc.regs 0).toInt = (id : Int) →
      (uc.regs 2).toInt = (len : Int) → 0 < len → checkCBuf s.mem (uc.regs 1) len true = true →
      s.step (.syscall .ttyRead uc o) = .ok t →
      (t.Inside s.runningProc (.ttyRead id) ∧ (t.pcb s.runningProc).ioLen = len) ∨
        1 ≤ ((t.pcb s.runningProc).uc.regs 0).toInt ∧ ((t.pcb s.runningProc).uc.regs 0).toInt ≤ len) ∧
    (∀ o t, (s.pcb s.runningProc).kc = some (.ttyRead id) → s.step (.resume o) = .ok t →
      1 ≤ ((t.pcb s.runningProc).uc.regs 0).toInt ∧
        ((t.pcb s.runningProc).uc.regs 0).toInt ≤ (s.pcb s.runningProc).ioLen) := by
  have h := sound_reachable run.reachable
  have hLines := (reading_reachable run.reachable).lines
  have hPromised : (s.input id).Promised := by
    refine input_invariant (P := fun i => (∀ line ∈ i.received, line ≠ []) → i.Promised) ?_ ?_ ?_ ?_
      run id hReceived
    · exact fun _ => ⟨Nat.zero_le _, by simp⟩
    · intro i j hWf hKept hArrival hNew
      refine (hKept fun line hLine => hNew line ?_).arrival hWf hArrival hNew
      cases hArrival with
      | block => exact hLine
      | deliver => exact List.mem_append_left _ hLine
    · intro s uc o id len hAllowed hCall hKept hNew
      refine (hKept hNew).read fun hOvertakes => hAllowed ⟨uc, rfl, ?_⟩
      obtain ⟨hUser, hId, hPos, hReg, hLen, hBuf⟩ := hCall
      rw [hReg, hLen, Int.toNat_natCast, Int.toNat_natCast]
      exact ⟨hUser, by omega, by omega, by omega, hBuf, hOvertakes⟩
    · exact fun s o id _ _ hWoken hKept hNew => (hKept hNew).resume hWoken
  refine ⟨fun uc o t len hId hReg hLen hPos hBuf hStep => ?_, fun o t hKc hStep => ?_⟩
  · cases readsTty_step h hLines hReg hLen hPos hStep with
    | error hArgs => exact absurd ⟨hId, hBuf⟩ hArgs
    | blocked _ hInside hIoLen => exact Or.inl ⟨hInside, hIoLen⟩
    | returned hLine hReturns =>
        refine Or.inr (hReturns.bounds (Input.length_taken hPromised.unread hLine hPos) ?_)
        have hShort := BitVec.toInt_lt (x := uc.regs 2)
        omega
  · obtain ⟨hMode, bytes, hReturns⟩ := returnsRead_resume hLines hKc hStep
    obtain ⟨-, hPos, hShort⟩ := h.contexts.valid _ _ hKc
    exact hReturns.bounds (Input.length_taken hPromised.unread
      (hPromised.lines_ne_nil (woken_running h hMode hKc)) hPos) hShort

section Runs

open Sample

/-- The first process forks and reads from terminal 0 before its child runs. -/
def blockedReader (len : Word) : List Label :=
  turn ++ [call .fork [], call .ttyRead [0, 208, len], .resume outcomes]

/-- A woken reader that nobody has overtaken. -/
theorem tty_read_nonempty_woken : ∃ (s t : Kernel), system.Reach (fun s label => ¬s.Overtaken label) s ∧
    (s.pcb s.runningProc).kc = some (.ttyRead 0) ∧ s.step (.resume outcomes) = .ok t ∧
    1 ≤ ((t.pcb s.runningProc).uc.regs 0).toInt := by
  have hRun : ∃ s : Kernel, system.Reach (fun s label => ¬s.Overtaken label) s ∧
      (∀ line ∈ s.trace.filterMap (Event.receivedOn 0), line ≠ []) ∧
      (s.pcb s.runningProc).kc = some (.ttyRead 0) ∧
      ∃ t ∈ (s.step (.resume outcomes)).toOption, t.mode = .user :=
    Transition.System.exists_reach
      (blockedReader 2 ++ [.ttyReceive (context []) 0 [1] true, .clock (context []) outcomes])
      initial_booted (by decide +kernel)
  obtain ⟨s, run, hLines, hKc, t, hStep, -⟩ := hRun
  rw [Transition.mem_toOption] at hStep
  exact ⟨s, t, run, hKc, hStep, ((tty_read_nonempty run hLines).2 outcomes t hKc hStep).1⟩

/-- The line is read by the child, so its parent, which was woken for it,
returns with nothing. -/
theorem tty_read_overtaken : ∃ (s t : Kernel), system.Reachable s ∧
    (∀ line ∈ s.trace.filterMap (Event.receivedOn 0), line ≠ []) ∧
    (s.pcb s.runningProc).kc = some (.ttyRead 0) ∧ (s.pcb s.runningProc).ioLen = 2 ∧
    s.step (.resume outcomes) = .ok t ∧ (t.pcb s.runningProc).uc.regs 0 = 0 := by
  obtain ⟨s, run, hLines, hKc, hLen, t, hStep, hResult⟩ := Transition.System.exists_reachable
    (P := fun s : Kernel => (∀ line ∈ s.trace.filterMap (Event.receivedOn 0), line ≠ []) ∧
      (s.pcb s.runningProc).kc = some (.ttyRead 0) ∧ (s.pcb s.runningProc).ioLen = 2 ∧
      ∃ t ∈ (s.step (.resume outcomes)).toOption, (t.pcb s.runningProc).uc.regs 0 = 0)
    (blockedReader 2 ++ [.ttyReceive (context []) 0 [1] true, call .ttyRead [0, 208, 2],
      .clock (context []) outcomes]) initial_booted (by decide +kernel)
  exact ⟨s, t, run, hLines, hKc, hLen, Transition.mem_toOption.mp hStep, hResult⟩

end Runs

section Runs

open Sample

/-- Parent and child are blocked in reads of one byte when a line of two bytes
arrives. -/
def twoReaders : List Label :=
  blockedReader 1 ++ [call .ttyRead [0, 208, 1], .resume outcomes, .ttyReceive (context []) 0 [1, 2] true]

end Runs

end KernelStart
end Yalnix
