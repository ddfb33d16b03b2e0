import Yalnix.Process.Conservation

/-! What the effects do to the terminals. All but five leave the terminals,
their queues, the calls on them and their history as they are. -/
namespace Yalnix

open Hardware

def Event.isTty : Event → Bool
  | .ttyWritten _ _ _ | .ttyTransmit _ _ | .ttyTransmitTrap _ | .ttyWriteDone _ _ => true
  | .ttyWriteReturned _ _ _ | .ttyReceived _ _ | .ttyRead _ _ _ _ => true
  | _ => false

/-- The terminals with the received lines and their history. -/
structure TtyView where
  ttys : Nat → Tty
  lines : Nat → RxLine
  lineNext : Nat → Option Nat
  numLines : Nat
  log : List Event

namespace Kernel

variable {s t : Kernel}

def ttyView (s : Kernel) : TtyView :=
  ⟨s.ttys, s.lines, s.lineNext, s.numLines, s.trace.filter Event.isTty⟩

/-- The history of the terminals is part of that of the devices. -/
theorem ttyLog_of_devices (h : t.devices.log = s.devices.log) : t.ttyView.log = s.ttyView.log := by
  have hFilter (u : Kernel) : u.ttyView.log = u.devices.log.filter Event.isTty := by
    simp only [ttyView, devices, List.filter_filter]
    refine List.filter_congr fun e _ => ?_
    cases e <;> rfl
  rw [hFilter, hFilter, h]

theorem ttyView_of_devices {f : Proc → Transfer}
    (h : t.devices = { s.devices with transfer := f }) : t.ttyView = s.ttyView := by
  have hLog := ttyLog_of_devices (s := s) (t := t) (by rw [h])
  simp only [devices, Devices.mk.injEq] at h
  obtain ⟨-, hTtys, hLines, hNext, hNum, -⟩ := h
  simp only [ttyView, TtyView.mk.injEq]
  exact ⟨hTtys, hLines, hNext, hNum, hLog⟩

theorem ttyView_of_outside (h : t.outside = s.outside) : t.ttyView = s.ttyView :=
  ttyView_of_devices (f := s.devices.transfer) (devices_of_outside h)

theorem ttyView_emit (s : Kernel) {e : Event} (he : e.isTty = false) :
    (s.emit e).ttyView = s.ttyView := by
  simp [ttyView, emit, he]

/-- Waking a reader only takes it off its queue. -/
theorem outside_ttyDeliver (s : Kernel) (id : Nat) (line : List Byte) :
    (s.ttyDeliver id line).outside = ((s.appendLine id line).rqPop id).1.outside := by
  unfold ttyDeliver
  split <;> rename_i hPop <;> simp [hPop]

/-- Taking a reader off its queue. -/
theorem ttys_rqPop (s : Kernel) (id k : Nat) :
    ∃ readers, (s.rqPop id).1.ttys k = { s.ttys k with readers := readers } := by
  unfold rqPop
  split
  · exact ⟨_, rfl⟩
  · by_cases hk : k = id
    · subst hk
      exact ⟨_, Function.update_self _ _ _⟩
    · exact ⟨_, Function.update_of_ne hk _ _⟩

theorem devices_rqPop (s : Kernel) (id : Nat) :
    (s.rqPop id).1.devices = { s.devices with ttys := (s.rqPop id).1.ttys } := by
  unfold rqPop
  split <;> rfl

/-- Taking bytes out of the first line changes the lines only. -/
theorem consume_eq (s : Kernel) (id len : Nat) : ∃ lines rx, (s.consume id len).1 =
    { s with lines := lines }.setTty id { s.ttys id with rx := rx } := by
  have hSame (lines : Nat → RxLine) : ({ s with lines := lines } : Kernel) =
      { s with lines := lines }.setTty id { s.ttys id with rx := (s.ttys id).rx } := by
    simp [setTty]
  unfold consume
  split
  · exact ⟨s.lines, _, hSame s.lines⟩
  · dsimp only
    split_ifs <;> first | exact ⟨_, _, rfl⟩ | exact ⟨_, _, hSame _⟩

/-- Neither the terminals nor the transfers in progress change. -/
def SameTerminals (s t : Kernel) : Prop :=
  t.ttyView = s.ttyView ∧ ∀ p, s.Live p → (t.pcb p).transfer = (s.pcb p).transfer

namespace SameTerminals

theorem of_devices (h : t.devices = s.devices) : SameTerminals s t :=
  ⟨ttyView_of_devices (f := s.devices.transfer) h,
    fun p _ => congrFun (congrArg Devices.transfer h) p⟩

theorem of_outside (h : t.outside = s.outside) : SameTerminals s t :=
  .of_devices (devices_of_outside h)

theorem wakeReaders (s : Kernel) (id fuel : Nat) : SameTerminals s (s.wakeReaders id fuel) := by
  have h : (s.wakeReaders id fuel).ttyView = s.ttyView ∧
      ∀ p, ((s.wakeReaders id fuel).pcb p).transfer = (s.pcb p).transfer := by
    induction fuel generalizing s with
    | zero => exact ⟨rfl, fun _ => rfl⟩
    | succ fuel ih =>
        unfold Kernel.wakeReaders
        split
        · exact ⟨rfl, fun _ => rfl⟩
        · rename_i proc next ends hPop
          have hReady := outside_scheduleProcess ((s.setNext next).setPipe id
            { s.pipes.entries id with readers := ends }) proc
          obtain ⟨hView, hTransfer⟩ := ih (((s.setNext next).setPipe id
            { s.pipes.entries id with readers := ends }).scheduleProcess proc)
          have hSame := ttyView_of_outside hReady
          have hKept := congrArg Devices.transfer (devices_of_outside hReady)
          exact ⟨hView.trans hSame, fun p => (hTransfer p).trans (congrFun hKept p)⟩
  exact ⟨h.1, fun p _ => h.2 p⟩

variable [Hardware]

/-- A process that blocks elsewhere leaves the terminals alone. -/
theorem parks {label : Label} {kc : KernelContext} (h : Parks label s kc t) (hTty : kc.isTty = false) :
    SameTerminals s t := by
  cases h with
  | sleep h => exact .of_outside (outside_fst (outside_putToSleep s _ _ _) h)
  | wait => exact .of_outside (outside_waitBlockProcess s _)
  | lock _ h => exact .of_outside (outside_fst (outside_acquire s _ _ _) h)
  | cvar _ h => exact .of_outside (outside_fst (outside_waitCvar s _ _ _) h)
  | pipe =>
      refine ⟨rfl, fun p _ => ?_⟩
      exact pcb_modifyPcb (v := Pcb.transfer) (s := s) (f := fun p => { p with state := .waiting }) rfl p
  | ttyRead | ttyWrite => cases hTty

/-- So does every effect but the five on terminals. -/
theorem effect {label : Label} (h : Effect label s t) : TtyEffect s t ∨ SameTerminals s t := by
  cases h with
  | quiet hQuiet => exact Or.inr (.of_outside hQuiet.outside)
  | ticked => exact Or.inr (.of_outside (Quiet.ticked s).outside)
  | reap _ _ hFound => exact Or.inr (.of_outside (Quiet.findExitedChild hFound).outside)
  | @block parked u kc hUser hParks hQuiet =>
      cases hTty : kc.isTty with
      | true => exact Or.inl (.of_parks hUser hParks hTty hQuiet.toQuiet)
      | false =>
          obtain ⟨hView, hTransfer⟩ := parks hParks hTty
          have hSwitch := (devices_switchAway u kc).trans (devices_of_outside hQuiet.outside)
          refine Or.inr ⟨?_, fun p hp => ?_⟩
          · exact (ttyView_of_devices (f := parked.devices.transfer) hSwitch).trans hView
          · exact (congrFun (congrArg Devices.transfer hSwitch) p).trans (hTransfer p hp)
  | sleepless _ h => exact Or.inr (.of_outside (outside_fst (outside_putToSleep s _ _ _) h))
  | preempt => exact Or.inr (.of_devices (devices_preempt s))
  | exit hUser hExit => exact Or.inr (.of_devices (devices_kernelExit hExit))
  | fork hUser hFork =>
      have hDevices := devices_kernelFork hFork
      refine Or.inr ⟨ttyView_of_devices hDevices, fun p hp => ?_⟩
      have hTransfer : t.devices.transfer p = s.devices.transfer p := by
        rw [hDevices]
        exact Function.update_of_ne (Nat.ne_of_lt hp.2.1) _ _
      exact hTransfer
  | newLock => exact Or.inr (.of_outside (outside_newLock s _ _ _))
  | newCvar => exact Or.inr (.of_outside (outside_newCvar s _))
  | newPipe =>
      refine Or.inr ?_
      unfold Kernel.newPipe
      dsimp only
      split
      · exact ⟨rfl, fun _ _ => rfl⟩
      · exact ⟨ttyView_emit _ rfl, fun _ _ => rfl⟩
  | deleteLock => exact Or.inr (.of_outside (outside_deleteLock s _ _))
  | deleteCvar => exact Or.inr (.of_outside (outside_deleteCvar s _ _))
  | pipeReclaim =>
      refine Or.inr ?_
      unfold Kernel.pipeReclaim
      split
      · exact ⟨rfl, fun _ _ => rfl⟩
      split_ifs
      · exact ⟨rfl, fun _ _ => rfl⟩
      · exact ⟨ttyView_emit _ rfl, fun _ _ => rfl⟩
  | acquire _ h => exact Or.inr (.of_outside (outside_fst (outside_acquire s _ _ _) h))
  | release _ _ h => exact Or.inr (.of_outside (outside_fst (outside_release s _ _ _) h))
  | signal hPop =>
      exact Or.inr (.of_outside ((outside_reacquire _ _).trans
        (outside_fst (outside_popCvar s _) hPop)))
  | pipeRead => exact Or.inr ⟨ttyView_emit _ rfl, fun _ _ => rfl⟩
  | @pipeWrite id pipe grown bytes growOk hPipe hGrown =>
      obtain ⟨hView, hTransfer⟩ := wakeReaders
        ((s.setPipe id (grown.appendBytes bytes)).emit (.pipeWritten id bytes)) id s.numPcbs
      exact Or.inr ⟨hView.trans (ttyView_emit _ rfl), hTransfer⟩
  | wakeWaiter hFind =>
      exact Or.inr (.of_outside ((outside_scheduleProcess _ _).trans
        (outside_fst (outside_findWaiter s _) hFind)))
  | wakeSleeper _ _ hRemove =>
      refine Or.inr (.of_outside ?_)
      rw [outside_emit _ (by simp), outside_enqueProcess]
      exact outside_fst (outside_removeFromHeap s _) hRemove
  | transmitted => exact Or.inl .transmitted
  | received => exact Or.inl .received
  | resumed => exact Or.inr ⟨rfl, fun _ _ => rfl⟩
  | written hMode hKc => exact Or.inl (.written hMode hKc)

end SameTerminals
end Kernel

/-- An effect that does not concern the terminals. -/
structure Bystander (s t : Kernel) : Prop where
  queues : TtyFrame s.contents t.contents
  inside : InsideFrame s t
  same : Kernel.SameTerminals s t

variable [Hardware] {s t : Kernel}

namespace KernelStart.Sound

theorem bystander {label : Label} (h : Sound s) (hEffect : Effect label s t) : TtyEffect s t ∨ Bystander s t := by
  obtain ⟨others, hSettled, -, -, hTty | ⟨hQueues, hInside⟩, -⟩ := h.settled.effect h.contexts hEffect
  · exact Or.inl hTty
  rcases Kernel.SameTerminals.effect hEffect with hTty | hSame
  · exact Or.inl hTty
  · exact Or.inr ⟨hSettled.contents_eq ▸ hQueues, hInside, hSame⟩

/-- Who waits after a process has blocked in a read. -/
theorem readBlock {u : Kernel} {id len : Nat} {buf : Word} (h : Sound s) (hUser : s.inUser)
    (hQuiet : Quiet (s.ttyReadBlock id buf len) u) :
    Frame s (u.switchAway (.ttyRead id)) (Function.update s.contents (.queue (.reader id))
      (s.contents (.queue (.reader id)) ++ [s.runningProc])) (u.switchAway (.ttyRead id)).contents := by
  have hSettled := h.settled
  obtain ⟨parked, hInv, hBlock, hCpu, hHand⟩ :=
    hSettled.ttyReadBlock id buf len (hSettled.cpu_eq hUser)
  obtain ⟨others, hNext, hSwitch⟩ := (hInv.quiet hQuiet).switchAway (.ttyRead id) hCpu
    (hHand.trans hSettled.hand)
  have hLive : u.Live = (s.ttyReadBlock id buf len).Live := funext fun p => propext (hQuiet.live_iff p)
  rw [hNext.contents_eq]
  exact ⟨hBlock.calm.trans hSwitch.calm, hSwitch.live.trans (hLive.trans hBlock.live)⟩

/-- Who waits after a process has blocked in a write. -/
theorem writeBlock {u : Kernel} {id : Nat} {bytes : List Byte} (h : Sound s) (hUser : s.inUser)
    (hQuiet : Quiet (s.ttyWriteBlock id bytes) u) :
    Frame s (u.switchAway (.ttyWrite id)) (if (s.ttys id).txOwner = none then
      Function.update s.contents (.transmitting id) [s.runningProc] else
      Function.update s.contents (.queue (.writer id))
        (s.contents (.queue (.writer id)) ++ [s.runningProc])) (u.switchAway (.ttyWrite id)).contents := by
  have hSettled := h.settled
  obtain ⟨parked, hInv, hBlock, hCpu, hHand⟩ :=
    hSettled.ttyWriteBlock id bytes (hSettled.cpu_eq hUser)
  obtain ⟨others, hNext, hSwitch⟩ := (hInv.quiet hQuiet).switchAway (.ttyWrite id) hCpu
    (hHand.trans hSettled.hand)
  have hLive : u.Live = (s.ttyWriteBlock id bytes).Live := funext fun p => propext (hQuiet.live_iff p)
  rw [hNext.contents_eq]
  exact ⟨hBlock.calm.trans hSwitch.calm, hSwitch.live.trans (hLive.trans hBlock.live)⟩

/-- Who is inside a call after the running process was switched away. -/
theorem inside_block {u : Kernel} {p : Proc} {kc kc' : KernelContext} (h : Sound s) (hUser : s.inUser)
    (hMode : u.mode = s.mode) (hRunning : u.runningProc = s.runningProc) (hKc : u.cpu.kc = s.cpu.kc)
    (hLive : u.Live = s.Live) (hSwitch : (u.switchAway kc).Live = s.Live) :
    (u.switchAway kc).Inside p kc' ↔ s.Inside p kc' ∨ p = s.runningProc ∧ kc = kc' := by
  rw [Kernel.inside_switch (s := u) (n := u.getNextProcess.2) (hMode.trans hUser.1)
    (hSwitch.trans hLive.symm) (Kernel.cpu_switchAway u _)]
  have hRun := h.settled.live_running hUser
  have hSaved : (u.pcb p).kc = (s.pcb p).kc := congrFun hKc p
  have hSame : u.Inside p kc' ↔ s.Inside p kc' := by
    simp only [Kernel.Inside, hLive, hSaved, hRunning, hMode]
  rw [hSame, hRunning, hLive]
  exact or_congr_right ⟨fun hp => ⟨hp.1, hp.2.2⟩, fun hp => ⟨hp.1, hp.1 ▸ hRun, hp.2⟩⟩

/-- Who is inside a call after a process has blocked in a read. -/
theorem inside_readBlock {u : Kernel} {id len : Nat} {buf : Word} {p : Proc} {kc : KernelContext}
    (h : Sound s) (hUser : s.inUser) (hQuiet : Quiet (s.ttyReadBlock id buf len) u) :
    (u.switchAway (.ttyRead id)).Inside p kc ↔
      s.Inside p kc ∨ p = s.runningProc ∧ .ttyRead id = kc := by
  have hCpu : u.cpu = { s.cpu with
      request := Function.update s.cpu.request s.runningProc (buf, len) } :=
    (Kernel.cpu_of_outside hQuiet.outside).trans (Kernel.cpu_ttyReadBlock s id buf len)
  obtain ⟨parked, -, hBlock, -, -⟩ := h.settled.ttyReadBlock id buf len (h.settled.cpu_eq hUser)
  have hLive : u.Live = s.Live := (funext fun p => propext (hQuiet.live_iff p)).trans hBlock.live
  have hKc : u.cpu.kc = s.cpu.kc := by rw [hCpu]
  exact h.inside_block hUser (congrArg Cpu.mode hCpu) (congrArg Cpu.runningProc hCpu) hKc hLive
    (h.readBlock hUser hQuiet).live

/-- Who is inside a call after a process has blocked in a write. -/
theorem inside_writeBlock {u : Kernel} {id : Nat} {bytes : List Byte} {p : Proc} {kc : KernelContext}
    (h : Sound s) (hUser : s.inUser) (hQuiet : Quiet (s.ttyWriteBlock id bytes) u) :
    (u.switchAway (.ttyWrite id)).Inside p kc ↔
      s.Inside p kc ∨ p = s.runningProc ∧ .ttyWrite id = kc := by
  have hCpu : u.cpu = s.cpu :=
    (Kernel.cpu_of_outside hQuiet.outside).trans (Kernel.cpu_ttyWriteBlock s id bytes)
  obtain ⟨parked, -, hBlock, -, -⟩ := h.settled.ttyWriteBlock id bytes (h.settled.cpu_eq hUser)
  have hLive : u.Live = s.Live := (funext fun p => propext (hQuiet.live_iff p)).trans hBlock.live
  exact h.inside_block hUser (congrArg Cpu.mode hCpu) (congrArg Cpu.runningProc hCpu)
    (congrArg Cpu.kc hCpu) hLive (h.writeBlock hUser hQuiet).live

/-- Who waits after a line was received. -/
theorem deliver (h : Sound s) (id : Nat) (line : List Byte) :
    Frame s (s.ttyDeliver id line) (Function.update s.contents (.queue (.reader id))
      (s.contents (.queue (.reader id))).tail) (s.ttyDeliver id line).contents := by
  have hSettled := h.settled
  obtain ⟨others, hInv, hFrame, hCpu, hHand⟩ := hSettled.ttyDeliver id line hSettled.hand
  rw [(hSettled.of_inv hInv (Kernel.cpu_ttyDeliver s _ _) hCpu hHand).contents_eq]
  exact hFrame

/-- Who waits after a chunk was transmitted. -/
theorem transmit (h : Sound s) (ttyId : Int) : ∃ base,
    (base = s.contents ∨ base = Inv.handOver s.contents ttyId.toNat) ∧
      Frame s (s.ttyTransmitDone ttyId) base (s.ttyTransmitDone ttyId).contents := by
  have hSettled := h.settled
  obtain ⟨base, others, hBase, hInv, hFrame, hCpu, hHand⟩ :=
    hSettled.ttyTransmitDone ttyId hSettled.hand
  rw [(hSettled.of_inv hInv (Kernel.cpu_ttyTransmitDone s _) hCpu hHand).contents_eq]
  exact ⟨base, hBase, hFrame⟩

/-- Nobody moves when a write returns. -/
theorem returned (h : Sound s) (id : Nat) :
    Frame s ({ s with mode := .user }.ttyWriteReturn id) s.contents
      ({ s with mode := .user }.ttyWriteReturn id).contents := by
  have hUser : Inv { s with mode := .user } s.contents none := h.settled.of_shape rfl rfl
  have hSame : Settled ({ s with mode := .user }.ttyWriteReturn id) s.contents :=
    ⟨hUser.ttyWriteReturn id, h.settled.cpu, h.settled.hand⟩
  rw [hSame.contents_eq]
  exact .refl (Kernel.live_ttyWriteReturn _ id)

end KernelStart.Sound
end Yalnix
