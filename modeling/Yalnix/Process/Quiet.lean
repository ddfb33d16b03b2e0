import Yalnix.Interrupt

/-! Quiet changes of the kernel state. Most of what a handler does concerns
memory, saved registers and the family tree; it moves no process and touches
no lock, pipe or terminal. -/
namespace Yalnix

open Hardware

/-- The fields of a control block that a quiet change leaves alone: where the
process is, what it is blocked on, and its transfer in progress. -/
def Pcb.core (p : Pcb) : Pcb :=
  { p with uc := Pcb.blank.uc, relations := Pcb.blank.relations, exitCode := 0, wakeUp := 0,
           freed := false }

/-- Events that no statement about processes or objects refers to. -/
def Event.Quiet : Event → Prop
  | .tick | .forked _ _ | .exited _ _ | .reaped _ _ | .freed _ => True
  | _ => False

/-- A quiet change. Only a process that has exited may be freed, and only the
running process gets another wake-up time. -/
structure Quiet (s t : Kernel) : Prop where
  frame : t = { s with
    mem := t.mem, pcb := t.pcb, numTicks := t.numTicks, uc := t.uc, trace := t.trace }
  core : ∀ p, (t.pcb p).core = (s.pcb p).core
  freed : ∀ p, (t.pcb p).freed = (s.pcb p).freed ∨ (s.pcb p).state = .exited
  wakeUp : ∀ p, p ≠ s.runningProc → (t.pcb p).wakeUp = (s.pcb p).wakeUp
  trace : ∃ events, t.trace = s.trace ++ events ∧ ∀ e ∈ events, e.Quiet

/-- Events of the family tree. -/
def Event.isKin : Event → Bool
  | .forked _ _ | .exited _ _ | .reaped _ _ | .freed _ => true
  | _ => false

/-- Events of the family tree and ticks of the clock. -/
def Event.isRecorded : Event → Bool
  | .tick => true
  | e => e.isKin

/-- The family tree, with what a parent learns of its children. -/
structure Kin where
  relations : Proc → Relations
  exitCode : Proc → Word
  freed : Proc → Bool
  log : List Event

def Kernel.kin (s : Kernel) : Kin :=
  ⟨fun p => (s.pcb p).relations, fun p => (s.pcb p).exitCode, fun p => (s.pcb p).freed,
    s.trace.filter Event.isKin⟩

/-- The fields of a control block that scheduling does not touch. -/
def Pcb.record (p : Pcb) : Pcb :=
  { Pcb.blank with
    uc := p.uc, relations := p.relations, exitCode := p.exitCode, wakeUp := p.wakeUp, freed := p.freed }

/-- The containers that only the clock empties: how many processes wait for a
child, and the heap of those that sleep. -/
structure Dormant where
  waiters : Nat
  sleepers : Heap

def Kernel.dormant (s : Kernel) : Dormant := ⟨(s.queues .waitBlocking).length, s.sleepers⟩

/-- The tick counter, and the number of clock traps there were. -/
def Kernel.clock (s : Kernel) : Word × Nat := (s.numTicks, s.trace.count .tick)

/-- The records of all processes, the clock, the events of the family tree and
the containers that the clock empties. -/
structure Records where
  pcb : Proc → Pcb
  clock : Word × Nat
  log : List Event
  dormant : Dormant

def Kernel.records (s : Kernel) : Records :=
  ⟨fun p => (s.pcb p).record, s.clock, s.trace.filter Event.isKin, s.dormant⟩

/-- A quiet change that concerns neither the family tree nor the clock, and no
saved registers but those of the running process. -/
structure Silent (s t : Kernel) : Prop extends Quiet s t where
  kin : t.kin = s.kin
  clock : t.clock = s.clock
  uc : ∀ p, p ≠ s.runningProc → (t.pcb p).uc = (s.pcb p).uc
  alarm : ∀ p, (t.pcb p).wakeUp = (s.pcb p).wakeUp

namespace Quiet

variable {s t u : Kernel} {p : Proc}

theorem next (h : Quiet s t) : t.next = s.next := by rw [h.frame]
theorem numPcbs (h : Quiet s t) : t.numPcbs = s.numPcbs := by rw [h.frame]
theorem sleepers (h : Quiet s t) : t.sleepers = s.sleepers := by rw [h.frame]
theorem runningProc (h : Quiet s t) : t.runningProc = s.runningProc := by rw [h.frame]
theorem idleProc (h : Quiet s t) : t.idleProc = s.idleProc := by rw [h.frame]
theorem queues (h : Quiet s t) : t.queues = s.queues := by rw [h.frame]
theorem locks (h : Quiet s t) : t.locks = s.locks := by rw [h.frame]
theorem cvars (h : Quiet s t) : t.cvars = s.cvars := by rw [h.frame]
theorem pipes (h : Quiet s t) : t.pipes = s.pipes := by rw [h.frame]
theorem ttys (h : Quiet s t) : t.ttys = s.ttys := by rw [h.frame]
theorem lines (h : Quiet s t) : t.lines = s.lines := by rw [h.frame]
theorem lineNext (h : Quiet s t) : t.lineNext = s.lineNext := by rw [h.frame]
theorem numLines (h : Quiet s t) : t.numLines = s.numLines := by rw [h.frame]
theorem mode (h : Quiet s t) : t.mode = s.mode := by rw [h.frame]

theorem kc (h : Quiet s t) (p : Proc) : (t.pcb p).kc = (s.pcb p).kc :=
  (congrArg Pcb.kc (h.core p) :)
theorem pid (h : Quiet s t) (p : Proc) : (t.pcb p).pid = (s.pcb p).pid :=
  (congrArg Pcb.pid (h.core p) :)
theorem state (h : Quiet s t) (p : Proc) : (t.pcb p).state = (s.pcb p).state :=
  (congrArg Pcb.state (h.core p) :)
theorem cvarLockId (h : Quiet s t) (p : Proc) : (t.pcb p).cvarLockId = (s.pcb p).cvarLockId :=
  (congrArg Pcb.cvarLockId (h.core p) :)

theorem refl (s : Kernel) : Quiet s s :=
  ⟨rfl, fun _ => rfl, fun _ => Or.inl rfl, fun _ _ => rfl, [], by simp, by simp⟩

theorem trans (h : Quiet s t) (h' : Quiet t u) : Quiet s u where
  frame := by
    rw [h'.frame, h.frame]
  core p := (h'.core p).trans (h.core p)
  freed p := by
    rcases h'.freed p with hSame | hExited
    · rw [hSame]
      exact h.freed p
    · rw [h.state] at hExited
      exact Or.inr hExited
  wakeUp p hp := (h'.wakeUp p (by rwa [h.runningProc])).trans (h.wakeUp p hp)
  trace := by
    obtain ⟨first, hFirst, hQuiet⟩ := h.trace
    obtain ⟨second, hSecond, hQuiet'⟩ := h'.trace
    refine ⟨first ++ second, by rw [hSecond, hFirst, List.append_assoc], fun e he => ?_⟩
    rcases List.mem_append.mp he with he | he
    · exact hQuiet e he
    · exact hQuiet' e he

/-- Liveness only changes with the state of a process. -/
theorem live_iff (h : Quiet s t) (p : Proc) : t.Live p ↔ s.Live p := by
  simp only [Kernel.Live, h.idleProc, h.numPcbs, h.state]
  rcases h.freed p with hSame | hExited
  · rw [hSame]
  · simp [hExited]

/-- A change of one control block is quiet when it keeps the core. -/
theorem modifyPcb {f : Pcb → Pcb} (hCore : (f (s.pcb p)).core = (s.pcb p).core)
    (hFreed : (f (s.pcb p)).freed = (s.pcb p).freed ∨ (s.pcb p).state = .exited)
    (hWake : p ≠ s.runningProc → (f (s.pcb p)).wakeUp = (s.pcb p).wakeUp) :
    Quiet s (s.modifyPcb p f) where
  frame := rfl
  core q := by
    by_cases hq : q = p
    · subst hq
      simpa [Kernel.modifyPcb] using hCore
    · simp [Kernel.modifyPcb, Function.update_of_ne hq]
  freed q := by
    by_cases hq : q = p
    · subst hq
      simpa [Kernel.modifyPcb] using hFreed
    · simp [Kernel.modifyPcb, Function.update_of_ne hq]
  wakeUp q hRunning := by
    by_cases hq : q = p
    · subst hq
      simpa [Kernel.modifyPcb] using hWake hRunning
    · simp [Kernel.modifyPcb, Function.update_of_ne hq]
  trace := ⟨[], by simp [Kernel.modifyPcb], by simp⟩

theorem setMem (s : Kernel) (mem : Memory) : Quiet s (s.setMem mem) :=
  ⟨rfl, fun _ => rfl, fun _ => Or.inl rfl, fun _ _ => rfl, [], by simp [Kernel.setMem], by simp⟩

theorem emit (s : Kernel) {e : Event} (he : e.Quiet) : Quiet s (s.emit e) :=
  ⟨rfl, fun _ => rfl, fun _ => Or.inl rfl, fun _ _ => rfl, [e], rfl, by simpa using he⟩

theorem setUc (s : Kernel) (uc : UserContext) : Quiet s { s with uc := uc } :=
  ⟨rfl, fun _ => rfl, fun _ => Or.inl rfl, fun _ _ => rfl, [], by simp, by simp⟩

theorem setTicks (s : Kernel) (ticks : Word) : Quiet s { s with numTicks := ticks } :=
  ⟨rfl, fun _ => rfl, fun _ => Or.inl rfl, fun _ _ => rfl, [], by simp, by simp⟩

theorem ticked (s : Kernel) : Quiet s ({ s with numTicks := s.numTicks + 1 }.emit .tick) :=
  (setTicks s _).trans (emit _ trivial)

theorem setResult (s : Kernel) (p : Proc) (value : Word) : Quiet s (s.setResult p value) :=
  modifyPcb rfl (Or.inl rfl) fun _ => rfl

theorem ret (s : Kernel) (value : Word) : Quiet s (s.ret value) := setResult s _ value

theorem retBool (s : Kernel) [Hardware] (ok : Bool) : Quiet s (s.retBool ok) := ret s _

theorem saveUc (s : Kernel) (uc : UserContext) : Quiet s (s.saveUc uc) :=
  modifyPcb rfl (Or.inl rfl) fun _ => rfl

theorem leave (s : Kernel) : Quiet s s.leave := by
  unfold Kernel.leave
  split
  · exact setUc s _
  · exact refl s

theorem setRelations (s : Kernel) (p : Proc) (relations : Relations) :
    Quiet s (s.setRelations p relations) :=
  modifyPcb rfl (Or.inl rfl) fun _ => rfl

theorem freePcb (hExited : (s.pcb p).state = .exited) : Quiet s (s.freePcb p) :=
  (modifyPcb rfl (Or.inr hExited) fun _ => rfl).trans (emit _ (e := .freed p) trivial)

theorem addChildProc (s : Kernel) (parent child : Proc) (growOk : Bool) :
    Quiet s (s.addChildProc parent child growOk).1 := by
  unfold Kernel.addChildProc
  split
  · exact refl s
  · exact setRelations s _ _

theorem findExitedChild {parent : Proc} {shrinkOk : Bool} {code : Word}
    (h : s.findExitedChild parent shrinkOk = some (t, code)) : Quiet s t := by
  simp only [Kernel.findExitedChild, Option.bind_eq_bind, Option.bind_eq_some_iff,
    Option.some.injEq, Prod.mk.injEq] at h
  obtain ⟨i, hIdx, child, hChild, rfl, -⟩ := h
  have hFound := List.find?_some hIdx
  have hExited : (s.pcb child).state = .exited := by
    simpa [hChild, Kernel.isExited] using hFound
  exact ((freePcb hExited).trans (setRelations _ _ _)).trans (emit _ trivial)

theorem waitUnblockCond {shrinkOk : Bool} (h : s.waitUnblockCond shrinkOk p = some t) :
    Quiet s t := by
  simp only [Kernel.waitUnblockCond, Option.map_eq_some_iff] at h
  obtain ⟨⟨found, code⟩, hFound, rfl⟩ := h
  exact (findExitedChild hFound).trans (modifyPcb rfl (Or.inl rfl) fun _ => rfl)

theorem orphan (s : Kernel) (slot : Option Proc) : Quiet s (s.orphan slot) := by
  unfold Kernel.orphan
  split
  · exact refl s
  · split_ifs with hExited
    · exact freePcb hExited
    · exact modifyPcb rfl (Or.inl rfl) fun _ => rfl

theorem orphans (s : Kernel) (children : Nat → Option Proc) (slots : List Nat) :
    Quiet s (slots.foldl (fun s i => s.orphan (children i)) s) := by
  induction slots generalizing s with
  | nil => exact refl s
  | cons i slots ih => exact (orphan s _).trans (ih _)

theorem retirePcb (hExited : (s.pcb p).state = .exited) : Quiet s (s.retirePcb p) := by
  have hOrphans := orphans s (s.pcb p).relations.children
    (List.range (s.pcb p).relations.numChildren)
  unfold Kernel.retirePcb
  dsimp only
  split_ifs
  · exact hOrphans
  · exact hOrphans.trans (freePcb (by rw [hOrphans.state, hExited]))

end Quiet

namespace Kernel

variable {s : Kernel} {p : Proc}

theorem kin_modifyPcb {f : Pcb → Pcb} (hRelations : (f (s.pcb p)).relations = (s.pcb p).relations)
    (hCode : (f (s.pcb p)).exitCode = (s.pcb p).exitCode) (hFreed : (f (s.pcb p)).freed = (s.pcb p).freed) :
    (s.modifyPcb p f).kin = s.kin := by
  have hPcb {α : Type} {v : Pcb → α} (hView : v (f (s.pcb p)) = v (s.pcb p)) :
      (fun q => v ((s.modifyPcb p f).pcb q)) = fun q => v (s.pcb q) := by
    funext q
    by_cases hq : q = p
    · subst hq
      simpa [modifyPcb] using hView
    · simp [modifyPcb, Function.update_of_ne hq]
  simp only [kin, Kin.mk.injEq]
  exact ⟨hPcb hRelations, hPcb hCode, hPcb hFreed, rfl⟩

@[simp] theorem kin_emit (s : Kernel) {e : Event} (he : e.isKin = false) : (s.emit e).kin = s.kin := by
  simp [kin, emit, he]

end Kernel

namespace Silent

variable {s t u : Kernel}

theorem refl (s : Kernel) : Silent s s := ⟨.refl s, rfl, rfl, fun _ _ => rfl, fun _ => rfl⟩

theorem trans (h : Silent s t) (h' : Silent t u) : Silent s u where
  toQuiet := h.toQuiet.trans h'.toQuiet
  kin := h'.kin.trans h.kin
  clock := h'.clock.trans h.clock
  uc p hp := (h'.uc p (by rwa [h.toQuiet.runningProc])).trans (h.uc p hp)
  alarm p := (h'.alarm p).trans (h.alarm p)

theorem setMem (s : Kernel) (mem : Memory) : Silent s (s.setMem mem) :=
  ⟨.setMem s mem, rfl, rfl, fun _ _ => rfl, fun _ => rfl⟩

theorem setUc (s : Kernel) (uc : UserContext) : Silent s { s with uc := uc } :=
  ⟨.setUc s uc, rfl, rfl, fun _ _ => rfl, fun _ => rfl⟩

/-- The registers of the running process change. -/
theorem saveUc (s : Kernel) (uc : UserContext) : Silent s (s.saveUc uc) where
  toQuiet := .saveUc s uc
  kin := Kernel.kin_modifyPcb rfl rfl rfl
  clock := rfl
  uc p hp := by simp [Kernel.saveUc, Kernel.modifyPcb, Function.update_of_ne hp]
  alarm p := by
    by_cases hp : p = s.runningProc
    · simp [Kernel.saveUc, Kernel.modifyPcb, hp]
    · simp [Kernel.saveUc, Kernel.modifyPcb, Function.update_of_ne hp]

theorem ret (s : Kernel) (value : Word) : Silent s (s.ret value) := saveUc s _

theorem retBool (s : Kernel) [Hardware] (ok : Bool) : Silent s (s.retBool ok) := ret s _

theorem leave (s : Kernel) : Silent s s.leave := by
  unfold Kernel.leave
  split
  · exact setUc s _
  · exact refl s

end Silent
end Yalnix
