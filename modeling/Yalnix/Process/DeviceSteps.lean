import Yalnix.Device.PipeBuffer
import Yalnix.Process.Objects

/-! The operations of `pipe.c`, `tty.c` and of the sleep and wait queues keep
the invariant. -/
namespace Yalnix

open IntrusiveQueue Apart Hardware

namespace Kernel

theorem owner_setTty (s : Kernel) (id : Nat) (tty : Tty) :
    (s.setTty id tty).shape.owner = Function.update s.shape.owner id tty.txOwner := by
  funext k
  by_cases hk : k = id
  · subst hk
    simp [shape, setTty]
  · simp [shape, setTty, Function.update_of_ne hk]

/-- A change of a terminal that concerns no process. -/
theorem shape_setTty {s : Kernel} {id : Nat} (tty : Tty) (hOwner : tty.txOwner = (s.ttys id).txOwner)
    (hReaders : tty.readers = (s.ttys id).readers) (hWriters : tty.writers = (s.ttys id).writers) :
    (s.setTty id tty).shape = s.shape := by
  have hSame : (s.setTty id tty).shape.owner = s.shape.owner := by
    rw [owner_setTty, hOwner]
    exact Function.update_eq_self id s.shape.owner
  have hEnds := ends_setTty s id tty hReaders hWriters
  have hShape : (s.setTty id tty).shape = { s.shape with
    ends := (s.setTty id tty).ends, owner := (s.setTty id tty).shape.owner } := rfl
  rw [hShape, hSame, hEnds]
  rfl

theorem shape_ttyRecord (s : Kernel) (id : Nat) (bytes : List Byte) :
    (s.ttyRecord id bytes).shape = s.shape := by
  rw [ttyRecord, shape_emit _ rfl]
  exact shape_modifyPcb rfl rfl rfl Iff.rfl

theorem shape_startChunk [Hardware] (s : Kernel) (id : Nat) : (s.startChunk id).shape = s.shape := by
  unfold startChunk
  split
  · rfl
  · rw [shape_emit _ rfl]
    exact shape_setTty _ rfl rfl rfl

end Kernel

variable [Hardware]

namespace Inv

variable {s t : Kernel} {lists : Place → List Proc} {claim : Option Nat} {a : Place} {x : Proc}
  {id : Nat}

theorem setState {m : ProcessState} (h : Inv s lists claim) (hx : x ∈ lists a)
    (hState : m ≠ .exited) : Inv (s.setState x m) lists claim :=
  h.of_shape (Kernel.shape_setState (h.placement.live_of_mem hx) hState) rfl

theorem live_setState {m : ProcessState} (h : Inv s lists claim) (hx : x ∈ lists a)
    (hState : m ≠ .exited) : (s.setState x m).Live = s.Live :=
  Kernel.live_of_shape (Kernel.shape_setState (h.placement.live_of_mem hx) hState)

theorem live_scheduleProcess (h : Inv s lists claim) (hx : x ∈ lists a) :
    (s.scheduleProcess x).Live = s.Live :=
  Kernel.live_of_sync (Kernel.sync_scheduleProcess (h.placement.live_of_mem hx))

section Pipes

/-- The data of a pipe changes. -/
theorem setPipe {pipe : Pipe} (h : Inv s lists claim) (hOld : (s.pipes.entries id).inUse = true)
    (hFrame : pipe.frame = (s.pipes.entries id).frame) : Inv (s.setPipe id pipe) lists claim := by
  obtain ⟨hInUse, hReaders⟩ := Prod.mk.inj hFrame
  have hNew : pipe.inUse = true := hInUse.trans hOld
  have hEnds : (s.setPipe id pipe).ends = s.ends := by
    rw [Kernel.ends_setPipe, hReaders]
    exact Function.update_eq_self (.pipe id) s.ends
  refine ⟨h.placement.congr rfl hEnds rfl rfl rfl rfl rfl, h.sync.congr rfl fun _ _ => rfl,
    h.pipes.set rfl hOld hNew, fun k hk => h.pipe_unused k ?_⟩
  by_cases he : k = id
  · subst he
    simp [Kernel.setPipe, Table.set, hNew] at hk
  · simpa [Kernel.setPipe, Table.set, Function.update_of_ne he] using hk

/-- `PipeRead_Impl` blocks the running process. -/
theorem pipeBlock (h : Inv s lists claim) (hx : lists .cpu = [s.runningProc])
    (hUse : (s.pipes.entries id).inUse = true) :
    ∃ others, Inv (s.pipeBlock id) others claim ∧
      Frame s (s.pipeBlock id) (Function.update lists (.queue (.pipe id))
        (lists (.queue (.pipe id)) ++ [s.runningProc])) others ∧
      others .cpu = [] ∧ others .hand = lists .hand := by
  have hNotMem := h.placement.not_mem_queue (Or.inl rfl) hx (.pipe id)
  have hPush := Pipe.queuePush_eq_push (h.placement.linked (.pipe id)) hNotMem
  have hPlaced : Placement ((s.setNext (Pipe.queuePush s.next (s.pipes.entries id).readers
      s.runningProc).1).setPipe id { s.pipes.entries id with
        readers := (Pipe.queuePush s.next (s.pipes.entries id).readers s.runningProc).2 }).shape
      (Apart.move lists .cpu (.queue (.pipe id)) [] (lists (.queue (.pipe id)) ++ [s.runningProc])) := by
    refine h.placement.push (Or.inl rfl) hx (.pipe id) ?_ ?_ (Placement.keep_length (by simp) rfl)
      rfl rfl rfl (Placement.keep_log rfl rfl)
    · exact congrArg Prod.fst hPush
    · exact (Kernel.ends_setPipe _ id _).trans
        (congrArg (fun pushed => Function.update s.ends (.pipe id) (Prod.snd pushed)) hPush)
  have hPushed := h.move_pipes hPlaced rfl rfl rfl (h.pipes.set rfl hUse hUse) fun k hk => ?_
  · have hMem : s.runningProc ∈ Apart.move lists .cpu (.queue (.pipe id)) []
        (lists (.queue (.pipe id)) ++ [s.runningProc]) (.queue (.pipe id)) := by simp
    exact ⟨_, hPushed.setState hMem (by simp),
      ⟨.move_to rfl _ _, hPushed.live_setState hMem (by simp)⟩, move_source (by simp),
      move_other (by simp) (by simp)⟩
  · have hNe : k ≠ id := by
      rintro rfl
      simp [Kernel.setPipe, Table.set, hUse] at hk
    rw [move_other (by simp) (by simpa using hNe)]
    refine h.pipe_unused k ?_
    simpa [Kernel.setPipe, Kernel.setNext, Table.set, Function.update_of_ne hNe] using hk

/-- The loop of `wake_readers`. -/
theorem wakeReaders (h : Inv s lists claim) (hHand : lists .hand = []) (fuel : Nat) :
    ∃ others, Inv (s.wakeReaders id fuel) others claim ∧
      Frame s (s.wakeReaders id fuel) (Function.update lists (.queue (.pipe id))
        ((lists (.queue (.pipe id))).drop fuel)) others ∧
      others .cpu = lists .cpu ∧ others .hand = [] := by
  induction fuel generalizing s lists with
  | zero =>
      rw [List.drop_zero, Function.update_eq_self]
      exact ⟨lists, h, .refl rfl, rfl, hHand⟩
  | succ fuel ih =>
      have hQueue : IsQueue s.next (s.pipes.entries id).readers (lists (.queue (.pipe id))) :=
        h.placement.linked (.pipe id)
      unfold Kernel.wakeReaders
      cases hList : lists (.queue (.pipe id)) with
      | nil =>
          rw [hList] at hQueue
          rw [hQueue.pop_nil]
          have hSame : Function.update lists (.queue (.pipe id)) [] = lists := by
            rw [← hList, Function.update_eq_self]
          rw [List.drop_nil, hSame]
          exact ⟨lists, h, .refl rfl, rfl, hHand⟩
      | cons reader rest =>
          rw [hList] at hQueue
          have hSplit : pop s.next (s.pipes.entries id).readers =
              (some reader, (pop s.next (s.pipes.entries id).readers).2.1,
                (pop s.next (s.pipes.entries id).readers).2.2) := Prod.ext hQueue.pop_fst rfl
          rw [hSplit]
          have hUse : (s.pipes.entries id).inUse = true := by
            by_contra hUnused
            simp [h.pipe_unused id (Bool.eq_false_iff.mpr hUnused)] at hList
          have hPlaced : Placement ((s.setNext (pop s.next (s.pipes.entries id).readers).2.1).setPipe
              id { s.pipes.entries id with
                readers := (pop s.next (s.pipes.entries id).readers).2.2 }).shape
              (Apart.move lists (.queue (.pipe id)) .hand rest [reader]) :=
            h.placement.pop hList hHand rfl (Kernel.ends_setPipe _ id _)
              (Placement.keep_length_sub (by simp) rfl) rfl rfl rfl (Placement.keep_log rfl rfl)
          have hPopped := h.move_pipes hPlaced rfl rfl rfl (h.pipes.set rfl hUse hUse) fun k hk => ?_
          · obtain ⟨others, hInv, hFrame, hCpu, hHand'⟩ := ih
              (hPopped.scheduleProcess (Or.inr rfl) move_target) (move_source (by simp))
            have hLive := hPopped.live_scheduleProcess (a := .hand) (x := reader) (by simp)
            refine ⟨others, hInv, ⟨?_, hFrame.live.trans hLive⟩, ?_, hHand'⟩
            · have hLeft : Calm (Function.update lists (.queue (.pipe id)) rest) (Apart.move
                  (Apart.move lists (.queue (.pipe id)) .hand rest [reader]) .hand
                  (.queue (.sched .main)) [] (Apart.move lists (.queue (.pipe id)) .hand rest [reader]
                    (.queue (.sched .main)) ++ [reader])) :=
                (Calm.move_from rfl _ _).trans (.move rfl rfl _ _)
              have hDropped := (hLeft.congr (.queue (.pipe id)) (rest.drop fuel)).trans
                (by simpa [Apart.move] using hFrame.calm)
              simpa using hDropped
            · rw [hCpu, move_other (by simp) (by simp), move_other (by simp) (by simp)]
          · have hNe : k ≠ id := by
              rintro rfl
              simp [Kernel.setPipe, Table.set, hUse] at hk
            rw [move_other (by simpa using hNe) (by simp)]
            refine h.pipe_unused k ?_
            simpa [Kernel.setPipe, Kernel.setNext, Table.set, Function.update_of_ne hNe] using hk

end Pipes

section Terminals

theorem wqPush (h : Inv s lists claim) (id : Nat) (ha : Placement.Free a) (hx : lists a = [x]) :
    Inv (s.wqPush id x)
      (Apart.move lists a (.queue (.writer id)) [] (lists (.queue (.writer id)) ++ [x])) claim := by
  have hPush := Pipe.queuePush_eq_push (h.placement.linked (.writer id))
    (h.placement.not_mem_queue ha hx (.writer id))
  refine h.move ?_ ha.isObject rfl rfl rfl
  refine h.placement.push ha hx (.writer id) ?_ ?_ (Placement.keep_length (by simp) rfl) rfl ?_ rfl
    (Placement.keep_log rfl rfl)
  · exact congrArg Prod.fst hPush
  · have hEnds := congrArg (fun pushed => Function.update s.ends (.writer id) (Prod.snd pushed)) hPush
    have hTty := Kernel.ends_setTty_writers s id { s.ttys id with
      writers := (Pipe.queuePush s.next (s.ttys id).writers x).2 } rfl
    exact hTty.trans hEnds
  · exact (Kernel.owner_setTty _ id _).trans (Function.update_eq_self id s.shape.owner)

theorem rqPush (h : Inv s lists claim) (id : Nat) (ha : Placement.Free a) (hx : lists a = [x]) :
    Inv (s.rqPush id x)
      (Apart.move lists a (.queue (.reader id)) [] (lists (.queue (.reader id)) ++ [x])) claim := by
  have hPush := Pipe.queuePush_eq_push (h.placement.linked (.reader id))
    (h.placement.not_mem_queue ha hx (.reader id))
  refine h.move ?_ ha.isObject rfl rfl rfl
  refine h.placement.push ha hx (.reader id) ?_ ?_ (Placement.keep_length (by simp) rfl) rfl ?_ rfl
    (Placement.keep_log rfl rfl)
  · exact congrArg Prod.fst hPush
  · have hEnds := congrArg (fun pushed => Function.update s.ends (.reader id) (Prod.snd pushed)) hPush
    have hTty := Kernel.ends_setTty_readers s id { s.ttys id with
      readers := (Pipe.queuePush s.next (s.ttys id).readers x).2 } rfl
    exact hTty.trans hEnds
  · exact (Kernel.owner_setTty _ id _).trans (Function.update_eq_self id s.shape.owner)

/-- `wq_pop` takes the first blocked writer into the kernel's hands. -/
theorem wqPop (h : Inv s lists claim) (id : Nat) (hHand : lists .hand = []) :
    (lists (.queue (.writer id)) = [] ∧ s.wqPop id = (s, none)) ∨
      ∃ writer rest u, lists (.queue (.writer id)) = writer :: rest ∧ s.wqPop id = (u, some writer) ∧
        u.ttys = Function.update s.ttys id { s.ttys id with writers := (u.ttys id).writers } ∧
        u.Live = s.Live ∧ Inv u (Apart.move lists (.queue (.writer id)) .hand rest [writer]) claim := by
  have hQueue : IsQueue s.next (s.ttys id).writers (lists (.queue (.writer id))) :=
    h.placement.linked (.writer id)
  unfold Kernel.wqPop
  cases hList : lists (.queue (.writer id)) with
  | nil =>
      rw [hList] at hQueue
      rw [hQueue.pop_nil]
      exact Or.inl ⟨rfl, rfl⟩
  | cons writer rest =>
      rw [hList] at hQueue
      have hSplit : pop s.next (s.ttys id).writers = (some writer,
          (pop s.next (s.ttys id).writers).2.1, (pop s.next (s.ttys id).writers).2.2) :=
        Prod.ext hQueue.pop_fst rfl
      rw [hSplit]
      refine Or.inr ⟨writer, rest, _, rfl, rfl, by simp [Kernel.setTty, Kernel.setNext], rfl, ?_⟩
      refine h.move ?_ rfl rfl rfl rfl
      refine h.placement.pop hList hHand rfl (Kernel.ends_setTty_writers _ id _ rfl)
        (Placement.keep_length_sub (by simp) rfl) rfl ?_ rfl (Placement.keep_log rfl rfl)
      exact (Kernel.owner_setTty _ id _).trans (Function.update_eq_self id s.shape.owner)

/-- `rq_pop` takes the first blocked reader into the kernel's hands. -/
theorem rqPop (h : Inv s lists claim) (id : Nat) (hHand : lists .hand = []) :
    (lists (.queue (.reader id)) = [] ∧ s.rqPop id = (s, none)) ∨
      ∃ reader rest u, lists (.queue (.reader id)) = reader :: rest ∧ s.rqPop id = (u, some reader) ∧
        u.Live = s.Live ∧ Inv u (Apart.move lists (.queue (.reader id)) .hand rest [reader]) claim := by
  have hQueue : IsQueue s.next (s.ttys id).readers (lists (.queue (.reader id))) :=
    h.placement.linked (.reader id)
  unfold Kernel.rqPop
  cases hList : lists (.queue (.reader id)) with
  | nil =>
      rw [hList] at hQueue
      rw [hQueue.pop_nil]
      exact Or.inl ⟨rfl, rfl⟩
  | cons reader rest =>
      rw [hList] at hQueue
      have hSplit : pop s.next (s.ttys id).readers = (some reader,
          (pop s.next (s.ttys id).readers).2.1, (pop s.next (s.ttys id).readers).2.2) :=
        Prod.ext hQueue.pop_fst rfl
      rw [hSplit]
      refine Or.inr ⟨reader, rest, _, rfl, rfl, rfl, ?_⟩
      refine h.move ?_ rfl rfl rfl rfl
      refine h.placement.pop hList hHand rfl (Kernel.ends_setTty_readers _ id _ rfl)
        (Placement.keep_length_sub (by simp) rfl) rfl ?_ rfl (Placement.keep_log rfl rfl)
      exact (Kernel.owner_setTty _ id _).trans (Function.update_eq_self id s.shape.owner)

/-- A process becomes the owner of an idle terminal. -/
theorem own (h : Inv s lists claim) (id : Nat) (ha : Placement.Free a) (hx : lists a = [x])
    (hOwner : (s.ttys id).txOwner = none) :
    Inv (s.setTty id { s.ttys id with txOwner := some x })
      (Apart.move lists a (.transmitting id) [] [x]) claim := by
  have hNil : lists (.transmitting id) = [] := by
    rw [h.placement.owner]
    simp [Kernel.shape, hOwner]
  refine h.move ?_ ha.isObject rfl rfl rfl
  refine h.placement.shift (ha.ne_transmitting id).symm ha.ne_queue (by simp) (by rw [hx])
    (by rw [hNil]) rfl (Kernel.ends_setTty s id _ rfl rfl) rfl ?_ ?_ rfl rfl
  · rw [move_other ha.ne_sleeping (by simp), h.placement.sleeping]
    rfl
  · intro tty
    rw [Kernel.owner_setTty]
    by_cases hk : tty = id
    · subst hk
      simp
    · rw [move_other (ha.ne_transmitting tty) (by simpa using hk), h.placement.owner,
        Function.update_of_ne hk]

/-- The owner of a terminal gives it up. -/
theorem disown (h : Inv s lists claim) (hHand : lists .hand = [])
    (hOwner : (s.ttys id).txOwner = some x) :
    Inv (s.setTty id { s.ttys id with txOwner := none })
      (Apart.move lists (.transmitting id) .hand [] [x]) claim := by
  have hOne : lists (.transmitting id) = [x] := by
    rw [h.placement.owner]
    simp [Kernel.shape, hOwner]
  refine h.move ?_ rfl rfl rfl rfl
  refine h.placement.shift (by simp) (by simp) (by simp) (by rw [hOne]) (by rw [hHand]) rfl
    (Kernel.ends_setTty s id _ rfl rfl) rfl ?_ ?_ rfl rfl
  · rw [move_other (by simp) (by simp), h.placement.sleeping]
    rfl
  · intro tty
    rw [Kernel.owner_setTty]
    by_cases hk : tty = id
    · subst hk
      simp [move_source]
    · rw [move_other (by simpa using hk) (by simp), h.placement.owner, Function.update_of_ne hk]

theorem startChunk (h : Inv s lists claim) (id : Nat) : Inv (s.startChunk id) lists claim := by
  refine h.of_shape (Kernel.shape_startChunk s id) ?_
  unfold Kernel.startChunk
  split <;> rfl

theorem setTty {tty : Tty} (h : Inv s lists claim) (hOwner : tty.txOwner = (s.ttys id).txOwner)
    (hReaders : tty.readers = (s.ttys id).readers) (hWriters : tty.writers = (s.ttys id).writers) :
    Inv (s.setTty id tty) lists claim :=
  h.of_shape (Kernel.shape_setTty tty hOwner hReaders hWriters) rfl

/-- `kernel_tty_write` blocks the running process, as the owner or in the queue
of writers. -/
theorem ttyWriteBlock (h : Inv s lists claim) (id : Nat) (bytes : List Byte)
    (hx : lists .cpu = [s.runningProc]) :
    ∃ others, Inv (s.ttyWriteBlock id bytes) others claim ∧
      Frame s (s.ttyWriteBlock id bytes) (if (s.ttys id).txOwner = none then
        Function.update lists (.transmitting id) [s.runningProc] else
        Function.update lists (.queue (.writer id)) (lists (.queue (.writer id)) ++ [s.runningProc]))
        others ∧
      others .cpu = [] ∧ others .hand = lists .hand := by
  have hShape := Kernel.shape_ttyRecord s id bytes
  have hRecorded := h.of_shape hShape rfl
  have hLive := Kernel.live_of_shape hShape
  unfold Kernel.ttyWriteBlock
  dsimp only
  split
  · rename_i hOwner
    have hOwned := (hRecorded.own id (Or.inl rfl) hx hOwner).startChunk id
    have hMem : s.runningProc ∈ Apart.move lists .cpu (.transmitting id) [] [s.runningProc]
      (.transmitting id) := by simp
    have hNone : (s.ttys id).txOwner = none := hOwner
    have hStarted := (Kernel.live_of_shape (Kernel.shape_startChunk ((s.ttyRecord id bytes).setTty id
      { (s.ttyRecord id bytes).ttys id with txOwner := some s.runningProc }) id)).trans hLive
    rw [if_pos hNone]
    exact ⟨_, hOwned.setState hMem (by simp),
      ⟨.move_to rfl _ _, (hOwned.live_setState hMem (by simp)).trans hStarted⟩, move_source (by simp),
      move_other (by simp) (by simp)⟩
  · rename_i owner hOwner
    have hQueued := hRecorded.wqPush id (Or.inl rfl) hx
    have hMem : s.runningProc ∈ Apart.move lists .cpu (.queue (.writer id)) []
      (lists (.queue (.writer id)) ++ [s.runningProc]) (.queue (.writer id)) := by simp
    have hSome : (s.ttys id).txOwner ≠ none := fun hNone => by
      rw [show (s.ttys id).txOwner = some owner from hOwner] at hNone
      cases hNone
    rw [if_neg hSome]
    exact ⟨_, hQueued.setState hMem (by simp),
      ⟨.move_to rfl _ _, (hQueued.live_setState hMem (by simp)).trans hLive⟩, move_source (by simp),
      move_other (by simp) (by simp)⟩

/-- `kernel_tty_read` blocks the running process. -/
theorem ttyReadBlock (h : Inv s lists claim) (id : Nat) (buf : Word) (len : Nat)
    (hx : lists .cpu = [s.runningProc]) :
    ∃ others, Inv (s.ttyReadBlock id buf len) others claim ∧
      Frame s (s.ttyReadBlock id buf len) (Function.update lists (.queue (.reader id))
        (lists (.queue (.reader id)) ++ [s.runningProc])) others ∧
      others .cpu = [] ∧ others .hand = lists .hand := by
  have hShape : (s.modifyPcb s.runningProc fun p => { p with
      ioUserBuf := buf, ioLen := len, ioTtyId := id }).shape = s.shape :=
    Kernel.shape_modifyPcb rfl rfl rfl Iff.rfl
  have hQueued := (h.of_shape hShape rfl).rqPush id (Or.inl rfl) hx
  have hMem : s.runningProc ∈ Apart.move lists .cpu (.queue (.reader id)) []
    (lists (.queue (.reader id)) ++ [s.runningProc]) (.queue (.reader id)) := by simp
  have hSame := Kernel.live_of_shape hShape
  have hLive : (s.ttyReadBlock id buf len).Live = s.Live :=
    (hQueued.live_setState (m := .waiting) hMem (by simp)).trans hSame
  exact ⟨_, hQueued.setState hMem (by simp), ⟨.move_to rfl _ _, hLive⟩, move_source (by simp),
    move_other (by simp) (by simp)⟩

omit [Hardware] in
/-- The first blocked writer, if any, becomes the owner of the terminal. -/
def handOver (lists : Place → List Proc) (id : Nat) : Place → List Proc :=
  Function.update (Function.update lists (.queue (.writer id)) (lists (.queue (.writer id))).tail)
    (.transmitting id) (lists (.queue (.writer id))).head?.toList

omit [Hardware] in
/-- It does not matter who owned the terminal before. -/
theorem calm_handOver {others : Place → List Proc} {owner : List Proc}
    (h : Calm (Function.update lists (.transmitting id) owner) others) :
    Calm (handOver lists id) (handOver others id) := by
  have hWriters : others (.queue (.writer id)) = lists (.queue (.writer id)) :=
    (h _ rfl).trans (Function.update_of_ne (by simp) _ _)
  intro c hc
  unfold handOver
  rw [hWriters]
  by_cases hOwner : c = .transmitting id
  · subst hOwner
    simp
  rw [Function.update_of_ne hOwner, Function.update_of_ne hOwner]
  by_cases hWriter : c = .queue (.writer id)
  · subst hWriter
    simp
  rw [Function.update_of_ne hWriter, Function.update_of_ne hWriter, h c hc,
    Function.update_of_ne hOwner]

/-- The next blocked writer, if any, becomes the owner of an idle terminal. -/
theorem ttyHandOver (h : Inv s lists claim) (id : Nat) (hHand : lists .hand = [])
    (hOwner : (s.ttys id).txOwner = none) :
    ∃ others, Inv (s.ttyHandOver id) others claim ∧
      Frame s (s.ttyHandOver id) (handOver lists id) others ∧
      others .cpu = lists .cpu ∧ others .hand = [] := by
  unfold Kernel.ttyHandOver
  rcases h.wqPop id hHand with ⟨hNil, hPop⟩ | ⟨writer, rest, u, hList, hPop, hTtys, hLive, hInv⟩
  · have hIdle : lists (.transmitting id) = [] := by
      rw [h.placement.owner]
      simp [Kernel.shape, hOwner]
    have hSame : handOver lists id = lists := by
      rw [handOver, hNil, List.tail_nil, List.head?_nil, Option.toList_none, ← hNil,
        Function.update_eq_self, hNil, ← hIdle, Function.update_eq_self]
    rw [hPop, hSame]
    exact ⟨lists, h, .refl rfl, rfl, hHand⟩
  · rw [hPop, handOver, hList, List.tail_cons, List.head?_cons, Option.toList_some]
    have hNone : (u.ttys id).txOwner = none := by
      rw [hTtys]
      simpa using hOwner
    have hStarted := (Kernel.live_of_shape (Kernel.shape_startChunk
      (u.setTty id { u.ttys id with txOwner := some writer }) id)).trans hLive
    refine ⟨_, (hInv.own id (Or.inr rfl) move_target hNone).startChunk id,
      ⟨((Calm.move_from rfl _ _).congr _ _).trans (.move_to rfl _ _), hStarted⟩, ?_,
      move_source (by simp)⟩
    rw [move_other (by simp) (by simp), move_other (by simp) (by simp)]

theorem ttyChunkDone (h : Inv s lists claim) (id : Nat) (x : Proc) :
    Inv (s.ttyChunkDone id x) lists claim := by
  have hCounted : Inv (s.modifyPcb x fun p =>
      { p with ioSent := p.ioSent + (s.ttys id).txLastChunk }) lists claim :=
    h.of_shape (Kernel.shape_modifyPcb rfl rfl rfl Iff.rfl) rfl
  exact hCounted.setTty rfl rfl rfl

/-- The owner has sent everything. -/
theorem ttyFinish (h : Inv s lists claim) (id : Nat) (hHand : lists .hand = [])
    (hOwner : (s.ttys id).txOwner = some x) :
    ∃ others, Inv (s.ttyFinish id x) others claim ∧
      Frame s (s.ttyFinish id x) (handOver lists id) others ∧
      others .cpu = lists .cpu ∧ others .hand = [] := by
  have hFree := (h.disown hHand hOwner).of_shape (Kernel.shape_emit _ (e := .ttyWriteDone id x) rfl) rfl
  have hTtys := congrArg Devices.ttys (Kernel.devices_of_outside (Kernel.outside_scheduleProcess
    ((s.setTty id { s.ttys id with txOwner := none }).emit (.ttyWriteDone id x)) x))
  have hNone := congrArg (fun ttys => (ttys id).txOwner) hTtys
  obtain ⟨others, hInv, hFrame, hCpu, hLast⟩ :=
    (hFree.scheduleProcess (Or.inr rfl) move_target).ttyHandOver id
      (move_source (by simp)) (hNone.trans (by simp [Kernel.devices, Kernel.setTty, Kernel.emit]))
  have hLive := hFree.live_scheduleProcess (a := .hand) (x := x) (by simp)
  refine ⟨others, hInv, ⟨?_, hFrame.live.trans hLive⟩, ?_, hLast⟩
  · exact (calm_handOver ((Calm.move_from (b := .hand) rfl _ _).trans (.move rfl rfl _ _))).trans
      hFrame.calm
  · rw [hCpu, move_other (by simp) (by simp), move_other (by simp) (by simp)]

theorem ttyTransmitDone (h : Inv s lists claim) (ttyId : Int) (hHand : lists .hand = []) :
    ∃ base others, (base = lists ∨ base = handOver lists ttyId.toNat) ∧
      Inv (s.ttyTransmitDone ttyId) others claim ∧ Frame s (s.ttyTransmitDone ttyId) base others ∧
      others .cpu = lists .cpu ∧ others .hand = [] := by
  unfold Kernel.ttyTransmitDone
  dsimp only
  split_ifs
  · exact ⟨lists, lists, Or.inl rfl, h, .refl rfl, rfl, hHand⟩
  have hTrap : Inv (s.emit (.ttyTransmitTrap ttyId.toNat)) lists claim :=
    h.of_shape (Kernel.shape_emit s rfl) rfl
  split
  · exact ⟨lists, lists, Or.inl rfl, hTrap, .refl rfl, rfl, hHand⟩
  rename_i owner hOwner
  have hDone := hTrap.ttyChunkDone ttyId.toNat owner
  have hLive : ((s.emit (.ttyTransmitTrap ttyId.toNat)).ttyChunkDone ttyId.toNat owner).Live = s.Live :=
    funext fun p => propext (Kernel.live_modifyPcb (s := s) (p := owner) (f := fun pcb =>
      { pcb with ioSent := pcb.ioSent + (s.ttys ttyId.toNat).txLastChunk }) rfl Iff.rfl p)
  split_ifs
  · exact ⟨lists, lists, Or.inl rfl, hDone.startChunk _,
      .refl ((Kernel.live_of_shape (Kernel.shape_startChunk _ _)).trans hLive), rfl, hHand⟩
  · obtain ⟨others, hInv, hFrame, hCpu, hLast⟩ := hDone.ttyFinish ttyId.toNat hHand
      (by simpa [Kernel.ttyChunkDone, Kernel.setTty, Kernel.modifyPcb] using hOwner)
    exact ⟨_, others, Or.inr rfl, hInv, ⟨hFrame.calm, hFrame.live.trans hLive⟩, hCpu, hLast⟩

/-- A writer whose chunks are all sent returns. -/
theorem ttyWriteReturn (h : Inv s lists claim) (id : Nat) : Inv (s.ttyWriteReturn id) lists claim := by
  have hCleared := h.of_shape (Kernel.shape_modifyPcb (p := s.runningProc) (f := fun p =>
    { p with ioKbuf := [] }) rfl rfl rfl Iff.rfl) rfl
  have hReturned := hCleared.quiet (Quiet.ret _ (BitVec.ofNat 32 (s.pcb s.runningProc).ioTotal))
  exact hReturned.of_shape (Kernel.shape_emit _ rfl) rfl

theorem appendLine (h : Inv s lists claim) (id : Nat) (line : List Byte) :
    Inv (s.appendLine id line) lists claim := by
  have hStored (lines lineNext rx) : Inv ({ s with
      lines := lines, lineNext := lineNext, numLines := s.numLines + 1 }.setTty id
        { s.ttys id with rx := rx }) lists claim :=
    h.of_shape (Kernel.shape_setTty { s.ttys id with rx := rx } rfl rfl rfl) rfl
  exact (hStored _ _ _).of_shape (Kernel.shape_emit _ (e := .ttyReceived id line) rfl) rfl

/-- The first blocked reader, if any, is woken for a new line. -/
theorem ttyDeliver (h : Inv s lists claim) (id : Nat) (line : List Byte)
    (hHand : lists .hand = []) :
    ∃ others, Inv (s.ttyDeliver id line) others claim ∧
      Frame s (s.ttyDeliver id line)
        (Function.update lists (.queue (.reader id)) (lists (.queue (.reader id))).tail) others ∧
      others .cpu = lists .cpu ∧ others .hand = [] := by
  have hLine := h.appendLine id line
  unfold Kernel.ttyDeliver
  rcases hLine.rqPop id hHand with ⟨hNil, hPop⟩ | ⟨reader, rest, u, hList, hPop, hLive, hInv⟩
  · have hSame : Function.update lists (.queue (.reader id)) (lists (.queue (.reader id))).tail =
        lists := by
      rw [hNil, List.tail_nil, ← hNil, Function.update_eq_self]
    rw [hPop, hSame]
    exact ⟨lists, hLine, .refl (t := s.appendLine id line) rfl, rfl, hHand⟩
  · rw [hPop, hList, List.tail_cons]
    have hReady := (hInv.live_scheduleProcess (a := .hand) (x := reader) (by simp)).trans hLive
    refine ⟨_, hInv.scheduleProcess (Or.inr rfl) move_target,
      ⟨(Calm.move_from rfl _ _).trans (.move rfl rfl _ _), hReady⟩, ?_, move_source (by simp)⟩
    rw [move_other (by simp) (by simp), move_other (by simp) (by simp)]

theorem ttyReceiveDone {ttyId : Int} {line : List Byte} {lineOk : Bool} (h : Inv s lists claim)
    (hHand : lists .hand = []) :
    ∃ base others, (base = lists ∨ base = Function.update lists (.queue (.reader ttyId.toNat))
        (lists (.queue (.reader ttyId.toNat))).tail) ∧
      Inv (s.ttyReceiveDone ttyId line lineOk) others claim ∧
      Frame s (s.ttyReceiveDone ttyId line lineOk) base others ∧
      others .cpu = lists .cpu ∧ others .hand = [] := by
  unfold Kernel.ttyReceiveDone
  split_ifs
  · exact ⟨lists, lists, Or.inl rfl, h, .refl rfl, rfl, hHand⟩
  · exact ⟨lists, lists, Or.inl rfl, h, .refl rfl, rfl, hHand⟩
  · obtain ⟨others, hInv, hFrame, hCpu, hLast⟩ := h.ttyDeliver ttyId.toNat line hHand
    exact ⟨_, others, Or.inr rfl, hInv, hFrame, hCpu, hLast⟩

/-- Taking bytes out of the first received line. -/
theorem read (h : Inv s lists claim) (id len : Nat) : Inv (s.read id len) lists claim := by
  have hConsumed : Inv (s.consume id len).1 lists claim := by
    unfold Kernel.consume
    split
    · exact h
    · have hStored (lines) : Inv { s with lines := lines } lists claim := h.of_shape rfl rfl
      dsimp only
      split
      all_goals
        split
        · exact (hStored _).setTty rfl rfl rfl
        · exact hStored _
  exact hConsumed.of_shape (Kernel.shape_emit _ rfl) rfl

end Terminals

section Waiting

/-- `wait_block_process` on the running process. -/
theorem waitBlockProcess (h : Inv s lists claim) (hx : lists .cpu = [x]) :
    ∃ others, Inv (s.waitBlockProcess x) others claim ∧
      Frame s (s.waitBlockProcess x) (Function.update lists (.queue (.sched .waitBlocking))
        (lists (.queue (.sched .waitBlocking)) ++ [x])) others ∧
      others .cpu = [] ∧ others .hand = lists .hand := by
  have hWaiting := h.setState (x := x) (a := .cpu) (by simp [hx]) (m := .waiting) (by simp)
  have hPlaced := hWaiting.placement.enqueProcess (Or.inl rfl) hx .waitBlocking
    (Placement.keep_log rfl rfl)
  have hLive := h.live_setState (x := x) (a := .cpu) (by simp [hx]) (m := .waiting) (by simp)
  exact ⟨_, hWaiting.move hPlaced rfl rfl rfl rfl, ⟨.move_to rfl _ _, hLive⟩, move_source (by simp),
    move_other (by simp) (by simp)⟩

/-- `put_to_sleep` on the running process. -/
theorem putToSleep {ticks : Word} {growOk : Bool} (h : Inv s lists claim) (hx : lists .cpu = [x])
    (hSleep : s.putToSleep x ticks growOk = (t, true)) :
    ∃ joined others, joined.Perm (x :: lists .sleeping) ∧ Inv t others claim ∧
      Frame s t (Function.update lists .sleeping joined) others ∧ others .cpu = [] ∧
      others .hand = lists .hand := by
  have hLive : s.Live x := h.placement.live_of_mem (a := .cpu) (by simp [hx])
  have hShape := Kernel.shape_modifyPcb (s := s) (p := x) (f := fun p =>
    { p with wakeUp := s.numTicks + ticks, state := .waiting }) rfl rfl rfl (by simp [hLive.2.2.2])
  have hMarked := h.of_shape hShape rfl
  unfold Kernel.putToSleep at hSleep
  dsimp only at hSleep
  split at hSleep
  · rename_i u hAdd
    obtain ⟨rfl, -⟩ := Prod.mk.inj hSleep
    have hPlaced := hMarked.placement.addToHeap (Or.inl rfl) hx hAdd
    obtain ⟨hPerm, hSame⟩ := Kernel.perm_addToHeap hAdd
    have hSleeping : lists .sleeping = s.sleepers.arr.toList := h.placement.sleeping
    refine ⟨_, _, hSleeping ▸ hPerm, hMarked.move hPlaced rfl rfl ?_ ?_, ⟨.move_to rfl _ _, ?_⟩,
      move_source (by simp), move_other (by simp) (by simp)⟩
    · rw [hSame]
      rfl
    · rw [hSame]
    · have hLive := Kernel.live_of_shape hShape
      rw [hSame]
      exact hLive
  · simp at hSleep

/-- A turn of `wake_waiters`. -/
theorem wakeWaiter {shrinkOk : Bool} (h : Inv s lists claim) (hHand : lists .hand = [])
    (hFind : s.findBlockedProcess .waitBlocking (Kernel.waitUnblockCond shrinkOk) = (t, some x)) :
    ∃ rest others, (lists (.queue (.sched .waitBlocking))).Perm (x :: rest) ∧
      Inv (t.scheduleProcess x) others claim ∧
      Frame s (t.scheduleProcess x) (Function.update lists (.queue (.sched .waitBlocking)) rest) others ∧
      others .cpu = lists .cpu ∧ others .hand = [] := by
  obtain ⟨front, back, u, hNodes, hCond, ht⟩ :=
    Kernel.findBlockedFrom_some (h.placement.linked (.sched .waitBlocking)).1 hFind
  have hQuiet := Quiet.waitUnblockCond hCond
  obtain ⟨front', back', hSplit, hPlaced⟩ := h.placement.findBlockedProcess hHand
    (fun p u hCond => Quiet.waitUnblockCond hCond) rfl hFind
  have hFound := (h.quiet hQuiet).move hPlaced rfl rfl ?_ ?_
  · have hSame := Kernel.live_of_shape hQuiet.shape
    have hLive : t.Live = s.Live := by
      rw [ht]
      exact hSame
    refine ⟨_, _, ?_, hFound.scheduleProcess (Or.inr rfl) move_target,
      ⟨(Calm.move_from rfl _ _).trans (.move rfl rfl _ _),
        (hFound.live_scheduleProcess (a := .hand) (by simp)).trans hLive⟩, ?_, move_source (by simp)⟩
    · rw [hSplit]
      exact List.perm_middle
    · rw [move_other (by simp) (by simp), move_other (by simp) (by simp)]
  · rw [ht]
    rfl
  · rw [ht]

/-- A turn of `wake_sleepers`. -/
theorem wakeSleeper {shrinkOk : Bool} (h : Inv s lists claim) (hHand : lists .hand = [])
    (hRemove : s.removeFromHeap shrinkOk = (t, some x)) :
    ∃ rest others, (lists .sleeping).Perm (x :: rest) ∧
      Inv ((t.enqueProcess .main x).emit (.ready x)) others claim ∧
      Frame s ((t.enqueProcess .main x).emit (.ready x)) (Function.update lists .sleeping rest) others ∧
      others .cpu = lists .cpu ∧ others .hand = [] := by
  obtain ⟨hPerm, hSame⟩ := Kernel.perm_removeFromHeap hRemove
  have hSleeping : lists .sleeping = s.sleepers.arr.toList := h.placement.sleeping
  have hTaken := h.move (h.placement.removeFromHeap hHand hRemove) rfl rfl ?_ ?_
  · have hReady := hTaken.move (hTaken.placement.ready (Or.inr rfl) move_target) rfl rfl rfl rfl
    have hLive : t.Live = s.Live := by
      rw [hSame]
      rfl
    refine ⟨_, _, hSleeping ▸ hPerm, hReady,
      ⟨(Calm.move_from rfl _ _).trans (.move rfl rfl _ _), hLive⟩, ?_, move_source (by simp)⟩
    rw [move_other (by simp) (by simp), move_other (by simp) (by simp)]
  · rw [hSame]
    rfl
  · rw [hSame]

end Waiting

end Inv
end Yalnix
