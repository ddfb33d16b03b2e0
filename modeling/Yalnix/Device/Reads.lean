import Yalnix.Device.Terminal
import Yalnix.Device.Input
import Yalnix.Process.Waiting

/-! The kernel's terminals behave as their input sides say, so received lines
are read once and in order. -/
namespace Yalnix

open Hardware IntrusiveQueue Apart

/-- A line that terminal `id` has received. -/
def Event.receivedOn (id : Nat) : Event → Option (List Byte)
  | .ttyReceived k line => if k = id then some line else none
  | _ => none

/-- The bytes of a read on terminal `id`. -/
def Event.readOn (id : Nat) : Event → Option (List Byte)
  | .ttyRead k _ _ bytes => if k = id then some bytes else none
  | _ => none

/-- The received lines, that is their headers, contents and links, and what was
received and read. -/
structure LineView where
  rx : Nat → Ends Nat
  lines : Nat → RxLine
  lineNext : Nat → Option Nat
  numLines : Nat
  received : Nat → List (List Byte)
  reads : Nat → List (List Byte)

namespace Kernel

def lineView (s : Kernel) : LineView :=
  ⟨fun id => (s.ttys id).rx, s.lines, s.lineNext, s.numLines,
    fun id => s.trace.filterMap (Event.receivedOn id), fun id => s.trace.filterMap (Event.readOn id)⟩

/-- The lines a terminal has buffered, by following the links. -/
def buffered (s : Kernel) (id : Nat) : List Nat := walk s.lineNext s.numLines (s.ttys id).rx.first

/-- The input side of terminal `id`, when `readers` wait for it and `nodes` are
its lines. -/
def inputOf (s : Kernel) (id : Nat) (readers : List Proc) (nodes : List Nat) : Input where
  readers := readers
  inside := (Finset.range s.numPcbs).filter fun p => s.Inside p (.ttyRead id)
  lines := nodes.map s.lines
  received := s.trace.filterMap (Event.receivedOn id)
  reads := s.trace.filterMap (Event.readOn id)

/-- The input side of terminal `id`. -/
def input (s : Kernel) (id : Nat) : Input :=
  s.inputOf id (s.contents (.queue (.reader id))) (s.buffered id)

/-- The lists of lines the headers and links stand for. -/
structure Lines (s : Kernel) (nodes : Nat → List Nat) : Prop where
  placed : Placed nodes
  linked : Linked s.lineNext (fun id => (s.ttys id).rx) nodes
  bound : ∀ id, ∀ n ∈ nodes id, n < s.numLines

variable {s t : Kernel} {id k : Nat} {p : Proc} {readers : List Proc} {nodes : Nat → List Nat}

theorem Lines.buffered_eq (h : s.Lines nodes) (id : Nat) : s.buffered id = nodes id := by
  refine (h.linked id).1.walk_eq ?_
  have hRange : nodes id ⊆ List.range s.numLines := fun n hn => List.mem_range.mpr (h.bound id n hn)
  simpa using ((h.placed.nodup id).subperm hRange).length_le

theorem Lines.of_view (h : s.Lines nodes) (hView : t.lineView = s.lineView) : t.Lines nodes := by
  simp only [lineView, LineView.mk.injEq] at hView
  obtain ⟨hRx, -, hNext, hNum, -⟩ := hView
  refine ⟨h.placed, ?_, hNum ▸ h.bound⟩
  rw [hRx, hNext]
  exact h.linked

theorem buffered_of_view (hView : t.lineView = s.lineView) : t.buffered id = s.buffered id := by
  simp only [lineView, LineView.mk.injEq] at hView
  obtain ⟨hRx, -, hNext, hNum, -⟩ := hView
  rw [buffered, buffered, hNext, hNum, congrFun hRx id]

/-- The history of the input side is part of that of the terminals. -/
theorem lineView_of_ttyView (h : t.ttyView = s.ttyView) : t.lineView = s.lineView := by
  have hHistory (f : Event → Option (List Byte)) (hf : ∀ e, e.isTty = false → f e = none) (u : Kernel) :
      u.trace.filterMap f = u.ttyView.log.filterMap f := by
    rw [ttyView, List.filterMap_filter]
    refine List.filterMap_congr fun e _ => ?_
    split_ifs with he
    · rfl
    · exact hf e (Bool.eq_false_iff.mpr he)
  have hReceived (id : Nat) := hHistory (Event.receivedOn id) (by intro e he; cases e <;> first | rfl | cases he)
  have hReads (id : Nat) := hHistory (Event.readOn id) (by intro e he; cases e <;> first | rfl | cases he)
  simp only [lineView, hReceived, hReads, h]
  simp only [ttyView, TtyView.mk.injEq] at h
  obtain ⟨hTtys, hLines, hNext, hNum, -⟩ := h
  simp only [hTtys, hLines, hNext, hNum]

/-- Events of the output side are no part of it. -/
theorem lineView_emit {e : Event} (hReceived : ∀ id, e.receivedOn id = none)
    (hRead : ∀ id, e.readOn id = none) : (s.emit e).lineView = s.lineView := by
  simp [lineView, emit, hReceived, hRead]

theorem mem_inside {nodes : List Nat} :
    p ∈ (s.inputOf id readers nodes).inside ↔ s.Inside p (.ttyRead id) := by
  simp only [inputOf, Finset.mem_filter, Finset.mem_range, and_iff_right_iff_imp]
  exact fun hInside => hInside.1.2.1

/-- The input side of a terminal depends on the calls on it and its lines. -/
theorem input_congr (hReaders : t.contents (.queue (.reader id)) = s.contents (.queue (.reader id)))
    (hInside : ∀ p, t.Inside p (.ttyRead id) ↔ s.Inside p (.ttyRead id))
    (hView : t.lineView = s.lineView) : t.input id = s.input id := by
  have hFinset : (t.inputOf id (t.contents (.queue (.reader id))) (t.buffered id)).inside =
      (s.inputOf id (s.contents (.queue (.reader id))) (s.buffered id)).inside := by
    ext p
    rw [mem_inside, mem_inside, hInside]
  have hLines : t.lines = s.lines := congrArg LineView.lines hView
  refine Input.ext hReaders hFinset ?_ (congrArg (LineView.received · id) hView)
    (congrArg (LineView.reads · id) hView)
  have hNodes : t.buffered id = s.buffered id := buffered_of_view hView
  exact congrArg₂ (fun lines nodes => List.map lines nodes) hLines hNodes

/-- An effect elsewhere leaves the input side as it is. -/
theorem input_bystander (h : Bystander s t) : t.input id = s.input id :=
  input_congr (h.queues _ rfl) (fun p => h.inside p _ rfl) (lineView_of_ttyView h.same.1)

section Lines

variable {line : List Byte}

/-- A line is appended with the links of a queue. -/
theorem appendLine_lineView (h : s.Lines nodes) (id : Nat) (line : List Byte) :
    (s.appendLine id line).lineView =
      ⟨Function.update (fun k => (s.ttys k).rx) id (push s.lineNext (s.ttys id).rx s.numLines).2,
        Function.update s.lines s.numLines ⟨line, 0⟩, (push s.lineNext (s.ttys id).rx s.numLines).1,
        s.numLines + 1, Function.update s.lineView.received id (s.lineView.received id ++ [line]),
        s.lineView.reads⟩ := by
  have hRx (rx : Ends Nat) : (fun k => (Function.update s.ttys id { s.ttys id with rx := rx } k).rx) =
      Function.update (fun k => (s.ttys k).rx) id rx := by
    funext k
    by_cases hk : k = id
    · subst hk
      simp
    · rw [Function.update_of_ne hk, Function.update_of_ne hk]
  have hReceived (trace : List Event) :
      (fun k => (trace ++ [Event.ttyReceived id line]).filterMap (Event.receivedOn k)) =
      Function.update (fun k => trace.filterMap (Event.receivedOn k)) id
        (trace.filterMap (Event.receivedOn id) ++ [line]) := by
    funext k
    by_cases hk : k = id
    · subst hk
      simp [Event.receivedOn]
    · simp [Event.receivedOn, hk, Ne.symm hk]
  have hReads (trace : List Event) (k : Nat) :
      (trace ++ [Event.ttyReceived id line]).filterMap (Event.readOn k) = trace.filterMap (Event.readOn k) := by
    simp [Event.readOn]
  unfold appendLine push
  cases hLast : (s.ttys id).rx.last with
  | none => simp only [lineView, emit, setTty, hRx, hLast, hReceived, hReads]
  | some tail =>
      -- the last line is older than the new one, so the two links do not collide
      have hMem : tail ∈ nodes id := by
        have hTail := (h.linked id).2
        rw [hLast] at hTail
        exact List.mem_of_getLast? hTail.symm
      have hNe : tail ≠ s.numLines := Nat.ne_of_lt (h.bound id tail hMem)
      simp only [lineView, emit, setTty, hRx, hLast, hReceived, hReads]
      rw [Function.update_comm hNe]

theorem Lines.appendLine (h : s.Lines nodes) (id : Nat) (line : List Byte) :
    (s.appendLine id line).Lines (Function.update nodes id (nodes id ++ [s.numLines])) := by
  have hView := appendLine_lineView h id line
  have hFresh (k : Nat) : s.numLines ∉ nodes k := fun hMem => Nat.lt_irrefl _ (h.bound k _ hMem)
  simp only [lineView, LineView.mk.injEq] at hView
  obtain ⟨hRx, -, hNext, hNum, -⟩ := hView
  refine ⟨h.placed.add hFresh List.perm_append_comm, ?_, fun k n hn => ?_⟩
  · rw [hRx, hNext]
    exact h.linked.push h.placed hFresh
  · rw [hNum]
    by_cases hk : k = id
    · subst hk
      rw [Function.update_self, List.mem_append, List.mem_singleton] at hn
      rcases hn with hn | rfl
      · exact Nat.lt_succ_of_lt (h.bound k n hn)
      · exact Nat.lt_succ_self _
    · rw [Function.update_of_ne hk] at hn
      exact Nat.lt_succ_of_lt (h.bound k n hn)

/-- The contents of the older lines stay. -/
theorem lines_appendLine (h : s.Lines nodes) (id k : Nat) (line : List Byte) :
    (nodes k).map (s.appendLine id line).lines = (nodes k).map s.lines := by
  have hLines : (s.appendLine id line).lines = Function.update s.lines s.numLines ⟨line, 0⟩ :=
    congrArg LineView.lines (appendLine_lineView h id line)
  refine List.map_congr_left fun n hn => ?_
  rw [hLines, Function.update_of_ne (Nat.ne_of_lt (h.bound k n hn))]

/-- `line->off += n`. -/
def advanceLine (s : Kernel) (node len : Nat) : Kernel :=
  { s with
    lines := Function.update s.lines node
      ⟨(s.lines node).buf, (s.lines node).off + (s.lines node).taken len⟩ }

/-- A read that uses up the first line. -/
theorem consume_usedUp {node len : Nat} (hFirst : (s.ttys id).rx.first = some node)
    (hUsed : (s.lines node).usedUp len) :
    s.consume id len = ((s.advanceLine node len).setTty id
          { s.ttys id with rx := ⟨s.lineNext node,
            if s.lineNext node = none then none else (s.ttys id).rx.last⟩ },
      (s.lines node).rest.take ((s.lines node).taken len)) := by
  rw [Kernel.consume, hFirst]
  exact if_pos hUsed

/-- A read that leaves a part of the first line. -/
theorem consume_part {node len : Nat} (hFirst : (s.ttys id).rx.first = some node)
    (hPart : ¬(s.lines node).usedUp len) :
    s.consume id len = (s.advanceLine node len,
      (s.lines node).rest.take ((s.lines node).taken len)) := by
  rw [Kernel.consume, hFirst]
  exact if_neg hPart

/-- What a read leaves of the lines: its own terminal loses the first line or
a part of it. -/
theorem Lines.consume (h : s.Lines nodes) (id len : Nat) :
    ∃ rest, (s.consume id len).1.Lines (Function.update nodes id rest) ∧
      rest.map (s.consume id len).1.lines = (Input.consume ((nodes id).map s.lines) len).1 ∧
      (s.consume id len).2 = (Input.consume ((nodes id).map s.lines) len).2 ∧
      ∀ k, k ≠ id → (nodes k).map (s.consume id len).1.lines = (nodes k).map s.lines := by
  have hQueue := h.linked id
  cases hNodes : nodes id with
  | nil =>
      rw [hNodes] at hQueue
      have hFirst : (s.ttys id).rx.first = none := hQueue.1
      have hNone : s.consume id len = (s, []) := by rw [Kernel.consume, hFirst]
      have hSame : Function.update nodes id [] = nodes := by rw [← hNodes, Function.update_eq_self]
      refine ⟨[], ?_⟩
      rw [hNone, hSame]
      exact ⟨h, rfl, rfl, fun _ _ => rfl⟩
  | cons node rest =>
      rw [hNodes] at hQueue
      have hFirst : (s.ttys id).rx.first = some node := hQueue.1.1
      have hNodup : (node :: rest).Nodup := hNodes ▸ h.placed.nodup id
      have hRest {line : RxLine} : rest.map (Function.update s.lines node line) = rest.map s.lines := by
        refine List.map_congr_left fun n hn => Function.update_of_ne ?_ _ _
        rintro rfl
        exact (List.nodup_cons.mp hNodup).1 hn
      have hOther {line : RxLine} (k : Nat) (hk : k ≠ id) :
          (nodes k).map (Function.update s.lines node line) = (nodes k).map s.lines := by
        refine List.map_congr_left fun n hn => Function.update_of_ne ?_ _ _
        rintro rfl
        exact hk (h.placed.unique hn (by simp [hNodes]))
      rw [List.map_cons, Input.consume_cons]
      by_cases hUsed : (s.lines node).usedUp len
      · rw [consume_usedUp hFirst hUsed, if_pos hUsed]
        refine ⟨rest, ⟨?_, fun k => ?_, fun k n hn => ?_⟩, hRest, rfl, hOther⟩
        · exact (h.placed.remove (x := node) (hNodes ▸ List.Perm.refl _)).1
        · by_cases hk : k = id
          · subst hk
            simpa [setTty, advanceLine] using hQueue.advance
          · simpa [setTty, advanceLine, Function.update_of_ne hk] using h.linked k
        · by_cases hk : k = id
          · subst hk
            rw [Function.update_self] at hn
            exact h.bound k n (by simp [hNodes, hn])
          · rw [Function.update_of_ne hk] at hn
            exact h.bound k n hn
      · rw [consume_part hFirst hUsed, if_neg hUsed]
        refine ⟨node :: rest, ?_, ?_, rfl, hOther⟩
        · rw [← hNodes, Function.update_eq_self]
          exact ⟨h.placed, h.linked, h.bound⟩
        · simp only [advanceLine, List.map_cons, hRest, Function.update_self]

end Lines

section Effects

theorem lineView_of_devices (h : t.devices = s.devices) : t.lineView = s.lineView :=
  lineView_of_ttyView (ttyView_of_devices (f := s.devices.transfer) h)

/-- A change of a terminal that keeps its lines. -/
theorem lineView_setTty (tty : Tty) (h : tty.rx = (s.ttys id).rx) :
    (s.setTty id tty).lineView = s.lineView := by
  have hRx : (fun k => (Function.update s.ttys id tty k).rx) = fun k => (s.ttys k).rx := by
    funext k
    by_cases hk : k = id
    · subst hk
      simp [h]
    · rw [Function.update_of_ne hk]
  simp only [lineView, setTty, hRx]

variable [Hardware]

theorem lineView_startChunk (s : Kernel) (id : Nat) : (s.startChunk id).lineView = s.lineView := by
  unfold startChunk
  split
  · rfl
  · rw [lineView_emit (fun _ => rfl) fun _ => rfl]
    exact lineView_setTty _ (by rfl)

theorem lineView_ttyWriteBlock (s : Kernel) (id : Nat) (bytes : List Byte) :
    (s.ttyWriteBlock id bytes).lineView = s.lineView := by
  have hRecord : (s.ttyRecord id bytes).lineView = s.lineView :=
    lineView_emit (fun _ => rfl) fun _ => rfl
  unfold ttyWriteBlock
  dsimp only
  split
  · refine Eq.trans ?_ hRecord
    exact (lineView_startChunk _ id).trans (lineView_setTty _ (by rfl))
  · refine Eq.trans ?_ hRecord
    exact lineView_setTty (s := (s.ttyRecord id bytes).setNext _) _ (by rfl)

theorem lineView_ttyHandOver (s : Kernel) (id : Nat) : (s.ttyHandOver id).lineView = s.lineView := by
  have hPop : (s.wqPop id).1.lineView = s.lineView := by
    unfold wqPop
    split
    · rfl
    · exact lineView_setTty (s := s.setNext _) _ (by rfl)
  unfold ttyHandOver
  split <;> rename_i u hNext <;> rw [hNext] at hPop
  · exact hPop
  · refine Eq.trans ?_ hPop
    exact (lineView_startChunk _ id).trans (lineView_setTty _ (by rfl))

theorem lineView_ttyTransmitDone (s : Kernel) (ttyId : Int) :
    (s.ttyTransmitDone ttyId).lineView = s.lineView := by
  unfold ttyTransmitDone
  dsimp only
  split_ifs
  · rfl
  have hTrap : (s.emit (.ttyTransmitTrap ttyId.toNat)).lineView = s.lineView :=
    lineView_emit (fun _ => rfl) fun _ => rfl
  split
  · exact hTrap
  rename_i owner hOwner
  have hDone : ((s.emit (.ttyTransmitTrap ttyId.toNat)).ttyChunkDone ttyId.toNat owner).lineView =
      s.lineView :=
    (lineView_setTty (s := (s.emit _).modifyPcb owner _) _ (by rfl)).trans hTrap
  split_ifs
  · exact (lineView_startChunk _ _).trans hDone
  · refine ((lineView_ttyHandOver _ _).trans ?_).trans hDone
    rw [lineView_of_devices (devices_of_outside (outside_scheduleProcess _ _)),
      lineView_emit (fun _ => rfl) fun _ => rfl]
    exact lineView_setTty _ (by rfl)

omit [Hardware] in
theorem lineView_ttyReadBlock (s : Kernel) (k : Nat) (buf : Word) (len : Nat) :
    (s.ttyReadBlock k buf len).lineView = s.lineView :=
  lineView_setTty (s := (s.modifyPcb s.runningProc _).setNext _) _ (by rfl)

/-- A process blocks in a read on terminal `k`. -/
theorem input_readBlock {u : Kernel} {buf : Word} {len : Nat} (h : KernelStart.Sound s)
    (hUser : s.inUser) (hQuiet : Quiet (s.ttyReadBlock k buf len) u) (id : Nat) :
    (u.switchAway (.ttyRead k)).input id =
      if id = k then (s.input id).block s.runningProc else s.input id := by
  have hFrame := h.readBlock hUser hQuiet
  have hView : (u.switchAway (.ttyRead k)).lineView = s.lineView :=
    (lineView_of_devices ((devices_switchAway u _).trans (devices_of_outside hQuiet.outside))).trans
      (lineView_ttyReadBlock s k buf len)
  have hReaders := hFrame.tty (.queue (.reader id)) rfl
  have hInside (p : Proc) : (u.switchAway (.ttyRead k)).Inside p (.ttyRead id) ↔
      s.Inside p (.ttyRead id) ∨ p = s.runningProc ∧ KernelContext.ttyRead k = .ttyRead id :=
    h.inside_readBlock hUser hQuiet
  split_ifs with hk
  · subst hk
    rw [Function.update_self] at hReaders
    have hLines : (u.switchAway (.ttyRead id)).lines = s.lines := congrArg LineView.lines hView
    refine Input.ext hReaders ?_ ?_ (congrArg (LineView.received · id) hView)
      (congrArg (LineView.reads · id) hView)
    · ext p
      rw [input, mem_inside, hInside, Input.block, Finset.mem_insert, input, mem_inside, or_comm]
      simp
    · exact congrArg₂ (fun lines nodes => List.map lines nodes) hLines (buffered_of_view hView)
  · rw [Function.update_of_ne (by simpa using hk)] at hReaders
    refine input_congr hReaders (fun p => ?_) hView
    rw [hInside, or_iff_left]
    rintro ⟨-, hSame⟩
    exact hk (KernelContext.ttyRead.inj hSame).symm

/-- A process that blocks in a write changes no input side. -/
theorem input_writeBlock {u : Kernel} {bytes : List Byte} (h : KernelStart.Sound s)
    (hUser : s.inUser) (hQuiet : Quiet (s.ttyWriteBlock k bytes) u) (id : Nat) :
    (u.switchAway (.ttyWrite k)).lineView = s.lineView ∧
      (u.switchAway (.ttyWrite k)).input id = s.input id := by
  have hView : (u.switchAway (.ttyWrite k)).lineView = s.lineView :=
    (lineView_of_devices ((devices_switchAway u _).trans (devices_of_outside hQuiet.outside))).trans
      (lineView_ttyWriteBlock s k bytes)
  refine ⟨hView, input_congr ?_ (fun p => ?_) hView⟩
  · rw [(h.writeBlock hUser hQuiet).tty _ rfl]
    split_ifs
    · rw [Function.update_of_ne (by simp)]
    · rw [Function.update_of_ne (by simp)]
  · rw [h.inside_writeBlock hUser hQuiet, or_iff_left (by simp)]

theorem input_ttyTransmitDone (h : KernelStart.Sound s) (ttyId : Int) (id : Nat) :
    (s.ttyTransmitDone ttyId).input id = s.input id := by
  obtain ⟨base, hBase, hFrame⟩ := h.transmit ttyId
  refine input_congr ?_ (fun p => inside_iff_of_cpu (cpu_ttyTransmitDone s ttyId) hFrame.live)
    (lineView_ttyTransmitDone s ttyId)
  rw [hFrame.tty _ rfl]
  rcases hBase with rfl | rfl
  · rfl
  · rw [Inv.handOver, Function.update_of_ne (by simp), Function.update_of_ne (by simp)]

omit [Hardware] in
theorem input_eq (h : s.Lines nodes) (id : Nat) :
    s.input id = s.inputOf id (s.contents (.queue (.reader id))) (nodes id) := by
  rw [input, h.buffered_eq]

omit [Hardware] in
theorem lineView_ttyDeliver (s : Kernel) (k : Nat) (line : List Byte) :
    (s.ttyDeliver k line).lineView = (s.appendLine k line).lineView := by
  rw [lineView_of_devices (devices_of_outside (outside_ttyDeliver s k line))]
  unfold rqPop
  split
  · rfl
  · exact lineView_setTty (s := (s.appendLine k line).setNext _) _ (by rfl)

/-- A line is received on terminal `k`. -/
theorem input_ttyDeliver (h : KernelStart.Sound s) (hLines : s.Lines nodes) (k : Nat) (line : List Byte) :
    (s.ttyDeliver k line).Lines (Function.update nodes k (nodes k ++ [s.numLines])) ∧
      ∀ id, (s.ttyDeliver k line).input id =
        if id = k then (s.input id).deliver line else s.input id := by
  have hView := lineView_ttyDeliver s k line
  have hNext := (hLines.appendLine k line).of_view hView
  refine ⟨hNext, fun id => ?_⟩
  rw [appendLine_lineView hLines] at hView
  have hSame : (s.ttyDeliver k line).lines = (s.appendLine k line).lines :=
    congrArg LineView.lines (lineView_ttyDeliver s k line)
  have hFrame := h.deliver k line
  have hReaders := hFrame.tty (.queue (.reader id)) rfl
  have hReceived := congrArg (LineView.received · id) hView
  have hReads := congrArg (LineView.reads · id) hView
  have hInside : ((s.ttyDeliver k line).input id).inside = (s.input id).inside := by
    ext p
    rw [input, mem_inside, input, mem_inside,
      inside_iff_of_cpu (cpu_ttyDeliver s k line) hFrame.live]
  split_ifs with hk
  · subst hk
    rw [Function.update_self] at hReaders
    refine Input.ext hReaders hInside ?_ ?_ hReads
    · rw [input_eq hNext, Input.deliver, input_eq hLines]
      simp only [inputOf, Function.update_self, List.map_append, hSame, lines_appendLine hLines]
      have hLine : (s.appendLine id line).lines s.numLines = ⟨line, 0⟩ := by
        have hAll := congrArg LineView.lines (appendLine_lineView hLines id line)
        exact (congrFun hAll s.numLines).trans (Function.update_self _ _ _)
      simp [hLine]
    · exact hReceived.trans (Function.update_self _ _ _)
  · rw [Function.update_of_ne (by simpa using hk)] at hReaders
    refine Input.ext hReaders hInside ?_ (hReceived.trans (Function.update_of_ne hk _ _)) hReads
    rw [input_eq hNext, input_eq hLines]
    simp only [inputOf, Function.update_of_ne hk, hSame, lines_appendLine hLines]

/-- A write that returns changes no input side. -/
theorem input_ttyWriteReturn (h : KernelStart.Sound s)
    (hKc : (s.pcb s.runningProc).kc = some (.ttyWrite k)) (id : Nat) :
    ({ s with mode := .user }.ttyWriteReturn k).lineView = s.lineView ∧
      ({ s with mode := .user }.ttyWriteReturn k).input id = s.input id := by
  have hFrame := h.returned k
  have hView : ({ s with mode := .user }.ttyWriteReturn k).lineView = s.lineView :=
    lineView_emit (fun _ => rfl) fun _ => rfl
  refine ⟨hView, input_congr (hFrame.tty _ rfl) (fun p => ?_) hView⟩
  rw [inside_iff_of_cpu (s := { s with mode := .user }) (cpu_ttyWriteReturn _ k) hFrame.live, inside_user,
    and_iff_right_iff_imp]
  rintro hInside rfl
  cases hInside.2.1.symm.trans hKc

/-- A read on terminal `k`. -/
theorem input_read (h : KernelStart.Sound s) (hLines : s.Lines nodes) (k len : Nat) :
    (∃ nodes, (s.read k len).Lines nodes) ∧
      ∀ id, (s.read k len).input id = if id = k then (s.input id).read len else s.input id := by
  obtain ⟨rest, hRest, hFirst, hBytes, hOther⟩ := hLines.consume k len
  obtain ⟨lines, rx, hConsumed⟩ := consume_eq s k len
  have hNext : (s.read k len).Lines (Function.update nodes k rest) :=
    ⟨hRest.placed, hRest.linked, hRest.bound⟩
  refine ⟨⟨_, hNext⟩, fun id => ?_⟩
  have hTrace : (s.read k len).trace = s.trace ++ [.ttyRead k s.runningProc len (s.consume k len).2] := by
    rw [Kernel.read, hConsumed]
    rfl
  have hLive : (s.read k len).Live = s.Live := by
    rw [Kernel.read, hConsumed]
    rfl
  have hInside : ((s.read k len).input id).inside = (s.input id).inside := by
    ext p
    rw [input, mem_inside, input, mem_inside, inside_iff_of_cpu (by simp [Kernel.read]) hLive]
  have hReaders : ((s.read k len).input id).readers = (s.input id).readers :=
    congrFun (contents_read h k len) (.queue (.reader id))
  have hContents : (s.read k len).lines = (s.consume k len).1.lines := rfl
  have hReceived : ((s.read k len).input id).received = (s.input id).received := by
    simp [input, inputOf, hTrace, Event.receivedOn]
  split_ifs with hk
  · subst hk
    refine Input.ext hReaders hInside ?_ hReceived ?_
    · rw [input_eq hNext, Input.read, input_eq hLines]
      simpa only [inputOf, Function.update_self, hContents] using hFirst
    · rw [Input.read, input_eq hLines]
      simp [input, inputOf, hTrace, Event.readOn, hBytes]
  · refine Input.ext hReaders hInside ?_ hReceived ?_
    · rw [input_eq hNext, input_eq hLines]
      simpa only [inputOf, Function.update_of_ne hk, hContents] using hOther id hk
    · simp [input, inputOf, hTrace, Event.readOn, Ne.symm hk]

omit [Hardware] in
/-- A woken reader continues: it is no longer inside its call. -/
theorem input_user (hKc : (s.pcb s.runningProc).kc = some (.ttyRead k)) (id : Nat) :
    ({ s with mode := .user } : Kernel).input id =
      if id = k then { s.input id with inside := (s.input id).inside.erase s.runningProc }
      else s.input id := by
  have hInside (p : Proc) : p ∈ (({ s with mode := .user } : Kernel).input id).inside ↔
      p ≠ s.runningProc ∧ p ∈ (s.input id).inside := by
    rw [input, mem_inside, inside_user, input, mem_inside]
  split_ifs with hk
  · refine Input.ext rfl ?_ rfl rfl rfl
    ext p
    rw [hInside, Finset.mem_erase]
  · refine Input.ext rfl ?_ rfl rfl rfl
    ext p
    rw [hInside, and_iff_right_iff_imp, input, mem_inside]
    rintro hp rfl
    exact hk (KernelContext.ttyRead.inj (Option.some.inj (hp.2.1.symm.trans hKc)))

/-- Every effect is an arrival on an input side, or nothing happens on it. -/
theorem input_effect {label : Label} (h : KernelStart.Sound s) (hLines : ∃ nodes, s.Lines nodes) (hEffect : Effect label s t) :
    (∃ nodes, t.Lines nodes) ∧
      ∀ id, t.input id = s.input id ∨ Input.Arrival (s.input id) (t.input id) := by
  obtain ⟨nodes, hLines⟩ := hLines
  rcases h.bystander hEffect with hTty | hBystander
  · cases hTty with
    | @readBlock u k len buf hUser hId hEmpty hLen hQuiet =>
        have hView := (lineView_of_devices ((devices_switchAway u (.ttyRead k)).trans
          (devices_of_outside hQuiet.outside))).trans (lineView_ttyReadBlock s k buf len)
        refine ⟨⟨nodes, hLines.of_view hView⟩, fun id => ?_⟩
        rw [input_readBlock h hUser hQuiet id]
        split_ifs with hk
        · subst hk
          refine Or.inr (.block ?_ ?_)
          · rw [input, mem_inside]
            exact not_inside_running hUser.1
          · simp [input, inputOf, buffered, hEmpty]
        · exact Or.inl rfl
    | @writeBlock u k bytes hUser hId hBytes hShort hQuiet =>
        have hSame := input_writeBlock h hUser hQuiet
        exact ⟨⟨nodes, hLines.of_view (hSame 0).1⟩, fun id => Or.inl (hSame id).2⟩
    | @transmitted ttyId =>
        exact ⟨⟨nodes, hLines.of_view (lineView_ttyTransmitDone s ttyId)⟩,
          fun id => Or.inl (input_ttyTransmitDone h ttyId id)⟩
    | @received ttyId line lineOk =>
        unfold ttyReceiveDone
        split_ifs
        · exact ⟨⟨nodes, hLines⟩, fun _ => Or.inl rfl⟩
        · exact ⟨⟨nodes, hLines⟩, fun _ => Or.inl rfl⟩
        obtain ⟨hNext, hInput⟩ := input_ttyDeliver h hLines ttyId.toNat line
        refine ⟨⟨_, hNext⟩, fun id => ?_⟩
        rw [hInput id]
        split_ifs
        · exact Or.inr (.deliver line)
        · exact Or.inl rfl
    | @written k hMode hKc =>
        have hSame := input_ttyWriteReturn h hKc
        exact ⟨⟨nodes, hLines.of_view (hSame 0).1⟩, fun id => Or.inl (hSame id).2⟩
  · exact ⟨⟨nodes, hLines.of_view (lineView_of_ttyView hBystander.same.1)⟩,
      fun id => Or.inl (input_bystander hBystander)⟩

end Effects

end Kernel
end Yalnix
