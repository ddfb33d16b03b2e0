import Yalnix.Memory.Contexts
import Yalnix.Sample

/-! `KernelExec`: what it reads of the caller's memory before the caller is replaced,
and what it leaves of a caller that is not replaced. -/
namespace Yalnix

open Hardware Transition

section

variable [Hardware]

namespace LoadProgram

variable {m : Memory} {uc : UserContext} {file : File} {args : List (List Byte)} {argsOk : Bool} {li : LoadInfo}
  {text data : List Byte} {loaded : Outcome}

/-- The executable passes all checks, and then no memory is left for the arguments. -/
structure Unbuffered (file : File) (args : List (List Byte)) (argsOk : Bool) (li : LoadInfo) (text data : List Byte) :
    Prop where
  file_eq : file = .image li text data
  entry : vmem1Base ≤ li.entry.toInt
  room : (layout li args).stackNpg + (layout li args).dataPg1 + (layout li args).dataNpg < maxPtLen
  buffer : argsOk = false

/-- When the arguments cannot be saved, the new stack pointer happens to be the old one. -/
def KeepsStack (uc : UserContext) (file : File) (args : List (List Byte)) (argsOk : Bool) : Prop :=
  ∀ li text data, Unbuffered file args argsOk li text data → BitVec.ofInt 32 (layout li args).sp = uc.sp

theorem keepsStack_early (h : ∀ li text data, ¬Unbuffered file args argsOk li text data) :
    KeepsStack uc file args argsOk := fun li text data hIs => absurd hIs (h li text data)

/-- The context after an `ERROR`. -/
theorem uc_loadProgram_error (h : loadProgram m uc file args argsOk = .ok loaded) (hResult : loaded.result = .error) :
    loaded.uc = uc ∧ (∀ li text data, ¬Unbuffered file args argsOk li text data) ∨
      ∃ li text data, Unbuffered file args argsOk li text data ∧
        loaded.uc = { uc with sp := BitVec.ofInt 32 (layout li args).sp } := by
  unfold loadProgram at h
  dsimp only at h
  split at h
  · obtain rfl := Except.ok.inj h
    exact Or.inl ⟨rfl, fun li text data hIs => by cases hIs.file_eq⟩
  · obtain rfl := Except.ok.inj h
    exact Or.inl ⟨rfl, fun li text data hIs => by cases hIs.file_eq⟩
  · rename_i li text data
    split_ifs at h with hEntry hRoom hArgs
    · obtain rfl := Except.ok.inj h
      refine Or.inl ⟨rfl, fun li' text' data' hIs => ?_⟩
      obtain ⟨rfl, rfl, rfl⟩ := File.image.inj hIs.file_eq
      exact absurd hIs.entry (not_le.mpr hEntry)
    · obtain rfl := Except.ok.inj h
      refine Or.inl ⟨rfl, fun li' text' data' hIs => ?_⟩
      obtain ⟨rfl, rfl, rfl⟩ := File.image.inj hIs.file_eq
      exact absurd hIs.room (not_lt.mpr hRoom)
    · obtain rfl := Except.ok.inj h
      exact Or.inr ⟨li, text, data, ⟨rfl, not_lt.mp hEntry, not_le.mp hRoom, hArgs⟩, rfl⟩
    · split at h
      · split at h
        · obtain rfl := Except.ok.inj h
          cases hResult
        · split at h
          · obtain rfl := Except.ok.inj h
            cases hResult
          · obtain ⟨done, -, h⟩ := bind_eq_ok.mp h
            obtain rfl := Except.ok.inj h
            cases hResult
      · obtain rfl := Except.ok.inj h
        cases hResult
      · obtain rfl := Except.ok.inj h
        cases hResult

/-- The context of a caller that gets `ERROR` is kept unless its stack pointer is lost. -/
theorem uc_kept_iff (h : loadProgram m uc file args argsOk = .ok loaded) (hResult : loaded.result = .error) :
    loaded.uc = uc ↔ KeepsStack uc file args argsOk := by
  rcases uc_loadProgram_error h hResult with ⟨hSame, hNone⟩ | ⟨li, text, data, hIs, hLost⟩
  · exact iff_of_true hSame (keepsStack_early hNone)
  · rw [hLost]
    constructor
    · intro hSame li' text' data' hIs'
      obtain ⟨rfl, rfl, rfl⟩ := File.image.inj (hIs.file_eq.symm.trans hIs'.file_eq)
      exact congrArg UserContext.sp hSame
    · intro hKeeps
      rw [hKeeps li text data hIs]

end LoadProgram

namespace Kernel

variable {s t : Kernel} {o : Outcomes} {args : List (List Byte)} {loaded : LoadProgram.Outcome}

/-- The caller of a failed `Exec` goes on with `ERROR`, and nothing else is new. -/
def ExecFailsCleanly (s t : Kernel) : Prop :=
  t.mem = s.mem ∧ (t.pcb s.runningProc).uc = (s.pcb s.runningProc).uc.result errorCode

/-- A failed `Exec` leaves the caller as it was exactly if it does not fail for want of
memory for the arguments, after the stack pointer of the new program is already set. -/
theorem exec_fails_cleanly_iff (hArgs : s.execArgs = .ok (some args))
    (hLoad : LoadProgram.loadProgram s.mem (s.pcb s.runningProc).uc o.file args (o.alloc 0) = .ok loaded)
    (hError : loaded.result = .error) (hExec : s.kernelExec o = .ok t) :
    s.ExecFailsCleanly t ↔ LoadProgram.KeepsStack (s.pcb s.runningProc).uc o.file args (o.alloc 0) := by
  have hMem := LoadProgram.mem_loadProgram_error hLoad hError
  have hReturn : t = ((s.setMem loaded.mem).modifyPcb s.runningProc fun p => { p with uc := loaded.uc }).ret errorCode := by
    unfold kernelExec at hExec
    simp only [hArgs, hLoad, hError, bind, Except.bind, pure, Except.pure] at hExec
    exact (Except.ok.inj hExec).symm
  have hContext : (t.pcb s.runningProc).uc = loaded.uc.result errorCode := by
    rw [hReturn]
    simp [ret, setResult, modifyPcb, setMem]
  rw [← LoadProgram.uc_kept_iff hLoad hError]
  unfold ExecFailsCleanly
  rw [hContext]
  constructor
  · rintro ⟨-, hSame⟩
    have hLost := LoadProgram.uc_loadProgram_error hLoad hError
    rcases hLost with ⟨hKept, -⟩ | ⟨li, text, data, -, hLost⟩
    · exact hKept
    · rw [hLost] at hSame ⊢
      have hSp := congrArg UserContext.sp hSame
      exact congrArg (fun sp => { (s.pcb s.runningProc).uc with sp := sp }) hSp
  · intro hKept
    refine ⟨?_, by rw [hKept]⟩
    rw [hReturn, ← hMem]
    rfl

/-- The addresses at which `check_c_string` reads a character. -/
def cStringReads (m : Memory) : Nat → Int → List Int
  | 0, _ => []
  | fuel + 1, addr =>
      match m.loadByte addr with
      | .error _ => []
      | .ok byte => addr :: if byte = 0 then [] else cStringReads m fuel (addr + 1)

/-- The bytes of a pointer. -/
def pointerReads (addr : Int) : List Int := [addr, addr + 1, addr + 2, addr + 3]

/-- The addresses at which `check_argv` reads a byte of a pointer. -/
def argvReads (m : Memory) : Nat → Int → List Int
  | 0, _ => []
  | fuel + 1, addr =>
      if m.hasPerms addr false = false then []
      else pointerReads addr ++
        match m.loadWord addr with
        | .error _ => []
        | .ok pointer => if pointer = 0 then [] else argvReads m fuel (addr + 4)

/-- The addresses read by a loop over the arguments and their characters. It ends at
the `NULL` pointer, or at a string that does not pass the check. -/
def stringReads (m : Memory) : Int → List Word → List Int
  | addr, [] => pointerReads addr
  | addr, pointer :: rest => pointerReads addr ++ cStringReads m maxStringLen pointer.toInt ++
      match checkCString m pointer with
      | none => []
      | some _ => stringReads m (addr + 4) rest

/-- The addresses of user memory that `KernelExec` and `LoadProgram` read. The loader
opens the file and goes over the arguments twice, to count and to save them. -/
def execReads (s : Kernel) : List Int :=
  let name := if s.reg 0 = 0 then [] else cStringReads s.mem maxStringLen (s.reg 0).toInt
  match checkCString s.mem (s.reg 0) with
  | none => name
  | some _ =>
      if s.reg 1 = 0 then name
      else
        let checked := name ++ argvReads s.mem maxArgvLen (s.reg 1).toInt
        match checkArgv s.mem (s.reg 1) with
        | .ok (some argv) =>
            let strings := stringReads s.mem (s.reg 1).toInt argv
            match argv.mapM (checkCString s.mem) with
            | none => checked ++ strings
            | some _ => checked ++ strings ++ name ++ strings ++ strings
        | _ => checked

/-- A pointer that `check_argv` gets to is readable as a whole if its first byte is. -/
def PointersWhole (m : Memory) (count : Nat) (argv : Int) : Prop :=
  ∀ i < count, (∀ j < i, ∃ pointer, m.loadWord (argv + 4 * j) = .ok pointer ∧ pointer ≠ 0) →
    m.hasPerms (argv + 4 * i) false = true → ∀ x ∈ pointerReads (argv + 4 * i), m.hasPerms x false = true

/-- Every byte is readable, or the call returns `ERROR`. -/
def ReadsOnlyReadable (s : Kernel) (o : Outcomes) : Prop :=
  (∀ addr ∈ s.execReads, s.mem.hasPerms addr false = true) ∧
    ∃ args, s.execArgs = .ok args ∧ (args = none → s.kernelExec o = .ok (s.ret errorCode))

section Reads

variable {m : Memory} {addr : Int}

theorem loadWord_isOk : (∃ pointer, m.loadWord addr = .ok pointer) ↔
    ∀ x ∈ pointerReads addr, m.hasPerms x false = true := by
  have hByte (x : Int) : (∃ byte, m.loadByte x = .ok byte) ↔ m.hasPerms x false = true := by
    unfold Memory.loadByte
    split_ifs with hPerms
    · exact iff_of_true ⟨_, rfl⟩ hPerms
    · simpa using hPerms
  simp only [pointerReads, List.forall_mem_cons, List.not_mem_nil, false_implies, implies_true, and_true, ← hByte]
  unfold Memory.loadWord
  constructor
  · rintro ⟨pointer, h⟩
    obtain ⟨b0, h0, h⟩ := bind_eq_ok.mp h
    obtain ⟨b1, h1, h⟩ := bind_eq_ok.mp h
    obtain ⟨b2, h2, h⟩ := bind_eq_ok.mp h
    obtain ⟨b3, h3, -⟩ := bind_eq_ok.mp h
    exact ⟨⟨b0, h0⟩, ⟨b1, h1⟩, ⟨b2, h2⟩, ⟨b3, h3⟩⟩
  · rintro ⟨⟨b0, h0⟩, ⟨b1, h1⟩, ⟨b2, h2⟩, ⟨b3, h3⟩⟩
    exact ⟨b3 ++ b2 ++ b1 ++ b0, by simp [h0, h1, h2, h3, bind, Except.bind, pure, Except.pure]⟩

/-- A character is read only after its address has passed the check. -/
theorem cStringReads_readable (fuel : Nat) {x : Int} (hx : x ∈ cStringReads m fuel addr) :
    m.hasPerms x false = true := by
  induction fuel generalizing addr with
  | zero => cases hx
  | succ fuel ih =>
      unfold cStringReads Memory.loadByte at hx
      split_ifs at hx with hPerms
      · dsimp only at hx
        rcases List.mem_cons.mp hx with rfl | hRest
        · exact hPerms
        · split_ifs at hRest
          · cases hRest
          · exact ih hRest
      · cases hx

theorem pointersWhole_succ {count : Nat} : PointersWhole m (count + 1) addr ↔
    (m.hasPerms addr false = true → ∀ x ∈ pointerReads addr, m.hasPerms x false = true) ∧
      ((∃ pointer, m.loadWord addr = .ok pointer ∧ pointer ≠ 0) → PointersWhole m count (addr + 4)) := by
  have hShift (i : Nat) : addr + 4 + 4 * (i : Int) = addr + 4 * ((i + 1 : Nat) : Int) := by
    push_cast
    omega
  have hFirst : addr + 4 * ((0 : Nat) : Int) = addr := by simp
  constructor
  · intro h
    refine ⟨fun hPerms => ?_, fun hNext i hi hBefore => ?_⟩
    · have hZero := h 0 count.succ_pos (fun j hj => absurd hj (Nat.not_lt_zero j))
      rw [hFirst] at hZero
      exact hZero hPerms
    · rw [hShift]
      refine h (i + 1) (Nat.succ_lt_succ hi) fun j hj => ?_
      cases j with
      | zero => rwa [hFirst]
      | succ j =>
          rw [← hShift]
          exact hBefore j (Nat.lt_of_succ_lt_succ hj)
  · rintro ⟨hZero, hRest⟩ i hi hBefore
    cases i with
    | zero => rwa [hFirst]
    | succ i =>
        have hNext := hBefore 0 i.succ_pos
        rw [hFirst] at hNext
        rw [← hShift]
        refine hRest hNext i (Nat.lt_of_succ_lt_succ hi) fun j hj => ?_
        rw [hShift]
        exact hBefore (j + 1) (Nat.succ_lt_succ hj)

theorem argvReads_readable_iff (count : Nat) :
    (∀ x ∈ argvReads m count addr, m.hasPerms x false = true) ↔ PointersWhole m count addr := by
  induction count generalizing addr with
  | zero => exact iff_of_true (fun x hx => by cases hx) fun i hi => absurd hi (Nat.not_lt_zero i)
  | succ count ih =>
      rw [pointersWhole_succ, argvReads]
      split_ifs with hPerms
      · refine iff_of_true (fun x hx => by cases hx) ⟨fun hFirst => ?_, fun ⟨pointer, hLoad, _⟩ => ?_⟩
        · rw [hPerms] at hFirst
          cases hFirst
        · have hFirst := loadWord_isOk.mp ⟨pointer, hLoad⟩ addr (by simp [pointerReads])
          rw [hPerms] at hFirst
          cases hFirst
      · rw [List.forall_mem_append]
        refine and_congr (by simp [hPerms]) ?_
        cases hLoad : m.loadWord addr with
        | error stop => simp
        | ok pointer =>
            by_cases hNull : pointer = 0
            · simp [hNull]
            · have hNext : ∃ word, (.ok pointer : Except Stop Word) = .ok word ∧ word ≠ 0 := ⟨pointer, rfl, hNull⟩
              dsimp only
              rw [if_neg hNull, ih, imp_iff_right hNext]

theorem argvFrom_ok {count : Nat} (h : PointersWhole m count addr) : ∃ argv, argvFrom m count addr = .ok argv := by
  induction count generalizing addr with
  | zero => exact ⟨none, rfl⟩
  | succ count ih =>
      obtain ⟨hFirst, hRest⟩ := pointersWhole_succ.mp h
      unfold argvFrom
      split_ifs with hPerms
      · exact ⟨none, rfl⟩
      · obtain ⟨pointer, hLoad⟩ := loadWord_isOk.mpr (hFirst (by simpa using hPerms))
        rw [hLoad]
        by_cases hNull : pointer = 0
        · exact ⟨some [], by simp [hNull, bind, Except.bind, pure, Except.pure]⟩
        · obtain ⟨argv, hArgv⟩ := ih (hRest ⟨pointer, hLoad, hNull⟩)
          refine ⟨argv.map (pointer :: ·), ?_⟩
          simp only [bind, Except.bind, if_neg hNull, hArgv]
          rfl

/-- The loops over the arguments read pointers that were read before. -/
theorem stringReads_readable {count : Nat} {argv : List Word} (h : argvFrom m count addr = .ok (some argv)) {x : Int}
    (hx : x ∈ stringReads m addr argv) : m.hasPerms x false = true := by
  induction count generalizing addr argv with
  | zero => cases h
  | succ count ih =>
      unfold argvFrom at h
      split_ifs at h with hPerms
      · cases Except.ok.inj h
      obtain ⟨pointer, hLoad, h⟩ := bind_eq_ok.mp h
      have hPointer := loadWord_isOk.mp ⟨pointer, hLoad⟩
      split_ifs at h with hNull
      · obtain rfl : [] = argv := Option.some.inj (Except.ok.inj h)
        exact hPointer x hx
      · obtain ⟨rest, hRest, h⟩ := bind_eq_ok.mp h
        obtain ⟨tail, rfl, rfl⟩ := Option.map_eq_some_iff.mp (Except.ok.inj h)
        unfold stringReads at hx
        rcases List.mem_append.mp hx with hx | hx
        · rcases List.mem_append.mp hx with hx | hx
          · exact hPointer x hx
          · exact cStringReads_readable _ hx
        · split at hx
          · cases hx
          · exact ih hRest hx

end Reads

end Kernel

end

namespace Kernel

open Sample

/-- No allocation succeeds. -/
def starved : Outcomes := ⟨fun _ => false, [], program⟩

/-- An executable that does not exist leaves the caller as it was. -/
theorem exec_fails_cleanly_missing : ∃ s t : Kernel, s.kernelExec ⟨fun _ => true, [], .missing⟩ = .ok t ∧
    s.ExecFailsCleanly t := by
  have hArgs : ((after turn).saveUc (context [208, 208])).execArgs.toOption = some (some []) := by decide +kernel
  have hArgs := mem_toOption.mp hArgs
  generalize (after turn).saveUc (context [208, 208]) = s at hArgs
  obtain ⟨t, hExec⟩ : ∃ t, s.kernelExec ⟨fun _ => true, [], .missing⟩ = .ok t := by
    unfold kernelExec
    rw [hArgs]
    exact ⟨_, rfl⟩
  refine ⟨s, t, hExec, (exec_fails_cleanly_iff hArgs rfl rfl hExec).mpr fun li text data hIs => ?_⟩
  cases hIs.file_eq

/-- An empty argument vector, for which `malloc` returns `NULL`. The caller goes on
with the stack pointer of the new program. -/
theorem exec_fails_cleanly_fails : KernelStart.system.Reachable (after turn) ∧
    ∃ t, ((after turn).saveUc (context [208, 208])).kernelExec starved = .ok t ∧
      (t.pcb 1).uc.regs 0 = errorCode ∧ ¬((after turn).saveUc (context [208, 208])).ExecFailsCleanly t := by
  refine ⟨reachable_after (by decide +kernel), ?_⟩
  have hRun : (((after turn).saveUc (context [208, 208])).kernelExec starved).toOption.any
      (fun t => decide ((t.pcb 1).uc.regs 0 = errorCode ∧ (t.pcb 1).uc.sp = 272)) = true := by decide +kernel
  have hRunning : ((after turn).saveUc (context [208, 208])).runningProc = 1 := by decide +kernel
  have hSp : (((after turn).saveUc (context [208, 208])).pcb 1).uc.sp = 280 := by decide +kernel
  generalize (after turn).saveUc (context [208, 208]) = s at hRun hRunning hSp ⊢
  obtain ⟨t, hExec, hHolds⟩ := (Option.any_eq_true _ _).mp hRun
  obtain ⟨hResult, hNew⟩ := of_decide_eq_true hHolds
  refine ⟨t, mem_toOption.mp hExec, hResult, fun hClean => ?_⟩
  have hSame := congrArg UserContext.sp hClean.2
  rw [hRunning, hNew] at hSame
  have hOld : (272 : Word) = 280 := hSame.trans hSp
  cases hOld

end Kernel
end Yalnix
