import Yalnix.Memory.Bytes
import Yalnix.Memory.LoadProgram

/-! The arguments that the loader puts on the new stack: an area of pointers, and
above it the strings they point to. -/
namespace Yalnix.LoadProgram

open Hardware Transition Segments UserMemory

variable [Hardware] {m m' : Memory} {args : List (List Byte)}

theorem store_eq_ok {addr : Int} {bytes : List Byte} : store m addr bytes = .ok m' ↔
    m.storeBytes addr bytes = .ok m' := by
  unfold store
  cases m.storeBytes addr bytes with
  | ok next => rfl
  | error stop => simp [Except.mapError]

/-- The words that `buildArgs` writes: a pointer to each argument and two `NULL`s. -/
def pointerBytes (cp : Int) : List (List Byte) → List Byte
  | [] => Memory.wordBytes 0 ++ Memory.wordBytes 0
  | arg :: rest => Memory.wordBytes (BitVec.ofInt 32 cp) ++ pointerBytes (cp + arg.length + 1) rest

/-- The strings that `buildArgs` writes, one after the other. -/
def stringBytes : List (List Byte) → List Byte
  | [] => []
  | arg :: rest => arg ++ [0] ++ stringBytes rest

omit [Hardware] in
@[simp] theorem length_pointerBytes (cp : Int) (args : List (List Byte)) :
    (pointerBytes cp args).length = 4 * (args.length + 2) := by
  induction args generalizing cp with
  | nil => rfl
  | cons arg rest ih =>
      rw [pointerBytes, List.length_append, ih, Memory.length_wordBytes, List.length_cons]
      omega

omit [Hardware] in
theorem length_stringBytes (args : List (List Byte)) :
    ((stringBytes args).length : Int) = (args.map fun arg => (arg.length : Int) + 1).sum := by
  induction args with
  | nil => rfl
  | cons arg rest ih =>
      rw [stringBytes, List.length_append, List.length_append, List.map_cons, List.sum_cons, ← ih]
      simp

/-- The addresses of the pointers and of the strings. -/
def argBytes (cpp cp : Int) (args : List (List Byte)) : Set Int :=
  Set.Ico cpp (cpp + (pointerBytes cp args).length) ∪ Set.Ico cp (cp + (stringBytes args).length)

/-- Where the pointers and the strings lie after `buildArgs`. -/
structure Built (m m' : Memory) (cpp cp : Int) (args : List (List Byte)) : Prop where
  same : m' = { m with pmem := m'.pmem }
  rewrites : Memory.Rewrites m m' (argBytes cpp cp args)
  pointers : Holds m'.byteAt cpp (pointerBytes cp args)
  strings : Holds m'.byteAt cp (stringBytes args)
  perms : ∀ x ∈ argBytes cpp cp args, m.hasPerms x true = true

/-- The loop of the loader, when the pointers end below the strings. -/
theorem buildArgs_built {cpp cp : Int} (hOwn : m.OwnFrames) (hRoom : cpp + 4 * (args.length + 2) ≤ cp)
    (h : buildArgs m cpp cp args = .ok m') : Built m m' cpp cp args := by
  induction args generalizing m cpp cp with
  | nil =>
      have hStore := store_eq_ok.mp h
      have hAddresses : argBytes cpp cp [] = Set.Ico cpp (cpp + (pointerBytes cp []).length) := by
        simp [argBytes, stringBytes]
      rw [show pointerBytes cp [] = Memory.wordBytes 0 ++ Memory.wordBytes 0 from rfl] at hAddresses
      refine ⟨Memory.storeBytes_eq hStore, ?_, Memory.holds_storeBytes hOwn hStore, holds_nil _ _, ?_⟩
      · rw [hAddresses]
        exact Memory.rewrites_storeBytes hOwn hStore
      · intro x hx
        rw [hAddresses] at hx
        exact Memory.storeBytes_perms hStore hx.1 hx.2
  | cons arg rest ih =>
      obtain ⟨withPointer, hPointer, h⟩ := bind_eq_ok.mp h
      obtain ⟨withString, hString, hRest⟩ := bind_eq_ok.mp h
      have hPointer := store_eq_ok.mp hPointer
      have hString := store_eq_ok.mp hString
      rw [List.length_cons] at hRoom
      push_cast at hRoom
      have hFirst := Memory.rewrites_storeBytes hOwn hPointer
      have hOwnNext := hFirst.own hOwn
      have hSecond := Memory.rewrites_storeBytes hOwnNext hString
      have hBuilt := ih (hSecond.own hOwnNext) (by omega) hRest
      have hLength : ((arg ++ [0] : List Byte).length : Int) = arg.length + 1 := by simp
      -- all addresses, split into those of this argument and those of the others
      have hAddresses : argBytes cpp cp (arg :: rest) = Set.Ico cpp (cpp + 4) ∪ Set.Ico cp (cp + arg.length + 1) ∪
          argBytes (cpp + 4) (cp + arg.length + 1) rest := by
        ext x
        simp only [argBytes, pointerBytes, stringBytes, List.length_append, Memory.length_wordBytes,
          Set.mem_union, Set.mem_Ico]
        push_cast
        simp only [List.length_singleton]
        omega
      have hTable : withString.region1Pt = m.region1Pt :=
        (Memory.region1Pt_storeBytes hString).trans (Memory.region1Pt_storeBytes hPointer)
      have hRestBytes (x : Int) (hx : x ∈ argBytes (cpp + 4) (cp + arg.length + 1) rest) :
          cpp + 4 ≤ x ∧ (x < cp ∨ cp + arg.length + 1 ≤ x) := by
        simp only [argBytes, Set.mem_union, Set.mem_Ico, length_pointerBytes] at hx
        push_cast at hx
        omega
      constructor
      · calc
          m' = { withString with pmem := m'.pmem } := hBuilt.same
          _ = { m with pmem := m'.pmem } := by
            rw [Memory.storeBytes_eq hString, Memory.storeBytes_eq hPointer]
      · refine ((hFirst.trans hSecond).trans hBuilt.rewrites).mono ?_
        rw [hAddresses, hLength, add_assoc cp]
        exact le_rfl
      · rw [pointerBytes, holds_append]
        refine ⟨?_, hBuilt.pointers⟩
        have hMapped (x : Int) (hLow : cpp ≤ x) (hHigh : x < cpp + (4 : Nat)) : withPointer.Mapped x :=
          hFirst.mapped (Memory.mapped_storeBytes hPointer hLow hHigh)
        refine hBuilt.rewrites.holds (hSecond.holds (Memory.holds_storeBytes hOwn hPointer) hMapped ?_)
          (fun x hLow hHigh => hSecond.mapped (hMapped x hLow hHigh)) ?_
        · intro x hLow hHigh hx
          have hIn := hx.1
          rw [Memory.length_wordBytes] at hHigh
          omega
        · intro x hLow hHigh hx
          have hIn := hRestBytes x hx
          rw [Memory.length_wordBytes] at hHigh
          omega
      · rw [stringBytes, holds_append, hLength, ← add_assoc]
        refine ⟨?_, hBuilt.strings⟩
        refine hBuilt.rewrites.holds (Memory.holds_storeBytes hOwnNext hString)
          (fun x hLow hHigh => hSecond.mapped (Memory.mapped_storeBytes hString hLow hHigh)) ?_
        intro x hLow hHigh hx
        have hIn := hRestBytes x hx
        omega
      · intro x hx
        rw [hAddresses] at hx
        rcases hx with (hx | hx) | hx
        · exact Memory.storeBytes_perms hPointer hx.1 hx.2
        · rw [← Memory.hasPerms_congr (Memory.region1Pt_storeBytes hPointer)]
          exact Memory.storeBytes_perms hString hx.1 (by have := hx.2; omega)
        · rw [← Memory.hasPerms_congr hTable]
          exact hBuilt.perms x hx

/-- A string without NUL bytes lies at an address, with a NUL behind it. -/
structure StringAt (m : Memory) (addr : Int) (string : List Byte) : Prop where
  noNul : 0 ∉ string
  bytes : m.loadBytes addr (string.length + 1) = .ok (string ++ [0])

/-- Where the argument of index `i` starts, when the first one starts at `cp`. -/
def argAddr (cp : Int) (args : List (List Byte)) (i : Nat) : Int := cp + (stringBytes (args.take i)).length

omit [Hardware] in
theorem argAddr_succ (cp : Int) (arg : List Byte) (rest : List (List Byte)) (i : Nat) :
    argAddr cp (arg :: rest) (i + 1) = argAddr (cp + arg.length + 1) rest i := by
  rw [argAddr, argAddr, List.take_succ_cons, stringBytes, List.length_append, List.length_append,
    List.length_singleton]
  push_cast
  omega

omit [Hardware] in
theorem argAddr_next (cp : Int) {i : Nat} (hi : i < args.length) :
    argAddr cp args (i + 1) = argAddr cp args i + args[i].length + 1 := by
  induction args generalizing cp i with
  | nil => cases hi
  | cons arg rest ih =>
      rw [argAddr_succ]
      cases i with
      | zero => simp [argAddr, stringBytes]
      | succ i =>
          rw [argAddr_succ]
          exact ih _ (by simpa using hi)

omit [Hardware] in
theorem argAddr_last (cp : Int) : argAddr cp args args.length = cp + (stringBytes args).length := by
  rw [argAddr, List.take_length]

omit [Hardware] in
/-- An argument lies within the area of the strings. -/
theorem argAddr_bounds (cp : Int) {i : Nat} (hi : i < args.length) :
    cp ≤ argAddr cp args i ∧ argAddr cp args i + args[i].length + 1 ≤ cp + (stringBytes args).length := by
  refine ⟨by unfold argAddr; omega, ?_⟩
  induction args generalizing cp i with
  | nil => cases hi
  | cons arg rest ih =>
      rw [stringBytes, List.length_append, List.length_append, List.length_singleton]
      cases i with
      | zero =>
          simp only [argAddr, stringBytes, List.take_zero, List.length_nil, List.getElem_cons_zero]
          omega
      | succ i =>
          have hRest := ih (cp + arg.length + 1) (i := i) (by simpa using hi)
          rw [argAddr_succ, List.getElem_cons_succ]
          omega

omit [Hardware] in
/-- The pointers to the arguments, one by one. -/
theorem holds_pointer {f : Int → Byte} {cpp cp : Int} (h : Holds f cpp (pointerBytes cp args)) {i : Nat}
    (hi : i < args.length) : Holds f (cpp + 4 * i) (Memory.wordBytes (BitVec.ofInt 32 (argAddr cp args i))) := by
  induction args generalizing cpp cp i with
  | nil => cases hi
  | cons arg rest ih =>
      rw [pointerBytes, holds_append, Memory.length_wordBytes] at h
      cases i with
      | zero =>
          have hFirst : argAddr cp (arg :: rest) 0 = cp := by simp [argAddr, stringBytes]
          have hHere : cpp + 4 * ((0 : Nat) : Int) = cpp := by omega
          rw [hFirst, hHere]
          exact h.1
      | succ i =>
          have hIndex : cpp + 4 * ((i + 1 : Nat) : Int) = cpp + ((4 : Nat) : Int) + 4 * i := by omega
          rw [argAddr_succ, hIndex]
          exact ih h.2 (by simpa using hi)

omit [Hardware] in
theorem holds_nulls {f : Int → Byte} {cpp cp : Int} (h : Holds f cpp (pointerBytes cp args)) :
    Holds f (cpp + 4 * args.length) (Memory.wordBytes 0) ∧
      Holds f (cpp + 4 * args.length + 4) (Memory.wordBytes 0) := by
  induction args generalizing cpp cp with
  | nil =>
      rw [pointerBytes, holds_append, Memory.length_wordBytes] at h
      have hHere : cpp + 4 * ((([] : List (List Byte)).length : Nat) : Int) = cpp := by simp
      rw [hHere]
      exact h
  | cons arg rest ih =>
      rw [pointerBytes, holds_append, Memory.length_wordBytes] at h
      have hIndex : cpp + 4 * (((arg :: rest).length : Nat) : Int) = cpp + ((4 : Nat) : Int) + 4 * rest.length := by
        rw [List.length_cons]
        omega
      rw [hIndex]
      exact ih h.2

omit [Hardware] in
/-- The strings, one by one. -/
theorem holds_string {f : Int → Byte} {cp : Int} (h : Holds f cp (stringBytes args)) {i : Nat}
    (hi : i < args.length) : Holds f (argAddr cp args i) (args[i] ++ [0]) := by
  induction args generalizing cp i with
  | nil => cases hi
  | cons arg rest ih =>
      rw [stringBytes, holds_append] at h
      cases i with
      | zero =>
          have hFirst : argAddr cp (arg :: rest) 0 = cp := by simp [argAddr, stringBytes]
          rw [hFirst]
          exact h.1
      | succ i =>
          have hEnd : cp + ((arg ++ [0] : List Byte).length : Int) = cp + arg.length + 1 := by
            rw [List.length_append, List.length_singleton]
            omega
          rw [hEnd] at h
          rw [argAddr_succ]
          exact ih h.2 (by simpa using hi)

end Yalnix.LoadProgram
