import Mathlib.Data.List.Basic

/-!
Classic BPF programs that only read their input: loads of a word, conditional jumps forward, and
returns. An evaluation faults at an unknown instruction, at a load outside the data and behind
the last instruction. `check` is a test like the one the kernel makes before it accepts a
program; a program that passes it returns on every input.
-/

namespace Tlpi.Bpf

abbrev Word := BitVec 32

def BPF_LD : BitVec 16 := 0x00
def BPF_JMP : BitVec 16 := 0x05
def BPF_RET : BitVec 16 := 0x06
def BPF_W : BitVec 16 := 0x00
def BPF_ABS : BitVec 16 := 0x20
def BPF_JEQ : BitVec 16 := 0x10
def BPF_JGT : BitVec 16 := 0x20
def BPF_JGE : BitVec 16 := 0x30
def BPF_JSET : BitVec 16 := 0x40
def BPF_K : BitVec 16 := 0x00

structure Instruction where
  code : BitVec 16
  jt : BitVec 8
  jf : BitVec 8
  k : Word
  deriving DecidableEq

def BPF_STMT (code : BitVec 16) (k : Word) : Instruction := ⟨code, 0, 0, k⟩

def BPF_JUMP (code : BitVec 16) (k : Word) (jt jf : BitVec 8) : Instruction := ⟨code, jt, jf, k⟩

inductive Test where
  | eq
  | gt
  | ge
  | set
  deriving DecidableEq

def Test.holds (test : Test) (acc k : Word) : Bool :=
  match test with
  | .eq => acc = k
  | .gt => k < acc
  | .ge => k ≤ acc
  | .set => acc &&& k ≠ 0

inductive Operation where
  | load (offset : Word)
  | jump (test : Test) (k : Word) (jt jf : Nat)
  | ret (k : Word)
  deriving DecidableEq

def decode (instruction : Instruction) : Option Operation :=
  let jump test := some (.jump test instruction.k instruction.jt.toNat instruction.jf.toNat)
  if instruction.code = BPF_LD ||| BPF_W ||| BPF_ABS then some (.load instruction.k)
  else if instruction.code = BPF_JMP ||| BPF_JEQ ||| BPF_K then jump .eq
  else if instruction.code = BPF_JMP ||| BPF_JGT ||| BPF_K then jump .gt
  else if instruction.code = BPF_JMP ||| BPF_JGE ||| BPF_K then jump .ge
  else if instruction.code = BPF_JMP ||| BPF_JSET ||| BPF_K then jump .set
  else if instruction.code = BPF_RET ||| BPF_K then some (.ret instruction.k)
  else none

def operationAt (program : List Instruction) (pc : Nat) : Option Operation :=
  program[pc]?.bind decode

structure State where
  pc : Nat
  acc : Word

inductive Progress where
  | goes (state : State)
  | returns (verdict : Word)
  | faults

variable (program : List Instruction) (data : Word → Option Word)

def step (state : State) : Progress :=
  match operationAt program state.pc with
  | none => .faults
  | some (.load offset) =>
      match data offset with
      | none => .faults
      | some word => .goes ⟨state.pc + 1, word⟩
  | some (.jump test k jt jf) =>
      .goes ⟨state.pc + 1 + if test.holds state.acc k then jt else jf, state.acc⟩
  | some (.ret k) => .returns k

/-- No result means a fault, or that the steps do not suffice. -/
def run : Nat → State → Option Word
  | 0, _ => none
  | steps + 1, state =>
      match step program data state with
      | .faults => none
      | .goes next => run steps next
      | .returns verdict => some verdict

/-- Jumps go forward, so no evaluation has more steps than the program has instructions. -/
def evaluate : Option Word := run program data program.length ⟨0, 0⟩

theorem run_load (steps pc : Nat) (acc offset word : Word)
    (here : operationAt program pc = some (.load offset)) (known : data offset = some word) :
    run program data (steps + 1) ⟨pc, acc⟩ = run program data steps ⟨pc + 1, word⟩ := by
  simp only [run, step, here, known]

theorem run_jump (steps pc : Nat) (acc k : Word) (test : Test) (jt jf : Nat)
    (here : operationAt program pc = some (.jump test k jt jf)) :
    run program data (steps + 1) ⟨pc, acc⟩ =
      run program data steps ⟨pc + 1 + if test.holds acc k then jt else jf, acc⟩ := by
  simp only [run, step, here]

theorem run_ret (steps pc : Nat) (acc k : Word) (here : operationAt program pc = some (.ret k)) :
    run program data (steps + 1) ⟨pc, acc⟩ = some k := by
  simp only [run, step, here]

/-- What follows an instruction lies inside the program. -/
def inside (loadable : Word → Bool) (size pc : Nat) : Operation → Bool
  | .load offset => loadable offset && pc + 1 < size
  | .jump _ _ jt jf => pc + 1 + jt < size && pc + 1 + jf < size
  | .ret _ => true

def check (loadable : Word → Bool) : Bool :=
  program ≠ [] && (List.range program.length).all fun pc =>
    (operationAt program pc).any (inside loadable program.length pc)

/-- By induction on the steps that are left; each one leads nearer to the end. -/
theorem run_returns (loadable : Word → Bool) (checked : check program loadable = true)
    (loads : ∀ offset, loadable offset = true → ∃ word, data offset = some word)
    (steps pc : Nat) (acc : Word) (within : pc < program.length)
    (enough : program.length ≤ pc + steps) :
    ∃ verdict, run program data steps ⟨pc, acc⟩ = some verdict := by
  induction steps generalizing pc acc with
  | zero => omega
  | succ steps ih =>
      have every := (Bool.and_eq_true_iff.mp checked).2
      obtain ⟨operation, here, fits⟩ :=
        (Option.any_eq_true _ _).mp (List.all_eq_true.mp every pc (List.mem_range.mpr within))
      cases operation with
      | load offset =>
          obtain ⟨loaded, next⟩ := Bool.and_eq_true_iff.mp fits
          obtain ⟨word, known⟩ := loads offset loaded
          rw [run_load program data steps pc acc offset word here known]
          exact ih (pc + 1) word (of_decide_eq_true next) (by omega)
      | jump test k jt jf =>
          obtain ⟨far, near⟩ := Bool.and_eq_true_iff.mp fits
          rw [run_jump program data steps pc acc k test jt jf here]
          split
          · exact ih (pc + 1 + jt) acc (of_decide_eq_true far) (by omega)
          · exact ih (pc + 1 + jf) acc (of_decide_eq_true near) (by omega)
      | ret k => exact ⟨k, run_ret program data steps pc acc k here⟩

theorem checked_returns (loadable : Word → Bool) (checked : check program loadable = true)
    (loads : ∀ offset, loadable offset = true → ∃ word, data offset = some word) :
    ∃ verdict, evaluate program data = some verdict := by
  have solid : program ≠ [] := of_decide_eq_true (Bool.and_eq_true_iff.mp checked).1
  refine run_returns program data loadable checked loads program.length 0 0 ?_ (by omega)
  exact List.length_pos_iff.mpr solid

end Tlpi.Bpf
