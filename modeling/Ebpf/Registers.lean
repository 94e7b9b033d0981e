/-
  The register file: eleven 64-bit registers. `r0` takes results, `r1` to `r5`
  carry helper arguments, and `r10`, the frame register, holds the stack's top
  and cannot be written by programs.
-/
import Ebpf.Fault

namespace Ebpf

/-- A valid register number. -/
abbrev Reg := Fin 11

namespace Reg

/-- The frame register, `r10`. -/
def frame : Reg := 10

/-- The register that takes results, `r0`. -/
def result : Reg := 0

/-- The register with a given number, unless there is none. -/
def ofNumber (n : UInt8) : Except Fault Reg :=
  if h : n.toNat < 11 then .ok ⟨n.toNat, h⟩ else .error (.invalidRegister n)

/-- A register's name, such as `r3`. -/
def name (r : Reg) : String :=
  "r" ++ Text.decimal r.val

end Reg

/-- The values of `r0` to `r10`. -/
structure Registers where
  values : Vector UInt64 11
deriving DecidableEq

namespace Registers

/-- All registers zero. -/
def zero : Registers := ⟨Vector.replicate 11 0⟩

/-- The value of a register. -/
def get (regs : Registers) (r : Reg) : UInt64 :=
  regs.values[r.val]

/-- Sets a register, the frame register included. -/
def put (regs : Registers) (r : Reg) (v : UInt64) : Registers :=
  ⟨regs.values.set r.val v r.isLt⟩

/-- Sets a register on a program's behalf: the frame register is refused. -/
def set (regs : Registers) (r : Reg) (v : UInt64) : Except Fault Registers :=
  if r = Reg.frame then .error .frameRegisterWrite else .ok (regs.put r v)

/-- The value of the register with a given number. -/
def read (regs : Registers) (n : UInt8) : Except Fault UInt64 :=
  (Reg.ofNumber n).map regs.get

/-- Sets the register with a given number on a program's behalf. -/
def write (regs : Registers) (n : UInt8) (v : UInt64) : Except Fault Registers :=
  (Reg.ofNumber n).bind fun r => regs.set r v

/-- The helper arguments, `r1` to `r5`. -/
def args (regs : Registers) : Vector UInt64 5 :=
  #v[regs.get 1, regs.get 2, regs.get 3, regs.get 4, regs.get 5]

/-- All registers on one line, as in `r0=0x1 r1=0x0`. -/
def text (regs : Registers) : String :=
  " ".intercalate ((List.finRange 11).map fun r => Reg.name r ++ "=" ++ Text.hex0x (regs.get r).toNat)

@[simp] theorem get_put_self (regs : Registers) (r : Reg) (v : UInt64) :
    (regs.put r v).get r = v := by
  simp [get, put]

theorem get_put_of_ne (regs : Registers) {r q : Reg} (v : UInt64) (h : q ≠ r) :
    (regs.put r v).get q = regs.get q := by
  have hv : r.val ≠ q.val := fun e => h (Fin.ext e.symm)
  simp [get, put, Vector.getElem_set_ne, hv]

end Registers

end Ebpf
