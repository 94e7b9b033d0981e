/-
  Byte swaps against the layout of memory. A swap turns a register into the number
  that the machine has to write for the bytes to come out in the target order; that
  is all there is to it (`convert_eq_read`). It does not matter which order is the
  machine's own, although the swap itself depends on it.

  `swap_matches_layout` says this of the numbers, with the laws that follow, and of
  a swap and the store after it on machines of either order.
-/
import Ebpf.Proofs.Arithmetic
import Ebpf.Proofs.ByteMap
import Ebpf.Proofs.LowHalves

namespace Ebpf

variable {σ : Type}

namespace SwapWidth

theorem bytes_le (width : SwapWidth) : width.bytes ≤ 8 := by
  cases width <;> decide

/-! ## Numbers -/

section Numbers

variable (width : SwapWidth) (native target : ByteOrder) (v : UInt64)

/-- A swap reads in the machine's order what the target order would write. -/
theorem convert_eq_read :
    width.convert native target v = native.read (target.write v width.bytes) := by
  cases native <;> cases target <;> simp [convert, ByteOrder.read, ByteOrder.write]

theorem write_convert :
    native.write (width.convert native target v) width.bytes = target.write v width.bytes := by
  have hlen : (target.write v width.bytes).length = width.bytes := target.length_write v _
  have hback : native.write (native.read (target.write v width.bytes))
      (target.write v width.bytes).length = target.write v width.bytes :=
    native.write_read (by rw [hlen]; exact width.bytes_le)
  rw [hlen] at hback
  rw [convert_eq_read, hback]

/-- To the machine's own order, a swap only cuts. -/
theorem toNat_convert_self :
    (width.convert native native v).toNat = v.toNat % 256 ^ width.bytes := by
  rw [convert_eq_read, native.toNat_read_write v width.bytes_le]

theorem convert_self_of_lt (h : v.toNat < 256 ^ width.bytes) :
    width.convert native native v = v := by
  apply UInt64.toNat_inj.mp
  rw [toNat_convert_self, Nat.mod_eq_of_lt h]

theorem toNat_convert_convert :
    (width.convert native target (width.convert native target v)).toNat =
      v.toNat % 256 ^ width.bytes := by
  by_cases h : native = target
  · subst h
    rw [toNat_convert_self, toNat_convert_self, Nat.mod_mod]
  · rw [convert_eq_read, ByteOrder.write_of_ne h, write_convert, ← ByteOrder.read_of_ne h,
      target.toNat_read_write v width.bytes_le]

/-- What a swap cuts off would not be written anyway. -/
theorem write_convert_self :
    target.write (width.convert native native v) width.bytes = target.write v width.bytes := by
  apply target.write_congr width.bytes_le
  rw [toNat_convert_self, Nat.mod_mod]

/-- Cutting first or last makes no difference to a swap. -/
theorem convert_convert_self :
    width.convert native target (width.convert native native v) =
      width.convert native native (width.convert native target v) := by
  have hlt := width.toNat_convert_lt native target v
  rw [convert_self_of_lt width native _ hlt, convert_eq_read, write_convert_self, ← convert_eq_read]

theorem convert_comm :
    width.convert native .little (width.convert native .big v) =
      width.convert native .big (width.convert native .little v) := by
  cases native with
  | little => exact (convert_convert_self width .little .big v).symm
  | big => exact convert_convert_self width .big .little v

/-- The bytes that a machine writes after a swap. -/
theorem write_convert_eq_layout :
    native.write (width.convert native target v) width.bytes =
      target.layout width.bytes (v.toNat % 256 ^ width.bytes) := by
  rw [write_convert, ← write_convert_self width native, target.write_eq_layout, toNat_convert_self]

end Numbers

/-- Storing a swapped number leaves a stack in which the machine's order does not show. -/
theorem store_convert (width : SwapWidth) (native native' target : ByteOrder) (v : UInt64)
    (s : Stack) (addr : Int64) :
    s.store native addr width.bytes (width.convert native target v) =
      s.store native' addr width.bytes (width.convert native' target v) := by
  rw [Stack.store, Stack.store, write_convert, write_convert]

end SwapWidth

/-! ## Instructions -/

/-- A swap of a register, and a store of that register with the size of the swap. -/
structure SwapStore where
  target : ByteOrder
  width : SwapWidth
  size : Size
  swap : Insn
  store : Insn
  swap_op : swap.op = .swap target width
  store_op : store.op = .store size .reg
  src_eq : store.src = swap.dst
  bytes_eq : size.bytes = width.bytes

namespace SwapStore

/-- The machine after the swap. -/
def swapped (p : SwapStore) (m : Machine) : Machine :=
  { m with
    regs := m.regs.put p.swap.dst
      (p.width.convert m.config.order p.target (m.regs.get p.swap.dst)) }

/-- The address that the store goes to. The base may be the register that was swapped. -/
def addr (p : SwapStore) (m : Machine) : Int64 :=
  (p.swapped m).address p.store.dst p.store.off

/-- The bytes that are stored: those of the register before the swap, in the target order. -/
def stored (p : SwapStore) (m : Machine) : List UInt8 :=
  p.target.layout p.width.bytes ((m.regs.get p.swap.dst).toNat % 256 ^ p.width.bytes)

theorem length_stored (p : SwapStore) (m : Machine) : (p.stored m).length = p.width.bytes := by
  rw [stored, ByteOrder.layout, List.length_map, List.length_range]

theorem addr_of_ne {p : SwapStore} (h : p.store.dst ≠ p.swap.dst) (m : Machine) :
    p.addr m = m.address p.store.dst p.store.off := by
  unfold addr swapped Machine.address
  rw [Registers.get_put_of_ne _ _ h]

end SwapStore

namespace Machine

theorem settle_storeCell (m : Machine) (addr : Int64) (size : Size) (v : UInt64) (env : Env σ) :
    (m.storeCell addr size v).settle env =
      if InBounds addr size.bytes m.stack.size then
        { result := .ok .next
          machine := { m with stack := m.stack.put m.config.order addr.toInt.toNat size.bytes v }
          env }
      else { result := .error (.memoryBounds .stack addr size.bytes), machine := m, env } := by
  unfold storeCell
  split <;> rfl

theorem exec_swap (p : SwapStore) (env : Env σ) (m : Machine) :
    exec env m p.swap =
      if p.swap.dst = Reg.frame then { result := .error .frameRegisterWrite, machine := m, env }
      else { result := .ok .next, machine := p.swapped m, env } := by
  rw [exec, p.swap_op]
  exact settle_writeRegister m p.swap.dst _ env

/-- The store after the swap writes bytes in which the order of the machine does not show. -/
theorem exec_store_swapped (p : SwapStore) (env : Env σ) (m : Machine) :
    exec env (p.swapped m) p.store =
      if InBounds (p.addr m) p.width.bytes m.stack.size then
        { result := .ok .next
          machine := { p.swapped m with
            stack := ⟨Stack.overwrite m.stack.bytes (p.addr m).toInt.toNat (p.stored m)⟩ }
          env }
      else
        { result := .error (.memoryBounds .stack (p.addr m) p.width.bytes)
          machine := p.swapped m
          env } := by
  have hvalue : (p.swapped m).storeOperand p.store .reg =
      p.width.convert m.config.order p.target (m.regs.get p.swap.dst) := by
    rw [storeOperand, p.src_eq]
    exact Registers.get_put_self _ _ _
  have hput : m.stack.put m.config.order (p.addr m).toInt.toNat p.width.bytes
        (p.width.convert m.config.order p.target (m.regs.get p.swap.dst)) =
      ⟨Stack.overwrite m.stack.bytes (p.addr m).toInt.toNat (p.stored m)⟩ := by
    rw [Stack.put, SwapWidth.write_convert_eq_layout]
    rfl
  rw [exec, p.store_op]
  dsimp only
  rw [settle_storeCell, hvalue, p.bytes_eq, ← hput]
  rfl

/-- The two instructions on a machine of any order: the bytes do not depend on it. -/
theorem execAll_swapStore (p : SwapStore) (env : Env σ) (m : Machine) :
    execAll env m [p.swap, p.store] =
      if p.swap.dst = Reg.frame then { result := .error .frameRegisterWrite, machine := m, env }
      else if InBounds (p.addr m) p.width.bytes m.stack.size then
        { result := .ok .next
          machine := { p.swapped m with
            stack := ⟨Stack.overwrite m.stack.bytes (p.addr m).toInt.toNat (p.stored m)⟩ }
          env }
      else
        { result := .error (.memoryBounds .stack (p.addr m) p.width.bytes)
          machine := p.swapped m
          env } := by
  have hswap := exec_swap p env m
  have hstore := exec_store_swapped p env m
  by_cases hframe : p.swap.dst = Reg.frame
  · rw [if_pos hframe] at hswap ⊢
    rw [execAll_cons_of_error (by rw [hswap]), hswap]
  · rw [if_neg hframe] at hswap ⊢
    rw [execAll_cons_of_next (by rw [hswap]), hswap]
    by_cases hb : InBounds (p.addr m) p.width.bytes m.stack.size
    · rw [if_pos hb] at hstore ⊢
      rw [execAll_cons_of_next (by rw [hstore]), hstore, execAll]
    · rw [if_neg hb] at hstore ⊢
      rw [execAll_cons_of_error (by rw [hstore]), hstore]

/-- The bytes that the two instructions leave, if neither is refused. -/
theorem getElem?_swapStore {p : SwapStore} {env : Env σ} {m : Machine}
    (h : (execAll env m [p.swap, p.store]).result = .ok .next) (j : Nat) :
    (execAll env m [p.swap, p.store]).machine.stack.bytes[j]? =
      if (p.addr m).toInt ≤ j ∧ j < (p.addr m).toInt + p.width.bytes then
        (p.stored m)[j - (p.addr m).toInt.toNat]?
      else m.stack.bytes[j]? := by
  have hdone := execAll_swapStore p env m
  by_cases hframe : p.swap.dst = Reg.frame
  · rw [if_pos hframe] at hdone
    rw [hdone] at h
    cases h
  · rw [if_neg hframe] at hdone
    by_cases hb : InBounds (p.addr m) p.width.bytes m.stack.size
    · rw [if_pos hb] at hdone
      rw [hdone]
      have hlow := hb.1
      have hroom : (p.addr m).toInt.toNat + (p.stored m).length ≤ m.stack.bytes.size := by
        rw [p.length_stored]
        exact hb.fits
      dsimp only
      rw [Stack.getElem?_overwrite _ _ _ hroom, p.length_stored]
      have hiff : ((p.addr m).toInt.toNat ≤ j ∧ j < (p.addr m).toInt.toNat + p.width.bytes) ↔
          (p.addr m).toInt ≤ j ∧ j < (p.addr m).toInt + p.width.bytes := by omega
      simp only [hiff]
    · rw [if_neg hb] at hdone
      rw [hdone] at h
      cases h

/-- Machines of whatever orders that store to the same address leave the same stack. -/
theorem swapStore_congr (p : SwapStore) (env env' : Env σ) {m m' : Machine}
    (hregs : m'.regs = m.regs) (hstack : m'.stack = m.stack) (haddr : p.addr m' = p.addr m) :
    (execAll env' m' [p.swap, p.store]).result = (execAll env m [p.swap, p.store]).result ∧
      (execAll env' m' [p.swap, p.store]).machine.stack =
        (execAll env m [p.swap, p.store]).machine.stack := by
  have hstored : p.stored m' = p.stored m := by
    rw [SwapStore.stored, SwapStore.stored, hregs]
  rw [execAll_swapStore, execAll_swapStore, haddr, hstored, hstack]
  split
  · exact ⟨rfl, hstack⟩
  · split
    · exact ⟨rfl, rfl⟩
    · exact ⟨rfl, hstack⟩

/-! ## Main statement -/

/-- Byte swaps agree with the layout of memory. For either order of the machine and either target, a
swapped number, written with the bytes of the swap in the machine's order, gives the low bytes of the
number in the target order. It fits those bytes; swapping twice gives the number modulo their room;
and the swaps to the two orders commute. So at every address of every stack it comes to the same
whether it is swapped and stored in the one order or in the other. A swap and a store of the swapped
register, executed on a machine of either order, leave in the span of the store the bytes of the
register in the target order, and elsewhere what was there. Two machines that differ in nothing but
their orders come to the same result and the same stack, since both store to the same address; only
a store whose base is the swapped register itself may go elsewhere. -/
theorem swap_matches_layout :
    (∀ (native target : ByteOrder) (width : SwapWidth) (v : UInt64),
      native.write (width.convert native target v) width.bytes =
          target.layout width.bytes (v.toNat % 256 ^ width.bytes) ∧
        (width.convert native target v).toNat < 256 ^ width.bytes ∧
        (width.convert native target (width.convert native target v)).toNat =
          v.toNat % 256 ^ width.bytes ∧
        width.convert native .little (width.convert native .big v) =
          width.convert native .big (width.convert native .little v)) ∧
    (∀ (native native' target : ByteOrder) (width : SwapWidth) (v : UInt64) (s : Stack)
      (addr : Int64),
      s.store native addr width.bytes (width.convert native target v) =
        s.store native' addr width.bytes (width.convert native' target v)) ∧
    (∀ (p : SwapStore) (env : Env σ) (m : Machine),
      (execAll env m [p.swap, p.store]).result = .ok .next → ∀ j : Nat,
        (execAll env m [p.swap, p.store]).machine.stack.bytes[j]? =
          if (p.addr m).toInt ≤ j ∧ j < (p.addr m).toInt + p.width.bytes then
            (p.target.layout p.width.bytes
              ((m.regs.get p.swap.dst).toNat % 256 ^ p.width.bytes))[j - (p.addr m).toInt.toNat]?
          else m.stack.bytes[j]?) ∧
    ∀ (p : SwapStore) (env env' : Env σ) (m m' : Machine), m'.regs = m.regs → m'.stack = m.stack →
      (p.store.dst ≠ p.swap.dst → p.addr m' = p.addr m) ∧
        (p.addr m' = p.addr m →
          (execAll env' m' [p.swap, p.store]).result = (execAll env m [p.swap, p.store]).result ∧
            (execAll env' m' [p.swap, p.store]).machine.stack =
              (execAll env m [p.swap, p.store]).machine.stack) := by
  refine ⟨?_, ?_, ?_, ?_⟩
  · intro native target width v
    exact ⟨width.write_convert_eq_layout native target v, width.toNat_convert_lt native target v,
      width.toNat_convert_convert native target v, width.convert_comm native v⟩
  · intro native native' target width v s addr
    exact width.store_convert native native' target v s addr
  · intro p env m hok j
    exact getElem?_swapStore hok j
  · intro p env env' m m' hregs hstack
    refine ⟨fun hne => ?_, swapStore_congr p env env' hregs hstack⟩
    rw [p.addr_of_ne hne, p.addr_of_ne hne, address, address, hregs]

/-- `be32 r0` and `stxw [r10-4], r0`. -/
def storeBig : SwapStore :=
  { target := .big
    width := .b32
    size := .word
    swap :=
      { op := .swap .big .b32, opcode := 0xdc, dst := Reg.result, src := Reg.result, off := 0,
        imm := 32 }
    store :=
      { op := .store .word .reg, opcode := 0x63, dst := Reg.frame, src := Reg.result, off := -4,
        imm := 0 }
    swap_op := rfl
    store_op := rfl
    src_eq := rfl
    bytes_eq := rfl }

/-- A machine of the given order, with a number in `r0` and a stack of eight bytes. -/
def holding (order : ByteOrder) : Machine :=
  let fresh := Machine.new { order, stackSize := 8 }
  { fresh with regs := fresh.regs.put Reg.result 0x1122334455667788 }

/-- Both machines store the low half of `r0` at index four, most significant byte first. -/
theorem swap_matches_layout_storeBig :
    let done (order : ByteOrder) :=
      execAll ({} : Env Unit) (holding order) [storeBig.swap, storeBig.store]
    (done .little).result = .ok .next ∧ (done .little).machine.stack.bytes[5]? = some 0x66 ∧
      (done .big).result = .ok .next ∧
      (done .big).machine.stack = (done .little).machine.stack := by
  intro done
  obtain ⟨-, -, hbytes, hsame⟩ := @swap_matches_layout Unit
  have hok : (done .little).result = .ok .next := rfl
  obtain ⟨haddr, heq⟩ := hsame storeBig {} {} (holding .little) (holding .big) rfl rfl
  obtain ⟨hresult, hstack⟩ := heq (haddr (by decide))
  exact ⟨hok, hbytes storeBig {} (holding .little) hok 5, hresult.trans hok, hstack⟩

end Machine

end Ebpf
