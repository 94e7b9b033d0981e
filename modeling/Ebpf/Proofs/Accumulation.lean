/-
  Additions to the stack, in any order. An addition reads the number in a cell,
  adds a register and writes the sum back, cut to the size of the cell; so the
  number in a cell is the old one plus all that was added there, modulo the size
  (`numberIn_deposits`). This determines the bytes of the cell, and no addition
  touches another byte: hence the order does not matter (`deposits_perm`).

  `additions_accumulate` says it of instructions. Cells may be the same or apart;
  where two of them overlap in part, the order does matter, and nothing is said.
-/
import Ebpf.Proofs.ByteMap
import Ebpf.Proofs.Exec
import Mathlib.Algebra.BigOperators.Group.List.Basic

namespace Ebpf

variable {σ : Type}

/-! ## Cells -/

/-- A stretch of the stack: the index of its first byte, and the number of its bytes. -/
structure Cell where
  start : Nat
  len : Nat
deriving DecidableEq

namespace Cell

/-- Cells without a byte in common. -/
def Apart (c c' : Cell) : Prop :=
  c.start + c.len ≤ c'.start ∨ c'.start + c'.len ≤ c.start

instance (c c' : Cell) : Decidable (c.Apart c') :=
  inferInstanceAs (Decidable (_ ∨ _))

/-- A cell to which a byte belongs. -/
def Has (c : Cell) (j : Nat) : Prop :=
  c.start ≤ j ∧ j < c.start + c.len

instance (c : Cell) (j : Nat) : Decidable (c.Has j) :=
  inferInstanceAs (Decidable (_ ∧ _))

/-- A cell of a stack of the given size that can hold a number. -/
structure Fits (c : Cell) (size : Nat) : Prop where
  inside : c.start + c.len ≤ size
  len_le : c.len ≤ 8

end Cell

/-- An amount, and the cell that it is added to. -/
structure Deposit where
  cell : Cell
  amount : UInt64

/-- All that is added to a cell. -/
def Deposit.total (ds : List Deposit) (c : Cell) : Nat :=
  ((ds.filter fun d => d.cell = c).map fun d => d.amount.toNat).sum

namespace Stack

/-- The number in a cell. -/
def numberIn (s : Stack) (o : ByteOrder) (c : Cell) : Nat :=
  (s.number o c.start c.len).toNat

/-- Adds an amount to the number in a cell. -/
def deposit (o : ByteOrder) (s : Stack) (d : Deposit) : Stack :=
  s.put o d.cell.start d.cell.len (s.number o d.cell.start d.cell.len + d.amount)

/-- Adds amounts one after the other. -/
def deposits (o : ByteOrder) (s : Stack) (ds : List Deposit) : Stack :=
  ds.foldl (deposit o) s

/-! ## One deposit -/

section One

variable {s : Stack} {o : ByteOrder} {c : Cell} {d : Deposit}

theorem size_deposit (o : ByteOrder) (s : Stack) (d : Deposit) : (s.deposit o d).size = s.size :=
  size_put _ _ _ _ _

theorem numberIn_lt (hc : c.Fits s.size) (o : ByteOrder) : s.numberIn o c < 256 ^ c.len := by
  have hspan := length_span hc.inside
  have hlen := hc.len_le
  have hlt : s.numberIn o c < 256 ^ (s.bytes.extract c.start (c.start + c.len)).toList.length :=
    o.toNat_read_lt (by omega)
  rwa [hspan] at hlt

/-- The bytes of a cell are those of the number in it. -/
theorem byte_eq_byteOf (hc : c.Fits s.size) {j : Nat} (hj : c.Has j) (o : ByteOrder) :
    s.byte j = o.byteOf c.len (s.numberIn o c) (j - c.start) := by
  have hspan := length_span hc.inside
  have hlen := hc.len_le
  have hindex : c.start + (j - c.start) = j := by
    have hlow := hj.1
    omega
  have hinside : j - c.start < c.len := by
    have hhigh := hj.2
    omega
  have hwrite : o.write (s.number o c.start c.len)
      (s.bytes.extract c.start (c.start + c.len)).toList.length =
        (s.bytes.extract c.start (c.start + c.len)).toList := o.write_read (by omega)
  rw [hspan] at hwrite
  apply Option.some.inj
  rw [numberIn, ← o.getElem?_write _ hinside, hwrite, getElem?_span hc.inside hinside, hindex]

theorem byte_deposit_of_not_has (hd : d.cell.Fits s.size) {j : Nat} (hj : ¬ d.cell.Has j) :
    (s.deposit o d).byte j = s.byte j := by
  rw [deposit, byte_put hd.inside]
  exact if_neg hj

/-- The number in a cell after an addition to that cell or to one apart from it. -/
theorem numberIn_deposit (hd : d.cell.Fits s.size) (hc : c.Fits s.size)
    (h : d.cell = c ∨ d.cell.Apart c) :
    (s.deposit o d).numberIn o c =
      (s.numberIn o c + if d.cell = c then d.amount.toNat else 0) % 256 ^ c.len := by
  by_cases hcell : d.cell = c
  · subst hcell
    have hdvd : 256 ^ d.cell.len ∣ 2 ^ 64 := pow_dvd_pow 256 hd.len_le
    rw [if_pos rfl, deposit, numberIn, toNat_number_put hd.inside hd.len_le, UInt64.toNat_add,
      Nat.mod_mod_of_dvd _ hdvd]
    rfl
  · have hapart := h.resolve_left hcell
    have hsame : (s.deposit o d).number o c.start c.len = s.number o c.start c.len := by
      refine number_congr hc.inside (size_deposit o s d) ?_ o
      intro j hlow hhigh
      refine byte_deposit_of_not_has hd fun hhas => ?_
      unfold Cell.Apart at hapart
      unfold Cell.Has at hhas
      omega
    rw [if_neg hcell, Nat.add_zero, Nat.mod_eq_of_lt (numberIn_lt hc o), numberIn, hsame]
    rfl

end One

/-! ## Deposits one after the other -/

theorem size_deposits (o : ByteOrder) (s : Stack) (ds : List Deposit) :
    (s.deposits o ds).size = s.size := by
  induction ds generalizing s with
  | nil => rfl
  | cons d ds ih => exact (ih (s.deposit o d)).trans (size_deposit o s d)

section Many

variable {s : Stack} {o : ByteOrder} {ds : List Deposit}

theorem byte_deposits (hds : ∀ d ∈ ds, d.cell.Fits s.size) {j : Nat}
    (hj : ∀ d ∈ ds, ¬ d.cell.Has j) : (s.deposits o ds).byte j = s.byte j := by
  induction ds generalizing s with
  | nil => rfl
  | cons d ds ih =>
    rw [List.forall_mem_cons] at hds hj
    have hrest : ∀ d' ∈ ds, d'.cell.Fits (s.deposit o d).size := by
      rw [size_deposit]
      exact hds.2
    have hfirst : (s.deposit o d).byte j = s.byte j := byte_deposit_of_not_has hds.1 hj.1
    exact (ih hrest hj.2).trans hfirst

/-- The number in a cell after additions to that cell and to others apart from it. -/
theorem numberIn_deposits {c : Cell} (hds : ∀ d ∈ ds, d.cell.Fits s.size) (hc : c.Fits s.size)
    (h : ∀ d ∈ ds, d.cell = c ∨ d.cell.Apart c) :
    (s.deposits o ds).numberIn o c = (s.numberIn o c + Deposit.total ds c) % 256 ^ c.len := by
  induction ds generalizing s with
  | nil => exact (Nat.mod_eq_of_lt (numberIn_lt hc o)).symm
  | cons d ds ih =>
    rw [List.forall_mem_cons] at hds h
    have hrest : ∀ d' ∈ ds, d'.cell.Fits (s.deposit o d).size := by
      rw [size_deposit]
      exact hds.2
    have hc' : c.Fits (s.deposit o d).size := by rwa [size_deposit]
    have htotal : Deposit.total (d :: ds) c =
        (if d.cell = c then d.amount.toNat else 0) + Deposit.total ds c := by
      unfold Deposit.total
      by_cases hcell : d.cell = c
      · simp [hcell]
      · simp [hcell]
    calc (s.deposits o (d :: ds)).numberIn o c
        = ((s.deposit o d).numberIn o c + Deposit.total ds c) % 256 ^ c.len := ih hrest hc' h.2
      _ = (s.numberIn o c + Deposit.total (d :: ds) c) % 256 ^ c.len := by
          rw [numberIn_deposit hds.1 hc h.1, Nat.mod_add_mod, htotal, Nat.add_assoc]

/-- Additions in another order leave the same stack. -/
theorem deposits_perm {ds' : List Deposit} (hperm : ds'.Perm ds)
    (hds : ∀ d ∈ ds, d.cell.Fits s.size)
    (h : ∀ d ∈ ds, ∀ d' ∈ ds, d.cell = d'.cell ∨ d.cell.Apart d'.cell) :
    s.deposits o ds' = s.deposits o ds := by
  have hds' : ∀ d ∈ ds', d.cell.Fits s.size := fun d hd => hds d (hperm.mem_iff.mp hd)
  have htotal (c : Cell) : Deposit.total ds' c = Deposit.total ds c :=
    ((hperm.filter _).map _).sum_eq
  have hsize (ds : List Deposit) : (s.deposits o ds).size = s.size := size_deposits o s ds
  refine eq_of_byte_eq ((hsize ds').trans (hsize ds).symm) fun j => ?_
  -- a byte of a cell is a byte of the number there, and any other byte is as it was
  by_cases hj : ∃ d ∈ ds, d.cell.Has j
  · obtain ⟨d, hd, hhas⟩ := hj
    have hfits := hds d hd
    have hnumber : (s.deposits o ds').numberIn o d.cell = (s.deposits o ds).numberIn o d.cell := by
      rw [numberIn_deposits hds' hfits fun d' hd' => h d' (hperm.mem_iff.mp hd') d hd,
        numberIn_deposits hds hfits fun d' hd' => h d' hd' d hd, htotal]
    rw [byte_eq_byteOf (by rw [hsize]; exact hfits) hhas o,
      byte_eq_byteOf (by rw [hsize]; exact hfits) hhas o, hnumber]
  · have hnone : ∀ d ∈ ds, ¬ d.cell.Has j := fun d hd hhas => hj ⟨d, hd, hhas⟩
    rw [byte_deposits hds hnone, byte_deposits hds' fun d hd => hnone d (hperm.mem_iff.mp hd)]

end Many

end Stack

/-! ## Instructions -/

theorem Size.bytes_le (size : Size) : size.bytes ≤ 8 := by
  cases size <;> decide

/-- An instruction that adds a register to a number on the stack. -/
structure Addition where
  insn : Insn
  size : Size
  op_eq : insn.op = .atomicAdd size

namespace Addition

/-- The address that an addition goes to. -/
def addr (m : Machine) (a : Addition) : Int64 :=
  m.address a.insn.dst a.insn.off

/-- The cell that an addition goes to. -/
def cell (m : Machine) (a : Addition) : Cell :=
  { start := (a.addr m).toInt.toNat, len := a.size.bytes }

/-- What an addition adds, and where. -/
def deposit (m : Machine) (a : Addition) : Deposit :=
  { cell := a.cell m, amount := m.regs.get a.insn.src }

theorem fits_cell {m : Machine} {a : Addition}
    (h : InBounds (a.addr m) a.size.bytes m.stack.size) : (a.cell m).Fits m.stack.size :=
  ⟨h.fits, a.size.bytes_le⟩

/-- What additions add to a cell: the registers of those that go there. -/
theorem total_deposits (m : Machine) (adds : List Addition) (c : Cell) :
    Deposit.total (adds.map (·.deposit m)) c =
      ((adds.filter fun a => a.cell m = c).map fun a => (m.regs.get a.insn.src).toNat).sum := by
  unfold Deposit.total
  rw [List.filter_map, List.map_map]
  rfl

end Addition

namespace Machine

/-- The machine after additions. -/
def afterDeposits (m : Machine) (ds : List Deposit) : Machine :=
  { m with stack := m.stack.deposits m.config.order ds }

theorem exec_addition (env : Env σ) {m : Machine} {a : Addition}
    (h : InBounds (a.addr m) a.size.bytes m.stack.size) :
    exec env m a.insn =
      { result := .ok .next, machine := m.afterDeposits [a.deposit m], env } := by
  have hload : m.loadCell (a.addr m) a.size =
      .ok (m.stack.number m.config.order (a.addr m).toInt.toNat a.size.bytes) :=
    Stack.load_of_inBounds h _
  unfold Addition.addr at h hload
  rw [exec, a.op_eq]
  dsimp only
  rw [execAtomicAdd, hload]
  dsimp only
  rw [storeCell, if_pos h]
  rfl

theorem execAll_additions (env : Env σ) {m : Machine} {adds : List Addition}
    (h : ∀ a ∈ adds, InBounds (a.addr m) a.size.bytes m.stack.size) :
    execAll env m (adds.map (·.insn)) =
      { result := .ok .next, machine := m.afterDeposits (adds.map (·.deposit m)), env } := by
  induction adds generalizing m with
  | nil => rfl
  | cons a adds ih =>
    rw [List.forall_mem_cons] at h
    have hfirst := exec_addition env h.1
    have hrest : ∀ b ∈ adds, InBounds (b.addr (m.afterDeposits [a.deposit m])) b.size.bytes
        (m.afterDeposits [a.deposit m]).stack.size := by
      intro b hb
      have hsize : (m.afterDeposits [a.deposit m]).stack.size = m.stack.size :=
        Stack.size_deposits _ _ _
      rw [hsize]
      exact h.2 b hb
    rw [List.map_cons, execAll_cons_of_next (by rw [hfirst]), hfirst, ih hrest]
    rfl

/-! ## Main statement -/

/-- Additions accumulate and commute. Take additions to cells inside the stack that are pairwise the
same or apart. In whatever order they are executed, all of them succeed and leave the same stack, and
nothing else of the machine or its surroundings changes. The number in each cell, in the byte order of
the machine, is the old one plus the source registers of all additions to the cell, modulo the size of
the cell; a byte outside the cells is as it was. -/
theorem additions_accumulate (env : Env σ) (m : Machine) (adds : List Addition)
    (hin : ∀ a ∈ adds, InBounds (a.addr m) a.size.bytes m.stack.size)
    (hcells : ∀ a ∈ adds, ∀ b ∈ adds, a.cell m = b.cell m ∨ (a.cell m).Apart (b.cell m)) :
    ∃ stack : Stack,
      (∀ order : List Addition, order.Perm adds →
        execAll env m (order.map (·.insn)) =
          { result := .ok .next, machine := { m with stack }, env }) ∧
      (∀ a ∈ adds, ∃ old new,
        m.stack.load m.config.order (a.addr m) a.size.bytes = .ok old ∧
        stack.load m.config.order (a.addr m) a.size.bytes = .ok new ∧
        new.toNat = (old.toNat + ((adds.filter fun b => b.cell m = a.cell m).map
          fun b => (m.regs.get b.insn.src).toNat).sum) % 2 ^ (8 * a.size.bytes)) ∧
      stack.size = m.stack.size ∧
      ∀ j, (∀ a ∈ adds, ¬ (a.cell m).Has j) → stack.bytes[j]? = m.stack.bytes[j]? := by
  have hfits : ∀ d ∈ adds.map (·.deposit m), d.cell.Fits m.stack.size :=
    List.forall_mem_map.mpr fun a ha => Addition.fits_cell (hin a ha)
  have hapart : ∀ d ∈ adds.map (·.deposit m), ∀ d' ∈ adds.map (·.deposit m),
      d.cell = d'.cell ∨ d.cell.Apart d'.cell :=
    List.forall_mem_map.mpr fun a ha => List.forall_mem_map.mpr fun b hb => hcells a ha b hb
  have hsize := Stack.size_deposits m.config.order m.stack (adds.map (·.deposit m))
  refine ⟨m.stack.deposits m.config.order (adds.map (·.deposit m)), ?_, ?_, hsize, ?_⟩
  · intro order hperm
    have horder : ∀ a ∈ order, InBounds (a.addr m) a.size.bytes m.stack.size :=
      fun a ha => hin a (hperm.mem_iff.mp ha)
    rw [execAll_additions env horder, afterDeposits, Stack.deposits_perm (hperm.map _) hfits hapart]
  · intro a ha
    have hafter : InBounds (a.addr m) a.size.bytes
        (m.stack.deposits m.config.order (adds.map (·.deposit m))).size := by
      rw [hsize]
      exact hin a ha
    refine ⟨_, _, Stack.load_of_inBounds (hin a ha) _, Stack.load_of_inBounds hafter _, ?_⟩
    have hnumber := Stack.numberIn_deposits (o := m.config.order) (c := a.cell m) hfits
      (Addition.fits_cell (hin a ha))
      (List.forall_mem_map.mpr fun b hb => hcells b hb a ha)
    rw [Addition.total_deposits] at hnumber
    rw [Nat.pow_mul]
    exact hnumber
  · intro j hj
    exact Stack.getElem?_bytes_congr hsize (Stack.byte_deposits hfits (List.forall_mem_map.mpr hj))

/-- A big-endian machine with a stack of two double words, `r0` fifteen short of a carry out of its
low half and `r10` sixteen, the top of the stack. -/
def twoCells : Machine :=
  let fresh := Machine.new { order := .big, stackSize := 16 }
  { fresh with regs := fresh.regs.put Reg.result 0xfffffff1 }

/-- The addition of a register to a cell at the top of the stack plus an offset. -/
def addAt (off : Int16) (size : Size) (opcode : UInt8) (src : Reg) : Addition :=
  { insn := { op := .atomicAdd size, opcode, dst := Reg.frame, src, off, imm := 0 }
    size
    op_eq := rfl }

/-- Two additions to the word at the bottom, and one to the upper double word in between. -/
def threeAdditions : List Addition :=
  [addAt (-16) .word 0xc3 Reg.result, addAt (-8) .double 0xdb Reg.result,
    addAt (-16) .word 0xc3 Reg.frame]

/-- Backwards too, the word comes to one: the carry out of it is lost, and does not reach the bytes
next to it. -/
theorem additions_accumulate_carry :
    ∃ stack : Stack,
      execAll ({} : Env Unit) twoCells (threeAdditions.reverse.map (·.insn)) =
        { result := .ok .next, machine := { twoCells with stack }, env := {} } ∧
      (∃ v, stack.load .big 0 4 = .ok v ∧ v.toNat = 1) ∧ stack.bytes[4]? = some 0 := by
  obtain ⟨stack, horder, hcell, -, hother⟩ :=
    additions_accumulate ({} : Env Unit) twoCells threeAdditions (by decide) (by decide)
  obtain ⟨old, new, hold, hnew, hsum⟩ := hcell _ List.mem_cons_self
  have hzero : old = 0 := Except.ok.inj (hold.symm.trans rfl)
  refine ⟨stack, horder _ (List.reverse_perm _), ⟨new, hnew, ?_⟩, hother 4 (by decide)⟩
  rw [hsum, hzero]
  rfl

end Machine

end Ebpf
