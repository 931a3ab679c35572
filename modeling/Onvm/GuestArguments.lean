import Onvm.StateCalls

/-! Pointers and lengths that a guest passes to the host. The guest means 32-bit numbers without a
sign; the host functions extend the sign. -/

namespace Onvm

open ByteString OrderedStore Std

def unsigned (x : Int32) : Nat := x.toUInt32.toNat

section Reading

variable {mem : Memory} {ptr len : Int32} {code : Int64}

end Reading

namespace HostCall

variable (pf : Platform) {lib : HostLib} (out : Outside lib) (ctx : ExecutionContext) (mem : Memory)

end HostCall

section Panics

variable {α β : Type} {mem : Memory}

variable {pf : Platform} {lib : HostLib} {out : Outside lib} {ctx : ExecutionContext}

end Panics

section Output

variable (pf : Platform) (lib : HostLib) (g : Guest) (out : Outside lib)

/-- The entry point of the module returns, and says that the output lies at `outPtr` in `mem`. -/
def LeavesOutput (call : GuestCall) (outPtr outLen : Int32) (mem : Memory) : Prop :=
  ∃ halt fuel ctx entry mem₀ fuel' ctx',
    g.drive pf lib out call.maxFuel.toNat (startContext call.programId (ExtTreeMap.ofList call.entries compare))
      g.instantiate = .ok (halt, fuel, ctx) ∧
    g.exportsMemory = true ∧ g.entry call.entrypoint = some entry ∧
    halt.memory.write 0 call.input = some mem₀ ∧
    callEntry pf lib g out fuel ctx halt.control call.entrypoint (Int32.ofNat call.input.length) mem₀ entry =
      .ok (outPtr, outLen, mem, fuel', ctx')

variable {pf lib g out}

theorem LeavesOutput.returnData {call : GuestCall} {outPtr outLen : Int32} {mem : Memory}
    (h : LeavesOutput pf lib g out call outPtr outLen mem) :
    (runModule pf lib g out call).map GuestResult.returnData =
      if outLen < 0 then .error "capacity overflow" else outOfBounds (mem.read (usize outPtr) (usize outLen)) := by
  obtain ⟨halt, fuel, ctx, entry, mem₀, fuel', ctx', hdrive, hmem, hentry, hwrite, hcall⟩ := h
  rw [startContext] at hdrive
  rw [runModule]
  simp only [hdrive, hmem, hentry, hwrite, hcall, Except.bind, outOfBounds, Bool.not_true,
    Bool.false_eq_true, if_false]
  split
  · rfl
  · cases mem.read (usize outPtr) (usize outLen) <;> rfl

end Output

end Onvm
