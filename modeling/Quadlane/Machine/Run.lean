import Quadlane.Machine.Action
import Quadlane.Machine.Dispatch
import Quadlane.Code.Instruction

/-! Running a code over one chunk. The code is consumed byte by byte; each instruction is carried out
on the whole chunk before the next one is looked at. -/

namespace Quadlane

/-- Why a code could not be run to its terminator. -/
inductive RunError where
  | missingDone (offset : Nat)
  | unknownOpcode (byte : UInt8) (offset : Nat)
  | missingOperands (op : Opcode) (offset : Nat)
  deriving DecidableEq

def RunError.report : RunError → Report
  | missingDone offset =>
    .ofCategory .truncatedProgram [Text.lit "missing done at offset", Text.decimal offset]
  | unknownOpcode byte offset => (ReadError.unknownOpcode byte offset).report
  | missingOperands op offset => (ReadError.missingOperands op offset).report

/-- How a run over a chunk ended. -/
inductive Ending where
  | done
  | error (e : RunError)
  /-- An operand of the instruction at the offset addresses nothing, or a set that is missing was
  looked at. -/
  | fault (offset : Nat)
  deriving DecidableEq

theorem takeByte_rest (code : List UInt8) : (takeByte code).2 = code.drop 1 := by
  cases code <;> rfl

theorem takeBytes_rest (n : Nat) (code : List UInt8) : (takeBytes n code).2 = code.drop n := by
  induction n generalizing code with
  | zero => rfl
  | succ n ih =>
    simp only [takeBytes, ih, takeByte_rest, List.drop_drop]
    rw [Nat.add_comm]

/-- Fetching takes exactly the operand bytes. -/
theorem Frame.fetch_rest (f : Frame) (m : Memory) (op : Opcode) (code : List UInt8) :
    (f.fetch m op code).2 = code.drop op.width := by
  cases op <;>
    simp [fetch, fetchKernel, fetchOnSet, fetchRead, fetchWrite, takeByte_rest, takeBytes_rest,
      Opcode.width, Opcode.layout, Nat.add_comm]

/-- Runs the rest of a code, which starts at the given offset. -/
def runFrom (table : NoiseTable) (f : Frame) (c : Chunk) (offset : Nat) (s : Store)
    (code : List UInt8) : Store × Ending :=
  match code with
  | [] => (s, .error (.missingDone offset))
  | byte :: rest =>
    if byte = Opcode.done.toByte then (s, .done)
    else match Dispatch.handler? byte with
    | none => (s, .error (.unknownOpcode byte offset))
    | some op =>
      if (rest.take op.width).length < op.width then (s, .error (.missingOperands op offset))
      else match _h : f.fetch s.memory op rest with
        | (none, _) => (s, .fault offset)
        | (some a, next) =>
          if a.reach c s < c.count then (a.perform table c s, .fault offset)
          else runFrom table f c (offset + 1 + op.width) (a.perform table c s) next
termination_by code.length
decreasing_by
  have := f.fetch_rest s.memory op rest
  simp only [_h] at this
  simp only [this, List.length_drop, List.length_cons]
  omega

end Quadlane
