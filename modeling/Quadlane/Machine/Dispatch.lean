import Quadlane.Code.Opcode

/-! What is carried out for a byte of a code. Kernels are kept by their number of sources, each at the
byte of its opcode. The terminator and the bytes outside the closed set have no entry. -/

namespace Quadlane.Dispatch

def unaryKernels : List (UInt8 × Kernel.Unary) :=
  [(7, .rcp), (8, .rsq), (9, .sqrt), (10, .neg), (11, .abs), (12, .exp), (13, .exp2), (14, .log),
    (15, .log2), (16, .sin), (17, .cos), (18, .tan), (19, .asin), (20, .acos), (21, .atan),
    (23, .ceil), (24, .floor), (26, .frac), (27, .trunc), (32, .sign), (33, .step),
    (36, .normalize), (38, .length), (40, .splatx), (41, .splaty), (42, .splatz), (43, .splatw),
    (52, .easeinout), (53, .output)]

def binaryKernels : List (UInt8 × Kernel.Binary) :=
  [(1, .add), (2, .sub), (3, .mul), (4, .div), (22, .atan2), (25, .fmod), (29, .min), (30, .max),
    (31, .pow), (34, .dot), (35, .cross), (49, .lessthan)]

def ternaryKernels : List (UInt8 × Kernel.Ternary) :=
  [(5, .mad), (6, .lerp), (28, .clamp), (50, .select), (51, .easein)]

def quaternaryKernels : List (UInt8 × Kernel.Quaternary) :=
  [(44, .compose), (45, .composex), (46, .composey), (47, .composez), (48, .composew)]

/-- Instructions that use the state of the machine or a shared data set. -/
def others : List (UInt8 × Opcode) :=
  [(37, .kernel .random), (39, .kernel .noise), (54, .cursor .acquire), (55, .cursor .acquireWrap),
    (56, .cursor .consume), (57, .cursor .consumeWrap), (58, .dataRead), (59, .dataWrite),
    (60, .indexValid)]

/-- What is carried out for a byte. -/
def handler? (b : UInt8) : Option Opcode :=
  (unaryKernels.lookup b).map (fun op => .kernel (.unary op)) <|>
    (binaryKernels.lookup b).map (fun op => .kernel (.binary op)) <|>
    (ternaryKernels.lookup b).map (fun op => .kernel (.ternary op)) <|>
    (quaternaryKernels.lookup b).map (fun op => .kernel (.quaternary op)) <|>
    others.lookup b

/-- Every opcode but the terminator is carried out, at its own byte and with its own sources. -/
theorem handler?_eq (b : UInt8) : handler? b = (Opcode.ofByte? b).filter (· ≠ .done) := by
  have hall : ∀ n : Fin 256,
      handler? (.ofNat n) = (Opcode.ofByte? (.ofNat n)).filter (· ≠ .done) := by decide +kernel
  simpa using hall ⟨b.toNat, b.toNat_lt⟩

theorem ofByte?_eq_done_iff (b : UInt8) :
    Opcode.ofByte? b = some .done ↔ b = Opcode.done.toByte := by
  have hall : ∀ n : Fin 256,
      Opcode.ofByte? (.ofNat n) = some .done ↔ (.ofNat n : UInt8) = Opcode.done.toByte := by
    decide +kernel
  simpa using hall ⟨b.toNat, b.toNat_lt⟩

end Quadlane.Dispatch
