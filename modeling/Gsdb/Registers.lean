/-
The register file of a traced thread: the table of registers, the user area in
which their bytes live, and reading and writing a register in a cached copy of
that area.
-/
import Gsdb.Failure

namespace Gsdb

open ByteMemory

inductive RegisterId where
  | rax | rdx | rcx | rbx | rsi | rdi | rbp | rsp | r8 | r9 | r10 | r11 | r12 | r13 | r14
  | r15 | rip | eflags | cs | fs | gs | ss | ds | es | origRax | eax | edx | ecx | ebx
  | esi | edi | ebp | esp | r8d | r9d | r10d | r11d | r12d | r13d | r14d | r15d | ax | dx
  | cx | bx | si | di | bp | sp | r8w | r9w | r10w | r11w | r12w | r13w | r14w | r15w | ah
  | dh | ch | bh | al | dl | cl | bl | sil | dil | bpl | spl | r8b | r9b | r10b | r11b
  | r12b | r13b | r14b | r15b | fcw | fsw | ftw | fop | frip | frdp | mxcsr | mxcsrmask
  | st0 | st1 | st2 | st3 | st4 | st5 | st6 | st7 | mm0 | mm1 | mm2 | mm3 | mm4 | mm5 | mm6
  | mm7 | xmm0 | xmm1 | xmm2 | xmm3 | xmm4 | xmm5 | xmm6 | xmm7 | xmm8 | xmm9 | xmm10
  | xmm11 | xmm12 | xmm13 | xmm14 | xmm15 | dr0 | dr1 | dr2 | dr3 | dr4 | dr5 | dr6 | dr7
deriving DecidableEq

inductive RegisterType where
  | gpr | subGpr | fpr | dr
deriving DecidableEq, Repr

/-- Different ways of interpreting a register. -/
inductive RegisterFormat where
  | uint | doubleFloat | longDouble | vector
deriving DecidableEq, Repr

/-- `offset` is the byte offset inside the `user` struct. -/
structure RegisterInfo where
  id : RegisterId
  name : String
  dwarfId : Int
  size : Nat
  offset : Nat
  type : RegisterType
  format : RegisterFormat
deriving DecidableEq

/-- Offset of the general purpose registers in the `user` struct, of the
floating point block and of the debug registers. -/
def regsOffset : Nat := 0
def i387Offset : Nat := 224
def debugregOffset : Nat := 848

def regsSize : Nat := 216
def i387Size : Nat := 512

def gpr64 (id : RegisterId) (name : String) (dwarfId : Int) (offset : Nat) : RegisterInfo :=
  ⟨id, name, dwarfId, 8, regsOffset + offset, .gpr, .uint⟩

def gpr32 (id : RegisterId) (name : String) (offset : Nat) : RegisterInfo :=
  ⟨id, name, -1, 4, regsOffset + offset, .subGpr, .uint⟩

def gpr16 (id : RegisterId) (name : String) (offset : Nat) : RegisterInfo :=
  ⟨id, name, -1, 2, regsOffset + offset, .subGpr, .uint⟩

def gpr8h (id : RegisterId) (name : String) (offset : Nat) : RegisterInfo :=
  ⟨id, name, -1, 1, regsOffset + offset + 1, .subGpr, .uint⟩

def gpr8l (id : RegisterId) (name : String) (offset : Nat) : RegisterInfo :=
  ⟨id, name, -1, 1, regsOffset + offset, .subGpr, .uint⟩

def fprInfo (id : RegisterId) (name : String) (dwarfId : Int) (size offset : Nat) :
    RegisterInfo :=
  ⟨id, name, dwarfId, size, i387Offset + offset, .fpr, .uint⟩

def fpSt (id : RegisterId) (name : String) (number : Nat) : RegisterInfo :=
  ⟨id, name, 33 + number, 16, i387Offset + 32 + number * 16, .fpr, .longDouble⟩

def fpMm (id : RegisterId) (name : String) (number : Nat) : RegisterInfo :=
  ⟨id, name, 41 + number, 8, i387Offset + 32 + number * 16, .fpr, .vector⟩

def fpXmm (id : RegisterId) (name : String) (number : Nat) : RegisterInfo :=
  ⟨id, name, 17 + number, 16, i387Offset + 160 + number * 16, .fpr, .vector⟩

def drInfo (id : RegisterId) (name : String) (number : Nat) : RegisterInfo :=
  ⟨id, name, -1, 8, debugregOffset + number * 8, .dr, .uint⟩

/-- The table of `registers.inc`, in its order. -/
def registerInfos : List RegisterInfo := [
  gpr64 .rax "rax" 0 80, gpr64 .rdx "rdx" 1 96, gpr64 .rcx "rcx" 2 88,
  gpr64 .rbx "rbx" 3 40, gpr64 .rsi "rsi" 4 104, gpr64 .rdi "rdi" 5 112,
  gpr64 .rbp "rbp" 6 32, gpr64 .rsp "rsp" 7 152, gpr64 .r8 "r8" 8 72, gpr64 .r9 "r9" 9 64,
  gpr64 .r10 "r10" 10 56, gpr64 .r11 "r11" 11 48, gpr64 .r12 "r12" 12 24,
  gpr64 .r13 "r13" 13 16, gpr64 .r14 "r14" 14 8, gpr64 .r15 "r15" 15 0,
  gpr64 .rip "rip" 16 128, gpr64 .eflags "eflags" 49 144, gpr64 .cs "cs" 51 136,
  gpr64 .fs "fs" 54 200, gpr64 .gs "gs" 55 208, gpr64 .ss "ss" 52 160,
  gpr64 .ds "ds" 53 184, gpr64 .es "es" 50 192, gpr64 .origRax "orig_rax" (-1) 120,
  gpr32 .eax "eax" 80, gpr32 .edx "edx" 96, gpr32 .ecx "ecx" 88, gpr32 .ebx "ebx" 40,
  gpr32 .esi "esi" 104, gpr32 .edi "edi" 112, gpr32 .ebp "ebp" 32, gpr32 .esp "esp" 152,
  gpr32 .r8d "r8d" 72, gpr32 .r9d "r9d" 64, gpr32 .r10d "r10d" 56, gpr32 .r11d "r11d" 48,
  gpr32 .r12d "r12d" 24, gpr32 .r13d "r13d" 16, gpr32 .r14d "r14d" 8, gpr32 .r15d "r15d" 0,
  gpr16 .ax "ax" 80, gpr16 .dx "dx" 96, gpr16 .cx "cx" 88, gpr16 .bx "bx" 40,
  gpr16 .si "si" 104, gpr16 .di "di" 112, gpr16 .bp "bp" 32, gpr16 .sp "sp" 152,
  gpr16 .r8w "r8w" 72, gpr16 .r9w "r9w" 64, gpr16 .r10w "r10w" 56, gpr16 .r11w "r11w" 48,
  gpr16 .r12w "r12w" 24, gpr16 .r13w "r13w" 16, gpr16 .r14w "r14w" 8, gpr16 .r15w "r15w" 0,
  gpr8h .ah "ah" 80, gpr8h .dh "dh" 96, gpr8h .ch "ch" 88, gpr8h .bh "bh" 40,
  gpr8l .al "al" 80, gpr8l .dl "dl" 96, gpr8l .cl "cl" 88, gpr8l .bl "bl" 40,
  gpr8l .sil "sil" 104, gpr8l .dil "dil" 112, gpr8l .bpl "bpl" 32, gpr8l .spl "spl" 152,
  gpr8l .r8b "r8b" 72, gpr8l .r9b "r9b" 64, gpr8l .r10b "r10b" 56, gpr8l .r11b "r11b" 48,
  gpr8l .r12b "r12b" 24, gpr8l .r13b "r13b" 16, gpr8l .r14b "r14b" 8, gpr8l .r15b "r15b" 0,
  fprInfo .fcw "fcw" 65 2 0, fprInfo .fsw "fsw" 66 2 2, fprInfo .ftw "ftw" (-1) 2 4,
  fprInfo .fop "fop" (-1) 2 6, fprInfo .frip "frip" (-1) 8 8,
  fprInfo .frdp "frdp" (-1) 8 16, fprInfo .mxcsr "mxcsr" 64 4 24,
  fprInfo .mxcsrmask "mxcsrmask" (-1) 4 28, fpSt .st0 "st0" 0, fpSt .st1 "st1" 1,
  fpSt .st2 "st2" 2, fpSt .st3 "st3" 3, fpSt .st4 "st4" 4, fpSt .st5 "st5" 5,
  fpSt .st6 "st6" 6, fpSt .st7 "st7" 7, fpMm .mm0 "mm0" 0, fpMm .mm1 "mm1" 1,
  fpMm .mm2 "mm2" 2, fpMm .mm3 "mm3" 3, fpMm .mm4 "mm4" 4, fpMm .mm5 "mm5" 5,
  fpMm .mm6 "mm6" 6, fpMm .mm7 "mm7" 7, fpXmm .xmm0 "xmm0" 0, fpXmm .xmm1 "xmm1" 1,
  fpXmm .xmm2 "xmm2" 2, fpXmm .xmm3 "xmm3" 3, fpXmm .xmm4 "xmm4" 4, fpXmm .xmm5 "xmm5" 5,
  fpXmm .xmm6 "xmm6" 6, fpXmm .xmm7 "xmm7" 7, fpXmm .xmm8 "xmm8" 8, fpXmm .xmm9 "xmm9" 9,
  fpXmm .xmm10 "xmm10" 10, fpXmm .xmm11 "xmm11" 11, fpXmm .xmm12 "xmm12" 12,
  fpXmm .xmm13 "xmm13" 13, fpXmm .xmm14 "xmm14" 14, fpXmm .xmm15 "xmm15" 15,
  drInfo .dr0 "dr0" 0, drInfo .dr1 "dr1" 1, drInfo .dr2 "dr2" 2, drInfo .dr3 "dr3" 3,
  drInfo .dr4 "dr4" 4, drInfo .dr5 "dr5" 5, drInfo .dr6 "dr6" 6, drInfo .dr7 "dr7" 7]

/-- `register_info_by`: the first entry that satisfies the predicate. -/
def registerInfoBy (f : RegisterInfo → Bool) : Except Failure RegisterInfo :=
  match registerInfos.find? f with
  | some info => .ok info
  | none => .error (.error "CANNOT find register info")

def registerInfoById (id : RegisterId) : Except Failure RegisterInfo :=
  registerInfoBy fun info => info.id = id

def registerInfoByDwarf (dwarfId : Int) : Except Failure RegisterInfo :=
  registerInfoBy fun info => info.dwarfId = dwarfId

theorem registerInfoBy_mem {f : RegisterInfo → Bool} {info : RegisterInfo}
    (h : registerInfoBy f = .ok info) : info ∈ registerInfos := by
  unfold registerInfoBy at h
  split at h
  · rename_i found hfound
    obtain rfl := Except.ok.inj h
    exact List.mem_of_find?_eq_some hfound
  · cases h

/-- The register that a DWARF number selects has that number. -/
theorem registerInfoByDwarf_dwarfId {number : Int} {info : RegisterInfo}
    (h : registerInfoByDwarf number = .ok info) : info.dwarfId = number := by
  unfold registerInfoByDwarf registerInfoBy at h
  split at h
  · rename_i found hfound
    obtain rfl := Except.ok.inj h
    simpa using List.find?_some hfound
  · cases h

/-- The user area of a thread, addressed by byte offset in the `user` struct. -/
abbrev User := Area

/-- The value of a register.  Byte arrays are little-endian words; `float` and
`double`, which no register of the table holds, are left out. -/
inductive Value where
  | u8 (x : BitVec 8) | u16 (x : BitVec 16) | u32 (x : BitVec 32) | u64 (x : Word)
  | i8 (x : BitVec 8) | i16 (x : BitVec 16) | i32 (x : BitVec 32) | i64 (x : Word)
  | longDouble (x : BitVec 128) | byte64 (x : Word) | byte128 (x : BitVec 128)
deriving DecidableEq, Repr

/-- `sizeof` of the alternative a value holds. -/
def Value.sizeof : Value → Nat
  | .u8 _ | .i8 _ => 1
  | .u16 _ | .i16 _ => 2
  | .u32 _ | .i32 _ => 4
  | .u64 _ | .i64 _ | .byte64 _ => 8
  | .longDouble _ | .byte128 _ => 16

/-- A signed value is sign-extended to an integer register and zero-filled
above it. -/
def widenSigned {w : Nat} (info : RegisterInfo) (x : BitVec w) : BitVec 128 :=
  match info.format, info.size with
  | .uint, 2 => (x.signExtend 16).setWidth 128
  | .uint, 4 => (x.signExtend 32).setWidth 128
  | .uint, 8 => (x.signExtend 64).setWidth 128
  | _, _ => x.setWidth 128

def widen (info : RegisterInfo) : Value → BitVec 128
  | .i8 x => widenSigned info x
  | .i16 x => widenSigned info x
  | .i32 x => widenSigned info x
  | .i64 x => widenSigned info x
  | .u8 x => x.setWidth 128
  | .u16 x => x.setWidth 128
  | .u32 x => x.setWidth 128
  | .u64 x | .byte64 x => x.setWidth 128
  | .longDouble x | .byte128 x => x

/-- `gsdb::registers`: a cached user area, the canonical offsets of registers
without a recoverable value, and the frame's canonical frame address. -/
structure Registers where
  data : User
  undefinedOffsets : List Nat
  cfa : Word

namespace Registers

/-- A byte register and its containing register share the halved offset. -/
def isUndefined (regs : Registers) (info : RegisterInfo) : Bool :=
  regs.undefinedOffsets.contains (info.offset / 2)

def undefine (regs : Registers) (info : RegisterInfo) : Registers :=
  { regs with undefinedOffsets := regs.undefinedOffsets ++ [info.offset / 2] }

/-- The `w / 8` bytes at an offset as a word. -/
def word (data : User) (w offset : Nat) : BitVec w :=
  BitVec.ofNat w (ofLe (data.read offset (w / 8)))

def read (regs : Registers) (info : RegisterInfo) : Except Failure Value :=
  if regs.isUndefined info then .error (.error "Register is undefined")
  else
    match info.format with
    | .uint =>
        match info.size with
        | 1 => .ok (.u8 (word regs.data 8 info.offset))
        | 2 => .ok (.u16 (word regs.data 16 info.offset))
        | 4 => .ok (.u32 (word regs.data 32 info.offset))
        | 8 => .ok (.u64 (word regs.data 64 info.offset))
        | _ => .error (.error "Unexpected register size!")
    | .doubleFloat => .error (.undefined "no register has this format")
    | .longDouble => .ok (.longDouble (word regs.data 128 info.offset))
    | .vector =>
        if info.size = 8 then .ok (.byte64 (word regs.data 64 info.offset))
        else .ok (.byte128 (word regs.data 128 info.offset))

/-- `std::get<std::uint64_t>` on a register value. -/
def asU64 : Value → Except Failure Word
  | .u64 x => .ok x
  | _ => .error (.exception "bad_variant_access")

/-- `read_by_id_as<std::uint64_t>`. -/
def readU64 (regs : Registers) (id : RegisterId) : Except Failure Word := do
  let info ← registerInfoById id
  asU64 (← regs.read info)

/-- `read_by_id_as<byte128>`. -/
def readByte128 (regs : Registers) (id : RegisterId) : Except Failure (BitVec 128) := do
  let info ← registerInfoById id
  match ← regs.read info with
  | .byte128 x => .ok x
  | _ => .error (.exception "bad_variant_access")

/-- The cached half of `registers::write`: the bytes of the register are
replaced by the widened value. -/
def writeData (regs : Registers) (info : RegisterInfo) (val : Value) :
    Except Failure Registers :=
  if val.sizeof ≤ info.size then
    .ok { regs with
      data := regs.data.write info.offset (toLe info.size (widen info val).toNat) }
  else .error .terminate

end Registers

/-- A byte of the user area that belongs to a general purpose, floating point
or debug register.  DR4 and DR5 are aliases without storage of their own. -/
def isRegisterByte (i : Nat) : Prop :=
  i < regsOffset + regsSize ∨
    (i387Offset ≤ i ∧ i < i387Offset + i387Size) ∨
    (debugregOffset ≤ i ∧ i < debugregOffset + 32) ∨
    (debugregOffset + 48 ≤ i ∧ i < debugregOffset + 64)

instance (i : Nat) : Decidable (isRegisterByte i) :=
  inferInstanceAs (Decidable (_ ∨ _))

end Gsdb
