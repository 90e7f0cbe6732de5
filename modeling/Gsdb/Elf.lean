/-
ELF files as the debugger knows them: section headers, load biases, and the
translation between the addresses of a file and those of the running program.
-/
import Gsdb.Failure

namespace Gsdb

open ByteMemory ByteCursor

/-- `Elf64_Shdr`, with the name that `sh_name` stands for. -/
structure SectionHeader where
  name : String
  shFlags : Word
  shAddr : Word
  shOffset : Word
  shSize : Word
deriving DecidableEq, Repr

/-- `gsdb::elf`; `map` is the file as it is mapped into the debugger. -/
structure Elf where
  map : List Byte
  sectionHeaders : List SectionHeader
  loadBias : Word
deriving DecidableEq, Repr

/-- `gsdb::file_addr`.  A file is known by its position in the collection; the
null address belongs to none. -/
structure FileAddr where
  elf : Option Nat
  addr : Word
deriving DecidableEq, Repr

/-- `elf_collection`, in the order in which it is searched. -/
abbrev ElfCollection := List Elf

namespace SectionHeader

/-- The test of `get_section_containing_address` for a file address. -/
def containsFileAddress (header : SectionHeader) (addr : Word) : Bool :=
  header.shAddr ≤ addr ∧ header.shAddr + header.shSize > addr

/-- The test of `get_section_containing_address` for a virtual address. -/
def containsVirtAddress (header : SectionHeader) (loadBias addr : Word) : Bool :=
  addr ≥ loadBias + header.shAddr ∧ loadBias + header.shAddr + header.shSize > addr

end SectionHeader

namespace Elf

/-- `get_section_containing_address` for an address of this file. -/
def sectionContainingFileAddress (elf : Elf) (addr : Word) : Option SectionHeader :=
  elf.sectionHeaders.find? fun header => header.containsFileAddress addr

/-- `get_section_containing_address` for a virtual address. -/
def sectionContainingVirtAddress (elf : Elf) (addr : Word) : Option SectionHeader :=
  elf.sectionHeaders.find? fun header => header.containsVirtAddress elf.loadBias addr

/-- `elf::get_section`: of sections with one name the map keeps the last. -/
def getSection (elf : Elf) (name : String) : Option SectionHeader :=
  elf.sectionHeaders.reverse.find? fun header => header.name = name

/-- `get_section_start_address`, an address of this file. -/
def getSectionStartAddress (elf : Elf) (name : String) : Option Word :=
  (elf.getSection name).map SectionHeader.shAddr

end Elf

namespace ElfCollection

def getElfContainingAddress (elves : ElfCollection) (addr : Word) : Option Nat :=
  elves.findIdx? fun elf => (elf.sectionContainingVirtAddress addr).isSome

end ElfCollection

/-- `file_addr::to_virt_addr` for an address of this file; an address in no section
becomes the null address. -/
def Elf.toVirtAddr (elf : Elf) (addr : Word) : Word :=
  match elf.sectionContainingFileAddress addr with
  | none => 0
  | some _ => addr + elf.loadBias

/-- `file_addr::to_virt_addr`. -/
def FileAddr.toVirtAddr (elves : ElfCollection) (addr : FileAddr) : Except Failure Word :=
  match addr.elf.bind fun position => elves[position]? with
  | none => .error (.undefined "to_virt_addr called on NULL address")
  | some elf => .ok (elf.toVirtAddr addr.addr)

/-- `virt_addr::to_file_addr` for a file of the collection. -/
def toFileAddrIn (elves : ElfCollection) (position : Nat) (addr : Word) : FileAddr :=
  match elves[position]? with
  | none => ⟨none, 0⟩
  | some elf =>
      match elf.sectionContainingVirtAddress addr with
      | none => ⟨none, 0⟩
      | some _ => ⟨some position, addr - elf.loadBias⟩

/-- `virt_addr::to_file_addr` for the collection. -/
def toFileAddr (elves : ElfCollection) (addr : Word) : FileAddr :=
  match elves.getElfContainingAddress addr with
  | none => ⟨none, 0⟩
  | some position => toFileAddrIn elves position addr

end Gsdb
