import Axel.Fault
import Axel.Lib.Strides

/-!
# The BSS section

`memory::clean_bss_section` fills the BSS section of the kernel before anything else runs. The
section is given by two symbols of the linker script. The fill itself is `memset` of the
crate `rlibc`, which is a parameter here: `memset s c n` stores the low byte of `c` into the
`n` bytes from `s` on.
-/

namespace Axel

/-- The symbols of the linker script that describe the BSS section. -/
structure BssSymbols where
  /-- The address of `KERNEL_ADDR_BSS_BEGIN`. -/
  addrBssBegin : ℕ
  /-- The address of `KERNEL_SIZE_BSS`. -/
  sizeBss : ℕ
  /-- Symbols are addresses. -/
  addrBssBegin_lt : addrBssBegin < usizeCount
  /-- Symbols are addresses. -/
  sizeBss_lt : sizeBss < usizeCount

/-- `kernel_bss_section_addr_begin`. -/
def kernelBssSectionAddrBegin (symbols : BssSymbols) : ℕ := symbols.addrBssBegin

/-- `kernel_bss_section_size`. -/
def kernelBssSectionSize (symbols : BssSymbols) : ℕ := symbols.sizeBss

/-- The type of `memset`: a pointer, a C integer, a number of bytes, and the memory. -/
abbrev Memset := ℕ → Int32 → ℕ → (ℕ → UInt8) → (ℕ → UInt8)

/-- `memset` stores the low byte of its second argument, as many times as the third says, and
nothing else. -/
def Memset.Documented (memset : Memset) : Prop :=
  ∀ s c n memory, memset s c n memory = Strides.fill memory s n c.toUInt32.toUInt8

/-- `clean_bss_section`. The second argument of `memset` has the type `i32`. -/
def cleanBssSection (memset : Memset) (symbols : BssSymbols) (memory : ℕ → UInt8) :
    ℕ → UInt8 :=
  let addrBegin := kernelBssSectionAddrBegin symbols
  let size := Int32.ofNat (kernelBssSectionSize symbols)
  memset addrBegin size 0x00 memory

/-- The address lies in the BSS section. -/
def BssSymbols.Contains (symbols : BssSymbols) (addr : ℕ) : Prop :=
  symbols.addrBssBegin ≤ addr ∧ addr < symbols.addrBssBegin + symbols.sizeBss

/-- The section has been zeroed and nothing else has changed. -/
structure BssSymbols.Zeroed (symbols : BssSymbols) (memory memory' : ℕ → UInt8) : Prop where
  /-- Every byte of the section is zero. -/
  inside : ∀ addr, symbols.Contains addr → memory' addr = 0
  /-- Every other byte is as before. -/
  outside : ∀ addr, ¬ symbols.Contains addr → memory' addr = memory addr

/-- `clean_bss_section` changes no byte: the size goes to the parameter for the value, and the
number of bytes is the zero that was meant as the value. -/
theorem cleanBssSection_eq {memset : Memset} (hmemset : memset.Documented)
    (symbols : BssSymbols) (memory : ℕ → UInt8) :
    cleanBssSection memset symbols memory = memory := by
  unfold cleanBssSection
  rw [hmemset]
  funext addr
  refine if_neg ?_
  rintro ⟨hle, hlt⟩
  exact absurd hlt (Nat.not_lt.mpr hle)

/-- With the arguments in the documented order the section would be zeroed. -/
theorem zeroed_memset {memset : Memset} (hmemset : memset.Documented)
    (symbols : BssSymbols) (memory : ℕ → UInt8) :
    symbols.Zeroed memory (memset (kernelBssSectionAddrBegin symbols) 0x00
      (kernelBssSectionSize symbols) memory) := by
  rw [hmemset]
  exact ⟨fun addr hin => if_pos hin, fun addr hout => if_neg hout⟩

/-- `clean_bss_section` zeroes the section exactly if it was zero already. -/
theorem cleanBssSection_zeroed_iff {memset : Memset} (hmemset : memset.Documented)
    (symbols : BssSymbols) (memory : ℕ → UInt8) :
    symbols.Zeroed memory (cleanBssSection memset symbols memory) ↔
      ∀ addr, symbols.Contains addr → memory addr = 0 := by
  rw [cleanBssSection_eq hmemset]
  exact ⟨fun hzeroed => hzeroed.inside, fun hzero => ⟨hzero, fun _ _ => rfl⟩⟩

/-- A section of one byte at 1 MiB. -/
def oneByteBss : BssSymbols where
  addrBssBegin := 0x100000
  sizeBss := 1
  addrBssBegin_lt := by decide
  sizeBss_lt := by decide

/-- The equivalence for the fill that the library does, a section of one byte and a memory of
zeros. -/
theorem cleanBssSection_zeroed_iff_oneByte :
    oneByteBss.Zeroed (fun _ => 0)
      (cleanBssSection (fun s c n memory => Strides.fill memory s n c.toUInt32.toUInt8)
        oneByteBss fun _ => 0) :=
  (cleanBssSection_zeroed_iff (fun _ _ _ _ => rfl) oneByteBss fun _ => 0).mpr
    fun _ _ => rfl

/-- A byte that the loader left in the section stays there. -/
theorem not_cleanBssSection_zeroed :
    ¬ ∀ memset : Memset, memset.Documented →
      ∀ (symbols : BssSymbols) (memory : ℕ → UInt8),
        symbols.Zeroed memory (cleanBssSection memset symbols memory) := by
  intro hall
  have hzeroed := hall (fun s c n memory => Strides.fill memory s n c.toUInt32.toUInt8)
    (fun _ _ _ _ => rfl) oneByteBss fun _ => 0xFF
  have hbyte := hzeroed.inside 0x100000 ⟨by decide, by decide⟩
  rw [cleanBssSection_eq fun _ _ _ _ => rfl] at hbyte
  exact absurd hbyte (by decide)

end Axel
