import KernelMemory.BitField

/-!
# Control registers

The layouts of the processor's registers that the kernel reads and writes.  CR3 holds the frame of
the active root table in bits 12 to 51; bit 31 of CR0 turns paging on.
-/

namespace KernelMemory

/-! ## CR0: modes of the processor -/

namespace Cr0

/-- Bit 0: protected mode. -/
def protectionEnable : BitField := { name := "pe_protection_enable", offset := 0 }

/-- Bit 16: the kernel honours write protection too. -/
def writeProtect : BitField := { name := "wp_write_protect", offset := 16 }

/-- Bit 31: addresses are translated. -/
def paging : BitField := { name := "pg_paging", offset := 31 }

/-- The fields of CR0; the bits between them are reserved. -/
def layout : BitLayout where
  name := "Cr0"
  fields := [
    protectionEnable,
    { name := "mp_monitor_coprocessor", offset := 1 },
    { name := "em_emulation", offset := 2 },
    { name := "ts_task_switched", offset := 3 },
    { name := "et_extension_type", offset := 4 },
    { name := "ne_numeric_error", offset := 5 },
    writeProtect,
    { name := "am_alignment_mask", offset := 18 },
    { name := "nw_not_write_through", offset := 29 },
    { name := "cd_cache_disable", offset := 30 },
    paging]

end Cr0

/-! ## CR3: the active root table -/

namespace Cr3

/-- Bits 0 to 2. -/
def reserved0 : BitField := { name := "reserved0", offset := 0, width? := some 3 }

/-- Bit 3: accesses to the root table go through the cache. -/
def writeThrough : BitField := { name := "pwt", offset := 3 }

/-- Bit 4: accesses to the root table do not use the cache. -/
def cacheDisable : BitField := { name := "pcd", offset := 4 }

/-- Bits 5 to 11. -/
def reserved1 : BitField := { name := "reserved1", offset := 5, width? := some 7 }

/-- Bits 12 to 51: the number of the frame that holds the root table. -/
def rootFrame : BitField := { name := "root_frame", offset := 12, width? := some 40 }

/-- Bits 52 to 63. -/
def reserved2 : BitField := { name := "reserved2", offset := 52, width? := some 12 }

/-- The fields of CR3. -/
def layout : BitLayout where
  name := "Cr3"
  fields := [reserved0, writeThrough, cacheDisable, reserved1, rootFrame, reserved2]

/-- The register value that selects a root table, with all other bits zero. -/
def ofRoot (root : Frame) : Except Panic UInt64 :=
  rootFrame.set 0 root.number

/-- The frame of the root table that a register value selects. -/
def root (bits : UInt64) : Frame :=
  .ofNumber (rootFrame.get bits)

end Cr3

/-! ## RFLAGS: state of the running code -/

namespace Rflags

/-- Bits 0 to 8. -/
def low : BitField := { name := "low_flags", offset := 0, width? := some 9 }

/-- Bit 9: interrupts are taken. -/
def interruptEnable : BitField := { name := "if_interrupt_enable", offset := 9 }

/-- Bit 10: string instructions count down. -/
def direction : BitField := { name := "df_direction", offset := 10 }

/-- Bit 11: the last signed operation overflowed. -/
def overflow : BitField := { name := "of_overflow", offset := 11 }

/-- Bits 12 to 63. -/
def high : BitField := { name := "high_flags", offset := 12, width? := some 52 }

/-- The fields of RFLAGS. -/
def layout : BitLayout where
  name := "Rflags"
  fields := [low, interruptEnable, direction, overflow, high]

end Rflags

end KernelMemory
