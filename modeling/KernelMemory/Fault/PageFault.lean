import KernelMemory.BitField

/-!
# Page faults

A page fault is an address and the error code that the processor pushes.  The code says what the
access was and which check it failed; `FaultCode.explain` picks the one reason that the others do
not already imply.
-/

namespace KernelMemory

/-- The error code of a page fault. -/
@[ext] structure FaultCode where
  bits : UInt64
deriving DecidableEq, Repr

namespace FaultCode

/-- The page was mapped, but the access was not allowed. -/
def present : BitField := { name := "present", offset := 0 }

/-- The access was a write. -/
def write : BitField := { name := "write", offset := 1 }

/-- The access came from user mode. -/
def user : BitField := { name := "user", offset := 2 }

/-- An entry on the way had a reserved bit set. -/
def reservedBit : BitField := { name := "reserved_bit", offset := 3 }

/-- The access was an instruction fetch. -/
def instructionFetch : BitField := { name := "instruction_fetch", offset := 4 }

/-- The protection key of the page forbade the access. -/
def protectionKey : BitField := { name := "protection_key", offset := 5 }

/-- The access was to a shadow stack. -/
def shadowStack : BitField := { name := "shadow_stack", offset := 6 }

/-- The bits of the code that have a meaning. -/
def layout : BitLayout where
  name := "PageFaultError"
  fields :=
    [present, write, user, reservedBit, instructionFetch, protectionKey, shadowStack]

/-- The reason for the fault in words.  A reserved bit outranks all others; what the other bits say
of a page matters only if the page was present. -/
def explain (code : FaultCode) : String :=
  if reservedBit.test code.bits then "Reserved bit set in a paging-structure entry"
  else if !present.test code.bits then "Non-present page (page not mapped)"
  else if protectionKey.test code.bits then "Protection-key violation"
  else if shadowStack.test code.bits then "Shadow-stack access to protected page"
  else if instructionFetch.test code.bits then
    if user.test code.bits then
      "User-mode instruction fetch on protected page (likely NX or SMEP)"
    else "Kernel instruction fetch on protected page"
  else if write.test code.bits then "Write access to protected page"
  else "Read access to protected page"

/-- What the access was. -/
def access (code : FaultCode) : String :=
  if instructionFetch.test code.bits then "execute"
  else if write.test code.bits then "write"
  else "read"

/-- Which mode the access came from. -/
def mode (code : FaultCode) : String :=
  if user.test code.bits then "user" else "kernel"

end FaultCode

/-- An access that could not be translated. -/
@[ext] structure PageFault where
  address : VirtAddr
  code : FaultCode
deriving DecidableEq, Repr

namespace PageFault

/-- One line for the fault report. -/
def text (fault : PageFault) : String :=
  let code := fault.code
  "page fault at " ++ fault.address.text ++ ": " ++ code.mode ++ " " ++ code.access
    ++ " access, err=" ++ Hex.lower code.bits.toNat ++ " (" ++ code.explain ++ ")"

/-- The fields with their values. -/
def debugText (fault : PageFault) : String :=
  "PageFault \x7b address: " ++ fault.address.debugText ++ ", error: "
    ++ FaultCode.layout.debugText fault.code.bits ++ " \x7d"

end PageFault

end KernelMemory
