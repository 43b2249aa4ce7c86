import DocumentViews.Json.Printer
import DocumentViews.Kernel.Basic

/-!
Kernels as JSON objects, with a member for each slot in the order of the slots.
-/

namespace DocumentViews.Kernel

def toJson (kernel : Kernel) : Json :=
  .obj (Slot.all.map fun slot => (slot.name, .str (kernel.get slot)))

end DocumentViews.Kernel
