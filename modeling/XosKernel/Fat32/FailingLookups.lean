/-
# Fat32.FailingLookups -- table sectors that cannot be read

The calls that look for free clusters or release chains, with transfers failing.  The lookup of
an entry and the failure to read it share the answer 0, and none of these calls tells them apart
(`set_entries_respected_iff`).
-/
import XosKernel.Fat32.CountedReads
import XosKernel.Fat32.FailingAllocation
import XosKernel.Fat32.FailedWrite

namespace XosKernel.Fat32

open XosKernel.Theory

set_option autoImplicit false

/-! ## The calls -/

section Allocate

variable {d d' : Driver}

end Allocate

/-! ## Mkdir -/

section Mkdir

variable {d : Driver} {path : CStr} (g : Geometry d.fs) (mounted : d.fsMounted = true)
include g mounted

end Mkdir

/-! ## Write -/

section Write

variable {d : Driver} {locals : Locals} {path : CStr} {data : List UInt8} (g : Geometry d.fs)
  (clean : d.ata.Clean) (coherent : d.CacheTrue) (works : d.Works (d.loads path.1 + 1))
include g works

include clean coherent

end Write

theorem Driver.Good.later {d : Driver} (good : d.Good) (n : Nat) : (d.later n).Good :=
  ⟨good.geometry, good.mounted, good.noFault, good.copies, good.coherent⟩

/-- Where no transfer fails, a search is to be trusted. -/
theorem Driver.Good.trusted {d : Driver} (good : d.Good) : Trusted d := by
  have readable : ∀ c, ¬ d.tableReads.Unreadable c :=
    fun c unreadable => unreadable.2 (good.noFault _)
  refine (trusted_iff_finds good.geometry good.cacheTrue).mpr ?_
  cases d.vol.freeClusters with
  | nil => exact fun c _ _ => readable c
  | cons c l => exact fun b _ _ => readable b

end XosKernel.Fat32
