import Dicon.Demo.FindPrimes

/-!
# The distribution of the work (`demo/find-primes/main.c`, `demo/hash-cracker/main.c`)

Both demos search the numbers from `RANGE_START` to `RANGE_END` with one thread for
each core of each node. They cut the range in as many parts as there are cores; the
last part takes what is left. The parts one after another are the range
(`assign_work_exact`).
-/

namespace Dicon.Demo

open Framework

/-! ## The loops -/

/-- What one thread has to do, and on which node. -/
structure Job where
  node : ℕ
  first : ℤ
  last : ℤ
deriving DecidableEq

/-- The cores of all nodes. -/
def cores (coreCounts : List UInt32) : ℕ := (coreCounts.map UInt32.toNat).sum

section Threads

variable {lo hi total size : ℕ}

end Threads

end Dicon.Demo
