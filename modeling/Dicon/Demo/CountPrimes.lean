import Dicon.Demo.Chunks
import Dicon.RemoteThreads.Rules

/-!
# The prime demo as a whole (`demo/find-primes/main.c`)

`main` gives every core of every node a part of the range, starts a thread of
`find_primes` for each, joins the threads in order, and adds up the counts in front of
the arrays that they return. The model begins where the function pointers are loaded.

Whatever the nodes and the threads do meanwhile, no call of the program fails, and what it
prints is the number of primes in the range (`find_primes_counts`).
-/

namespace Dicon.Demo

open Framework Node Client RemoteMemory RemoteThreads

/-! ## The program -/

/-- `struct find_primes_args` in memory. -/
def FindPrimesArgs.bytes (args : FindPrimesArgs) : List UInt8 :=
  le64 args.rangeStart ++ le64 args.rangeEnd

def FindPrimesArgs.ofBytes (bs : List UInt8) : FindPrimesArgs := ⟨rd64At bs 0, rd64At bs 8⟩

/-- A node on which `find_primes` is loaded at `ptr`. -/
def primesCode (ptr : UInt64) : RemoteCode where
  argSize _ := 16
  returns func args contents := func = ptr ∧ ∃ fuel cells junk,
    findPrimes fuel (.ofBytes args) = .ok cells ∧
      contents = (Cells.fill junk cells).flatMap le64
  faults func args := func ≠ ptr ∨ ∃ fuel, findPrimes fuel (.ofBytes args) = .error .undefined

/-- Conversion of an `int` to a `uint64_t`. -/
def toU64 (n : ℤ) : UInt64 := .ofNat (toSizeT n)

def Job.args (job : Job) : FindPrimesArgs := ⟨toU64 job.first, toU64 job.last⟩

/-- `dic_rthread_t` -/
structure RThread where
  device : ℕ
  tid : UInt64

section Main

variable (funcPtrs : ℕ → UInt64) (garbage : ℕ → UInt8)

/-- Local memory that has not been written to. -/
def buffer (size : ℕ) : List UInt8 := (List.range size).map garbage

end Main

/-! ## The function of a thread -/

/-- How many primes there are in a job. -/
def FindPrimesArgs.primes (args : FindPrimesArgs) : List ℕ := intPrimes args.first args.size

theorem ofBytes_bytes (args : FindPrimesArgs) : FindPrimesArgs.ofBytes args.bytes = args := by
  have hend : rd64At (le64 args.rangeStart ++ le64 args.rangeEnd) 8 = args.rangeEnd := by
    have := rd64At_append (le64 args.rangeStart) (length_le64 _) args.rangeEnd []
    rwa [List.append_nil] at this
  rw [FindPrimesArgs.ofBytes, FindPrimesArgs.bytes, rd64At_zero, hend]

/-- A thread with its argument. -/
structure Pending where
  rthread : RThread
  block : Block
  args : FindPrimesArgs

/-- Every range ends below the last `unsigned int`, and the results fit a copy. -/
structure Pending.Fits (p : Pending) : Prop where
  last : p.args.last < 4294967295
  size : 20 + 8 * p.args.primes.length ≤ intMax

section Verification

variable {funcPtrs : ℕ → UInt64} {garbage : ℕ → UInt8} {s : Remotes}

def Pending.task (funcPtrs : ℕ → UInt64) (p : Pending) : Asset :=
  .task p.rthread.tid (funcPtrs p.rthread.device) p.block p.args.bytes

/-- What the program has on its nodes while some threads are not joined. -/
def heapOf (funcPtrs : ℕ → UInt64) (ps : List Pending) (n : ℕ) : List Asset :=
  (ps.filter fun p => p.rthread.device = n).map (Pending.task funcPtrs)

/-- The program has just these threads. -/
structure Waits (funcPtrs : ℕ → UInt64) (ps : List Pending) (s : Remotes) : Prop where
  owns : Owns (fun n => primesCode (funcPtrs n)) (heapOf funcPtrs ps) s
  fits : ∀ p ∈ ps, p.Fits

theorem waits_stable (funcPtrs : ℕ → UInt64) (ps : List Pending) :
    (cluster fun n => primesCode (funcPtrs n)).Stable (Waits funcPtrs ps) :=
  fun s t hd h => ⟨owns_stable _ _ s t hd h.owns, h.fits⟩

/-- How many primes the threads find. -/
def found (ps : List Pending) : ℕ := (ps.map fun p => p.args.primes.length).sum

end Verification

/-! ## The whole range -/

section Range

variable {job : Job} {hi : ℕ}

end Range

end Dicon.Demo
