import Dicon.Framework.Script
import Dicon.RemoteMemory.Refinement

/-!
# A client and the nodes that run threads for it

One client process with a connection to each of its nodes. It makes one call of the
library at a time (`client_node_communication.h`); between and during the calls the
threads that it has started run in the node processes. A thread reads the struct that
its argument points to, and returns a block that it has allocated, or takes its process
down (`Remote.Drift`). What the function of a thread computes is a parameter
(`RemoteCode`).

`Remote.memory` is what the client knows of the memory of a node, now with the blocks
that threads have returned.
-/

namespace Dicon.RemoteThreads

open Framework Node Client RemoteMemory

/-- The functions in the shared objects of a node: the size of the argument of each, and
what may be in the block that it returns for given bytes in its argument. -/
structure RemoteCode where
  argSize : UInt64 → ℕ
  returns : UInt64 → List UInt8 → List UInt8 → Prop
  faults : UInt64 → List UInt8 → Prop

/-- A thread that has been created and not been joined. -/
inductive ThreadState
  | running (func args : UInt64)
  | finished (result : Block) (contents : List UInt8)

/-- A node, the connection to it, and what the client knows of its memory. -/
structure Remote where
  session : Session
  memory : FlatMemory
  threads : UInt64 → Option ThreadState
  crashed : Bool

namespace Remote

def node (s : Remote) : Node := s.session.serving.node

/-- A new connection to a node. -/
def start (node : Node) : Remote := ⟨.start node, .empty, fun _ => none, false⟩

/-- The bytes that a function reads behind its argument. -/
def argument (s : Remote) (code : RemoteCode) (func args : UInt64) : List UInt8 :=
  ByteMemory.read s.node.mem args.toNat (code.argSize func)

/-- The argument lies in a block of a client. -/
def HasArgument (s : Remote) (code : RemoteCode) (func args : UInt64) : Prop :=
  ∃ b ∈ s.node.blocks, b.Has args.toNat (code.argSize func)

/-- A thread allocates its result, writes it and returns. -/
def finish (s : Remote) (sys : Sys) (tid : UInt64) (contents : List UInt8) : Remote :=
  let result : Block := ⟨sys.block.toNat, contents.length⟩
  let node := s.node.malloc sys contents.length
  let written := { node with mem := ByteMemory.write node.mem result.ptr contents }
  { s with
    session := { s.session with serving := { s.session.serving with node := written } }
    memory := (s.memory.allocate result).store result.ptr contents
    threads := Function.update s.threads tid (some (.finished result contents)) }

/-- What a thread may do. An allocation lies in the address space. -/
inductive Drift (code : RemoteCode) (s : Remote) : Remote → Prop
  | finish {tid func args contents sys} :
      s.threads tid = some (.running func args) → s.HasArgument code func args →
      code.returns func (s.argument code func args) contents →
      Allocates sys s.node.blocks contents.length →
      sys.block.toNat + contents.length < 2 ^ 64 → Drift code s (s.finish sys tid contents)
  | crash {tid func args} :
      s.threads tid = some (.running func args) →
      (s.HasArgument code func args → code.faults func (s.argument code func args)) →
      Drift code s { s with crashed := true }

/-- What the system contributes to a call: `malloc` and `pthread_create` succeed, and
`pthread_join` waits for the thread. -/
def Admits (s : Remote) (sys : Sys) : Call → Prop
  | .rthreadRun _ _ => ∃ tid, sys.created = some tid ∧ s.threads tid = none
  | .rthreadJoin tid => ∃ result contents,
      s.threads tid = some (.finished result contents) ∧
        sys.joined = some (some (.ofNat result.ptr))
  | c => Lawful sys s.node c

/-- The threads after a call. -/
def threadsAfter (s : Remote) : Call → Result → UInt64 → Option ThreadState
  | .rthreadRun func args, .ptr tid => Function.update s.threads tid (some (.running func args))
  | .rthreadJoin tid, _ => Function.update s.threads tid none
  | _, _ => s.threads

/-- A call returns. -/
def Answers (s : Remote) (c : Call) (r : Result) (t : Remote) : Prop :=
  s.crashed = false ∧ ∃ env session, s.Admits env.sys c ∧
    c.perform env s.session = .ok (session, r) ∧
    t = ⟨session, s.memory.step c r, s.threadsAfter c r, false⟩

/-- A join that waits for nothing: there is no such thread, or its function does not
return. -/
def Hopeless (code : RemoteCode) (s : Remote) (tid : UInt64) : Prop :=
  match s.threads tid with
  | none => True
  | some (.running func args) =>
      ∀ contents, ¬ code.returns func (s.argument code func args) contents
  | some (.finished _ _) => False

/-- A call crashes or never returns. -/
def Fails (code : RemoteCode) (s : Remote) (c : Call) : Prop :=
  s.crashed = true ∨
    (∃ env fault, s.Admits env.sys c ∧ c.perform env s.session = .error fault) ∨
    ∃ tid, c = .rthreadJoin tid ∧ s.Hopeless code tid

end Remote

/-- The nodes of a client, by number. -/
abbrev Remotes := ℕ → Remote

/-- A client of several nodes; a call goes to one of them. -/
def cluster (code : ℕ → RemoteCode) : Environment Remotes (ℕ × Call) Result where
  drift s t := ∃ n r, (s n).Drift (code n) r ∧ t = Function.update s n r
  answers c s r t := ∃ u, (s c.1).Answers c.2 r u ∧ t = Function.update s c.1 u
  fails c s := (s c.1).Fails (code c.1) c.2

/-- A program of a client. -/
abbrev Program (α : Type) := Script (ℕ × Call) Result α

/-! ## Runs on concrete inputs -/

instance (b c : Block) : Decidable (b.Disjoint c) := inferInstanceAs (Decidable (_ ∨ _))

instance (sys : Sys) (blocks : List Block) (size : ℕ) : Decidable (Allocates sys blocks size) :=
  inferInstanceAs (Decidable (_ ∧ _))

namespace Remote

end Remote

section Threads

variable (env : Env) {s : Session}

theorem dicRthreadRun_ok (hs : s.Synced) {func args tid : UInt64}
    (hcreated : env.sys.created = some tid) :
    ∃ t, Client.dicRthreadRun env s func args = .ok (t, tid) ∧ t.Synced ∧
      t.serving.node = s.serving.node.call (.pthreadCreate func args) := by
  have hfunc : rd64At (le64 func ++ le64 args ++ env.sys.beyond) 0 = func := by
    rw [List.append_assoc]
    exact rd64At_zero _ _
  have hargs : rd64At (le64 func ++ le64 args ++ env.sys.beyond) 8 = args := by
    rw [List.append_assoc]
    exact rd64At_append _ (length_le64 _) _ _
  have hdisp : dispatch env.sys s.serving.node (le64 func ++ le64 args ++ env.sys.beyond)
      DicOperation.run.code = some (s.serving.node.call (.pthreadCreate func args),
        some (respBuilder (Cells.stored (le64 tid)))) := by
    rw [dispatch_code]
    simp only [handleRun, hfunc, hargs, hcreated]
    rfl
  exact hs.callU64 env (buildRthreadRun_isRequest func args) hdisp

theorem dicRthreadJoin_ok (hs : s.Synced) {tid ret : UInt64}
    (hjoined : env.sys.joined = some (some ret)) :
    ∃ t, Client.dicRthreadJoin env s tid = .ok (t, ret) ∧ t.Synced ∧
      t.serving.node = s.serving.node.call (.pthreadJoin tid) := by
  have htid : rd64At (le64 tid ++ env.sys.beyond) 0 = tid := rd64At_zero _ _
  have hdisp : dispatch env.sys s.serving.node (le64 tid ++ env.sys.beyond)
      DicOperation.join.code = some (s.serving.node.call (.pthreadJoin tid),
        some (respBuilder (Cells.stored (le64 ret)))) := by
    rw [dispatch_code]
    simp only [handleJoin, htid, hjoined]
    rfl
  exact hs.callU64 env (buildRthreadJoin_isRequest tid) hdisp

end Threads

/-! ## The functions of the library in programs -/

section Functions

variable (n : ℕ)

/-- A call that returns a pointer or a handle. -/
def callPtr (c : Call) : Program UInt64 := .call (n, c) fun
  | .ptr p => .done p
  | _ => .undefined

def dicRmalloc (size : ℤ) : Program UInt64 := callPtr n (.rmalloc size)

def dicRfree (rvoid : UInt64) : Program ℤ := .call (n, .rfree rvoid) fun
  | .status err => .done err
  | _ => .undefined

/-- With the local buffer as it is afterwards. -/
def dicMemcpy (loc : List UInt8) (remote : UInt64) (size : ℤ) (mode : MemcpyMode) :
    Program (List UInt8) := .call (n, .memcpy loc remote size mode) fun
  | .copied _ loc => .done loc
  | _ => .undefined

def dicRthreadRun (funcPtr argsPtr : UInt64) : Program UInt64 :=
  callPtr n (.rthreadRun funcPtr argsPtr)

def dicRthreadJoin (tid : UInt64) : Program UInt64 := callPtr n (.rthreadJoin tid)

end Functions

end Dicon.RemoteThreads
