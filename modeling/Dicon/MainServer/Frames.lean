import Dicon.MainServer.Running
import Dicon.MainServer.Stream

/-!
# Request frames

What a peer that follows the protocol puts on the wire, and what the thread of
its connection does with one frame when the whole frame is there. Only the branch
of ANNOUNCE_INFO receives the body that a header declares; behind any other
operation the body is what the thread reads next.
-/

namespace Dicon.MainServer

open Dicon.Framework

/-- A complete request: any operation, any version, and a body whose size a
`body_size` below `2^31` declares. -/
structure ReqFrame where
  operation : UInt16
  version : UInt16
  body : List UInt8
  fits : body.length ≤ intMax

namespace ReqFrame

def head (f : ReqFrame) : ReqHead := ⟨f.operation, f.version, toU32 f.body.length⟩

def bytes (f : ReqFrame) : List UInt8 := f.head.bytes ++ f.body

@[simp] theorem length_bytes (f : ReqFrame) :
    f.bytes.length = reqHeadSize + f.body.length := by
  simp [bytes]

/-- The receive of the body asks for what the frame has. -/
theorem recvCount_head (f : ReqFrame) : recvCount f.head.bodySize = f.body.length :=
  recvCount_toU32 f.fits

end ReqFrame

/-- The stream that a sequence of frames spells. -/
def wire (fs : List ReqFrame) : List UInt8 := fs.flatMap ReqFrame.bytes

@[simp] theorem wire_nil : wire [] = [] := rfl

@[simp] theorem wire_cons (f : ReqFrame) (fs : List ReqFrame) :
    wire (f :: fs) = f.bytes ++ wire fs :=
  List.flatMap_cons

@[simp] theorem wire_append (fs gs : List ReqFrame) : wire (fs ++ gs) = wire fs ++ wire gs :=
  List.flatMap_append

/-- Frames that are shorter than a header are no frames. -/
theorem eq_nil_of_wire_short {fs : List ReqFrame} (h : (wire fs).length < reqHeadSize) :
    fs = [] := by
  cases fs with
  | nil => rfl
  | cons f fs =>
      rw [wire_cons, List.length_append, f.length_bytes] at h
      omega

/-- The header of a sequence of frames, and where in the stream each of them is. -/
def headsFrom : ℕ → List ReqFrame → List (ℕ × ReqHead)
  | _, [] => []
  | off, f :: fs => (off, f.head) :: headsFrom (off + f.bytes.length) fs

theorem headsFrom_append (off : ℕ) (fs gs : List ReqFrame) :
    headsFrom off (fs ++ gs) = headsFrom off fs ++ headsFrom (off + (wire fs).length) gs := by
  induction fs generalizing off with
  | nil => rfl
  | cons f fs ih =>
      rw [List.cons_append, headsFrom, headsFrom, ih, wire_cons, List.length_append,
        List.cons_append, Nat.add_assoc]

/-- A frame's header begins inside the stream, and has room there. -/
theorem headsFrom_range {off : ℕ} {fs : List ReqFrame} {p : ℕ × ReqHead}
    (hp : p ∈ headsFrom off fs) : off ≤ p.1 ∧ p.1 + reqHeadSize ≤ off + (wire fs).length := by
  induction fs generalizing off with
  | nil => cases hp
  | cons f fs ih =>
      rw [wire_cons, List.length_append, f.length_bytes]
      rcases List.mem_cons.mp hp with rfl | hp
      · exact ⟨le_rfl, by omega⟩
      · have hrange := ih hp
        rw [f.length_bytes] at hrange
        omega

/-- No frame begins right behind the header of a frame that has a body. -/
theorem not_mem_headsFrom {before after : List ReqFrame} {f : ReqFrame} (hbody : f.body ≠ [])
    (head : ReqHead) :
    ((wire before).length + reqHeadSize, head) ∉ headsFrom 0 (before ++ f :: after) := by
  intro hmem
  have hpos : 0 < f.body.length := List.length_pos_iff.mpr hbody
  rw [headsFrom_append, List.mem_append, headsFrom, List.mem_cons, f.length_bytes] at hmem
  rcases hmem with hmem | hmem | hmem
  · have hrange := (headsFrom_range hmem).2
    simp only [Nat.zero_add] at hrange
    rw [reqHeadSize] at hrange
    omega
  · have hoff := congrArg Prod.fst hmem
    simp only [reqHeadSize] at hoff
    omega
  · have hrange := (headsFrom_range hmem).1
    simp only at hrange
    omega

/-! ## Serving one frame -/

theorem switchOperation_announceInfo {head : ReqHead}
    (h : head.operation = DicMainOperation.announceInfo.code) :
    switchOperation head = .lockAnnounce head := if_pos h

theorem switchOperation_getInfo {head : ReqHead}
    (h : head.operation = DicMainOperation.getInfo.code) : switchOperation head = .lockGetInfo := by
  unfold switchOperation
  rw [h, if_neg (by decide), if_pos rfl]

section

variable {s : Server} {c : ConnId} {h : Handler} {f : ReqFrame} {rest : List UInt8}

/-- The header of a frame is received and interpreted. -/
theorem reads_head (hb : BetweenRequests s c h (f.bytes ++ rest)) (hopen : h.sockOpen = true) :
    ∃ t h', Goes c s t ∧ Running t c h' ∧ h'.pc = switchOperation f.head ∧
      h'.input = f.body ++ rest ∧ h'.sockOpen = true ∧ t.shared = s.shared := by
  have hinput : h.input = f.head.bytes ++ (f.body ++ rest) := by
    rw [hb.input, ReqFrame.bytes, List.append_assoc]
  obtain ⟨t, x, hgo, hrun, hpc, hin, hopen', _, hsh⟩ :=
    receives_head hb.toRunning hb.pc hopen (Nat.zero_le _) (by rw [hinput]; simp)
  rw [List.nil_append, hinput, List.take_left' f.head.length_bytes] at hpc
  rw [List.nil_append, hinput, List.drop_left' f.head.length_bytes] at hin
  obtain ⟨u, hgo', hrun', hsh'⟩ := switches hrun hpc f.head.length_bytes
  rw [f.head.ofBytes_bytes] at hrun'
  exact ⟨u, _, hgo.trans hgo', hrun', rfl, hin, hopen', hsh'.trans hsh⟩

/-- A request that is no announcement is served, and its body is left behind. -/
theorem leaves_body (hb : BetweenRequests s c h (f.bytes ++ rest)) (hopen : h.sockOpen = true)
    (hop : f.operation ≠ DicMainOperation.announceInfo.code) :
    ∃ t h', Goes c s t ∧ BetweenRequests t c h' (f.body ++ rest) ∧ h'.sockOpen = true := by
  obtain ⟨t, x, hgo, hrun, hpc, hin, hopen', hsh⟩ := reads_head hb hopen
  by_cases hget : f.operation = DicMainOperation.getInfo.code
  · rw [switchOperation_getInfo hget] at hpc
    obtain ⟨u, y, _, hgo', hbetween, hopen'', _⟩ :=
      answers_query hrun hpc (by rw [hsh, hb.free])
    rw [hin] at hbetween
    exact ⟨u, y, hgo.trans hgo', hbetween, hopen''.trans hopen'⟩
  · -- the switch has no case for the operation
    have hnext : switchOperation f.head = .recvHead [] := (if_neg hop).trans (if_neg hget)
    exact ⟨t, x, hgo, ⟨hrun, hpc.trans hnext, hin, by rw [hsh, hb.free]⟩, hopen'⟩

/-- The header of an announcement takes the thread to the receive of its body. -/
theorem reads_announce (hb : BetweenRequests s c h (f.bytes ++ rest))
    (hopen : h.sockOpen = true) (hop : f.operation = DicMainOperation.announceInfo.code) :
    ∃ t h', Goes c s t ∧ Running t c h' ∧ h'.pc = .recvBody f.head [] ∧
      h'.input = f.body ++ rest ∧ h'.sockOpen = true := by
  obtain ⟨t, x, hgo, hrun, hpc, hin, hopen', hsh⟩ := reads_head hb hopen
  rw [switchOperation_announceInfo hop] at hpc
  have hafter : x.pc.afterLock = some (.recvBody f.head []) := by
    rw [hpc]
    rfl
  obtain ⟨u, hgo', hrun', _⟩ := hrun.go (.lock hafter (by rw [hsh, hb.free])) rfl hrun.defined
  exact ⟨u, _, hgo.trans hgo', hrun', rfl, hin, hopen'⟩

/-- An announcement whose body fits is served. -/
theorem takes_announce (hb : BetweenRequests s c h (f.bytes ++ rest))
    (hopen : h.sockOpen = true) (hop : f.operation = DicMainOperation.announceInfo.code)
    (hfits : f.body.length ≤ reqAnnounceInfoSize) :
    ∃ t h', Goes c s t ∧ BetweenRequests t c h' rest ∧ h'.sockOpen = true := by
  obtain ⟨t, x, hgo, hrun, hpc, hin, hopen'⟩ := reads_announce hb hopen hop
  have hneed : x.need = f.body.length := by
    simp [Handler.need, hpc, f.recvCount_head]
  -- `recv` is not called for an empty body
  by_cases hempty : f.body = []
  · obtain ⟨u, y, hgo', hbetween, hopen'', _⟩ :=
      ends_body hrun hpc (Or.inl (by rw [hneed, hempty]; rfl))
    rw [hin, hempty, List.nil_append] at hbetween
    exact ⟨u, y, hgo.trans hgo', hbetween, (hopen'' (by rw [hneed, hempty]; rfl)).trans hopen'⟩
  · have hpos : 0 < f.body.length := List.length_pos_iff.mpr hempty
    have hrecv : x.CanRecv f.body.length := by
      refine ⟨hopen', hpos, hneed.ge, ?_⟩
      rw [hin, List.length_append]
      omega
    obtain ⟨u, hgo', hrun', _⟩ := receives_body hrun hpc hrecv (by simpa using hfits)
    have hdone : ({ x with
        pc := .recvBody f.head ([] ++ x.input.take f.body.length)
        input := x.input.drop f.body.length } : Handler).need = 0 := by
      simp [Handler.need, hin, f.recvCount_head]
    obtain ⟨v, y, hgo'', hbetween, hopen'', _⟩ := ends_body hrun' rfl (Or.inl hdone)
    have hrest : x.input.drop f.body.length = rest := by rw [hin, List.drop_left]
    rw [show ({ x with
        pc := .recvBody f.head ([] ++ x.input.take f.body.length)
        input := x.input.drop f.body.length } : Handler).input = rest from hrest] at hbetween
    exact ⟨v, y, (hgo.trans hgo').trans hgo'', hbetween, (hopen'' hdone).trans hopen'⟩

/-- An announcement with a longer body overwrites the stack of the thread. -/
theorem overruns_announce (hb : BetweenRequests s c h (f.bytes ++ rest))
    (hopen : h.sockOpen = true) (hop : f.operation = DicMainOperation.announceInfo.code)
    (hlong : reqAnnounceInfoSize < f.body.length) :
    ∃ t, serverAlone.Steps s t ∧ t.shared.undefined = true := by
  obtain ⟨t, x, hgo, hrun, hpc, hin, hopen'⟩ := reads_announce hb hopen hop
  have hneed : x.need = f.body.length := by
    simp [Handler.need, hpc, f.recvCount_head]
  have hrecv : x.CanRecv f.body.length := by
    refine ⟨hopen', by omega, hneed.ge, ?_⟩
    rw [hin, List.length_append]
    omega
  have hstep := hrun.step (.overrun hpc hrecv (by simpa using hlong)) rfl
  exact ⟨_, hgo.steps.tail ⟨(c, .recv _), rfl, hstep⟩, rfl⟩

end

end Dicon.MainServer
