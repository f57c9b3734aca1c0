import Dicon.MainServer.Replies
import Dicon.MainServer.Running

/-!
# The answer to a query (`main-server/src/main.c`)

`handle_get_info` counts the list, copies that many entries, and sends a head that
declares the size of what it has copied. The count, the copies and the declared size
agree for every list whose reply fits an `int`.
-/

namespace Dicon.MainServer

open Dicon.Framework Registry

/-! ## Bytes -/

def IpAddr.ofBytes (bs : List UInt8) : IpAddr where
  family := rd32At bs 0
  ipv4 := rd32At bs 4
  rest := Vector.ofFn fun i => bs.getD (8 + i) 0

def DicNodeInfo.ofBytes (bs : List UInt8) : DicNodeInfo where
  address := .ofBytes bs
  coreCount := rd32At bs 20

@[simp] theorem IpAddr.length_bytes (ip : IpAddr) : ip.bytes.length = 20 := by
  simp [bytes]

@[simp] theorem DicNodeInfo.length_bytes (i : DicNodeInfo) : i.bytes.length = 24 := by
  simp [bytes]

@[simp] theorem IpAddr.ofBytes_bytes (ip : IpAddr) (rest : List UInt8) :
    ofBytes (ip.bytes ++ rest) = ip := by
  obtain ⟨family, ipv4, union⟩ := ip
  have hrest : ∀ i : Fin 12, (bytes ⟨family, ipv4, union⟩ ++ rest).getD (8 + i) 0 = union[i] := by
    intro i
    have hskip : (le32 family ++ le32 ipv4).length = 8 := by
      simp
    rw [bytes, List.getD_eq_getElem?_getD, List.append_assoc,
      List.getElem?_append_right (by rw [hskip]; omega), hskip, Nat.add_sub_cancel_left,
      List.getElem?_append_left (by simp)]
    simp
  have hipv4 : rd32At (bytes ⟨family, ipv4, union⟩ ++ rest) 4 = ipv4 := by
    rw [bytes, List.append_assoc, List.append_assoc]
    exact rd32At_append _ (length_le32 _) ..
  have hfamily : rd32At (bytes ⟨family, ipv4, union⟩ ++ rest) 0 = family := by
    rw [bytes, List.append_assoc, List.append_assoc, rd32At_zero]
  simp only [ofBytes, hfamily, hipv4, hrest]
  congr 1
  ext i hi
  simp

/-- An entry is read as it was stored, whatever follows it. -/
@[simp] theorem DicNodeInfo.ofBytes_bytes (i : DicNodeInfo) (rest : List UInt8) :
    ofBytes (i.bytes ++ rest) = i := by
  have hcores : rd32At (i.address.bytes ++ (le32 i.coreCount ++ rest)) 20 = i.coreCount :=
    rd32At_append _ (IpAddr.length_bytes _) ..
  simp only [ofBytes, bytes, List.append_assoc, IpAddr.ofBytes_bytes, hcores]

/-- What one `dic_conn_send` of the server puts on the wire. -/
def Segment.bytes : Segment → List UInt8
  | .ackHead => le32 (toU32 respAnnounceInfoSize)
  | .ackBody => le32 0
  | .infoHead bodySize => le32 bodySize
  | .infoBody nodes => le32 (toU32 nodes.length) ++ nodes.flatMap DicNodeInfo.bytes

/-- The bytes that are on their way to the peer. -/
def Handler.onWire (h : Handler) : List UInt8 := h.output.flatMap Segment.bytes

/-- The `res_body` of `handle_get_info`. -/
def getInfoBody (es : List Announced) : List UInt8 :=
  le32 (toU32 es.length) ++ es.flatMap fun e => e.info.bytes

theorem length_getInfoBody (es : List Announced) :
    (getInfoBody es).length = respGetInfoSize es.length := by
  rw [getInfoBody, List.length_append, length_le32,
    length_records (fun e : Announced => e.info.length_bytes), respGetInfoSize]

theorem bytes_infoBody (es : List Announced) :
    Segment.bytes (.infoBody (es.map Announced.info)) = getInfoBody es := by
  simp [Segment.bytes, getInfoBody, List.flatMap_map]

/-! ## The server's end -/

/-- `handle_get_info`, by a thread that has locked `NODES_INFO_MUT`: the two
traversals, and the two sends. -/
def Handler.handleGetInfo (h : Handler) (c : ConnId) (sh : Shared) :
    Option (Handler × Shared) := do
  let (h, sh) ← h.collect c sh
  let (h, sh) ← h.send sh
  h.send sh

/-- `handle_get_info` ends without anything undefined, and `reply` is on the wire
behind what was there before. -/
def Sends (c : ConnId) (h : Handler) (sh : Shared) (reply : List UInt8) : Prop :=
  ∃ h' sh', h.handleGetInfo c sh = some (h', sh') ∧ sh'.undefined = sh.undefined ∧
    sh'.registry = sh.registry ∧ h'.onWire = h.onWire ++ reply

theorem handleGetInfo_sends {c : ConnId} {h : Handler} {sh : Shared} {es : List Announced}
    (hpc : h.pc = .collect) (hopen : h.sockOpen = true)
    (hes : sh.registry.collectInfo = some es) (hfits : respGetInfoSize es.length ≤ intMax) :
    Sends c h sh (getInfoReply es) := by
  refine ⟨{ h with pc := .unlock, output := h.output ++ infoReply es },
    { sh with history := sh.history ++ [.replied c es] }, ?_, rfl, rfl, ?_⟩
  · simp [Handler.handleGetInfo, Handler.collect, hpc, hes, Handler.send, Pc.afterSend, hopen,
      infoReply, hfits]
  · simp only [Handler.onWire, infoReply, hfits, if_true, List.flatMap_append,
      List.flatMap_cons, List.flatMap_nil, bytes_infoBody]
    simp [Segment.bytes, getInfoReply, getInfoBody]

/-! ## The socket of a thread in `handle_get_info` -/

/-- The thread has received something since its last request. -/
def Pc.AfterBytes : Pc → Prop
  | .recvHead got => got ≠ []
  | .lockGetInfo | .collect => True
  | _ => False

/-- A descriptor that has delivered bytes is open. -/
def Handler.OpenAfterBytes (h : Handler) : Prop := h.pc.AfterBytes → h.sockOpen = true

section

variable {c : ConnId} {h h' : Handler} {sh sh' : Shared} {a : Action}

theorem effect_openAfterBytes (he : Effect c h sh a h' sh') (hi : h.OpenAfterBytes) :
    h'.OpenAfterBytes := by
  cases he with
  | peerSend | peerClose | peerAck | peerOther => exact hi
  | overrun | appendFault | collectFault | removeFault => exact hi
  | recvHead _ hk => exact fun _ => hk.1
  | headDone hpc hneed =>
      -- a header that is complete is not empty
      intro _
      apply hi
      simp only [Handler.need, hpc] at hneed
      simp only [hpc, Pc.AfterBytes]
      rintro rfl
      cases hneed
  | headFail =>
      intro hpc
      dsimp only at hpc
      split at hpc <;> cases hpc
  | lock hpc =>
      rcases afterLock_cases hpc with ⟨_, _, rfl⟩ | ⟨hget, rfl⟩ | ⟨_, rfl⟩
      · exact False.elim
      · intro _
        apply hi
        rw [hget]
        trivial
      · exact False.elim
  | send hpc =>
      rcases afterSend_cases hpc with ⟨_, _, rfl, _⟩ | ⟨_, _, rfl, _⟩ | ⟨_, _, rfl, _⟩ |
        ⟨_, _, rfl, _⟩ <;> exact False.elim
  | unlock hpc =>
      rcases afterUnlock_cases hpc with ⟨_, rfl⟩ | ⟨_, rfl⟩
      · exact fun hne => absurd rfl hne
      · exact False.elim
  | recvBody | bodyFail | bodyDone | append | collect | remove | destroy => exact False.elim

end

theorem openAfterBytes {s : Server} (hr : mainServer.Reachable s) :
    ∀ c h, s.conns c = some h → h.OpenAfterBytes := by
  refine hr.invariant (I := fun s => ∀ c h, s.conns c = some h → h.OpenAfterBytes) ?_ ?_
  · rintro _ rfl c h hc
    cases hc
  · rintro s ⟨c, a⟩ t hi hstep
    rcases step_cases hstep with ⟨ip, hc, rfl⟩ | ⟨hd, hd', sh', hc, he, rfl⟩
    · exact forall_update hi fun hne => absurd rfl hne
    · exact forall_update hi (effect_openAfterBytes he (hi c hd hc))

/-- What `handle_get_info` sends for a registry. -/
structure RepliesWith (r : Registry Announced) (reply : List UInt8) : Prop where
  /-- in any thread with an open socket -/
  thread : ∀ c h sh, sh.registry = r → h.pc = .collect → h.sockOpen = true → Sends c h sh reply
  /-- in every thread that gets there -/
  reachable : ∀ s c h, mainServer.Reachable s → s.shared.registry = r → s.conns c = some h →
    h.pc = .collect → Sends c h s.shared reply

theorem repliesWith {r : Registry Announced} {es : List Announced}
    (hes : r.collectInfo = some es) (hfits : respGetInfoSize es.length ≤ intMax) :
    RepliesWith r (getInfoReply es) where
  thread c h sh hr hpc hopen := handleGetInfo_sends hpc hopen (hr ▸ hes) hfits
  reachable s c h hs hr hc hpc :=
    handleGetInfo_sends hpc (openAfterBytes hs c h hc (by rw [hpc]; trivial)) (hr ▸ hes) hfits

end Dicon.MainServer
