import Dicon.Common.Sockets
import Dicon.Framework.Cells
import Dicon.MainServer.GetInfo

/-!
# The registry at the client (`client_main_communication.c`)

`dic_get_nodes_info` takes the size that the head declares for what it receives, and
reads the count and the entries out of the block. With what `handle_get_info` sends,
that is the whole list (`get_info_round_trip`).
-/

namespace Dicon.Client

open Framework MainServer Registry

/-! ## The client's end -/

/-- `dic_nodes_info_t`: the block that was received into. -/
structure NodesInfo where
  block : List UInt8

def NodesInfo.count (info : NodesInfo) : UInt32 := rd32At info.block 0

/-- `nodes[i]` -/
def NodesInfo.node (info : NodesInfo) (i : ℕ) : DicNodeInfo :=
  .ofBytes (info.block.drop (4 + 24 * i))

/-- The head of a GET_INFO request. -/
def getInfoHead : MainServer.ReqHead := ⟨DicMainOperation.getInfo.code, 0, 0⟩

/-- What neither program determines: the `res_head` variable before the receive, and
the block that `malloc` returns. -/
structure Unset where
  resHead : UInt32
  resBody : ℕ → UInt8

/-- `dic_get_nodes_info`. The results of the receives are not looked at. -/
def dicGetNodesInfo (unset : Unset) (conn : Conn) : NodesInfo × Conn :=
  let conn := dicConnSend conn getInfoHead.bytes MainServer.reqHeadSize
  let head := dicConnRecv conn MainServer.respHeadSize
  let bodySize := rd32Over head.buffer unset.resHead
  let body := dicConnRecv head.conn (toCInt bodySize.toNat)
  (⟨Cells.fill unset.resBody (Cells.stored body.buffer ++
    List.replicate (bodySize.toNat - body.buffer.length) none)⟩, body.conn)

/-- The server takes the request for a query. -/
example : switchOperation (.ofBytes getInfoHead.bytes) = .lockGetInfo := by decide

theorem dicConnSend_stream (conn : Conn) (message : List UInt8) (len : ℤ) :
    (dicConnSend conn message len).stream = conn.stream := by
  simp [Conn.stream]

/-- A reply that fits an `int` is read whole, and nothing behind it. -/
theorem dicGetNodesInfo_reads {conn : Conn} {bodySize : UInt32} {body rest : List UInt8}
    (hlen : body.length = bodySize.toNat) (hfits : bodySize.toNat ≤ intMax)
    (hstream : conn.stream = le32 bodySize ++ body ++ rest) (unset : Unset) :
    (dicGetNodesInfo unset conn).1 = ⟨body⟩ ∧ (dicGetNodesInfo unset conn).2.stream = rest := by
  have hsent := (dicConnSend_stream conn getInfoHead.bytes MainServer.reqHeadSize).trans hstream
  rw [List.append_assoc] at hsent
  obtain ⟨hhead, hbehind⟩ := dicConnRecv_arrived (n := MainServer.respHeadSize) (by decide)
    (by rw [hsent]; simp [MainServer.respHeadSize])
  rw [hsent, MainServer.respHeadSize] at hhead hbehind
  rw [List.take_left' (length_le32 _)] at hhead
  rw [List.drop_left' (length_le32 _)] at hbehind
  obtain ⟨hbody, hrest⟩ := dicConnRecv_arrived hfits (by rw [hbehind]; simp [hlen])
  rw [hbehind, List.take_left' hlen] at hbody
  rw [hbehind, List.drop_left' hlen] at hrest
  have hsize : rd32Over (dicConnRecv (dicConnSend conn getInfoHead.bytes MainServer.reqHeadSize)
      MainServer.respHeadSize).buffer unset.resHead = bodySize := by
    rw [MainServer.respHeadSize, hhead, rd32Over_of_length (length_le32 _), rd32_le32]
  have hfull : bodySize.toNat - body.length = 0 := by
    omega
  simp only [dicGetNodesInfo, hsize, toCInt_of_le hfits]
  rw [MainServer.respHeadSize, hbody, hfull, List.replicate_zero, List.append_nil,
    Cells.fill_stored]
  exact ⟨rfl, hrest⟩

/-- What the client has is the chain `vis` of the registry `r`. -/
structure Lists (r : Registry Announced) (vis : List Addr) (info : NodesInfo) : Prop where
  count : info.count.toNat = vis.length
  nodes : ∀ i x, vis[i]? = some x → ∃ n, r.cell x = some n ∧ info.node i = n.info.info

/-- The entries of a received block. -/
theorem node_getInfoBody {es : List Announced} {i : ℕ} {e : Announced} (he : es[i]? = some e) :
    NodesInfo.node ⟨getInfoBody es⟩ i = e.info := by
  have hskip : (getInfoBody es).drop (4 + 24 * i) =
      e.info.bytes ++ (es.drop (i + 1)).flatMap fun e => e.info.bytes := by
    rw [getInfoBody, ← List.drop_drop, List.drop_left' (length_le32 _),
      drop_records (fun e : Announced => e.info.length_bytes)]
    obtain ⟨hi, rfl⟩ := List.getElem?_eq_some_iff.mp he
    rw [List.drop_eq_getElem_cons hi, List.flatMap_cons]
  rw [NodesInfo.node, hskip, DicNodeInfo.ofBytes_bytes]

theorem count_getInfoBody {es : List Announced} (hfits : respGetInfoSize es.length ≤ intMax) :
    (NodesInfo.count ⟨getInfoBody es⟩).toNat = es.length := by
  rw [NodesInfo.count, getInfoBody, rd32At_zero]
  apply toU32_toNat
  unfold respGetInfoSize intMax at hfits
  omega

theorem lists_getInfoBody {r : Registry Announced} {vis : List Addr} {orph : List (List Addr)}
    (hshape : r.Shape vis orph) (hfits : respGetInfoSize vis.length ≤ intMax) :
    Lists r vis ⟨getInfoBody (infos r.cell vis)⟩ where
  count := by
    rw [← hshape.visible.length_infos] at hfits ⊢
    exact count_getInfoBody hfits
  nodes i x hx := by
    obtain ⟨n, hn, hinfo⟩ := hshape.visible.getElem?_infos hx
    exact ⟨n, hn, node_getInfoBody hinfo⟩

/-- GET_INFO brings the whole registry to the client, for every list whose reply fits
an `int`: the reply has the size that it declares, the copy loop stays inside of the
list, and the client has every entry and no byte left to read. -/
theorem get_info_round_trip {r : Registry Announced} {vis : List Addr} {orph : List (List Addr)}
    (hshape : r.Shape vis orph) (hfits : respGetInfoSize vis.length ≤ intMax) :
    ∃ bodySize body, bodySize.toNat = 4 + 24 * vis.length ∧
      body.length = 4 + 24 * vis.length ∧ r.collectInfo.isSome ∧
      RepliesWith r (le32 bodySize ++ body) ∧
      ∀ unset conn rest, conn.stream = le32 bodySize ++ body ++ rest →
        Lists r vis (dicGetNodesInfo unset conn).1 ∧
          (dicGetNodesInfo unset conn).2.stream = rest := by
  have hlen := hshape.visible.length_infos
  have hes := hshape.collectInfo_eq
  have hsize : (toU32 (respGetInfoSize vis.length)).toNat = respGetInfoSize vis.length := by
    apply toU32_toNat
    unfold intMax at hfits
    omega
  have hbody := length_getInfoBody (infos r.cell vis)
  rw [hlen] at hbody
  -- what is declared, what is sent and what the client allocates are this one size
  refine ⟨toU32 (respGetInfoSize vis.length), getInfoBody (infos r.cell vis), hsize, hbody,
    by rw [hes]; rfl, ?_, fun unset conn rest hstream => ?_⟩
  · have hreply : getInfoReply (infos r.cell vis) =
        le32 (toU32 (respGetInfoSize vis.length)) ++ getInfoBody (infos r.cell vis) := by
      rw [getInfoReply, hlen, getInfoBody, hlen]
    rw [← hreply]
    exact repliesWith hes (by rw [hlen]; exact hfits)
  · obtain ⟨hinfo, hrest⟩ := dicGetNodesInfo_reads (hbody.trans hsize.symm)
      (by rw [hsize]; exact hfits) hstream unset
    rw [hinfo]
    exact ⟨lists_getInfoBody hshape hfits, hrest⟩

/-- The entry of a node with 4 cores, announced on the connection `c`. -/
def fourCores (c : ConnId) : Announced :=
  ⟨c, 0, le32 4, ⟨⟨2, 16777343, Vector.replicate 12 0⟩, 4⟩⟩

/-- Two nodes have announced themselves. -/
theorem get_info_round_trip_two :
    ∃ r, ((Registry.empty.appendInfo (fourCores 0) 100).bind fun p =>
        p.1.appendInfo (fourCores 1) 200) = some (r, 200) ∧
      ∃ bodySize body, bodySize.toNat = 52 ∧ body.length = 52 ∧ r.collectInfo.isSome ∧
        RepliesWith r (le32 bodySize ++ body) ∧
        ∀ unset conn rest, conn.stream = le32 bodySize ++ body ++ rest →
          Lists r [100, 200] (dicGetNodesInfo unset conn).1 ∧
            (dicGetNodesInfo unset conn).2.stream = rest := by
  obtain ⟨r₁, hone, hshape₁, hfree⟩ : ∃ r, Registry.empty.appendInfo (fourCores 0) 100 =
      some (r, 100) ∧ Shape r [100] [] ∧ r.cell 200 = none :=
    ⟨_, shape_empty.appendInfo_eq rfl, shape_empty.append rfl, rfl⟩
  obtain ⟨r₂, htwo, hshape₂⟩ : ∃ r, r₁.appendInfo (fourCores 1) 200 = some (r, 200) ∧
      Shape r [100, 200] [] :=
    ⟨_, hshape₁.appendInfo_eq hfree, hshape₁.append hfree⟩
  refine ⟨r₂, ?_, get_info_round_trip hshape₂ (by decide)⟩
  rw [hone, Option.bind_some, htwo]

end Dicon.Client
