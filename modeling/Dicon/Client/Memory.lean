import Dicon.Client.Calls

/-!
# The memory functions, from the client's call to the node's heap and back

Builder, request frame, handler, response frame and decoder together: each of
`dic_rmalloc`, `dic_rrealloc`, `dic_rfree` and `dic_memcpy` is the operation of
its name on the heap of the node.
-/

namespace Dicon.Client

open Framework Node

section

variable (env : Env) {s : Session}

/-- A call whose request and response are written whole. -/
theorem Session.Synced.call {α : Type} (hs : s.Synced) {msg : Msg} {op : DicOperation}
    {req resp : List UInt8} {node : Node}
    (hreq : msg.IsRequest op.code (Cells.stored req))
    (hdisp : dispatch env.sys s.serving.node (req ++ env.sys.beyond) op.code =
      some (node, some (respBuilder (Cells.stored resp))))
    (hfits : respHeadSize + resp.length ≤ intMax) (reader : FieldReader α) :
    ∃ t, Client.remoteCall env s (some msg) reader = .ok (t, reader.value (resp ++ env.beyond)) ∧
      t.Synced ∧ t.serving.node = node := by
  have hrequest : env.request (Cells.stored req) = req ++ env.sys.beyond := by
    rw [Env.request, Env.sent, Cells.fill_stored]
  have hresp : (respBuilder (Cells.stored resp)).IsResponse (Cells.stored resp) :=
    respBuilder_isResponse (by rw [Cells.length_stored]; exact hfits)
  rw [← hrequest] at hdisp
  obtain ⟨t, hcall, ht, hnode, _⟩ := hs.remoteCall hreq hdisp hresp reader
  refine ⟨t, ?_, ht, hnode⟩
  rw [hcall, Env.answered, Cells.fill_stored]

/-- A call that is answered with a pointer or a handle. -/
theorem Session.Synced.callU64 (hs : s.Synced) {msg : Msg} {op : DicOperation}
    {req : List UInt8} {node : Node} {v : UInt64}
    (hreq : msg.IsRequest op.code (Cells.stored req))
    (hdisp : dispatch env.sys s.serving.node (req ++ env.sys.beyond) op.code =
      some (node, some (respBuilder (Cells.stored (le64 v))))) :
    ∃ t, Client.remoteCall env s (some msg) (.u64 0) = .ok (t, v) ∧ t.Synced ∧
      t.serving.node = node := by
  obtain ⟨t, hcall, ht, hnode⟩ := hs.call env hreq hdisp (by simp [respHeadSize, intMax]) (.u64 0)
  refine ⟨t, ?_, ht, hnode⟩
  rw [hcall, FieldReader.value_u64, rd64At_zero]

/-- A body that begins with a pointer and a size. -/
theorem rd_pointer_size (p : UInt64) (n : UInt32) (rest : List UInt8) :
    rd64At (le64 p ++ le32 n ++ rest) 0 = p ∧ rd32At (le64 p ++ le32 n ++ rest) 8 = n := by
  rw [List.append_assoc]
  exact ⟨rd64At_zero _ _, rd32At_append _ (length_le64 _) _ _⟩

/-- A positive `int` keeps its value on the wire. -/
theorem toU32_toNat_of_int {size : ℤ} (h0 : 0 ≤ size) (h : size ≤ intMax) :
    (toU32 size).toNat = size.toNat := by
  obtain ⟨n, rfl⟩ := Int.eq_ofNat_of_zero_le h0
  rw [Int.toNat_natCast]
  exact toU32_toNat (by unfold intMax at h; omega)

/-- A request that the handler answers with a pointer. -/
theorem dicRmalloc_answered (hs : s.Synced) {size : ℤ} {node : Node} {ptr : UInt64}
    (h : handleMalloc env.sys s.serving.node (le32 (toU32 size) ++ env.sys.beyond) =
      some (node, respBuilder (Cells.stored (le64 ptr)))) :
    ∃ t, dicRmalloc env s size = .ok (t, ptr) ∧ t.Synced ∧ t.serving.node = node := by
  have hdisp : dispatch env.sys s.serving.node (le32 (toU32 size) ++ env.sys.beyond)
      DicOperation.malloc.code = some (node, some (respBuilder (Cells.stored (le64 ptr)))) := by
    rw [dispatch_code]
    simp only [h]
    rfl
  exact hs.callU64 env (buildRmallocReq_isRequest size) hdisp

theorem dicRmalloc_ok (hs : s.Synced) {size : ℤ} (hpos : 0 < size) (hint : size ≤ intMax) :
    ∃ t, dicRmalloc env s size = .ok (t, env.sys.block) ∧ t.Synced ∧
      t.serving.node = s.serving.node.malloc env.sys size.toNat := by
  have hsize := toU32_toNat_of_int hpos.le hint
  have hread : rd32At (le32 (toU32 size) ++ env.sys.beyond) 0 = toU32 size := rd32At_zero _ _
  have hne : ¬ toU32 size ≤ 0 := by
    intro hle
    have : (toU32 size).toNat ≤ 0 := hle
    omega
  apply dicRmalloc_answered env hs
  simp only [handleMalloc, hread, if_neg hne, hsize]

theorem dicRrealloc_ok (hs : s.Synced) {rvoid p : UInt64} {size : ℤ} {node : Node}
    (hpos : 0 < size) (hint : size ≤ intMax)
    (h : s.serving.node.realloc env.sys rvoid size.toNat = some (node, p)) :
    ∃ t, dicRrealloc env s rvoid size = .ok (t, p) ∧ t.Synced ∧ t.serving.node = node := by
  have hsize := toU32_toNat_of_int hpos.le hint
  obtain ⟨hptr, hread⟩ := rd_pointer_size rvoid (toU32 size) env.sys.beyond
  have hdisp : dispatch env.sys s.serving.node
      (le64 rvoid ++ le32 (toU32 size) ++ env.sys.beyond) DicOperation.realloc.code =
        some (node, some (respBuilder (Cells.stored (le64 p)))) := by
    rw [dispatch_code]
    simp only [handleRealloc, hptr, hread, hsize, h]
    rfl
  exact hs.callU64 env (buildRreallocReq_isRequest size rvoid) hdisp

theorem dicRfree_ok (hs : s.Synced) {rvoid : UInt64} {node : Node}
    (h : s.serving.node.free rvoid = some node) :
    ∃ t, dicRfree env s rvoid = .ok (t, 0) ∧ t.Synced ∧ t.serving.node = node := by
  have hptr : rd64At (le64 rvoid ++ env.sys.beyond) 0 = rvoid := rd64At_zero _ _
  have hdisp : dispatch env.sys s.serving.node (le64 rvoid ++ env.sys.beyond)
      DicOperation.free.code = some (node, some (respBuilder (Cells.stored [0]))) := by
    rw [dispatch_code]
    simp only [handleFree, hptr, h]
    rfl
  have hfits : respHeadSize + ([0] : List UInt8).length ≤ intMax := by decide
  obtain ⟨t, hcall, ht, hnode⟩ := hs.call env (buildRfreeReq_isRequest rvoid) hdisp hfits (.i8 0)
  refine ⟨t, ?_, ht, hnode⟩
  rw [dicRfree, hcall]
  rfl

theorem dicMemcpyC2n_ok (hs : s.Synced) {loc : List UInt8} {remote : UInt64} {size : ℤ}
    {node : Node} (h0 : 0 ≤ size) (hfits : reqHeadSize + 12 + size ≤ intMax)
    (hloc : size.toNat ≤ loc.length)
    (h : s.serving.node.memcpyTo env.sys remote.toNat (loc.take size.toNat) = some node) :
    ∃ t, dicMemcpyC2n env s loc remote size = .ok (t, 0) ∧ t.Synced ∧
      t.serving.node = node := by
  have hsize := toU32_toNat_of_int h0 (by unfold reqHeadSize at hfits; omega)
  obtain ⟨msg, hmsg⟩ : ∃ msg, buildMemcpyC2nReq loc remote size = some msg :=
    ⟨_, if_pos ⟨h0, hloc⟩⟩
  obtain ⟨_, _, hreq⟩ := buildMemcpyC2nReq_isRequest hfits hmsg
  obtain ⟨hptr, hread⟩ := rd_pointer_size remote (toU32 size)
    (loc.take size.toNat ++ env.sys.beyond)
  rw [← List.append_assoc] at hptr hread
  -- the data lies behind the two fields, and is as long as the second one says
  have hdata : ((le64 remote ++ le32 (toU32 size) ++ loc.take size.toNat ++
      env.sys.beyond).drop 12).take size.toNat = loc.take size.toNat := by
    rw [List.append_assoc (le64 remote ++ le32 (toU32 size)), List.drop_left' (by simp),
      List.take_left' (by simpa using hloc)]
  have hdisp : dispatch env.sys s.serving.node
      (le64 remote ++ le32 (toU32 size) ++ loc.take size.toNat ++ env.sys.beyond)
      DicOperation.memcpyC2n.code =
        some (node, some (respBuilder (Cells.stored (le32 0)))) := by
    rw [dispatch_code]
    simp only [handleMemcpyC2n, hptr, hread, hsize, hdata, h]
    rfl
  obtain ⟨t, hcall, ht, hnode⟩ :=
    hs.call env hreq hdisp (by simp [respHeadSize, intMax]) (readInt 0)
  refine ⟨t, ?_, ht, hnode⟩
  have hzero : toCInt (0 : UInt32).toNat = 0 := by decide
  have herr : (readInt 0).value (le32 0 ++ env.beyond) = 0 := by
    rw [readInt, FieldReader.value_bind, FieldReader.value_pure, FieldReader.value_u32,
      rd32At_zero, hzero]
  rw [dicMemcpyC2n, hmsg, hcall, herr]

theorem dicMemcpyN2c_ok (hs : s.Synced) {loc data : List UInt8} {remote : UInt64} {size : ℤ}
    (h0 : 0 ≤ size) (hfits : reqHeadSize + 12 + size ≤ intMax)
    (hloc : size.toNat ≤ loc.length)
    (h : s.serving.node.memcpyFrom env.sys remote.toNat size.toNat = some data)
    (hlen : data.length = size.toNat) :
    ∃ t, dicMemcpyN2c env s loc remote size =
        .ok (t, 0, data ++ loc.drop size.toNat) ∧ t.Synced ∧
      t.serving.node = s.serving.node := by
  have hsize := toU32_toNat_of_int h0 (by unfold reqHeadSize at hfits; omega)
  have hresp : respHeadSize + 4 + size.toNat ≤ intMax := by
    unfold reqHeadSize at hfits
    unfold respHeadSize
    omega
  obtain ⟨hptr, hread⟩ := rd_pointer_size remote (toU32 size) env.sys.beyond
  have hdisp : dispatch env.sys s.serving.node
      (le64 remote ++ le32 (toU32 size) ++ env.sys.beyond) DicOperation.memcpyN2c.code =
        some (s.serving.node,
          some (respBuilder (Cells.stored (le32 (toU32 size) ++ data)))) := by
    rw [dispatch_code]
    simp only [handleMemcpyN2c, hptr, hread, hsize, if_pos hresp, h]
    rfl
  obtain ⟨t, hcall, ht, hnode⟩ := hs.call env (buildMemcpyN2cReq_isRequest size remote) hdisp
    (by simp only [List.length_append, length_le32, hlen]; omega) readData
  refine ⟨t, ?_, ht, hnode⟩
  have hcount : rd32At (le32 (toU32 size) ++ data ++ env.beyond) 0 = toU32 size := by
    rw [List.append_assoc]
    exact rd32At_zero _ _
  have hvalue : readData.value (le32 (toU32 size) ++ data ++ env.beyond) = data := by
    simp only [readData, FieldReader.value_bind, FieldReader.value_u32, FieldReader.value_bytes,
      hcount, hsize]
    rw [List.append_assoc, List.drop_left' (length_le32 _), List.take_left' hlen]
  rw [dicMemcpyN2c, hcall, hvalue]
  simp only [hlen, if_pos hloc]

end

end Dicon.Client
