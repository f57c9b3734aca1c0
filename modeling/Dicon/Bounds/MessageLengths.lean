import Dicon.Bounds.DeclaredSizes
import Dicon.Client.Strings

/-!
# Lengths of messages with a dynamic part

`REQ_BUILDER_INIT_DYNAMIC` and `RESP_BUILDER_INIT_DYNAMIC` add a head, a body and a
dynamic size as `size_t` and keep the sum in an `int`, which is what the block is
allocated with, what the head is computed from and what is sent. Nothing asks
whether the sum is one.
-/

namespace Dicon.Bounds

open Framework Client Node

/-- The largest `long`. -/
def longMax : ℕ := 9223372036854775807

/-- A call that builds a message of dynamic size, with what its caller provides. -/
inductive DynamicMsg
  | memcpyC2n (loc : List UInt8) (remote : UInt64) (size : ℤ) (nonneg : 0 ≤ size)
      (isInt : size ≤ intMax) (room : size.toNat ≤ loc.length)
  | soUpload (soFile : SoFile) (remoteName : CStr) (isLong : soFile.fileSize ≤ longMax)
  | memcpyN2c (dataSize : UInt32) (data : List UInt8) (whole : data.length = dataSize.toNat)

namespace DynamicMsg

/-- What is built, before anybody asks whether it fits. -/
def build : DynamicMsg → Option Msg
  | .memcpyC2n loc remote size _ _ _ => buildMemcpyC2nReq loc remote size
  | .soUpload soFile remoteName _ => buildSoUpload (some soFile) remoteName
  | .memcpyN2c dataSize data _ => some (respBuilder (Cells.stored (le32 dataSize ++ data)))

/-- Head, body and dynamic size, as numbers. -/
def sum : DynamicMsg → ℤ
  | .memcpyC2n _ _ size _ _ _ => reqHeadSize + 12 + size
  | .soUpload soFile remoteName _ =>
      reqHeadSize + 12 + (remoteName.strlen + 1 + soFile.fileSize)
  | .memcpyN2c dataSize _ _ => respHeadSize + 4 + dataSize.toNat

/-- The size of a file is the one that `ftell` gives, unless it fails. -/
def Sized : DynamicMsg → Prop
  | .soUpload soFile _ _ => 0 ≤ soFile.fileSize
  | .memcpyC2n .. | .memcpyN2c .. => True

/-- Who reads the head. -/
def receiver : DynamicMsg → Receiver
  | .memcpyC2n .. | .soUpload .. => .node
  | .memcpyN2c .. => .client

end DynamicMsg

/-- What is sent of a message. -/
def sent (msg : Msg) (junk : ℕ → UInt8) : List UInt8 := (msg.bytes junk).take msg.msgLen.toNat

/-- `msg_len` is the sum; the block of `malloc(msg_len)` holds every byte that is
stored; and the head announces exactly the bytes that follow it. -/
structure LengthExact (rcv : Receiver) (sum : ℤ) (msg : Msg) : Prop where
  total : msg.msgLen = sum
  holds : ∀ (i : ℕ) (v : UInt8), msg.cells[i]? = some (some v) → i < toSizeT msg.msgLen
  announces : ∀ junk, (rcv.bodySize ((sent msg junk).take rcv.headSize)).toNat =
    ((sent msg junk).drop rcv.headSize).length

/-- The operation stops before it writes anything. -/
def Refused (msg : Msg) : Prop := msg.cells = []

/-! ## Messages that fit -/

section

variable {msg : Msg} {operation : UInt16} {body : Cells UInt8}

/-- Nothing is stored behind a message whose cells end with it. -/
theorem holds_of_length (h : (msg.cells.length : ℤ) = msg.msgLen)
    (hfits : msg.msgLen ≤ intMax) (i : ℕ) (v : UInt8) (hi : msg.cells[i]? = some (some v)) :
    i < toSizeT msg.msgLen := by
  obtain ⟨hlt, _⟩ := List.getElem?_eq_some_iff.mp hi
  rw [← h, toSizeT_of_lt]
  · exact hlt
  · unfold intMax at hfits
    omega

theorem lengthExact_of_request (h : msg.IsRequest operation body)
    (hcells : (msg.cells.length : ℤ) = msg.msgLen) :
    LengthExact .node (reqHeadSize + body.length : ℕ) msg where
  total := h.len
  holds := holds_of_length hcells (by have := h.fits; rw [h.len]; omega)
  announces junk := by
    have hhead : (ReqHead.bytes ⟨operation, 0, toU32 body.length⟩).length = reqHeadSize :=
      ReqHead.length_bytes _
    have hfits := h.fits
    rw [sent, h.bytes_eq, Receiver.headSize, List.take_left' hhead, List.drop_left' hhead,
      Receiver.bodySize, ReqHead.ofBytes_bytes, Cells.length_fill]
    exact toU32_toNat (by unfold intMax at hfits; omega)

theorem lengthExact_of_response (h : msg.IsResponse body) :
    LengthExact .client (respHeadSize + body.length : ℕ) msg where
  total := h.len
  holds := holds_of_length (by rw [h.cells, h.len]; simp [respHeadSize])
    (by have := h.fits; rw [h.len]; omega)
  announces junk := by
    have hfits := h.fits
    have hhead : (le32 (toU32 body.length)).length = respHeadSize := length_le32 _
    have hwhole : sent msg junk = msg.bytes junk := by
      rw [sent, h.len, Int.toNat_natCast]
      exact List.take_of_length_le (by rw [h.length])
    rw [hwhole, h.bytes_eq, Receiver.headSize, List.take_left' hhead,
      List.drop_left' hhead, Receiver.bodySize, rd32_le32, Cells.length_fill]
    exact toU32_toNat (by unfold intMax at hfits; omega)

end

/-! ## The three builders -/

theorem memcpyC2n_exact {loc : List UInt8} (remote : UInt64) {size : ℤ} (nonneg : 0 ≤ size)
    (room : size.toNat ≤ loc.length) (hfits : reqHeadSize + 12 + size ≤ intMax) :
    ∃ msg, buildMemcpyC2nReq loc remote size = some msg ∧
      LengthExact .node (reqHeadSize + 12 + size) msg := by
  obtain ⟨msg, hmsg⟩ : ∃ msg, buildMemcpyC2nReq loc remote size = some msg :=
    ⟨_, if_pos ⟨nonneg, room⟩⟩
  obtain ⟨_, _, hreq⟩ := buildMemcpyC2nReq_isRequest hfits hmsg
  have hbody : (Cells.stored (le64 remote ++ le32 (toU32 size) ++
      loc.take size.toNat)).length = 12 + size.toNat := by
    simp [room]
    omega
  have hcells : (msg.cells.length : ℤ) = msg.msgLen := by
    rw [hreq.len, hbody]
    unfold buildMemcpyC2nReq at hmsg
    rw [if_pos ⟨nonneg, room⟩] at hmsg
    cases hmsg
    simp only [reqBuilder, List.length_append, hbody]
    simp
  have hexact := lengthExact_of_request hreq hcells
  have hsum : ((reqHeadSize + (12 + size.toNat) : ℕ) : ℤ) = reqHeadSize + 12 + size := by
    omega
  rw [hbody, hsum] at hexact
  exact ⟨msg, hmsg, hexact⟩

theorem soUpload_exact {soFile : SoFile} {remoteName : CStr} (nonneg : 0 ≤ soFile.fileSize)
    (hfits : (reqHeadSize + 12 + (remoteName.strlen + 1 + soFile.fileSize) : ℤ) ≤ intMax) :
    ∃ msg, buildSoUpload (some soFile) remoteName = some msg ∧
      LengthExact .node (reqHeadSize + 12 + (remoteName.strlen + 1 + soFile.fileSize)) msg := by
  obtain ⟨msg, hmsg, hcells, hreq⟩ := buildSoUpload_sized nonneg hfits
  have hexact := lengthExact_of_request hreq hcells
  refine ⟨msg, hmsg, ?_⟩
  convert hexact using 1
  simp only [List.length_append, Cells.length_stored, length_le64, length_le32,
    CStr.length_bytes, List.length_take, List.length_replicate]
  omega

/-- Where `strcpy` puts the terminator of the name. -/
theorem buildSoUpload_terminator {soFile : SoFile} {remoteName : CStr} {msg : Msg}
    (hmsg : buildSoUpload (some soFile) remoteName = some msg) :
    msg.cells[reqHeadSize + (12 + remoteName.strlen)]? = some (some 0) := by
  have hfront : (le64 (UInt64.ofInt soFile.fileSize) ++
      le32 (toU32 (toCInt remoteName.strlen))).length = 12 := by
    simp
  rw [← Option.some.inj hmsg]
  dsimp only
  rw [Cells.stored_append, List.append_assoc, ← hfront]
  exact terminator_stored _ _ _ _ remoteName _

/-- Without a size, it lies behind the message. -/
theorem soUpload_not_exact {soFile : SoFile} {remoteName : CStr} {msg : Msg}
    (hneg : soFile.fileSize < 0) (hmsg : buildSoUpload (some soFile) remoteName = some msg)
    (hle : msg.msgLen ≤ intMax) :
    ¬ LengthExact .node (reqHeadSize + 12 + (remoteName.strlen + 1 + soFile.fileSize)) msg := by
  intro hexact
  have htell := soFile.ftell
  have htotal := hexact.total
  have hbound := hle
  unfold intMax at hbound
  have hlen : toSizeT msg.msgLen = reqHeadSize + (12 + remoteName.strlen) := by
    rw [show msg.msgLen = (reqHeadSize + (12 + remoteName.strlen) : ℕ) by omega]
    exact toSizeT_of_lt (by omega)
  have hlt := hexact.holds _ _ (buildSoUpload_terminator hmsg)
  omega

theorem soUpload_exact_iff {soFile : SoFile} {remoteName : CStr} :
    (∃ msg, buildSoUpload (some soFile) remoteName = some msg ∧
      LengthExact .node (reqHeadSize + 12 + (remoteName.strlen + 1 + soFile.fileSize)) msg) ↔
      0 ≤ soFile.fileSize ∧
        (reqHeadSize + 12 + (remoteName.strlen + 1 + soFile.fileSize) : ℤ) ≤ intMax := by
  constructor
  · rintro ⟨msg, hmsg, hexact⟩
    have hle : msg.msgLen ≤ intMax := by
      rw [← Option.some.inj hmsg]
      simp only [reqBuilder]
      exact toCInt_le _
    refine ⟨?_, hexact.total ▸ hle⟩
    by_contra hneg
    exact soUpload_not_exact (not_le.mp hneg) hmsg hle hexact
  · rintro ⟨nonneg, hfits⟩
    exact soUpload_exact nonneg hfits

theorem memcpyN2c_exact {dataSize : UInt32} {data : List UInt8}
    (whole : data.length = dataSize.toNat)
    (hfits : (respHeadSize + 4 + dataSize.toNat : ℤ) ≤ intMax) :
    LengthExact .client (respHeadSize + 4 + dataSize.toNat)
      (respBuilder (Cells.stored (le32 dataSize ++ data))) := by
  have hbody : (Cells.stored (le32 dataSize ++ data)).length = 4 + dataSize.toNat := by
    simp [whole]
  have hresp : (respBuilder (Cells.stored (le32 dataSize ++ data))).IsResponse
      (Cells.stored (le32 dataSize ++ data)) :=
    respBuilder_isResponse (by rw [hbody]; omega)
  have hexact := lengthExact_of_response hresp
  have hsum : ((respHeadSize + (4 + dataSize.toNat) : ℕ) : ℤ) =
      respHeadSize + 4 + dataSize.toNat := by
    omega
  rwa [hbody, hsum] at hexact

/-- Every message comes from one of the two macros. -/
theorem build_cases {d : DynamicMsg} {msg : Msg} (h : d.build = some msg) :
    (∃ op sizeofBody dynamicSize body, msg = reqBuilder op sizeofBody dynamicSize body) ∨
      ∃ body, msg = respBuilder body := by
  cases d with
  | memcpyC2n loc remote size nonneg isInt room =>
      simp only [DynamicMsg.build, buildMemcpyC2nReq, if_pos (And.intro nonneg room)] at h
      exact Or.inl ⟨_, _, _, _, (Option.some.inj h).symm⟩
  | soUpload soFile remoteName isLong =>
      exact Or.inl ⟨_, _, _, _, (Option.some.inj h).symm⟩
  | memcpyN2c dataSize data whole => exact Or.inr ⟨_, (Option.some.inj h).symm⟩

/-- No message is longer than an `int` says. -/
theorem build_msgLen_le {d : DynamicMsg} {msg : Msg} (h : d.build = some msg) :
    msg.msgLen ≤ intMax := by
  rcases build_cases h with ⟨op, sizeofBody, dynamicSize, body, rfl⟩ | ⟨body, rfl⟩
  · simp only [reqBuilder]
    exact toCInt_le _
  · simp only [respBuilder]
    exact toCInt_le _

/-- Every builder writes its head, whatever `msg_len` is. -/
theorem not_refused {d : DynamicMsg} {msg : Msg} (h : d.build = some msg) : ¬ Refused msg := by
  intro hrefused
  have hlen := congrArg List.length hrefused
  rcases build_cases h with ⟨op, sizeofBody, dynamicSize, body, rfl⟩ | ⟨body, rfl⟩
  · simp [reqBuilder, reqHeadSize] at hlen
  · simp [respBuilder] at hlen

/-- What is exact has a size, and a sum that is an `int`; nothing is ever refused. -/
theorem sized_of_exact {d : DynamicMsg} (h : ∃ msg, d.build = some msg ∧
    (LengthExact d.receiver d.sum msg ∨ Refused msg)) : d.Sized ∧ d.sum ≤ intMax := by
  obtain ⟨msg, hmsg, hexact | hrefused⟩ := h
  · have hle := build_msgLen_le hmsg
    refine ⟨?_, hexact.total ▸ hle⟩
    cases d with
    | memcpyC2n | memcpyN2c => trivial
    | soUpload soFile remoteName isLong => exact (soUpload_exact_iff.mp ⟨msg, hmsg, hexact⟩).1
  · exact absurd hrefused (not_refused hmsg)

/-- For every message with a dynamic part, at every size its types admit: the
length is the sum, the block holds what is copied and the head announces what
follows, or the operation is refused, if and only if the size is one and the sum
is an `int`. -/
theorem message_lengths_iff (d : DynamicMsg) :
    (∃ msg, d.build = some msg ∧ (LengthExact d.receiver d.sum msg ∨ Refused msg)) ↔
      d.Sized ∧ d.sum ≤ intMax := by
  constructor
  · exact sized_of_exact
  · rintro ⟨hsized, hfits⟩
    cases d with
    | memcpyC2n loc remote size nonneg isInt room =>
        obtain ⟨msg, hmsg, hexact⟩ := memcpyC2n_exact remote nonneg room hfits
        exact ⟨msg, hmsg, Or.inl hexact⟩
    | soUpload soFile remoteName isLong =>
        obtain ⟨msg, hmsg, hexact⟩ := soUpload_exact hsized hfits
        exact ⟨msg, hmsg, Or.inl hexact⟩
    | memcpyN2c dataSize data whole =>
        exact ⟨_, rfl, Or.inl (memcpyN2c_exact whole hfits)⟩

/-- A copy of `2^32 - 1` bytes to the client: `msg_len` is 7. -/
theorem large_copy_wraps : ¬ ∀ d : DynamicMsg,
    ∃ msg, d.build = some msg ∧ (LengthExact d.receiver d.sum msg ∨ Refused msg) := by
  intro hall
  have whole : (List.replicate 4294967295 (0 : UInt8)).length = (4294967295 : UInt32).toNat := by
    rw [List.length_replicate]
    rfl
  have hle := sized_of_exact (hall (.memcpyN2c 4294967295 _ whole))
  exact absurd hle.2 (by simp only [DynamicMsg.sum]; decide)

/-! ## The handler -/

/-- `handle_memcpy_n2c` answers with this message, where its length is the sum. -/
theorem handleMemcpyN2c_builds {sys : Sys} {node node' : Node} {b : List UInt8} {msg : Msg}
    (h : handleMemcpyN2c sys node b = some (node', msg)) :
    ∃ data whole, (DynamicMsg.memcpyN2c (rd32At b 8) data whole).build = some msg ∧
      (DynamicMsg.memcpyN2c (rd32At b 8) data whole).sum ≤ intMax := by
  simp only [handleMemcpyN2c] at h
  split at h
  · next hfits =>
      obtain ⟨data, hdata, hmsg⟩ := Option.bind_eq_some_iff.mp h
      cases hmsg
      unfold memcpyFrom at hdata
      split at hdata <;> cases hdata
      exact ⟨_, ByteMemory.length_read _ _ _, rfl, by simp only [DynamicMsg.sum]; omega⟩
  · cases h

end Dicon.Bounds
