import Dicon.Common.Protocol
import Dicon.Framework.Cells

/-!
# Messages before they are sent

Both sides build a message in a block of which only the fields that they assign
are determined, and then send as many bytes of it as `msg_len` says.
-/

namespace Dicon

open Framework

/-- `msg_builder_ret`: what was stored from the start of the block on, and
`msg_len`, which is also the size of the block. -/
structure Msg where
  cells : Cells UInt8
  msgLen : ℤ

namespace Msg

/-- The bytes of a message when it is sent. -/
def bytes (msg : Msg) (junk : ℕ → UInt8) : List UInt8 := Cells.fill junk msg.cells

/-- A response whose length fits an `int` is its head and its body. -/
structure IsResponse (msg : Msg) (body : Cells UInt8) : Prop where
  cells : msg.cells = Cells.stored (le32 (toU32 body.length)) ++ body
  len : msg.msgLen = (respHeadSize + body.length : ℕ)
  fits : respHeadSize + body.length ≤ intMax

/-- A request whose length fits an `int` begins with its head and its body. -/
structure IsRequest (msg : Msg) (operation : UInt16) (body : Cells UInt8) : Prop where
  cells : msg.cells.take (reqHeadSize + body.length) =
    Cells.stored (ReqHead.bytes ⟨operation, 0, toU32 body.length⟩) ++ body
  len : msg.msgLen = (reqHeadSize + body.length : ℕ)
  fits : reqHeadSize + body.length ≤ intMax

section

variable {msg : Msg} {operation : UInt16} {body : Cells UInt8}

theorem IsResponse.length (h : msg.IsResponse body) (junk : ℕ → UInt8) :
    (msg.bytes junk).length = respHeadSize + body.length := by
  simp [bytes, h.cells, respHeadSize]

theorem IsResponse.bytes_eq (h : msg.IsResponse body) (junk : ℕ → UInt8) :
    msg.bytes junk = le32 (toU32 body.length) ++
      Cells.fill (fun i => junk (i + respHeadSize)) body := by
  have hhead : (Cells.stored (le32 (toU32 body.length))).length = respHeadSize := by
    simp [respHeadSize]
  rw [bytes, h.cells, Cells.fill_append, Cells.fill_stored, hhead]

/-- The bytes that a response puts on the wire are a complete frame. -/
theorem IsResponse.frame (h : msg.IsResponse body) (junk : ℕ → UInt8) :
    ∃ f : Frame, respFraming.IsFrame f ∧ msg.bytes junk = f.1 ++ f.2 ∧
      f.2 = Cells.fill (fun i => junk (i + respHeadSize)) body := by
  have hfits : respHeadSize + (Cells.fill (fun i => junk (i + respHeadSize)) body).length ≤
      intMax := by
    rw [Cells.length_fill]
    exact h.fits
  refine ⟨(Response.mk _ hfits).frame, Response.isFrame _, ?_, rfl⟩
  rw [h.bytes_eq]
  simp [Response.frame]

/-- What is sent of a request. -/
theorem IsRequest.bytes_eq (h : msg.IsRequest operation body) (junk : ℕ → UInt8) :
    (msg.bytes junk).take msg.msgLen.toNat =
      ReqHead.bytes ⟨operation, 0, toU32 body.length⟩ ++
        Cells.fill (fun i => junk (i + reqHeadSize)) body := by
  have hhead : (Cells.stored (ReqHead.bytes ⟨operation, 0, toU32 body.length⟩)).length =
      reqHeadSize := by
    simp
  rw [bytes, h.len, Int.toNat_natCast, Cells.fill_take, h.cells, Cells.fill_append,
    Cells.fill_stored, hhead]

end

end Msg

end Dicon
