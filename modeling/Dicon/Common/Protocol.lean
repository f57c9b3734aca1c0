import Dicon.Framework.LittleEndian
import Dicon.Framework.Framing
import Dicon.Common.CInt

/-!
# The client-node protocol (`common/include/dicon_protocol.h`)

Operation codes, the two generic heads, and the frames they spell: a request is
an eight-byte head and a body, a response a four-byte head and a body, and the
head declares the length of the body. The receiver reads as many bytes as
`recvCount` makes of the declared length.
-/

namespace Dicon

open Framework

/-- `enum DIC_OPERATION` -/
inductive DicOperation
  | malloc
  | realloc
  | free
  | memcpyC2n
  | memcpyN2c
  | soVerify
  | soLoad
  | soUnload
  | soUpload
  | funcLoad
  | run
  | join
deriving DecidableEq

/-- The 16-bit `DIC_OPERATION` on the wire. -/
def DicOperation.code : DicOperation → UInt16
  | .malloc => 0
  | .realloc => 1
  | .free => 2
  | .memcpyC2n => 3
  | .memcpyN2c => 4
  | .soVerify => 5
  | .soLoad => 6
  | .soUnload => 7
  | .soUpload => 8
  | .funcLoad => 9
  | .run => 10
  | .join => 11

theorem DicOperation.code_injective {op op' : DicOperation} (h : op.code = op'.code) :
    op = op' := by
  cases op <;> cases op' <;> first | rfl | exact absurd h (by decide)

/-- `dic_req_head_generic` -/
structure ReqHead where
  operation : UInt16
  version : UInt16
  bodySize : UInt32
deriving DecidableEq

/-- `sizeof(dic_req_head_generic)` -/
def reqHeadSize : ℕ := 8

/-- `sizeof(dic_resp_head_generic)` -/
def respHeadSize : ℕ := 4

namespace ReqHead

def bytes (h : ReqHead) : List UInt8 :=
  le16 h.operation ++ le16 h.version ++ le32 h.bodySize

def ofBytes (bs : List UInt8) : ReqHead where
  operation := rd16 (bs.take 2)
  version := rd16 ((bs.drop 2).take 2)
  bodySize := rd32 ((bs.drop 4).take 4)

@[simp] theorem length_bytes (h : ReqHead) : h.bytes.length = reqHeadSize := by
  simp [bytes, reqHeadSize]

@[simp] theorem ofBytes_bytes (h : ReqHead) : ofBytes h.bytes = h := by
  obtain ⟨hop, hversion, hsize⟩ := rd_record h.operation h.version h.bodySize
  unfold ofBytes bytes
  rw [hop, hversion, hsize]

end ReqHead

/-- A frame, as its head bytes and its body bytes. -/
abbrev Frame := List UInt8 × List UInt8

/-- How a node cuts its input into requests. -/
def reqFraming : Framing UInt8 where
  headLen := reqHeadSize
  bodyLen h := recvCount (ReqHead.ofBytes h).bodySize

/-- How a client cuts its input into responses. -/
def respFraming : Framing UInt8 where
  headLen := respHeadSize
  bodyLen h := recvCount (rd32 h)

/-- A request whose message length fits the `int` it is passed as. -/
structure Request where
  operation : UInt16
  body : List UInt8
  fits : reqHeadSize + body.length ≤ intMax

/-- A response whose message length fits the `int` it is passed as. -/
structure Response where
  body : List UInt8
  fits : respHeadSize + body.length ≤ intMax

/-- `REQ_BUILDER_SET_HEAD` -/
def Request.head (r : Request) : ReqHead := ⟨r.operation, 0, toU32 r.body.length⟩

def Request.frame (r : Request) : Frame := (r.head.bytes, r.body)

def Request.bytes (r : Request) : List UInt8 := r.head.bytes ++ r.body

def Response.frame (r : Response) : Frame := (le32 (toU32 r.body.length), r.body)

def Response.bytes (r : Response) : List UInt8 := le32 (toU32 r.body.length) ++ r.body

theorem Request.isFrame (r : Request) : reqFraming.IsFrame r.frame where
  head := r.head.length_bytes
  body := by
    have hfits := r.fits
    simp only [reqFraming, frame, ReqHead.ofBytes_bytes, head]
    exact (recvCount_toU32 (by omega)).symm

theorem Response.isFrame (r : Response) : respFraming.IsFrame r.frame where
  head := length_le32 _
  body := by
    have hfits := r.fits
    simp only [respFraming, frame, rd32_le32]
    exact (recvCount_toU32 (by omega)).symm

end Dicon
