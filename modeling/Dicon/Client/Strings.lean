import Dicon.Client.Builders
import Dicon.Node.Handlers

/-!
# Strings in requests

Three builders put a C string into their message, and the node reads it with
string functions: it ignores the lengths that the message also carries and stops
at the first NUL. `build_so_load` counts the NUL in its length, `build_so_upload`
leaves room for it beside the length, and `build_func_load` does neither.
-/

namespace Dicon.Client

open Framework Node

/-- The builders that are given a string, with their other arguments. -/
inductive StringBuilder
  | soLoad
  | soUpload (soPath : Option SoFile)
  | funcLoad (handle : UInt64)

namespace StringBuilder

def build : StringBuilder → CStr → Option Msg
  | .soLoad, name => some (buildSoLoad name)
  | .soUpload soPath, remoteName => buildSoUpload soPath remoteName
  | .funcLoad handle, symbol => some (buildFuncLoad handle symbol)

def operation : StringBuilder → DicOperation
  | .soLoad => .soLoad
  | .soUpload _ => .soUpload
  | .funcLoad _ => .funcLoad

/-- Where the string lies in the body: behind `so_len`, behind `file_size` and
`name_len`, behind `so_handle` and `symlen`. -/
def offset : StringBuilder → ℕ
  | .soLoad => 4
  | .soUpload _ => 12
  | .funcLoad _ => 12

/-- The message length fits the `int` it is stored in. -/
def Fits : StringBuilder → CStr → Prop
  | .soLoad, name => (reqHeadSize + 4 + (name.strlen + 1) : ℤ) ≤ intMax
  | .soUpload none, _ => True
  | .soUpload (some soFile), remoteName =>
      (reqHeadSize + 12 + (remoteName.strlen + 1 + soFile.fileSize) : ℤ) ≤ intMax
  | .funcLoad _, symbol => (reqHeadSize + 12 + symbol.strlen : ℤ) ≤ intMax

end StringBuilder

/-- The body that the node receives: as many bytes behind the head as the head
declares. -/
def received (msg : Msg) (junk : ℕ → UInt8) : List UInt8 :=
  let sent := (msg.bytes junk).take msg.msgLen.toNat
  (sent.drop reqHeadSize).take (recvCount (ReqHead.ofBytes (sent.take reqHeadSize)).bodySize)

/-- The string stays inside its message. -/
structure StaysInside (msg : Msg) (off : ℕ) (s : CStr) : Prop where
  /-- the builder stores nothing behind the message -/
  writes : ∀ (i : ℕ) (v : UInt8), msg.cells[i]? = some (some v) → (i : ℤ) < msg.msgLen
  /-- there is a NUL in what the node receives -/
  terminated : ∀ junk, 0 ∈ (received msg junk).drop off
  /-- the node reads the string, whatever lies behind the body -/
  reads : ∀ junk beyond, cString (received msg junk ++ beyond) off = s.chars

/-- A builder builds a message in which the string stays inside. -/
def StringBuilder.Carries (b : StringBuilder) (s : CStr) : Prop :=
  ∃ msg, b.build s = some msg ∧ StaysInside msg b.offset s

/-- The builders that keep their string inside: not `build_func_load`, and
`build_so_upload` only where the file opens and `ftell` gives its size. -/
def StringBuilder.Sound : StringBuilder → Prop
  | .soLoad => True
  | .soUpload none => False
  | .soUpload (some soFile) => 0 ≤ soFile.fileSize
  | .funcLoad _ => False

section

variable {sys : Sys} {node : Node} {b : List UInt8}

/-- What the handlers read at these offsets: the names of files to open, and the
symbol to look up. -/
theorem handler_reads (sb : StringBuilder) {node' : Node} {resp : Option Msg}
    (h : dispatch sys node b sb.operation.code = some (node', resp)) :
    match sb with
    | .soLoad => node'.calls = node.calls ++ [.dlopen (soPath (cString b sb.offset))]
    | .soUpload _ => ∃ bytes, node'.files =
        Function.update node.files (soPath (cString b sb.offset)) (some bytes)
    | .funcLoad _ => node'.calls =
        node.calls ++ [.dlsym (rd64At b 0) (cString b sb.offset)] := by
  rw [dispatch_code] at h
  cases sb with
  | soLoad =>
      cases h
      rfl
  | soUpload soPath =>
      obtain ⟨msg, rfl, hr⟩ := ccase_eq_some h
      simp only [handleSoUpload] at hr
      split at hr <;> cases hr
      exact ⟨_, rfl⟩
  | funcLoad handle =>
      cases h
      rfl

end

section

variable {msg : Msg} {operation : UInt16} {body : Cells UInt8}

theorem received_eq (h : msg.IsRequest operation body) (junk : ℕ → UInt8) :
    received msg junk = Cells.fill (fun i => junk (i + reqHeadSize)) body := by
  have hhead : (ReqHead.bytes ⟨operation, 0, toU32 body.length⟩).length = reqHeadSize :=
    ReqHead.length_bytes _
  have hcount : recvCount (toU32 body.length) = body.length := by
    have hfits := h.fits
    exact recvCount_toU32 (by omega)
  rw [received, h.bytes_eq, List.take_left' hhead, List.drop_left' hhead,
    ReqHead.ofBytes_bytes]
  simp only [hcount]
  exact List.take_of_length_le (by simp)

/-- Nothing is stored behind a message whose cells end with it. -/
theorem writes_of_length (h : (msg.cells.length : ℤ) = msg.msgLen) (i : ℕ) (v : UInt8)
    (hi : msg.cells[i]? = some (some v)) : (i : ℤ) < msg.msgLen := by
  obtain ⟨hlt, _⟩ := List.getElem?_eq_some_iff.mp hi
  omega

/-- A string read where it was stored with its terminator. -/
theorem cString_bytes (pre : List UInt8) {off : ℕ} (hoff : pre.length = off) (s : CStr)
    (rest : List UInt8) : cString (pre ++ s.bytes ++ rest) off = s.chars := by
  have hstop : (s.chars ++ 0 :: rest).takeWhile (· ≠ 0) = s.chars := by
    rw [List.takeWhile_append_of_pos]
    · simp
    · intro c hc
      exact decide_eq_true fun h => s.noNul (h ▸ hc)
  rw [cString, List.append_assoc, List.drop_left' hoff, CStr.bytes, List.append_assoc]
  exact hstop

/-- A string stored whole at its offset stays inside. -/
theorem staysInside_of_stored {pre : List UInt8} {off : ℕ} {s : CStr} {rest : Cells UInt8}
    (h : msg.IsRequest operation (Cells.stored (pre ++ s.bytes) ++ rest))
    (hoff : pre.length = off) (hlen : (msg.cells.length : ℤ) = msg.msgLen) :
    StaysInside msg off s where
  writes := writes_of_length hlen
  terminated junk := by
    rw [received_eq h, Cells.fill_append, Cells.fill_stored, List.append_assoc,
      List.drop_left' hoff, CStr.bytes]
    simp
  reads junk beyond := by
    rw [received_eq h, Cells.fill_append, Cells.fill_stored, List.append_assoc]
    exact cString_bytes pre hoff s _

end

/-- Where the terminator of a string is stored. -/
theorem terminator_stored (operation : DicOperation) (sizeofBody : ℕ) (dynamicSize : ℤ)
    (pre : List UInt8) (s : CStr) (rest : Cells UInt8) :
    (reqBuilder operation sizeofBody dynamicSize
      (Cells.stored (pre ++ s.bytes) ++ rest)).cells[reqHeadSize + (pre.length + s.strlen)]? =
        some (some 0) := by
  have hat : (Cells.stored (pre ++ s.bytes))[pre.length + s.strlen]? = some (some 0) := by
    rw [Cells.stored, List.getElem?_map, List.getElem?_append_right (Nat.le_add_right _ _),
      Nat.add_sub_cancel_left, CStr.bytes, CStr.strlen, List.getElem?_concat_length]
    rfl
  have hhead : (Cells.stored (ReqHead.bytes ⟨operation.code, 0,
      toU32 (toCInt (reqHeadSize + sizeofBody + dynamicSize) - reqHeadSize)⟩)).length =
        reqHeadSize := by
    simp
  simp only [reqBuilder]
  rw [List.getElem?_append_right (by rw [hhead]; omega), hhead, Nat.add_sub_cancel_left,
    List.getElem?_append_left (by simp), hat]

/-- A message that ends where the terminator of its string is stored. -/
theorem not_staysInside {operation : DicOperation} {sizeofBody off : ℕ} {dynamicSize : ℤ}
    {pre : List UInt8} {s : CStr} {rest : Cells UInt8}
    (hn : (sizeofBody + dynamicSize : ℤ) = (pre.length + s.strlen : ℕ))
    (hfits : reqHeadSize + (pre.length + s.strlen) ≤ intMax) :
    ¬ StaysInside (reqBuilder operation sizeofBody dynamicSize
      (Cells.stored (pre ++ s.bytes) ++ rest)) off s := by
  intro hin
  have hlen : toCInt (reqHeadSize + sizeofBody + dynamicSize) =
      (reqHeadSize + (pre.length + s.strlen) : ℕ) := by
    rw [← toCInt_of_le hfits]
    congr 1
    push_cast at hn ⊢
    omega
  have hlt := hin.writes _ _ (terminator_stored operation sizeofBody dynamicSize pre s rest)
  simp only [reqBuilder, hlen] at hlt
  omega

/-! ## The three builders -/

theorem soLoad_carries {name : CStr} (hfits : StringBuilder.soLoad.Fits name) :
    StringBuilder.soLoad.Carries name := by
  have hreq := buildSoLoad_isRequest hfits
  have hcells : ((buildSoLoad name).cells.length : ℤ) = (buildSoLoad name).msgLen := by
    rw [hreq.len]
    simp [buildSoLoad, reqBuilder]
  rw [← List.append_nil (Cells.stored _)] at hreq
  exact ⟨_, rfl, staysInside_of_stored hreq (length_le32 _) hcells⟩

theorem soUpload_carries {soFile : SoFile} {remoteName : CStr} (h0 : 0 ≤ soFile.fileSize)
    (hfits : (StringBuilder.soUpload (some soFile)).Fits remoteName) :
    (StringBuilder.soUpload (some soFile)).Carries remoteName := by
  obtain ⟨msg, hmsg, hcells, hreq⟩ := buildSoUpload_sized h0 hfits
  rw [Cells.stored_append, List.append_assoc] at hreq
  exact ⟨msg, hmsg, staysInside_of_stored hreq (by simp [StringBuilder.offset]) hcells⟩

/-- Where `ftell` fails, the block is one byte short of the name. -/
theorem soUpload_not_carries {soFile : SoFile} {remoteName : CStr} (hneg : soFile.fileSize < 0)
    (hfits : (StringBuilder.soUpload (some soFile)).Fits remoteName) :
    ¬ (StringBuilder.soUpload (some soFile)).Carries remoteName := by
  rintro ⟨msg, hmsg, hin⟩
  have htell := soFile.ftell
  have hsize : soFile.fileSize = -1 := by omega
  simp only [StringBuilder.Fits, hsize] at hfits
  have hname : toCInt remoteName.strlen = remoteName.strlen := toCInt_of_le (by omega)
  cases hmsg
  simp only [hname, hsize] at hin
  rw [Cells.stored_append, List.append_assoc] at hin
  refine not_staysInside ?_ ?_ hin
  · simp
  · simp
    omega

theorem funcLoad_not_carries (handle : UInt64) {symbol : CStr}
    (hfits : (StringBuilder.funcLoad handle).Fits symbol) :
    ¬ (StringBuilder.funcLoad handle).Carries symbol := by
  rintro ⟨msg, hmsg, hin⟩
  simp only [StringBuilder.Fits] at hfits
  have hlen : toCInt symbol.strlen = symbol.strlen := toCInt_of_le (by omega)
  cases hmsg
  rw [buildFuncLoad, ← List.append_nil (Cells.stored _)] at hin
  refine not_staysInside ?_ ?_ hin
  · rw [hlen]
    simp
  · simp
    omega

/-- What `dlsym` is asked for runs on into whatever lies behind the body. -/
theorem funcLoad_reads (handle : UInt64) {symbol : CStr}
    (hfits : (StringBuilder.funcLoad handle).Fits symbol) (junk : ℕ → UInt8)
    (beyond : List UInt8) :
    cString (received (buildFuncLoad handle symbol) junk ++ beyond) 12 =
      symbol.chars ++ beyond.takeWhile (· ≠ 0) := by
  have hoff : (le64 handle ++ le32 (toU32 symbol.strlen)).length = 12 := by simp
  rw [received_eq (buildFuncLoad_isRequest handle hfits), Cells.fill_stored, cString,
    List.append_assoc, List.drop_left' hoff, List.takeWhile_append_of_pos]
  intro c hc
  exact decide_eq_true fun h => symbol.noNul (h ▸ hc)

/-- For every string-carrying builder and every C string whose message fits an
`int`: the builder writes only inside its message, and what the node's handler
reads ends in the body that it received and is that string, if and only if the
builder is `build_so_load`, or `build_so_upload` of a file that opens and whose
size `ftell` gives. -/
theorem carries_iff (b : StringBuilder) (s : CStr) (hfits : b.Fits s) :
    b.Carries s ↔ b.Sound := by
  cases b with
  | soLoad => exact iff_of_true (soLoad_carries hfits) trivial
  | soUpload soPath =>
      cases soPath with
      | none =>
          refine iff_of_false ?_ id
          rintro ⟨msg, hmsg, _⟩
          cases hmsg
      | some soFile =>
          constructor
          · intro hcarries
            by_contra hneg
            exact soUpload_not_carries (not_le.mp hneg) hfits hcarries
          · intro h0
            exact soUpload_carries h0 hfits
  | funcLoad handle => exact iff_of_false (funcLoad_not_carries handle hfits) id

theorem letterA_noNul : (0 : UInt8) ∉ [97] := by decide

/-- `"a"` -/
def letterA : CStr := ⟨[97], letterA_noNul⟩

theorem fits_letterA (b : StringBuilder) (h : ∀ soPath, b ≠ .soUpload soPath) :
    b.Fits letterA := by
  cases b with
  | soUpload soPath => exact absurd rfl (h soPath)
  | soLoad | funcLoad handle =>
      simp [StringBuilder.Fits, CStr.strlen, letterA, reqHeadSize, intMax]

theorem carries_iff_run : StringBuilder.soLoad.Carries letterA :=
  (carries_iff .soLoad letterA (fits_letterA _ (by simp))).mpr trivial

/-- The terminator of a one-letter symbol lies behind its message. -/
theorem func_load_overruns :
    ¬ ∀ (b : StringBuilder) (s : CStr), b.Fits s → b.Carries s := by
  intro hall
  have hfits : (StringBuilder.funcLoad 1).Fits letterA := fits_letterA _ (by simp)
  exact funcLoad_not_carries 1 hfits (hall _ _ hfits)

end Dicon.Client
