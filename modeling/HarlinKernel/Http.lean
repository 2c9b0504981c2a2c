import Mathlib.Data.List.TakeWhile
import Mathlib.Tactic

/-! The receiving loop of `network_http_get` in `net/network.c`: a reader that takes the
response byte by byte, collects header lines, and prints the body. The bytes come in the
pieces that `tcp_recv` returns; what it prints is kept in order. -/
namespace HarlinKernel.Http

/-- The bytes of a string literal. -/
def ascii (s : String) : List UInt8 := s.toList.map fun c => UInt8.ofNat c.toNat

def cr : UInt8 := 13
def lf : UInt8 := 10

/-- What is written to the screen: a text or a number of the kernel, or a byte of the body. -/
inductive Out
  | text (s : String)
  | num (n : ℕ)
  | byte (c : UInt8)
  deriving DecidableEq

inductive ChunkState
  | size | data | endCrlf | done
  deriving DecidableEq

/-- The local variables of the loop; `line` holds the first `line_pos` bytes of `line_buf`. -/
structure Reader where
  headerDone : Bool
  line : List UInt8
  bodyLen : ℕ
  isChunked : Bool
  chunkState : ChunkState
  chunkSize : ℕ
  chunkRemaining : ℕ
  statusCode : ℤ
  contentLength : ℤ
  bodyRemaining : ℤ
  out : List Out

def Reader.start : Reader where
  headerDone := false
  line := []
  bodyLen := 0
  isChunked := false
  chunkState := .size
  chunkSize := 0
  chunkRemaining := 0
  statusCode := 0
  contentLength := -1
  bodyRemaining := -1
  out := []

def Reader.put (r : Reader) (o : List Out) : Reader := { r with out := r.out ++ o }

/-- `net_putnum`, which takes an `unsigned int`. -/
def netPutnum (v : ℤ) : Out := .num (v % 2^32).toNat

/-- On strings without their terminating zero. -/
def harlinCompare : List UInt8 → List UInt8 → ℤ
  | a :: as, b :: bs => if a ≠ b then (a.toNat : ℤ)-b.toNat else harlinCompare as bs
  | a, b => ((a.headD 0).toNat : ℤ)-(b.headD 0).toNat

def isDigit (c : UInt8) : Bool := 48 ≤ c && c ≤ 57
def isBlank (c : UInt8) : Bool := c == 32 || c == 9

/-- The digits at the front of a string as an `int`, which wraps around. -/
def leadingInt (s : List UInt8) : ℤ :=
  (s.takeWhile isDigit).foldl (fun v c => (v*10+(c.toNat-48)).bmod (2^32)) 0

/-- `line_buf` at the end of a line: a carriage return in front is overwritten by zero. -/
def lineBuf (line : List UInt8) : List UInt8 :=
  if line.getLast? = some cr then line.dropLast ++ [0] else line

/-- The string in `line_buf`. -/
def lineStr (line : List UInt8) : List UInt8 := (lineBuf line).takeWhile (· ≠ 0)

/-- The test for the empty line. -/
def endsHeader (line : List UInt8) : Bool :=
  decide (line.length = 0) || decide (line.length = 1) && (lineBuf line).headD 0 == cr

def isStatusLine (line : List UInt8) : Bool :=
  let b := fun i => (lineBuf line).getD i 0
  decide (5 < line.length) && (b 0 == 72 || b 0 == 104) && (b 1 == 84 || b 1 == 116) &&
    (b 2 == 84 || b 2 == 116) && (b 3 == 80 || b 3 == 112) && (b 4 == 47 || b 4 == 32)

/-- What a status line or a header field changes. -/
def headerLine (r : Reader) : Reader :=
  let str := lineStr r.line
  if r.statusCode = 0 ∧ isStatusLine r.line then
    let code := leadingInt ((str.dropWhile (· ≠ 32)).dropWhile (· == 32))
    { r.put [.text "HTTP ",netPutnum code,.text "\n"] with statusCode := code }
  else if r.statusCode ≠ 0 then
    let field := str.dropWhile isBlank
    if harlinCompare field (ascii "Content-Length:") = 0 then
      let v := leadingInt ((field.drop 15).dropWhile isBlank)
      { r with contentLength := v, bodyRemaining := v }
    else if harlinCompare field (ascii "Transfer-Encoding:") = 0 then
      let coding := (field.drop 18).dropWhile isBlank
      if harlinCompare coding (ascii "chunked") = 0 ∨
        harlinCompare coding (ascii "Chunked") = 0 then
        { r with isChunked := true }
      else r
    else r
  else r

def bodyBanner : String := "- body -\n"
def redirectBanner : String := "- redirect/no body -\n"

def Reader.banner (r : Reader) : String :=
  if 300 ≤ r.statusCode ∧ r.statusCode < 400 then redirectBanner else bodyBanner

/-- A byte of the header. -/
def headerByte (r : Reader) (c : UInt8) : Reader :=
  if c = lf then
    if endsHeader r.line then { r.put [.text r.banner] with headerDone := true, line := [] }
    else { headerLine r with line := [] }
  else if 1023 ≤ r.line.length then { r with line := [] }
  else { r with line := r.line ++ [c] }

def hexValue (c : UInt8) : Option ℕ :=
  if 48 ≤ c ∧ c ≤ 57 then some (c.toNat-48)
  else if 65 ≤ c ∧ c ≤ 70 then some (c.toNat-65+10)
  else if 97 ≤ c ∧ c ≤ 102 then some (c.toNat-97+10)
  else none

/-- `screen_put_char` of a body byte, with the count of lines. -/
def Reader.putChar (r : Reader) (c : UInt8) : Reader :=
  { r.put [.byte c] with bodyLen := if c = lf then r.bodyLen+1 else r.bodyLen }

/-- A byte of a chunked body. -/
def chunkByte (r : Reader) (c : UInt8) : Reader :=
  match r.chunkState with
  | .done => r
  | .size =>
    match hexValue c with
    | some v => { r with chunkSize := r.chunkSize*16+v }
    | none =>
      if c = lf then
        if r.chunkSize = 0 then { r with chunkState := .done }
        else { r with chunkRemaining := r.chunkSize, chunkState := .data, chunkSize := 0 }
      else r
  | .data =>
    let r := { r.putChar c with chunkRemaining := r.chunkRemaining-1 }
    if r.chunkRemaining = 0 then { r with chunkState := .endCrlf } else r
  | .endCrlf => if c = lf then { r with chunkState := .size } else r

/-- A byte of the response; the flag is the jump to `body_done`. -/
def readByte (r : Reader) (c : UInt8) : Reader × Bool :=
  if !r.headerDone then (headerByte r c,false)
  else if r.isChunked then (chunkByte r c,false)
  else
    let r := r.putChar c
    if 0 < r.bodyRemaining then
      ({ r with bodyRemaining := r.bodyRemaining-1 },decide (r.bodyRemaining-1 = 0))
    else (r,false)

/-- The bytes of one piece. -/
def feed (r : Reader) : List UInt8 → Reader × Bool
  | [] => (r,false)
  | c :: cs =>
    match readByte r c with
    | (r,true) => (r,true)
    | (r,false) => feed r cs

/-- How `tcp_recv` ends: the peer has closed, nothing arrives, or the connection is reset. -/
inductive End
  | closed | idle | reset
  deriving DecidableEq

def End.texts : End → List Out
  | .closed => []
  | .idle => [.text "\nNo more data\n"]
  | .reset => [.text "\nConnection reset\n"]

/-- The receiving loop on the pieces that arrive and the end after them; the flag says that
it left by itself. -/
def receive (r : Reader) (e : End) : List (List UInt8) → Reader × Bool
  | [] => (r.put e.texts,false)
  | p :: ps =>
    match feed r p with
    | (r,true) => (r,true)
    | (r,false) => receive r e ps

/-- The lines behind the body. -/
def Reader.summary (r : Reader) : List Out :=
  [.text "\n",.text "Done, ",.num r.bodyLen,.text " lines, status ",netPutnum r.statusCode] ++
    (if 0 ≤ r.contentLength then [.text ", length ",netPutnum r.contentLength] else []) ++
    [.text "\n"]

/-- What the call prints once the request is sent, and what it returns. -/
def networkHttpGet (pieces : List (List UInt8)) (e : End) : List Out × ℤ :=
  let r := (receive .start e pieces).1
  (r.out ++ r.summary,if 0 < r.statusCode ∧ r.statusCode < 400 then 1 else 0)

def isBanner (o : Out) : Bool := o == .text bodyBanner || o == .text redirectBanner

def Out.body : Out → Option UInt8
  | .byte c => some c
  | _ => none

/-- The body bytes printed behind the first banner; nothing without a banner. -/
def bodyOf (out : List Out) : Option (List UInt8) :=
  match out.dropWhile (fun o => !isBanner o) with
  | [] => none
  | _ :: rest => some (rest.filterMap Out.body)

/-- How the end of the body is known. -/
inductive Framing
  | length | chunked | close
  deriving DecidableEq

/-- A response with its body as it is sent and decoded. -/
structure Response where
  statusLine : List UInt8
  headers : List (List UInt8)
  framing : Framing
  raw : List UInt8
  data : List UInt8

def crlf : List UInt8 := [cr,lf]

def Response.bytes (r : Response) : List UInt8 :=
  (r.statusLine :: r.headers).flatMap (· ++ crlf) ++ crlf ++ r.raw

def hexNat (s : List UInt8) : Option ℕ :=
  s.foldlM (fun v c => (hexValue c).map (v*16+·)) 0

/-- `raw` is a chunked encoding of `data`, with chunk extensions and a trailer. -/
inductive Chunked : List UInt8 → List UInt8 → Prop
  | last {size ext : List UInt8} {trailer : List (List UInt8)} (hsize : size ≠ [])
      (hzero : hexNat size = some 0) (hext : lf ∉ ext) (htrailer : ∀ l ∈ trailer, l ≠ [] ∧ lf ∉ l) :
      Chunked (size ++ ext ++ crlf ++ trailer.flatMap (· ++ crlf) ++ crlf) []
  | chunk {size ext d raw data : List UInt8} (hsize : hexNat size = some d.length) (hd : d ≠ [])
      (hext : lf ∉ ext) (hrest : Chunked raw data) :
      Chunked (size ++ ext ++ crlf ++ d ++ crlf ++ raw) (d ++ data)

/-- The form of a response. -/
structure WellFormed (r : Response) : Prop where
  status : ∃ code reason, r.statusLine = ascii "HTTP/1.1 " ++ code ++ 32 :: reason ∧
    code.length = 3 ∧ ∀ c ∈ code, isDigit c = true
  lines : ∀ l ∈ r.statusLine :: r.headers, l ≠ [] ∧ lf ∉ l ∧ cr ∉ l ∧ l.length < 1023
  body :
    match r.framing with
    | .length => ascii "Content-Length: " ++ ascii (toString r.data.length) ∈ r.headers ∧
        r.raw = r.data
    | .chunked => ascii "Transfer-Encoding: chunked" ∈ r.headers ∧ Chunked r.raw r.data
    | .close => r.raw = r.data

/-- The room that the loop passes to `tcp_recv`: `sizeof` of the pointer to the buffer, less 1. -/
def recvRoom : ℕ := 7

/-- The pieces in which `tcp_recv` returns a response. -/
structure Cut (r : Response) (pieces : List (List UInt8)) : Prop where
  whole : pieces.flatten = r.bytes
  nonempty : ∀ p ∈ pieces, p ≠ []
  short : ∀ p ∈ pieces, p.length ≤ recvRoom

/-- The call prints exactly the decoded body behind its banner, and leaves the loop by itself when
the response says where the body ends. -/
def Delivered (r : Response) (pieces : List (List UInt8)) (e : End) : Prop :=
  bodyOf (networkHttpGet pieces e).1 = some r.data ∧
    (r.framing ≠ .close → (receive .start e pieces).2 = true)

lemma harlinCompare_eq_zero {a b : List UInt8} (ha : 0 ∉ a) (hb : 0 ∉ b)
    (h : harlinCompare a b = 0) : a = b := by
  have hne : ∀ c : UInt8, c ≠ 0 → c.toNat ≠ 0 := fun c hc hzr =>
    hc (UInt8.toNat_inj.mp hzr)
  induction a generalizing b with
  | nil =>
    cases b with
    | nil => rfl
    | cons y b =>
      have hy := hne y (fun hy => hb (by rw [hy]; exact .head _))
      simp only [harlinCompare,List.headD_nil,List.headD_cons,UInt8.toNat_zero] at h
      omega
  | cons x a ih =>
    have hx := hne x (fun hx => ha (by rw [hx]; exact .head _))
    cases b with
    | nil =>
      simp only [harlinCompare,List.headD_nil,List.headD_cons,UInt8.toNat_zero] at h
      omega
    | cons y b =>
      rw [harlinCompare] at h
      split at h
      · rename_i hxy
        exact (hxy (UInt8.toNat_inj.mp (by omega))).elim
      · rename_i hxy
        rw [not_not.mp hxy,ih (fun h0 => ha (.tail _ h0)) (fun h0 => hb (.tail _ h0)) h]

lemma lineStr_no_zero (line : List UInt8) : 0 ∉ lineStr line := by
  intro h
  have := List.mem_takeWhile_imp h
  simp at this

/-- The reader counts no bytes and decodes no chunks. -/
structure Plain (r : Reader) : Prop where
  remaining : r.bodyRemaining ≤ 0
  chunked : r.isChunked = false

lemma Plain.start : Plain .start := ⟨by decide,rfl⟩

variable {r : Reader} {a b : List Out} {d l : List UInt8}

/-- A field name is only recognised when nothing follows it, so that no length and no coding
is ever read. -/
theorem Plain.headerLine (h : Plain r) : Plain (headerLine r) := by
  have hzr : 0 ∉ (lineStr r.line).dropWhile isBlank := fun hmem =>
    lineStr_no_zero r.line ((List.dropWhile_sublist isBlank).mem hmem)
  unfold Http.headerLine
  dsimp only
  split
  · exact ⟨h.remaining,h.chunked⟩
  split
  · split
    · rename_i hfl
      have heq := harlinCompare_eq_zero hzr (by decide) hfl
      rw [heq]
      have hno : leadingInt (((ascii "Content-Length:").drop 15).dropWhile isBlank) = 0 := by
        decide
      exact ⟨by rw [hno],h.chunked⟩
    · split
      · rename_i hfl
        have heq := harlinCompare_eq_zero hzr (by decide) hfl
        rw [heq,if_neg (by decide)]
        exact h
      · exact h
  · exact h

lemma Plain.readByte (h : Plain r) (c : UInt8) :
    Plain (readByte r c).1 ∧ (readByte r c).2 = false := by
  unfold Http.readByte
  rw [h.chunked]
  have hrem := h.remaining
  split
  · refine ⟨?_,rfl⟩
    unfold headerByte
    split
    · split
      · exact ⟨h.remaining,h.chunked⟩
      · exact ⟨h.headerLine.remaining,h.headerLine.chunked⟩
    · split <;> exact ⟨h.remaining,h.chunked⟩
  · have hsh : (r.putChar c).bodyRemaining = r.bodyRemaining := rfl
    rw [if_neg (by decide)]
    dsimp only
    rw [hsh,if_neg (by omega)]
    exact ⟨⟨h.remaining,h.chunked⟩,rfl⟩

lemma feed_cons (h : Plain r) (c : UInt8) (cs : List UInt8) :
    feed r (c :: cs) = feed (readByte r c).1 cs := by
  rw [feed]
  obtain ⟨-,hst⟩ := h.readByte c
  split
  · rename_i r' heq
    rw [heq] at hst
    cases hst
  · rename_i r' heq
    rw [heq]

lemma Plain.feed (h : Plain r) (cs : List UInt8) :
    Plain (feed r cs).1 ∧ (feed r cs).2 = false := by
  induction cs generalizing r with
  | nil => exact ⟨h,rfl⟩
  | cons c cs ih =>
    rw [feed_cons h]
    exact ih (h.readByte c).1

lemma feed_append (h : Plain r) (a b : List UInt8) : feed r (a ++ b) = feed (feed r a).1 b := by
  induction a generalizing r with
  | nil => rfl
  | cons c a ih =>
    rw [List.cons_append,feed_cons h,feed_cons h,ih (h.readByte c).1]

/-- How the response is cut does not matter, and the loop only ends with `tcp_recv`. -/
theorem receive_eq (h : Plain r) (e : End) (pieces : List (List UInt8)) :
    receive r e pieces = ((feed r pieces.flatten).1.put e.texts,false) := by
  induction pieces generalizing r with
  | nil => rfl
  | cons p ps ih =>
    obtain ⟨hpl,hst⟩ := h.feed p
    rw [receive,List.flatten_cons,feed_append h,← ih hpl]
    split
    · rename_i r' heq
      rw [heq] at hst
      cases hst
    · rename_i r' heq
      rw [heq]

lemma bodyOf_append_none (h : bodyOf a = none) : bodyOf (a ++ b) = bodyOf b := by
  have hall : ∀ o ∈ a, (!isBanner o) = true := by
    rw [bodyOf] at h
    split at h
    · rename_i hnil
      exact List.dropWhile_eq_nil_iff.mp hnil
    · cases h
  rw [bodyOf,List.dropWhile_append_of_pos hall]
  rfl

lemma bodyOf_append_some (h : bodyOf a = some d) :
    bodyOf (a ++ b) = some (d ++ b.filterMap Out.body) := by
  rw [bodyOf] at h
  split at h
  · cases h
  · rename_i o rest heq
    cases h
    rw [bodyOf,List.dropWhile_append]
    simp [heq]

/-- Texts and numbers that are no banner do not count as body. -/
lemma bodyOf_append_texts (hb : b.all (fun o => !isBanner o && o.body.isNone) = true) :
    bodyOf (a ++ b) = bodyOf a := by
  have htx (o : Out) (ho : o ∈ b) : isBanner o = false ∧ o.body = none := by
    simpa using List.all_eq_true.mp hb o ho
  cases hbd : bodyOf a with
  | none =>
    have hall : b.dropWhile (fun o => !isBanner o) = [] :=
      List.dropWhile_eq_nil_iff.mpr fun o ho => by simp [(htx o ho).1]
    rw [bodyOf_append_none hbd,bodyOf,hall]
  | some d =>
    have hno : b.filterMap Out.body = [] := List.filterMap_eq_nil_iff.mpr fun o ho => (htx o ho).2
    rw [bodyOf_append_some hbd,hno,List.append_nil]

lemma bodyOf_ended {out : List Out} (e : End) : bodyOf (out ++ e.texts) = bodyOf out := by
  refine bodyOf_append_texts ?_
  cases e <;> decide

lemma networkHttpGet_body (pieces : List (List UInt8)) (e : End) :
    bodyOf (networkHttpGet pieces e).1 = bodyOf (receive .start e pieces).1.out := by
  refine bodyOf_append_texts ?_
  rw [Reader.summary]
  split_ifs <;> rfl

lemma headerLine_out (h : bodyOf r.out = none) :
    bodyOf (headerLine r).out = none ∧ (headerLine r).headerDone = r.headerDone := by
  unfold headerLine
  dsimp only
  split
  · refine ⟨?_,rfl⟩
    exact (bodyOf_append_texts rfl).trans h
  · split
    · split
      · exact ⟨h,rfl⟩
      · split
        · split <;> exact ⟨h,rfl⟩
        · exact ⟨h,rfl⟩
    · exact ⟨h,rfl⟩

lemma headerByte_out (hdn : r.headerDone = false) (h : bodyOf r.out = none) (c : UInt8) :
    ((headerByte r c).headerDone = false ∧ bodyOf (headerByte r c).out = none) ∨
    ((headerByte r c).headerDone = true ∧ bodyOf (headerByte r c).out = some []) := by
  unfold headerByte
  split
  · split
    · refine .inr ⟨rfl,?_⟩
      simp only [Reader.put]
      rw [bodyOf_append_none h,Reader.banner]
      split <;> simp [bodyOf,isBanner]
    · obtain ⟨hout,hsm⟩ := headerLine_out h
      exact .inl ⟨hsm.trans hdn,hout⟩
  · split <;> exact .inl ⟨hdn,h⟩

lemma feed_body (hp : Plain r) (hdn : r.headerDone = true) (h : bodyOf r.out = some d)
    (cs : List UInt8) : bodyOf (feed r cs).1.out = some (d ++ cs) := by
  induction cs generalizing r d with
  | nil => simpa [feed] using h
  | cons c cs ih =>
    have hby : (readByte r c).1 = r.putChar c := by
      have hrem := hp.remaining
      have hsh : (r.putChar c).bodyRemaining = r.bodyRemaining := rfl
      simp only [readByte,hdn,hp.chunked,Bool.not_true,Bool.false_eq_true,if_false,hsh]
      rw [if_neg (by omega)]
    have hout : bodyOf (r.putChar c).out = some (d ++ [c]) := bodyOf_append_some h
    have hpl := (hp.readByte c).1
    rw [feed_cons hp]
    rw [hby] at hpl ⊢
    rw [ih hpl hdn hout,List.append_assoc]
    rfl

lemma feed_header (hp : Plain r) (hdn : r.headerDone = false) (h : bodyOf r.out = none)
    (cs : List UInt8) : ∀ d, bodyOf (feed r cs).1.out = some d → d.length < cs.length := by
  induction cs generalizing r with
  | nil =>
    intro d hd
    rw [feed,h] at hd
    cases hd
  | cons c cs ih =>
    intro d hd
    have hby : (readByte r c).1 = headerByte r c := by
      simp [readByte,hdn]
    have hpl := (hp.readByte c).1
    rw [feed_cons hp] at hd
    rw [hby] at hpl hd
    rcases headerByte_out hdn h c with ⟨hdn',hout⟩ | ⟨hdn',hout⟩
    · exact Nat.lt_succ_of_lt (ih hpl hdn' hout d hd)
    · rw [feed_body hpl hdn' hout] at hd
      cases hd
      simp

lemma feed_collect (hp : Plain r) (hdn : r.headerDone = false) (hl : lf ∉ l)
    (hlen : r.line.length+l.length ≤ 1023) : (feed r l).1 = { r with line := r.line ++ l } := by
  induction l generalizing r with
  | nil => simp [feed]
  | cons c l ih =>
    have hc : c ≠ lf := fun heq => hl (by rw [heq]; exact .head _)
    have hby : (readByte r c).1 = { r with line := r.line ++ [c] } := by
      simp only [List.length_cons] at hlen
      simp only [readByte,hdn,Bool.not_false,if_true,headerByte,if_neg hc]
      rw [if_neg (by omega)]
    have hpl := (hp.readByte c).1
    rw [feed_cons hp]
    rw [hby] at hpl ⊢
    rw [ih hpl hdn (fun hmem => hl (.tail _ hmem))]
    · simp
    · simp only [List.length_append,List.length_cons,List.length_nil] at hlen ⊢
      omega

/-- The reader between two lines of the header. -/
structure AtLine (r : Reader) : Prop where
  plain : Plain r
  header : r.headerDone = false
  empty : r.line = []
  unprinted : bodyOf r.out = none

/-- No line that ends with CR LF ends the header, not even the empty one: its carriage
return is overwritten before the test for it. -/
theorem endsHeader_crlf (l : List UInt8) : endsHeader (l ++ [cr]) = false := by
  cases l with
  | nil => decide
  | cons c l =>
    have hlen : (c :: l ++ [cr]).length = l.length+2 := by simp
    simp only [endsHeader,hlen]
    simp

lemma AtLine.line (h : AtLine r) (hl : lf ∉ l)
    (hlen : l.length < 1023) : AtLine (feed r (l ++ crlf)).1 := by
  have hmem : lf ∉ l ++ [cr] := by
    simp only [List.mem_append,List.mem_singleton,not_or]
    exact ⟨hl,by decide⟩
  have hcl : (feed r (l ++ [cr])).1 = { r with line := l ++ [cr] } := by
    rw [feed_collect h.plain h.header hmem (by simp [h.empty]; omega),h.empty,List.nil_append]
  have hsp : l ++ crlf = l ++ [cr] ++ [lf] := by simp [crlf]
  have hpl := (h.plain.feed (l ++ [cr])).1
  have hls := (hpl.readByte lf).1
  have hby : (readByte (feed r (l ++ [cr])).1 lf).1 =
      { headerLine { r with line := l ++ [cr] } with line := [] } := by
    rw [hcl]
    simp [readByte,h.header,headerByte,endsHeader_crlf]
  rw [hsp,feed_append h.plain,feed_cons hpl,feed]
  rw [hby] at hls ⊢
  have hun : bodyOf { r with line := l ++ [cr] }.out = none := h.unprinted
  obtain ⟨hout,hsm⟩ := headerLine_out hun
  exact ⟨hls,hsm.trans h.header,rfl,hout⟩

lemma AtLine.lines (h : AtLine r) {ls : List (List UInt8)}
    (hls : ∀ l ∈ ls, lf ∉ l ∧ l.length < 1023) : AtLine (feed r (ls.flatMap (· ++ crlf))).1 := by
  induction ls generalizing r with
  | nil => exact h
  | cons l ls ih =>
    obtain ⟨hl,hlen⟩ := hls l (.head _)
    rw [List.flatMap_cons,feed_append h.plain]
    exact ih (h.line hl hlen) fun l' hl' => hls l' (.tail _ hl')

/-- What is printed of a body that is sent as it is, is shorter than the body. -/
theorem body_not_printed {r : Response} (hr : WellFormed r) {pieces : List (List UInt8)}
    (hcut : Cut r pieces) (e : End) (hraw : r.raw = r.data) :
    bodyOf (networkHttpGet pieces e).1 ≠ some r.data := by
  intro hbd
  have hst : AtLine .start := ⟨.start,rfl,rfl,rfl⟩
  have hln : AtLine (feed .start ((r.statusLine :: r.headers).flatMap (· ++ crlf))).1 :=
    hst.lines fun l hl => ⟨(hr.lines l hl).2.1,(hr.lines l hl).2.2.2⟩
  have hem := hln.line (l:=[]) (by simp) (by decide)
  rw [networkHttpGet_body,receive_eq .start,hcut.whole] at hbd
  simp only [Reader.put,bodyOf_ended,Response.bytes] at hbd
  rw [feed_append .start,feed_append .start] at hbd
  have hsh := feed_header hem.plain hem.header hem.unprinted r.raw r.data hbd
  rw [hraw] at hsh
  exact absurd hsh (Nat.lt_irrefl _)

/-- Whatever the response is and however it is cut, its body is not delivered: the empty
line is not recognised, and neither is a length or a coding. -/
theorem never_delivered (r : Response) (hr : WellFormed r) (pieces : List (List UInt8))
    (hcut : Cut r pieces) (e : End) :
    ¬ Delivered r pieces e ∧
      (r.framing ≠ .chunked → bodyOf (networkHttpGet pieces e).1 ≠ some r.data) := by
  have hsy : (receive .start e pieces).2 = false := by rw [receive_eq .start]
  have hbd := hr.body
  cases hfr : r.framing with
  | length =>
    rw [hfr] at hbd
    have hnot := body_not_printed hr hcut e hbd.2
    exact ⟨fun h => hnot h.1,fun _ => hnot⟩
  | chunked =>
    refine ⟨fun h => ?_,fun hne => (hne rfl).elim⟩
    have hst := h.2 (by rw [hfr]; decide)
    rw [hsy] at hst
    cases hst
  | close =>
    rw [hfr] at hbd
    have hnot := body_not_printed hr hcut e hbd
    exact ⟨fun h => hnot h.1,fun _ => hnot⟩

/-- A response of two bytes. -/
def hello : Response where
  statusLine := ascii "HTTP/1.1 200 OK"
  headers := [ascii "Content-Length: 2",ascii "Connection: close"]
  framing := .length
  raw := ascii "hi"
  data := ascii "hi"

lemma hello_wellFormed : WellFormed hello where
  status := ⟨ascii "200",ascii "OK",by decide +kernel,by decide +kernel,by decide +kernel⟩
  lines := by decide +kernel
  body := ⟨by decide +kernel,rfl⟩

/-- The response as it arrives when `tcp_recv` always fills its room. -/
def helloPieces : List (List UInt8) :=
  (List.range 9).map fun i => (hello.bytes.drop (recvRoom*i)).take recvRoom

lemma helloPieces_cut : Cut hello helloPieces where
  whole := by decide +kernel
  nonempty := by decide +kernel
  short := by decide +kernel

theorem hello_never_delivered : ¬ Delivered hello helloPieces .closed :=
  (never_delivered hello hello_wellFormed helloPieces helloPieces_cut .closed).1

/-- The whole response arrives and the peer closes: no banner is printed. -/
theorem hello_not_delivered :
    WellFormed hello ∧ Cut hello helloPieces ∧
    bodyOf (networkHttpGet helloPieces .closed).1 = none ∧
    ¬ Delivered hello helloPieces .closed := by
  have hno : bodyOf (networkHttpGet helloPieces .closed).1 = none := by decide +kernel
  refine ⟨hello_wellFormed,helloPieces_cut,hno,fun h => ?_⟩
  have hbd := h.1
  rw [hno] at hbd
  cases hbd

section Chunks

variable {r t u : Reader} {n : ℕ}

/-- A chunk with the hexadecimal digits that announce it. -/
structure Chunk where
  size : List UInt8
  data : List UInt8
  nonempty : data ≠ []
  short : data.length < 2^31
  announced : hexNat size = some data.length

def Chunk.bytes (c : Chunk) : List UInt8 := c.size ++ crlf ++ c.data ++ crlf

/-- The chunk size stays in the range of an `int` while the bytes are read. -/
def Fits (r : Reader) : List UInt8 → Prop
  | [] => r.chunkSize < 2^31
  | c :: cs => r.chunkSize < 2^31 ∧ Fits (chunkByte r c) cs

/-- Behind the headers of a chunked body. -/
structure Chunking (r : Reader) : Prop where
  done : r.headerDone = true
  chunked : r.isChunked = true

/-- In front of a size line. -/
structure AtSize (r : Reader) : Prop extends Chunking r where
  state : r.chunkState = .size
  size : r.chunkSize = 0

/-- The bytes lead from one state of the decoder to another. -/
def Reads (r : Reader) (l : List UInt8) (t : Reader) : Prop := Fits r l ∧ l.foldl chunkByte r = t

lemma Reads.append {a b : List UInt8} (ha : Reads r a u) (hb : Reads u b t) :
    Reads r (a ++ b) t := by
  induction a generalizing r with
  | nil =>
    obtain ⟨-,rfl⟩ := ha
    exact hb
  | cons c a ih =>
    obtain ⟨hft,heq⟩ := ih ⟨ha.1.2,ha.2⟩
    exact ⟨⟨ha.1.1,hft⟩,heq⟩

lemma Chunking.byte (h : Chunking r) (c : UInt8) : Chunking (chunkByte r c) := by
  obtain ⟨hdn,hch⟩ := h
  rw [chunkByte]
  split
  · exact ⟨hdn,hch⟩
  · split
    · exact ⟨hdn,hch⟩
    · split_ifs <;> exact ⟨hdn,hch⟩
  · dsimp only
    split_ifs <;> exact ⟨hdn,hch⟩
  · split_ifs <;> exact ⟨hdn,hch⟩

lemma Chunking.feed (h : Chunking r) (l : List UInt8) :
    feed r l = (l.foldl chunkByte r,false) ∧ Chunking (l.foldl chunkByte r) := by
  induction l generalizing r with
  | nil => exact ⟨rfl,h⟩
  | cons c l ih =>
    have hrd : readByte r c = (chunkByte r c,false) := by simp [readByte,h.done,h.chunked]
    rw [Http.feed,hrd]
    exact ih (h.byte c)

lemma Chunking.receive (h : Chunking r) (e : End) (pieces : List (List UInt8)) :
    (receive r e pieces).1 = (pieces.flatten.foldl chunkByte r).put e.texts := by
  induction pieces generalizing r with
  | nil => rfl
  | cons p pieces ih =>
    obtain ⟨hfd,haf⟩ := h.feed p
    rw [Http.receive,hfd,List.flatten_cons,List.foldl_append]
    exact ih haf

lemma reads_digits {s : List UInt8} (hst : r.chunkState = .size)
    (hs : s.foldlM (fun v c => (hexValue c).map (v*16+·)) r.chunkSize = some n) (hn : n < 2^31) :
    r.chunkSize ≤ n ∧ Reads r s { r with chunkSize := n } := by
  induction s generalizing r with
  | nil =>
    obtain rfl : r.chunkSize = n := Option.some.inj hs
    exact ⟨le_rfl,hn,rfl⟩
  | cons c s ih =>
    obtain ⟨v,hv,hrs⟩ := Option.bind_eq_some_iff.mp hs
    obtain ⟨x,hx,rfl⟩ := Option.map_eq_some_iff.mp hv
    have hby : chunkByte r c = { r with chunkSize := r.chunkSize*16+x } := by
      simp [chunkByte,hst,hx]
    obtain ⟨hle,hft,heq⟩ := ih (r := { r with chunkSize := r.chunkSize*16+x }) hst hrs
    simp only at hle
    rw [Reads,Fits,List.foldl_cons,hby]
    exact ⟨by omega,⟨by omega,hft⟩,heq⟩

lemma reads_data {d : List UInt8} (hst : r.chunkState = .data) (hd : d ≠ [])
    (hlf : r.chunkRemaining = d.length) (hsz : r.chunkSize < 2^31) : ∃ k, Reads r d { r with
      bodyLen := k, chunkRemaining := 0, chunkState := .endCrlf, out := r.out ++ d.map .byte } := by
  induction d generalizing r with
  | nil => exact absurd rfl hd
  | cons c d ih =>
    have hlf' : r.chunkRemaining-1 = d.length := by rw [hlf]; rfl
    by_cases hls : d = []
    · subst hls
      simpa [Reads,Fits,chunkByte,hst,hlf',Reader.putChar,Reader.put] using hsz
    · have hby : chunkByte r c = { r.putChar c with chunkRemaining := d.length } := by
        simp [chunkByte,hst,Reader.putChar,Reader.put,hlf',hls]
      obtain ⟨k,hft,heq⟩ := ih (r := { r.putChar c with chunkRemaining := d.length }) hst hls
        rfl hsz
      refine ⟨k,?_⟩
      rw [Reads,Fits,List.foldl_cons,hby,heq]
      exact ⟨⟨hsz,hft⟩,by simp [Reader.putChar,Reader.put]⟩

lemma hexValue_crlf : hexValue cr = none ∧ hexValue lf = none ∧ cr ≠ lf := by decide

lemma AtSize.chunk (h : AtSize r) (c : Chunk) :
    ∃ t, Reads r c.bytes t ∧ AtSize t ∧ t.out = r.out ++ c.data.map .byte := by
  obtain ⟨hcr,hlf,hne⟩ := hexValue_crlf
  obtain ⟨-,hsz⟩ := reads_digits h.state (by rw [h.size]; exact c.announced) c.short
  have hln : Reads { r with chunkSize := c.data.length } crlf { r with
      chunkRemaining := c.data.length, chunkState := .data, chunkSize := 0 } := by
    simp [Reads,Fits,crlf,chunkByte,h.state,hcr,hlf,hne,c.nonempty]
    exact c.short
  obtain ⟨k,hdt⟩ := reads_data (r := { r with
    chunkRemaining := c.data.length, chunkState := .data, chunkSize := 0 }) rfl c.nonempty rfl
    (Nat.two_pow_pos 31)
  refine ⟨_,((hsz.append hln).append hdt).append (t := { r with
    bodyLen := k, chunkRemaining := 0, chunkSize := 0, out := r.out ++ c.data.map .byte }) ?_,
    ?_,rfl⟩
  · simp [Reads,Fits,crlf,chunkByte,hne,h.state]
  · exact ⟨⟨h.done,h.chunked⟩,h.state,rfl⟩

lemma AtSize.chunks (h : AtSize r) (cs : List Chunk) : ∃ t, Reads r (cs.flatMap Chunk.bytes) t ∧
    AtSize t ∧ t.out = r.out ++ (cs.flatMap Chunk.data).map .byte := by
  induction cs generalizing r with
  | nil =>
    refine ⟨r,⟨?_,rfl⟩,h,by simp⟩
    rw [List.flatMap_nil,Fits,h.size]
    decide
  | cons c cs ih =>
    obtain ⟨u,hrd,hat,hout⟩ := h.chunk c
    obtain ⟨t,hrd',hat',hout'⟩ := ih hat
    exact ⟨t,hrd.append hrd',hat',by simp [hout',hout]⟩

lemma reads_done (hst : r.chunkState = .done) (hsz : r.chunkSize < 2^31) (l : List UInt8) :
    Reads r l r := by
  induction l with
  | nil => exact ⟨hsz,rfl⟩
  | cons c l ih =>
    have hby : chunkByte r c = r := by simp [chunkByte,hst]
    rw [Reads,Fits,List.foldl_cons,hby]
    exact ⟨⟨hsz,ih.1⟩,ih.2⟩

/-- The decoder prints the bytes of the chunks and ends in the state `DONE`, whatever the pieces
are in which the stream arrives; the chunk size does not overflow. -/
theorem chunks_round_trip (h : AtSize r) (cs : List Chunk) (zero trailer : List UInt8)
    (hzr : hexNat zero = some 0) {pieces : List (List UInt8)}
    (hcut : pieces.flatten = cs.flatMap Chunk.bytes ++ zero ++ crlf ++ trailer) (e : End) :
    Fits r pieces.flatten ∧ (receive r e pieces).1.chunkState = .done ∧
      (receive r e pieces).1.out = r.out ++ (cs.flatMap Chunk.data).map .byte ++ e.texts := by
  obtain ⟨hcr,hlf,hne⟩ := hexValue_crlf
  obtain ⟨t,hch,hat,hout⟩ := h.chunks cs
  obtain ⟨-,hdg⟩ := reads_digits hat.state (by rw [hat.size]; exact hzr) (by decide)
  have hln : Reads { t with chunkSize := 0 } crlf
      { t with chunkSize := 0, chunkState := .done } := by
    simp [Reads,Fits,crlf,chunkByte,hat.state,hcr,hlf,hne]
  obtain ⟨hft,hrd⟩ := ((hch.append hdg).append hln).append
    (reads_done (r := { t with chunkSize := 0, chunkState := .done }) rfl (Nat.two_pow_pos 31)
      trailer)
  rw [← hcut] at hft hrd
  rw [h.receive,hrd]
  exact ⟨hft,rfl,by rw [← hout]; rfl⟩

/-- The chunk `hi` in two pieces. -/
theorem chunks_round_trip_two :
    let r := { Reader.start with headerDone := true, isChunked := true }
    (receive r .closed [ascii "02\r\nh",ascii "i\r\n0\r\n\r\n"]).1.out =
      (ascii "hi").map .byte := by
  intro r
  exact (chunks_round_trip (r:=r) ⟨⟨rfl,rfl⟩,rfl,rfl⟩
    [⟨ascii "02",ascii "hi",by decide,by decide,by decide⟩] (ascii "0") crlf (by decide)
    (by decide) .closed).2.2

end Chunks

end HarlinKernel.Http
