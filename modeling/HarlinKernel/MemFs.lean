import HarlinKernel.TransitionSystem

/-! The in-memory file system of `fs/mem_fs.c` and the path splitter of `fs/path_walk.c`. Nodes are
numbers into a pool and are linked by first child and next sibling. The members `mode`, `owner` and
`group` of a node, which nothing reads, are left out, and so are the messages. The name that
`resolve_parent_create` hands back is read as the characters of the last segment. -/
namespace HarlinKernel.MemFs

open TransitionSystem
open Function (update)

def pathMaxSegments : ℕ := 8
def pathMaxChars : ℕ := 128

/-- A string argument: the characters in front of the terminator, or a null pointer. -/
abbrev CString := Option (List UInt8)

def slash : UInt8 := 0x2F

structure PathParts where
  isAbsolute : Bool
  seg : List (List UInt8)
  deriving DecidableEq

/-- The loop of `Harlin_PathParse` over the rest of the characters. Each round takes one
character at least, so the number of characters is enough fuel. -/
def parseSegments (segs : List (List UInt8)) : ℕ → List UInt8 → List (List UInt8)
  | 0, _ => segs
  | fuel+1, rest =>
    if rest = [] ∨ pathMaxSegments ≤ segs.length then segs
    else
      let seg := rest.takeWhile (· ≠ slash)
      parseSegments (if seg = [] then segs else segs ++ [seg]) fuel (rest.drop (seg.length+1))

def pathParse (path : CString) : Option PathParts :=
  match path with
  | none => none
  | some chars =>
    if chars = [] ∨ pathMaxChars ≤ chars.length then none
    else
      let isAbsolute := chars.head? = some slash
      let rest := if isAbsolute then chars.tail else chars
      some ⟨isAbsolute,parseSegments [] rest.length rest⟩

def memFsNodes : ℕ := 128
def memFsNameMax : ℕ := 12
def memFsPayload : ℕ := 256

/-- `(u32)-1` -/
def noNode : ℕ := 2^32-1

inductive NodeType
  | unset
  | file
  | dir
  deriving DecidableEq

/-- A node of the pool. The name has `name_len` and the payload `payload_size` bytes. -/
structure Node where
  used : Bool
  type : NodeType
  name : List UInt8
  parent : ℕ
  firstChild : ℕ
  nextSibling : ℕ
  payload : List UInt8

abbrev Nodes := ℕ → Node

def allocNode (m : Nodes) : ℕ × Nodes :=
  match (List.range memFsNodes).find? fun i => !(m i).used with
  | some i => (i,update m i ⟨true,.unset,[],noNode,noNode,noNode,[]⟩)
  | none => (noNode,m)

def freeNode (m : Nodes) (idx : ℕ) : Nodes :=
  if memFsNodes ≤ idx then m
  else update m idx ⟨false,.unset,[],noNode,noNode,noNode,[]⟩

/-- The loop of `find_child`. A chain that does not end within the pool does not end. -/
def findChildFrom (m : Nodes) (name : List UInt8) : ℕ → ℕ → Option ℕ
  | 0, _ => none
  | fuel+1, c =>
    if c = noNode then some noNode
    else if (m c).name = name then some c
    else findChildFrom m name fuel (m c).nextSibling

def findChild (m : Nodes) (parent : ℕ) (name : List UInt8) : Option ℕ :=
  findChildFrom m name (memFsNodes+1) (m parent).firstChild

/-- The loop of `resolve_path` and of `resolve_parent_create`. -/
def resolveSegs (m : Nodes) (cur : ℕ) : List (List UInt8) → Option ℕ
  | [] => some cur
  | seg :: segs =>
    (findChild m cur seg).bind fun n => if n = noNode then some noNode else resolveSegs m n segs

def resolvePath (m : Nodes) (path : CString) : Option ℕ :=
  match pathParse path with
  | none => some noNode
  | some p => resolveSegs m 0 p.seg

def memFsLookupNode (m : Nodes) (path : CString) : Option ℕ := resolvePath m path

/-- The node of the parent and the last segment. -/
def resolveParentCreate (m : Nodes) (path : CString) : Option (ℕ × List UInt8) :=
  match pathParse path with
  | none => some (noNode,[])
  | some p =>
    match p.seg.getLast? with
    | none => some (noNode,[])
    | some name =>
      (resolveSegs m 0 p.seg.dropLast).map fun cur =>
        if cur = noNode ∨ memFsNameMax ≤ name.length then (noNode,[]) else (cur,name)

def memFsInit (m : Nodes) : ℤ × Nodes :=
  let m := (List.range memFsNodes).foldl freeNode m
  let root := allocNode m
  if root.1 ≠ 0 then (-1,root.2)
  else
    (0,update root.2 0 { root.2 0 with
      type := .dir
      name := [slash]
      parent := 0 })

/-- The common body of `Harlin_MemFsMkdir` and `Harlin_MemFsCreate`. -/
def addNode (m : Nodes) (type : NodeType) (path : CString) : Option (ℤ × Nodes) :=
  (resolveParentCreate m path).bind fun r =>
    if r.1 = noNode then some (-1,m)
    else if (m r.1).type ≠ .dir then some (-1,m)
    else
      (findChild m r.1 r.2).map fun c =>
        if c ≠ noNode then (-1,m)
        else
          let n := allocNode m
          if n.1 = noNode then (-1,n.2)
          else
            let m := update n.2 n.1 { n.2 n.1 with
              type := type
              name := r.2
              parent := r.1
              nextSibling := (n.2 r.1).firstChild }
            (0,update m r.1 { m r.1 with firstChild := n.1 })

def memFsMkdir (m : Nodes) (path : CString) : Option (ℤ × Nodes) := addNode m .dir path

def memFsCreate (m : Nodes) (path : CString) : Option (ℤ × Nodes) := addNode m .file path

/-- The loop that looks for the sibling in front of `n`. -/
def findPrevious (m : Nodes) (n : ℕ) : ℕ → ℕ → Option ℕ
  | 0, _ => none
  | fuel+1, c =>
    if c ≠ noNode ∧ (m c).nextSibling ≠ n then findPrevious m n fuel (m c).nextSibling else some c

/-- The common end of `Harlin_MemFsRmdir` and `Harlin_MemFsRemove`. -/
def unlinkNode (m : Nodes) (n : ℕ) : Option Nodes :=
  let parent := (m n).parent
  if (m parent).firstChild = n then
    some (freeNode (update m parent { m parent with firstChild := (m n).nextSibling }) n)
  else
    (findPrevious m n (memFsNodes+1) (m parent).firstChild).map fun c =>
      freeNode (if c ≠ noNode then
        update m c { m c with nextSibling := (m n).nextSibling } else m) n

def memFsRmdir (m : Nodes) (path : CString) : Option (ℤ × Nodes) :=
  (resolvePath m path).bind fun n =>
    if n = noNode ∨ n = 0 then some (-1,m)
    else if (m n).type ≠ .dir then some (-1,m)
    else if (m n).firstChild ≠ noNode then some (-1,m)
    else (unlinkNode m n).map fun m => (0,m)

def memFsRemove (m : Nodes) (path : CString) : Option (ℤ × Nodes) :=
  (resolvePath m path).bind fun n =>
    if n = noNode ∨ n = 0 then some (-1,m) else (unlinkNode m n).map fun m => (0,m)

def memFsWrite (m : Nodes) (path : CString) (data : List UInt8) : Option (ℤ × Nodes) :=
  (resolvePath m path).map fun n =>
    if n = noNode then (-1,m)
    else if (m n).type ≠ .file then (-1,m)
    else
      let bytes := data.take memFsPayload
      (bytes.length,update m n { m n with payload := bytes })

/-- The result and the bytes that are copied to the buffer. -/
def memFsRead (m : Nodes) (path : CString) (size : ℕ) : Option (ℤ × List UInt8) :=
  (resolvePath m path).map fun n =>
    if n = noNode then (-1,[])
    else if (m n).type ≠ .file then (-1,[])
    else (((m n).payload.take size).length,(m n).payload.take size)

structure DirEntry where
  name : List UInt8
  type : NodeType
  node : ℕ
  deriving DecidableEq

/-- The loop of `Harlin_MemFsLs` with room for `max` more entries. -/
def listFrom (m : Nodes) (max : ℕ) : ℕ → ℕ → Option (List DirEntry)
  | 0, _ => none
  | fuel+1, c =>
    if c = noNode ∨ max = 0 then some []
    else
      (listFrom m (max-1) fuel (m c).nextSibling).map fun entries =>
        ⟨(m c).name.take (memFsNameMax-1),(m c).type,c⟩ :: entries

def memFsLs (m : Nodes) (path : CString) (max : ℕ) : Option (ℤ × List DirEntry) :=
  (resolvePath m path).bind fun n =>
    if n = noNode then some (-1,[])
    else if (m n).type ≠ .dir then some (-1,[])
    else (listFrom m max (memFsNodes+1) (m n).firstChild).map fun entries =>
      (entries.length,entries)

inductive Call
  | init
  | mkdir (path : CString)
  | create (path : CString)
  | rmdir (path : CString)
  | remove (path : CString)
  | write (path : CString) (data : List UInt8)
  | read (path : CString) (size : ℕ)
  | ls (path : CString) (max : ℕ)
  | lookupNode (path : CString)

/-- What a call returns and what it stores through its pointers. -/
structure Reply where
  rc : ℤ
  data : List UInt8
  entries : List DirEntry
  deriving DecidableEq

/-- One call. A loop that does not end leads nowhere. -/
def act (m : Nodes) : Call → Option (Reply × Nodes)
  | .init => some (⟨(memFsInit m).1,[],[]⟩,(memFsInit m).2)
  | .mkdir path => (memFsMkdir m path).map fun r => (⟨r.1,[],[]⟩,r.2)
  | .create path => (memFsCreate m path).map fun r => (⟨r.1,[],[]⟩,r.2)
  | .rmdir path => (memFsRmdir m path).map fun r => (⟨r.1,[],[]⟩,r.2)
  | .remove path => (memFsRemove m path).map fun r => (⟨r.1,[],[]⟩,r.2)
  | .write path data => (memFsWrite m path data).map fun r => (⟨r.1,[],[]⟩,r.2)
  | .read path size => (memFsRead m path size).map fun r => (⟨r.1,r.2,[]⟩,m)
  | .ls path max => (memFsLs m path max).map fun r => (⟨r.1,[],r.2⟩,m)
  | .lookupNode path => (memFsLookupNode m path).map fun n => (⟨n,[],[]⟩,m)

/-- Runs from a first `Harlin_MemFsInit` on, over whatever the pool held. -/
def memFsRuns : System Nodes (Call × Reply) := replies (fun m => ∃ m₀, m = (memFsInit m₀).2) act

end HarlinKernel.MemFs
