import TreeStore.DataFile

/-!
# The base operations of the store

The functions of `storageBaseApi.c`: linking string records to their tuple,
moving records, and maintaining the id array.
-/

namespace TreeStore

open ByteFile

inductive CrudStatus
  | success
  | fail
  deriving DecidableEq, Repr

/-- The attribute types, and how many there are. -/
def getTypes : Prog (List Nat × Nat) := do
  fseekSet 0
  let (schema, _) ← readTreeSchema
  return (schema.nodesTemplate.map (·.type), schema.treeMeta.templateSize)

/-- The id of the tuple at `offset`; `none` is `CRUD_FAIL`. -/
def getIdOffset (offset : Nat) : Prog (Option Nat) := do
  let (schema, _) ← readTreeSchema
  fseekSet (toLong offset)
  let (node, _) ← readNode schema.treeMeta.templateSize
  let entry ← index schema.root node.header.allocNode
  return if entry = offset then some node.header.allocNode else none

/-- Make every string head of `node` point back to `offset`. -/
def linkSton (node : KeyNode) (offset : Nat) : Prog CrudStatus := do
  let (types, size) ← getTypes
  (List.range size).forM fun i => do
    if types[i]? = some STRING then
      fseekSet (toLong (node.word i))
      let (str, _) ← readNode size
      fseekSet (toLong (node.word i))
      let _ ← writeNode
        { str with header := { str.header with parentNode := offset } } size
  return .success

/-- The field of `parent` that the relocation loop of `swapNode` redirects: the
first STRING field holding `src`. -/
def redirectField (parent : KeyNode) (types : List Nat) (size dest src : Nat) :
    KeyNode :=
  match (List.range size).find? fun iter =>
      types[iter]? = some STRING ∧ parent.word iter = src with
  | some iter => parent.setWord iter dest
  | none => parent

/-- The branch of `swapNode` for a string record: its neighbours, or the tuple
it heads a string of, learn its new offset. -/
def swapString (types : List Nat) (size dest src : Nat) : Prog Unit := do
  fseekSet (toLong src)
  let (node, _) ← readNode size
  let header ← malloc nodeHeadSize
  let header ←
    if node.header.nextNode ≠ 0 then do
      fseekSet (toLong node.header.nextNode)
      let (header, _) ← readFile header nodeHeadSize
      let header := writeAt header 0 (leBytes 8 dest)
      fseekSet (toLong node.header.nextNode)
      let _ ← writeFile header nodeHeadSize
      pure header
    else pure header
  fseekSet (toLong node.header.prevNode)
  let (header, _) ← readFile header nodeHeadSize
  if (NodeHeader.ofBytes header).nextNode = src then
    fseekSet (toLong node.header.prevNode)
    let _ ← writeFile (writeAt header 8 (leBytes 8 dest)) nodeHeadSize
  else
    fseekSet (toLong node.header.prevNode)
    let (parent, _) ← readNode size
    fseekSet (toLong node.header.prevNode)
    let _ ← writeNode (redirectField parent types size dest src)
      (getRealNodeSize size)

/-- The branch of `swapNode` for the tuple of `id`. -/
def swapTuple (schema : TreeSchema) (size dest src id : Nat) : Prog Unit := do
  fseekSet (toLong src)
  let (node, _) ← readNode size
  let _ ← linkSton node dest
  let _ ← writeTreeSchema { schema with root := schema.root.set id dest }

def swapNode (dest src nodeSize : Nat) : Prog CrudStatus := do
  let (types, size) ← getTypes
  if src ≠ dest then
    fseekSet (toLong src)
    let (buffer, _) ← readFile (← malloc nodeSize) nodeSize
    fseekSet (toLong dest)
    let _ ← writeFile buffer nodeSize
    fseekSet 0
    let (schema, _) ← readTreeSchema
    match ← getIdOffset src with
    | none => swapString types size dest src
    | some id => swapTuple schema size dest src id
  return .success

/-- The seek to a negative offset from `SEEK_SET` is refused, so `src` is where
`getTypes` left the stream: the end of the id array. -/
def swapLastNode (dest nodeSize : Nat) : Prog CrudStatus := do
  let (_, size) ← getTypes
  fseekSet (-((getRealNodeSize size + nodeHeadSize : Nat) : Int))
  let src ← ftell
  let stat ← swapNode dest src nodeSize
  ftruncate src
  return stat

/-- Append a record; the result is its offset. -/
def insertNode (node : KeyNode) (fullNodeSize : Nat) :
    Prog (CrudStatus × Nat) := do
  fseekEnd
  let nodePos ← ftell
  ftruncate (nodePos + fullNodeSize)
  let ret ← writeNode node (fullNodeSize - nodeHeadSize)
  return (if ret = .success then .success else .fail, nodePos)

/-- The number of records that a string of `length` characters takes. -/
def recordCount (length nodeSize : Nat) : Nat :=
  length / nodeSize + if length % nodeSize ≠ 0 then 1 else 0

/-- The header that `insertNodeStr` gives to record `i` of a string, from the
position `pos` at which the stream stood. -/
def strHeader (pos nodeSize count i : Nat) : NodeHeader where
  parentNode := if i = 0 then 0 else pos + (nodeSize + nodeHeadSize) * (i - 1)
  allocNode :=
    if count - 1 = i then 0 else pos + (nodeSize + nodeHeadSize) * (i + 1)

/-- Append a string, record by record; the result is the offset of the first. -/
def insertNodeStr (string : CharPtr) (nodeSize : Nat) : Prog Nat := do
  let length ← strlen string
  let count := recordCount length nodeSize
  let pos ← ftell
  fseekEnd
  let strPos ← ftell
  (List.range count).forM fun i => do
    let _ ← insertNode
      { header := strHeader pos nodeSize count i
        data := string.drop (nodeSize * i) } (nodeSize + nodeHeadSize)
  return strPos

/-- `root[position] = entry`, where `position` may be the first one past the
block: that store is taken to land in memory that nothing else uses. -/
def storeEntry (root : List Nat) (position entry : Nat) : List Nat :=
  root.take position ++ entry :: root.drop (position + 1)

def appendToIdArray (offset : Nat) : Prog Nat := do
  let (schema, _) ← readTreeSchema
  let src ← ftell
  let templateSize := schema.treeMeta.templateSize
  let realNodeSize := getIdArraySize templateSize schema.treeMeta.curId
  let schema ←
    if (schema.treeMeta.curId + 1) % realNodeSize = 0 then do
      fseekEnd
      let curEnd ← ftell
      ftruncate (curEnd + getRealNodeSize templateSize + nodeHeadSize)
      let _ ← swapNode curEnd src (getRealNodeSize templateSize)
      let (schema, _) ← readTreeSchema
      pure schema
    else pure schema
  let curId := schema.treeMeta.curId
  fseekSet 0
  let _ ← writeTreeSchema
    { schema with
      root := storeEntry schema.root curId offset
      treeMeta := { schema.treeMeta with curId := curId + 1 } }
  return curId

/-- Zero an id entry; the result is the offset it held, `none` is `CRUD_FAIL`. -/
def removeFromIdArray (id : Nat) : Prog (Option Nat) := do
  fseekSet 0
  let (schema, _) ← readTreeSchema
  let offset ← index schema.root id
  if offset = 0 then return none
  else
    let curId := schema.treeMeta.curId
    let _ ← writeTreeSchema
      { schema with
        root := schema.root.set id 0
        treeMeta := { schema.treeMeta with
          curId := if curId = id + 1 then curId - 1 else curId } }
    return some offset

/-- Look an id up; on failure the caller's variable keeps what it held. -/
def convItoO (id offset : Nat) : Prog (CrudStatus × Nat) := do
  fseekSet 0
  let (schema, _) ← readTreeSchema
  let entry ← index schema.root id
  return if entry = 0 then (.fail, offset) else (.success, entry)

/-- What the loop of `changeStrNode` leaves in its variables. -/
structure ChangeState where
  header : NodeHeader
  data : CharPtr
  offset : Nat
  newStr : CharPtr
  lenght : Nat

/-- The `do`-`while` loop of `changeStrNode`: overwrite the records of the chain
one after the other.  The remaining length is a `uint64_t` and wraps. -/
def changeStrLoop (size : Nat) : Nat → Nat → CharPtr → Nat → Prog ChangeState
  | 0, _, _, _ => throw .outOfFuel
  | fuel + 1, offset, newStr, lenght => do
      fseekSet (toLong offset)
      let (curNode, _) ← readNode size
      fseekSet (toLong offset)
      let _ ← writeNode { curNode with data := newStr } size
      let rest := (lenght + 2 ^ 64 - size) % 2 ^ 64
      if curNode.header.nextNode ≠ 0 ∧ rest > 0 then
        changeStrLoop size fuel curNode.header.nextNode (newStr.drop size) rest
      else
        return {
          header := curNode.header
          data := newStr
          offset := offset
          newStr := newStr.drop size
          lenght := rest }

def changeStrNode (fuel offset : Nat) (newStr : CharPtr) (size : Nat) :
    Prog CrudStatus := do
  let lenght ← strlen newStr
  let final ← changeStrLoop size fuel offset newStr lenght
  if final.lenght > 0 then
    let fpos ← insertNodeStr final.newStr size
    fseekSet (toLong final.offset)
    let _ ← writeNode
      { header := { final.header with allocNode := fpos }
        data := final.data } size
  return .success

end TreeStore
