import TreeStore.OSFile

/-!
# Schema and records on disk

The data types of `schema.h` and `node.h`, the empty schema of
`initializer.c`, and the readers and writers of `dataFile.c`.
-/

namespace TreeStore

open ByteFile

/-- `MIN_NODE_SIZE`. -/
abbrev minNodeSize : Nat := 256
/-- `SINGLE_NODE_SIZE`. -/
abbrev singleNodeSize : Nat := 8
/-- `OFFSET`. -/
abbrev offsetSize : Nat := 8
/-- `MIN_ID_ARRAY_SIZE`. -/
abbrev minIdArraySize : Nat := 1
/-- `FILE_GRANULARITY`. -/
abbrev fileGranularity : Nat := 4
/-- `NODE_HEAD_SIZE`, the size of `union nodeHeader`. -/
abbrev nodeHeadSize : Nat := 16
/-- `META_SIZE`, the size of `struct treeMeta`. -/
abbrev metaSize : Nat := 48
/-- `ATTR_HEAD_SIZE`, the size of `struct attributeHeader`. -/
abbrev attrHeadSize : Nat := 8

/-- Attribute types of `schema.h`. -/
abbrev INT : Nat := 0
abbrev FLOAT : Nat := 1
abbrev STRING : Nat := 2
abbrev BOOL : Nat := 3

structure TreeMeta where
  ASCIISign : Nat
  rootOffset : Nat
  firstSeq : Nat
  secondSeq : Nat
  curId : Nat
  templateSize : Nat
  deriving DecidableEq, Repr

/-- An attribute header together with the name that follows it. -/
structure NodeAttributeInfo where
  size : Nat
  type : Nat
  attributeName : List UInt8
  deriving DecidableEq, Repr

structure TreeSchema where
  nodesTemplate : List NodeAttributeInfo
  treeMeta : TreeMeta
  root : List Nat
  deriving DecidableEq, Repr

/-- `union nodeHeader`.  The two words are parent and id in a tuple, previous
and next offset in a string record. -/
structure NodeHeader where
  parentNode : Nat
  allocNode : Nat
  deriving DecidableEq, Repr

abbrev NodeHeader.prevNode (header : NodeHeader) : Nat := header.parentNode
abbrev NodeHeader.nextNode (header : NodeHeader) : Nat := header.allocNode

structure KeyNode where
  header : NodeHeader
  data : List UInt8
  deriving DecidableEq, Repr

def TreeMeta.bytes (treeMeta : TreeMeta) : List UInt8 :=
  wordsBytes [treeMeta.ASCIISign, treeMeta.rootOffset, treeMeta.firstSeq,
    treeMeta.secondSeq, treeMeta.curId, treeMeta.templateSize]

def TreeMeta.ofBytes (bytes : List UInt8) : TreeMeta where
  ASCIISign := leValue (readAt bytes 0 8)
  rootOffset := leValue (readAt bytes 8 8)
  firstSeq := leValue (readAt bytes 16 8)
  secondSeq := leValue (readAt bytes 24 8)
  curId := leValue (readAt bytes 32 8)
  templateSize := leValue (readAt bytes 40 8)

def NodeHeader.bytes (header : NodeHeader) : List UInt8 :=
  wordsBytes [header.parentNode, header.allocNode]

def NodeHeader.ofBytes (bytes : List UInt8) : NodeHeader where
  parentNode := leValue (readAt bytes 0 8)
  allocNode := leValue (readAt bytes 8 8)

/-- `node->data[index]`. -/
def KeyNode.word (node : KeyNode) (index : Nat) : Nat :=
  leValue (readAt node.data (8 * index) 8)

/-- `node->data[index] = word`. -/
def KeyNode.setWord (node : KeyNode) (index word : Nat) : KeyNode :=
  { node with data := writeAt node.data (8 * index) (leBytes 8 word) }

def getRealNodeSize (size : Nat) : Nat :=
  if size * singleNodeSize < minNodeSize then minNodeSize
  else size * singleNodeSize

def getIdArraySize (attrSize curId : Nat) : Nat :=
  let realNodeSize := getRealNodeSize attrSize + nodeHeadSize
  let curId := if curId = 0 then curId + 1 else curId
  let whole := curId * offsetSize / realNodeSize
  let frac := if curId * offsetSize % realNodeSize ≠ 0 then 1 else 0
  max ((frac + whole) * realNodeSize / offsetSize)
    (minIdArraySize * realNodeSize / offsetSize)

/-- Size of the block that `readAttribute` allocates for a name. -/
def attributeNameAlloc (size : Nat) : Nat :=
  size / fileGranularity +
    if size % fileGranularity ≠ 0 then fileGranularity else 0

/-- The name is the first `size` bytes of its block.  The block may be shorter;
what is read past its end is taken to land in memory that nothing else uses. -/
def readAttribute : Prog (NodeAttributeInfo × ReadStatus) := do
  let (header, ret) ← readFile (← malloc attrHeadSize) attrHeadSize
  let size := leValue (readAt header 0 4)
  let type := leValue (readAt header 4 4)
  let (attributeName, status) ←
    readFile (← malloc (attributeNameAlloc size)) size
  return ({ size, type, attributeName := attributeName.take size },
    ret.or status)

def readTreeMeta : Prog (TreeMeta × ReadStatus) := do
  let (buffer, ret) ← readFile (← malloc metaSize) metaSize
  return (TreeMeta.ofBytes buffer, ret)

/-- The attribute loop of `readTreeSchema`. -/
def readAttributes : Nat → ReadStatus →
    Prog (List NodeAttributeInfo × ReadStatus)
  | 0, ret => return ([], ret)
  | iter + 1, ret => do
      let (info, status) ← readAttribute
      let (rest, ret) ← readAttributes iter (ret.or status)
      return (info :: rest, ret)

def readTreeSchema : Prog (TreeSchema × ReadStatus) := do
  fseekSet 0
  let (treeMeta, ret) ← readTreeMeta
  let (nodesTemplate, ret) ← readAttributes treeMeta.templateSize ret
  let realIdArraySize := getIdArraySize treeMeta.templateSize treeMeta.curId
  let (idArray, status) ←
    readFile (← malloc (realIdArraySize * 8)) (realIdArraySize * 8)
  return ({ nodesTemplate, treeMeta, root := leWords realIdArraySize idArray },
    ret.or status)

/-- `readNode`; both node types allocate and read alike, and the rounded size
is rounded once more. -/
def readNode (size : Nat) : Prog (KeyNode × ReadStatus) := do
  let (header, ret) ← readFile (← malloc nodeHeadSize) nodeHeadSize
  let realSize := getRealNodeSize size
  let (data, status) ←
    readFile (← malloc (getRealNodeSize realSize)) (getRealNodeSize realSize)
  return ({ header := NodeHeader.ofBytes header, data }, ret.or status)

/-- The loop of `getStringLenght`; the header block is reused by every read. -/
def stringLenghtLoop : Nat → List UInt8 → Nat → Prog Nat
  | 0, _, _ => throw .outOfFuel
  | fuel + 1, header, lenght =>
      if (NodeHeader.ofBytes header).nextNode = 0 then return lenght
      else do
        fseekSet (toLong (NodeHeader.ofBytes header).nextNode)
        let (header, _) ← readFile header nodeHeadSize
        stringLenghtLoop fuel header (lenght + 1)

def getStringLenght (fuel offset : Nat) : Prog Nat := do
  fseekSet (toLong offset)
  let (header, _) ← readFile (← malloc nodeHeadSize) nodeHeadSize
  stringLenghtLoop fuel header 1

/-- The result block is filled from the left, one record per iteration. -/
def readStringFromNode (fuel size offset : Nat) : Prog (List UInt8) := do
  let strLen ← getStringLenght fuel offset
  let realNodeSize := getRealNodeSize size
  let (_, string) ← (List.range strLen).foldlM (fun (offset, string) _ => do
    fseekSet (toLong offset)
    let (tmpNode, _) ← readNode size
    return (tmpNode.header.nextNode,
      string ++ strncpy tmpNode.data realNodeSize)) (offset, [])
  return string

def writeTreeMeta (treeMeta : TreeMeta) : Prog WriteStatus :=
  writeFile treeMeta.bytes metaSize

def writeAttributesTemplate : List NodeAttributeInfo → WriteStatus →
    Prog WriteStatus
  | [], ret => return ret
  | info :: template, ret => do
      let status ←
        writeFile (leBytes 4 info.size ++ leBytes 4 info.type) attrHeadSize
      let nameStatus ← writeFile info.attributeName info.size
      writeAttributesTemplate template ((ret.or status).or nameStatus)

/-- `writeRoot`; past the entries in memory it writes what lies behind them. -/
def writeRoot (seq : List Nat) (size : Nat) : Prog WriteStatus :=
  writeFile (wordsBytes seq) size

def writeTreeSchema (schema : TreeSchema) : Prog WriteStatus := do
  fseekSet 0
  let ret ← writeTreeMeta schema.treeMeta
  fseekSet metaSize
  let ret ← writeAttributesTemplate schema.nodesTemplate ret
  let realSize :=
    getIdArraySize schema.treeMeta.templateSize schema.treeMeta.curId
  let status ← writeRoot schema.root (realSize * 8)
  return ret.or status

def writeNode (node : KeyNode) (size : Nat) : Prog WriteStatus := do
  let ret ← writeFile node.header.bytes nodeHeadSize
  let status ← writeFile node.data size
  return ret.or status

/-- One attribute as `initEmptyFile` receives it. -/
structure AttributeSpec where
  name : CharPtr
  type : Nat
  attrSize : Nat
  type_lt : type < 2 ^ 32

/-- The attribute has a name, whose rounded size fits the 32 bits of its
header. -/
structure AttributeSpec.Fits (spec : AttributeSpec) : Prop where
  attrSize_pos : 0 < spec.attrSize
  attrSize_lt : spec.attrSize + fileGranularity ≤ 2 ^ 32

def createEmptyTreeMeta (size : Nat) : TreeMeta where
  ASCIISign := 0xFFFE
  rootOffset := 0
  firstSeq := 0
  secondSeq := 0
  curId := 0
  templateSize := size

/-- `copyStr`: the destination after copying, behind `src` lies other memory. -/
def copyStr (src : CharPtr) (dest : List UInt8) (srcSize destSize : Nat) :
    Prog (List UInt8) := do
  let count := min srcSize destSize
  let behind ← malloc (count - src.length)
  return (src ++ behind).take count ++ dest.drop count

/-- The attribute size rounded up to the file granularity. -/
def realAttrSize (attrSize : Nat) : Nat :=
  attrSize / fileGranularity * fileGranularity +
    if attrSize % fileGranularity ≠ 0 then fileGranularity else 0

def createEmptyAttrTemplate : List AttributeSpec →
    Prog (List NodeAttributeInfo)
  | [] => return []
  | spec :: specs => do
      let realSize := realAttrSize spec.attrSize
      let appendedString ← malloc realSize
      let attributeName ←
        copyStr spec.name appendedString spec.attrSize realSize
      let rest ← createEmptyAttrTemplate specs
      return { size := realSize % 2 ^ 32, type := spec.type, attributeName } ::
        rest

def createEmptyTreeSchema (specs : List AttributeSpec) : Prog TreeSchema := do
  let treeMeta := createEmptyTreeMeta specs.length
  let nodesTemplate ← createEmptyAttrTemplate specs
  let arrSize := getIdArraySize treeMeta.templateSize treeMeta.curId
  return { nodesTemplate, treeMeta, root := List.replicate arrSize 0 }

def initEmptyFile (specs : List AttributeSpec) : Prog WriteStatus := do
  fseekSet 0
  let schema ← createEmptyTreeSchema specs
  writeTreeSchema schema

end TreeStore
