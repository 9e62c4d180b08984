import TreeStore.StorageBase

/-!
# Node operations of the store

The functions of `storageFileInner.c`.  A loop or recursion of the source whose
end the source does not bound takes a `fuel` argument.
-/

namespace TreeStore

open ByteFile

/-- A 64-bit slot as the callers of the store fill it: the word, and the memory
behind it when the word is used as a pointer. -/
structure Slot where
  word : UInt64
  deref : CharPtr
  deriving DecidableEq, Repr

/-- A field as `getNode` delivers it: a word, or the block holding a string. -/
inductive FieldValue
  | word (value : Nat)
  | text (block : List UInt8)
  deriving DecidableEq, Repr

/-- An entry of a result set. -/
structure ResultSetNode where
  value : KeyNode
  id : Nat
  deriving DecidableEq, Repr

/-- The field loop of `addNode`: strings are appended to the file, and their
offset is the field's word. -/
def addFields (types : List Nat) (size : Nat) (values : List Slot)
    (newNode : KeyNode) : Prog KeyNode :=
  (List.range size).foldlM (fun newNode i => do
    let value ← index values i
    if types[i]? = some STRING then
      let link ← insertNodeStr value.deref (getRealNodeSize size)
      return newNode.setWord i link
    else
      return newNode.setWord i value.word.toNat) newNode

def addNode (values : List Slot) (parent : UInt64) : Prog CrudStatus := do
  let (types, size) ← getTypes
  let (schema, _) ← readTreeSchema
  let data ← malloc (getRealNodeSize size)
  let newNode ← addFields types size values
    { header := ⟨parent.toNat, schema.treeMeta.curId⟩, data }
  let fullTupleSize := nodeHeadSize + getRealNodeSize size
  let (status, link) ← insertNode newNode fullTupleSize
  let _ ← linkSton newNode link
  let _ ← appendToIdArray link
  return status

/-- The fields of a node; `none` is `CRUD_FAIL`. -/
def getNode (fuel id : Nat) : Prog (Option (List FieldValue)) := do
  let (status, offset) ← convItoO id (← unsetWord)
  if status = .fail then return none
  else
    let (types, size) ← getTypes
    fseekSet (toLong offset)
    let (node, _) ← readNode size
    let values ← (List.range size).foldlM (fun values i => do
      if types[i]? = some STRING then
        let s ← readStringFromNode fuel size (node.word i)
        return values ++ [FieldValue.text s]
      else
        return values ++ [FieldValue.word (node.word i)]) []
    return some values

/-- The newest entry comes first. -/
def appendToResultSet (value : KeyNode) (id : Nat)
    (resultSet : List ResultSetNode) : List ResultSetNode :=
  { value, id } :: resultSet

def findByParent (parent : Nat) : Prog (List ResultSetNode) := do
  let (schema, _) ← readTreeSchema
  (List.range schema.treeMeta.curId).foldlM (fun resultSet i => do
    let offset ← index schema.root i
    if offset = 0 then return resultSet
    else
      fseekSet (toLong offset)
      let (curNode, _) ← readNode schema.treeMeta.templateSize
      if curNode.header.parentNode = parent then
        return appendToResultSet curNode i resultSet
      else return resultSet) []

/-- `findByField`; `condition` points to a word, or to the characters of a
string. -/
def findByField (fuel fieldNumber : Nat) (condition : CharPtr) :
    Prog (List ResultSetNode) := do
  let (types, size) ← getTypes
  let type ← index types fieldNumber
  let (schema, _) ← readTreeSchema
  (List.range schema.treeMeta.curId).foldlM (fun resultSet i => do
    let offset ← index schema.root i
    if offset = 0 then return resultSet
    else
      fseekSet (toLong offset)
      let (curTuple, _) ← readNode size
      if type = STRING then
        let s ← readStringFromNode fuel size (curTuple.word fieldNumber)
        if ← strcmpZero s condition then
          return appendToResultSet curTuple i resultSet
        else return resultSet
      else
        let behind ← malloc (8 - condition.length)
        if curTuple.word fieldNumber =
            leValue ((condition ++ behind).take 8) then
          return appendToResultSet curTuple i resultSet
        else return resultSet) []

/-- The loop of `removeNode` over the records of a string. -/
def removeString (size : Nat) : Nat → Nat → Prog Unit
  | 0, _ => throw .outOfFuel
  | fuel + 1, id =>
      if id = 0 then return ()
      else do
        fseekSet (toLong id)
        let (strNode, _) ← readNode size
        let _ ← swapLastNode id (getRealNodeSize size + nodeHeadSize)
        removeString size fuel strNode.header.nextNode

/-- `removeNode`; with `strFlag` the id is the offset of a string record. -/
def removeNode : Nat → Nat → Bool → Prog CrudStatus
  | 0, _, _ => throw .outOfFuel
  | fuel + 1, id, strFlag => do
      let (types, size) ← getTypes
      if strFlag then
        removeString size fuel id
        return .success
      else
        match ← removeFromIdArray id with
        | none => return .fail
        | some offset =>
            (List.range size).forM fun fieldNum => do
              if types[fieldNum]? = some STRING then
                fseekSet (toLong offset)
                let (node, _) ← readNode size
                let _ ← removeNode fuel (node.word fieldNum) true
            let _ ← swapLastNode offset (getRealNodeSize size)
            let children ← findByParent id
            children.forM fun child => do
              let _ ← removeNode fuel child.id false
            return .success

/-- `updateNode`; `newValue` points to the new word, or for a STRING field to
the characters of the new string. -/
def updateNode (fuel fieldNumber : Nat) (newValue : CharPtr) (id : Nat) :
    Prog CrudStatus := do
  let (types, size) ← getTypes
  let type ← index types fieldNumber
  let (_, offset) ← convItoO id (← unsetWord)
  fseekSet (toLong offset)
  let (curNode, _) ← readNode size
  if type = STRING then
    let _ ← changeStrNode fuel (curNode.word fieldNumber) newValue
      (getRealNodeSize size)
  else
    let behind ← malloc (8 - newValue.length)
    fseekSet (toLong offset)
    let _ ← writeNode
      (curNode.setWord fieldNumber (leValue ((newValue ++ behind).take 8)))
      (getRealNodeSize size)
  return .success

end TreeStore
