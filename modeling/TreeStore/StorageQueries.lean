import TreeStore.StoragePublic

/-!
# The searching operations of the store

`storageFindNodeByFilters` serves the messages of the server.  In the source
three of its calls lack an argument or have one too many; they are taken as
what the rest of the function needs: `readTreeSchema(schema, fp)`, the key of
`filt[0].compList[0]`, and `readStringFromNode` for the string of a field.
-/

namespace TreeStore

open ByteFile

/-- `Query_Comparator`. -/
structure Comparator where
  operation : Int32
  kv : KeyValuePair
  deriving DecidableEq, Repr

/-- `Query_Filter`, the comparators of which one has to be satisfied.  A message
has room for 20 of them. -/
structure Filter where
  compList : List Comparator
  count_le : compList.length ≤ 20
  deriving DecidableEq, Repr

/-- An entry of the result set of a query; the value is a null pointer where
nothing was found. -/
structure FoundNode where
  value : Option KeyNode
  id : Nat
  deriving DecidableEq, Repr

/-- The last attribute with this name. -/
def lastAttr (field : CharPtr) (template : List NodeAttributeInfo) :
    Option Nat :=
  template.zipIdx.foldl (fun fieldNum (info, j) =>
    if SameText info.attributeName field then some j else fieldNum) none

/-- The `switch` over the operations of a field that is not a string: whether
`valid` keeps its value.  The stored word is a `uint64_t`, so `valueInt` is
converted to that type. -/
def wordPasses (operation : Int32) (word : UInt64) (valueInt : Int64) : Bool :=
  let value := valueInt.toUInt64
  if operation = 0 then ¬ word ≠ value
  else if operation = 1 then ¬ word ≥ value
  else if operation = 2 then ¬ word > value
  else if operation = 3 then ¬ word ≤ value
  else if operation = 4 then ¬ word < value
  else if operation = 5 then ¬ word = value
  else true

/-- The `switch` over the operations of a string. -/
def stringPasses (operation : Int32) (s valueString : CharPtr) : Prog Bool := do
  if operation = 0 then return ← strcmpZero s valueString
  else if operation = 5 then return !(← strcmpZero s valueString)
  else return true

/-- The test of one comparator: whether it leaves `valid` as it is. -/
def comparatorPasses (fuel size : Nat) (curNode : KeyNode)
    (fieldNum type : Nat) (comparator : Comparator) : Prog Bool := do
  if type = STRING then
    let s ← readStringFromNode fuel size (curNode.word fieldNum)
    stringPasses comparator.operation s comparator.kv.valueString
  else
    return wordPasses comparator.operation (.ofNat (curNode.word fieldNum))
      comparator.kv.valueInt

/-- The loop over the comparators of a filter; `none` is the return with
code 3. -/
def comparatorLoop (fuel : Nat) (types : List Nat) (size : Nat)
    (template : List NodeAttributeInfo) (curNode : KeyNode) :
    List Comparator → UInt8 → Prog (Option UInt8)
  | [], valid => return some valid
  | comparator :: compList, valid =>
      match lastAttr comparator.kv.key template with
      | none => return none
      | some fieldNum => do
          let type ← index types fieldNum
          let passes ←
            comparatorPasses fuel size curNode fieldNum type comparator
          comparatorLoop fuel types size template curNode compList
            (if passes then valid else valid - 1)

/-- The loop over the filters: whether the node is appended to the result;
`none` is the return with code 3. -/
def filterLoop (fuel : Nat) (types : List Nat) (size : Nat)
    (template : List NodeAttributeInfo) (curNode : KeyNode) :
    List Filter → Prog (Option Bool)
  | [] => return some false
  | filter :: rest => do
      match ← comparatorLoop fuel types size template curNode filter.compList
          (.ofNat filter.compList.length) with
      | none => return none
      | some valid =>
          if rest = [] ∧ valid ≠ 0 then return some true
          else if valid = 0 then return some false
          else filterLoop fuel types size template curNode rest

/-- The scan of `storageFindNodeByFilters`, over as many entries as there are
attributes. -/
def filterScan (fuel : Nat) (types : List Nat) (size : Nat)
    (template : List NodeAttributeInfo) (filt : List Filter)
    (schema : TreeSchema) : List Nat → List FoundNode →
      Prog (Nat × List FoundNode)
  | [], result => return (0, result)
  | i :: rest, result => do
      let offset ← index schema.root i
      if offset = 0 then
        filterScan fuel types size template filt schema rest result
      else
        fseekSet (toLong offset)
        let (curNode, _) ← readNode size
        match ← filterLoop fuel types size template curNode filt with
        | none => return (3, result)
        | some appended =>
            filterScan fuel types size template filt schema rest
              (if appended then ⟨some curNode, i⟩ :: result else result)

/-- The keys that have a meaning of their own. -/
def parentText : CharPtr := [112, 97, 114, 101, 110, 116]
def idText : CharPtr := [105, 100]

/-- The branch for an id.  A node that is found is copied through the pointer
of a block that nothing was stored in.  Otherwise a null pointer is appended,
and the pointer `fields` is freed, which nothing was stored in either. -/
def findById (fuel id : Nat) : Prog (List FoundNode) := do
  match ← getNode fuel id with
  | some _ => throw .outOfBounds
  | none =>
      let fields ← unsetWord
      if fields = 0 then return [⟨none, id⟩]
      else throw .outOfBounds

/-- `storageFindNodeByFilters`: its code and the result set. -/
def storageFindNodeByFilters (fuel : Nat) (filt : List Filter)
    (template : List NodeAttributeInfo) : Prog (Nat × List FoundNode) := do
  let (types, size) ← getTypes
  let (schema, _) ← readTreeSchema
  match filt with
  | [⟨[comparator], _⟩] =>
      if SameText comparator.kv.key parentText then
        let found ← findByParent comparator.kv.valueInt.toUInt64.toNat
        return (0, found.map fun entry => ⟨some entry.value, entry.id⟩)
      else if SameText comparator.kv.key idText then
        return (0, ← findById fuel comparator.kv.valueInt.toUInt64.toNat)
      else
        filterScan fuel types size template filt schema
          (List.range schema.treeMeta.templateSize) []
  | _ =>
      filterScan fuel types size template filt schema
        (List.range schema.treeMeta.templateSize) []

end TreeStore
