import TreeStore.StorageQueries

/-!
# The commands of the console

`storageRetriveNode` and `storageInsertNode` of `storageFilePublic.c`, which
take the words of a command.  What a command prints is its result here.
-/

namespace TreeStore

open ByteFile

/-- An argument of `printf`. -/
inductive Printed
  | number (word : Nat)
  | double (bits : Nat)
  | text (characters : List UInt8)
  deriving DecidableEq, Repr

/-- A call of `printf`. -/
structure Line where
  format : String
  args : List Printed
  deriving DecidableEq, Repr

/-- What a command does that has no meaning, after which it is not followed. -/
inductive Misuse
  /-- The schema is used after it was freed. -/
  | freedSchema
  /-- A field that is no string is used as a pointer to one. -/
  | wordAsString
  deriving DecidableEq, Repr

/-- What a command prints, and the misuse that it ends in, if there is one. -/
structure Output where
  lines : List Line
  misuse : Option Misuse
  deriving DecidableEq, Repr

/-- The `switch` over the type of a searched field: the condition, or the
message that the value is refused with.  A boolean condition is one byte. -/
def fieldCondition (strtod : CharPtr → UInt64) (value : CharPtr) (type : Nat) :
    Except Line CharPtr :=
  if type = INT then
    if isNumeric value then .ok (leBytes 8 (atoiDigits value))
    else .error ⟨"Value cannot be interpreted as integer: %s\n",
      [.text (textOf value)]⟩
  else if type = FLOAT then
    if strtod value = 0 ∨ strtod value = 2 ^ 63 then
      .error ⟨"Value cannot be interpreted as float: %s\n",
        [.text (textOf value)]⟩
    else .ok (leBytes 8 (strtod value).toNat)
  else if type = STRING then .ok value
  else if type = BOOL then
    if SameText value trueText then .ok [1]
    else if SameText value falseText then .ok [0]
    else .error ⟨"Value cannot be interpreted as bool: %s\n",
      [.text (textOf value)]⟩
  else .error ⟨"Unknown type: %s\n", [.text (textOf value)]⟩

/-- The loop over the fields of a node.  A FLOAT is printed, and then again by
the default case, which takes every field for a pointer. -/
def printFields : List NodeAttributeInfo → List FieldValue → Prog Output
  | [], _ => return ⟨[], none⟩
  | _ :: _, [] => throw .outOfBounds
  | info :: nodesTemplate, field :: fields => do
      let curName := Printed.text (textOf info.attributeName)
      match field with
      | .word curField =>
          if info.type = INT then
            let rest ← printFields nodesTemplate fields
            return { rest with
              lines := ⟨"%-20s: %ld\n", [curName, .number curField]⟩ ::
                rest.lines }
          else if info.type = BOOL then
            let rest ← printFields nodesTemplate fields
            return { rest with
              lines := ⟨"%-20s: %d\n", [curName,
                .number (if curField ≠ 0 then 1 else 0)]⟩ :: rest.lines }
          else if info.type = FLOAT then
            return ⟨[⟨"%-20s: % lf\n", [curName, .double curField]⟩],
              some .wordAsString⟩
          else return ⟨[], some .wordAsString⟩
      | .text block =>
          -- `getNode` gives a block for a STRING field, and for no other
          let _ ← strlen block
          let rest ← printFields nodesTemplate fields
          return { rest with
            lines := ⟨"%-20s: %s\n", [curName, .text (textOf block)]⟩ ::
              rest.lines }

/-- The branch for an id.  Both messages free the schema, and the function goes
on to the loop that reads it. -/
def retriveId (fuel : Nat) (operand : CharPtr) : Prog Output := do
  let id := atoiDigits operand
  let (schema, _) ← readTreeSchema
  let tooLarge : List Line :=
    if schema.treeMeta.curId < id then
      [⟨"Id is too large: %lu\n", [.number id]⟩]
    else []
  match ← getNode fuel id with
  | none =>
      return ⟨tooLarge ++ [⟨"No result of operation\n", []⟩],
        some .freedSchema⟩
  | some fields =>
      if tooLarge ≠ [] then return ⟨tooLarge, some .freedSchema⟩
      else printFields schema.nodesTemplate fields

/-- What is printed of the result set in the end. -/
def resultLines (parameter : CharPtr) (resultSet : List ResultSetNode) :
    List Line :=
  if resultSet ≠ [] then
    ⟨"<----- Result set ----->\n", []⟩ ::
      resultSet.map fun node => ⟨"id: %lu\n", [.number node.id]⟩
  else if ¬ SameText parameter idText then [⟨"No result present\n", []⟩]
  else []

/-- The parameters of a search. -/
def fieldText : CharPtr := [102, 105, 101, 108, 100]

/-- `storageRetriveNode` on the words of a command, of which `count` were
counted. -/
def storageRetriveNode (strtod : CharPtr → UInt64) (fuel : Nat)
    (argv : List CharPtr) (template : List NodeAttributeInfo) (count : Nat) :
    Prog Output := do
  let parameter ← index argv 1
  let finish (lines : List Line) (resultSet : List ResultSetNode) : Output :=
    ⟨lines ++ resultLines parameter resultSet, none⟩
  if SameText parameter parentText then
    if count = 3 then
      let operand ← index argv 2
      if isNumeric operand then
        return finish [] (← findByParent (atoiDigits parameter))
      else
        return finish [⟨"Wrong parent id format: %s\n",
          [.text (textOf operand)]⟩] []
    else
      return finish [⟨"Wrong number of arguments: %lu\n",
        [.number (count - 1)]⟩] []
  else if SameText parameter fieldText then
    if count = 4 then
      let name ← index argv 2
      match lastAttr name template with
      | none =>
          return finish [⟨"Field does not exist: %s\n",
            [.text (textOf name)]⟩] []
      | some fIdx =>
          let type ← index (template.map (·.type)) fIdx
          let value ← index argv 3
          match fieldCondition strtod value type with
          | .error line => return finish [line] []
          | .ok condition =>
              return finish [] (← findByField fuel fIdx condition)
    else
      -- the address of a word is printed as the number
      let _ ← index argv 3
      return finish [⟨"Wrong number of arguments: %lu",
        [.number (← unsetWord)]⟩] []
  else if SameText parameter idText then
    if count = 3 then
      let operand ← index argv 2
      if isNumeric operand then retriveId fuel operand
      else return finish [⟨"Wrong id format\n", []⟩] []
    else
      return finish [⟨"Wrong number of arguments: %lu",
        [.number (count - 1)]⟩] []
  else return finish [⟨"Incorrect paremeter: aaa\n", []⟩] []

/-- The `switch` of `storageInsertNode`: the slot to store, if the type is one
of the four; `none` is `CONVERSION_FAIL`.  A piece that `split` did not set is
a pointer that leads nowhere. -/
def insertText (strtod : CharPtr → UInt64) (address : UInt64)
    (attrNames : List CharPtr) (type : Option Nat) :
    Except Fault (Option (Option Slot)) :=
  if type = some STRING then
    match attrNames[1]? with
    | none => return some (some ⟨address, []⟩)
    | some text => return some (some ⟨address, text ++ [0]⟩)
  else if type ≠ some BOOL ∧ type ≠ some FLOAT ∧ type ≠ some INT then
    return some none
  else
    match attrNames[1]? with
    | none => throw .outOfBounds
    | some text =>
        if type = some BOOL then
          if SameText text trueText then return some (some (numberSlot 1))
          else if SameText text falseText then
            return some (some (numberSlot 0))
          else return none
        else if type = some FLOAT then
          if strtod text = 0 ∨ strtod text = 2 ^ 63 then return none
          else return some (some (numberSlot (strtod text)))
        else if isNumeric text then
          return some (some (numberSlot (.ofNat (strtolDigits text))))
        else return none

/-- The loop of `storageInsertNode` from pair `i` on, as often as there are
attributes. -/
def insertPairs (strtod : CharPtr → UInt64) (behind : CharPtr)
    (address : Nat → UInt64) (template : List NodeAttributeInfo) :
    Nat → Nat → List CharPtr → List Slot →
      Except Fault (Except StorageOp (List Slot))
  | 0, _, _, fields => return .ok fields
  | _ + 1, _, [], _ => throw .outOfBounds
  | rounds + 1, i, str :: rest, fields => do
      let (count, attrNames) := split behind str 61
      if count ≠ 2 then return .error .wrongArgsNumberFail
      else
        match attrNames[0]? with
        | none => throw .outOfBounds
        | some key =>
            match findAttr key template with
            | none => return .error .templateFail
            | some pPos =>
                match ← insertText strtod (address i) attrNames
                    (template.map (·.type))[pPos]? with
                | none => return .error .conversionFail
                | some value =>
                    let fields :=
                      match value with
                      | some slot => fields.set pPos slot
                      | none => fields
                    insertPairs strtod behind address template rounds (i + 1)
                      rest fields

/-- `storageInsertNode` on the id and the pairs of a command, with `add` in the
place of `addNode`; `address` gives the places of the pairs in memory, and the
array `fields` starts with arbitrary words. -/
def storageInsertNodeWith (add : List Slot → UInt64 → Prog CrudStatus)
    (strtod : CharPtr → UInt64) (behind : CharPtr) (address : Nat → UInt64)
    (idStr : CharPtr) (pairs : List CharPtr)
    (template : List NodeAttributeInfo) : Prog StorageOp := do
  let memory ← malloc (template.length * 8)
  let fields := (leWords template.length memory).map (numberSlot <| .ofNat ·)
  if isNumeric idStr then
    match ← insertPairs strtod behind address template template.length 0 pairs
        fields with
    | .error code => return code
    | .ok fields =>
        let _ ← add fields (.ofNat (strtolDigits idStr))
        return .success
  else return .idFormatFail

def storageInsertNode : (CharPtr → UInt64) → CharPtr → (Nat → UInt64) →
    CharPtr → List CharPtr → List NodeAttributeInfo → Prog StorageOp :=
  storageInsertNodeWith addNode

end TreeStore
