import TreeStore.Client
import TreeStore.Library.Undefined

/-!
# The handler of the server

`handleQuery` of `handler.c` makes the response to a message.  It formats each
line in a block of 256 characters, and `storageUpdateNodeNew` copies a string
into one of 64; neither looks at the length.  What happens when a text does not
fit is left open: it is the argument `overflow`.
-/

namespace TreeStore

open ByteFile ProgramLogic

/-- The characters of a literal. -/
def chars (text : String) : List UInt8 :=
  text.toList.map fun char => .ofNat char.toNat

/-- `%lu` and `%zu`. -/
def decimalText (number : Nat) : List UInt8 :=
  (Nat.toDigits 10 number).map fun digit => .ofNat digit.toNat

/-- A width with the sign `-`. -/
def leftText (width : Nat) (text : List UInt8) : List UInt8 :=
  text ++ List.replicate (width - text.length) 32

/-- A width, and the character that it is filled up with. -/
def rightText (width : Nat) (fill : UInt8) (text : List UInt8) : List UInt8 :=
  List.replicate (width - text.length) fill ++ text

/-- `%.6f` for a `double`, rounded to the nearest decimal, and from the middle
between two to the even one. -/
def doubleText (bits : UInt64) : List UInt8 :=
  let sign := if bits.toNat / 2 ^ 63 = 1 then chars "-" else []
  let exponent := bits.toNat / 2 ^ 52 % 2048
  let fraction := bits.toNat % 2 ^ 52
  if exponent = 2047 then
    sign ++ chars (if fraction = 0 then "inf" else "nan")
  else
    -- in units of the smallest `double`
    let magnitude :=
      if exponent = 0 then fraction
      else (2 ^ 52 + fraction) * 2 ^ (exponent - 1)
    let down := magnitude * 10 ^ 6 / 2 ^ 1074
    let rest := magnitude * 10 ^ 6 % 2 ^ 1074
    let number :=
      if 2 ^ 1073 < rest ∨ rest = 2 ^ 1073 ∧ down % 2 = 1 then down + 1
      else down
    sign ++ decimalText (number / 10 ^ 6) ++ chars "." ++
      rightText 6 48 (decimalText (number % 10 ^ 6))

example : doubleText 0x3FF8000000000000 = chars "1.500000" := by decide +kernel
example : doubleText 0xBFB999999999999A = chars "-0.100000" := by decide +kernel

/-- A pointer that may be null. -/
def deref {α : Type} : Option α → Prog α
  | some value => return value
  | none => throw .outOfBounds

/-- The message searches for one id. -/
def Query.byId (query : Query) : Bool :=
  match query.filtersList with
  | [⟨[comparator], _⟩] => decide (SameText comparator.kv.key idText)
  | _ => false

/-- What is printed for a field, if its type is one of the four.  An address in
a result for an id leads nowhere, since no node gets into such a result. -/
def shownText (fuel size : Nat) (byId : Bool) (value : Option KeyNode)
    (iter type : Nat) : Prog (Option (List UInt8)) :=
  if type = STRING then do
    let node ← deref value
    if byId then throw .outOfBounds
    else
      let s ← readStringFromNode fuel size (node.word iter)
      let _ ← strlen s
      return some (textOf s)
  else if type = INT ∨ type = BOOL then do
    let node ← deref value
    return some (decimalText (node.word iter))
  else if type = FLOAT then do
    let node ← deref value
    return some (doubleText (.ofNat (node.word iter)))
  else return none

section Lines

variable (overflow : Prog Unit) (fuel stack size : Nat)
  (template : List NodeAttributeInfo)

/-- `sprintf(tmp, ...)`, which writes a terminator behind the line. -/
def sprintf (tmp : List UInt8) : Prog Unit :=
  requires overflow (tmp.length < 256)

/-- `strcpy(tmp, str)` into the new block of `storageUpdateNodeNew`. -/
def copyString (str : CharPtr) : Prog Unit :=
  requires overflow ((textOf str).length < 64)

def fieldLine (name : CharPtr) (text : List UInt8) : List UInt8 :=
  leftText 20 (textOf name) ++ chars " " ++ text ++ chars "\n"

/-- The loop over the fields of a node that is received. -/
def receiveFields (byId : Bool) (value : Option KeyNode) :
    Nat → List NodeAttributeInfo → List UInt8 → Prog (List UInt8)
  | _, [], response => return response
  | iter, info :: rest, response => do
      match ← shownText fuel size byId value iter info.type with
      | none => receiveFields byId value (iter + 1) rest response
      | some text =>
          let tmp := fieldLine info.attributeName text
          sprintf overflow tmp
          receiveFields byId value (iter + 1) rest (response ++ tmp)

def receiveNode (byId : Bool) (result : FoundNode) (response : List UInt8) :
    Prog (List UInt8) := do
  let tmp := chars "<---- Node " ++ rightText 3 32 (decimalText result.id) ++
    chars "---->\n"
  sprintf overflow tmp
  receiveFields overflow fuel size byId result.value 0 template
    (response ++ tmp)

def removeFound (result : FoundNode) (response : List UInt8) :
    Prog (List UInt8) := do
  let status ← removeNode fuel result.id false
  let response := response ++
    if status = .fail then chars "Already removed"
    else chars "Removed successfully"
  let tmp := chars "id: " ++ decimalText result.id ++ chars "\n"
  sprintf overflow tmp
  return response ++ tmp

/-- `updateSettings` with its copies. -/
def copySettings (id : Nat) : Nat → List KeyValuePair → Prog Nat
  | _, [] => return 0
  | value, kv :: settings => do
      let pPos : Int :=
        match findAttr kv.key template with
        | some iter => (Int8.ofNat iter).toInt
        | none => -1
      if pPos = -1 then return 3
      else if pPos < 0 then throw .outOfBounds
      else
        let type ← index (template.map (·.type)) pPos.toNat
        match updateValue kv type with
        | none => return 4
        | some source =>
            if source = .address then copyString overflow kv.valueString
            let value ← source.load value
            updateWord fuel stack pPos.toNat value id
            copySettings id value settings

/-- `storageUpdateNodeNew` with its copies. -/
def copyingUpdate (id : Nat) (settings : List KeyValuePair) : Prog Nat := do
  let value ← unsetWord
  copySettings overflow fuel stack template id value settings

def updateFound (settings : List KeyValuePair) (result : FoundNode)
    (response : List UInt8) : Prog (List UInt8) := do
  let errorCode ←
    copyingUpdate overflow fuel stack template result.id settings
  let tmp := chars "Error code: " ++ decimalText errorCode ++ chars "\n"
  if errorCode ≠ 0 then sprintf overflow tmp
  let response := if errorCode ≠ 0 then response ++ tmp else response
  let tmp := chars "Updated id: " ++ decimalText result.id ++ chars "\n"
  sprintf overflow tmp
  return response ++ tmp

/-- What is done with a node that the search has found. -/
def Query.visit (query : Query) (result : FoundNode) (response : List UInt8) :
    Prog (List UInt8) :=
  if query.command = 0 then
    receiveNode overflow fuel size template query.byId result response
  else if query.command = 1 then
    removeFound overflow fuel result response
  else if query.command = 3 then
    updateFound overflow fuel stack template query.settingsList result response
  else return response

end Lines

/-- The response to an insertion. -/
def insertAnswer : ErrCode → List UInt8
  | .patternError => chars "Field does not match pattern\n"
  | .boolError => chars "Value is not bool\n"
  | .floatError => chars "Value is not float\n"
  | .intError => chars "Value is not integer\n"
  | .strError => chars "Value is not string\n"
  | .countError => chars "Wrong number of parameters\n"
  | .ok => chars "Added successfully\n"

/-- `filtersList[0].compList[0].kv.valueInt`; what a message leaves out is
zero. -/
def Query.firstInt (query : Query) : Int64 :=
  match query.filtersList with
  | ⟨comparator :: _, _⟩ :: _ => comparator.kv.valueInt
  | _ => 0

/-- The search and the loop over its result. -/
def visitFound (fuel : Nat) (filt : List Filter)
    (template : List NodeAttributeInfo) (unknown title : String)
    (visit : FoundNode → List UInt8 → Prog (List UInt8)) :
    Prog (List UInt8) := do
  let (errorCode, result) ← storageFindNodeByFilters fuel filt template
  if errorCode = 3 then return chars unknown
  else if result = [] then return chars "<---- No Results ---->\n"
  else result.foldlM (fun response node => visit node response) (chars title)

def handleQuery (overflow : Prog Unit) (address : Nat → UInt64)
    (fuel stack : Nat) (query : Query) : Prog (List UInt8) := do
  let (schema, _) ← readTreeSchema
  let template := schema.nodesTemplate
  let visit :=
    query.visit overflow fuel stack schema.treeMeta.templateSize template
  if query.command = 0 then
    visitFound fuel query.filtersList template
      "At least one of your fields doesn't exist.\n"
      "<---- Receive Result ---->\n" visit
  else if query.command = 1 then
    visitFound fuel query.filtersList template
      "At least one of your fields doesn't exist.\n"
      "<---- Remove result ---->\n" visit
  else if query.command = 2 then
    let errorCode ← storageInsertNodeNew address query.settingsList
      query.firstInt.toUInt64 template
    let tmp := insertAnswer errorCode
    sprintf overflow tmp
    return tmp
  else if query.command = 3 then
    visitFound fuel query.filtersList template
      "At least one of your fields doesn't exist."
      "<---- Update Result ---->\n" visit
  else return []

end TreeStore
