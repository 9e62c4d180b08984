import TreeStore.StorageInner

/-!
# The public operations of the store

`storageInsertNodeNew` and `storageUpdateNodeNew` serve the messages of the
server, `storageUpdateNode` the commands of the console, all in
`storageFilePublic.c`.  A `template` is the attribute list of the schema, from
which the callers take the types and the names that they pass.
-/

namespace TreeStore

open ByteFile

/-- `Query_KeyValuePair`; `valueReal` is the bit pattern of the `float`. -/
structure KeyValuePair where
  key : CharPtr
  valueType : Int32
  valueInt : Int64
  valueReal : UInt32
  valueString : CharPtr
  deriving DecidableEq, Repr

inductive ErrCode
  | ok
  | patternError
  | boolError
  | floatError
  | intError
  | strError
  | countError
  deriving DecidableEq, Repr

/-- The bit pattern of a `float` after its conversion to `double`. -/
def doubleBits (real : UInt32) : UInt64 :=
  let sign := real.toNat / 2 ^ 31
  let exponent := real.toNat / 2 ^ 23 % 256
  let fraction := real.toNat % 2 ^ 23
  let magnitude :=
    if exponent = 255 then
      if fraction = 0 then 2047 * 2 ^ 52
      else 2047 * 2 ^ 52 + (2 ^ 22 ||| fraction) * 2 ^ 29
    else if exponent = 0 then
      -- a subnormal `float` is a normal `double`
      if fraction = 0 then 0
      else
        let leading := fraction.log2
        (leading + 874) * 2 ^ 52 +
          (fraction - 2 ^ leading) * 2 ^ (52 - leading)
    else (exponent + 896) * 2 ^ 52 + fraction * 2 ^ 29
  .ofNat (sign * 2 ^ 63 + magnitude)

example : doubleBits 0x3F800000 = 0x3FF0000000000000 := by decide
example : doubleBits 0x80000001 = 0xB6A0000000000000 := by decide

/-- `strcmp(first, second) == 0`. -/
abbrev SameText (first second : CharPtr) : Prop :=
  textOf first = textOf second

/-- The first attribute with this name. -/
def findAttr (key : CharPtr) (template : List NodeAttributeInfo) :
    Option Nat :=
  template.findIdx? fun info => SameText key info.attributeName

/-- A 64-bit slot that holds a number. -/
def numberSlot (word : UInt64) : Slot := ⟨word, []⟩

/-- The `switch` of `storageInsertNodeNew`: the slot to store, if the type is
one of the four.  A string is stored as the address of its characters. -/
def insertValue (address : UInt64) (kv : KeyValuePair) (type : Option Nat) :
    Except ErrCode (Option Slot) :=
  if type = some BOOL then
    if kv.valueInt = 1 then .ok (some (numberSlot 1))
    else if kv.valueInt = 0 then .ok (some (numberSlot 0))
    else .error .boolError
  else if type = some FLOAT then
    if kv.valueType ≠ 2 then .error .floatError
    else .ok (some (numberSlot (doubleBits kv.valueReal)))
  else if type = some INT then
    if kv.valueType ≠ 1 then .error .intError
    else .ok (some (numberSlot kv.valueInt.toUInt64))
  else if type = some STRING then
    if kv.valueType ≠ 0 then .error .strError
    else .ok (some ⟨address, kv.valueString⟩)
  else .ok none

/-- The loop of `storageInsertNodeNew` from setting `sIdx` on; `address` gives
the place of each `valueString`, and `none` is a `pPos` of -1. -/
def insertLoop (address : Nat → UInt64) (template : List NodeAttributeInfo) :
    Nat → List KeyValuePair → Option Nat → List Slot →
      Except ErrCode (List Slot)
  | _, [], _, fields => .ok fields
  | sIdx, kv :: settings, pPos, fields =>
      match (findAttr kv.key template).or pPos with
      | none => .error .patternError
      | some pPos => do
          let value ← insertValue (address sIdx) kv
            (template.map (·.type))[pPos]?
          let fields :=
            match value with
            | some slot => fields.set pPos slot
            | none => fields
          insertLoop address template (sIdx + 1) settings none fields

/-- `storageInsertNodeNew`; the array `fields` starts with arbitrary words. -/
def storageInsertNodeNew (address : Nat → UInt64)
    (settings : List KeyValuePair) (parentId : UInt64)
    (template : List NodeAttributeInfo) : Prog ErrCode := do
  let memory ← malloc (template.length * 8)
  let fields := (leWords template.length memory).map (numberSlot <| .ofNat ·)
  match insertLoop address template 0 settings none fields with
  | .error code => return code
  | .ok fields =>
      if settings.length = template.length then
        let _ ← addNode fields parentId
        return .ok
      else return .countError

/-- What a `switch` of the update functions stores in `value`: a number, the
address of some characters, or nothing. -/
inductive ValueSource
  | number (word : Nat)
  | address
  | keep
  deriving DecidableEq, Repr

/-- The variable `value` after the `switch`.  An address can be any word. -/
def ValueSource.load (value : Nat) : ValueSource → Prog Nat
  | .number word => return word
  | .address => unsetWord
  | .keep => return value

/-- The `switch` of `storageUpdateNodeNew`; `none` is the return with code 4.
A string is copied into a new block, whose address becomes the value. -/
def updateValue (kv : KeyValuePair) (type : Nat) : Option ValueSource :=
  if type = BOOL then
    if kv.valueInt = 1 then some (.number 1)
    else if kv.valueInt = 0 then some (.number 0)
    else none
  else if type = FLOAT then
    if kv.valueType ≠ 2 then none
    else some (.number (doubleBits kv.valueReal).toNat)
  else if type = INT then
    if kv.valueType ≠ 1 then none
    else some (.number kv.valueInt.toUInt64.toNat)
  else if type = STRING then
    if kv.valueType ≠ 0 then none else some .address
  else some .keep

/-- `updateNode(fp, pPos, &value, id)`: the pointer leads to the eight bytes of
the local variable and the `stack` bytes of memory behind it. -/
def updateWord (fuel stack pPos value id : Nat) : Prog Unit := do
  let behind ← malloc stack
  let _ ← updateNode fuel pPos (leBytes 8 value ++ behind) id

/-- The loop of `storageUpdateNodeNew`, whose `pPos` is an `int8_t`. -/
def updateSettings (fuel stack id : Nat) (template : List NodeAttributeInfo) :
    Nat → List KeyValuePair → Prog Nat
  | _, [] => return 0
  | value, kv :: settings => do
      let pPos : Int :=
        match findAttr kv.key template with
        | some iter => (Int8.ofNat iter).toInt
        | none => -1
      if pPos = -1 then return 3
      else if pPos < 0 then throw .outOfBounds
      else
        let type ← index (template.map (·.type)) pPos.toNat
        match updateValue kv type with
        | none => return 4
        | some source =>
            let value ← source.load value
            updateWord fuel stack pPos.toNat value id
            updateSettings fuel stack id template value settings

def storageUpdateNodeNew (fuel stack id : Nat) (settings : List KeyValuePair)
    (template : List NodeAttributeInfo) : Prog Nat := do
  let value ← unsetWord
  updateSettings fuel stack id template value settings

inductive StorageOp
  | success
  | idFormatFail
  | wrongArgsNumberFail
  | templateFail
  | conversionFail
  deriving DecidableEq, Repr

/-- The decimal digits, up to the end or a carriage return. -/
def isNumeric (str : CharPtr) : Bool :=
  ((textOf str).takeWhile (· ≠ 13)).all fun char => 48 ≤ char ∧ char ≤ 57

/-- `isspace`. -/
def isSpace (char : UInt8) : Bool := char = 32 ∨ 9 ≤ char ∧ char ≤ 13

/-- `strtol(str, NULL, 10)` for a text without sign: it skips white space, reads
digits, and stops at the largest `long`. -/
def strtolDigits (str : CharPtr) : Nat :=
  min ((((textOf str).dropWhile isSpace).takeWhile fun char =>
    48 ≤ char ∧ char ≤ 57).foldl
      (fun number char => number * 10 + (char.toNat - 48)) 0) (2 ^ 63 - 1)

/-- `atoi` for a text of digits, as a 64-bit word: the low half of the `long`,
extended by its sign. -/
def atoiDigits (str : CharPtr) : Nat :=
  (Int32.ofNat (strtolDigits str)).toInt64.toUInt64.toNat

/-- The pieces of `text` between characters of `delimiters`, as `strtok` finds
them. -/
def strtokAll (delimiters text : List UInt8) : List (List UInt8) :=
  (text.splitOnP (· ∈ delimiters)).filter (· ≠ [])

/-- `split(str, c, &arr)`: the count and the pieces.  `strtok` gets the address
of the local `c`, so the characters of the memory `behind` it up to a
terminator delimit as well.  Pieces past the count land in memory that nothing
else uses. -/
def split (behind : CharPtr) (str : CharPtr) (c : UInt8) :
    Nat × List CharPtr :=
  let count := ((textOf str).takeWhile (· ≠ 10)).count c + 1
  let pieces := strtokAll (c :: textOf behind) (textOf str)
  (count, pieces.mapIdx fun i piece =>
    if i = count - 1 ∧ piece.getLast? = some 10 then piece.dropLast else piece)

/-- The text of a boolean value. -/
def trueText : CharPtr := [84, 114, 117, 101]
def falseText : CharPtr := [70, 97, 108, 115, 101]

/-- The `switch` of `storageUpdateNode`; `none` is `CONVERSION_FAIL`, and a
fault where it follows a pointer that `split` did not set.  `strtod` gives the
bit pattern of the `double`. -/
def updateText (strtod : CharPtr → UInt64) (attrNames : List CharPtr)
    (type : Nat) : Except Fault (Option ValueSource) :=
  if type = STRING then return some .address
  else if type ≠ BOOL ∧ type ≠ FLOAT ∧ type ≠ INT then return some .keep
  else
    match attrNames[1]? with
    | none => throw .outOfBounds
    | some text =>
        if type = BOOL then
          if SameText text trueText then return some (.number 1)
          else if SameText text falseText then return some (.number 0)
          else return none
        else if type = FLOAT then
          if strtod text = 0 ∨ strtod text = 2 ^ 63 then return none
          else return some (.number (strtod text).toNat)
        else if isNumeric text then return some (.number (atoiDigits text))
        else return none

/-- The loop of `storageUpdateNode` over its pairs. -/
def updatePairs (strtod : CharPtr → UInt64) (behind : CharPtr)
    (fuel stack id : Nat) (template : List NodeAttributeInfo) :
    Nat → List CharPtr → Prog StorageOp
  | _, [] => return .success
  | value, str :: rest => do
      let (count, attrNames) := split behind str 61
      if count ≠ 2 then return .wrongArgsNumberFail
      else
        let key ← index attrNames 0
        match findAttr key template with
        | none => return .templateFail
        | some pPos =>
            let type ← index (template.map (·.type)) pPos
            match ← updateText strtod attrNames type with
            | none => return .conversionFail
            | some source =>
                let value ← source.load value
                updateWord fuel stack pPos value id
                updatePairs strtod behind fuel stack id template value rest

/-- `storageUpdateNode` on the id and the pairs of a command. -/
def storageUpdateNode (strtod : CharPtr → UInt64) (behind : CharPtr)
    (fuel stack : Nat) (idStr : CharPtr) (pairs : List CharPtr)
    (template : List NodeAttributeInfo) : Prog StorageOp := do
  let value ← unsetWord
  if isNumeric idStr then
    updatePairs strtod behind fuel stack (atoiDigits idStr) template value
      pairs
  else return .idFormatFail

end TreeStore
