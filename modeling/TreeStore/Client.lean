import TreeStore.Numerals
import TreeStore.StorageQueries

/-!
# The client

While the client reads a query, the actions of its grammar collect filters and
settings in global lists; `parseQuery` makes the message of them.  A list of
cells linked by `next` is a list here, and memory from `dmalloc` is taken to be
zero.  `parseQuery` reads `query.filters->next` and writes `qtree->settings`,
which do not exist; they are taken as `query.filtersList->next` and
`qtree->settingsList`.
-/

namespace TreeStore

/-- The message `Query`, with room for 20 filters and 20 settings. -/
structure Query where
  command : Int32
  filtersList : List Filter
  settingsList : List KeyValuePair
  filtersList_le : filtersList.length ≤ 20
  settingsList_le : settingsList.length ≤ 20
  deriving DecidableEq, Repr

namespace Client

abbrev STRING_TYPE : Nat := 0
abbrev INT_TYPE : Nat := 1
abbrev FLOAT_TYPE : Nat := 2

/-- `struct keyValuePair`.  The number of a string is its address. -/
structure KeyValuePair where
  key : CharPtr
  valueType : UInt8
  valueInt : Slot
  valueReal : UInt32
  deriving DecidableEq, Repr

/-- `struct comparator`. -/
structure Comparator where
  operation : UInt8
  kv : KeyValuePair
  deriving DecidableEq, Repr

/-- `struct fullComparator`, with the cells that `connected` leads to from one
to the next. -/
structure FullComparator extends Comparator where
  connected : List Comparator
  deriving DecidableEq, Repr

/-- The global variables.  In `filtersList` a null `compList` is an empty
list. -/
structure State where
  command : UInt8
  filtersList : List (List Comparator)
  settingsList : List KeyValuePair
  cmp : List FullComparator
  vtype : Nat
  deriving DecidableEq, Repr

/-- The variables when the client starts. -/
def State.start : State := ⟨0, [], [], [], 0⟩

section Actions

variable (state : State)

def addValSetting (key : CharPtr) (valInt : Slot) (valReal : UInt32) : State :=
  let kv := ⟨key, .ofNat state.vtype, valInt, valReal⟩
  { state with settingsList := kv :: state.settingsList }

def setCurOper (operation : UInt8) : State :=
  let kv := ⟨[], 0, numberSlot 0, 0⟩
  { state with cmp := ⟨⟨operation, kv⟩, []⟩ :: state.cmp }

/-- `setCurVal`; `none` follows a null pointer, here and below. -/
def setCurVal (key : CharPtr) (valInt : Slot) (valReal : UInt32) :
    Option State :=
  match state.cmp with
  | [] => none
  | top :: next =>
      let kv := ⟨key, .ofNat state.vtype, valInt, valReal⟩
      some { state with cmp := { top with kv := kv } :: next }

/-- The comparators go into the filter that the last call has put in front, if
there is one, and an empty filter in front of it. -/
def switchFilter : Option State :=
  match state.cmp with
  | [] => none
  | top :: next =>
      let compList := top.toComparator :: top.connected.take 1
      some { state with
        filtersList := [] :: compList :: state.filtersList.tail
        cmp := next }

def setComp : Option State :=
  match state.cmp with
  | top :: other :: next =>
      let connected := other.toComparator :: other.connected
      some { state with cmp := { top with connected := connected } :: next }
  | _ => none

def setCommand (command : UInt8) : State := { state with command := command }

end Actions

/-- `atoi` for what the lexer takes for an integer. -/
def atoi (yytext : CharPtr) : Int32 :=
  match textOf yytext with
  | 45 :: digits => .ofInt (-(min (numeralValue digits) (2 ^ 63) : Nat))
  | _ => .ofNat (strtolDigits yytext)

/-- `yylval.vint` after an integer. -/
def vint (yytext : CharPtr) : UInt64 := (atoi yytext).toInt64.toUInt64

/-- `value`.  A string is what `strdup` has returned; of a number the lexer has
read `yytext`, or left its float in the low half of the union `yylval`. -/
inductive Value
  | string (text : Slot)
  | int (yytext : CharPtr)
  | float (yylval : UInt64)
  | bool (truth : Bool)
  deriving DecidableEq, Repr

namespace Value

/-- The type that the action of a `value` leaves in `vtype`. -/
def vtype : Value → Nat
  | string _ => STRING_TYPE
  | int _ => INT_TYPE
  | float _ => FLOAT_TYPE
  | bool _ => INT_TYPE

/-- The semantic value of a `value`. -/
def semantic : Value → Slot
  | string text => text
  | int yytext => numberSlot (vint yytext)
  | float yylval => numberSlot yylval
  | bool true => numberSlot 1
  | bool false => numberSlot 0

/-- The arguments `valInt` and `valReal` for a `value` that may be a float. -/
def split (value : Value) : Slot × UInt32 :=
  if value.vtype = FLOAT_TYPE then (numberSlot 0, value.semantic.word.toUInt32)
  else (value.semantic, 0)

end Value

/-- `comp`. -/
inductive Comp
  | loT
  | loEqT
  | grT
  | grEqT
  | noEq
  deriving DecidableEq, Repr

def Comp.code : Comp → UInt8
  | loT => 1
  | loEqT => 2
  | grT => 3
  | grEqT => 4
  | noEq => 5

/-- `filter`. -/
inductive Filter
  | value (key : CharPtr) (given : Value)
  | operation (key : CharPtr) (comp : Comp) (given : Value)
  | or (first second : Filter)
  deriving DecidableEq, Repr

/-- The actions of a `filter`. -/
def Filter.read : Filter → State → Option State
  | value key given, state =>
      let state := { state with vtype := given.vtype }
      setCurVal (setCurOper state 0) key given.split.1 given.split.2
  | operation key comp given, state =>
      let state := { state with vtype := given.vtype }
      setCurVal (setCurOper state comp.code) key given.semantic 0
  | or first second, state => do
      let state ← first.read state
      let state ← second.read state
      setComp state

/-- The actions of `filters`. -/
def readFilters : List Filter → State → Option State
  | [], state => some state
  | filter :: filters, state => do
      let state ← filter.read state
      let state ← readFilters filters state
      switchFilter state

/-- The actions of `set_vals`. -/
def readSettings : List (CharPtr × Value) → State → State
  | [], state => state
  | (key, value) :: settings, state =>
      let state := { state with vtype := value.vtype }
      readSettings settings
        (addValSetting state key value.split.1 value.split.2)

/-- `mongosh`. -/
inductive Mongosh
  | receive (filters : List Filter)
  | delete (filters : List Filter)
  | insert (parent : CharPtr) (settings : List (CharPtr × Value))
  | update (filters : List Filter) (settings : List (CharPtr × Value))
  deriving DecidableEq, Repr

/-- The actions of a query. -/
def Mongosh.read : Mongosh → State → Option State
  | receive filters, state => do
      return setCommand (← readFilters filters state) 0
  | delete filters, state => do
      return setCommand (← readFilters filters state) 1
  | insert parent settings, state => do
      let state := { setCurOper state 0 with vtype := INT_TYPE }
      let state ← setCurVal state (parentText ++ [0])
        (numberSlot (vint parent)) 0
      let state ← switchFilter state
      return setCommand (readSettings settings state) 2
  | update filters settings, state => do
      let state ← readFilters filters state
      return setCommand (readSettings settings state) 3

/-- `strcpy` into one of the arrays of the message, which have room for 1024
characters; `none` is an overflow, here and below. -/
def strcpy (src : CharPtr) : Option CharPtr :=
  if (textOf src).length < 1024 then some (textOf src ++ [0]) else none

/-- The pair that `parseQuery` makes of a pair. -/
def KeyValuePair.parse (kv : KeyValuePair) :
    Option TreeStore.KeyValuePair := do
  let valueString ←
    if kv.valueType = .ofNat STRING_TYPE then strcpy kv.valueInt.deref
    else some [0]
  let key ← strcpy kv.key
  return ⟨key, .ofNat kv.valueType.toNat, kv.valueInt.word.toInt64,
    kv.valueReal, valueString⟩

def Comparator.parse (comp : Comparator) : Option TreeStore.Comparator := do
  return ⟨.ofNat comp.operation.toNat, ← comp.kv.parse⟩

/-- The filter that `parseQuery` makes of a list of comparators. -/
def parseFilter (compList : List Comparator) : Option TreeStore.Filter := do
  let comps ← compList.mapM Comparator.parse
  if fits : comps.length ≤ 20 then return ⟨comps, fits⟩ else none

/-- The message with these filters and settings. -/
def parseLists (command : UInt8) (filtersList : List (List Comparator))
    (settingsList : List KeyValuePair) : Option Query := do
  let filters ← filtersList.mapM parseFilter
  let settings ← settingsList.mapM KeyValuePair.parse
  if fits : filters.length ≤ 20 then
    if fits' : settings.length ≤ 20 then
      return ⟨.ofNat command.toNat, filters, settings, fits, fits'⟩
    else none
  else none

/-- `parseQuery`, which passes over the filters without comparators. -/
def parseQuery (state : State) : Option Query :=
  parseLists state.command
    (state.filtersList.filter fun compList => ¬ compList.isEmpty)
    state.settingsList

/-- The message that is sent for a query, and the variables after that. -/
def sendData (state : State) : Option (Query × State) := do
  let qtree ← parseQuery state
  return (qtree, ⟨0, [], [], state.cmp, state.vtype⟩)

/-- The message for the first query of a session. -/
def message (mongosh : Mongosh) : Option Query := do
  parseQuery (← mongosh.read .start)

end Client

end TreeStore
