import TreeStore.Messages

/-!
# The parser of the client

The parser that `bison` makes of the grammar in `main.y`: it shifts the next
token if it can, and otherwise applies the rule that is complete, whatever the
token is; only where there is none either it finds an error.  So a symbol of the
grammar is read without a look at what follows it, as the functions here do.  On
an error `yyparse` has read the token that does not fit, keeps the global
variables as the actions so far have left them, and returns 1.
-/

namespace TreeStore

namespace Client

/-- The tokens of `rules.lex`; a STRING comes with what `strdup` returned, and a
number with its text or its value. -/
inductive Token
  | storage
  | receive
  | insert
  | delete
  | update
  | parent
  | string (yylval : Slot)
  | set
  | or
  | loT
  | loEqT
  | grT
  | grEqT
  | noEq
  | opBrace
  | clBrace
  | opCBrace
  | clCBrace
  | opSqBrace
  | clSqBrace
  | colon
  | dollar
  | comma
  | quote
  | falseT
  | trueT
  | int (yytext : CharPtr)
  | float (yylval : UInt64)
  deriving DecidableEq, Repr

/-- The tokens that are left of the input, the global variables, and the
messages that have been sent. -/
structure Reading where
  tokens : List Token
  state : State
  sent : List Query

/-- How `yyparse` ends without having read its input. -/
inductive Stop
  /-- It returns 1. -/
  | syntaxError (reading : Reading)
  /-- An action has followed a null pointer, or a message has overflown. -/
  | undefined
  /-- A list of the input is still being read. -/
  | outOfFuel

abbrev Parser := StateT Reading (Except Stop)

namespace Parser

def lookahead : Parser (Option Token) := do
  return (← get).tokens.head?

def shift : Parser Unit :=
  modify fun reading => { reading with tokens := reading.tokens.tail }

/-- The next token has been read, and does not fit. -/
def syntaxError {α : Type} : Parser α := do
  shift
  throw (.syntaxError (← get))

def expect (token : Token) : Parser Unit := do
  if (← lookahead) = some token then shift else syntaxError

/-- An action on the global variables. -/
def act (action : State → Option State) : Parser Unit := do
  let reading ← get
  match action reading.state with
  | none => throw .undefined
  | some state => set { reading with state := state }

/-- What the action of a `value` does. -/
def typed (given : Value) : Parser Value := do
  act fun state => some { state with vtype := given.vtype }
  return given

def value : Parser Value := do
  match ← lookahead with
  | some .quote =>
      shift
      match ← lookahead with
      | some (.string text) =>
          shift
          expect .quote
          typed (.string text)
      | _ => syntaxError
  | some (.int yytext) =>
      shift
      typed (.int yytext)
  | some (.float yylval) =>
      shift
      typed (.float yylval)
  | some .trueT =>
      shift
      typed (.bool true)
  | some .falseT =>
      shift
      typed (.bool false)
  | _ => syntaxError

def comp : Parser Comp := do
  match ← lookahead with
  | some .loT =>
      shift
      return .loT
  | some .loEqT =>
      shift
      return .loEqT
  | some .grT =>
      shift
      return .grT
  | some .grEqT =>
      shift
      return .grEqT
  | some .noEq =>
      shift
      return .noEq
  | _ => syntaxError

/-- `operation`, behind its first brace. -/
def operation : Parser Value := do
  expect .dollar
  let comp ← comp
  expect .colon
  let given ← value
  expect .clCBrace
  act fun state => some (setCurOper state comp.code)
  return given

def filter : Nat → Parser Unit
  | 0 => throw .outOfFuel
  | fuel + 1 => do
      match ← lookahead with
      | some (.string key) =>
          shift
          expect .colon
          if (← lookahead) = some .opCBrace then
            shift
            let given ← operation
            act fun state => setCurVal state key.deref given.semantic 0
          else
            let given ← value
            act fun state => setCurVal (setCurOper state 0) key.deref
              given.split.1 given.split.2
      | some .dollar =>
          shift
          expect .or
          expect .opSqBrace
          filter fuel
          expect .comma
          filter fuel
          expect .clSqBrace
          act setComp
      | _ => syntaxError

def filters : Nat → Parser Unit
  | 0 => throw .outOfFuel
  | fuel + 1 => do
      filter fuel
      if (← lookahead) = some .comma then
        shift
        filters fuel
        act switchFilter
      else act switchFilter

def setVal : Parser Unit := do
  match ← lookahead with
  | some (.string key) =>
      shift
      expect .colon
      let given ← value
      act fun state =>
        some (addValSetting state key.deref given.split.1 given.split.2)
  | _ => syntaxError

def setVals : Nat → Parser Unit
  | 0 => throw .outOfFuel
  | fuel + 1 => do
      setVal
      if (← lookahead) = some .comma then
        shift
        setVals fuel

def valsDef (fuel : Nat) : Parser Unit := do
  expect .opCBrace
  setVals fuel
  expect .clCBrace

def parentDef : Parser Unit := do
  expect .opCBrace
  expect .parent
  expect .colon
  match ← lookahead with
  | some (.int yytext) =>
      shift
      expect .clCBrace
      act fun state => do
        let state := { setCurOper state 0 with vtype := INT_TYPE }
        let state ← setCurVal state (parentText ++ [0])
          (numberSlot (vint yytext)) 0
        switchFilter state
  | _ => syntaxError

/-- The filters of a query in their braces. -/
def bracedFilters (fuel : Nat) : Parser Unit := do
  expect .opBrace
  expect .opCBrace
  filters fuel
  expect .clCBrace

def command (code : UInt8) : Parser Unit :=
  act fun state => some (setCommand state code)

def mongosh (fuel : Nat) : Parser Unit := do
  expect .storage
  match ← lookahead with
  | some .receive =>
      shift
      bracedFilters fuel
      expect .clBrace
      command 0
  | some .delete =>
      shift
      bracedFilters fuel
      expect .clBrace
      command 1
  | some .insert =>
      shift
      expect .opBrace
      parentDef
      expect .comma
      valsDef fuel
      expect .clCBrace
      command 2
  | some .update =>
      shift
      bracedFilters fuel
      expect .comma
      expect .dollar
      expect .set
      expect .colon
      valsDef fuel
      expect .clBrace
      command 3
  | _ => syntaxError

/-- The action of `printer`. -/
def printer : Parser Unit := do
  let reading ← get
  match sendData reading.state with
  | none => throw .undefined
  | some (qtree, state) =>
      set { reading with state := state, sent := reading.sent ++ [qtree] }

/-- The queries up to the first token that begins none. -/
def queries : Nat → Parser Unit
  | 0 => throw .outOfFuel
  | fuel + 1 => do
      if (← lookahead) = some .storage then
        mongosh fuel
        printer
        queries fuel

end Parser

/-- `yyparse`. -/
def yyparse : Parser Unit := do
  Parser.queries ((← get).tokens.length + 1)
  if (← Parser.lookahead) ≠ none then Parser.syntaxError

end Client

end TreeStore
