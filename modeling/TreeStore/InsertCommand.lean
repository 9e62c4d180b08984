import TreeStore.Commands
import TreeStore.Inserting
import TreeStore.Library.Pieces
import TreeStore.Numerals

/-!
# The two ways to insert a node

The console and bulk load insert a node from texts, the server from the
settings of a message.  Both hand an array of field words to `addNode`.
-/

namespace TreeStore

open ByteFile ProgramLogic Assignments Pieces

/-- `storageInsertNodeNew` with `add` in the place of `addNode`. -/
def storageInsertNodeNewWith (add : List Slot → UInt64 → Prog CrudStatus)
    (address : Nat → UInt64) (settings : List KeyValuePair) (parentId : UInt64)
    (template : List NodeAttributeInfo) : Prog ErrCode := do
  let memory ← malloc (template.length * 8)
  let fields := (leWords template.length memory).map (numberSlot <| .ofNat ·)
  match insertLoop address template 0 settings none fields with
  | .error code => return code
  | .ok fields =>
      if settings.length = template.length then
        let _ ← add fields parentId
        return .ok
      else return .countError

theorem storageInsertNodeNewWith_addNode :
    storageInsertNodeNewWith addNode = storageInsertNodeNew := rfl

/-- All that the call does is to hand these fields and this parent to `add`,
whatever that does, and to report success. -/
def HandsOver {α : Type}
    (call : (List Slot → UInt64 → Prog CrudStatus) → Prog α) (success : α)
    (fields : List Slot) (parent : UInt64) (world : World) : Prop :=
  ∀ add, (call add).run world =
    (do
      let _ ← add fields parent
      return success : Prog α).run { world with blocks := world.blocks + 1 }

/-- The slots hold the same word, or for a STRING field lead to the same
terminated string. -/
def SameField (type : Nat) (slot slot' : Slot) : Prop :=
  if type = STRING then 0 ∈ slot.deref ∧ 0 ∈ slot'.deref ∧
    textOf slot.deref = textOf slot'.deref
  else slot.word = slot'.word

/-- One field for each attribute, the same in both arrays. -/
structure SameFields (template : List NodeAttributeInfo)
    (fields fields' : List Slot) : Prop where
  length : fields.length = template.length
  length' : fields'.length = template.length
  same : ∀ (position : Nat) (info : NodeAttributeInfo) (slot slot' : Slot),
    template[position]? = some info → fields[position]? = some slot →
      fields'[position]? = some slot' → SameField info.type slot slot'

/-- A value in its two forms. -/
structure Given where
  kv : KeyValuePair
  text : List UInt8

/-- The argument `name=value`. -/
def Given.pair (given : Given) : List UInt8 :=
  given.kv.keyText ++ 61 :: given.text

/-- A text without space, `=` or newline. -/
def Plain (text : List UInt8) : Prop :=
  0 ∉ text ∧ 32 ∉ text ∧ 61 ∉ text ∧ 10 ∉ text

/-- The text and the setting give the same value of this type. -/
def Denotes (strtod : CharPtr → UInt64) (type : Nat) (given : Given) : Prop :=
  if type = INT then given.kv.valueType = 1 ∧ Numeral given.text ∧
    given.kv.valueInt.toInt = numeralValue given.text
  else if type = BOOL then given.kv.valueType = 1 ∧
    (given.kv.valueInt = 1 ∧ given.text = trueText ∨
      given.kv.valueInt = 0 ∧ given.text = falseText)
  else if type = FLOAT then given.kv.valueType = 2 ∧ Plain given.text ∧
    strtod given.text = doubleBits given.kv.valueReal
  else given.kv.valueType = 0 ∧ Plain given.text ∧
    0 ∈ given.kv.valueString ∧ textOf given.kv.valueString = given.text

/-- One value for each attribute, in any order. -/
def Assigns (strtod : CharPtr → UInt64) (template : List NodeAttributeInfo)
    (givens : List Given) : Prop :=
  ∃ ordered, givens.Perm ordered ∧
    List.Forall₂ (fun (info : NodeAttributeInfo) (given : Given) =>
      given.kv.keyText = info.nameText ∧ Denotes strtod info.type given)
      template ordered

/-- Both calls succeed, and hand the same fields and the same parent over. -/
def FrontEndsAgree (strtod : CharPtr → UInt64) (behind : CharPtr)
    (address address' : Nat → UInt64) (idStr : CharPtr) (pairs : List CharPtr)
    (settings : List KeyValuePair) (parent : UInt64)
    (template : List NodeAttributeInfo) : Prop :=
  ∀ world world', ∃ fields fields',
    HandsOver (fun add => storageInsertNodeWith add strtod behind address idStr
      pairs template) .success fields parent world ∧
    HandsOver (fun add => storageInsertNodeNewWith add address' settings parent
      template) .ok fields' parent world' ∧
    SameFields template fields fields'

/-- What `strtok` takes for a delimiter. -/
abbrev delimits (behind : CharPtr) (char : UInt8) : Bool :=
  decide (char ∈ 61 :: textOf behind)

/-- This piece of a text reads as the value of the setting. -/
def Reads (strtod : CharPtr → UInt64) (type : Nat) (kv : KeyValuePair)
    (piece : List UInt8) : Prop :=
  if type = INT then isNumeric piece = true ∧
    strtolDigits piece = kv.valueInt.toUInt64.toNat
  else if type = BOOL then kv.valueInt = 1 ∧ piece = trueText ∨
    kv.valueInt = 0 ∧ piece = falseText
  else if type = FLOAT then strtod piece = doubleBits kv.valueReal ∧
    doubleBits kv.valueReal ≠ 0 ∧ doubleBits kv.valueReal ≠ 2 ^ 63
  else piece = textOf kv.valueString

/-- The name of an attribute is what `strtok` finds in a pair. -/
structure Findable (behind : CharPtr) (name : List UInt8) : Prop where
  nonempty : name ≠ []
  newline : 10 ∉ name
  whole : ∀ char ∈ name, delimits behind char = false

/-- The names are different and `strtok` finds them in the pairs, and what it
finds behind them still reads as the values. -/
structure Separable (strtod : CharPtr → UInt64) (behind : CharPtr)
    (template : List NodeAttributeInfo) (givens : List Given) : Prop where
  distinct : (template.map (·.nameText)).Nodup
  names : ∀ info ∈ template, Findable behind info.nameText
  values : ∀ given ∈ givens, ∀ info ∈ template,
    given.kv.keyText = info.nameText →
      ∃ piece, (pieces (delimits behind) given.text)[0]? = some piece ∧
        Reads strtod info.type given.kv piece

section Splitting

variable {behind str : CharPtr} {name text : List UInt8}

theorem split_count (words : textOf str = name ++ 61 :: text)
    (plain : Plain text) (unequal : 61 ∉ name) :
    (split behind str 61).1 = 2 ↔ 10 ∉ name := by
  have stops : ∀ char ∈ 61 :: text, decide (char ≠ 10) = true := by
    intro char member
    apply decide_eq_true
    rintro rfl
    rcases List.mem_cons.mp member with same | later
    · exact absurd same (by decide)
    · exact plain.2.2.2 later
  rw [split, words]
  dsimp only
  by_cases newline : 10 ∈ name
  · rw [List.takeWhile_append, if_neg, List.count_eq_zero.mpr]
    · simp [newline]
    · exact fun member => unequal ((List.takeWhile_subset _) member)
    · intro whole
      have all := List.takeWhile_eq_self_iff.mp
        ((List.takeWhile_prefix _).eq_of_length whole)
      exact absurd (all 10 newline) (by decide)
  · have all : ∀ char ∈ name, decide (char ≠ 10) = true := by
      intro char member
      apply decide_eq_true
      rintro rfl
      exact newline member
    rw [List.takeWhile_append_of_pos all, List.takeWhile_eq_self_iff.mpr stops,
      List.count_append, List.count_eq_zero.mpr unequal, List.count_cons_self,
      List.count_eq_zero.mpr plain.2.2.1]
    simp [newline]

/-- The first piece of a pair is its key. -/
theorem split_key (two : (split behind str 61).1 = 2) :
    (split behind str 61).2[0]? =
      (pieces (delimits behind) (textOf str))[0]? := by
  have other : ¬ 0 = (split behind str 61).1 - 1 := by omega
  rw [split] at other ⊢
  dsimp only at other ⊢
  rw [List.getElem?_mapIdx]
  simp only [other, false_and, if_false]
  exact Option.map_id'

/-- The pieces of a pair are the name and the pieces of the value. -/
theorem pieces_pair (findable : Findable behind name) (text : List UInt8) :
    pieces (delimits behind) (name ++ 61 :: text) =
      name :: pieces (delimits behind) text := by
  have equals : delimits behind 61 = true :=
    decide_eq_true (List.mem_cons_self ..)
  have parts := pieces_append_cons equals name text
  rw [pieces_eq_singleton findable.nonempty findable.whole] at parts
  exact parts

theorem split_value (words : textOf str = name ++ 61 :: text)
    (plain : Plain text) (findable : Findable behind name) :
    (split behind str 61).2[1]? = (pieces (delimits behind) text)[0]? := by
  have cut : strtokAll (61 :: textOf behind) (textOf str) =
      name :: pieces (delimits behind) text := by
    rw [words]
    exact pieces_pair findable text
  rw [split, cut]
  dsimp only
  rw [List.getElem?_mapIdx, List.getElem?_cons_succ]
  cases first : (pieces (delimits behind) text)[0]? with
  | none => rfl
  | some piece =>
      have inside := (mem_pieces (List.mem_of_getElem? first)).2.2
      have noNewline : piece.getLast? ≠ some 10 := by
        intro last
        exact plain.2.2.2 (inside (List.mem_of_getLast? last))
      rw [Option.map_some, if_neg (fun both => noNewline both.2)]

end Splitting

section Values

variable {strtod : CharPtr → UInt64} {address address' : UInt64}
  {attrNames : List CharPtr} {type : Nat} {kv : KeyValuePair}
  {piece : List UInt8} {slot slot' : Slot}

theorem insertText_int (named : attrNames[1]? = some piece) :
    insertText strtod address attrNames (some INT) =
      if isNumeric piece then
        .ok (some (some (numberSlot (.ofNat (strtolDigits piece)))))
      else .ok none := by
  unfold insertText
  rw [named]
  rfl

theorem insertText_bool (named : attrNames[1]? = some piece) :
    insertText strtod address attrNames (some BOOL) =
      if SameText piece trueText then .ok (some (some (numberSlot 1)))
      else if SameText piece falseText then .ok (some (some (numberSlot 0)))
      else .ok none := by
  unfold insertText
  rw [named]
  rfl

theorem insertText_float (named : attrNames[1]? = some piece) :
    insertText strtod address attrNames (some FLOAT) =
      if strtod piece = 0 ∨ strtod piece = 2 ^ 63 then .ok none
      else .ok (some (some (numberSlot (strtod piece)))) := by
  unfold insertText
  rw [named]
  rfl

theorem insertText_string :
    insertText strtod address attrNames (some STRING) =
      .ok (some (some ⟨address, match attrNames[1]? with
        | none => []
        | some piece => piece ++ [0]⟩)) := by
  unfold insertText
  cases attrNames[1]? <;> rfl

theorem reads_int : Reads strtod INT kv piece ↔ isNumeric piece = true ∧
    strtolDigits piece = kv.valueInt.toUInt64.toNat := by
  rw [Reads, if_pos rfl]

theorem reads_bool : Reads strtod BOOL kv piece ↔
    kv.valueInt = 1 ∧ piece = trueText ∨
      kv.valueInt = 0 ∧ piece = falseText := by
  rw [Reads, if_neg (by decide), if_pos rfl]

theorem reads_float : Reads strtod FLOAT kv piece ↔
    strtod piece = doubleBits kv.valueReal ∧ doubleBits kv.valueReal ≠ 0 ∧
      doubleBits kv.valueReal ≠ 2 ^ 63 := by
  rw [Reads, if_neg (by decide), if_neg (by decide), if_pos rfl]

theorem reads_string :
    Reads strtod STRING kv piece ↔ piece = textOf kv.valueString := by
  rw [Reads, if_neg (by decide), if_neg (by decide), if_neg (by decide)]

theorem sameField_number (number : type ≠ STRING) :
    SameField type slot slot' ↔ slot.word = slot'.word := by
  rw [SameField, if_neg number]

/-- The texts of numbers that `isNumeric` accepts give the same word exactly if
they read as it. -/
theorem reads_iff_int (typed : kv.valueType = 1)
    (named : attrNames[1]? = some piece)
    (value : insertValue address' kv (some INT) = .ok (some slot')) :
    (∃ slot, insertText strtod address attrNames (some INT) =
      .ok (some (some slot)) ∧ SameField INT slot slot') ↔
        Reads strtod INT kv piece := by
  unfold insertValue at value
  rw [if_neg (by decide), if_neg (by decide), if_pos rfl,
    if_neg (not_not_intro typed)] at value
  cases value
  have fits : strtolDigits piece < 2 ^ 64 := by
    unfold strtolDigits
    omega
  rw [insertText_int named, reads_int]
  constructor
  · rintro ⟨slot, found, same⟩
    by_cases numeric : isNumeric piece = true
    · rw [if_pos numeric] at found
      cases found
      have words := congrArg UInt64.toNat
        ((sameField_number (by decide)).mp same)
      rw [numberSlot, UInt64.toNat_ofNat_of_lt' fits] at words
      exact ⟨numeric, words⟩
    · rw [if_neg numeric] at found
      cases found
  · rintro ⟨numeric, same⟩
    rw [if_pos numeric]
    refine ⟨_, rfl, (sameField_number (by decide)).mpr ?_⟩
    rw [same]
    exact UInt64.ofNat_toNat

theorem reads_iff_float (typed : kv.valueType = 2)
    (named : attrNames[1]? = some piece)
    (value : insertValue address' kv (some FLOAT) = .ok (some slot')) :
    (∃ slot, insertText strtod address attrNames (some FLOAT) =
      .ok (some (some slot)) ∧ SameField FLOAT slot slot') ↔
        Reads strtod FLOAT kv piece := by
  unfold insertValue at value
  rw [if_neg (by decide), if_pos rfl, if_neg (not_not_intro typed)] at value
  cases value
  rw [insertText_float named, reads_float]
  constructor
  · rintro ⟨slot, found, same⟩
    by_cases zero : strtod piece = 0 ∨ strtod piece = 2 ^ 63
    · rw [if_pos zero] at found
      cases found
    · rw [if_neg zero] at found
      cases found
      have words : strtod piece = doubleBits kv.valueReal :=
        (sameField_number (by decide)).mp same
      rw [words, not_or] at zero
      exact ⟨words, zero⟩
  · rintro ⟨words, nonzero⟩
    rw [words, if_neg (not_or.mpr nonzero)]
    exact ⟨_, rfl, (sameField_number (by decide)).mpr rfl⟩

theorem reads_iff_string (typed : kv.valueType = 0)
    (ended : 0 ∈ kv.valueString) (named : attrNames[1]? = some piece)
    (plain : textOf piece = piece)
    (value : insertValue address' kv (some STRING) = .ok (some slot')) :
    (∃ slot, insertText strtod address attrNames (some STRING) =
      .ok (some (some slot)) ∧ SameField STRING slot slot') ↔
        Reads strtod STRING kv piece := by
  unfold insertValue at value
  rw [if_neg (by decide), if_neg (by decide), if_neg (by decide), if_pos rfl,
    if_neg (not_not_intro typed)] at value
  cases value
  have stored : textOf (piece ++ [0]) = piece := by
    apply textOf_append_zero
    intro member
    rw [← plain] at member
    exact absurd (List.mem_takeWhile_imp member) (by decide)
  rw [insertText_string, named, reads_string]
  constructor
  · rintro ⟨slot, found, same⟩
    cases found
    rw [SameField, if_pos rfl] at same
    exact stored.symm.trans same.2.2
  · intro same
    refine ⟨_, rfl, ?_⟩
    rw [SameField, if_pos rfl]
    exact ⟨List.mem_append_right _ (List.mem_singleton_self 0), ended,
      stored.trans same⟩

theorem reads_iff_bool (valued : kv.valueInt = 1 ∨ kv.valueInt = 0)
    (named : attrNames[1]? = some piece) (plain : textOf piece = piece)
    (value : insertValue address' kv (some BOOL) = .ok (some slot')) :
    (∃ slot, insertText strtod address attrNames (some BOOL) =
      .ok (some (some slot)) ∧ SameField BOOL slot slot') ↔
        Reads strtod BOOL kv piece := by
  have trueSame : textOf trueText = trueText := by decide
  have falseSame : textOf falseText = falseText := by decide
  have different : falseText ≠ trueText := by decide
  have apart : (0 : Int64) ≠ 1 := by decide
  unfold insertValue at value
  rw [if_pos rfl] at value
  rw [insertText_bool named, reads_bool]
  simp only [SameText, plain, trueSame, falseSame]
  rcases valued with one | zero
  · rw [if_pos one] at value
    cases value
    by_cases yes : piece = trueText
    · rw [if_pos yes]
      apply iff_of_true _ (Or.inl ⟨one, yes⟩)
      exact ⟨_, rfl, (sameField_number (by decide)).mpr rfl⟩
    · apply iff_of_false
      · rintro ⟨slot, found, same⟩
        rw [if_neg yes] at found
        by_cases no : piece = falseText
        · rw [if_pos no] at found
          cases found
          exact absurd ((sameField_number (by decide)).mp same) (by decide)
        · rw [if_neg no] at found
          cases found
      · rintro (⟨-, same⟩ | ⟨zero, -⟩)
        · exact yes same
        · exact apart (zero.symm.trans one)
  · rw [if_neg (by rw [zero]; decide), if_pos zero] at value
    cases value
    by_cases yes : piece = trueText
    · apply iff_of_false
      · rintro ⟨slot, found, same⟩
        rw [if_pos yes] at found
        cases found
        exact absurd ((sameField_number (by decide)).mp same) (by decide)
      · rintro (⟨one, -⟩ | ⟨-, same⟩)
        · exact apart (zero.symm.trans one)
        · exact different (same.symm.trans yes)
    · rw [if_neg yes]
      by_cases no : piece = falseText
      · rw [if_pos no]
        apply iff_of_true _ (Or.inr ⟨zero, no⟩)
        exact ⟨_, rfl, (sameField_number (by decide)).mpr rfl⟩
      · apply iff_of_false
        · rintro ⟨slot, found, same⟩
          rw [if_neg no] at found
          cases found
        · rintro (⟨one, -⟩ | ⟨-, same⟩)
          · exact apart (zero.symm.trans one)
          · exact no same

theorem type_cases (small : type ≤ BOOL) :
    type = INT ∨ type = FLOAT ∨ type = STRING ∨ type = BOOL := by
  simp only [INT, FLOAT, STRING, BOOL] at small ⊢
  omega

/-- A piece of the text gives the same field as the setting exactly if it reads
as the value. -/
theorem reads_iff {text : List UInt8} (denotes : Denotes strtod type ⟨kv, text⟩)
    (small : type ≤ BOOL) (named : attrNames[1]? = some piece)
    (plain : textOf piece = piece)
    (value : insertValue address' kv (some type) = .ok (some slot')) :
    (∃ slot, insertText strtod address attrNames (some type) =
      .ok (some (some slot)) ∧ SameField type slot slot') ↔
        Reads strtod type kv piece := by
  unfold Denotes at denotes
  rcases type_cases small with rfl | rfl | rfl | rfl
  · rw [if_pos rfl] at denotes
    exact reads_iff_int denotes.1 named value
  · rw [if_neg (by decide), if_neg (by decide), if_pos rfl] at denotes
    exact reads_iff_float denotes.1 named value
  · rw [if_neg (by decide), if_neg (by decide), if_neg (by decide)] at denotes
    exact reads_iff_string denotes.1 denotes.2.2.1 named plain value
  · rw [if_neg (by decide), if_pos rfl] at denotes
    apply reads_iff_bool _ named plain value
    rcases denotes.2 with ⟨one, -⟩ | ⟨zero, -⟩
    · exact Or.inl one
    · exact Or.inr zero

/-- Without a piece nothing that has a meaning is stored. -/
theorem insertText_missing (missing : attrNames[1]? = none)
    (small : type ≤ BOOL)
    (found : insertText strtod address attrNames (some type) =
      .ok (some (some slot))) : ¬ SameField type slot slot' := by
  rcases type_cases small with rfl | rfl | rfl | rfl
  · unfold insertText at found
    rw [missing] at found
    cases found
  · unfold insertText at found
    rw [missing] at found
    cases found
  · rw [insertText_string, missing] at found
    cases found
    rw [SameField, if_pos rfl]
    rintro ⟨ended, -⟩
    cases ended
  · unfold insertText at found
    rw [missing] at found
    cases found

/-- A text that stores a value stores one of the four types. -/
theorem insertText_ne_keep (small : type ≤ BOOL) :
    insertText strtod address attrNames (some type) ≠ .ok (some none) := by
  intro kept
  cases named : attrNames[1]? with
  | none =>
      rcases type_cases small with rfl | rfl | rfl | rfl
      all_goals
        unfold insertText at kept
        rw [named] at kept
        cases kept
  | some piece =>
      rcases type_cases small with rfl | rfl | rfl | rfl
      · rw [insertText_int named] at kept
        split_ifs at kept <;> cases kept
      · rw [insertText_float named] at kept
        split_ifs at kept <;> cases kept
      · rw [insertText_string] at kept
        cases kept
      · rw [insertText_bool named] at kept
        split_ifs at kept <;> cases kept

end Values

/-- The pair at this place makes the loop store this slot in this field. -/
structure Stores (strtod : CharPtr → UInt64) (behind : CharPtr)
    (template : List NodeAttributeInfo) (place : UInt64) (str : CharPtr)
    (write : Nat × Slot) : Prop where
  count : (split behind str 61).1 = 2
  key : ∃ key, (split behind str 61).2[0]? = some key ∧
    findAttr key template = some write.1
  value : insertText strtod place (split behind str 61).2
    (template.map (·.type))[write.1]? = .ok (some (some write.2))

section Loops

variable {strtod : CharPtr → UInt64} {behind : CharPtr}
  {address : Nat → UInt64} {template : List NodeAttributeInfo}
  {pairs : List CharPtr} {fields out : List Slot} {rounds i : Nat}

/-- A loop that stores something for the first pair goes on to the next one. -/
theorem insertPairs_stores {str : CharPtr} {write : Nat × Slot}
    (stores : Stores strtod behind template (address i) str write) :
    insertPairs strtod behind address template (rounds + 1) i (str :: pairs)
        fields =
      insertPairs strtod behind address template rounds (i + 1) pairs
        (fields.set write.1 write.2) := by
  obtain ⟨key, named, found⟩ := stores.key
  rw [insertPairs]
  dsimp only
  rw [if_neg (not_not_intro stores.count), named]
  dsimp only
  rw [found]
  dsimp only
  rw [stores.value]
  rfl

/-- A loop that ends well has stored something for its first pair. -/
theorem exists_stores {str : CharPtr} (typed : Typed template)
    (runs : insertPairs strtod behind address template (rounds + 1) i
      (str :: pairs) fields = .ok (.ok out)) :
    ∃ write, Stores strtod behind template (address i) str write := by
  unfold insertPairs at runs
  dsimp only at runs
  by_cases two : (split behind str 61).1 = 2
  · rw [if_neg (not_not_intro two)] at runs
    cases named : (split behind str 61).2[0]? with
    | none =>
        rw [named] at runs
        cases runs
    | some key =>
        rw [named] at runs
        dsimp only at runs
        cases found : findAttr key template with
        | none =>
            rw [found] at runs
            cases runs
        | some pPos =>
            rw [found] at runs
            dsimp only at runs
            cases value : insertText strtod (address i) (split behind str 61).2
                (template.map (·.type))[pPos]? with
            | error fault =>
                rw [value] at runs
                cases runs
            | ok stored =>
                rw [value] at runs
                cases stored with
                | none => cases runs
                | some stored =>
                    obtain ⟨type, here, small⟩ :=
                      typed.type_at (findAttr_lt found)
                    cases stored with
                    | none =>
                        rw [here] at value
                        exact absurd value (insertText_ne_keep small)
                    | some slot =>
                        exact ⟨(pPos, slot), two, ⟨key, named, found⟩, value⟩
  · rw [if_pos two] at runs
    cases runs

/-- The loop ends well exactly with one assignment for each pair. -/
theorem insertPairs_assigns (typed : Typed template)
    (runs : insertPairs strtod behind address template rounds i pairs fields =
      .ok (.ok out)) (enough : pairs.length = rounds) :
    ∃ writes, List.Forall₂ (fun str write =>
        ∃ place, Stores strtod behind template place str write) pairs writes ∧
      ∀ memory, insertPairs strtod behind address template rounds i pairs
        memory = .ok (.ok (assign writes memory)) := by
  induction pairs generalizing rounds i fields with
  | nil =>
      subst enough
      exact ⟨[], .nil, fun _ => rfl⟩
  | cons str pairs ih =>
      subst enough
      obtain ⟨write, stores⟩ := exists_stores typed runs
      rw [List.length_cons, insertPairs_stores stores] at runs
      obtain ⟨writes, all, rest⟩ := ih runs rfl
      refine ⟨write :: writes, .cons ⟨_, stores⟩ all, ?_⟩
      intro memory
      rw [List.length_cons, insertPairs_stores stores, rest, assign_cons]

/-- Pairs that store something, wherever they lie, make the loop end well. -/
theorem exists_insertPairs
    (stores : ∀ str ∈ pairs, ∀ place, ∃ write,
      Stores strtod behind template place str write)
    (enough : pairs.length = rounds) :
    ∃ writes, List.Forall₂ (fun str write =>
        ∃ place, Stores strtod behind template place str write) pairs writes ∧
      ∀ memory, insertPairs strtod behind address template rounds i pairs
        memory = .ok (.ok (assign writes memory)) := by
  induction pairs generalizing rounds i with
  | nil =>
      subst enough
      exact ⟨[], .nil, fun _ => rfl⟩
  | cons str pairs ih =>
      subst enough
      obtain ⟨write, first⟩ := stores str (List.mem_cons_self ..) (address i)
      obtain ⟨writes, all, rest⟩ := @ih pairs.length (i + 1)
        (fun other member => stores other (List.mem_cons_of_mem str member)) rfl
      refine ⟨write :: writes, .cons ⟨_, first⟩ all, ?_⟩
      intro memory
      rw [List.length_cons, insertPairs_stores first, rest, assign_cons]

end Loops

/-- The array `fields` of either call, as it is in memory. -/
def memorySlots (world : World) (count : Nat) : List Slot :=
  (leWords count ((List.range (count * 8)).map
    (world.heap world.blocks))).map (numberSlot <| .ofNat ·)

theorem memorySlots_length (world : World) (count : Nat) :
    (memorySlots world count).length = count := by
  rw [memorySlots, List.length_map, leWords_length]

section Handing

variable {strtod : CharPtr → UInt64} {behind idStr : CharPtr}
  {address : Nat → UInt64} {template : List NodeAttributeInfo}
  {pairs : List CharPtr} {settings : List KeyValuePair}
  {fields : List Slot} {parent : UInt64} {world : World}

/-- What the call does with the outcome of its loop. -/
theorem storageInsertNodeWith_run
    (add : List Slot → UInt64 → Prog CrudStatus)
    (numeric : isNumeric idStr = true) :
    (storageInsertNodeWith add strtod behind address idStr pairs template).run
        world =
      match insertPairs strtod behind address template template.length 0 pairs
        (memorySlots world template.length) with
      | .error fault => .error fault
      | .ok (.error code) =>
          .ok (code, { world with blocks := world.blocks + 1 })
      | .ok (.ok fields) =>
          (do
            let _ ← add fields (.ofNat (strtolDigits idStr))
            return .success : Prog StorageOp).run
              { world with blocks := world.blocks + 1 } := by
  have block : (malloc (template.length * 8)).run world =
      .ok ((List.range (template.length * 8)).map (world.heap world.blocks),
        { world with blocks := world.blocks + 1 }) := rfl
  unfold storageInsertNodeWith
  simp only [numeric, if_true]
  rw [run_bind_of block]
  have same : (leWords template.length ((List.range (template.length * 8)).map
      (world.heap world.blocks))).map (numberSlot <| .ofNat ·) =
        memorySlots world template.length := rfl
  rw [same]
  cases insertPairs strtod behind address template template.length 0 pairs
      (memorySlots world template.length) with
  | error fault => rfl
  | ok outcome =>
      cases outcome with
      | error code => rfl
      | ok fields => rfl

theorem storageInsertNodeNewWith_run
    (add : List Slot → UInt64 → Prog CrudStatus) :
    (storageInsertNodeNewWith add address settings parent template).run world =
      match insertLoop address template 0 settings none
        (memorySlots world template.length) with
      | .error code => .ok (code, { world with blocks := world.blocks + 1 })
      | .ok fields =>
          if settings.length = template.length then
            (do
              let _ ← add fields parent
              return .ok : Prog ErrCode).run
                { world with blocks := world.blocks + 1 }
          else .ok (.countError, { world with blocks := world.blocks + 1 }) := by
  have block : (malloc (template.length * 8)).run world =
      .ok ((List.range (template.length * 8)).map (world.heap world.blocks),
        { world with blocks := world.blocks + 1 }) := rfl
  unfold storageInsertNodeNewWith
  rw [run_bind_of block]
  have same : (leWords template.length ((List.range (template.length * 8)).map
      (world.heap world.blocks))).map (numberSlot <| .ofNat ·) =
        memorySlots world template.length := rfl
  rw [same]
  dsimp only
  cases insertLoop address template 0 settings none
      (memorySlots world template.length) with
  | error code => rfl
  | ok fields =>
      dsimp only
      split_ifs <;> rfl

/-- A function in the place of `addNode` that notices what it is called with. -/
def notices (fields : List Slot) (parent : UInt64) :
    List Slot → UInt64 → Prog CrudStatus :=
  fun fields' parent' =>
    if fields' = fields ∧ parent' = parent then throw .outOfFuel
    else return .success

theorem notices_eq {fields' : List Slot} {parent' : UInt64} {α : Type}
    {success : α} {later : World}
    (faults : (do
        let _ ← notices fields parent fields' parent'
        return success : Prog α).run later =
      (do
        let _ ← notices fields parent fields parent
        return success : Prog α).run later) :
    fields' = fields ∧ parent' = parent := by
  by_contra different
  unfold notices at faults
  rw [if_neg different, if_pos ⟨rfl, rfl⟩] at faults
  cases faults

/-- The call from texts hands over what its loop leaves in the array. -/
theorem handsOver_text_iff (numeric : isNumeric idStr = true) :
    HandsOver (fun add => storageInsertNodeWith add strtod behind address idStr
        pairs template) .success fields parent world ↔
      insertPairs strtod behind address template template.length 0 pairs
        (memorySlots world template.length) = .ok (.ok fields) ∧
      parent = .ofNat (strtolDigits idStr) := by
  unfold HandsOver
  simp only [storageInsertNodeWith_run _ numeric]
  constructor
  · intro hands
    have returns := hands fun _ _ => return .success
    have faults := hands (notices fields parent)
    cases parsed : insertPairs strtod behind address template template.length 0
        pairs (memorySlots world template.length) with
    | error fault =>
        rw [parsed] at returns
        cases returns
    | ok outcome =>
        cases outcome with
        | error code =>
            rw [parsed] at faults
            unfold notices at faults
            rw [if_pos ⟨rfl, rfl⟩] at faults
            cases faults
        | ok fields' =>
            rw [parsed] at faults
            obtain ⟨rfl, same⟩ := notices_eq faults
            exact ⟨rfl, same.symm⟩
  · rintro ⟨parsed, rfl⟩ add
    rw [parsed]

/-- The call from settings likewise. -/
theorem handsOver_settings_iff :
    HandsOver (fun add => storageInsertNodeNewWith add address settings parent
        template) .ok fields parent world ↔
      insertLoop address template 0 settings none
        (memorySlots world template.length) = .ok fields ∧
      settings.length = template.length := by
  unfold HandsOver
  simp only [storageInsertNodeNewWith_run]
  constructor
  · intro hands
    have faults := hands (notices fields parent)
    cases parsed : insertLoop address template 0 settings none
        (memorySlots world template.length) with
    | error code =>
        rw [parsed] at faults
        unfold notices at faults
        rw [if_pos ⟨rfl, rfl⟩] at faults
        cases faults
    | ok fields' =>
        rw [parsed] at faults
        dsimp only at faults
        by_cases count : settings.length = template.length
        · rw [if_pos count] at faults
          obtain ⟨rfl, -⟩ := notices_eq faults
          exact ⟨rfl, count⟩
        · unfold notices at faults
          rw [if_neg count, if_pos ⟨rfl, rfl⟩] at faults
          cases faults
  · rintro ⟨parsed, count⟩ add
    rw [parsed]
    dsimp only
    rw [if_pos count]

end Handing

end TreeStore
