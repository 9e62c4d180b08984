import TreeStore.FindCommand
import TreeStore.FrontEnds
import TreeStore.Messages
import TreeStore.NumberFields

/-!
# Integer literals

An integer goes into a field through the texts of the console or through a
message of the client, and is searched with a text.  Each of these paths has a
conversion of its own.
-/

namespace TreeStore

open ByteFile ProgramLogic Assignments Pieces

/-- The pair `name=literal` for this attribute. -/
def PairFor (behind : CharPtr) (template : List NodeAttributeInfo)
    (position : Nat) (literal : List UInt8) (str : CharPtr) : Prop :=
  ∃ name, Findable behind name ∧ findAttr name template = some position ∧
    textOf str = name ++ 61 :: literal

/-- The pair is taken for one of this attribute. -/
def Names (behind : CharPtr) (template : List NodeAttributeInfo)
    (position : Nat) (str : CharPtr) : Prop :=
  ∃ key, (split behind str 61).2[0]? = some key ∧
    findAttr key template = some position

/-- The last pair for this attribute gives it the literal. -/
def SetsTo (behind : CharPtr) (template : List NodeAttributeInfo)
    (position : Nat) (literal : List UInt8) (pairs : List CharPtr) : Prop :=
  ∃ front str back, pairs = front ++ str :: back ∧
    PairFor behind template position literal str ∧
    ∀ other ∈ back, ¬ Names behind template position other

/-- Whatever `strtok` leaves of the literal has the same value. -/
def Undisturbed (behind : CharPtr) (literal : List UInt8) : Prop :=
  ∀ piece, (pieces (delimits behind) literal)[0]? = some piece →
    numeralValue piece = numeralValue literal

section Texts

variable {strtod : CharPtr → UInt64} {behind str : CharPtr}
  {template : List NodeAttributeInfo} {position : Nat}
  {literal piece : List UInt8}

/-- How the pair is taken apart. -/
theorem PairFor.parts (pairFor : PairFor behind template position literal str)
    (numeral : Numeral literal) : ∃ name, (split behind str 61).1 = 2 ∧
      (split behind str 61).2[0]? = some name ∧
      findAttr name template = some position ∧
      (split behind str 61).2[1]? =
        (pieces (delimits behind) literal)[0]? := by
  obtain ⟨name, findable, found, words⟩ := pairFor
  have plain := plain_of_digits numeral
  have two := (@split_count behind str _ _ words plain findable.unequal).mpr
    findable.newline
  refine ⟨name, two, ?_, found, split_value words plain findable⟩
  rw [split_key two, words, pieces_pair findable]
  rfl

theorem Numeral.of_piece (numeral : Numeral literal)
    (first : (pieces (delimits behind) literal)[0]? = some piece) :
    Numeral piece ∧ textOf piece = piece ∧
      numeralValue piece ≤ numeralValue literal := by
  have member := List.mem_of_getElem? first
  obtain ⟨nonempty, -, inside⟩ := mem_pieces member
  have digits : Numeral piece :=
    ⟨nonempty, fun char here => numeral.digits char (inside here)⟩
  exact ⟨digits, textOf_eq_self digits.zero_notMem,
    numeralValue_le_of_infix (infix_of_mem_pieces member)⟩

/-- A pair for an integer writes what `atoi` reads, if there is something to
read. -/
theorem PairFor.step (pairFor : PairFor behind template position literal str)
    (numeral : Numeral literal)
    (int : (template.map (·.type))[position]? = some INT) :
    pairStep strtod behind template str =
      match (pieces (delimits behind) literal)[0]? with
      | none => .crash .outOfBounds
      | some piece => .write position (.number (atoiDigits piece)) := by
  obtain ⟨name, two, key, found, value⟩ := pairFor.parts numeral
  have text : updateText strtod (split behind str 61).2 INT =
      match (pieces (delimits behind) literal)[0]? with
      | none => .error .outOfBounds
      | some piece => .ok (some (.number (atoiDigits piece))) := by
    unfold updateText
    rw [value, if_neg (by decide), if_neg (by decide)]
    cases first : (pieces (delimits behind) literal)[0]? with
    | none => rfl
    | some piece =>
        obtain ⟨digits, whole, -⟩ := numeral.of_piece first
        dsimp only
        rw [if_neg (by decide), if_neg (by decide),
          if_pos (isNumeric_of_digits whole digits.digits)]
        rfl
  unfold pairStep
  dsimp only
  rw [if_neg (not_not_intro two), key]
  dsimp only
  rw [found]
  dsimp only
  rw [int]
  dsimp only
  rw [text]
  cases (pieces (delimits behind) literal)[0]? <;> rfl

/-- A pair that writes into a field is taken for one of it. -/
theorem names_of_pairStep {source : ValueSource}
    (writes : pairStep strtod behind template str = .write position source) :
    Names behind template position str := by
  unfold pairStep at writes
  dsimp only at writes
  split_ifs at writes
  cases named : (split behind str 61).2[0]? with
  | none =>
      rw [named] at writes
      cases writes
  | some key =>
      rw [named] at writes
      dsimp only at writes
      cases found : findAttr key template with
      | none =>
          rw [found] at writes
          cases writes
      | some pPos =>
          rw [found] at writes
          dsimp only at writes
          refine ⟨key, named, ?_⟩
          split at writes
          · cases writes
          · split at writes <;> cases writes
            exact found

/-- A pair for an integer stores what `strtol` reads. -/
theorem PairFor.stores {place : UInt64} {write : Nat × Slot}
    (pairFor : PairFor behind template position literal str)
    (numeral : Numeral literal)
    (typed : (template.map (·.type))[position]? = some INT)
    (stores : Stores strtod behind template place str write) :
    write.1 = position ∧ ∃ piece,
      (pieces (delimits behind) literal)[0]? = some piece ∧
        write.2 = numberSlot (.ofNat (strtolDigits piece)) := by
  obtain ⟨name, two, key, found, value⟩ := pairFor.parts numeral
  obtain ⟨name', key', found'⟩ := stores.key
  rw [key] at key'
  cases key'
  rw [found] at found'
  have same := Option.some.inj found'
  refine ⟨same.symm, ?_⟩
  have stored := stores.value
  rw [← same, typed] at stored
  cases first : (pieces (delimits behind) literal)[0]? with
  | none =>
      rw [first] at value
      unfold insertText at stored
      rw [value] at stored
      cases stored
  | some piece =>
      rw [first] at value
      obtain ⟨digits, whole, -⟩ := numeral.of_piece first
      rw [insertText_int value,
        if_pos (isNumeric_of_digits whole digits.digits)] at stored
      exact ⟨piece, rfl, (Option.some.inj (Option.some.inj
        (Except.ok.inj stored))).symm⟩

/-- A call that hands something over has a numeric id. -/
theorem numeric_of_handsOver {address : Nat → UInt64} {idStr : CharPtr}
    {pairs : List CharPtr} {fields : List Slot} {parent : UInt64}
    {world : World}
    (hands : HandsOver (fun add => storageInsertNodeWith add strtod behind
      address idStr pairs template) .success fields parent world) :
    isNumeric idStr = true := by
  by_contra letters
  have refuses := hands fun _ _ => return .success
  unfold storageInsertNodeWith at refuses
  simp only [letters] at refuses
  cases refuses

/-- The value that is handed over for the literal. -/
theorem SetsTo.field {address : Nat → UInt64} {idStr : CharPtr}
    {pairs : List CharPtr} {fields : List Slot} {parent : UInt64}
    {world : World} (sets : SetsTo behind template position literal pairs)
    (numeral : Numeral literal) (typed : Typed template)
    (int : (template.map (·.type))[position]? = some INT)
    (count : pairs.length = template.length)
    (hands : HandsOver (fun add => storageInsertNodeWith add strtod behind
      address idStr pairs template) .success fields parent world) :
    ∃ piece, (pieces (delimits behind) literal)[0]? = some piece ∧
      fields[position]? =
        some (numberSlot (.ofNat (strtolDigits piece))) := by
  obtain ⟨parsed, -⟩ :=
    (handsOver_text_iff (numeric_of_handsOver hands)).mp hands
  obtain ⟨writes, all, loops⟩ := insertPairs_assigns typed parsed count
  rw [loops] at parsed
  cases parsed
  obtain ⟨front, str, back, rfl, pairFor, last⟩ := sets
  obtain ⟨front', write, back', rfl, -, ⟨place, stores⟩, rest⟩ :=
    exists_parts_of_forall₂ all
  obtain ⟨there, piece, first, value⟩ := pairFor.stores numeral int stores
  refine ⟨piece, first, ?_⟩
  obtain ⟨here, slot⟩ := write
  obtain rfl : here = position := there
  obtain rfl : slot = _ := value
  apply assign_append_cons
  · intro later
    obtain ⟨other, member, same⟩ := List.mem_map.mp later
    obtain ⟨str', inside, place', stores'⟩ :=
      exists_left_of_forall₂ rest member
    obtain ⟨key, named, found⟩ := stores'.key
    rw [same] at found
    exact last str' inside ⟨key, named, found⟩
  · rw [memorySlots_length]
    simpa using (List.getElem?_eq_some_iff.mp int).1

end Texts

/-- The text add command keeps the literal. -/
def AddKeeps (behind : CharPtr) (literal : List UInt8) : Prop :=
  ∀ strtod address idStr pairs template position fields parent world schema,
    Addition (fun add => storageInsertNodeWith add strtod behind address idStr
      pairs template) .success fields parent template world schema →
    (template.map (·.type))[position]? = some INT →
    pairs.length = template.length →
    SetsTo behind template position literal pairs →
    wp (storageInsertNode strtod behind address idStr pairs template)
      (fun code final => code = .success ∧ HoldsNumber final.file
        schema.treeMeta.curId position (numeralValue literal)) world

/-- The text update command keeps the literal. -/
def UpdateKeeps (behind : CharPtr) (literal : List UInt8) : Prop :=
  ∀ strtod idStr pairs template position world fuel stack schema offset,
    Sound world.file → Serves world.file schema template →
    isNumeric idStr = true → LiveAt schema (atoiDigits idStr) offset →
    (template.map (·.type))[position]? = some INT →
    WritesNumbers (pairs.map (pairStep strtod behind template)) →
    SetsTo behind template position literal pairs →
    wp (storageUpdateNode strtod behind fuel stack idStr pairs template)
      (fun code final => code = .success ∧ HoldsNumber final.file
        (atoiDigits idStr) position (numeralValue literal)) world

/-- The setting `kv` of a message is this literal: the message has the settings
in the opposite order. -/
def SentAs (literal : List UInt8) (settings : List (CharPtr × Client.Value))
    (sent front : List KeyValuePair) (kv : KeyValuePair)
    (back : List KeyValuePair) : Prop :=
  ∃ before key yytext after, settings = before ++ (key, .int yytext) :: after ∧
    textOf yytext = literal ∧ sent = front ++ kv :: back ∧
    front.length = after.length

section Messages

variable {literal : List UInt8} {yytext key : CharPtr} {kv : KeyValuePair}

theorem vint_toNat (text : textOf yytext = literal) (numeral : Numeral literal) :
    (Client.vint yytext).toNat = atoiDigits yytext := by
  have unsigned : Client.atoi yytext = .ofNat (strtolDigits yytext) := by
    unfold Client.atoi
    split
    · rename_i digits minus
      have digit := numeral.digits 45 (by
        rw [← text, minus]
        exact List.mem_cons_self ..)
      exact absurd digit.1 (by decide)
    · rfl
  rw [Client.vint, unsigned, atoiDigits]

/-- An integer in a message is what the lexer has read. -/
theorem parse_int {pair : Client.KeyValuePair}
    (number : pair.valueType = 1) (parsed : pair.parse = some kv) :
    textOf kv.key = textOf pair.key ∧ kv.valueType = 1 ∧
      kv.valueInt.toUInt64 = pair.valueInt.word := by
  unfold Client.KeyValuePair.parse at parsed
  rw [number, if_neg (by decide)] at parsed
  obtain ⟨_, -, parsed⟩ := Option.bind_eq_some_iff.mp parsed
  obtain ⟨copy, copied, parsed⟩ := Option.bind_eq_some_iff.mp parsed
  cases parsed
  refine ⟨?_, rfl, UInt64.toUInt64_toInt64 _⟩
  unfold Client.strcpy at copied
  split_ifs at copied
  cases copied
  exact textOf_append_zero (zero_notMem_textOf _) []

/-- The value that a message has for a literal. -/
theorem SentAs.value {mongosh : Client.Mongosh} {query : Query}
    {front back : List KeyValuePair}
    (sentAs : SentAs literal mongosh.settings query.settingsList front kv back)
    (numeral : Numeral literal) (sends : mongosh.Sends query)
    (some_filter : mongosh.filters ≠ []) :
    kv.valueType = 1 ∧ ∃ yytext, textOf yytext = literal ∧
      kv.valueInt.toUInt64.toNat = atoiDigits yytext := by
  obtain ⟨before, key, yytext, after, settings, text, list, same⟩ := sentAs
  obtain ⟨-, -, all⟩ := sends.eq some_filter
  rw [Client.Mongosh.pairs, settings, List.map_append, List.map_cons,
    List.reverse_append, List.reverse_cons, List.append_assoc,
    List.singleton_append] at all
  obtain ⟨front', kv', back', parts, before', parsed, -⟩ :=
    exists_parts_of_forall₂ all
  have equal := list.symm.trans parts
  obtain ⟨-, rest⟩ := List.append_inj equal (by
    rw [same, ← before'.length_eq, List.length_reverse, List.length_map])
  obtain ⟨rfl, -⟩ := List.cons.inj rest
  obtain ⟨-, type, value⟩ := parse_int rfl parsed
  refine ⟨type, yytext, text, ?_⟩
  rw [value, ← vint_toNat text numeral]
  rfl

/-- A comparator of a filter without `or` is sent. -/
theorem exists_comparator {mongosh : Client.Mongosh} {query : Query}
    {filter : Client.Filter} (sends : mongosh.Sends query)
    (member : filter ∈ mongosh.filters) :
    ∃ sentFilter ∈ query.filtersList, ∃ comparator ∈ sentFilter.compList,
      filter.top.toComparator.parse = some comparator := by
  obtain ⟨-, all, -⟩ := sends.eq (List.ne_nil_of_mem member)
  obtain ⟨before, after, parts⟩ := List.append_of_mem member
  rw [parts, List.map_append, List.map_cons] at all
  obtain ⟨front, sentFilter, back, list, -, parsed, -⟩ :=
    exists_parts_of_forall₂ all
  have comparators := Client.parseFilter_eq_some parsed
  rw [Client.Filter.compList, List.forall₂_cons_left_iff] at comparators
  obtain ⟨comparator, rest, made, -, whole⟩ := comparators
  refine ⟨sentFilter, ?_, comparator, ?_, made⟩
  · rw [list]
    exact List.mem_append_right _ (List.mem_cons_self ..)
  · rw [whole]
    exact List.mem_cons_self ..

end Messages

/-- An inserting query keeps the literal. -/
def InsertQueryKeeps (literal : List UInt8) : Prop :=
  ∀ parentLiteral settings query address parent template position fields world
      schema front kv back,
    (Client.Mongosh.insert parentLiteral settings).Sends query →
    SentAs literal settings query.settingsList front kv back →
    findAttr kv.key template = some position →
    (∀ other ∈ back, findAttr other.key template ≠ some position) →
    Addition (fun add => storageInsertNodeNewWith add address
      query.settingsList parent template) .ok fields parent template world
      schema →
    (template.map (·.type))[position]? = some INT →
    wp (storageInsertNodeNew address query.settingsList parent template)
      (fun code final => code = .ok ∧ HoldsNumber final.file
        schema.treeMeta.curId position (numeralValue literal)) world

/-- An updating query keeps the literal, in the field that its setting is
written to. -/
def UpdateQueryKeeps (literal : List UInt8) : Prop :=
  ∀ filters settings query template position world fuel stack id schema offset
      front kv back source,
    filters ≠ [] → (Client.Mongosh.update filters settings).Sends query →
    SentAs literal settings query.settingsList front kv back →
    settingStep template kv = .write position source →
    (∀ other ∈ back, ∀ source,
      settingStep template other ≠ .write position source) →
    WritesNumbers (query.settingsList.map (settingStep template)) →
    Sound world.file → Serves world.file schema template →
    LiveAt schema id offset →
    (template.map (·.type))[position]? = some INT →
    wp (storageUpdateNodeNew fuel stack id query.settingsList template)
      (fun code final => code = 0 ∧ HoldsNumber final.file id position
        (numeralValue literal)) world

/-- The comparators of a query keep the literal. -/
def ComparatorKeeps (literal : List UInt8) : Prop :=
  ∀ (mongosh : Client.Mongosh) (query : Query) (filter : Client.Filter)
      (key yytext : CharPtr),
    mongosh.Sends query → filter ∈ mongosh.filters →
    (filter = .value key (.int yytext) ∨
      ∃ comp, filter = .operation key comp (.int yytext)) →
    textOf yytext = literal →
    ∃ sentFilter ∈ query.filtersList, ∃ comparator ∈ sentFilter.compList,
      textOf comparator.kv.key = textOf key ∧ comparator.kv.valueType = 1 ∧
        comparator.kv.valueInt.toUInt64.toNat = numeralValue literal

/-- A search for the literal prints the ids of the live nodes that have its
value in the field. -/
def SearchKeeps (literal : List UInt8) : Prop :=
  ∀ strtod command parameter name operand template position world fuel schema,
    Searchable world.file schema →
    schema.types = template.map (·.type) →
    SameText parameter fieldText →
    lastAttr name template = some position →
    (template.map (·.type))[position]? = some INT →
    textOf operand = literal → world.file.length ≤ fuel →
    wp (storageRetriveNode strtod fuel [command, parameter, name, operand]
        template 4) (fun output final => final.file = world.file ∧
      ∃ found, Lists world.file schema
        (fun _ record => record.word position = numeralValue literal) found ∧
        output = ⟨foundLines found, none⟩) world

/-- An integer literal keeps its value on every path. -/
structure KeepsValue (behind : CharPtr) (literal : List UInt8) : Prop where
  added : AddKeeps behind literal
  updated : UpdateKeeps behind literal
  inserted : InsertQueryKeeps literal
  changed : UpdateQueryKeeps literal
  compared : ComparatorKeeps literal
  searched : SearchKeeps literal

section Kept

variable {behind : CharPtr} {literal : List UInt8}

theorem addKeeps (numeral : Numeral literal)
    (fits : numeralValue literal < 2 ^ 63)
    (undisturbed : Undisturbed behind literal) : AddKeeps behind literal := by
  intro strtod address idStr pairs template position fields parent world schema
    addition int count sets
  obtain ⟨piece, first, given⟩ :=
    sets.field numeral addition.typed int count addition.hands
  obtain ⟨digits, whole, -⟩ := numeral.of_piece first
  have same := undisturbed piece first
  have word : (UInt64.ofNat (strtolDigits piece)).toNat =
      numeralValue literal := by
    rw [strtolDigits_numeral whole digits (by omega),
      UInt64.toNat_ofNat_of_lt' (by rw [UInt64.size]; omega), same]
  rw [← word]
  exact addition.wp int given

/-- The number that an update leaves for the literal. -/
theorem SetsTo.wp_update {strtod : CharPtr → UInt64} {idStr : CharPtr}
    {pairs : List CharPtr} {template : List NodeAttributeInfo}
    {position : Nat} {world : World} {fuel stack : Nat} {schema : TreeSchema}
    {offset : Nat} (sets : SetsTo behind template position literal pairs)
    (numeral : Numeral literal) (sound : Sound world.file)
    (serves : Serves world.file schema template)
    (numeric : isNumeric idStr = true)
    (liveAt : LiveAt schema (atoiDigits idStr) offset)
    (int : (template.map (·.type))[position]? = some INT)
    (numbers : WritesNumbers (pairs.map (pairStep strtod behind template))) :
    ∃ piece, (pieces (delimits behind) literal)[0]? = some piece ∧
      wp (storageUpdateNode strtod behind fuel stack idStr pairs template)
        (fun code final => code = .success ∧ HoldsNumber final.file
          (atoiDigits idStr) position (atoiDigits piece)) world := by
  obtain ⟨front, str, back, rfl, pairFor, last⟩ := sets
  have step := @PairFor.step strtod _ _ _ _ _ pairFor numeral int
  cases first : (pieces (delimits behind) literal)[0]? with
  | none =>
      rw [first] at step
      obtain ⟨_, _, writes⟩ := numbers (pairStep strtod behind template str)
        (List.mem_map_of_mem (List.mem_append_right _ (List.mem_cons_self ..)))
      rw [step] at writes
      cases writes
  | some piece =>
      rw [first] at step
      refine ⟨piece, rfl, ?_⟩
      rw [storageUpdateNode_eq numeric, wp_map]
      apply wp_mono (serves.wp_runUpdate sound liveAt ?_ numbers ?_ ?_)
      · rintro result final ⟨rfl, holds⟩
        exact ⟨rfl, holds⟩
      · exact front.map (pairStep strtod behind template)
      · exact back.map (pairStep strtod behind template)
      · intro step member
        obtain ⟨other, -, rfl⟩ := List.mem_map.mp member
        exact pairStep_fits other
      · rw [List.map_append, List.map_cons, step]
      · intro step member source writes
        obtain ⟨other, inside, rfl⟩ := List.mem_map.mp member
        exact last other inside (names_of_pairStep writes)

theorem updateKeeps (numeral : Numeral literal)
    (small : numeralValue literal < 2 ^ 31)
    (undisturbed : Undisturbed behind literal) :
    UpdateKeeps behind literal := by
  intro strtod idStr pairs template position world fuel stack schema offset
    sound serves numeric liveAt int numbers sets
  obtain ⟨piece, first, updates⟩ := sets.wp_update numeral sound serves numeric
    liveAt int numbers
  obtain ⟨digits, whole, -⟩ := numeral.of_piece first
  have same := undisturbed piece first
  rw [(atoiDigits_eq_iff whole digits (by omega)).mpr (by omega), same]
    at updates
  exact updates

/-- The field that is handed over for a setting. -/
theorem exists_setting {address : Nat → UInt64}
    {settings front back : List KeyValuePair} {kv : KeyValuePair}
    {template : List NodeAttributeInfo} {memory fields : List Slot}
    {position : Nat} (typed : Typed template)
    (loop : insertLoop address template 0 settings none memory = .ok fields)
    (list : settings = front ++ kv :: back)
    (named : findAttr kv.key template = some position)
    (last : ∀ other ∈ back, findAttr other.key template ≠ some position)
    (sized : memory.length = template.length) : ∃ place slot,
      insertValue place kv (template.map (·.type))[position]? =
        .ok (some slot) ∧ fields[position]? = some slot := by
  have passes : ∀ kv ∈ settings, Passes template kv := by
    by_contra refused
    obtain ⟨code, fails, -⟩ := @insertLoop_refused _ _ address typed refused 0
      memory
    rw [fails] at loop
    cases loop
  obtain ⟨writes, assigned, loops⟩ :=
    insertLoop_passes address typed passes 0
  rw [loops] at loop
  cases loop
  subst list
  obtain ⟨front', ⟨here, slot⟩, back', rfl, -, one, rest⟩ :=
    exists_parts_of_forall₂ assigned
  have same := one.place
  rw [named] at same
  obtain rfl : position = here := Option.some.inj same
  obtain ⟨place, value⟩ := one.value
  refine ⟨place, slot, value, ?_⟩
  apply assign_append_cons
  · intro later
    obtain ⟨other, member, equal⟩ := List.mem_map.mp later
    obtain ⟨kv', inside, stores⟩ := exists_left_of_forall₂ rest member
    have found := stores.place
    rw [equal] at found
    exact last kv' inside found
  · rw [sized]
    exact findAttr_lt named

/-- A setting of an integer writes its number. -/
theorem settingStep_int {template : List NodeAttributeInfo}
    {kv : KeyValuePair} {position : Nat} {source : ValueSource}
    (writes : settingStep template kv = .write position source)
    (int : (template.map (·.type))[position]? = some INT) :
    source = .number kv.valueInt.toUInt64.toNat := by
  unfold settingStep at writes
  dsimp only at writes
  split_ifs at writes
  split at writes
  · cases writes
  · rename_i type typed
    split at writes
    · cases writes
    · rename_i source' valued
      cases writes
      rw [int] at typed
      cases typed
      unfold updateValue at valued
      rw [if_neg (by decide), if_neg (by decide), if_pos rfl] at valued
      split_ifs at valued
      exact (Option.some.inj valued).symm

theorem insertQueryKeeps (numeral : Numeral literal)
    (small : numeralValue literal < 2 ^ 31) : InsertQueryKeeps literal := by
  intro parentLiteral settings query address parent template position fields
    world schema front kv back sends sentAs named last addition int
  obtain ⟨type, yytext, text, value⟩ :=
    SentAs.value sentAs numeral sends (List.cons_ne_nil _ _)
  rw [(atoiDigits_eq_iff text numeral (by omega)).mpr small] at value
  obtain ⟨_, _, _, _, -, -, list, -⟩ := sentAs
  obtain ⟨loop, -⟩ := handsOver_settings_iff.mp addition.hands
  obtain ⟨place, slot, stored, here⟩ := exists_setting addition.typed loop list
    named last (memorySlots_length _ _)
  have number : slot = numberSlot kv.valueInt.toUInt64 := by
    rw [int] at stored
    unfold insertValue at stored
    rw [if_neg (by decide), if_neg (by decide), if_pos rfl,
      if_neg (not_not_intro type)] at stored
    exact (Option.some.inj (Except.ok.inj stored)).symm
  rw [number] at here
  rw [← value]
  exact addition.wp int here

theorem updateQueryKeeps (numeral : Numeral literal)
    (small : numeralValue literal < 2 ^ 31) : UpdateQueryKeeps literal := by
  intro filters settings query template position world fuel stack id schema
    offset front kv back source some_filter sends sentAs writes last numbers
    sound serves liveAt int
  obtain ⟨-, yytext, text, value⟩ :=
    SentAs.value sentAs numeral sends some_filter
  rw [(atoiDigits_eq_iff text numeral (by omega)).mpr small] at value
  obtain ⟨_, _, _, _, -, -, list, -⟩ := sentAs
  obtain rfl := settingStep_int writes int
  rw [value] at writes
  rw [storageUpdateNodeNew_eq, wp_map]
  apply wp_mono (serves.wp_runUpdate sound liveAt ?_ numbers ?_ ?_)
  · rintro result final ⟨rfl, holds⟩
    exact ⟨rfl, holds⟩
  · exact front.map (settingStep template)
  · exact back.map (settingStep template)
  · intro step member
    obtain ⟨other, -, rfl⟩ := List.mem_map.mp member
    exact settingStep_fits other
  · rw [list, List.map_append, List.map_cons, writes]
  · intro step member source
    obtain ⟨other, inside, rfl⟩ := List.mem_map.mp member
    exact last other inside source

theorem comparatorKeeps (numeral : Numeral literal)
    (small : numeralValue literal < 2 ^ 31) : ComparatorKeeps literal := by
  intro mongosh query filter key yytext sends member plain text
  obtain ⟨sentFilter, there, comparator, here, made⟩ :=
    exists_comparator sends member
  refine ⟨sentFilter, there, comparator, here, ?_⟩
  obtain ⟨kv, parsed, made⟩ := Option.bind_eq_some_iff.mp made
  cases made
  have pair : filter.top.kv =
      ⟨key, 1, numberSlot (Client.vint yytext), 0⟩ := by
    rcases plain with rfl | ⟨comp, rfl⟩
    · rfl
    · rfl
  rw [pair] at parsed
  obtain ⟨name, type, value⟩ := parse_int rfl parsed
  refine ⟨name, type, ?_⟩
  rw [← (atoiDigits_eq_iff text numeral (by omega)).mpr small,
    ← vint_toNat text numeral]
  exact congrArg UInt64.toNat value

/-- How the command searches for a field. -/
theorem storageRetriveNode_field {strtod : CharPtr → UInt64} {fuel : Nat}
    {command parameter name operand condition : CharPtr}
    {template : List NodeAttributeInfo} {position type : Nat}
    (field : SameText parameter fieldText)
    (named : lastAttr name template = some position)
    (typed : (template.map (·.type))[position]? = some type)
    (given : fieldCondition strtod operand type = .ok condition) :
    storageRetriveNode strtod fuel [command, parameter, name, operand] template
        4 = (do
      let found ← findByField fuel position condition
      return ⟨foundLines found, none⟩ : Prog Output) := by
  have noParent : ¬ SameText parameter parentText := by
    rw [SameText, field]
    decide
  have noId : ¬ SameText parameter idText := by
    rw [SameText, field]
    decide
  have lines (found : List ResultSetNode) :
      resultLines parameter found = foundLines found := by
    unfold resultLines foundLines
    by_cases none : found = []
    · rw [if_neg (not_not_intro none), if_pos noId, if_pos none]
    · rw [if_pos none, if_neg none]
  unfold storageRetriveNode
  rw [index_of_some (show [command, parameter, name, operand][1]? =
      some parameter from rfl), pure_bind, if_neg noParent, if_pos field,
    if_pos rfl, index_of_some (show [command, parameter, name, operand][2]? =
      some name from rfl), pure_bind, named]
  dsimp only
  rw [index_of_some typed, pure_bind, index_of_some (show
    [command, parameter, name, operand][3]? = some operand from rfl),
    pure_bind, given]
  simp only [lines, List.nil_append]

theorem searchKeeps (numeral : Numeral literal)
    (small : numeralValue literal < 2 ^ 31) : SearchKeeps literal := by
  intro strtod command parameter name operand template position world fuel
    schema store types field named int text enough
  have given : fieldCondition strtod operand INT =
      .ok (leBytes 8 (numeralValue literal)) := by
    unfold fieldCondition
    rw [if_pos rfl, if_pos (isNumeric_of_digits text numeral.digits),
      (atoiDigits_eq_iff text numeral (by omega)).mpr small]
  rw [storageRetriveNode_field field named int given]
  apply wp_bind_of (store.wp_findByField (store.stringsAt position)
    (by rw [types]; exact int)
    (by rw [Condition, if_neg (by decide), leBytes_length]) enough)
  rintro found final ⟨same, lists⟩
  rw [wp_pure]
  refine ⟨same, found, lists.congr ?_, rfl⟩
  intro id offset record _ _
  rw [FieldIs, if_neg (by decide), List.take_of_length_le (by simp),
    leValue_leBytes (by omega)]

/-- A comparator shows what `atoi` reads. -/
theorem ComparatorKeeps.small (keeps : ComparatorKeeps literal)
    (numeral : Numeral literal) (fits : numeralValue literal < 2 ^ 63) :
    numeralValue literal < 2 ^ 31 := by
  have text : textOf literal = literal := textOf_eq_self numeral.zero_notMem
  have sent : (Client.Mongosh.receive
      [.value [110, 0] (.int literal)]).Sends ⟨0,
        [⟨[⟨0, [110, 0], 1, (Client.vint literal).toInt64, 0, [0]⟩],
          by simp⟩], [], by simp, by simp⟩ :=
    ⟨.start, ⟨rfl, rfl⟩, rfl⟩
  obtain ⟨filter, member, comparator, inside, -, -, value⟩ :=
    keeps _ _ _ _ _ sent (List.mem_singleton_self _) (Or.inl rfl) text
  obtain rfl := List.mem_singleton.mp member
  obtain rfl := List.mem_singleton.mp inside
  rw [← atoiDigits_eq_iff text numeral fits, ← value,
    ← vint_toNat text numeral]
  rfl

/-- An update shows what `atoi` reads of the first piece. -/
theorem UpdateKeeps.undisturbed (keeps : UpdateKeeps behind literal)
    (numeral : Numeral literal) (small : numeralValue literal < 2 ^ 31) :
    Undisturbed behind literal := by
  intro piece first
  obtain ⟨sound, stored, live, -, template⟩ := oneSeven_stored
  generalize oneSeven = file at sound stored live template
  obtain ⟨nonempty, whole, inside⟩ :=
    mem_pieces (List.mem_of_getElem? first)
  obtain ⟨char, rest, rfl⟩ := List.exists_cons_of_ne_nil nonempty
  have digit := numeral.digits char (inside (List.mem_cons_self ..))
  have visible : char ≠ 0 := fun zero => absurd (zero ▸ digit.1) (by decide)
  -- a digit that does not delimit serves as the name of the attribute
  have pairFor : PairFor behind [⟨4, INT, [char, 0]⟩] 0 literal
      (char :: 61 :: literal) := by
    refine ⟨[char], ⟨List.cons_ne_nil _ _, ?_, ?_⟩, ?_, ?_⟩
    · intro newline
      obtain rfl := List.mem_singleton.mp newline
      exact absurd digit.1 (by decide)
    · intro other member
      obtain rfl := List.mem_singleton.mp member
      exact whole other (List.mem_cons_self ..)
    · simp [findAttr, textOf, visible]
    · apply textOf_eq_self
      simp [visible.symm, numeral.zero_notMem]
  have numbers : WritesNumbers ([char :: 61 :: literal].map
      (pairStep (fun _ => 0) behind [⟨4, INT, [char, 0]⟩])) := by
    intro step member
    obtain rfl := List.mem_singleton.mp member
    rw [pairFor.step numeral rfl, first]
    exact ⟨0, _, rfl⟩
  have serves : Serves file (schemaOf file) [⟨4, INT, [char, 0]⟩] := by
    refine ⟨stored, ?_⟩
    rw [TreeSchema.types, template]
    rfl
  have zero : atoiDigits [48, 0] = 0 := by decide
  rw [← zero] at live
  have sets : SetsTo behind [⟨4, INT, [char, 0]⟩] 0 literal
      [char :: 61 :: literal] :=
    ⟨[], _, [], rfl, pairFor, by simp⟩
  obtain ⟨piece, first', actual⟩ := @SetsTo.wp_update _ _ (fun _ => 0) [48, 0]
    _ _ _ (blankWorld file) 0 0 _ _ sets numeral sound serves (by decide) live
    rfl numbers
  have expected := keeps (fun _ => 0) [48, 0] _ _ 0 (blankWorld file) 0 0 _ _
    sound serves (by decide) live rfl numbers sets
  obtain ⟨_, _, -, ⟨-, holds⟩, -, holds'⟩ := wp_and actual expected
  have equal := holds.unique holds'
  obtain rfl := Option.some.inj (first.symm.trans first')
  obtain ⟨digits, text, least⟩ := numeral.of_piece first
  rw [← equal]
  exact ((atoiDigits_eq_iff text digits (by omega)).mpr (by omega)).symm

end Kept

/-- A literal keeps its value on every path exactly if `int` has it, and what
`strtok` leaves of it has the same value. -/
theorem literal_kept_iff {behind : CharPtr} {literal : List UInt8}
    (numeral : Numeral literal) (fits : numeralValue literal < 2 ^ 63) :
    KeepsValue behind literal ↔
      numeralValue literal < 2 ^ 31 ∧ Undisturbed behind literal := by
  constructor
  · intro keeps
    have small := keeps.compared.small numeral fits
    exact ⟨small, keeps.updated.undisturbed numeral small⟩
  · rintro ⟨small, undisturbed⟩
    exact ⟨addKeeps numeral fits undisturbed,
      updateKeeps numeral small undisturbed, insertQueryKeeps numeral small,
      updateQueryKeeps numeral small, comparatorKeeps numeral small,
      searchKeeps numeral small⟩

/-- With a terminator behind the delimiter nothing is cut. -/
theorem undisturbed_of_clean {behind : CharPtr} {literal : List UInt8}
    (clean : textOf behind = []) (numeral : Numeral literal) :
    Undisturbed behind literal := by
  intro piece first
  have whole : pieces (delimits behind) literal = [literal] := by
    apply pieces_eq_singleton numeral.nonempty
    intro char member
    rw [delimits, clean]
    apply decide_eq_false
    intro equals
    obtain rfl := List.mem_singleton.mp equals
    exact absurd (numeral.digits 61 member).2 (by decide)
  rw [whole] at first
  cases first
  rfl

/-- The literal 7 is kept. -/
theorem literal_kept_iff_seven : KeepsValue [0] [55] := by
  have numeral : Numeral [55] := by decide
  apply (literal_kept_iff numeral (by decide)).mpr
  exact ⟨by decide, undisturbed_of_clean (by decide) numeral⟩

/-- The literal 2147483648 is not. -/
theorem not_always_kept :
    ¬ ∀ literal, Numeral literal → numeralValue literal < 2 ^ 63 →
      KeepsValue [0] literal := by
  intro always
  have numeral : Numeral [50, 49, 52, 55, 52, 56, 51, 54, 52, 56] := by decide
  have small := (always _ numeral (by decide)).compared.small numeral
    (by decide)
  exact absurd small (by decide)

end TreeStore
