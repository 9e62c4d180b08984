import TreeStore.StorageQueries
import TreeStore.Searching

/-!
# What a comparator compares

The test of `storageFindNodeByFilters` compares the stored word with `valueInt`
as unsigned numbers, whatever the type of the field, and takes operations that
it does not know for satisfied.
-/

namespace TreeStore

open ByteFile ProgramLogic

/-- The operations of a query: whether one is satisfied by two values that
compare in this way.  Values without an order are only different. -/
def Asks (operation : Int32) (outcome : Option Ordering) : Prop :=
  operation = 0 ∧ outcome = some .eq ∨
  operation = 1 ∧ outcome = some .lt ∨
  operation = 2 ∧ (outcome = some .lt ∨ outcome = some .eq) ∨
  operation = 3 ∧ outcome = some .gt ∨
  operation = 4 ∧ (outcome = some .gt ∨ outcome = some .eq) ∨
  operation = 5 ∧ outcome ≠ some .eq

instance (operation : Int32) (outcome : Option Ordering) :
    Decidable (Asks operation outcome) := by
  unfold Asks
  infer_instance

/-- The bit pattern is that of no number. -/
def NotANumber (bits : UInt64) : Prop := 2047 * 2 ^ 52 < bits.toNat % 2 ^ 63

instance (bits : UInt64) : Decidable (NotANumber bits) :=
  inferInstanceAs (Decidable (_ < _))

/-- The place of a `double` in the order of the numbers; both zeros have the
same one. -/
def doubleRank (bits : UInt64) : Int :=
  if bits.toNat < 2 ^ 63 then bits.toNat else 2 ^ 63 - (bits.toNat : Int)

/-- The order of two `double`s. -/
def compareDoubles (first second : UInt64) : Option Ordering :=
  if NotANumber first ∨ NotANumber second then none
  else some (compare (doubleRank first) (doubleRank second))

example : compareDoubles (doubleBits 0x80000000) (doubleBits 0) = some .eq := by
  decide

/-- The order of two words as unsigned numbers. -/
def compareWords (first second : UInt64) : Option Ordering :=
  some (compare first.toNat second.toNat)

/-- The order of two words as signed numbers. -/
def compareSigned (first : UInt64) (second : Int64) : Option Ordering :=
  some (compare first.toInt64.toInt second.toInt)

/-- What a comparator on a field that holds `word` asks for; only equality is
asked of a BOOL field. -/
def WordAsked (type : Nat) (word : UInt64) (comparator : Comparator) : Prop :=
  if type = INT then
    Asks comparator.operation (compareSigned word comparator.kv.valueInt)
  else if type = FLOAT then
    Asks comparator.operation
      (compareDoubles word (doubleBits comparator.kv.valueReal))
  else
    (comparator.operation = 0 ∨ comparator.operation = 5) ∧
      Asks comparator.operation
        (compareWords word comparator.kv.valueInt.toUInt64)

instance (type : Nat) (word : UInt64) (comparator : Comparator) :
    Decidable (WordAsked type word comparator) := by
  unfold WordAsked
  infer_instance

/-- What a comparator on a STRING field asks for. -/
def TextAsked (text : List UInt8) (comparator : Comparator) : Prop :=
  comparator.operation = 0 ∧ text = textOf comparator.kv.valueString ∨
    comparator.operation = 5 ∧ text ≠ textOf comparator.kv.valueString

instance (text : List UInt8) (comparator : Comparator) :
    Decidable (TextAsked text comparator) := by
  unfold TextAsked
  infer_instance

/-- What a comparator asks of a record. -/
def Asked (file : List UInt8) (schema : TreeSchema) (type position : Nat)
    (record : KeyNode) (comparator : Comparator) : Prop :=
  if type = STRING then
    ∃ chain, ForwardChain file schema (record.word position) chain ∧
      TextAsked (textOf (assemble schema.realSize chain)) comparator
  else WordAsked type (.ofNat (record.word position)) comparator

/-- What a comparator of the source counts as satisfied. -/
def Counted (file : List UInt8) (schema : TreeSchema) (type position : Nat)
    (record : KeyNode) (comparator : Comparator) : Prop :=
  if type = STRING then
    ∃ chain, ForwardChain file schema (record.word position) chain ∧
      (TextAsked (textOf (assemble schema.realSize chain)) comparator ∨
        ¬ (comparator.operation = 0 ∨ comparator.operation = 5))
  else
    wordPasses comparator.operation (.ofNat (record.word position))
      comparator.kv.valueInt = true

/-- When the test of a comparator is right: its operation is one of the six.
On a STRING field it is an equality; on a BOOL field it is an equality, or an
order in which the words do not stand; on an INT field it is an equality, or
the two numbers have the same sign; and on a FLOAT field the stored bits stand
to `valueInt` as the stored number stands to `valueReal`. -/
def TestRight (type : Nat) (word : UInt64) (comparator : Comparator) : Prop :=
  comparator.operation ∈ ([0, 1, 2, 3, 4, 5] : List Int32) ∧
    if type = STRING then
      comparator.operation = 0 ∨ comparator.operation = 5
    else if type = BOOL then
      comparator.operation = 0 ∨ comparator.operation = 5 ∨
        ¬ Asks comparator.operation
          (compareWords word comparator.kv.valueInt.toUInt64)
    else if type = INT then
      comparator.operation = 0 ∨ comparator.operation = 5 ∨
        (word.toNat < 2 ^ 63 ↔ 0 ≤ comparator.kv.valueInt.toInt)
    else
      Asks comparator.operation
          (compareWords word comparator.kv.valueInt.toUInt64) ↔
        Asks comparator.operation
          (compareDoubles word (doubleBits comparator.kv.valueReal))

section Words

variable {operation : Int32} {word : UInt64} {comparator : Comparator}

theorem wordPasses_iff (valueInt : Int64)
    (known : operation ∈ ([0, 1, 2, 3, 4, 5] : List Int32)) :
    wordPasses operation word valueInt = true ↔
      Asks operation (compareWords word valueInt.toUInt64) := by
  simp only [List.mem_cons, List.not_mem_nil, or_false] at known
  have less := @compare_lt_iff_lt _ _ word.toNat valueInt.toUInt64.toNat
  have same := @compare_eq_iff_eq _ _ word.toNat valueInt.toUInt64.toNat
  have more := @compare_gt_iff_gt _ _ word.toNat valueInt.toUInt64.toNat
  rcases known with rfl | rfl | rfl | rfl | rfl | rfl
  all_goals simp [wordPasses, Asks, compareWords, less, same, more,
    UInt64.lt_iff_toNat_lt, UInt64.le_iff_toNat_le, ← UInt64.toNat_inj]
  all_goals omega

theorem wordPasses_of_unknown (valueInt : Int64)
    (unknown : operation ∉ ([0, 1, 2, 3, 4, 5] : List Int32)) :
    wordPasses operation word valueInt = true := by
  simp only [List.mem_cons, List.not_mem_nil, or_false, not_or] at unknown
  simp [wordPasses, unknown]

theorem not_asks_of_unknown {outcome : Option Ordering}
    (unknown : operation ∉ ([0, 1, 2, 3, 4, 5] : List Int32)) :
    ¬ Asks operation outcome := by
  simp only [List.mem_cons, List.not_mem_nil, or_false, not_or] at unknown
  simp [Asks, unknown]

theorem toInt64_toInt (word : UInt64) :
    word.toInt64.toInt =
      if word.toNat < 2 ^ 63 then (word.toNat : Int)
      else (word.toNat : Int) - 2 ^ 64 := by
  have signed : word.toInt64.toInt = word.toBitVec.toInt := rfl
  rw [signed, BitVec.toInt_eq_toNat_cond]
  simp only [UInt64.toNat_toBitVec]
  split_ifs <;> omega

/-- Signed numbers are equal as unsigned ones are; they are ordered as unsigned
ones are when the signs agree. -/
theorem asks_signed_iff (valueInt : Int64)
    (known : operation ∈ ([0, 1, 2, 3, 4, 5] : List Int32)) :
    (Asks operation (compareWords word valueInt.toUInt64) ↔
      Asks operation (compareSigned word valueInt)) ↔
    operation = 0 ∨ operation = 5 ∨
      (word.toNat < 2 ^ 63 ↔ 0 ≤ valueInt.toInt) := by
  have stored := toInt64_toInt word
  have given : valueInt.toInt = _ := toInt64_toInt valueInt.toUInt64
  have storedSmall := word.toNat_lt
  have givenSmall := valueInt.toUInt64.toNat_lt
  have less := @compare_lt_iff_lt _ _ word.toNat valueInt.toUInt64.toNat
  have same := @compare_eq_iff_eq _ _ word.toNat valueInt.toUInt64.toNat
  have more := @compare_gt_iff_gt _ _ word.toNat valueInt.toUInt64.toNat
  have less' := @compare_lt_iff_lt _ _ word.toInt64.toInt valueInt.toInt
  have same' := @compare_eq_iff_eq _ _ word.toInt64.toInt valueInt.toInt
  have more' := @compare_gt_iff_gt _ _ word.toInt64.toInt valueInt.toInt
  simp only [List.mem_cons, List.not_mem_nil, or_false] at known
  rcases known with rfl | rfl | rfl | rfl | rfl | rfl
  all_goals simp [Asks, compareWords, compareSigned, less, same, more, less',
    same', more']
  all_goals split_ifs at stored given <;> omega

theorem wordPasses_right {type : Nat} (typed : type ∈ [INT, FLOAT, BOOL])
    (comparator : Comparator) :
    ((wordPasses comparator.operation word comparator.kv.valueInt = true ↔
        WordAsked type word comparator) ↔
      TestRight type word comparator) := by
  by_cases known :
      comparator.operation ∈ ([0, 1, 2, 3, 4, 5] : List Int32)
  · rw [wordPasses_iff _ known]
    simp only [List.mem_cons, List.not_mem_nil, or_false] at typed
    rcases typed with rfl | rfl | rfl
    · simp only [WordAsked, TestRight, known, true_and, if_true,
        show INT ≠ STRING by decide, show INT ≠ BOOL by decide, if_false]
      exact asks_signed_iff _ known
    · simp only [WordAsked, TestRight, known, true_and, if_true,
        show FLOAT ≠ INT by decide, show FLOAT ≠ STRING by decide,
        show FLOAT ≠ BOOL by decide, if_false]
    · simp only [WordAsked, TestRight, known, true_and, if_true,
        show BOOL ≠ INT by decide, show BOOL ≠ FLOAT by decide,
        show BOOL ≠ STRING by decide, if_false]
      rw [← or_assoc]
      by_cases equality : comparator.operation = 0 ∨ comparator.operation = 5
      · simp only [equality, true_and, true_or]
      · simp only [equality, false_and, iff_false, false_or]
  · have passes := @wordPasses_of_unknown _ word comparator.kv.valueInt known
    have refused : ¬ WordAsked type word comparator := by
      unfold WordAsked
      split_ifs
      · exact not_asks_of_unknown known
      · exact not_asks_of_unknown known
      · exact fun asked => not_asks_of_unknown known asked.2
    simp only [passes, refused, TestRight, known, false_and]
    simp

end Words

section Tests

variable {world : World} {schema : TreeSchema} {fuel : Nat}

/-- A comparison of terminated strings. -/
theorem stringPasses_eq {s : CharPtr} {comparator : Comparator}
    (ended : 0 ∈ s) (given : 0 ∈ comparator.kv.valueString) :
    stringPasses comparator.operation s comparator.kv.valueString =
      pure (decide (TextAsked (textOf s) comparator ∨
        ¬ (comparator.operation = 0 ∨ comparator.operation = 5))) := by
  rw [stringPasses, strcmpZero_eq ended given]
  by_cases equal : comparator.operation = 0
  · rw [if_pos equal]
    simp [equal, TextAsked]
  · rw [if_neg equal]
    by_cases different : comparator.operation = 5
    · simp [different, TextAsked]
    · simp [equal, different, TextAsked]

/-- The test of a comparator on a field of a record. -/
theorem wp_comparatorPasses {position type : Nat} {record node : KeyNode}
    {comparator : Comparator} (stored : SchemaAt world.file schema)
    (small : world.file.length < 2 ^ 63) (enough : world.file.length ≤ fuel)
    (started : node.data.take schema.realSize = record.data)
    (typed : schema.types[position]? = some type)
    (string : type = STRING → ∃ chain,
      ForwardChain world.file schema (record.word position) chain ∧
        0 ∈ assemble schema.realSize chain)
    (ended : 0 ∈ comparator.kv.valueString) :
    wp (comparatorPasses fuel schema.treeMeta.templateSize node position type
      comparator) (fun passes final => final.file = world.file ∧
        (passes = true ↔
          Counted world.file schema type position record comparator))
      world := by
  have inside := stored.word_inside (List.getElem?_eq_some_iff.mp typed).1
  have word : node.word position = record.word position :=
    Image.word_of_take started inside
  rw [comparatorPasses, word]
  by_cases isString : type = STRING
  · obtain ⟨chain, heads, terminated⟩ := string isString
    rw [if_pos isString, wp_bind]
    apply heads.wp_readStringFromNode small (heads.length_le.trans enough) rfl
    intro pos blocks
    rw [stringPasses_eq terminated ended, wp_pure]
    refine ⟨rfl, ?_⟩
    rw [decide_eq_true_iff, Counted, if_pos isString]
    constructor
    · intro counted
      exact ⟨chain, heads, counted⟩
    · rintro ⟨chain', heads', counted⟩
      rw [heads.unique heads']
      exact counted
  · rw [if_neg isString, wp_pure, Counted, if_neg isString]
    exact ⟨rfl, Iff.rfl⟩

end Tests

/-- What is counted on a STRING field is right for equalities alone. -/
theorem counted_string_right {file : List UInt8} {schema : TreeSchema}
    {position : Nat} {record : KeyNode} {chain : List (Nat × List UInt8)}
    (heads : ForwardChain file schema (record.word position) chain)
    (comparator : Comparator) :
    ((Counted file schema STRING position record comparator ↔
        Asked file schema STRING position record comparator) ↔
      TestRight STRING (.ofNat (record.word position)) comparator) := by
  have only {wanted : List UInt8 → Prop} :
      (∃ chain, ForwardChain file schema (record.word position) chain ∧
        wanted (textOf (assemble schema.realSize chain))) ↔
        wanted (textOf (assemble schema.realSize chain)) := by
    constructor
    · rintro ⟨chain', heads', holds⟩
      rw [heads.unique heads']
      exact holds
    · intro holds
      exact ⟨chain, heads, holds⟩
  rw [Counted, Asked, TestRight, if_pos rfl, if_pos rfl, if_pos rfl,
    @only fun text => TextAsked text comparator ∨
      ¬ (comparator.operation = 0 ∨ comparator.operation = 5),
    @only fun text => TextAsked text comparator]
  by_cases equality : comparator.operation = 0 ∨ comparator.operation = 5
  · have known : comparator.operation ∈ ([0, 1, 2, 3, 4, 5] : List Int32) := by
      rcases equality with same | same <;> rw [same] <;> decide
    simp only [equality, known, not_true_eq_false, or_false, and_self]
  · have refused :
        ¬ TextAsked (textOf (assemble schema.realSize chain)) comparator := by
      rintro (⟨same, -⟩ | ⟨same, -⟩)
      · exact equality (Or.inl same)
      · exact equality (Or.inr same)
    simp only [equality, refused, and_false, not_false_eq_true, or_true,
      iff_false, not_true_eq_false]

/-- The test of a comparator on a field of a stored node is right exactly under
its condition. -/
theorem comparator_right_iff {world : World} {schema : TreeSchema}
    {fuel id offset position type : Nat} {record node : KeyNode}
    {comparator : Comparator} (store : Searchable world.file schema)
    (enough : world.file.length ≤ fuel) (live : LiveAt schema id offset)
    (here : RecordAt world.file schema offset record)
    (started : node.data.take schema.realSize = record.data)
    (typed : schema.types[position]? = some type)
    (known : type ∈ [INT, FLOAT, STRING, BOOL])
    (ended : 0 ∈ comparator.kv.valueString) :
    wp (comparatorPasses fuel schema.treeMeta.templateSize node position type
      comparator) (fun passes final => final.file = world.file ∧
        ((passes = true ↔
          Asked world.file schema type position record comparator) ↔
            TestRight type (.ofNat (record.word position)) comparator))
      world := by
  apply wp_mono (wp_comparatorPasses store.stored store.small enough started
    typed (fun string => store.strings id offset record position live here
      (string ▸ typed)) ended)
  rintro passes final ⟨same, counted⟩
  refine ⟨same, ?_⟩
  rw [counted]
  by_cases string : type = STRING
  · subst string
    obtain ⟨chain, heads, -⟩ :=
      store.strings id offset record position live here typed
    exact counted_string_right heads comparator
  · rw [Counted, Asked, if_neg string, if_neg string]
    apply wordPasses_right
    simp only [List.mem_cons, List.not_mem_nil, or_false] at known ⊢
    rcases known with number | real | text | truth
    · exact Or.inl number
    · exact Or.inr (Or.inl real)
    · exact absurd text string
    · exact Or.inr (Or.inr truth)

/-- The comparator `n > -1`. -/
def aboveMinusOne : Comparator :=
  ⟨3, ⟨[110, 0], 1, -1, 0, [0]⟩⟩

/-- The number 7 is not found above -1. -/
theorem not_always_comparator_right :
    ¬ ∀ (world : World) (schema : TreeSchema) (fuel id offset position : Nat)
      (type : Nat) (record node : KeyNode) (comparator : Comparator),
      Searchable world.file schema → world.file.length ≤ fuel →
      LiveAt schema id offset → RecordAt world.file schema offset record →
      node.data.take schema.realSize = record.data →
      schema.types[position]? = some type →
      type ∈ [INT, FLOAT, STRING, BOOL] → 0 ∈ comparator.kv.valueString →
      wp (comparatorPasses fuel schema.treeMeta.templateSize node position type
        comparator) (fun passes _ => passes = true ↔
          Asked world.file schema type position record comparator) world := by
  intro always
  obtain ⟨-, -, live, here, -⟩ := oneSeven_stored
  have types := oneSeven_types
  have store := oneSeven_searchable
  generalize oneSeven = file at live here types store
  have right := always (blankWorld file) _ file.length 0 332 0 INT sevenRecord
    sevenRecord aboveMinusOne store le_rfl live here
    (List.take_of_length_le here.fits.data_length.le) (by rw [types]; rfl)
    (by decide) (by decide)
  rw [comparatorPasses, if_neg (by decide), wp_pure, Asked,
    if_neg (by decide)] at right
  exact absurd right (by decide)

/-- The same number is found to be 7. -/
theorem comparator_right_iff_seven :
    wp (comparatorPasses oneSeven.length
      (schemaOf oneSeven).treeMeta.templateSize sevenRecord 0 INT
      ⟨0, ⟨[110, 0], 1, 7, 0, [0]⟩⟩) (fun passes final =>
        final.file = oneSeven ∧
        ((passes = true ↔ Asked oneSeven (schemaOf oneSeven) INT 0 sevenRecord
          ⟨0, ⟨[110, 0], 1, 7, 0, [0]⟩⟩) ↔
          TestRight INT (.ofNat (sevenRecord.word 0))
            ⟨0, ⟨[110, 0], 1, 7, 0, [0]⟩⟩)) (blankWorld oneSeven) := by
  obtain ⟨-, -, live, here, -⟩ := oneSeven_stored
  have types := oneSeven_types
  have store := oneSeven_searchable
  generalize oneSeven = file at live here types store ⊢
  exact @comparator_right_iff (blankWorld file) _ _ 0 332 0 INT sevenRecord
    sevenRecord _ store le_rfl live here
    (List.take_of_length_le here.fits.data_length.le) (by rw [types]; rfl)
    (by decide) (by decide)

end TreeStore
