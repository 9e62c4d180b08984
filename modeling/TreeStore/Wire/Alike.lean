import TreeStore.Handler
import TreeStore.Wire.MessageBytes

/-!
# Messages with the same texts

The arrays of a received message hold zeros behind their texts, where those of
the sender may hold anything.  Only `storageInsertNodeNew` copies what lies there
to the file; all other queries are handled by their numbers and texts.
-/

namespace TreeStore

namespace Wire

/-- Strings that end, with the same characters. -/
def SameString (first second : CharPtr) : Prop :=
  0 ∈ first ∧ 0 ∈ second ∧ textOf first = textOf second

/-- The same numbers and texts. -/
structure KeyValuePair.Alike (first second : KeyValuePair) : Prop where
  key : textOf first.key = textOf second.key
  valueType : first.valueType = second.valueType
  valueInt : first.valueInt = second.valueInt
  valueReal : first.valueReal = second.valueReal
  valueString : SameString first.valueString second.valueString

structure Comparator.Alike (first second : Comparator) : Prop where
  operation : first.operation = second.operation
  kv : KeyValuePair.Alike first.kv second.kv

def Filter.Alike (first second : Filter) : Prop :=
  List.Forall₂ Comparator.Alike first.compList second.compList

structure Query.Alike (first second : Query) : Prop where
  command : first.command = second.command
  filters : List.Forall₂ Filter.Alike first.filtersList second.filtersList
  settings : List.Forall₂ KeyValuePair.Alike first.settingsList
    second.settingsList

section Received

theorem alike_keyValuePair {kv : KeyValuePair}
    (sendable : KeyValuePair.Sendable kv) :
    KeyValuePair.Alike (KeyValuePair.received kv) kv := by
  have text (array : List UInt8) :
      textOf (arrayOf (textOf array)) = textOf array :=
    textOf_append_zero (zero_notMem_textOf array) _
  refine ⟨text kv.key, rfl, rfl, rfl, ?_, sendable.2.2, text kv.valueString⟩
  change 0 ∈ arrayOf (textOf kv.valueString)
  unfold arrayOf filled
  simp

theorem forall₂_map {α : Type} {related : α → α → Prop} {change : α → α}
    {list : List α} (each : ∀ element ∈ list, related (change element) element) :
    List.Forall₂ related (list.map change) list := by
  induction list with
  | nil => exact .nil
  | cons element list ih =>
      exact .cons (each element List.mem_cons_self)
        (ih fun other member => each other (List.mem_cons_of_mem _ member))

/-- What the server has of a query is like it. -/
theorem alike_received {query : Query} (sendable : Query.Sendable query) :
    Query.Alike (Query.received query) query where
  command := rfl
  filters := by
    apply forall₂_map
    intro filter member
    apply forall₂_map
    intro comp inside
    exact ⟨rfl, alike_keyValuePair (sendable.1 filter member comp inside)⟩
  settings := by
    apply forall₂_map
    intro kv member
    exact alike_keyValuePair (sendable.2 kv member)

end Received

section Searching

variable {fuel size : Nat} {types : List Nat}
  {template : List NodeAttributeInfo} {curNode : KeyNode}

theorem lastAttr_congr {first second : CharPtr}
    (same : textOf first = textOf second) (template : List NodeAttributeInfo) :
    lastAttr first template = lastAttr second template := by
  unfold lastAttr SameText
  rw [same]

theorem findAttr_congr {first second : CharPtr}
    (same : textOf first = textOf second) (template : List NodeAttributeInfo) :
    findAttr first template = findAttr second template := by
  unfold findAttr SameText
  rw [same]

/-- A comparison stops at the first terminator. -/
theorem strcmpZero_text {text behind : List UInt8} (plain : 0 ∉ text)
    (string : CharPtr) :
    strcmpZero string (text ++ 0 :: behind) =
      strcmpZero string (text ++ [0]) := by
  induction text generalizing string with
  | nil =>
      cases string with
      | nil => rfl
      | cons char string =>
          by_cases ends : char = 0
          · simp [strcmpZero, ends]
          · simp [strcmpZero, ends]
  | cons other text ih =>
      rw [List.mem_cons, not_or] at plain
      cases string with
      | nil => rfl
      | cons char string =>
          unfold strcmpZero
          exact congrArg (ite (char ≠ other) (pure false))
            (congrArg (ite (char = 0) (pure true)) (ih plain.2 string))

theorem strcmpZero_congr {first second : CharPtr}
    (same : SameString first second) (string : CharPtr) :
    strcmpZero string first = strcmpZero string second := by
  obtain ⟨ends, ends', text⟩ := same
  obtain ⟨behind, parts⟩ := exists_terminator ends
  obtain ⟨behind', parts'⟩ := exists_terminator ends'
  rw [parts, parts', ← text]
  exact (strcmpZero_text (zero_notMem_textOf first) string).trans
    (strcmpZero_text (zero_notMem_textOf first) string).symm

theorem comparatorPasses_congr {first second : Comparator}
    (alike : Comparator.Alike first second) (fieldNum type : Nat) :
    comparatorPasses fuel size curNode fieldNum type first =
      comparatorPasses fuel size curNode fieldNum type second := by
  unfold comparatorPasses stringPasses
  simp only [alike.operation, alike.kv.valueInt,
    strcmpZero_congr alike.kv.valueString]

theorem comparatorLoop_congr {first second : List Comparator}
    (alike : List.Forall₂ Comparator.Alike first second) (valid : UInt8) :
    comparatorLoop fuel types size template curNode first valid =
      comparatorLoop fuel types size template curNode second valid := by
  induction alike generalizing valid with
  | nil => rfl
  | cons head _ ih =>
      unfold comparatorLoop
      simp only [lastAttr_congr head.kv.key, comparatorPasses_congr head, ih]

theorem filterLoop_congr {first second : List Filter}
    (alike : List.Forall₂ Filter.Alike first second) :
    filterLoop fuel types size template curNode first =
      filterLoop fuel types size template curNode second := by
  induction alike with
  | nil => rfl
  | @cons filter filter' rest rest' head tail ih =>
      have last : rest = [] ↔ rest' = [] := by
        rw [← List.length_eq_zero_iff, tail.length_eq,
          List.length_eq_zero_iff]
      unfold filterLoop
      simp only [comparatorLoop_congr head, head.length_eq, ih, last]

theorem filterScan_congr {first second : List Filter}
    (alike : List.Forall₂ Filter.Alike first second) (schema : TreeSchema)
    (places : List Nat) (result : List FoundNode) :
    filterScan fuel types size template first schema places result =
      filterScan fuel types size template second schema places result := by
  induction places generalizing result with
  | nil => rfl
  | cons i places ih =>
      unfold filterScan
      simp only [filterLoop_congr alike, ih]

end Searching

section Handling

variable {fuel : Nat} {template : List NodeAttributeInfo}

/-- A query has one comparator if the other one has. -/
theorem single_or {first second : List Filter}
    (alike : List.Forall₂ Filter.Alike first second) :
    (∃ comparator comparator' bound bound',
        Comparator.Alike comparator comparator' ∧
          first = [⟨[comparator], bound⟩] ∧
          second = [⟨[comparator'], bound'⟩]) ∨
      (∀ comparator bound, first ≠ [⟨[comparator], bound⟩]) ∧
        ∀ comparator bound, second ≠ [⟨[comparator], bound⟩] := by
  by_cases single : ∃ comparator bound, first = [⟨[comparator], bound⟩]
  · left
    obtain ⟨comparator, bound, rfl⟩ := single
    cases alike with
    | @cons _ filter _ _ head tail =>
        cases tail
        obtain ⟨compList, bound'⟩ := filter
        cases head with
        | cons inside none =>
            cases none
            exact ⟨_, _, _, _, inside, rfl, rfl⟩
  · right
    constructor
    · intro comparator bound same
      exact single ⟨comparator, bound, same⟩
    · intro comparator bound same
      subst same
      apply single
      cases alike with
      | @cons filter _ _ _ head tail =>
          cases tail
          obtain ⟨compList, bound'⟩ := filter
          cases head with
          | cons inside none =>
              cases none
              exact ⟨_, _, rfl⟩

theorem storageFindNodeByFilters_congr {first second : List Filter}
    (alike : List.Forall₂ Filter.Alike first second) :
    storageFindNodeByFilters fuel first template =
      storageFindNodeByFilters fuel second template := by
  unfold storageFindNodeByFilters
  rcases single_or alike with
    ⟨comparator, comparator', bound, bound', inside, rfl, rfl⟩ |
      ⟨several, several'⟩
  · simp only [SameText, inside.kv.key, inside.kv.valueInt,
      filterScan_congr alike]
  · simp only [filterScan_congr alike]

theorem byId_congr {first second : Query} (alike : Query.Alike first second) :
    first.byId = second.byId := by
  unfold Query.byId
  rcases single_or alike.filters with
    ⟨comparator, comparator', bound, bound', inside, same, same'⟩ |
      ⟨several, several'⟩
  · rw [same, same']
    simp only [SameText, inside.kv.key]
  · split
    · rename_i same
      exact absurd same (several _ _)
    · rfl

theorem copySettings_congr {first second : List KeyValuePair}
    (alike : List.Forall₂ KeyValuePair.Alike first second)
    (overflow : Prog Unit) (stack id value : Nat) :
    copySettings overflow fuel stack template id value first =
      copySettings overflow fuel stack template id value second := by
  induction alike generalizing value with
  | nil => rfl
  | @cons kv kv' _ _ head _ ih =>
      have value_congr (type : Nat) :
          updateValue kv type = updateValue kv' type := by
        unfold updateValue
        simp only [head.valueType, head.valueInt, head.valueReal]
      have copy_congr : copyString overflow kv.valueString =
          copyString overflow kv'.valueString := by
        unfold copyString
        rw [head.valueString.2.2]
      unfold copySettings
      simp only [findAttr_congr head.key, value_congr, copy_congr, ih]

theorem visit_congr {first second : Query} (alike : Query.Alike first second)
    (overflow : Prog Unit) (stack size : Nat) :
    first.visit overflow fuel stack size template =
      second.visit overflow fuel stack size template := by
  funext result response
  unfold Query.visit updateFound copyingUpdate
  simp only [alike.command, byId_congr alike,
    copySettings_congr alike.settings]

/-- All queries but the insertions are handled by their numbers and texts. -/
theorem handleQuery_congr {first second : Query}
    (alike : Query.Alike first second) (others : first.command ≠ 2)
    (overflow : Prog Unit) (address : Nat → UInt64) (stack : Nat) :
    handleQuery overflow address fuel stack first =
      handleQuery overflow address fuel stack second := by
  have others' : second.command ≠ 2 := alike.command ▸ others
  unfold handleQuery visitFound
  simp only [alike.command, if_neg others', visit_congr alike,
    storageFindNodeByFilters_congr alike.filters]

end Handling

end Wire

end TreeStore
