import TreeStore.UnknownFields

/-!
# Queries for one id

A filter on the id is no scan.  It gives an entry of its own also where it has
found nothing.
-/

namespace TreeStore

open ByteFile ProgramLogic

/-- What a query for one id should deliver: the node with its words, which are
its numbers, if it is live, and nothing otherwise. -/
structure FoundExactly (file : List UInt8) (schema : TreeSchema) (id : Nat)
    (result : List FoundNode) : Prop where
  carried : ∀ entry ∈ result, entry.value ≠ none
  live : ∀ offset record, LiveAt schema id offset →
    RecordAt file schema offset record →
    ∃ node, result = [⟨some node, id⟩] ∧
      ∀ position type, schema.types[position]? = some type → type ≠ STRING →
        node.word position = record.word position
  dead : (¬ ∃ offset, LiveAt schema id offset) → result = []

section Lookups

variable {world final : World} {fuel id : Nat}

/-- If the branch for an id returns, its entry has no value. -/
theorem findById_null {result : List FoundNode}
    (runs : (findById fuel id).run world = .ok (result, final)) :
    result = [⟨none, id⟩] := by
  rw [findById] at runs
  obtain ⟨values, middle, -, runs⟩ := exists_of_run_bind runs
  cases values with
  | some values => cases runs
  | none =>
      obtain ⟨fields, later, -, runs⟩ := exists_of_run_bind runs
      by_cases unset : fields = 0
      · rw [if_pos unset] at runs
        cases runs
        rfl
      · rw [if_neg unset] at runs
        cases runs

/-- If a query for an id returns, the one entry of its result has no value. -/
theorem storageFindNodeByFilters_null {comparator : Comparator}
    {count : [comparator].length ≤ 20} {template : List NodeAttributeInfo}
    {outcome : Nat × List FoundNode}
    (key : SameText comparator.kv.key idText)
    (runs : (storageFindNodeByFilters fuel [⟨[comparator], count⟩]
      template).run world = .ok (outcome, final)) :
    outcome = (0, [⟨none, comparator.kv.valueInt.toUInt64.toNat⟩]) := by
  have other : ¬ SameText comparator.kv.key parentText := by
    rw [SameText, key]
    decide
  rw [storageFindNodeByFilters] at runs
  obtain ⟨_, _, -, runs⟩ := exists_of_run_bind runs
  obtain ⟨_, _, -, runs⟩ := exists_of_run_bind runs
  dsimp only at runs
  rw [if_neg other, if_pos key] at runs
  obtain ⟨result, middle, found, runs⟩ := exists_of_run_bind runs
  rw [findById_null found] at runs
  cases runs
  rfl

end Lookups

/-- No query for an id delivers what it should, be the id live or dead. -/
theorem id_query_never_exact {world : World} {schema : TreeSchema} {fuel : Nat}
    {comparator : Comparator} {count : [comparator].length ≤ 20}
    (key : SameText comparator.kv.key idText) :
    ¬ wp (storageFindNodeByFilters fuel [⟨[comparator], count⟩]
        schema.nodesTemplate) (fun outcome _ => FoundExactly world.file schema
          comparator.kv.valueInt.toUInt64.toNat outcome.2) world := by
  rintro ⟨outcome, final, runs, exact⟩
  rw [storageFindNodeByFilters_null key runs] at exact
  exact exact.carried _ (List.mem_singleton_self _) rfl

/-- The query for the id 0. -/
def idIsZero : Comparator :=
  ⟨0, ⟨[105, 100, 0], 1, 0, 0, [0]⟩⟩

theorem id_query_never_exact_zero :
    ¬ wp (storageFindNodeByFilters oneSeven.length [⟨[idIsZero], by decide⟩]
        (schemaOf oneSeven).nodesTemplate) (fun outcome _ =>
          FoundExactly oneSeven (schemaOf oneSeven) 0 outcome.2)
      (blankWorld oneSeven) := by
  generalize oneSeven = file
  exact @id_query_never_exact (blankWorld file) (schemaOf file) file.length
    idIsZero (by decide) (by decide)

/-- In an empty store the query for the id 0 finds a node without value. -/
theorem not_always_found_exactly :
    ¬ ∀ (world : World) (schema : TreeSchema) (fuel : Nat)
      (comparator : Comparator) (count : [comparator].length ≤ 20),
      Searchable world.file schema → world.file.length ≤ fuel →
      SameText comparator.kv.key idText → comparator.operation = 0 →
      wp (storageFindNodeByFilters fuel [⟨[comparator], count⟩]
        schema.nodesTemplate) (fun outcome _ => FoundExactly world.file schema
          comparator.kv.valueInt.toUInt64.toNat outcome.2) world := by
  intro always
  have store := searchable_single
  generalize singleSchema INT = schema at store
  obtain ⟨outcome, final, runs, exact⟩ := always (blankWorld schema.bytes)
    schema schema.bytes.length idIsZero (by decide) store le_rfl (by decide)
    (by decide)
  rw [storageFindNodeByFilters_null (by decide) runs] at exact
  exact exact.carried _ (List.mem_singleton_self _) rfl

end TreeStore
