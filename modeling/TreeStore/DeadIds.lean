import TreeStore.Removal

/-!
# Calls on dead ids

A call on an id that is not live should report failure and change nothing.
This file says exactly when it does, for every file and whatever the memory
holds.
-/

namespace TreeStore

open ByteFile ProgramLogic

/-- The program takes the blocks of the memory one after the other, and depends
on the blocks it takes and on no others. -/
def Uniform {α : Type} (program : Prog α) : Prop :=
  ∀ world result final, program.run world = .ok (result, final) →
    ∃ taken, final.heap = world.heap ∧ final.blocks = world.blocks + taken ∧
      ∀ heap blocks, (∀ block < taken,
          heap (blocks + block) = world.heap (world.blocks + block)) →
        program.run { world with heap := heap, blocks := blocks } =
          .ok (result, { final with heap := heap, blocks := blocks + taken })

section Uniform

variable {α β : Type}

theorem uniform_pure (result : α) : Uniform (pure result : Prog α) := by
  rintro world _ _ ⟨⟩
  exact ⟨0, rfl, rfl, fun _ _ _ => rfl⟩

theorem Uniform.bind {program : Prog α} {next : α → Prog β}
    (first : Uniform program) (rest : ∀ result, Uniform (next result)) :
    Uniform (program >>= next) := by
  intro world result final runs
  obtain ⟨between, middle, ran, runs⟩ := exists_of_run_bind runs
  obtain ⟨taken, heapEq, blocksEq, replay⟩ := first _ _ _ ran
  obtain ⟨taken', heapEq', blocksEq', replay'⟩ := rest between _ _ _ runs
  refine ⟨taken + taken', heapEq'.trans heapEq, by omega, ?_⟩
  intro heap blocks agree
  have firstRun := replay heap blocks fun block small =>
    agree block (by omega)
  have secondRun := replay' heap (blocks + taken) fun block small => by
    rw [heapEq, blocksEq, Nat.add_assoc, Nat.add_assoc]
    exact agree (taken + block) (by omega)
  rw [StateT.run_bind, firstRun, ← Nat.add_assoc]
  exact secondRun

theorem uniform_malloc (size : Nat) : Uniform (malloc size) := by
  rintro world _ _ ⟨⟩
  refine ⟨1, rfl, rfl, fun heap blocks agree => ?_⟩
  have same := agree 0 Nat.one_pos
  rw [Nat.add_zero, Nat.add_zero] at same
  change Except.ok ((List.range size).map (heap blocks), _) = _
  rw [same]

theorem uniform_readFile (buffer : List UInt8) (size : Nat) :
    Uniform (readFile buffer size) := by
  rintro world _ _ ⟨⟩
  exact ⟨0, rfl, rfl, fun _ _ _ => rfl⟩

theorem uniform_fseekSet_zero : Uniform (fseekSet 0) := by
  rintro world _ _ ⟨⟩
  exact ⟨0, rfl, rfl, fun _ _ _ => rfl⟩

theorem uniform_readAttribute : Uniform readAttribute :=
  (uniform_malloc _).bind fun _ => (uniform_readFile _ _).bind fun _ =>
    (uniform_malloc _).bind fun _ => (uniform_readFile _ _).bind fun _ =>
      uniform_pure _

theorem uniform_readAttributes (iter : Nat) (ret : ReadStatus) :
    Uniform (readAttributes iter ret) := by
  induction iter generalizing ret with
  | zero => exact uniform_pure _
  | succ iter ih =>
      exact uniform_readAttribute.bind fun _ => (ih _).bind fun _ =>
        uniform_pure _

theorem uniform_readTreeSchema : Uniform readTreeSchema :=
  uniform_fseekSet_zero.bind fun _ =>
    ((uniform_malloc _).bind fun _ => (uniform_readFile _ _).bind fun _ =>
      uniform_pure _).bind fun _ => (uniform_readAttributes _ _).bind fun _ =>
        (uniform_malloc _).bind fun _ => (uniform_readFile _ _).bind fun _ =>
          uniform_pure _

/-- The same blocks elsewhere in the memory give the same result. -/
theorem Uniform.replay {program : Prog α} (uniform : Uniform program)
    {post : α → Prop} {world : World} {heap : Nat → Nat → UInt8} {blocks : Nat}
    (holds : wp program (fun result _ => post result) world)
    (agree : ∀ block,
      heap (blocks + block) = world.heap (world.blocks + block)) :
    wp program (fun result _ => post result)
      { world with heap := heap, blocks := blocks } := by
  obtain ⟨result, final, runs, satisfied⟩ := holds
  obtain ⟨taken, -, -, again⟩ := uniform _ _ _ runs
  exact ⟨result, _, again heap blocks fun block _ => agree block, satisfied⟩

end Uniform

section Reading

variable {world : World}

theorem wp_readAttributes_any {iter : Nat} {ret : ReadStatus}
    {post : List NodeAttributeInfo × ReadStatus → World → Prop}
    (holds : ∀ result pos blocks,
      post result { world with pos := pos, blocks := blocks }) :
    wp (readAttributes iter ret) post world := by
  induction iter generalizing ret post world with
  | zero =>
      rw [readAttributes, wp_pure]
      exact holds _ _ _
  | succ iter ih =>
      simp only [readAttributes, readAttribute, wp_bind, wp_pure]
      refine wp_malloc fun block blocks _ => ?_
      rw [wp_readFile]
      refine wp_malloc fun name blocks _ => ?_
      rw [wp_readFile]
      exact ih fun result pos blocks => holds _ _ _

/-- `readTreeSchema` always returns, and leaves the file as it is. -/
theorem wp_readTreeSchema_any {post : TreeSchema × ReadStatus → World → Prop}
    (holds : ∀ result pos blocks,
      post result { world with pos := pos, blocks := blocks }) :
    wp readTreeSchema post world := by
  simp only [readTreeSchema, readTreeMeta, wp_bind, wp_pure, wp_fseekSet,
    le_refl, if_true]
  refine wp_malloc fun block blocks _ => ?_
  rw [wp_readFile]
  refine wp_readAttributes_any fun result pos blocks => ?_
  refine wp_malloc fun array blocks _ => ?_
  rw [wp_readFile]
  exact holds _ _ _

theorem wp_readTreeSchema_seek {pos : Nat}
    {post : TreeSchema × ReadStatus → World → Prop} :
    wp readTreeSchema post { world with pos := pos } ↔
      wp readTreeSchema post world := by
  rw [readTreeSchema, wp_bind, wp_bind, wp_fseekSet, wp_fseekSet,
    if_pos le_rfl, if_pos le_rfl]

end Reading

/-- A call on an id. -/
inductive IdCall
  | get
  | update (fieldNumber : Nat) (newValue : CharPtr)
  | remove

/-- The call, and whether it reports failure. -/
def IdCall.failed (fuel id : Nat) : IdCall → Prog Bool
  | .get => do
      let values ← getNode fuel id
      return values.isNone
  | .update fieldNumber newValue => do
      let status ← updateNode fuel fieldNumber newValue id
      return status = .fail
  | .remove => do
      let status ← removeNode fuel id false
      return status = .fail

/-- The call reports failure, indexes no array outside its block, and leaves
the file as it is, whatever the memory holds and wherever the stream stands. -/
def IdCall.FailsCleanly (call : IdCall) (file : List UInt8) (id : Nat) : Prop :=
  ∀ world fuel, world.file = file → file.length < fuel →
    wp (call.failed fuel id) (fun failed final =>
      failed = true ∧ final.file = file) world

/-- The id array that `readTreeSchema` loads has an entry for the id, which is
zero. -/
def LoadsZero (file : List UInt8) (id : Nat) : Prop :=
  ∀ world : World, world.file = file →
    wp readTreeSchema (fun result _ => result.1.root[id]? = some 0) world

section Dead

variable {file : List UInt8} {world : World} {fuel id : Nat}

theorem LoadsZero.wp_readTreeSchema
    {post : TreeSchema × ReadStatus → World → Prop} (zero : LoadsZero file id)
    (same : world.file = file)
    (holds : ∀ result pos blocks, result.1.root[id]? = some 0 →
      post result { world with pos := pos, blocks := blocks }) :
    wp readTreeSchema post world := by
  have unchanged : wp readTreeSchema (fun _ final => ∃ pos blocks,
      final = { world with pos := pos, blocks := blocks }) world :=
    wp_readTreeSchema_any fun _ pos blocks => ⟨pos, blocks, rfl⟩
  refine wp_mono (wp_and (zero world same) unchanged) ?_
  rintro result _ ⟨entry, pos, blocks, rfl⟩
  exact holds result pos blocks entry

/-- `getNode` and `removeNode` fail cleanly when the entry they look up is
zero. -/
theorem LoadsZero.failsCleanly_get (zero : LoadsZero file id) :
    IdCall.get.FailsCleanly file id := by
  rintro world fuel rfl -
  simp only [IdCall.failed, getNode, convItoO, wp_bind]
  refine wp_unsetWord fun word blocks => ?_
  rw [wp_fseekSet, if_pos le_rfl]
  refine zero.wp_readTreeSchema rfl fun result pos blocks entry => ?_
  refine wp_index entry ?_
  simp

theorem LoadsZero.failsCleanly_remove (zero : LoadsZero file id) :
    IdCall.remove.FailsCleanly file id := by
  rintro world fuel rfl enough
  obtain ⟨fuel, rfl⟩ := Nat.exists_eq_add_of_lt enough
  simp only [IdCall.failed, removeNode, getTypes, removeFromIdArray, wp_bind,
    wp_fseekSet, le_refl, if_true]
  refine zero.wp_readTreeSchema rfl fun _ pos blocks _ => ?_
  rw [wp_pure]
  simp only [Bool.false_eq_true, if_false, wp_bind, wp_fseekSet, le_refl,
    if_true]
  refine zero.wp_readTreeSchema rfl fun result pos blocks entry => ?_
  refine wp_index entry ?_
  simp

/-- `updateNode` never reports failure. -/
theorem not_failsCleanly_update (fieldNumber : Nat) (newValue : CharPtr) :
    ¬ (IdCall.update fieldNumber newValue).FailsCleanly file id := by
  intro clean
  have failed := clean (blankWorld file) _ rfl (Nat.lt_succ_self _)
  have succeeds {world : World} :
      ¬ wp (updateNode (file.length + 1) fieldNumber newValue id)
        (fun status _ => status = .fail) world := by
    intro fails
    simp only [updateNode, wp_bind] at fails
    obtain ⟨_, _, -, _, _, -, _, _, -, _, _, -, _, _, -, _, _, -, fails⟩ :=
      fails
    split_ifs at fails
    · simp only [wp_bind, wp_pure] at fails
      obtain ⟨_, _, -, contrary⟩ := fails
      cases contrary
    · simp only [wp_bind, wp_pure] at fails
      obtain ⟨_, _, -, _, _, -, _, _, -, contrary⟩ := fails
      cases contrary
  simp only [IdCall.failed, wp_bind, wp_pure, decide_eq_true_eq] at failed
  exact succeeds (wp_mono failed fun _ _ => And.left)

/-- When `getNode` fails cleanly, the entry it looks up is zero. -/
theorem loadsZero_of_get (clean : IdCall.get.FailsCleanly file id) :
    LoadsZero file id := by
  rintro world rfl
  -- the block of the unset offset comes before those that `world` hands out
  let start : World :=
    { world with
      heap := fun block => world.heap (world.blocks + (block - 1))
      blocks := 0 }
  have failed := clean start _ rfl (Nat.lt_succ_self _)
  simp only [IdCall.failed, getNode, convItoO, unsetWord, malloc, wp_bind,
    wp_map, wp_modifyGet, wp_fseekSet, le_refl, if_true] at failed
  have looked : wp readTreeSchema
      (fun result _ => result.1.root[id]? = some 0)
      { start with blocks := 1 } := by
    refine wp_mono ((@wp_readTreeSchema_seek { start with blocks := 1 } 0
      _).mp failed) fun result middle fails => ?_
    obtain ⟨entry, found, fails⟩ := exists_of_wp_index fails
    by_cases zero : entry = 0
    · rw [found, zero]
    · simp only [zero, if_false, wp_pure, reduceCtorEq, wp_bind] at fails
      obtain ⟨_, _, -, _, _, -, _, _, -, _, _, -, contrary, -⟩ := fails
      cases contrary
  exact @Uniform.replay _ _ uniform_readTreeSchema _
    { start with blocks := 1 } world.heap world.blocks looked fun block => by
      simp [start]

/-- When `removeNode` fails cleanly, the entry it looks up is zero. -/
theorem loadsZero_of_remove (clean : IdCall.remove.FailsCleanly file id) :
    LoadsZero file id := by
  rintro world rfl
  -- `getTypes` reads the schema from blank blocks, and those of `world` follow
  have blank : wp readTreeSchema (fun _ final => ∃ pos blocks, final =
      { blankWorld world.file with pos := pos, blocks := blocks })
      (blankWorld world.file) :=
    wp_readTreeSchema_any fun _ pos blocks => ⟨pos, blocks, rfl⟩
  obtain ⟨types, _, runs, pos, taken, rfl⟩ := blank
  obtain ⟨taken', -, same, replay⟩ := uniform_readTreeSchema _ _ _ runs
  obtain rfl : taken = taken' := same.trans (Nat.zero_add _)
  let start : World :=
    { blankWorld world.file with
      heap := fun block => if block < taken then fun _ => 0
        else world.heap (world.blocks + (block - taken)) }
  have first := replay start.heap 0 fun block small => by
    simp [start, small, blankWorld]
  have failed := clean start _ rfl (Nat.lt_succ_self _)
  simp only [IdCall.failed, removeNode, getTypes, removeFromIdArray, wp_bind,
    wp_fseekSet, le_refl, if_true] at failed
  have later := wp_of_run failed first
  simp only [wp_pure, Bool.false_eq_true, if_false, wp_bind, wp_fseekSet,
    le_refl, if_true] at later
  let between : World := { start with blocks := 0 + taken }
  have looked : wp readTreeSchema
      (fun result _ => result.1.root[id]? = some 0) between := by
    refine wp_mono ((@wp_readTreeSchema_seek between 0 _).mp later)
      fun result middle fails => ?_
    obtain ⟨entry, found, fails⟩ := exists_of_wp_index fails
    by_cases zero : entry = 0
    · rw [found, zero]
    · simp only [zero, if_false, wp_pure, wp_bind] at fails
      obtain ⟨_, _, -, _, _, -, _, _, -, _, _, -, _, _, -, contrary, -⟩ := fails
      exact absurd contrary (by simp)
  exact @Uniform.replay _ _ uniform_readTreeSchema _ between world.heap
    world.blocks looked fun block => by simp [between, start]

end Dead

/-- A call fails cleanly if and only if it checks what it looks up and the id
array has a zero entry for the id. -/
theorem failsCleanly_iff (call : IdCall) (file : List UInt8) (id : Nat) :
    call.FailsCleanly file id ↔
      (∀ fieldNumber newValue, call ≠ .update fieldNumber newValue) ∧
        LoadsZero file id := by
  cases call with
  | get =>
      exact ⟨fun clean => ⟨by simp, loadsZero_of_get clean⟩,
        fun ⟨_, zero⟩ => zero.failsCleanly_get⟩
  | update fieldNumber newValue =>
      exact ⟨fun clean => absurd clean (not_failsCleanly_update _ _),
        fun ⟨checks, _⟩ => absurd rfl (checks _ _)⟩
  | remove =>
      exact ⟨fun clean => ⟨by simp, loadsZero_of_remove clean⟩,
        fun ⟨_, zero⟩ => zero.failsCleanly_remove⟩

/-- What a call needs from its caller: a field of the template, and a terminated
string for a STRING field. -/
def IdCall.Proper (schema : TreeSchema) : IdCall → Prop
  | .update fieldNumber newValue => fieldNumber < schema.types.length ∧
      (schema.types[fieldNumber]? = some STRING → 0 ∈ newValue)
  | _ => True

/-- An update of an id that was never allocated does not fail. -/
theorem not_always_failsCleanly :
    ¬ ∀ (specs : List AttributeSpec) (file : List UInt8) (schema : TreeSchema)
      (id : Nat) (call : IdCall), Reached specs CallsProper file →
        SchemaAt file schema → id < 2 ^ 64 →
          (∀ offset, ¬ LiveAt schema id offset) → call.Proper schema →
            call.FailsCleanly file id := by
  intro always
  refine not_failsCleanly_update 0 [7, 0, 0, 0, 0, 0, 0, 0] (always _ _ _ 0 _
    (reached_single CallsProper createdFile_number)
    (schemaAt_single (by norm_num)) (by norm_num)
    (fun offset live => Nat.not_lt_zero _ live.counted) ⟨by decide, ?_⟩)
  exact fun string => absurd string (by decide)

end TreeStore
