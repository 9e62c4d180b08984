import TreeStore.Library.Agendas
import TreeStore.Freeing
import TreeStore.FailedUpdates

/-!
# Removal of a node and of what hangs on it

`removeNode` follows the parent links of the records, and nothing keeps these
from leading in circles.  It comes to an end because every call that goes on
has first taken an id off the array.
-/

namespace TreeStore

open ByteFile ProgramLogic Agendas

section Model

variable (swap : Nat → Nat → Prog CrudStatus)

/-- `removeString` with another way to fill the holes. -/
def removeStringWith (size : Nat) : Nat → Nat → Prog Unit
  | 0, _ => throw .outOfFuel
  | fuel + 1, id =>
      if id = 0 then return ()
      else do
        fseekSet (toLong id)
        let (strNode, _) ← readNode size
        let _ ← swap id (getRealNodeSize size + nodeHeadSize)
        removeStringWith size fuel strNode.header.nextNode

/-- `removeNode` with another way to fill the holes. -/
def removeNodeWith : Nat → Nat → Bool → Prog CrudStatus
  | 0, _, _ => throw .outOfFuel
  | fuel + 1, id, strFlag => do
      let (types, size) ← getTypes
      if strFlag then
        removeStringWith swap size fuel id
        return .success
      else
        match ← removeFromIdArray id with
        | none => return .fail
        | some offset =>
            (List.range size).forM fun fieldNum => do
              if types[fieldNum]? = some STRING then
                fseekSet (toLong offset)
                let (node, _) ← readNode size
                let _ ← removeNodeWith fuel (node.word fieldNum) true
            let _ ← swap offset (getRealNodeSize size)
            let children ← findByParent id
            children.forM fun child => do
              let _ ← removeNodeWith fuel child.id false
            return .success

/-- What `removeNode` does with a node that has no strings before it fills the
hole, whose place and size are the result; `none` is a call that fails at
once. -/
def takeOff (id : Nat) : Prog (Option (Nat × Nat)) := do
  let (_, size) ← getTypes
  match ← removeFromIdArray id with
  | none => return none
  | some offset => return some (offset, getRealNodeSize size)

/-- What `removeNode` does with such a node before it goes on to the
children. -/
def visit (id : Nat) : Prog (Option (List Nat)) := do
  match ← takeOff id with
  | none => return none
  | some (dest, nodeSize) =>
      let _ ← swap dest nodeSize
      let children ← findByParent id
      return some (children.map (·.id))

theorem removeStringWith_swapLastNode (size fuel id : Nat) :
    removeStringWith swapLastNode size fuel id = removeString size fuel id := by
  induction fuel generalizing id with
  | zero => rfl
  | succ fuel ih =>
      rw [removeStringWith, removeString]
      simp only [ih]

theorem removeNodeWith_swapLastNode (fuel id : Nat) (strFlag : Bool) :
    removeNodeWith swapLastNode fuel id strFlag =
      removeNode fuel id strFlag := by
  induction fuel generalizing id strFlag with
  | zero => rfl
  | succ fuel ih =>
      rw [removeNodeWith]
      simp only [ih, removeStringWith_swapLastNode]
      rfl

end Model

/-- This call of `swap` moves bytes: the schema stays readable, with the same
template and the same counters, and none of the first `count` ids is revived. -/
def MovesBytes (swap : Nat → Nat → Prog CrudStatus)
    (count dest nodeSize : Nat) (world : World) : Prop :=
  ∀ schema, SchemaAt world.file schema →
    ends (swap dest nodeSize) (fun _ final =>
      ∃ schema', SchemaAt final.file schema' ∧
        schema'.nodesTemplate = schema.nodesTemplate ∧
        schema'.treeMeta = schema.treeMeta ∧
        ∀ id < count, schema.root[id]? = some 0 → schema'.root[id]? = some 0)
      (· ≠ .outOfFuel) world

/-- The next visit, if it comes to fill a hole, fills it by moving bytes. -/
def FillsHole (swap : Nat → Nat → Prog CrudStatus) (count : Nat)
    (agenda : Agenda World Nat) : Prop :=
  ∀ id rest dest nodeSize middle, agenda.pending = id :: rest →
    (takeOff id).run agenda.state = .ok (some (dest, nodeSize), middle) →
    MovesBytes swap count dest nodeSize middle

/-- Every hole that the removal of `id` leaves is filled by moving bytes.
Nothing is asked of calls of `swap` that the removal does not make. -/
def FillsHoles (swap : Nat → Nat → Prog CrudStatus) (count : Nat)
    (world : World) (id : Nat) : Prop :=
  ∀ agenda, Run (visit swap) ⟨world, [id], []⟩ agenda →
    FillsHole swap count agenda

/-- The array does not lead from this id to a record. -/
def Dead (schema : TreeSchema) (id : Nat) : Prop :=
  ∀ entry, schema.root[id]? = some entry → entry = 0

section Visits

variable {swap : Nat → Nat → Prog CrudStatus} {world : World}
  {schema : TreeSchema} {id : Nat}

/-- The children that a scan names are live, whatever lies where their entries
lead. -/
theorem SchemaAt.wp_findByParent (stored : SchemaAt world.file schema)
    (parent : Nat) :
    wp (findByParent parent) (fun found final => final.file = world.file ∧
      ∀ child ∈ found, ∃ offset, LiveAt schema child.id offset) world := by
  rw [findByParent, wp_bind]
  apply SchemaAt.wp_readTreeSchema stored
  intro blocks
  dsimp only
  apply wp_foldlM_range (fun _ (found : List ResultSetNode) (middle : World) =>
    middle.file = world.file ∧
      ∀ child ∈ found, ∃ offset, LiveAt schema child.id offset)
  · exact ⟨rfl, by simp⟩
  · rintro index counted found middle ⟨same, live⟩
    obtain ⟨entry, known⟩ : ∃ entry, schema.root[index]? = some entry :=
      ⟨_, List.getElem?_eq_getElem (stored.root_lt counted)⟩
    rw [wp_bind]
    apply wp_index known
    by_cases dead : entry = 0
    · rw [if_pos dead, wp_pure]
      exact ⟨same, live⟩
    · rw [if_neg dead, wp_bind, wp_fseekSet, wp_bind]
      apply wp_readNode_any
      intro result pos blocks
      have same' : (if 0 ≤ toLong entry
          then { middle with pos := (toLong entry).toNat }
          else middle).file = world.file := by
        split_ifs <;> exact same
      apply wp_ite
      · intro _
        rw [wp_pure, appendToResultSet]
        refine ⟨same', ?_⟩
        intro child member
        rcases List.mem_cons.mp member with rfl | earlier
        · exact ⟨entry, counted, known, dead⟩
        · exact live child earlier
      · intro _
        rw [wp_pure]
        exact ⟨same', live⟩

/-- Taking an id off the array, whether or not it is one of the array. -/
theorem SchemaAt.ends_removeFromIdArray (stored : SchemaAt world.file schema) :
    ends (removeFromIdArray id) (fun result final =>
      (result = none ∧ schema.root[id]? = some 0 ∧ final.file = world.file) ∨
      ∃ entry, result = some entry ∧ schema.root[id]? = some entry ∧
        entry ≠ 0 ∧
        final.file = ByteFile.writeAt world.file 0 (schema.freed id).bytes)
      (· ≠ .outOfFuel) world := by
  cases found : schema.root[id]? with
  | none =>
      rw [removeFromIdArray]
      apply ends_bind
      apply ends_of_wp
      rw [wp_fseekSet, if_pos le_rfl]
      apply ends_bind
      apply ends_of_wp
      apply SchemaAt.wp_readTreeSchema (by exact stored)
      intro blocks
      dsimp only
      rw [index_of_none found]
      apply ends_bind
      exact ends_throw Fault.noConfusion
  | some entry =>
      apply ends_of_wp
      by_cases dead : entry = 0
      · subst dead
        rw [removeFromIdArray, wp_bind, wp_fseekSet, if_pos le_rfl, wp_bind]
        apply SchemaAt.wp_readTreeSchema (by exact stored)
        intro blocks
        dsimp only
        rw [wp_bind]
        apply wp_index found
        rw [if_pos rfl, wp_pure]
        exact Or.inl ⟨rfl, rfl, rfl⟩
      · apply stored.wp_removeFromIdArray found dead
        intro pos blocks
        exact Or.inr ⟨entry, rfl, rfl, dead, rfl⟩

/-- What a visit does: it fails at once and changes nothing, or it takes a
non-zero entry off the array and names live ids. -/
def Visited (count : Nat) (file : List UInt8) (schema : TreeSchema) (id : Nat) :
    Option (List Nat) → World → Prop
  | none, final => schema.root[id]? = some 0 ∧ final.file = file
  | some named, final => ∃ entry schema', schema.root[id]? = some entry ∧
      entry ≠ 0 ∧ SchemaAt final.file schema' ∧
      schema'.nodesTemplate = schema.nodesTemplate ∧
      schema'.treeMeta = (schema.freed id).treeMeta ∧
      (∀ other < count, Dead (schema.freed id) other → Dead schema' other) ∧
      ∀ child ∈ named, ∃ offset, LiveAt schema' child offset

theorem SchemaAt.ends_takeOff (stored : SchemaAt world.file schema) :
    ends (takeOff id) (fun result final =>
      (result = none ∧ schema.root[id]? = some 0 ∧ final.file = world.file) ∨
      ∃ entry, result = some (entry, schema.realSize) ∧
        schema.root[id]? = some entry ∧ entry ≠ 0 ∧
        SchemaAt final.file (schema.freed id)) (· ≠ .outOfFuel) world := by
  rw [takeOff]
  apply ends_bind
  apply ends_of_wp
  apply SchemaAt.wp_getTypes stored
  intro blocks
  dsimp only
  apply ends_bind
  apply ends_mono (SchemaAt.ends_removeFromIdArray (by exact stored))
  · rintro result final (⟨rfl, dead, same⟩ |
      ⟨entry, rfl, found, live, written⟩)
    · exact ends_pure (Or.inl ⟨rfl, dead, same⟩)
    · apply ends_pure
      refine Or.inr ⟨entry, rfl, found, live, ?_⟩
      rw [written]
      exact stored.freed id
  · exact fun _ other => other

theorem SchemaAt.ends_visit {count : Nat} {rest visited : List Nat}
    (stored : SchemaAt world.file schema)
    (fills : FillsHole swap count ⟨world, id :: rest, visited⟩) :
    ends (visit swap id) (Visited count world.file schema id)
      (· ≠ .outOfFuel) world := by
  rw [visit]
  apply ends_bind
  apply ends_intro
  · intro result middle ran
    rcases ends_of_run stored.ends_takeOff ran with ⟨rfl, dead, same⟩ |
      ⟨entry, rfl, found, live, stored'⟩
    · exact ends_pure ⟨dead, same⟩
    · apply ends_bind
      apply ends_mono (fills id rest entry _ middle rfl ran _ stored')
      · rintro status moved ⟨schema', stored'', template, counter, zero⟩
        apply ends_bind
        apply ends_of_wp
        apply wp_mono (stored''.wp_findByParent id)
        rintro found' final ⟨same, live'⟩
        apply ends_pure
        refine ⟨entry, schema', found, live, ?_, template, counter, ?_, ?_⟩
        · rw [same]
          exact stored''
        · intro other below dead entry' found'
          have length : schema'.root.length =
              (schema.freed id).root.length := by
            rw [stored''.valid.root_length, stored'.valid.root_length, counter]
          obtain ⟨inside, -⟩ := List.getElem?_eq_some_iff.mp found'
          rw [length] at inside
          have old := List.getElem?_eq_getElem inside
          rw [dead _ old] at old
          have kept := zero other below old
          rw [found'] at kept
          exact Option.some.inj kept
        · intro child member
          obtain ⟨node, listed, rfl⟩ := List.mem_map.mp member
          exact live' node listed
      · exact fun _ other => other
  · intro fault faults
    have other := ends_of_error stored.ends_takeOff faults
    exact other

end Visits

section Runs

/-- What holds of every agenda of a removal that begins with the schema `start`
and the id `first`. -/
structure Orderly (start : TreeSchema) (first : Nat)
    (agenda : Agenda World Nat) (schema : TreeSchema) : Prop where
  stored : SchemaAt agenda.state.file schema
  template : schema.nodesTemplate = start.nodesTemplate
  counter : schema.treeMeta.curId ≤ start.treeMeta.curId
  dead : ∀ id < start.treeMeta.curId,
    schema.treeMeta.curId ≤ id ∨ id ∈ agenda.visited → Dead schema id
  distinct : agenda.visited.Nodup
  pending : (∀ id ∈ agenda.pending, id < start.treeMeta.curId) ∨
    agenda.pending = [first] ∧ agenda.visited = []
  visited : ∀ id ∈ agenda.visited, id < start.treeMeta.curId ∨ id = first

variable {swap : Nat → Nat → Prog CrudStatus} {start schema : TreeSchema}
  {first id : Nat} {world final : World} {rest visited named : List Nat}

theorem orderly_start (stored : SchemaAt world.file start) (first : Nat) :
    Orderly start first ⟨world, [first], []⟩ start where
  stored := stored
  template := rfl
  counter := le_rfl
  dead := by
    intro id below dead
    rcases dead with past | member
    · omega
    · exact absurd member List.not_mem_nil
  distinct := List.nodup_nil
  pending := Or.inr ⟨rfl, rfl⟩
  visited := by
    intro id member
    exact absurd member List.not_mem_nil

/-- An id is visited with success once, and only while it is live. -/
theorem Orderly.fresh
    (orderly : Orderly start first ⟨world, id :: rest, visited⟩ schema)
    {entry : Nat} (found : schema.root[id]? = some entry)
    (live : entry ≠ 0) :
    id ∉ visited ∧ (visited ≠ [] ∨ id < start.treeMeta.curId →
      LiveAt schema id entry) := by
  -- an id that was given out is counted while its entry is not zero
  have counted (below : id < start.treeMeta.curId) :
      LiveAt schema id entry := by
    refine ⟨?_, found, live⟩
    by_contra past
    exact live (orderly.dead id below (Or.inl (by omega)) entry found)
  rcases orderly.pending with inside | ⟨-, none⟩
  · have below := inside id (List.mem_cons_self ..)
    constructor
    · intro member
      exact live (orderly.dead id below (Or.inr member) entry found)
    · intro _
      exact counted below
  · dsimp only at none
    subst none
    refine ⟨List.not_mem_nil, ?_⟩
    rintro (nested | below)
    · exact absurd rfl nested
    · exact counted below

/-- Ids that were off the array stay off when another one is freed. -/
theorem dead_freed {other : Nat} (dead : other ≠ id → Dead schema other) :
    Dead (schema.freed id) other := by
  intro entry found
  obtain ⟨kept, -⟩ := List.getElem?_eq_some_iff.mp found
  rw [TreeSchema.freed_getElem? kept] at found
  by_cases same : other = id
  · rw [if_pos same] at found
    exact (Option.some.inj found).symm
  · rw [if_neg same] at found
    exact dead same entry found

theorem Orderly.granted
    (orderly : Orderly start first ⟨world, id :: rest, visited⟩ schema)
    (outcome : Visited start.treeMeta.curId world.file schema id (some named)
      final) :
    ∃ schema', Orderly start first ⟨final, named ++ rest, id :: visited⟩
      schema' := by
  obtain ⟨entry, schema', found, live, stored, template, counter, keeps,
    children⟩ := outcome
  obtain ⟨fresh, -⟩ := orderly.fresh found live
  have drops : schema'.treeMeta.curId = schema.treeMeta.curId ∨
      schema.treeMeta.curId = id + 1 ∧ schema'.treeMeta.curId = id := by
    rw [counter]
    simp only [TreeSchema.freed]
    split_ifs <;> omega
  have below := orderly.counter
  have restInside : ∀ other ∈ rest, other < start.treeMeta.curId := by
    rcases orderly.pending with inside | ⟨only, -⟩
    · exact fun other member => inside other (List.mem_cons_of_mem _ member)
    · obtain ⟨-, rfl⟩ := List.cons.inj only
      exact fun other member => absurd member List.not_mem_nil
  refine ⟨schema', stored, template.trans orderly.template, by omega, ?_, ?_,
    ?_, ?_⟩
  · intro other inside gone
    apply keeps other inside
    apply dead_freed
    intro different
    apply orderly.dead other inside
    rcases gone with past | member
    · left
      omega
    · right
      exact (List.mem_cons.mp member).resolve_left different
  · exact List.nodup_cons.mpr ⟨fresh, orderly.distinct⟩
  · left
    intro other member
    rcases List.mem_append.mp member with child | later
    · obtain ⟨offset, live'⟩ := children other child
      have := live'.counted
      omega
    · exact restInside other later
  · intro other member
    rcases List.mem_cons.mp member with rfl | earlier
    · rcases orderly.pending with inside | ⟨only, -⟩
      · exact Or.inl (inside other (List.mem_cons_self ..))
      · exact Or.inr (List.cons.inj only).1
    · exact orderly.visited other earlier

theorem Orderly.refused
    (orderly : Orderly start first ⟨world, id :: rest, visited⟩ schema)
    (outcome : Visited start.treeMeta.curId world.file schema id none final) :
    Orderly start first ⟨final, rest, visited⟩ schema where
  stored := by
    rw [outcome.2]
    exact orderly.stored
  template := orderly.template
  counter := orderly.counter
  dead := orderly.dead
  distinct := orderly.distinct
  pending := by
    left
    rcases orderly.pending with inside | ⟨only, -⟩
    · exact fun other member => inside other (List.mem_cons_of_mem _ member)
    · obtain ⟨-, rfl⟩ := List.cons.inj only
      exact fun other member => absurd member List.not_mem_nil
  visited := orderly.visited

/-- Every agenda that a removal reaches is orderly. -/
theorem exists_orderly {agenda : Agenda World Nat}
    (fills : FillsHoles swap start.treeMeta.curId world first)
    (stored : SchemaAt world.file start)
    (run : Run (visit swap) ⟨world, [first], []⟩ agenda) :
    ∃ schema, Orderly start first agenda schema := by
  induction run with
  | refl => exact ⟨start, orderly_start stored first⟩
  | tail run step ih =>
      obtain ⟨schema, orderly⟩ := ih
      cases step with
      | refused ran =>
          have visits := orderly.stored.ends_visit (fills _ run)
          exact ⟨schema, orderly.refused (ends_of_run visits ran)⟩
      | granted ran =>
          have visits := orderly.stored.ends_visit (fills _ run)
          exact orderly.granted (ends_of_run visits ran)

/-- No more ids are visited with success than there are, the first one apart. -/
theorem Orderly.visited_length_le {agenda : Agenda World Nat}
    (orderly : Orderly start first agenda schema) :
    agenda.visited.length ≤ start.treeMeta.curId + 1 := by
  have bounded : agenda.visited ⊆ first :: List.range start.treeMeta.curId := by
    intro id member
    rcases orderly.visited id member with below | rfl
    · exact List.mem_cons_of_mem _ (List.mem_range.mpr below)
    · exact List.mem_cons_self ..
  have := (List.subperm_of_subset orderly.distinct bounded).length_le
  simpa using this

end Runs

section Holes

variable {swap : Nat → Nat → Prog CrudStatus} {world : World}
  {schema : TreeSchema} {id count : Nat}

/-- The entries of the id array lead behind it. -/
def LeadsBehind (schema : TreeSchema) : Prop :=
  ∀ id entry : Nat, schema.root[id]? = some entry → entry ≠ 0 →
    schema.arrayEnd ≤ entry

theorem TreeSchema.freed_arrayEnd_le (schema : TreeSchema) (id : Nat) :
    (schema.freed id).arrayEnd ≤ schema.arrayEnd := by
  have := schema.freed_length id
  simp only [TreeSchema.arrayEnd, TreeSchema.bytes_length,
    TreeSchema.freed] at this ⊢
  omega

theorem LeadsBehind.freed (behind : LeadsBehind schema) (id : Nat) :
    LeadsBehind (schema.freed id) := by
  intro other entry found live
  obtain ⟨kept, -⟩ := List.getElem?_eq_some_iff.mp found
  rw [TreeSchema.freed_getElem? kept] at found
  split_ifs at found with same
  · exact absurd (Option.some.inj found).symm live
  · exact (schema.freed_arrayEnd_le id).trans (behind other entry found live)

/-- The holes of an array that leads behind itself lie behind it. -/
theorem SchemaAt.hole_behind (stored : SchemaAt world.file schema)
    (behind : LeadsBehind schema) {dest nodeSize : Nat} {middle : World}
    (took : (takeOff id).run world = .ok (some (dest, nodeSize), middle)) :
    SchemaAt middle.file (schema.freed id) ∧
      (schema.freed id).arrayEnd ≤ dest := by
  rcases ends_of_run stored.ends_takeOff took with ⟨none, -⟩ |
    ⟨entry, same, found, live, stored'⟩
  · cases none
  · cases same
    have place := behind id dest found live
    exact ⟨stored', (schema.freed_arrayEnd_le id).trans place⟩

/-- A visit that succeeds has filled a hole and then scanned for children. -/
theorem exists_of_visit {final : World} {named : List Nat}
    (ran : (visit swap id).run world = .ok (some named, final)) :
    ∃ dest nodeSize middle status moved children,
      (takeOff id).run world = .ok (some (dest, nodeSize), middle) ∧
      (swap dest nodeSize).run middle = .ok (status, moved) ∧
      (findByParent id).run moved = .ok (children, final) := by
  obtain ⟨hole, middle, took, onward⟩ := exists_of_run_bind ran
  cases hole with
  | none => cases onward
  | some hole =>
      obtain ⟨status, moved, filled, scanned⟩ := exists_of_run_bind onward
      obtain ⟨children, last, found, returned⟩ := exists_of_run_bind scanned
      cases returned
      exact ⟨_, _, middle, status, moved, children, took, filled, found⟩

/-- Where the array leads behind itself, it is enough that holes behind it are
filled by moving bytes, and that it goes on to lead behind itself. -/
theorem fillsHoles_of_behind (stored : SchemaAt world.file schema)
    (behind : LeadsBehind schema)
    (moves : ∀ dest nodeSize world schema, SchemaAt world.file schema →
      LeadsBehind schema → schema.arrayEnd ≤ dest →
      MovesBytes swap count dest nodeSize world ∧
      ∀ status final schema', SchemaAt final.file schema' →
        (swap dest nodeSize).run world = .ok (status, final) →
        LeadsBehind schema') : FillsHoles swap count world id := by
  have fills (agenda : Agenda World Nat) (schema : TreeSchema)
      (stored : SchemaAt agenda.state.file schema)
      (behind : LeadsBehind schema) : FillsHole swap count agenda := by
    intro id _ dest nodeSize middle _ took
    obtain ⟨stored', place⟩ := stored.hole_behind behind took
    exact (moves dest _ middle _ stored' (behind.freed id) place).1
  have leads (agenda : Agenda World Nat)
      (run : Run (visit swap) ⟨world, [id], []⟩ agenda) :
      ∃ schema, SchemaAt agenda.state.file schema ∧ LeadsBehind schema := by
    induction run with
    | refl => exact ⟨schema, stored, behind⟩
    | tail run step ih =>
        obtain ⟨before, stored', behind'⟩ := ih
        cases step with
        | refused ran =>
            have visits := stored'.ends_visit (fills _ _ stored' behind')
            obtain ⟨-, same⟩ := ends_of_run visits ran
            exact ⟨before, same ▸ stored', behind'⟩
        | @granted state state' key named rest visited ran =>
            obtain ⟨dest, nodeSize, middle, status, moved, children, took,
              filled, scanned⟩ := exists_of_visit ran
            obtain ⟨stored'', place⟩ := stored'.hole_behind behind' took
            obtain ⟨moves', behindStill⟩ :=
              moves dest _ middle _ stored'' (behind'.freed key) place
            obtain ⟨after, here, -⟩ := ends_of_run (moves' _ stored'') filled
            obtain ⟨kept, -⟩ := wp_of_run (here.wp_findByParent key) scanned
            refine ⟨after, ?_, behindStill _ _ _ here filled⟩
            rw [kept]
            exact here
  intro agenda run
  obtain ⟨before, stored', behind'⟩ := leads agenda run
  exact fills agenda before stored' behind'

end Holes

section Recursion

variable {swap : Nat → Nat → Prog CrudStatus} {world : World}
  {schema : TreeSchema} {id : Nat}

/-- Without STRING attributes, a call is a visit and the calls on the
children. -/
theorem SchemaAt.removeNodeWith_succ (stored : SchemaAt world.file schema)
    (numbers : STRING ∉ schema.types) (fuel : Nat) :
    (removeNodeWith swap (fuel + 1) id false).run world =
      (do
        match ← visit swap id with
        | none => return .fail
        | some named =>
            named.forM fun child => do
              let _ ← removeNodeWith swap fuel child false
            return .success : Prog CrudStatus).run world := by
  obtain ⟨_, middle, ran, rfl⟩ := @SchemaAt.wp_getTypes world schema
    (fun result _ => (schema.types, schema.treeMeta.templateSize) = result)
    stored fun _ => rfl
  have noString (fieldNum : Nat) : schema.types[fieldNum]? ≠ some STRING :=
    fun string => numbers (List.mem_of_getElem? string)
  have idle (fields : List Nat) :
      (fields.forM fun _ => (pure PUnit.unit : Prog PUnit)) =
        pure PUnit.unit := by
    induction fields with
    | nil => rfl
    | cons field fields ih =>
        rw [List.forM, pure_bind]
        exact ih
  have mapped (children : List ResultSetNode) (call : Nat → Prog PUnit) :
      (children.map (·.id)).forM call =
        children.forM fun child => call child.id := by
    induction children with
    | nil => rfl
    | cons child children ih =>
        rw [List.map_cons, List.forM, List.forM, ih]
  rw [removeNodeWith, visit, takeOff]
  simp only [bind_assoc]
  rw [run_bind_of ran, run_bind_of ran]
  dsimp only
  rw [if_neg Bool.false_ne_true]
  apply congrArg (fun next => (removeFromIdArray id >>= next).run middle)
  funext found
  cases found with
  | none => rfl
  | some offset =>
      simp only [noString, if_false, idle, mapped, bind_assoc, pure_bind]

/-- The recursion does what the machine does, with a fuel that exceeds the
number of ids. -/
theorem SchemaAt.does_removeNodeWith (stored : SchemaAt world.file schema)
    (numbers : STRING ∉ schema.types)
    (fills : FillsHoles swap schema.treeMeta.curId world id) {fuel : Nat}
    (enough : schema.treeMeta.curId + 1 < fuel) :
    Does (visit swap) (removeNodeWith swap fuel id false) ⟨world, [id], []⟩
      [] := by
  apply @does_of_bounded World Fault Nat CrudStatus (visit swap)
    (fun fuel id => removeNodeWith swap fuel id false)
    (schema.treeMeta.curId + 1) ⟨world, [id], []⟩
  · intro agenda run
    obtain ⟨schema', orderly⟩ := exists_orderly fills stored run
    exact orderly.visited_length_le
  · rintro fuel ⟨world', _, visited⟩ key rest run rfl deeper
    obtain ⟨schema', orderly⟩ := exists_orderly fills stored run
    have numbers' : STRING ∉ schema'.types := by
      rw [TreeSchema.types, orderly.template]
      exact numbers
    apply Does.congr _ (orderly.stored.removeNodeWith_succ numbers' fuel)
    apply does_visit
    · intro state' ran
      exact does_pure CrudStatus.fail
    · intro named state' ran
      apply Does.bind_pure
      apply does_forM rfl
      rintro ⟨world'', _, visited'⟩ child rest' onward rfl
      apply Does.bind_pure
      apply deeper _ child rest' _ onward.visited_length_le rfl
      exact (run.tail (.granted ran)).trans onward
  · exact .refl
  · rfl
  · exact enough

end Recursion

/-- A call that does not fail at once takes an id off the array that has not
been taken off before, and goes on to live ids.  A nested call finds its id
live; so does the outermost one, unless that id was never given out. -/
structure Kills (count id : Nat) (agenda : Agenda World Nat) (named : List Nat)
    (final : World) : Prop where
  once : id ∉ agenda.visited
  live : agenda.visited ≠ [] ∨ id < count → ∃ before offset after,
    SchemaAt agenda.state.file before ∧ LiveAt before id offset ∧
      SchemaAt final.file after ∧ Dead after id
  children : ∃ after, SchemaAt final.file after ∧
    ∀ child ∈ named, ∃ offset, LiveAt after child offset

/-- Removal comes to an end on every graph of parent links.  A run of the
recursion is one of the machine, in which no id is removed twice. -/
theorem removeNode_ends {swap : Nat → Nat → Prog CrudStatus} {world : World}
    {schema : TreeSchema} (stored : SchemaAt world.file schema)
    (numbers : STRING ∉ schema.types) {id : Nat}
    (fills : FillsHoles swap schema.treeMeta.curId world id) :
    (∀ fuel, schema.treeMeta.curId + 1 < fuel →
      ends (removeNodeWith swap fuel id false)
        (fun _ final => ∃ removed,
          Run (visit swap) ⟨world, [id], []⟩ ⟨final, [], removed⟩)
        (fun fault => fault ≠ .outOfFuel ∧ ∃ agenda,
          Run (visit swap) ⟨world, [id], []⟩ agenda ∧
            Stuck (visit swap) agenda fault) world) ∧
    ∀ agenda, Run (visit swap) ⟨world, [id], []⟩ agenda →
      agenda.visited.Nodup ∧
      ∀ nested rest named final, agenda.pending = nested :: rest →
        (visit swap nested).run agenda.state = .ok (some named, final) →
        Kills schema.treeMeta.curId nested agenda named final := by
  constructor
  · intro fuel enough
    apply ends_mono (stored.does_removeNodeWith numbers fills enough)
    · exact fun _ _ does => does
    · rintro fault ⟨agenda, run, stuck⟩
      refine ⟨?_, agenda, run, stuck⟩
      obtain ⟨schema', orderly⟩ := exists_orderly fills stored run
      obtain ⟨world', _, visited⟩ := agenda
      obtain ⟨nested, rest, rfl, faulted⟩ := stuck
      have visits := orderly.stored.ends_visit (fills _ run)
      have other := ends_of_error visits faulted
      exact other
  · rintro ⟨world', _, visited⟩ run
    obtain ⟨before, orderly⟩ := exists_orderly fills stored run
    refine ⟨orderly.distinct, ?_⟩
    rintro nested rest named final rfl ran
    have visits := orderly.stored.ends_visit (fills _ run)
    obtain ⟨entry, after, found, live, stored', -, -, keeps, children⟩ :=
      ends_of_run visits ran
    obtain ⟨once, counted⟩ := orderly.fresh found live
    refine ⟨once, ?_, after, stored', children⟩
    intro given
    have liveAt := counted given
    refine ⟨before, entry, after, orderly.stored, liveAt, stored', ?_⟩
    apply keeps nested (liveAt.counted.trans_le orderly.counter)
    exact dead_freed fun different => absurd rfl different

/-- `FillsHole` as a test. -/
def fillsHole (swap : Nat → Nat → Prog CrudStatus) (count : Nat)
    (agenda : Agenda World Nat) : Bool :=
  match agenda.pending with
  | [] => true
  | id :: _ =>
      match (takeOff id).run agenda.state with
      | .ok (some (dest, nodeSize), middle) =>
          match (swap dest nodeSize).run middle with
          | .ok (_, final) =>
              let schema := schemaOf middle.file
              let schema' := schemaOf final.file
              decide (SchemaAt final.file schema' ∧
                schema'.nodesTemplate = schema.nodesTemplate ∧
                schema'.treeMeta = schema.treeMeta ∧
                ∀ id < count, schema.root[id]? = some 0 →
                  schema'.root[id]? = some 0)
          | .error fault => decide (fault ≠ .outOfFuel)
      | _ => true

theorem fillsHole_of_test {swap : Nat → Nat → Prog CrudStatus} {count : Nat}
    {agenda : Agenda World Nat} (tested : fillsHole swap count agenda = true) :
    FillsHole swap count agenda := by
  intro id rest dest nodeSize middle pending took schema stored
  simp only [fillsHole, pending, took] at tested
  have same : schemaOf middle.file = schema := by
    rw [schemaOf, stored.outcome]
  rw [same] at tested
  apply ends_intro
  · intro status final filled
    rw [filled] at tested
    exact ⟨_, of_decide_eq_true tested⟩
  · intro fault faulted
    rw [faulted] at tested
    exact of_decide_eq_true tested

/-- Two nodes, each the parent of the other. -/
def parentCycle : List UInt8 :=
  Op.fileAfter (.add [⟨7, []⟩] 0)
    (Op.fileAfter (.add [⟨7, []⟩] 1) (singleSchema INT).bytes)

/-- The removal of the first of two nodes, each the parent of the other, goes on
to the second one and ends there. -/
theorem removeNode_ends_cycle :
    (∃ final, Run (visit swapLastNode) ⟨blankWorld parentCycle, [0], []⟩
      ⟨final, [], [1, 0]⟩) ∧
    ends (removeNodeWith swapLastNode 4 0 false)
      (fun _ final => ∃ removed, Run (visit swapLastNode)
        ⟨blankWorld parentCycle, [0], []⟩ ⟨final, [], removed⟩)
      (fun fault => fault ≠ .outOfFuel ∧ ∃ agenda,
        Run (visit swapLastNode) ⟨blankWorld parentCycle, [0], []⟩ agenda ∧
          Stuck (visit swapLastNode) agenda fault) (blankWorld parentCycle) ∧
    ∃ agenda named final, agenda.visited = [0] ∧
      Kills 2 1 agenda named final := by
  obtain ⟨file, cycle, stored, types, counter, first, second, throughout⟩ :
      ∃ file, file = parentCycle ∧
      SchemaAt file (schemaOf file) ∧ (schemaOf file).types = [INT] ∧
      (schemaOf file).treeMeta.curId = 2 ∧
      (next (visit swapLastNode) ⟨blankWorld file, [0], []⟩).map
        (fun agenda => (agenda.pending, agenda.visited)) = some ([1], [0]) ∧
      ((next (visit swapLastNode) ⟨blankWorld file, [0], []⟩).bind
        (next (visit swapLastNode))).map
        (fun agenda => (agenda.pending, agenda.visited)) =
          some ([], [1, 0]) ∧
      Throughout (visit swapLastNode)
        (fun agenda => fillsHole swapLastNode 2 agenda = true) 3
        ⟨blankWorld file, [0], []⟩ :=
    ⟨parentCycle, rfl, by decide +kernel⟩
  rw [← cycle]
  have numbers : STRING ∉ (schemaOf file).types := by
    rw [types]
    decide
  have fills : FillsHoles swapLastNode (schemaOf file).treeMeta.curId
      (blankWorld file) 0 := by
    intro agenda run
    rw [counter]
    exact fillsHole_of_test (throughout.of_run run)
  obtain ⟨recursion, runs⟩ := @removeNode_ends swapLastNode (blankWorld file)
    _ stored numbers 0 fills
  rw [counter] at recursion runs
  obtain ⟨⟨nested, _, _⟩, follows, middle⟩ := Option.map_eq_some_iff.mp first
  rw [follows, Option.bind_some] at second
  obtain ⟨⟨final, _, _⟩, follows', last⟩ := Option.map_eq_some_iff.mp second
  cases middle
  cases last
  have run := Relation.ReflTransGen.single (step_iff_next.mpr follows)
  have step := step_iff_next.mpr follows'
  obtain ⟨named, ran⟩ := step.exists_granted rfl (by simp)
  have kills := (runs _ run).2 1 [] named final rfl ran
  exact ⟨⟨final, run.tail step⟩, recursion 4 (by norm_num), _, named, final,
    rfl, kills⟩

end TreeStore
