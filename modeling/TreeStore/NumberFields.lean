import TreeStore.InsertCommand
import TreeStore.UpdatedFields

/-!
# Numbers in fields

A number that is handed over for a new node, or that an update writes last, is
what `getNode` delivers.
-/

namespace TreeStore

open ByteFile ProgramLogic

/-- Field `position` of node `id` is this number. -/
def HoldsNumber (file : List UInt8) (id position number : Nat) : Prop :=
  ∃ fields, Delivers file id fields ∧ fields[position]? = some (.word number)

/-- Every setting writes a number. -/
def WritesNumbers {ε : Type} (steps : List (Step ε)) : Prop :=
  ∀ step ∈ steps, ∃ position number, step = .write position (.number number)

section Holding

variable {img : Image} {nodes : List NodeImage} {file : List UInt8}
  {id position number : Nat}

theorem HoldsNumber.unique {number' : Nat}
    (first : HoldsNumber file id position number)
    (second : HoldsNumber file id position number') : number = number' := by
  obtain ⟨fields, delivers, here⟩ := first
  obtain ⟨fields', delivers', here'⟩ := second
  obtain rfl := delivers.unique delivers'
  rw [here] at here'
  exact FieldValue.word.inj (Option.some.inj here')

/-- A number that is added is in the field of the new node. -/
theorem Added.holdsNumber {values : List Slot} {parent word : UInt64}
    (store : StoreAt img nodes file) {file' : List UInt8}
    (added : Added img nodes values parent file')
    (typed : img.types[position]? = some INT)
    (given : values[position]? = some (numberSlot word)) :
    HoldsNumber file' img.curId position word.toNat := by
  obtain ⟨node, target, root, top, recs, -, stores, store'⟩ := added
  have found := @addedNodes_new _ _ node target store.count
  have nodeAt := store'.layout.nodeAt _ _ found
  have number : img.types[position]? ≠ some STRING := by
    rw [typed]
    decide
  obtain ⟨old, here⟩ := nodeAt.fieldsAt.field_of_not_string
    (List.getElem?_eq_some_iff.mp typed).1 number
  refine ⟨_, store'.delivers found, ?_⟩
  obtain rfl : old = word.toNat := stores position _ _ here given
  rw [NodeImage.values, List.getElem?_map, here]
  rfl

end Holding

section Steps

variable {ε : Type} {img : Image} {node : NodeImage} {world : World}
  {fuel stack id position number : Nat} {front back : List (Step ε)}

theorem WritesNumbers.exists_words {steps : List (Step ε)}
    (numbers : WritesNumbers steps) : ∃ words, steps = numberSteps words := by
  induction steps with
  | nil => exact ⟨[], rfl⟩
  | cons step steps ih =>
      obtain ⟨position, number, rfl⟩ := numbers step (List.mem_cons_self ..)
      obtain ⟨words, rfl⟩ := ih fun step member =>
        numbers step (List.mem_cons_of_mem _ member)
      exact ⟨(position, number) :: words, rfl⟩

theorem ending_numberSteps (words : List (Nat × Nat)) :
    ending (@numberSteps ε words) = some none := by
  induction words with
  | nil => rfl
  | cons word words ih => exact ih

theorem lastGiven_append_cons {given later : List (Nat × GivenValue)}
    {value : GivenValue} (last : ∀ other ∈ later, other.1 ≠ position) :
    lastGiven (given ++ (position, value) :: later) position = some value := by
  have none : later.filter (·.1 = position) = [] := by
    apply List.filter_eq_nil_iff.mpr
    intro other member
    simpa using last other member
  rw [lastGiven, List.filter_append, List.filter_cons_of_pos (by simp), none,
    List.getLast?_concat]
  rfl

/-- What is written last into a field is in it. -/
theorem LiveNode.wp_runUpdate_holdsNumber
    (live : LiveNode img id node world.file)
    (fits : ∀ step ∈ front ++ .write position (.number number) :: back,
      step.Fits img.types)
    (numbers : WritesNumbers
      (front ++ .write position (.number number) :: back))
    (last : ∀ step ∈ back, ∀ source, step ≠ .write position source) :
    wp (runUpdate fuel stack id
        (front ++ .write position (.number number) :: back))
      (fun result final => result = none ∧
        HoldsNumber final.file id position number) world := by
  obtain ⟨words, rfl⟩ := WritesNumbers.exists_words
    fun step member => numbers step (List.mem_append_left _ member)
  obtain ⟨later, rfl⟩ := WritesNumbers.exists_words fun step member =>
    numbers step (List.mem_append_right _ (List.mem_cons_of_mem _ member))
  have whole : numberSteps words ++
      .write position (.number number) :: numberSteps later =
        @numberSteps ε (words ++ (position, number) :: later) := by
    rw [numberSteps, numberSteps, numberSteps, List.map_append, List.map_cons]
  have inside : position < img.types.length := by
    obtain ⟨-, type, typed, -⟩ := fits _
      (List.mem_append_right _ (List.mem_cons_self ..))
    exact (List.getElem?_eq_some_iff.mp typed).1
  rw [whole] at fits ⊢
  have ends := @ending_numberSteps ε (words ++ (position, number) :: later)
  have given := @LiveNode.wp_runUpdate_given ε img node id _ _ world fuel stack
    live fits ends (writesGiven_numberSteps _)
  obtain ⟨result, final, runs, fields, delivers, count, asGiven⟩ := given
  refine ⟨result, final, runs, ?_, fields, delivers, ?_⟩
  · obtain ⟨value, between, -, later⟩ := exists_of_run_bind runs
    have ended := runSteps_ending later
    rw [ends] at ended
    exact (Option.some.inj ended).symm
  · have sized : position < fields.length := by
      rw [count, NodeImage.values, List.length_map,
        live.nodeAt.fieldsAt.count]
      exact inside
    have here := List.getElem?_eq_getElem sized
    have isGiven := asGiven position _ here
    have lastIs : lastGiven ((words ++ (position, number) :: later).map
        fun word => (word.1, GivenValue.word word.2)) position =
          some (.word number) := by
      rw [List.map_append, List.map_cons]
      apply lastGiven_append_cons
      intro other member same
      obtain ⟨word, there, rfl⟩ := List.mem_map.mp member
      obtain ⟨place, value⟩ := word
      obtain rfl : place = position := same
      exact last _ (List.mem_map_of_mem there) _ rfl
    rw [AsGiven, lastIs] at isGiven
    rw [here]
    cases shown : fields[position] with
    | text block =>
        rw [shown] at isGiven
        exact False.elim isGiven
    | word value =>
        rw [shown] at isGiven
        exact congrArg (fun number => some (FieldValue.word number)) isGiven

end Steps

/-- A store of this schema is served with this template. -/
structure Serves (file : List UInt8) (schema : TreeSchema)
    (template : List NodeAttributeInfo) : Prop where
  stored : SchemaAt file schema
  types : schema.types = template.map (·.type)

/-- An addition that a call hands over, of fields that fit the store. -/
structure Addition {α : Type}
    (call : (List Slot → UInt64 → Prog CrudStatus) → Prog α) (success : α)
    (fields : List Slot) (parent : UInt64) (template : List NodeAttributeInfo)
    (world : World) (schema : TreeSchema) : Prop where
  typed : Typed template
  hands : HandsOver call success fields parent world
  healthy : Healthy world.file
  serves : Serves world.file schema template
  fits : AddFits world.file schema fields

/-- A number that is handed over is in the new node. -/
theorem Addition.wp {α : Type}
    {call : (List Slot → UInt64 → Prog CrudStatus) → Prog α} {success : α}
    {fields : List Slot} {parent : UInt64}
    {template : List NodeAttributeInfo} {world : World} {schema : TreeSchema}
    {position : Nat} {word : UInt64}
    (addition : Addition call success fields parent template world schema)
    (int : (template.map (·.type))[position]? = some INT)
    (given : fields[position]? = some (numberSlot word)) :
    wp (call addNode) (fun code final => code = success ∧
      HoldsNumber final.file schema.treeMeta.curId position word.toNat)
      world := by
  obtain ⟨img, nodes, store, -⟩ := addition.healthy
  obtain rfl := store.schema_eq addition.serves.stored
  have runs : ProgramLogic.wp (do
      let _ ← addNode fields parent
      return success : Prog α) (fun code final => code = success ∧
        HoldsNumber final.file img.schema.treeMeta.curId position word.toNat)
      { world with blocks := world.blocks + 1 } := by
    apply wp_bind_of (StoreAt.add (by exact store) (by exact addition.fits))
    rintro status final ⟨-, added⟩
    rw [wp_pure]
    refine ⟨rfl, added.holdsNumber store ?_ given⟩
    rw [← int, ← addition.serves.types]
  obtain ⟨code, final, ran, holds⟩ := runs
  exact ⟨code, final, (addition.hands addNode).trans ran, holds⟩

/-- What the last setting of a field writes is in it, if all write numbers. -/
theorem Serves.wp_runUpdate {ε : Type} {template : List NodeAttributeInfo}
    {schema : TreeSchema} {world : World}
    {fuel stack id offset position number : Nat}
    {front steps back : List (Step ε)}
    (serves : Serves world.file schema template) (sound : Sound world.file)
    (liveAt : LiveAt schema id offset)
    (fits : ∀ step ∈ steps, step.Fits (template.map (·.type)))
    (numbers : WritesNumbers steps)
    (parts : steps = front ++ .write position (.number number) :: back)
    (last : ∀ step ∈ back, ∀ source, step ≠ .write position source) :
    wp (runUpdate fuel stack id steps) (fun result final => result = none ∧
      HoldsNumber final.file id position number) world := by
  obtain ⟨img, node, rfl, live, -⟩ := sound.exists_liveNode serves.stored liveAt
  subst parts
  apply live.wp_runUpdate_holdsNumber _ numbers last
  have types : img.types = template.map (·.type) := serves.types
  rw [types]
  exact fits

end TreeStore
