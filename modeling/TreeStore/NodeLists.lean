import TreeStore.FailedUpdates
import TreeStore.Keeping
import TreeStore.Library.TracedRuns
import TreeStore.Replacing

/-!
# The store as a list of nodes

What the store is for: it keeps nodes, each with a parent and its fields, and
numbers them in the order in which they come.  A file that is only changed by
calls that fit, and that loses nothing when it grows, shows exactly the nodes
that such a list would have after the same calls.
-/

namespace TreeStore

open ByteFile ProgramLogic LinkedRecords GuardedRuns

/-- A node as a reader sees it. -/
structure NodeView where
  parent : Nat
  fields : List FieldValue
  deriving DecidableEq, Repr

/-- The block that the records of a text make up. -/
def paddedText (realSize : Nat) (text : List UInt8) : List UInt8 :=
  text ++ List.replicate
    (realSize * recordCount text.length realSize - text.length) 0

/-- The field that holds a new value. -/
def FieldValue.ofSlot (realSize type : Nat) (value : Slot) : FieldValue :=
  if type = STRING then .text (paddedText realSize (textOf value.deref))
  else .word value.word.toNat

/-- The field after an update.  A string is written over the beginning of the
old one. -/
def FieldValue.overwritten (newValue : CharPtr) : FieldValue → FieldValue
  | .word _ => .word (leValue (newValue.take 8))
  | .text block =>
      .text (textOf newValue ++ block.drop (textOf newValue).length)

def NodeView.overwritten (fieldNumber : Nat) (newValue : CharPtr)
    (node : NodeView) : NodeView where
  parent := node.parent
  fields := node.fields.modify fieldNumber (FieldValue.overwritten newValue)

/-- A new node. -/
def NodeView.new (types : List Nat) (values : List Slot) (parent : UInt64) :
    NodeView where
  parent := parent.toNat
  fields := List.zipWith (FieldValue.ofSlot (getRealNodeSize types.length))
    types values

/-- What a call does to the list. -/
def Op.apply (types : List Nat) : Op → List NodeView → List NodeView
  | .add values parent, list => list ++ [.new types values parent]
  | .update fieldNumber newValue id, list =>
      list.modify id (NodeView.overwritten fieldNumber newValue)
  | .remove id, list => list.eraseIdx id

/-- What a call answers. -/
def Op.answer : Op → List NodeView → CrudStatus
  | .remove id, list => if id < list.length then .success else .fail
  | _, _ => .success

/-- Calls that fit, after which no old node has lost a byte: growth loses
nothing, and a new number has eight bytes. -/
def Faithful : Op → List UInt8 → Prop
  | .add values _, file => ∃ schema, SchemaAt file schema ∧
      AddFits file schema values ∧ GrowthLossless file schema
  | .update fieldNumber newValue id, file => ∃ schema, SchemaAt file schema ∧
      UpdateFits file schema fieldNumber newValue id ∧
        (schema.types[fieldNumber]? ≠ some STRING → 8 ≤ newValue.length)
  | .remove id, file => ∃ schema, SchemaAt file schema ∧
      RemoveFits file schema id

/-- The ids of the file are those of the list, and each has the parent and the
fields that the list has for it. -/
def Represents (types : List Nat) (file : List UInt8) (list : List NodeView) :
    Prop :=
  ∃ schema, SchemaAt file schema ∧ schema.types = types ∧
    schema.treeMeta.curId = list.length ∧
      ∀ (id : Nat) (node : NodeView), list[id]? = some node →
        Shows file id node.parent node.fields

/-- What a stored node looks like to a reader. -/
def NodeImage.view (realSize : Nat) (node : NodeImage) : NodeView where
  parent := node.parent
  fields := node.values realSize

/-- A healthy store that looks like the list. -/
def Mirrors (types : List Nat) (file : List UInt8) (list : List NodeView) :
    Prop :=
  ∃ img nodes, StoreAt img nodes file ∧ img.schema.treeMeta.rootOffset = 0 ∧
    img.types = types ∧ list = nodes.map (NodeImage.view img.realSize)

section Fields

variable {realSize : Nat}

/-- The field of a new node shows the value that it stores. -/
theorem FieldImage.Stores.value_eq {type : Nat} {value : Slot}
    {field : FieldImage} (stores : field.Stores realSize value)
    (typed : type = STRING ↔ ∃ chain, field = .str chain)
    (positive : 0 < realSize) :
    field.value realSize = .ofSlot realSize type value := by
  unfold FieldValue.ofSlot
  cases field with
  | num word =>
      have number : type ≠ STRING := by
        intro string
        obtain ⟨chain, ⟨⟩⟩ := typed.mp string
      rw [if_neg number]
      exact congrArg FieldValue.word stores
  | str chain =>
      rw [if_pos (typed.mpr ⟨chain, rfl⟩)]
      apply congrArg FieldValue.text
      have assembled := stores.assembled (zero_notMem_textOf value.deref) positive
      rw [stores.count, List.flatMap_map] at assembled
      exact assembled

/-- The data of a chain that has been read to some record. -/
theorem assemble_drop (chain : List (Nat × List UInt8)) (count : Nat) :
    assemble realSize (chain.drop count) =
      (assemble realSize chain).drop (realSize * count) := by
  induction chain generalizing count with
  | nil => simp [assemble]
  | cons entry chain ih =>
      cases count with
      | zero => rfl
      | succ count =>
          have parts : assemble realSize (entry :: chain) =
            strncpy entry.2 realSize ++ assemble realSize chain := rfl
          have length : (strncpy entry.2 realSize).length = realSize := by simp
          have beyond : (strncpy entry.2 realSize).drop
              (realSize * (count + 1)) = [] := by
            apply List.drop_eq_nil_of_le
            rw [length, Nat.mul_succ]
            omega
          rw [List.drop_succ_cons, ih, parts, List.drop_append, beyond, length,
            List.nil_append, Nat.mul_succ, Nat.add_sub_cancel]

/-- The field after an update shows the new value. -/
theorem FieldImage.Updated.value_eq {newValue : CharPtr}
    {field field' : FieldImage} (updated : field.Updated realSize newValue field')
    (takes : field.Takes realSize newValue) (positive : 0 < realSize)
    (long : (∃ word, field = .num word) → 8 ≤ newValue.length) :
    field'.value realSize = (field.value realSize).overwritten newValue := by
  cases updated with
  | @num old word stored =>
      exact congrArg FieldValue.word (stored (long ⟨old, rfl⟩))
  | @str chain count filled =>
      obtain ⟨terminated, count', -, fits, filled'⟩ := takes
      obtain rfl : count = count' := by
        rw [filled] at filled'
        exact Nat.eq_of_mul_eq_mul_left positive filled'
      apply congrArg FieldValue.text
      rw [assemble_overwrite terminated filled.ge fits, assemble_drop, ← filled,
        List.take_length]

end Fields

/-- Setting an element, seen through a function. -/
theorem map_set_eq_modify {α β : Type} {view : α → β} {change : β → β}
    {list : List α} {place : Nat} {old new : α}
    (found : list[place]? = some old) (same : view new = change (view old)) :
    (list.set place new).map view = (list.map view).modify place change := by
  have inside := (List.getElem?_eq_some_iff.mp found).1
  apply List.ext_getElem?
  intro position
  rw [List.getElem?_map]
  by_cases here : place = position
  · subst here
    rw [List.getElem?_set_self inside, List.getElem?_modify_eq,
      List.getElem?_map, found]
    exact congrArg some same
  · rw [List.getElem?_set_ne here, List.getElem?_modify_ne _ _ here,
      List.getElem?_map]

section Steps

variable {types : List Nat} {file : List UInt8} {list : List NodeView}
  {img : Image} {nodes : List NodeImage} {world : World} {fuel : Nat}

theorem StoreAt.realSize_eq (store : StoreAt img nodes file) :
    getRealNodeSize img.types.length = img.realSize := by
  rw [store.holds.types_length]

/-- The new node of an addition looks as it should. -/
theorem StoreAt.view_new {values : List Slot} {parent : UInt64}
    {node : NodeImage} {address : Nat → Nat} {recs : Nat → Option KeyNode}
    {owner : Nat} (store : StoreAt img nodes file)
    (complete : img.types.length ≤ values.length)
    (fieldsAt : FieldsAt address recs img.types owner node.fields)
    (parentEq : node.parent = parent.toNat)
    (stores : ∀ (position : Nat) (field : FieldImage) (value : Slot),
      node.fields[position]? = some field → values[position]? = some value →
        field.Stores img.realSize value) :
    node.view img.realSize = .new img.types values parent := by
  unfold NodeImage.view NodeView.new NodeImage.values
  rw [parentEq, store.realSize_eq]
  congr 1
  apply List.ext_getElem?
  intro position
  rw [List.getElem?_map, List.getElem?_zipWith]
  by_cases inside : position < img.types.length
  · have fieldFound := List.getElem?_eq_getElem (fieldsAt.count.symm ▸ inside)
    have typeFound := List.getElem?_eq_getElem inside
    have valueFound := List.getElem?_eq_getElem (inside.trans_le complete)
    have typed := fieldsAt.typed _ _ fieldFound
    rw [typeFound, Option.some.injEq] at typed
    rw [fieldFound, typeFound, valueFound]
    exact congrArg some
      ((stores _ _ _ fieldFound valueFound).value_eq typed img.realSize_pos)
  · have none := List.getElem?_eq_none_iff.mpr (Nat.le_of_not_lt inside)
    have none' : node.fields[position]? = Option.none :=
      List.getElem?_eq_none_iff.mpr (by rw [fieldsAt.count]; omega)
    rw [none, none']
    rfl

/-- If the old nodes are kept, they look the same. -/
theorem StoreAt.views_added {file' : List UInt8} {root : List Nat}
    {top target : Nat} {recs : Nat → Option KeyNode} {node : NodeImage}
    (store : StoreAt img nodes file) (keeps : KeepsNodes file file')
    (store' : StoreAt ⟨img.schema.counted root, top, recs⟩
      (addedNodes img target nodes node) file') :
    (addedNodes img target nodes node).map (NodeImage.view img.realSize) =
      nodes.map (NodeImage.view img.realSize) ++ [node.view img.realSize] := by
  have kept (id : Nat) (old : NodeImage) (found : nodes[id]? = some old) :
      ((if idUnit img.templateSize ∣ img.curId + 1 then
        old.relocate img.realSize img.reserved target else old).view
          img.realSize) = old.view img.realSize := by
    obtain ⟨parent, fields, before, after⟩ :=
      keeps _ id _ store.schemaAt (store.liveAt found)
    have same := before.fields_unique (store.shows found)
    have same' := after.fields_unique (store'.shows (addedNodes_old found))
    unfold NodeImage.view
    rw [← same, same']
    split_ifs <;> rfl
  unfold addedNodes
  rw [List.map_append]
  apply congrArg (· ++ [node.view img.realSize])
  apply List.ext_getElem?
  intro id
  cases found : nodes[id]? with
  | none =>
      have outside := List.getElem?_eq_none_iff.mp found
      rw [List.getElem?_eq_none_iff.mpr, List.getElem?_eq_none_iff.mpr]
      · simpa using outside
      · split_ifs <;> simpa using outside
  | some old =>
      have looks := kept id old found
      rw [List.getElem?_map, List.getElem?_map, found]
      split_ifs at looks ⊢
      · rw [List.getElem?_map, found]
        exact congrArg some looks
      · rw [found]

theorem Mirrors.add {values : List Slot} {parent : UInt64}
    {schema : TreeSchema} (mirrors : Mirrors types world.file list)
    (stored : SchemaAt world.file schema)
    (fits : AddFits world.file schema values)
    (lossless : GrowthLossless world.file schema) :
    wp (addNode values parent) (fun status final => status = .success ∧
      Mirrors types final.file (list ++ [.new types values parent])) world := by
  obtain ⟨img, nodes, store, noRoot, rfl, rfl⟩ := mirrors
  obtain rfl := store.schema_eq stored
  apply wp_mono (store.add fits)
  rintro status final ⟨rfl, added⟩
  have keeps := (added.keepsNodes_iff store fits).mpr lossless
  obtain ⟨node, target, root, top, recs, parentEq, stores, store'⟩ := added
  have nodeAt := store'.layout.nodeAt _ _
    (@addedNodes_new _ _ node target store.count)
  refine ⟨rfl, _, _, store', noRoot, rfl, ?_⟩
  rw [← store.view_new fits.storable.complete nodeAt.fieldsAt parentEq stores]
  exact (store.views_added keeps store').symm

theorem Mirrors.update {fieldNumber id : Nat} {newValue : CharPtr}
    {schema : TreeSchema} (mirrors : Mirrors types world.file list)
    (stored : SchemaAt world.file schema)
    (fits : UpdateFits world.file schema fieldNumber newValue id)
    (long : schema.types[fieldNumber]? ≠ some STRING → 8 ≤ newValue.length)
    (enough : world.file.length ≤ fuel) :
    wp (updateNode fuel fieldNumber newValue id) (fun status final =>
      status = .success ∧ Mirrors types final.file
        (list.modify id (NodeView.overwritten fieldNumber newValue))) world := by
  obtain ⟨img, nodes, store, noRoot, rfl, rfl⟩ := mirrors
  obtain rfl := store.schema_eq stored
  obtain ⟨node, field, found, fieldFound, takes⟩ := store.takes fits
  apply wp_mono (store.update_fits fits enough)
  rintro status final ⟨rfl, node', field', after, recs, found', fieldFound',
    updated, store'⟩
  obtain rfl := Option.some.inj (found.symm.trans found')
  obtain rfl := Option.some.inj (fieldFound.symm.trans fieldFound')
  refine ⟨rfl, _, _, store', noRoot, rfl, ?_⟩
  have shown := updated.value_eq takes img.realSize_pos (by
    rintro ⟨word, rfl⟩
    apply long
    intro string
    obtain ⟨chain, ⟨⟩⟩ :=
      ((store.layout.nodeAt id node found).fieldsAt.typed _ _ fieldFound).mp
        string)
  symm
  apply map_set_eq_modify found
  change NodeImage.view img.realSize (node.setField fieldNumber after) = _
  unfold NodeImage.view NodeView.overwritten NodeImage.values NodeImage.setField
  dsimp only
  rw [map_set_eq_modify fieldFound shown]

theorem Mirrors.remove {id : Nat} {schema : TreeSchema}
    (mirrors : Mirrors types world.file list)
    (stored : SchemaAt world.file schema)
    (fits : RemoveFits world.file schema id)
    (enough : world.file.length ≤ fuel) :
    wp (removeNode fuel id false) (fun status final =>
      status = (Op.remove id).answer list ∧
        Mirrors types final.file (list.eraseIdx id)) world := by
  obtain ⟨img, nodes, store, noRoot, rfl, rfl⟩ := mirrors
  obtain rfl := store.schema_eq stored
  simp only [Op.answer, List.length_map]
  rcases fits with refused | fits
  · have dead : nodes.length ≤ id := by
      by_contra live
      have entry := store.root id _
        (List.getElem?_eq_getElem (Nat.lt_of_not_le live))
      rw [refused] at entry
      exact absurd (Option.some.inj entry).symm (Nat.ne_of_gt img.slotOffset_pos)
    apply wp_mono (store.remove_refused refused enough)
    rintro status final ⟨rfl, same⟩
    rw [if_neg (Nat.not_lt.mpr dead), same,
      List.eraseIdx_of_length_le (by rwa [List.length_map])]
    exact ⟨rfl, img, nodes, store, noRoot, rfl, rfl⟩
  · obtain ⟨only, rfl⟩ : img.schema.treeMeta.curId = 1 ∧ id = 0 := by
      rcases fits with numbers | string
      · exact ⟨numbers.only, numbers.first⟩
      · exact ⟨string.only, string.first⟩
    have one : nodes.length = 1 := store.count.trans only
    obtain ⟨node, rfl⟩ := List.length_eq_one_iff.mp one
    apply wp_mono (store.remove_only noRoot fits enough)
    rintro status final ⟨rfl, store'⟩
    rw [if_pos (by rw [one]; exact Nat.one_pos)]
    exact ⟨rfl, _, _, store', noRoot, rfl, rfl⟩

/-- Every faithful call does to the file what it does to the list. -/
theorem Mirrors.step {op : Op} (mirrors : Mirrors types world.file list)
    (faithful : Faithful op world.file) (enough : world.file.length ≤ fuel) :
    wp (op.exec fuel) (fun status final => status = op.answer list ∧
      Mirrors types final.file (op.apply types list)) world := by
  cases op with
  | add values parent =>
      obtain ⟨schema, stored, fits, lossless⟩ := faithful
      exact mirrors.add stored fits lossless
  | update fieldNumber newValue id =>
      obtain ⟨schema, stored, fits, long⟩ := faithful
      exact mirrors.update stored fits long enough
  | remove id =>
      obtain ⟨schema, stored, fits⟩ := faithful
      exact mirrors.remove stored fits enough

theorem Mirrors.represents (mirrors : Mirrors types file list) :
    Represents types file list := by
  obtain ⟨img, nodes, store, -, rfl, rfl⟩ := mirrors
  refine ⟨img.schema, store.schemaAt, rfl, ?_, ?_⟩
  · rw [List.length_map]
    exact store.count.symm
  · intro id node found
    rw [List.getElem?_map] at found
    obtain ⟨stored, here, rfl⟩ := Option.map_eq_some_iff.mp found
    exact store.shows here

theorem mirrors_created {specs : List AttributeSpec}
    (created : Created specs file) :
    Mirrors (specs.map (·.type)) file [] := by
  obtain ⟨few, fit, small, world, status, final, blank, runs, rfl⟩ := created
  have made : wp (initEmptyFile specs) (fun _ final =>
      ∃ template, template.map (·.type) = specs.map (·.type) ∧
        (emptySchema template).Valid ∧
          final.file = (emptySchema template).bytes) world :=
    wp_initEmptyFile blank few fit fun template _ _ types _ valid =>
      ⟨template, types, valid, rfl⟩
  obtain ⟨template, types, valid, fileEq⟩ := wp_of_run made runs
  rw [fileEq] at small ⊢
  exact ⟨_, _, storeAt_empty valid small, rfl, types, rfl⟩

end Steps

/-- The runs with these calls, the last one in front. -/
abbrev Ran (specs : List AttributeSpec) (guard : Op → List UInt8 → Prop) :
    List Op → List UInt8 → Prop :=
  Traced (Created specs) Op.Returns guard

/-- The list after these calls, the last one in front. -/
abbrev listAfter (types : List Nat) : List Op → List NodeView :=
  after (Op.apply types) []

theorem mirrors_of_ran {specs : List AttributeSpec} {calls : List Op}
    {file : List UInt8} (ran : Ran specs Faithful calls file) :
    Mirrors (specs.map (·.type)) file
      (listAfter (specs.map (·.type)) calls) := by
  apply ran.simulates
  · exact fun _ => mirrors_created
  · intro op file file' list mirrors faithful returns
    apply returns.satisfies
    rintro world fuel rfl enough
    exact wp_mono (mirrors.step faithful enough) fun _ _ both => both.2

/-- What a list tells of a call. -/
theorem Mirrors.call {types : List Nat} {list : List NodeView} {op : Op}
    {world : World} {fuel : Nat} (mirrors : Mirrors types world.file list)
    (faithful : Faithful op world.file) (enough : world.file.length ≤ fuel) :
    Represents types world.file list ∧
      wp (op.exec fuel) (fun status final => status = op.answer list ∧
        Represents types final.file (op.apply types list)) world := by
  refine ⟨mirrors.represents, ?_⟩
  apply wp_mono (mirrors.step faithful enough)
  rintro status final ⟨answer, mirrors'⟩
  exact ⟨answer, mirrors'.represents⟩

/-- After every run of faithful calls, the file shows exactly the nodes of the
list, and a further faithful call returns, answers as the list does, and shows
the list after it. -/
theorem calls_refine {specs : List AttributeSpec} {calls : List Op} {op : Op}
    {world : World} {fuel : Nat} (ran : Ran specs Faithful calls world.file)
    (faithful : Faithful op world.file) (enough : world.file.length ≤ fuel) :
    Represents (specs.map (·.type)) world.file
        (listAfter (specs.map (·.type)) calls) ∧
      wp (op.exec fuel) (fun status final =>
        status = op.answer (listAfter (specs.map (·.type)) calls) ∧
          Represents (specs.map (·.type)) final.file
            (listAfter (specs.map (·.type)) (op :: calls))) world :=
  (mirrors_of_ran ran).call faithful enough

theorem created_number :
    Created [singleSpec INT number_lt] (singleSchema INT).bytes := by
  rw [← createdFile_number]
  apply created_createdFile (by decide) (by simp [singleSpec_fits])
  rw [createdFile_number, singleSchema_length]
  decide

theorem returns_seven :
    (Op.add [⟨7, []⟩] 7).Returns (singleSchema INT).bytes oneSeven := by
  apply Op.returns_fileAfter
  decide +kernel

theorem ran_seven :
    Ran [singleSpec INT number_lt] Faithful [.add [⟨7, []⟩] 7] oneSeven := by
  apply Traced.next _ (.initial created_number) _ returns_seven
  exact ⟨_, schemaAt_single (by decide), addFits_seven,
    fun grows => absurd grows (by decide)⟩

/-- The only number of the store becomes eight. -/
theorem calls_refine_seven :
    Represents [INT] oneSeven [⟨7, [.word 7]⟩] ∧
      wp (updateNode oneSeven.length 0 (leBytes 8 8) 0) (fun status final =>
        status = .success ∧ Represents [INT] final.file [⟨7, [.word 8]⟩])
        (blankWorld oneSeven) := by
  obtain ⟨-, stored, live, -, -⟩ := oneSeven_stored
  have types := oneSeven_types
  have ran := ran_seven
  generalize oneSeven = file at stored live types ran ⊢
  have fits : UpdateFits file (schemaOf file) 0 (leBytes 8 8) 0 := by
    refine ⟨live.counted, ?_, ?_⟩
    · rw [types]
      decide
    · rw [types]
      exact fun string => absurd string (by decide)
  exact @calls_refine [singleSpec INT number_lt] [.add [⟨7, []⟩] 7]
    (.update 0 (leBytes 8 8) 0) (blankWorld file) _ ran
    ⟨_, stored, fits, fun _ => by decide⟩ le_rfl

end TreeStore
